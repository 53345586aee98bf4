import Mathlib.Data.List.TakeWhile
import Yaz.Pqf.Written
import Yaz.Server.SrwLists

/-! SRU Update: `yaz_ucp_codec`, from a PDU to elements and back.

There is no extra data in a PDU here, and namespaces are not looked at when an element is read. The functions of libxml2 that read and write
the XML of a record, and the tables of messages, are parameters.
-/

set_option autoImplicit false

namespace Yaz.Server.Srw
open List
open Yaz.Comstack (ascii)
open Yaz.Pqf (intText odrAtoi_signed)
open Yaz.Zoom (atoi)
open Yaz.Xml.Decoding (Node)

inductive Operation where
  | insert
  | replace
  | delete
  deriving DecidableEq

/-- `Z_SRW_updateRequest`. -/
structure UpdateRequest where
  operation : Option Operation
  recordId : Option (List UInt8)
  recordVersions : List RecordVersion
  record : Option SrwRecord
  stylesheet : Option (List UInt8)
  database : Option (List UInt8)
  deriving DecidableEq

/-- `Z_SRW_updateResponse`. -/
structure UpdateResponse where
  operationStatus : Option (List UInt8)
  recordId : Option (List UInt8)
  recordVersions : List RecordVersion
  record : Option SrwRecord
  diagnostics : List Diagnostic
  deriving DecidableEq

/-- The part of `Z_SRW_PDU` that is coded: the version, and a request or a response. -/
inductive UpdatePdu where
  | request (srwVersion : Option (List UInt8)) (req : UpdateRequest)
  | response (srwVersion : Option (List UInt8)) (res : UpdateResponse)
  deriving DecidableEq

/-! ### Encoding -/

def textElement (elem : String) (content : List UInt8) : Node := .element (ascii elem) [] [.text content]

def addXsdString (elem : String) (val : Option (List UInt8)) : List Node := val.toList.map (textElement elem)

def Packing.text : Packing → String
  | .string => "string"
  | .xml => "xml"
  | .url => "url"

def Operation.text : Operation → String
  | .insert => "insert"
  | .replace => "replace"
  | .delete => "delete"

section

variable (parse : List UInt8 → Option Node) (dump : Node → List UInt8) (diagSrwStr diagSruUpdateStr : Int → Option (List UInt8))

def recordDataNodes (rec : SrwRecord) : List Node :=
  match rec.recordData, rec.recordPacking with
  | none, _ => [.element (ascii "recordData") [] []]
  | some _, none => []
  | some data, some .xml => (parse data).toList.map fun root => .element (ascii "recordData") [] [root]
  | some data, some _ => [textElement "recordData" (data.takeWhile (· ≠ 0))]

/-- `yaz_srw_record`, without extra data. -/
def encodeRecord (rec : SrwRecord) : List Node :=
  (rec.recordSchema.map (textElement "recordSchema")).getD (.element (ascii "recordSchema") [] []) ::
    (addXsdString "recordPacking" (rec.recordPacking.map fun pack => ascii pack.text) ++ recordDataNodes parse rec ++
      addXsdString "recordPosition" (rec.recordPosition.map fun n => intText n.toInt))

/-- A record without data is left out. -/
def encodeRecords (record : Option SrwRecord) : List Node :=
  (record.filter fun rec => rec.recordData.getD [] ≠ []).toList.map fun rec => .element (ascii "record") [] (encodeRecord parse rec)

/-- `yaz_srw_versions`: the elements stand in the request or response itself. -/
def encodeVersions (vers : List RecordVersion) : List Node :=
  vers.map fun rec => .element (ascii "version") []
    (addXsdString "versionType" rec.versionType ++ addXsdString "versionValue" rec.versionValue)

/-- The message that goes with a URI. -/
def messageOf (uri : List UInt8) : Option (List UInt8) :=
  if ascii "info:srw/diagnostic/1/" <+: uri then diagSrwStr (atoi (uri.drop 22)).toInt
  else if ascii "info:srw/diagnostic/12/" <+: uri then diagSruUpdateStr (atoi (uri.drop 23)).toInt
  else none

def Diagnostic.encode (d : Diagnostic) : Node :=
  .element (ascii "diagnostic") [] (addXsdString "uri" d.uri ++ addXsdString "details" d.details ++
    addXsdString "message" (d.message.or (d.uri.bind (messageOf diagSrwStr diagSruUpdateStr))))

/-- `yaz_ucp_codec`, encoding. -/
def ucpEncode : UpdatePdu → Node
  | .request srwVersion req =>
    .element (ascii "updateRequest") [] (addXsdString "version" srwVersion ++
      addXsdString "action" (req.operation.map fun o => ascii o.text) ++
      addXsdString "recordIdentifier" req.recordId ++ encodeVersions req.recordVersions ++ encodeRecords parse req.record ++
      addXsdString "stylesheet" req.stylesheet ++ addXsdString "database" req.database)
  | .response srwVersion res =>
    .element (ascii "updateResponse") [] (addXsdString "version" srwVersion ++ addXsdString "operationStatus" res.operationStatus ++
      addXsdString "recordIdentifier" res.recordId ++ encodeVersions res.recordVersions ++ encodeRecords parse res.record ++
      if res.diagnostics = [] then []
      else [.element (ascii "diagnostics") [] (res.diagnostics.map (Diagnostic.encode diagSrwStr diagSruUpdateStr))])

/-! ### Decoding -/

def Operation.ofAction (oper : List UInt8) : Option Operation :=
  if oper = ascii "info:srw/action/1/delete" then some .delete
  else if oper = ascii "info:srw/action/1/replace" then some .replace
  else if oper = ascii "info:srw/action/1/create" then some .insert
  else none

def requestStep (s : Option (List UInt8) × UpdateRequest) (ptr : Node) : Option (List UInt8) × UpdateRequest :=
  if isNamed "version" ptr then (some (firstText (childrenOf ptr)), s.2)
  else if isNamed "action" ptr then (s.1, { s.2 with operation := (Operation.ofAction (firstText (childrenOf ptr))).or s.2.operation })
  else if isNamed "recordIdentifier" ptr then (s.1, { s.2 with recordId := some (firstText (childrenOf ptr)) })
  else if isNamed "recordVersions" ptr then (s.1, { s.2 with recordVersions := (yazSrwVersions (childrenOf ptr)).stores.map Prod.fst })
  else if isNamed "record" ptr then (s.1, { s.2 with record := some (yazSrwRecord dump ptr).1 })
  else if isNamed "stylesheet" ptr then (s.1, { s.2 with stylesheet := some (firstText (childrenOf ptr)) })
  else if isNamed "database" ptr then (s.1, { s.2 with database := some (firstText (childrenOf ptr)) })
  else s

def responseStep (s : Option (List UInt8) × UpdateResponse) (ptr : Node) : Option (List UInt8) × UpdateResponse :=
  if isNamed "version" ptr then (some (firstText (childrenOf ptr)), s.2)
  else if isNamed "operationStatus" ptr then (s.1, { s.2 with operationStatus := some (firstText (childrenOf ptr)) })
  else if isNamed "recordIdentifier" ptr then (s.1, { s.2 with recordId := some (firstText (childrenOf ptr)) })
  else if isNamed "recordVersions" ptr then (s.1, { s.2 with recordVersions := (yazSrwVersions (childrenOf ptr)).stores.map Prod.fst })
  else if isNamed "record" ptr then (s.1, { s.2 with record := some (yazSrwRecord dump ptr).1 })
  else if isNamed "diagnostics" ptr then (s.1, { s.2 with diagnostics := (yazSrwDecodeDiagnostics (childrenOf ptr)).stores.map Prod.fst })
  else s

/-- `yaz_ucp_codec`, decoding. -/
def ucpDecode (method : Node) : Option UpdatePdu :=
  if isNamed "updateRequest" method then
    let s := (childrenOf method).foldl (requestStep dump) (some (ascii "2.0"), ⟨none, none, [], none, none, none⟩)
    some (.request s.1 s.2)
  else if isNamed "updateResponse" method then
    let s := (childrenOf method).foldl (responseStep dump) (some (ascii "2.0"), ⟨none, none, [], none, []⟩)
    some (.response s.1 s.2)
  else none

/-! ### When a PDU comes back -/

def UpdatePdu.record : UpdatePdu → Option SrwRecord
  | .request _ req => req.record
  | .response _ res => res.record

/-- A record whose schema and data are there, without a NUL in the data. -/
def SrwRecord.Whole (rec : SrwRecord) : Prop := rec.recordSchema ≠ none ∧ rec.recordData.getD [] ≠ [] ∧ 0 ∉ rec.recordData.getD []

/-- There is a version and no record version, a record is whole, no operation is asked for, and no message is added to a diagnostic. -/
def UpdatePdu.Survives : UpdatePdu → Prop
  | .request srwVersion req =>
    srwVersion ≠ none ∧ req.recordVersions = [] ∧ (∀ rec ∈ req.record, rec.Whole) ∧ req.operation = none
  | .response srwVersion res =>
    srwVersion ≠ none ∧ res.recordVersions = [] ∧ (∀ rec ∈ res.record, rec.Whole) ∧
      ∀ d ∈ res.diagnostics, d.message ≠ none ∨ d.uri.bind (messageOf diagSrwStr diagSruUpdateStr) = none

/-- The record that is read where one was written. -/
def SrwRecord.reread (rec : SrwRecord) : SrwRecord :=
  { recordSchema := some (rec.recordSchema.getD []), recordPacking := some .string,
    recordData := some ((rec.recordData.getD []).takeWhile (· ≠ 0)), recordPosition := rec.recordPosition }

variable {parse} {dump} {diagSrwStr} {diagSruUpdateStr} {record : Option SrwRecord}

theorem isNamed_element (elem : String) (children : List Node) : isNamed elem (.element (ascii elem) [] children) = true :=
  decide_eq_true rfl

theorem yazSrwRecord_encode {rec : SrwRecord} (string : rec.recordPacking = some .string) (filled : rec.recordData.getD [] ≠ []) :
    (yazSrwRecord dump (.element (ascii "record") [] (encodeRecord parse rec))).1 = rec.reread := by
  obtain ⟨schema, packing, data, position⟩ := rec
  cases string
  cases data with
  | none => exact absurd rfl filled
  | some =>
    cases schema <;> cases position <;>
      simp +decide [yazSrwRecord, childrenOf, encodeRecord, recordDataNodes, addXsdString, textElement, recordStep, firstText, firstInteger,
        isElement, SrwRecord.reread, odrAtoi_signed]

theorem readDiagnostic_encode (d : Diagnostic) : readDiagnostic (d.encode diagSrwStr diagSruUpdateStr) =
    { d with message := d.message.or (d.uri.bind (messageOf diagSrwStr diagSruUpdateStr)) } := by
  obtain ⟨uri, details, message⟩ := d
  rw [Diagnostic.encode, readDiagnostic]
  generalize message.or (uri.bind (messageOf diagSrwStr diagSruUpdateStr)) = message
  cases uri <;> cases details <;> cases message <;>
    simp +decide [childrenOf, addXsdString, textElement, diagnosticStep, isNamed, firstText]

theorem diagnostics_encode (diagnostics : List Diagnostic) :
    ((yazSrwDecodeDiagnostics (diagnostics.map (Diagnostic.encode diagSrwStr diagSruUpdateStr))).stores.map Prod.fst) =
      diagnostics.map fun d => { d with message := d.message.or (d.uri.bind (messageOf diagSrwStr diagSruUpdateStr)) } := by
  have exact : (yazSrwDecodeDiagnostics (diagnostics.map (Diagnostic.encode diagSrwStr diagSruUpdateStr))).stores = _ := fill_exact.2
  have all : (diagnostics.map (Diagnostic.encode diagSrwStr diagSruUpdateStr)).filter (isNamed "diagnostic") =
      diagnostics.map (Diagnostic.encode diagSrwStr diagSruUpdateStr) := by
    rw [filter_eq_self, forall_mem_map]
    exact fun d _ => isNamed_element _ _
  rw [exact, all, zipIdx_map_fst, map_map]
  exact map_congr_left fun d _ => readDiagnostic_encode d

/-- The elements of record versions are read as versions of the protocol. -/
theorem foldl_versions {S : Type} {step : Option (List UInt8) × S → Node → Option (List UInt8) × S}
    (reads : ∀ s ptr, isNamed "version" ptr = true → step s ptr = (some (firstText (childrenOf ptr)), s.2)) (vers : List RecordVersion)
    (s : Option (List UInt8) × S) : (encodeVersions vers).foldl step s = (if vers = [] then s.1 else some [], s.2) := by
  have blank : ∀ rec : RecordVersion,
    firstText (addXsdString "versionType" rec.versionType ++ addXsdString "versionValue" rec.versionValue) = [] := by
    rintro ⟨versionType, versionValue⟩
    cases versionType <;> cases versionValue <;> rfl
  induction vers generalizing s with
  | nil => rfl
  | cons _ _ ih =>
    rw [encodeVersions, map_cons, foldl_cons, reads _ _ (isNamed_element _ _), childrenOf, blank, ← encodeVersions, ih]
    split <;> simp

/-- What is read where a record may have been written. -/
def rereadRecord (record : Option SrwRecord) : Option SrwRecord :=
  (record.filter fun rec => rec.recordData.getD [] ≠ []).map SrwRecord.reread

theorem foldl_record {S : Type} {step : S → Node → S} {set : Option SrwRecord → S} {s : S}
    (string : ∀ rec ∈ record, rec.recordPacking = some .string)
    (reads : ∀ children, step s (.element (ascii "record") [] children) =
      set (some (yazSrwRecord dump (.element (ascii "record") [] children)).1)) (same : set none = s) :
    (encodeRecords parse record).foldl step s = set (rereadRecord record) := by
  cases record with
  | none => exact same.symm
  | some rec =>
    by_cases filled : rec.recordData.getD [] = []
    · rw [encodeRecords, rereadRecord, Option.filter_some_neg (by simpa using filled)]
      exact same.symm
    · rw [encodeRecords, rereadRecord, Option.filter_some_pos (by simpa using filled)]
      exact (reads _).trans (by rw [yazSrwRecord_encode (string rec rfl) filled]; rfl)

theorem rereadRecord_eq_iff (string : ∀ rec ∈ record, rec.recordPacking = some .string) : rereadRecord record = record ↔
    ∀ rec ∈ record, rec.Whole := by
  cases record with
  | none => exact iff_of_true rfl nofun
  | some rec =>
    have packing := string rec rfl
    obtain ⟨schema, _, data, position⟩ := rec
    cases packing
    simp only [Option.mem_def, Option.some.injEq, forall_eq', SrwRecord.Whole]
    cases data with
    | none => simp [rereadRecord, Option.filter_some]
    | some data =>
      have cut : data.takeWhile (· ≠ 0) = data ↔ 0 ∉ data := by
        rw [takeWhile_eq_self_iff]
        exact ⟨fun all zero => absurd (all 0 zero) (by decide), fun free c member => decide_eq_true fun zero => free (zero ▸ member)⟩
      by_cases blank : data = []
      · simp [rereadRecord, Option.filter_some, blank]
      · cases schema with
        | none => simp [rereadRecord, SrwRecord.reread]
        | some => simpa [rereadRecord, Option.filter_some, SrwRecord.reread, blank] using cut

theorem foldl_string {S : Type} {step : S → Node → S} {elem : String} (set : Option (List UInt8) → S) (val : Option (List UInt8))
    (reads : ∀ content, step (set none) (textElement elem content) = set (some content)) :
    (addXsdString elem val).foldl step (set none) = set val := by
  cases val with
  | none => rfl
  | some content => exact reads content

theorem request_decode (srwVersion : Option (List UInt8)) (req : UpdateRequest)
    (string : ∀ rec ∈ req.record, rec.recordPacking = some .string) :
    ucpDecode dump (ucpEncode parse diagSrwStr diagSruUpdateStr (.request srwVersion req)) =
      some (.request (if req.recordVersions = [] then srwVersion.or (some (ascii "2.0")) else some [])
        { req with operation := none, recordVersions := [], record := rereadRecord req.record }) := by
  obtain ⟨operation, recordId, recordVersions, record, stylesheet, database⟩ := req
  have version (req : UpdateRequest) : (addXsdString "version" srwVersion).foldl (requestStep dump) (some (ascii "2.0"), req) =
      (srwVersion.or (some (ascii "2.0")), req) := foldl_string (fun v => (v.or (some (ascii "2.0")), req)) srwVersion fun _ => rfl
  have action : ∀ s : Option (List UInt8) × UpdateRequest,
    (addXsdString "action" (operation.map fun o => ascii o.text)).foldl (requestStep dump) s = s := by
    intro s
    have other : ∀ o : Operation, Operation.ofAction (ascii o.text) = none := by rintro ⟨⟩ <;> decide
    cases operation <;> simp +decide [addXsdString, textElement, requestStep, isNamed, childrenOf, firstText, other]
  have identifier (v operation versions record stylesheet database) := @foldl_string _ (requestStep dump) "recordIdentifier"
    (fun id => (v, ⟨operation, id, versions, record, stylesheet, database⟩)) recordId fun _ => rfl
  have style (v operation id versions record database) := @foldl_string _ (requestStep dump) "stylesheet"
    (fun stylesheet => (v, ⟨operation, id, versions, record, stylesheet, database⟩)) stylesheet fun _ => rfl
  have base (v operation id versions record stylesheet) := @foldl_string _ (requestStep dump) "database"
    (fun database => (v, ⟨operation, id, versions, record, stylesheet, database⟩)) database fun _ => rfl
  have versions := @foldl_versions _ (requestStep dump) fun s ptr named => by rw [requestStep, if_pos named]
  have records (s : Option (List UInt8) × UpdateRequest) (none : s.2.record = none) := @foldl_record parse dump record _ (requestStep dump)
    (fun record => (s.1, { s.2 with record := record })) s string (fun name => rfl) (by rw [← none])
  rw [ucpEncode, ucpDecode, if_pos (isNamed_element _ _), childrenOf]
  simp only [List.foldl_append, version, action, identifier, versions, records, style, base]

theorem response_decode (srwVersion : Option (List UInt8)) (res : UpdateResponse)
    (string : ∀ rec ∈ res.record, rec.recordPacking = some .string) :
    ucpDecode dump (ucpEncode parse diagSrwStr diagSruUpdateStr (.response srwVersion res)) =
      some (.response (if res.recordVersions = [] then srwVersion.or (some (ascii "2.0")) else some [])
        { res with
          recordVersions := []
          record := rereadRecord res.record
          diagnostics := res.diagnostics.map fun d =>
            { d with message := d.message.or (d.uri.bind (messageOf diagSrwStr diagSruUpdateStr)) } }) := by
  obtain ⟨operationStatus, recordId, recordVersions, record, diagnostics⟩ := res
  have version (res : UpdateResponse) : (addXsdString "version" srwVersion).foldl (responseStep dump) (some (ascii "2.0"), res) =
      (srwVersion.or (some (ascii "2.0")), res) := foldl_string (fun v => (v.or (some (ascii "2.0")), res)) srwVersion fun _ => rfl
  have status (v id versions record diagnostics) := @foldl_string _ (responseStep dump) "operationStatus"
    (fun status => (v, ⟨status, id, versions, record, diagnostics⟩)) operationStatus fun _ => rfl
  have identifier (v status versions record diagnostics) := @foldl_string _ (responseStep dump) "recordIdentifier"
    (fun id => (v, ⟨status, id, versions, record, diagnostics⟩)) recordId fun _ => rfl
  have versions := @foldl_versions _ (responseStep dump) fun s ptr named => by rw [responseStep, if_pos named]
  have records (s : Option (List UInt8) × UpdateResponse) (none : s.2.record = none) :=
    @foldl_record parse dump record _ (responseStep dump)
    (fun record => (s.1, { s.2 with record := record })) s string (fun name => rfl) (by rw [← none])
  rw [ucpEncode, ucpDecode, if_neg (by simp +decide [isNamed]), if_pos (isNamed_element _ _), childrenOf]
  simp only [List.foldl_append, version, status, identifier, versions, records]
  by_cases none : diagnostics = []
  · rw [if_pos none, none]
    rfl
  · rw [if_neg none, List.foldl_cons, List.foldl_nil, ← diagnostics_encode]
    rfl

/-! ### The round trip -/

/-- A PDU comes back as it was exactly when it survives. -/
theorem ucpDecode_ucpEncode_iff (parse : List UInt8 → Option Node) (dump : Node → List UInt8)
    (diagSrwStr diagSruUpdateStr : Int → Option (List UInt8))
    (pdu : UpdatePdu) (string : ∀ rec ∈ pdu.record, rec.recordPacking = some .string) :
    ucpDecode dump (ucpEncode parse diagSrwStr diagSruUpdateStr pdu) = some pdu ↔ pdu.Survives diagSrwStr diagSruUpdateStr := by
  have version : ∀ (srwVersion : Option (List UInt8)) (vers : List RecordVersion),
    ((if vers = [] then srwVersion.or (some (ascii "2.0")) else some []) =
      srwVersion ∧ [] = vers) ↔ srwVersion ≠ none ∧ vers = [] := by
    intro srwVersion vers
    cases srwVersion <;> cases vers <;> simp
  cases pdu with
  | request _ req =>
    obtain ⟨operation, recordId, recordVersions, record, stylesheet, database⟩ := req
    rw [request_decode _ _ string, UpdatePdu.Survives, ← @rereadRecord_eq_iff record string, ← and_assoc, ← version]
    simp only [Option.some.injEq, UpdatePdu.request.injEq, UpdateRequest.mk.injEq, true_and, and_true]
    constructor
    · rintro ⟨hv, ho, hl, hr⟩
      exact ⟨⟨hv, hl⟩, hr, ho.symm⟩
    · rintro ⟨⟨hv, hl⟩, hr, ho⟩
      exact ⟨hv, ho.symm, hl, hr⟩
  | response _ res =>
    obtain ⟨operationStatus, recordId, recordVersions, record, diagnostics⟩ := res
    have same : (diagnostics.map fun d =>
      { d with message := d.message.or (d.uri.bind (messageOf diagSrwStr diagSruUpdateStr)) }) = diagnostics ↔
        ∀ d ∈ diagnostics, d.message ≠ none ∨ d.uri.bind (messageOf diagSrwStr diagSruUpdateStr) = none := by
      nth_rewrite 2 [← map_id diagnostics]
      refine map_inj_left.trans (forall₂_congr fun d _ => ?_)
      obtain ⟨uri, details, message⟩ := d
      cases message <;> simp
    rw [response_decode _ _ string, UpdatePdu.Survives, ← @rereadRecord_eq_iff record string, ← and_assoc, ← version, ← same]
    simp only [Option.some.injEq, UpdatePdu.response.injEq, UpdateResponse.mk.injEq, true_and, and_assoc]

/-- A response with a record. -/
theorem ucpDecode_ucpEncode_iff_response :
    let pdu := UpdatePdu.response (some (ascii "1.0"))
      ⟨some (ascii "success"), some (ascii "7"), [], some ⟨some (ascii "marc"), some .string, some (ascii "x"), none⟩, []⟩
    (∀ rec ∈ pdu.record, rec.recordPacking = some .string) ∧
      (ucpDecode (fun _ => []) (ucpEncode (fun _ => none) (fun _ => none) (fun _ => none) pdu) = some pdu ↔
        pdu.Survives (fun _ => none) (fun _ => none)) :=
  ⟨by decide, ucpDecode_ucpEncode_iff _ _ _ _ _ (by decide)⟩

/-- The action of a request to insert is written in a word that is not read. -/
theorem ucpDecode_ucpEncode_insert :
    ¬ ∀ (parse : List UInt8 → Option Node) (dump : Node → List UInt8) (diagSrwStr diagSruUpdateStr : Int → Option (List UInt8))
      (pdu : UpdatePdu),
      (∀ rec ∈ pdu.record, rec.recordPacking = some .string) →
        ucpDecode dump (ucpEncode parse diagSrwStr diagSruUpdateStr pdu) = some pdu := by
  intro all
  have := all (fun _ => none) (fun _ => []) (fun _ => none) (fun _ => none)
    (.request (some (ascii "1.0")) ⟨some .insert, some (ascii "7"), [], none, none, none⟩) (by decide)
  exact absurd this (by decide)

end

end Yaz.Server.Srw
