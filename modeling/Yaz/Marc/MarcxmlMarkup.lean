import Yaz.Marc.Marcxml

/-! The markup of a record that is written as MARCXML is that of the shapes of its nodes, unless a comment leaks. -/

set_option autoImplicit false

namespace Yaz.Marc
open List
open Yaz.Comstack
open Yaz.Http (cString decimal)
open Yaz.Foundation.Markup

def IsContent (text : List UInt8) : Prop := ∀ c ∈ text, c ≠ lt ∧ c ≠ gt ∧ c ≠ quot ∧ c ≠ apos

theorem xmlputs_content (text : List UInt8) : IsContent (xmlputs text) := by
  intro c inside
  obtain ⟨d, -, written⟩ := mem_flatMap.mp inside
  have one : ∀ escape : List UInt8, (escape.all fun c => c ≠ lt && c ≠ gt && c ≠ quot && c ≠ apos) = true → c ∈ escape →
      c ≠ lt ∧ c ≠ gt ∧ c ≠ quot ∧ c ≠ apos := by
    intro escape all inside
    have this := all_eq_true.mp all c inside
    simpa [and_assoc] using this
  split at written
  · cases written
  · split at written
    · exact one _ (by decide) written
    · split at written
      · exact one _ (by decide) written
      · split at written
        · exact one _ (by decide) written
        · split at written
          · exact one _ (by decide) written
          · split at written
            · exact one _ (by decide) written
            next noLt noGt noAmp noQuot noApos =>
              rw [mem_singleton.mp written]
              exact ⟨noLt, noGt, noQuot, noApos⟩

theorem IsContent.text {text : List UInt8} (content : IsContent text) : run .text text = (.text, []) :=
  run_text (fun inside => (content _ inside).1 rfl) fun inside => (content _ inside).2.1 rfl

variable {text : List UInt8}

theorem IsContent.quoted (content : IsContent text) (name : List UInt8) : run (.quoted name quot) text = (.quoted name quot, []) :=
  run_quoted fun inside => (content _ inside).2.2.1 rfl

theorem IsContent.tag (content : IsContent text) (name : List UInt8) : run (.tag name) text = (.tag (name ++ text), []) :=
  run_tag (fun c inside => ⟨(content c inside).2.1, (content c inside).2.2.1, (content c inside).2.2.2⟩) name

theorem decimal_content (n : Nat) : IsContent (decimal n) := by
  intro c inside
  have digit := Yaz.Pqf.decimal_digits n c inside
  have range : 48 ≤ c.toNat ∧ c.toNat ≤ 57 := by simpa [isDigit] using digit
  refine ⟨?_, ?_, ?_, ?_⟩ <;> (rintro rfl; revert range; decide)

variable {first second : List UInt8}

theorem IsContent.append (one : IsContent first) (two : IsContent second) : IsContent (first ++ second) := by
  intro c inside
  rcases mem_append.mp inside with inside | inside
  · exact one c inside
  · exact two c inside

theorem run_quot (name : List UInt8) : run (.tag name) [quot] = (.quoted name quot, []) := rfl

theorem run_quot_end (name : List UInt8) : run (.quoted name quot) [quot] = (.tag (name ++ [quot, quot]), []) := rfl

def indicatorName (i : Nat) : List UInt8 := ascii " ind" ++ decimal (i + 1) ++ ascii "="

theorem indicatorName_content (i : Nat) : IsContent (indicatorName i) := by
  apply IsContent.append
  · apply IsContent.append
    · intro c inside
      revert c
      decide
    · exact decimal_content (i + 1)
  · intro c inside
    revert c
    decide

theorem writeIndicators_cons (i : Nat) (c : List UInt8) (cs : List (List UInt8)) :
    writeIndicators i (c :: cs) = indicatorName i ++ ([quot] ++ (xmlputs c ++ ([quot] ++ writeIndicators (i + 1) cs))) := by
  rw [writeIndicators, indicatorName, show ascii "=\"" = ascii "=" ++ [quot] from rfl, show ascii "\"" = [quot] from rfl]
  simp only [append_assoc]

theorem run_writeIndicators (cs : List (List UInt8)) (i : Nat) (name : List UInt8) :
    run (.tag name) (writeIndicators i cs) = (.tag (name ++ indicatorNames i cs.length), []) := by
  induction cs generalizing i name with
  | nil =>
    rw [writeIndicators, length_nil, indicatorNames, append_nil]
    rfl
  | cons c _ ih =>
    have rest := run_then (run_quot_end (name ++ indicatorName i)) (ih (i + 1) (name ++ indicatorName i ++ [quot, quot]))
    have value := run_then ((xmlputs_content c).quoted (name ++ indicatorName i)) rest
    have whole := run_then ((indicatorName_content i).tag name) (run_then (run_quot _) value)
    rw [writeIndicators_cons, whole, length_cons, indicatorNames, indicatorName]
    congr 2
    rw [show ascii "=\"\"" = ascii "=" ++ [quot, quot] from rfl]
    simp only [append_assoc]

variable (beyond : List UInt8 → List UInt8)

theorem run_writeSubfield (identifierLength : Nat) (codeData : List UInt8) :
    run .text (writeSubfield beyond identifierLength codeData) =
      (.text, [.start (ascii "subfield code=\"\""), .stop (ascii "subfield")]) := by
  have opens : run .text (ascii "    <subfield code=\"") = (.quoted (ascii "subfield code=") quot, []) := by
    rw [ascii_ofList, ascii_ofList]; decide
  have opened : run (.quoted (ascii "subfield code=") quot) (ascii "\">") = (.text, [.start (ascii "subfield code=\"\"")]) := by
    decide
  have closes : run .text (ascii "</subfield>\n") = (.text, [.stop (ascii "subfield")]) := by rw [ascii_ofList, ascii_ofList]; decide
  rw [writeSubfield]
  exact run_then (run_then (run_then (run_then opens ((xmlputs_content _).quoted _)) opened) (xmlputs_content _).text) closes

theorem run_writeSubfields (identifierLength : Nat) (subfields : List (List UInt8)) :
    run .text (subfields.flatMap (writeSubfield beyond identifierLength)) =
      (.text, (List.replicate subfields.length [Token.start (ascii "subfield code=\"\""), .stop (ascii "subfield")]).flatten) := by
  induction subfields with
  | nil => rfl
  | cons s _ ih =>
    rw [flatMap_cons, length_cons, replicate_succ, flatten_cons]
    exact run_then (run_writeSubfield beyond identifierLength s) ih

def Node.remark : Node → Option (List UInt8)
  | .comment text => some (cString text)
  | _ => none

theorem run_writeNode (identifierLength : Nat) {n : Node} (holds : ∀ text ∈ n.remark, ¬ Leaks text) :
    run .text (writeNode beyond identifierLength n) = (.text, n.shape.markup) := by
  cases n with
  | datafield tag indicator subfields =>
    have opens : run .text (ascii "  <datafield tag=\"") = (.quoted (ascii "datafield tag=") quot, []) := by
      rw [ascii_ofList, ascii_ofList]; decide
    have tagged : run (.quoted (ascii "datafield tag=") quot) (ascii "\"") = (.tag (ascii "datafield tag=\"\""), []) := by
      decide
    have closes : run .text (ascii "  </datafield>\n") = (.text, [.stop (ascii "datafield")]) := by rw [ascii_ofList, ascii_ofList]; decide
    have opened : run (.tag (ascii "datafield tag=\"\"" ++ indicatorNames 0 (indicatorCharacters indicator).length)) (ascii ">\n") =
        (.text, [.start (ascii "datafield tag=\"\"" ++ indicatorNames 0 (indicatorCharacters indicator).length)]) := rfl
    rw [writeNode]
    exact run_then (run_then (run_then (run_then (run_then (run_then opens ((xmlputs_content _).quoted _)) tagged)
      (run_writeIndicators _ _ _)) opened) (run_writeSubfields beyond identifierLength subfields)) closes
  | controlfield tag =>
    have opens : run .text (ascii "  <controlfield tag=\"") = (.quoted (ascii "controlfield tag=") quot, []) := by
      rw [ascii_ofList, ascii_ofList]; decide
    have opened : run (.quoted (ascii "controlfield tag=") quot) (ascii "\">") =
        (.text, [.start (ascii "controlfield tag=\"\"")]) := by decide
    have closes : run .text (ascii "</controlfield>\n") = (.text, [.stop (ascii "controlfield")]) := by
      rw [ascii_ofList, ascii_ofList]; decide
    rw [writeNode]
    exact run_then (run_then (run_then (run_then opens ((xmlputs_content _).quoted _)) opened) (xmlputs_content _).text) closes
  | comment comment =>
    have opens : run .text (ascii "<!-- ") = (.comment 0, []) := by rw [ascii_ofList]; decide
    have newline : run .text [10] = (.text, []) := rfl
    rw [writeNode, show ascii " -->\n" = commentEnd ++ [10] from rfl, append_assoc, ← append_assoc (cString comment)]
    exact run_then opens (run_then (run_comment_sealed (holds _ rfl)) newline)
  | leader leader =>
    have opens : run .text (ascii "  <leader>") = (.text, [.start (ascii "leader")]) := by rw [ascii_ofList, ascii_ofList]; decide
    have closes : run .text (ascii "</leader>\n") = (.text, [.stop (ascii "leader")]) := by rw [ascii_ofList, ascii_ofList]; decide
    rw [writeNode]
    exact run_then (run_then opens (xmlputs_content _).text) closes

theorem run_writeNodes (identifierLength : Nat) {nodes : List Node}
    (holds : ∀ n ∈ nodes, ∀ text ∈ n.remark, ¬ Leaks text) :
    run .text (nodes.flatMap (writeNode beyond identifierLength)) = (.text, (nodes.map Node.shape).flatMap Shape.markup) := by
  induction nodes with
  | nil => rfl
  | cons n _ ih =>
    rw [flatMap_cons, map_cons, flatMap_cons]
    exact run_then (run_writeNode beyond identifierLength (holds n mem_cons_self)) (ih fun m inside => holds m (mem_cons_of_mem n inside))

/-! ### The nodes behind a quote that is open -/

def Inverts (text : List UInt8) : Prop := ∀ name, ∃ name', run (.quoted name quot) text = (.quoted name' quot, [])

theorem Inverts.append (one : Inverts first) (two : Inverts second) : Inverts (first ++ second) := by
  intro name
  obtain ⟨middle, ran⟩ := one name
  obtain ⟨final, more⟩ := two middle
  exact ⟨final, run_then ran more⟩

theorem inverts_of_noQuot (noQuot : quot ∉ text) : Inverts text := fun name => ⟨name, run_quoted noQuot⟩

theorem IsContent.inverts (content : IsContent text) : Inverts text := fun name => ⟨name, content.quoted name⟩

theorem IsContent.value (content : IsContent text) : Inverts ([quot] ++ text ++ [quot]) :=
  fun name => ⟨name ++ [quot, quot] ++ text, run_then (run_then (run_quot_end name) (content.tag _)) (run_quot _)⟩

theorem inverts_writeIndicators (cs : List (List UInt8)) (i : Nat) : Inverts (writeIndicators i cs) := by
  induction cs generalizing i with
  | nil => exact inverts_of_noQuot (by rw [writeIndicators]; exact not_mem_nil)
  | cons c _ ih =>
    have whole := ((indicatorName_content i).inverts.append (xmlputs_content c).value).append (ih (i + 1))
    rw [writeIndicators_cons]
    simpa only [append_assoc] using whole

theorem inverts_writeSubfield (identifierLength : Nat) (codeData : List UInt8) :
    Inverts (writeSubfield beyond identifierLength codeData) := by
  have opens : Inverts (ascii "    <subfield code=") := inverts_of_noQuot (by decide)
  have opened : Inverts (ascii ">") := inverts_of_noQuot (by decide)
  have closes : Inverts (ascii "</subfield>\n") := inverts_of_noQuot (by decide)
  generalize memory : codeData ++ 0 :: beyond codeData = octets
  have whole := (((opens.append (xmlputs_content (octets.take (getSubfieldLen octets identifierLength))).value).append opened).append
    (xmlputs_content (cString (octets.drop (getSubfieldLen octets identifierLength)))).inverts).append closes
  rw [writeSubfield, memory, show ascii "    <subfield code=\"" = ascii "    <subfield code=" ++ [quot] from rfl,
    show ascii "\">" = [quot] ++ ascii ">" from rfl]
  simpa only [append_assoc] using whole

theorem inverts_flatMap {α : Type} {items : List α} {write : α → List UInt8} (each : ∀ item ∈ items, Inverts (write item)) :
    Inverts (items.flatMap write) := by
  induction items with
  | nil => exact inverts_of_noQuot not_mem_nil
  | cons item _ ih =>
    rw [flatMap_cons]
    exact (each item mem_cons_self).append (ih fun other inside => each other (mem_cons_of_mem item inside))

theorem inverts_writeNode (identifierLength : Nat) {n : Node} (noQuot : ∀ text ∈ n.remark, quot ∉ text) :
    Inverts (writeNode beyond identifierLength n) := by
  cases n with
  | datafield tag indicator subfields =>
    have opens : Inverts (ascii "  <datafield tag=") := inverts_of_noQuot (by decide)
    have opened : Inverts (ascii ">\n") := inverts_of_noQuot (by decide)
    have closes : Inverts (ascii "  </datafield>\n") := inverts_of_noQuot (by decide)
    have whole := ((((opens.append (xmlputs_content (cString tag)).value).append
      (inverts_writeIndicators (indicatorCharacters indicator) 0)).append
      opened).append (inverts_flatMap fun s _ => inverts_writeSubfield beyond identifierLength s) : Inverts (_ ++
        subfields.flatMap _)).append closes
    rw [writeNode, show ascii "  <datafield tag=\"" = ascii "  <datafield tag=" ++ [quot] from rfl,
      show ascii "\"" = [quot] from rfl]
    simpa only [append_assoc] using whole
  | controlfield tag data =>
    have opens : Inverts (ascii "  <controlfield tag=") := inverts_of_noQuot (by decide)
    have opened : Inverts (ascii ">") := inverts_of_noQuot (by decide)
    have closes : Inverts (ascii "</controlfield>\n") := inverts_of_noQuot (by decide)
    have whole := (((opens.append (xmlputs_content (cString tag)).value).append opened).append
      (xmlputs_content (cString data)).inverts).append closes
    rw [writeNode, show ascii "  <controlfield tag=\"" = ascii "  <controlfield tag=" ++ [quot] from rfl,
      show ascii "\">" = [quot] ++ ascii ">" from rfl]
    simpa only [append_assoc] using whole
  | comment =>
    have opens : Inverts (ascii "<!-- ") := inverts_of_noQuot (by decide)
    have closes : Inverts (ascii " -->\n") := inverts_of_noQuot (by decide)
    exact (opens.append (inverts_of_noQuot (noQuot _ rfl))).append closes
  | leader leader =>
    have opens : Inverts (ascii "  <leader>") := inverts_of_noQuot (by decide)
    have closes : Inverts (ascii "</leader>\n") := inverts_of_noQuot (by decide)
    exact (opens.append (xmlputs_content _).inverts).append closes

/-! An apostrophe is never written, but in a comment. -/

theorem IsContent.noApos (content : IsContent text) : apos ∉ text := fun inside => (content _ inside).2.2.2 rfl

theorem noApos_append (one : apos ∉ first) (two : apos ∉ second) : apos ∉ first ++ second := by
  intro inside
  exact (mem_append.mp inside).elim one two

theorem noApos_flatMap {α : Type} {items : List α} {write : α → List UInt8} (each : ∀ item ∈ items, apos ∉ write item) :
    apos ∉ items.flatMap write := by
  intro inside
  obtain ⟨item, member, inside⟩ := mem_flatMap.mp inside
  exact each item member inside

theorem noApos_writeIndicators (cs : List (List UInt8)) (i : Nat) : apos ∉ writeIndicators i cs := by
  induction cs generalizing i with
  | nil => exact not_mem_nil
  | cons c _ ih =>
    rw [writeIndicators_cons]
    exact noApos_append (indicatorName_content i).noApos
      (noApos_append (by decide) (noApos_append (xmlputs_content c).noApos (noApos_append (by decide) (ih (i + 1)))))

theorem noApos_writeNode (identifierLength : Nat) {n : Node} (noApos : ∀ text ∈ n.remark, apos ∉ text) :
    apos ∉ writeNode beyond identifierLength n := by
  cases n with
  | datafield _ _ subfields =>
    have one : ∀ s ∈ subfields, apos ∉ writeSubfield beyond identifierLength s := by
      intro s _
      rw [writeSubfield]
      exact noApos_append (noApos_append (noApos_append (noApos_append (by decide) (xmlputs_content _).noApos) (by decide))
        (xmlputs_content _).noApos) (by decide)
    rw [writeNode]
    exact noApos_append (noApos_append (noApos_append (noApos_append (noApos_append (noApos_append (by decide) (xmlputs_content _).noApos)
      (by decide)) (noApos_writeIndicators _ _)) (by decide)) (noApos_flatMap one)) (by decide)
  | controlfield =>
    rw [writeNode]
    exact noApos_append (noApos_append (noApos_append (noApos_append (by decide) (xmlputs_content _).noApos) (by decide))
      (xmlputs_content _).noApos) (by decide)
  | comment =>
    rw [writeNode]
    exact noApos_append (noApos_append (by decide) (noApos _ rfl)) (by decide)
  | leader =>
    rw [writeNode]
    exact noApos_append (noApos_append (by decide) (xmlputs_content _).noApos) (by decide)

/-! ### The whole record -/

theorem tokens_text {found : List Token} (ran : run .text text = (.text, found)) : tokens text = found := by
  rw [tokens, ran]
  exact append_nil found

theorem tokens_outside {mode : Mode} {found : List Token} (ran : run .text text = (mode, found)) (outside : mode ≠ .text) :
    tokens text = found ++ [.unfinished] := by
  rw [tokens, ran]
  rw [if_neg outside]

theorem unfinished_not_mem_markup (shapes : List Shape) : Token.unfinished ∉ markup shapes := by
  have one : ∀ shape : Shape, Token.unfinished ∉ shape.markup := by
    intro shape
    cases shape with
    | datafield =>
      simp [Shape.markup, mem_flatten, mem_replicate]
    | _ => simp [Shape.markup]
  simp [markup, one]

theorem run_record {nodes : List UInt8} {mode : Mode} {found : List Token} (ran : run .text nodes = (mode, found)) (ending : List Token)
    {final : Mode} (ends : run mode (ascii "</record>\n") = (final, ending)) :
    run .text (ascii "<record xmlns=\"" ++ ascii "http://www.loc.gov/MARC21/slim" ++ ascii "\"" ++ ascii ">\n" ++
      nodes ++ ascii "</record>\n") = (final, [.start (ascii "record xmlns=\"\"")] ++ found ++ ending) := by
  have opens : run .text (ascii "<record xmlns=\"" ++ ascii "http://www.loc.gov/MARC21/slim" ++ ascii "\"" ++
      ascii ">\n") = (.text, [.start (ascii "record xmlns=\"\"")]) := by decide
  exact run_then (run_then opens ran) ends

theorem map_modifyLeader {α : Type} {f : Node → α} (same : ∀ leader leader', f (.leader leader) = f (.leader leader')) (off : Nat)
    (str : List UInt8) (nodes : List Node) : (modifyLeader off str nodes).map f = nodes.map f := by
  induction nodes with
  | nil => rfl
  | cons n nodes ih =>
    cases n with
    | leader => exact congrArg (· :: nodes.map f) (same _ _)
    | _ => exact congrArg (List.cons _) ih

theorem shape_modifyLeader (off : Nat) (str : List UInt8) (nodes : List Node) :
    (modifyLeader off str nodes).map Node.shape = nodes.map Node.shape :=
  map_modifyLeader (fun _ _ => rfl) off str nodes

theorem remark_modifyLeader (off : Nat) (str : List UInt8) (nodes : List Node) :
    (modifyLeader off str nodes).map Node.remark = nodes.map Node.remark := map_modifyLeader (fun _ _ => rfl) off str nodes

variable {beyond : List UInt8 → List UInt8}

theorem writeMarcxml_some {nodes : List Node} {output : List UInt8}
    (written : writeMarcxml beyond nodes = some output) :
    ∃ identifierLength, output = ascii "<record xmlns=\"" ++ ascii "http://www.loc.gov/MARC21/slim" ++ ascii "\"" ++
      ascii ">\n" ++ (modifyLeader 9 (ascii "a") nodes).flatMap (writeNode beyond identifierLength) ++
      ascii "</record>\n" := by
  rw [writeMarcxml, writeMarcxmlWrbuf] at written
  simp only [Option.bind_eq_bind, Option.bind_eq_some_iff] at written
  obtain ⟨leader, -, identifierLength, -, output_eq⟩ := written
  exact ⟨identifierLength, (Option.some.inj output_eq).symm⟩

def remarks (nodes : List Node) : List (List UInt8) := (nodes.map Node.remark).filterMap id

theorem mem_remarks {nodes : List Node} : text ∈ remarks nodes ↔ ∃ n ∈ nodes, text ∈ n.remark := by
  simp [remarks, Option.mem_def]

theorem remarks_modifyLeader (off : Nat) (str : List UInt8) (nodes : List Node) : remarks (modifyLeader off str nodes) = remarks nodes := by
  rw [remarks, remarks, remark_modifyLeader]

theorem writeMarcxml_sealed {nodes : List Node} {output : List UInt8}
    (written : writeMarcxml beyond nodes = some output) (holds : ∀ text ∈ remarks nodes, ¬ Leaks text) :
    tokens output = markup (nodes.map Node.shape) := by
  obtain ⟨identifierLength, rfl⟩ := writeMarcxml_some written
  have all : ∀ n ∈ modifyLeader 9 (ascii "a") nodes, ∀ text ∈ n.remark, ¬ Leaks text := by
    intro n inside text is
    apply holds
    rw [← remarks_modifyLeader 9 (ascii "a")]
    exact mem_remarks.mpr ⟨n, inside, is⟩
  have closes : run .text (ascii "</record>\n") = (.text, [.stop (ascii "record")]) := by rw [ascii_ofList, ascii_ofList]; decide
  rw [tokens_text (run_record (run_writeNodes beyond identifierLength all) _ closes), shape_modifyLeader]
  rfl

/-- Where one leaks it is not, if there are no quotes behind it. -/
theorem run_leaking {identifierLength : Nat} {before behind : List Node} {comment : List UInt8}
    (sealedBefore : ∀ text ∈ remarks before, ¬ Leaks text) (sealedBehind : ∀ text ∈ remarks behind, ¬ Leaks text)
    (noQuotes : ∀ text ∈ remarks behind, quot ∉ text ∧ apos ∉ text) (leaks : Leaks (cString comment)) :
    tokens (ascii "<record xmlns=\"" ++ ascii "http://www.loc.gov/MARC21/slim" ++ ascii "\"" ++
      ascii ">\n" ++ (before ++ .comment comment :: behind).flatMap (writeNode beyond identifierLength) ++ ascii "</record>\n") ≠
      markup ((before ++ .comment comment :: behind).map Node.shape) := by
  have front := @run_writeNodes beyond identifierLength before fun n inside text is => sealedBefore text (mem_remarks.mpr ⟨n, inside, is⟩)
  have opens : run .text (ascii "<!-- ") = (.comment 0, []) := by rw [ascii_ofList]; decide
  obtain ⟨mode, more, ran, cases⟩ := run_comment_open leaks
  have newline := (@Prod.mk.eta _ _ (run mode [10])).symm
  have node : run .text (writeNode beyond identifierLength (.comment comment)) =
    ((run mode [10]).1, (.comment :: more) ++ (run mode [10]).2) := by
    rw [writeNode, show ascii " -->\n" = commentEnd ++ [10] from rfl, append_assoc, ← append_assoc (cString comment)]
    have whole := run_then opens (run_then ran newline)
    exact whole
  rw [flatMap_append, flatMap_cons]
  rcases cases with ⟨rfl, some⟩ | ⟨name, quote, rfl, kind⟩
  · -- another token is there
    have back := @run_writeNodes beyond identifierLength behind fun n inside text is => sealedBehind text (mem_remarks.mpr ⟨n, inside, is⟩)
    have closes : run .text (ascii "</record>\n") = (.text, [.stop (ascii "record")]) := by rw [ascii_ofList, ascii_ofList]; decide
    rw [tokens_text (run_record (run_then front (run_then node back)) _ closes), markup, map_append, map_cons, flatMap_append,
      flatMap_cons]
    intro same
    have lengths := congrArg List.length same
    have atLeast := length_pos_of_ne_nil some
    simp only [Node.shape, Shape.markup, length_append, length_cons, length_nil] at lengths
    omega
  · -- the quote is never closed, or the tag is not
    intro same
    have stays : ∃ name', run (.quoted name quote) ([10] ++ behind.flatMap (writeNode beyond identifierLength) ++ ascii "</record>\n") =
        (.quoted name' quote, []) := by
      rcases kind with rfl | rfl
      · have inverts : Inverts ([10] ++ behind.flatMap (writeNode beyond identifierLength) ++ ascii "</record>\n") := by
          apply Inverts.append
          · apply Inverts.append
            · exact inverts_of_noQuot (by decide)
            · exact inverts_flatMap fun n inside => inverts_writeNode beyond identifierLength fun text is =>
                (noQuotes text (mem_remarks.mpr ⟨n, inside, is⟩)).1
          · exact inverts_of_noQuot (by decide)
        exact inverts name
      · refine ⟨name, run_quoted ?_⟩
        apply noApos_append
        · apply noApos_append
          · decide
          · exact noApos_flatMap fun n inside => noApos_writeNode beyond identifierLength fun text is =>
              (noQuotes text (mem_remarks.mpr ⟨n, inside, is⟩)).2
        · decide
    obtain ⟨name', stays⟩ := stays
    have tail : run .text ((before.flatMap (writeNode beyond identifierLength) ++
        (writeNode beyond identifierLength (.comment comment) ++ behind.flatMap (writeNode beyond identifierLength))) ++
          ascii "</record>\n") = (.quoted name' quote, (before.map Node.shape).flatMap Shape.markup ++ .comment :: more) := by
      rw [writeNode, show ascii " -->\n" = commentEnd ++ [10] from rfl]
      have whole := run_then front (run_then opens (run_then ran stays))
      simpa only [append_assoc, nil_append, append_nil] using whole
    have opening : run .text (ascii "<record xmlns=\"" ++ ascii "http://www.loc.gov/MARC21/slim" ++ ascii "\"" ++
        ascii ">\n") = (.text, [.start (ascii "record xmlns=\"\"")]) := by decide
    have whole := run_then opening tail
    rw [← append_assoc] at whole
    rw [tokens_outside whole Mode.noConfusion] at same
    apply unfinished_not_mem_markup _
    rw [← same]
    exact mem_append_right _ (mem_singleton.mpr rfl)

theorem modifyLeader_split (off : Nat) (str : List UInt8) (before : List Node) (comment : List UInt8) (behind : List Node) :
    ∃ before' behind', modifyLeader off str (before ++ .comment comment :: behind) = before' ++ .comment comment :: behind' ∧
      remarks before' = remarks before ∧ remarks behind' = remarks behind := by
  induction before with
  | nil => exact ⟨[], modifyLeader off str behind, rfl, rfl, remarks_modifyLeader off str behind⟩
  | cons n before ih =>
    obtain ⟨before', behind', split, sameBefore, sameBehind⟩ := ih
    have carried : ∀ m : Node, modifyLeader off str (m :: (before ++ .comment comment :: behind)) =
        m :: modifyLeader off str (before ++ .comment comment :: behind) →
        ∃ before' behind', modifyLeader off str (m :: (before ++ .comment comment :: behind)) = before' ++ .comment comment :: behind' ∧
          remarks before' = remarks (m :: before) ∧ remarks behind' = remarks behind := by
      intro m walks
      refine ⟨m :: before', behind', by rw [walks, split]; rfl, ?_, sameBehind⟩
      rw [remarks, map_cons, filterMap_cons, remarks, map_cons, filterMap_cons]
      rw [remarks, remarks] at sameBefore
      rw [sameBefore]
    cases n with
    | leader leader => exact ⟨.leader _ :: before, behind, rfl, rfl, rfl⟩
    | _ => exact carried _ rfl

theorem writeMarcxml_leaking {before behind : List Node} {comment output : List UInt8}
    (written : writeMarcxml beyond (before ++ .comment comment :: behind) = some output)
      (sealedBefore : ∀ text ∈ remarks before, ¬ Leaks text)
    (sealedBehind : ∀ text ∈ remarks behind, ¬ Leaks text) (noQuotes : ∀ text ∈ remarks behind, quot ∉ text ∧ apos ∉ text)
    (leaks : Leaks (cString comment)) : tokens output ≠ markup ((before ++ .comment comment :: behind).map Node.shape) := by
  obtain ⟨identifierLength, rfl⟩ := writeMarcxml_some written
  obtain ⟨before', behind', split, sameBefore, sameBehind⟩ := modifyLeader_split 9 (ascii "a") before comment behind
  rw [← sameBefore] at sealedBefore
  rw [← sameBehind] at sealedBehind noQuotes
  rw [← shape_modifyLeader 9 (ascii "a"), split]
  exact run_leaking sealedBefore sealedBehind noQuotes leaks

end Yaz.Marc
