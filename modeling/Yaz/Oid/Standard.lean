import Yaz.Http.Message

/-! The table of object identifiers: `oid.csv`, and the functions of `oid_db.c` and `oid_util.c` that names go through.

An identifier is the list of its arcs. The table has no further ones from `yaz_oid_add`.
-/

set_option autoImplicit false

namespace Yaz.Oid
open Yaz.Comstack (ascii isDigit toLower)
open Yaz.Http (decimal)

inductive OidClass where
  | nop
  | transyn
  | general
  | absyn
  | appctx
  | attset
  | diagset
  | recsyn
  | resform
  | accform
  | extserv
  | userinfo
  | elemspec
  | varset
  | schema
  | tagset
  | negot
  deriving DecidableEq

/-- `struct yaz_oid_entry`. -/
structure Entry where
  oclass : OidClass
  oid : List Nat
  name : List UInt8
  deriving DecidableEq

def z3950Prefix : List Nat := [1, 2, 840, 10003]

def entry (oclass : OidClass) (oid : List Nat) (name : String) : Entry := { oclass, oid, name := ascii name }

def yazOidStandardEntries : List Entry :=
  [entry .transyn [2, 1, 1] "BER",
    entry .transyn [1, 0, 2709, 1, 1] "ISO2709",
    entry .general [1, 0, 10161, 2, 1] "ISOILL-1",
    entry .absyn [2, 1] "Z-APDU",
    entry .appctx [1, 1] "Z-BASIC",
    entry .attset (z3950Prefix ++ [3, 1]) "Bib-1",
    entry .attset (z3950Prefix ++ [3, 2]) "Exp-1",
    entry .attset (z3950Prefix ++ [3, 3]) "Ext-1",
    entry .attset (z3950Prefix ++ [3, 4]) "CCL-1",
    entry .attset (z3950Prefix ++ [3, 5]) "GILS",
    entry .attset (z3950Prefix ++ [3, 5]) "GILS-attset",
    entry .attset (z3950Prefix ++ [3, 6]) "STAS-attset",
    entry .attset (z3950Prefix ++ [3, 7]) "Collections-attset",
    entry .attset (z3950Prefix ++ [3, 8]) "CIMI-attset",
    entry .attset (z3950Prefix ++ [3, 9]) "Geo-attset",
    entry .attset (z3950Prefix ++ [3, 10]) "ZBIG",
    entry .attset (z3950Prefix ++ [3, 11]) "Util",
    entry .attset (z3950Prefix ++ [3, 12]) "XD-1",
    entry .attset (z3950Prefix ++ [3, 13]) "Zthes",
    entry .attset (z3950Prefix ++ [3, 14]) "Fin-1",
    entry .attset (z3950Prefix ++ [3, 15]) "Dan-1",
    entry .attset (z3950Prefix ++ [3, 16]) "Holdings",
    entry .attset (z3950Prefix ++ [3, 17]) "MARC",
    entry .attset (z3950Prefix ++ [3, 18]) "Bib-2",
    entry .attset (z3950Prefix ++ [3, 19]) "ZeeRex",
    entry .attset (z3950Prefix ++ [3, 1000, 81, 1]) "Thesaurus-attset",
    entry .attset (z3950Prefix ++ [3, 1000, 81, 2]) "IDXPATH",
    entry .attset (z3950Prefix ++ [3, 1000, 81, 3]) "EXTLITE",
    entry .diagset (z3950Prefix ++ [4, 1]) "Bib-1",
    entry .diagset (z3950Prefix ++ [4, 2]) "Diag-1",
    entry .diagset (z3950Prefix ++ [4, 3]) "Diag-ES",
    entry .diagset (z3950Prefix ++ [4, 3]) "Diag-General",
    entry .recsyn (z3950Prefix ++ [5, 1]) "Unimarc",
    entry .recsyn (z3950Prefix ++ [5, 2]) "Intermarc",
    entry .recsyn (z3950Prefix ++ [5, 3]) "CCF",
    entry .recsyn (z3950Prefix ++ [5, 10]) "USmarc",
    entry .recsyn (z3950Prefix ++ [5, 10]) "MARC21",
    entry .recsyn (z3950Prefix ++ [5, 11]) "UKmarc",
    entry .recsyn (z3950Prefix ++ [5, 12]) "Normarc",
    entry .recsyn (z3950Prefix ++ [5, 13]) "Librismarc",
    entry .recsyn (z3950Prefix ++ [5, 14]) "Danmarc",
    entry .recsyn (z3950Prefix ++ [5, 15]) "Finmarc",
    entry .recsyn (z3950Prefix ++ [5, 16]) "MAB",
    entry .recsyn (z3950Prefix ++ [5, 17]) "Canmarc",
    entry .recsyn (z3950Prefix ++ [5, 18]) "SBN",
    entry .recsyn (z3950Prefix ++ [5, 19]) "Picamarc",
    entry .recsyn (z3950Prefix ++ [5, 20]) "Ausmarc",
    entry .recsyn (z3950Prefix ++ [5, 21]) "Ibermarc",
    entry .recsyn (z3950Prefix ++ [5, 22]) "Carmarc",
    entry .recsyn (z3950Prefix ++ [5, 23]) "Malmarc",
    entry .recsyn (z3950Prefix ++ [5, 24]) "JPmarc",
    entry .recsyn (z3950Prefix ++ [5, 25]) "SWEmarc",
    entry .recsyn (z3950Prefix ++ [5, 26]) "SIGLEmarc",
    entry .recsyn (z3950Prefix ++ [5, 27]) "ISDSmarc",
    entry .recsyn (z3950Prefix ++ [5, 28]) "RUSmarc",
    entry .recsyn (z3950Prefix ++ [5, 29]) "Hunmarc",
    entry .recsyn (z3950Prefix ++ [5, 30]) "NACSIS-CATP",
    entry .recsyn (z3950Prefix ++ [5, 31]) "FINMARC2000",
    entry .recsyn (z3950Prefix ++ [5, 32]) "MARC21-fin",
    entry .recsyn (z3950Prefix ++ [5, 100]) "Explain",
    entry .recsyn (z3950Prefix ++ [5, 101]) "SUTRS",
    entry .recsyn (z3950Prefix ++ [5, 102]) "OPAC",
    entry .recsyn (z3950Prefix ++ [5, 103]) "Summary",
    entry .recsyn (z3950Prefix ++ [5, 104]) "GRS-0",
    entry .recsyn (z3950Prefix ++ [5, 105]) "GRS-1",
    entry .recsyn (z3950Prefix ++ [5, 106]) "Extended",
    entry .recsyn (z3950Prefix ++ [5, 107]) "Fragment",
    entry .recsyn (z3950Prefix ++ [5, 109, 1]) "pdf",
    entry .recsyn (z3950Prefix ++ [5, 109, 2]) "postscript",
    entry .recsyn (z3950Prefix ++ [5, 109, 3]) "html",
    entry .recsyn (z3950Prefix ++ [5, 109, 4]) "tiff",
    entry .recsyn (z3950Prefix ++ [5, 109, 5]) "gif",
    entry .recsyn (z3950Prefix ++ [5, 109, 6]) "jpeg",
    entry .recsyn (z3950Prefix ++ [5, 109, 7]) "png",
    entry .recsyn (z3950Prefix ++ [5, 109, 8]) "mpeg",
    entry .recsyn (z3950Prefix ++ [5, 109, 9]) "sgml",
    entry .recsyn (z3950Prefix ++ [5, 110, 1]) "tiff-b",
    entry .recsyn (z3950Prefix ++ [5, 110, 2]) "wav",
    entry .recsyn (z3950Prefix ++ [5, 111]) "SQL-RS",
    entry .recsyn (z3950Prefix ++ [5, 1000, 81, 2]) "SOIF",
    entry .recsyn (z3950Prefix ++ [5, 1000, 81, 3]) "JSON",
    entry .recsyn (z3950Prefix ++ [5, 109, 10]) "XML",
    entry .recsyn (z3950Prefix ++ [5, 109, 10]) "text-XML",
    entry .recsyn (z3950Prefix ++ [5, 109, 11]) "application-XML",
    entry .resform (z3950Prefix ++ [7, 1]) "Resource-1",
    entry .resform (z3950Prefix ++ [7, 2]) "Resource-2",
    entry .resform (z3950Prefix ++ [7, 1000, 81, 1]) "UNIverse-Resource-Report",
    entry .accform (z3950Prefix ++ [8, 1]) "Prompt-1",
    entry .accform (z3950Prefix ++ [8, 2]) "Des-1",
    entry .accform (z3950Prefix ++ [8, 3]) "Krb-1",
    entry .extserv (z3950Prefix ++ [9, 1]) "Persistent set",
    entry .extserv (z3950Prefix ++ [9, 2]) "Persistent query",
    entry .extserv (z3950Prefix ++ [9, 3]) "Periodic query",
    entry .extserv (z3950Prefix ++ [9, 4]) "Item order",
    entry .extserv (z3950Prefix ++ [9, 5]) "Database Update (first version)",
    entry .extserv (z3950Prefix ++ [9, 5, 1]) "Database Update (second version)",
    entry .extserv (z3950Prefix ++ [9, 5, 1, 1]) "Database Update",
    entry .extserv (z3950Prefix ++ [9, 6]) "exp. spec.",
    entry .extserv (z3950Prefix ++ [9, 7]) "exp. inv.",
    entry .extserv (z3950Prefix ++ [9, 1000, 81, 1]) "Admin",
    entry .userinfo (z3950Prefix ++ [10, 1]) "searchResult-1",
    entry .userinfo (z3950Prefix ++ [10, 2]) "CharSetandLanguageNegotiation",
    entry .userinfo (z3950Prefix ++ [10, 3]) "UserInfo-1",
    entry .userinfo (z3950Prefix ++ [10, 4]) "MultipleSearchTerms-1",
    entry .userinfo (z3950Prefix ++ [10, 5]) "MultipleSearchTerms-2",
    entry .userinfo (z3950Prefix ++ [10, 6]) "DateTime",
    entry .userinfo (z3950Prefix ++ [10, 1000, 81, 1]) "Proxy",
    entry .userinfo (z3950Prefix ++ [10, 1000, 81, 2]) "Cookie",
    entry .userinfo (z3950Prefix ++ [10, 1000, 81, 3]) "Client-IP",
    entry .userinfo (z3950Prefix ++ [10, 1000, 81, 4]) "Scan-Set",
    entry .userinfo (z3950Prefix ++ [10, 1000, 81, 5]) "Facet-1",
    entry .elemspec (z3950Prefix ++ [11, 1]) "Espec-1",
    entry .varset (z3950Prefix ++ [12, 1]) "Variant-1",
    entry .schema (z3950Prefix ++ [13, 1]) "WAIS-schema",
    entry .schema (z3950Prefix ++ [13, 2]) "GILS-schema",
    entry .schema (z3950Prefix ++ [13, 3]) "Collections-schema",
    entry .schema (z3950Prefix ++ [13, 4]) "Geo-schema",
    entry .schema (z3950Prefix ++ [13, 5]) "CIMI-schema",
    entry .schema (z3950Prefix ++ [13, 6]) "Update ES",
    entry .schema (z3950Prefix ++ [13, 7]) "Holdings",
    entry .schema (z3950Prefix ++ [13, 8]) "Zthes",
    entry .schema (z3950Prefix ++ [13, 1000, 81, 1]) "thesaurus-schema",
    entry .schema (z3950Prefix ++ [13, 1000, 81, 2]) "Explain-schema",
    entry .tagset (z3950Prefix ++ [14, 1]) "TagsetM",
    entry .tagset (z3950Prefix ++ [14, 2]) "TagsetG",
    entry .tagset (z3950Prefix ++ [14, 3]) "STAS-tagset",
    entry .tagset (z3950Prefix ++ [14, 4]) "GILS-tagset",
    entry .tagset (z3950Prefix ++ [14, 5]) "Collections-tagset",
    entry .tagset (z3950Prefix ++ [14, 6]) "CIMI-tagset",
    entry .tagset (z3950Prefix ++ [14, 1000, 81, 1]) "thesaurus-tagset",
    entry .tagset (z3950Prefix ++ [14, 1000, 81, 2]) "Explain-tagset",
    entry .tagset (z3950Prefix ++ [14, 8]) "Zthes-tagset",
    entry .negot (z3950Prefix ++ [15, 3]) "Charset-3",
    entry .negot (z3950Prefix ++ [15, 4]) "Charset-4",
    entry .negot (z3950Prefix ++ [15, 1000, 81, 1]) "Charset-ID",
    entry .userinfo (z3950Prefix ++ [16, 2]) "CQL",
    entry .general [1, 0, 10646, 1, 0, 2] "UCS-2",
    entry .general [1, 0, 10646, 1, 0, 4] "UCS-4",
    entry .general [1, 0, 10646, 1, 0, 5] "UTF-16",
    entry .general [1, 0, 10646, 1, 0, 8] "UTF-8",
    entry .userinfo (z3950Prefix ++ [10, 1000, 17, 1]) "OCLC-userInfo",
    entry .extserv (z3950Prefix ++ [9, 1000, 105, 4]) "XML-ES"]

/-- `yaz_matchstr` finds no difference; a round takes at least one octet of each. -/
def matchRounds : (rounds : Nat) → (s1 s2 : List UInt8) → Bool
  | 0, s1, s2 => s1.isEmpty && s2.isEmpty
  | _, [], s2 => s2.isEmpty
  | _, _ :: _, [] => false
  | rounds + 1, c1 :: s1, c2 :: s2 =>
    if c2 = 63 then true
    else
      match if c1 = 45 then s1 else c1 :: s1, if c2 = 45 then s2 else c2 :: s2 with
      | c1 :: s1, c2 :: s2 => if c2 = 46 ∨ toLower c1 = toLower c2 then matchRounds rounds s1 s2 else false
      | s1, s2 => s1.isEmpty && s2.isEmpty

def yazMatchstr (s1 s2 : List UInt8) : Bool := matchRounds s1.length s1 s2

/-- `yaz_string_to_oid` for a class. -/
def yazStringToOid (oclass : OidClass) (name : List UInt8) : Option (List Nat) :=
  match yazOidStandardEntries.find? fun e => yazMatchstr e.name name && e.oclass = oclass with
  | some e => some e.oid
  | none => (yazOidStandardEntries.find? fun e => yazMatchstr e.name name).map Entry.oid

/-- The arcs of `oid_dotstring_to_oid`, those that are complete and the last one. -/
def dottedArcs : List UInt8 → (oid : List Nat) → (val : Nat) → List Nat × Nat
  | [], oid, val => (oid, val)
  | [c], oid, val => if isDigit c then (oid, val * 10 + (c.toNat - 48)) else (oid, val)
  | c :: d :: name, oid, val =>
    if isDigit c then
      let val := val * 10 + (c.toNat - 48)
      if d = 46 then dottedArcs name (if oid.length < 19 then oid ++ [val] else oid) 0 else dottedArcs (d :: name) oid val
    else (oid, val)

def oidDotstringToOid (name : List UInt8) : Option (List Nat) :=
  match dottedArcs name [] 0 with
  | ([], _) => none
  | (oid, val) => some (oid ++ [val])

def oidOidToDotstring (oid : List Nat) : List UInt8 := [46].intercalate (oid.map decimal)

def yazStringToOidOdr (oclass : OidClass) (name : List UInt8) : Option (List Nat) :=
  (yazStringToOid oclass name).or (oidDotstringToOid name)

def yazOidToStringBuf (oid : List Nat) : List UInt8 :=
  match yazOidStandardEntries.find? fun e => e.oid = oid with
  | some e => e.name
  | none => oidOidToDotstring oid

def attributeSets : List (List Nat) := (yazOidStandardEntries.filter fun e => e.oclass = .attset).map Entry.oid

theorem yazStringToOidOdr_name {oid : List Nat} (registered : oid ∈ attributeSets) :
    yazStringToOidOdr .attset (yazOidToStringBuf oid) = some oid := by
  have all : ∀ oid ∈ attributeSets, yazStringToOidOdr .attset (yazOidToStringBuf oid) = some oid := by decide
  exact all oid registered

end Yaz.Oid
