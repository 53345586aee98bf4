import Yaz.Comstack.Complete
import Yaz.Comstack.Tcpip
import Yaz.Odr.RoundTrip
import Yaz.Odr.Storing

/-! Values that are encoded, cut out of a stream as it arrives, and decoded. -/

set_option autoImplicit false

namespace Yaz.Odr
open List Yaz.Ber Yaz.Comstack Yaz.Foundation Run

/-- One element, for a framer that goes `n` levels down. -/
def Delimited (n : Nat) (octets : List UInt8) : Prop := ∀ levels, n ≤ levels → Element (levels + 1) octets

/-- Elements one after the other. -/
def Parts (n : Nat) (octets : List UInt8) : Prop :=
  ∃ children : List (List UInt8), octets = children.flatten ∧ ∀ child ∈ children, Delimited n child

variable {m n : Nat} {first second body : List UInt8}

theorem Delimited.mono (delimited : Delimited m first) (deeper : m ≤ n) : Delimited n first :=
  fun levels deep => delimited levels (Nat.le_trans deeper deep)

theorem Delimited.parts (delimited : Delimited n first) : Parts n first :=
  ⟨[first], (flatten_singleton ..).symm, fun _ inside => mem_singleton.mp inside ▸ delimited⟩

theorem parts_nil : Parts n [] := ⟨[], rfl, nofun⟩

theorem Parts.append (one : Parts m first) (two : Parts n second) : Parts (max m n) (first ++ second) := by
  obtain ⟨children, rfl, each⟩ := one
  obtain ⟨children', rfl, each'⟩ := two
  refine ⟨children ++ children', flatten_append.symm, fun child inside => (mem_append.mp inside).elim ?_ ?_⟩
  · exact fun inside => (each child inside).mono (Nat.le_max_left m n)
  · exact fun inside => (each' child inside).mono (Nat.le_max_right m n)

section
variable {tag : Tag} (legal : tag.Legal)
include legal

theorem identifies_identifier (flag : Bool) :
    Identifies (identifier tag flag) { lclass := tag.1, ltag := tag.2, lcons := if flag then 1 else 0 } where
  nonempty := enctagOctets_ne_nil _ _ _
  read rest _ other room := berDectag_enctag legal.1 legal.2.1 flag rest room other

theorem identifier_begins (flag : Bool) (rest : List UInt8) : (identifier tag flag ++ rest).take 2 ≠ [0, 0] := by
  have leads : Leads (identifier tag flag ++ rest) (some tag) := ⟨legal, flag, rest, rfl⟩
  obtain ⟨b, others, octets, nonzero⟩ := leads.head_ne_zero
  rw [octets]
  exact fun zeros => nonzero (cons.inj zeros).1

theorem delimited_definite (flag : Bool) {length : List UInt8} (declares : Declares length body.length) :
    Delimited n (identifier tag flag ++ (length ++ body)) := by
  intro levels _
  have begins := identifier_begins legal flag (length ++ body)
  rw [← append_assoc] at begins ⊢
  exact .definite (identifies_identifier legal flag) declares begins

theorem delimited_primitive (short : body.length < 2 ^ 24) : Delimited n (primitive tag body) :=
  delimited_definite legal false (declares_lengthOctets short)

theorem delimited_constructed (parts : Parts n body) : Delimited (n + 1) (constructed tag body) := by
  unfold constructed
  split
  next short => exact delimited_definite legal true (declares_short short)
  next =>
    obtain ⟨children, rfl, each⟩ := parts
    intro levels deep
    obtain ⟨levels, rfl⟩ := Nat.exists_eq_add_of_lt deep
    rw [← singleton_append, ← append_assoc, ← append_assoc]
    exact .indefinite (identifies_identifier legal true) (by simp) declares_indefinite (identifier_begins legal true _)
      fun child inside => each child inside _ (by omega)

end

mutual

theorem Ty.delimited : (type : Ty) → (outer : Option Tag) → (value : type.Val) → type.WellFormed → type.Legal value →
    (∀ tag ∈ outer, tag.Legal) → Delimited type.nesting (type.octets outer value)
  | .integer, _, value, _, _, known | .enum, _, value, _, _, known =>
    delimited_primitive (getD_legal known (by decide)) (Nat.lt_of_le_of_lt (length_dropSign_integerOctets value).2 (by decide))
  | .null, _, _, _, _, known => delimited_primitive (getD_legal known (by decide)) (by decide)
  | .octetstring, _, _, _, legal, known => delimited_primitive (getD_legal known (by decide)) legal
  | .oid, _, _, _, legal, known => delimited_primitive (getD_legal known (by decide)) (oidOctets_length legal)
  | .sequence members, _, values, wellFormed, legal, known =>
    delimited_constructed (getD_legal known (by decide)) (members.parts values wellFormed legal)
  | .sequenceOf type, _, values, wellFormed, legal, known => by
    refine delimited_constructed (getD_legal known (by decide)) ?_
    induction values with
    | nil => exact parts_nil
    | cons p rest ih =>
      have later := ih fun value inside => legal value (mem_cons_of_mem _ inside)
      cases p with
      | none => exact later
      | some value =>
        have here := (type.delimited none value wellFormed (legal value mem_cons_self) nofun).parts.append later
        rwa [Nat.max_self] at here
  | .choice arms, _, value, wellFormed, legal, _ => arms.delimited value wellFormed legal
  | .implicit _ _ type, _, value, wellFormed, legal, known =>
    type.delimited _ value wellFormed.2.2 legal (by rintro _ ⟨⟩; exact getD_legal known wellFormed.1)
  | .explicit _ _ type, _, value, wellFormed, legal, known =>
    delimited_constructed (getD_legal known wellFormed.1) (type.delimited none value wellFormed.2 legal nofun).parts

theorem Members.parts : (members : Members) → (values : members.Val) → members.WellFormed → members.Legal values →
    Parts members.nesting (members.octets values)
  | .nil, _, _, _ => parts_nil
  | .cons _ _ type rest, (p, values), wellFormed, legal => by
    have later := rest.parts values wellFormed.2.1 legal.2
    cases p with
    | none => exact (parts_nil (n := type.nesting)).append later
    | some value => exact (type.delimited none value wellFormed.1 (legal.1 value rfl) nofun).parts.append later

theorem Arms.delimited : (arms : Arms) → (value : arms.Val) → arms.WellFormed → arms.Legal value →
    Delimited arms.nesting (arms.octets value)
  | .cons tagmode _ _ _ _ type _, .inl value, wellFormed, legal => by
    have here (outer : Option Tag) := type.delimited outer value wellFormed.1 legal
    refine Delimited.mono ?_ (Nat.le_max_left _ _)
    cases tagmode with
    | none => exact here none nofun
    | implicit => exact here _ (by rintro _ ⟨⟩; exact wellFormed.2.2.1 (by decide))
    | explicit => exact delimited_constructed (wellFormed.2.2.1 (by decide)) (here none nofun).parts
  | .cons _ _ _ _ _ _ rest, .inr value, wellFormed, legal =>
    (rest.delimited value wellFormed.2.1 legal).mono (Nat.le_max_right _ _)

end

/-- A HTTP message does not begin so. -/
def NotText (octets : List UInt8) : Prop := ∀ c ∈ octets.head?, ¬(0x20 ≤ c.toNat ∧ c.toNat < 0x7f)

theorem finds_element (element : Element 1001 first) (notText : NotText first) (rest : List UInt8) :
    Finds csCompleteAuto first rest := by
  intro arrived later stream
  have nonempty : first ≠ [] := ne_nil_of_length_pos (Nat.lt_of_succ_lt element.length)
  have recognised := completeBERWithin_element element []
  rw [append_nil] at recognised
  rw [← (completeBERn_prefixStable 0).finds recognised nonempty rest stream]
  have other : looksLikeHttp arrived = false := by
    cases arrived with
    | nil => rfl
    | cons c =>
      have same := congrArg head? stream
      rw [head?_append_of_ne_nil _ nonempty] at same
      have unprintable := notText c same.symm
      rw [looksLikeHttp, take_succ_cons, all_cons, ← Bool.decide_and, decide_eq_false unprintable, Bool.false_and, Bool.and_false]
  rw [csCompleteAuto, csCompleteAutoX, other]
  rfl

/-- The octets are what some call writes for the value. -/
def Ty.Sends (type : Ty) (value : type.Val) (octets : List UInt8) : Prop :=
  type.Legal value ∧ ∃ opt name e, Returns (type.encode (some value) opt name) encoding true e ∧ e.text = octets

/-- The value is what every call reads from the octets, all of them. -/
def Ty.Gets (type : Ty) (value : type.Val) (octets : List UInt8) : Prop :=
  ∀ opt name, ∃ o, Returns (type.decode opt name) (decoding octets) (true, some value) o ∧ o.bp = octets.length ∧ o.error = none

section
variable {type : Ty} {value : type.Val} (wellFormed : type.WellFormed) (shallow : type.nesting ≤ 1000)
include wellFormed shallow

theorem Ty.Sends.received (sends : type.Sends value first) : Element 1001 first ∧ type.Gets value first := by
  obtain ⟨legal, opt, name, e, encoded, rfl⟩ := sends
  obtain ⟨wrote, complete⟩ := (type.encodable wellFormed).value opt name writable_encoding (by simp) legal true e encoded
  have text : e.text = type.octets none value := wrote.text
  refine ⟨text ▸ type.delimited none value wellFormed legal nofun 1000 shallow, fun opt name => ?_⟩
  have deep : type.nesting ≤ odrMaxStack := Nat.le_trans shallow (by decide)
  obtain ⟨o, decoded, consumed⟩ := type.decodable wellFormed none value opt name (decoding e.text) [] rfl (by simp) (by simp) legal
    complete (by rw [append_nil, text]; exact left_decoding _) (by simpa [decoding] using deep)
  exact ⟨o, decoded, by rw [consumed.bp, text]; exact Nat.zero_add _, consumed.error⟩

/-- At any time `cs_complete_auto` finds an encoding if all of it has arrived, unless it could begin a HTTP message. -/
theorem Ty.Sends.framed (sends : type.Sends value first) (notText : NotText first) (rest : List UInt8) :
    Finds csCompleteAuto first rest :=
  finds_element (sends.received wellFormed shallow).1 notText rest

end

theorem sends_five : Ty.integer.Sends (5 : BitVec 64) [2, 1, 5] := ⟨trivial, false, none, _, ⟨by decide, rfl⟩, by decide⟩

theorem Ty.framed_five : Finds csCompleteAuto [2, 1, 5] [1] :=
  @Ty.Sends.framed _ .integer _ trivial (by decide) sends_five (by simp [NotText]) [1]

end Yaz.Odr
