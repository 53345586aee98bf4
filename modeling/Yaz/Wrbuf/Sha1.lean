import Mathlib.Tactic.IntervalCases

/-! SHA-1 of a text: `wrbuf_sha1.c`.

A text is a list of octets; the sums of offsets do not wrap here.
-/

set_option autoImplicit false

namespace Yaz.Wrbuf

/-- `state` of `SHA1_CTX`. -/
structure Words where
  a : UInt32
  b : UInt32
  c : UInt32
  d : UInt32
  e : UInt32
  deriving DecidableEq

structure Sha1Ctx where
  state : Words
  count0 : UInt32
  count1 : UInt32
  buffer : List UInt8
  deriving DecidableEq

def rol (value bits : UInt32) : UInt32 := (value <<< bits) ||| (value >>> (32 - bits))

def wordAt (buffer : List UInt8) (i : Nat) : UInt32 :=
  ((buffer.drop (4 * i)).take 4).foldl (fun word c => (word <<< 8) ||| c.toUInt32) 0

/-- `blk0` for the first 16 words, and `blk`, which leaves its word in the block. -/
def blk (l : List UInt32) (i : Nat) : List UInt32 × UInt32 :=
  if i < 16 then (l, l.getD i 0)
  else
    let word := rol (l.getD ((i + 13) % 16) 0 ^^^ l.getD ((i + 8) % 16) 0 ^^^ l.getD ((i + 2) % 16) 0 ^^^ l.getD (i % 16) 0) 1
    (l.set (i % 16) word, word)

/-- `R0` to `R4`; the names go round by one for each of them. -/
def operation (i : Nat) (s : Words) (word : UInt32) : Words :=
  let z :=
    if i < 20 then ((s.b &&& (s.c ^^^ s.d)) ^^^ s.d) + word + 0x5A827999
    else if i < 40 then (s.b ^^^ s.c ^^^ s.d) + word + 0x6ED9EBA1
    else if i < 60 then (((s.b ||| s.c) &&& s.d) ||| (s.b &&& s.c)) + word + 0x8F1BBCDC
    else (s.b ^^^ s.c ^^^ s.d) + word + 0xCA62C1D6
  { a := s.e + z + rol s.a 5, b := s.a, c := rol s.b 30, d := s.c, e := s.d }

/-- The operations from the `i`-th on. -/
def operations : (left i : Nat) → List UInt32 → Words → Words
  | 0, _, _, s => s
  | left + 1, i, l, s =>
    let (l, word) := blk l i
    operations left (i + 1) l (operation i s word)

def sha1Transform (state : Words) (buffer : List UInt8) : Words :=
  let s := operations 80 0 ((List.range 16).map (wordAt buffer)) state
  { a := state.a + s.a, b := state.b + s.b, c := state.c + s.c, d := state.d + s.d, e := state.e + s.e }

def sha1Init : Sha1Ctx where
  state := { a := 0x67452301, b := 0xEFCDAB89, c := 0x98BADCFE, d := 0x10325476, e := 0xC3D2E1F0 }
  count0 := 0
  count1 := 0
  buffer := List.replicate 64 0

def wholeBlocks : (rounds : Nat) → Words → List UInt8 → Words × List UInt8
  | 0, state, data => (state, data)
  | rounds + 1, state, data =>
    if 63 < data.length then wholeBlocks rounds (sha1Transform state (data.take 64)) (data.drop 64) else (state, data)

/-- `memcpy` into the buffer. -/
def intoBuffer (buffer : List UInt8) (j : Nat) (data : List UInt8) : List UInt8 :=
  buffer.take j ++ data ++ buffer.drop (j + data.length)

def sha1Update (context : Sha1Ctx) (data : List UInt8) : Sha1Ctx :=
  let len := UInt32.ofNat data.length
  let count0 := context.count0 + (len <<< 3)
  let count1 := (if count0 < context.count0 then context.count1 + 1 else context.count1) + (len >>> 29)
  let j := ((context.count0 >>> 3) &&& 63).toNat
  if 63 < j + data.length then
    let filled := intoBuffer context.buffer j (data.take (64 - j))
    let (state, rest) := wholeBlocks data.length (sha1Transform context.state filled) (data.drop (64 - j))
    { state, count0, count1, buffer := intoBuffer filled 0 rest }
  else { context with count0, count1, buffer := intoBuffer context.buffer j data }

/-- The padding of `SHA1Final`. -/
def padding : (rounds : Nat) → Sha1Ctx → Sha1Ctx
  | 0, context => context
  | rounds + 1, context => if context.count0 &&& 504 = 448 then context else padding rounds (sha1Update context [0])

def octets (word : UInt32) : List UInt8 := [(word >>> 24).toUInt8, (word >>> 16).toUInt8, (word >>> 8).toUInt8, word.toUInt8]

def sha1Final (context : Sha1Ctx) : List UInt8 :=
  let finalcount := octets context.count1 ++ octets context.count0
  let state := (sha1Update (padding 64 (sha1Update context [128])) finalcount).state
  octets state.a ++ octets state.b ++ octets state.c ++ octets state.d ++ octets state.e

def hexDigit (n : UInt8) : UInt8 := if n < 10 then 48 + n else 87 + n

/-- What `wrbuf_sha1_write` appends where it is asked for hexadecimal digits. -/
def wrbufSha1 (text : List UInt8) : List UInt8 :=
  (sha1Final (sha1Update sha1Init text)).flatMap fun c => [hexDigit (c / 16), hexDigit (c % 16)]

/-- One of the digits that `%02x` writes. -/
def isHexDigit (c : UInt8) : Bool := (48 ≤ c && c ≤ 57) || (97 ≤ c && c ≤ 102)

theorem isHexDigit_hexDigit (n : UInt8) (small : n < 16) : isHexDigit (hexDigit n) = true := by
  have bound : n.toNat < 16 := small
  have value : n = UInt8.ofNat n.toNat := UInt8.ofNat_toNat.symm
  rw [value]
  interval_cases n.toNat <;> decide

theorem sha1Final_length (context : Sha1Ctx) : (sha1Final context).length = 20 := rfl

theorem wrbufSha1_length (text : List UInt8) : (wrbufSha1 text).length = 40 := by
  have two : (fun c : UInt8 => [hexDigit (c / 16), hexDigit (c % 16)].length) = fun _ => 2 := rfl
  rw [wrbufSha1, List.length_flatMap, two, List.map_const', List.sum_replicate_nat, sha1Final_length]

theorem wrbufSha1_hex (text : List UInt8) : ∀ c ∈ wrbufSha1 text, isHexDigit c = true := by
  intro c inside
  rw [wrbufSha1, List.mem_flatMap] at inside
  obtain ⟨octet, -, inside⟩ := inside
  have high : octet / 16 < 16 := by
    rw [UInt8.lt_iff_toNat_lt, UInt8.toNat_div]
    have := octet.toNat_lt
    simp
    omega
  have low : octet % 16 < 16 := by
    rw [UInt8.lt_iff_toNat_lt, UInt8.toNat_mod]
    simp
    omega
  simp only [List.mem_cons, List.not_mem_nil, or_false] at inside
  rcases inside with rfl | rfl
  · exact isHexDigit_hexDigit _ high
  · exact isHexDigit_hexDigit _ low

example : wrbufSha1 [97, 98, 99] = "a9993e364706816aba3e25717850c26c9cd0d89d".toUTF8.toList := by decide +kernel

end Yaz.Wrbuf
