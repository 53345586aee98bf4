import Yaz.Comstack.Complete

/-! Reading and writing of UTF-8, in the form with up to six octets. -/

set_option autoImplicit false

namespace Yaz.Iconv

/-- The last `n` octets of a code: `(x >> 6k) & 0x3f | 0x80`. -/
def trailingOctets (x : Nat) : Nat → List UInt8
  | 0 => []
  | n + 1 => trailingOctets (x / 64) n ++ [UInt8.ofNat (x % 64 + 0x80)]

/-- A code with a first octet and `n` more; a first octet keeps eight bits. -/
def utf8Octets (mark : Nat) (n x : Nat) : List UInt8 := UInt8.ofNat (x / 64 ^ n ||| mark) :: trailingOctets x n

/-- `yaz_write_UTF8_char`; `none` for `YAZ_ICONV_E2BIG`. -/
def yazWriteUTF8Char (x outbytesleft : Nat) : Option (List UInt8) :=
  if x ≤ 0x7f ∧ 1 ≤ outbytesleft then some [UInt8.ofNat x]
  else if x ≤ 0x7ff ∧ 2 ≤ outbytesleft then some (utf8Octets 0xc0 1 x)
  else if x ≤ 0xffff ∧ 3 ≤ outbytesleft then some (utf8Octets 0xe0 2 x)
  else if x ≤ 0x1fffff ∧ 4 ≤ outbytesleft then some (utf8Octets 0xf0 3 x)
  else if x ≤ 0x3ffffff ∧ 5 ≤ outbytesleft then some (utf8Octets 0xf8 4 x)
  else if 6 ≤ outbytesleft then some (utf8Octets 0xfc 5 x)
  else none

end Yaz.Iconv
