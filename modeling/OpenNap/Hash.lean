import OpenNap.Lib.Bucket
import OpenNap.Lib.CText

/-! The server's hash tables: keys are strings, compared and hashed without regard to case. -/

namespace OpenNap

open CText

/-- A byte as a `char`, widened to `unsigned long`: bytes from 128 on are negative. -/
def charToUlong (c : Char) : UInt64 :=
  if c.toNat < 128 then c.toNat.toUInt64 else (2 ^ 64 - 256 + c.toNat).toUInt64

/-- The loop of `hash_string` over the rest of a key, whose bytes are already in lower case. -/
def hashLoop (h : UInt64) : Str → UInt64
  | [] => h
  | c :: cs =>
    let h := (h <<< 4) + charToUlong c
    let g := h &&& 0xF0000000
    let h := if g ≠ 0 then h ^^^ (g >>> 24) else h
    hashLoop (h &&& ~~~g) cs

/-- `hash_string`, before the remainder by the number of buckets. -/
def hashString (key : Str) : Nat := (hashLoop 0 key).toNat

/-- Keys are compared with `strcasecmp` and hashed through `tolower`. -/
def byName : Bucket.Scheme Str Str where
  norm := strlower
  hash := hashString

/-- A hash table of the server, with its entries' data. -/
abbrev NameTable (V : Type) := Bucket.Table byName V

theorem pos_257 : 0 < 257 := by omega

theorem pos_521 : 0 < 521 := by omega

theorem pos_2053 : 0 < 2053 := by omega

end OpenNap
