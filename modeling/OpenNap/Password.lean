import OpenNap.Lib.CText

/-! Stored passwords: `1,<salt>,<digest>`, where the digest is that of the salt and the password,
in base 64 without its padding.  The digest function itself is a parameter. -/

namespace OpenNap

open CText

/-- `alphabet`. -/
def alphabet : Str :=
  str "ABCDEFGHIJKLMNOPQRSTUVWXYZabcdefghijklmnopqrstuvwxyz0123456789+/"

/-- `alphabet (c)`. -/
def alphabetAt (n : Nat) : Char := alphabet.getD n 'A'

/-- `b64_encode`. -/
def b64Encode : List Nat → Str
  | [] => []
  | [a] => [alphabetAt (a / 4), alphabetAt (a % 4 * 16), '=', '=']
  | [a, b] =>
    [alphabetAt (a / 4), alphabetAt (a % 4 * 16 + b / 16), alphabetAt (b % 16 * 4), '=']
  | a :: b :: c :: rest =>
    alphabetAt (a / 4) :: alphabetAt (a % 4 * 16 + b / 16) ::
      alphabetAt (b % 16 * 4 + c / 64) :: alphabetAt (c % 64) :: b64Encode rest

/-- `b64_lookup`, as an unsigned byte: 255 stands for -1. -/
def b64Lookup (c : Char) : Nat := (alphabet.findIdx? (· == c)).getD 255

/-- `b64_decode`.  A single character at the end is read with the NUL that follows it. -/
def b64Decode : Str → List Nat
  | [] => []
  | [a] => [(b64Lookup a * 4 ||| 15) % 256]
  | a :: b :: rest =>
    let first := (b64Lookup a * 4 ||| b64Lookup b / 16) % 256
    match rest with
    | [] => [first]
    | c :: rest =>
      if c = '=' then [first]
      else
        let second := (b64Lookup b * 16 % 256) ||| b64Lookup c / 4
        match rest with
        | [] => [first, second]
        | d :: rest =>
          if d = '=' then [first, second]
          else first :: second :: ((b64Lookup c * 64 % 256) ||| b64Lookup d) :: b64Decode rest

/-- The bytes of a string. -/
def bytes (s : Str) : List Nat := s.map Char.toNat

/-- `check_pass`: whether the password does not fit what is stored. -/
def checkPass (md5 : Str → Str) (info pass : Str) : Bool :=
  match info with
  | '1' :: ',' :: rest =>
    match rest.drop 8 with
    | ',' :: digest => (b64Decode digest).take 16 != bytes (md5 (rest.take 8 ++ pass))
    | _ => true
  | _ => true

/-- `generate_pass`, from eight random bytes. -/
def generatePass (md5 : Str → Str) (random pass : Str) : Str :=
  let salt := random.map fun c => alphabetAt (c.toNat % 64)
  str "1," ++ salt ++ str "," ++ (b64Encode (bytes (md5 (salt ++ pass)))).take 22

end OpenNap
