import Mathlib.Data.List.DropRight
import OpenNap.Password

/-! What `b64_encode` and `b64_decode` make of one another, which passwords `check_pass` accepts, and
which memory it touches when it reads a stored one. -/

namespace OpenNap

open CText

/-! ### The alphabet -/

theorem b64Lookup_alphabetAt {n : Nat} (h : n < 64) : b64Lookup (alphabetAt n) = n := by
  have hAll : ∀ n < 64, b64Lookup (alphabetAt n) = n := by decide +kernel
  exact hAll n h

theorem alphabetAt_ne_pad {n : Nat} (h : n < 64) : alphabetAt n ≠ '=' := by
  have hAll : ∀ n < 64, alphabetAt n ≠ '=' := by decide +kernel
  exact hAll n h

theorem toNat_alphabetAt {n : Nat} (h : n < 64) : (alphabetAt n).toNat < 128 := by
  have hAll : ∀ n < 64, (alphabetAt n).toNat < 128 := by decide +kernel
  exact hAll n h

/-- The two ends of a byte that the decoder puts together. -/
theorem or_join (i : Nat) {high low : Nat} (h : low < 2 ^ i) :
    (high * 2 ^ i ||| low) = high * 2 ^ i + low := by
  rw [Nat.mul_comm, Nat.two_pow_add_eq_or_of_lt h]

theorem join_first {a b : Nat} (h : a < 256) (hb : b < 16) :
    ((a / 4) * 4 ||| (a % 4 * 16 + b) / 16) % 256 = a := by
  have hLow : (a % 4 * 16 + b) / 16 = a % 4 := by omega
  have hJoin : (a / 4 * 4 ||| a % 4) = a / 4 * 4 + a % 4 := or_join 2 (by omega)
  rw [hLow, hJoin]
  omega

theorem join_second {x b y : Nat} (h : b < 256) (hy : y < 4) :
    ((x * 16 + b / 16) * 16 % 256 ||| (b % 16 * 4 + y) / 4) = b := by
  have hHigh : (x * 16 + b / 16) * 16 % 256 = b / 16 * 16 := by omega
  have hLow : (b % 16 * 4 + y) / 4 = b % 16 := by omega
  have hJoin : (b / 16 * 16 ||| b % 16) = b / 16 * 16 + b % 16 := or_join 4 (by omega)
  rw [hHigh, hLow, hJoin]
  omega

theorem join_third {x c : Nat} (h : c < 256) :
    ((x * 4 + c / 64) * 64 % 256 ||| c % 64) = c := by
  have hHigh : (x * 4 + c / 64) * 64 % 256 = c / 64 * 64 := by omega
  have hJoin : (c / 64 * 64 ||| c % 64) = c / 64 * 64 + c % 64 := or_join 6 (by omega)
  rw [hHigh, hJoin]
  omega

/-! ### Encoding and decoding -/

/-- What `b64_encode` writes without the `=` at the end. -/
def b64Digits : List Nat → Str
  | [] => []
  | [a] => [alphabetAt (a / 4), alphabetAt (a % 4 * 16)]
  | [a, b] => [alphabetAt (a / 4), alphabetAt (a % 4 * 16 + b / 16), alphabetAt (b % 16 * 4)]
  | a :: b :: c :: rest =>
    alphabetAt (a / 4) :: alphabetAt (a % 4 * 16 + b / 16) ::
      alphabetAt (b % 16 * 4 + c / 64) :: alphabetAt (c % 64) :: b64Digits rest

/-- How many `=` there are. -/
def b64Padding (x : List Nat) : Nat := (3 - x.length % 3) % 3

theorem b64Encode_eq (x : List Nat) :
    b64Encode x = b64Digits x ++ List.replicate (b64Padding x) '=' := by
  induction x using b64Digits.induct with
  | case1 => rfl
  | case2 a => rfl
  | case3 a b => rfl
  | case4 a b c rest ih =>
    have hPadding : b64Padding (a :: b :: c :: rest) = b64Padding rest := by
      simp only [b64Padding, List.length_cons]
      omega
    simp only [b64Encode, b64Digits, ih, hPadding, List.cons_append]

/-- The decoder gives the bytes back, however many of the `=` are left. -/
theorem b64Decode_b64Digits (x : List Nat) (h : ∀ b ∈ x, b < 256) {pads : Nat}
    (hPads : pads ≤ b64Padding x) : b64Decode (b64Digits x ++ List.replicate pads '=') = x := by
  induction x using b64Digits.induct with
  | case1 =>
    obtain rfl : pads = 0 := by simpa [b64Padding] using hPads
    rfl
  | case2 a =>
    have ha := h a (by simp)
    have hFirst := join_first (b := 0) ha (by omega)
    rw [Nat.add_zero] at hFirst
    have hHigh := b64Lookup_alphabetAt (n := a / 4) (by omega)
    have hLow := b64Lookup_alphabetAt (n := a % 4 * 16) (by omega)
    cases pads with
    | zero =>
      simp only [b64Digits, List.replicate_zero, List.append_nil, b64Decode, hHigh, hLow, hFirst]
    | succ pads =>
      simp only [b64Digits, List.replicate_succ, List.cons_append, List.nil_append, b64Decode, hHigh,
        hLow, if_true, hFirst]
  | case3 a b =>
    have ha := h a (by simp)
    have hb := h b (by simp)
    have hFirst := join_first (b := b / 16) ha (by omega)
    have hSecond := join_second (x := a % 4) (y := 0) hb (by omega)
    rw [Nat.add_zero] at hSecond
    have hHigh := b64Lookup_alphabetAt (n := a / 4) (by omega)
    have hMiddle := b64Lookup_alphabetAt (n := a % 4 * 16 + b / 16) (by omega)
    have hLow := b64Lookup_alphabetAt (n := b % 16 * 4) (by omega)
    have hNot := alphabetAt_ne_pad (n := b % 16 * 4) (by omega)
    cases pads with
    | zero =>
      simp only [b64Digits, List.replicate_zero, List.append_nil, b64Decode, hHigh, hMiddle, hLow, hNot,
        if_false, hFirst, hSecond]
    | succ pads =>
      simp only [b64Digits, List.replicate_succ, List.cons_append, List.nil_append, b64Decode, hHigh,
        hMiddle, hLow, hNot, if_false, if_true, hFirst, hSecond]
  | case4 a b c rest ih =>
    have ha := h a (by simp)
    have hb := h b (by simp)
    have hc := h c (by simp)
    have hFirst := join_first (b := b / 16) ha (by omega)
    have hSecond := join_second (x := a % 4) (y := c / 64) hb (by omega)
    have hThird := join_third (x := b % 16) hc
    have hHigh := b64Lookup_alphabetAt (n := a / 4) (by omega)
    have hMiddle := b64Lookup_alphabetAt (n := a % 4 * 16 + b / 16) (by omega)
    have hLow := b64Lookup_alphabetAt (n := b % 16 * 4 + c / 64) (by omega)
    have hLast := b64Lookup_alphabetAt (n := c % 64) (by omega)
    have hNot := alphabetAt_ne_pad (n := b % 16 * 4 + c / 64) (by omega)
    have hNotLast := alphabetAt_ne_pad (n := c % 64) (by omega)
    have hRest := ih (fun b hb => h b (by simp [hb])) (by
      simp only [b64Padding, List.length_cons] at hPads ⊢
      omega)
    simp only [b64Digits, List.cons_append, b64Decode, hHigh, hMiddle, hLow, hLast, hNot, hNotLast,
      if_false, hFirst, hSecond, hThird, hRest]

theorem b64Digits_chars (x : List Nat) (h : ∀ b ∈ x, b < 256) :
    ∀ c ∈ b64Digits x, c ≠ '=' ∧ c.toNat < 128 := by
  have hChar (n : Nat) (hn : n < 64) : alphabetAt n ≠ '=' ∧ (alphabetAt n).toNat < 128 :=
    ⟨alphabetAt_ne_pad hn, toNat_alphabetAt hn⟩
  induction x using b64Digits.induct with
  | case1 => simp [b64Digits]
  | case2 a =>
    have ha := h a (by simp)
    intro c hc
    simp only [b64Digits, List.mem_cons, List.not_mem_nil, or_false] at hc
    rcases hc with rfl | rfl <;> exact hChar _ (by omega)
  | case3 a b =>
    have ha := h a (by simp)
    have hb := h b (by simp)
    intro c hc
    simp only [b64Digits, List.mem_cons, List.not_mem_nil, or_false] at hc
    rcases hc with rfl | rfl | rfl <;> exact hChar _ (by omega)
  | case4 a b c rest ih =>
    have ha := h a (by simp)
    have hb := h b (by simp)
    have hc := h c (by simp)
    intro d hd
    simp only [b64Digits, List.mem_cons] at hd
    rcases hd with rfl | rfl | rfl | rfl | hd
    · exact hChar _ (by omega)
    · exact hChar _ (by omega)
    · exact hChar _ (by omega)
    · exact hChar _ (by omega)
    · exact ih (fun b hb => h b (by simp [hb])) d hd

theorem length_b64Digits (x : List Nat) : (b64Digits x).length = (4 * x.length + 2) / 3 := by
  induction x using b64Digits.induct with
  | case1 => rfl
  | case2 a => simp only [b64Digits, List.length_cons, List.length_nil]
  | case3 a b => simp only [b64Digits, List.length_cons, List.length_nil]
  | case4 a b c rest ih =>
    simp only [b64Digits, List.length_cons, ih]
    omega

/-- Without the `=` at the end only the digits are left. -/
theorem rdropWhile_b64Encode (x : List Nat) (h : ∀ b ∈ x, b < 256) :
    (b64Encode x).rdropWhile (· == '=') = b64Digits x := by
  rw [b64Encode_eq]
  induction b64Padding x with
  | zero =>
    rw [List.replicate_zero, List.append_nil, List.rdropWhile_eq_self_iff]
    intro hSome
    simpa using (b64Digits_chars x h _ (List.getLast_mem hSome)).1
  | succ n ih =>
    rw [List.replicate_succ', ← List.append_assoc, List.rdropWhile_concat_pos _ _ _ (by simp)]
    exact ih

/-! ### Stored passwords -/

theorem bytes_injective : Function.Injective bytes :=
  List.map_injective_iff.2 fun _ _ => Char.toNat_inj.1

/-- What `generate_pass` makes of eight random bytes. -/
def saltOf (random : Str) : Str := random.map fun c => alphabetAt (c.toNat % 64)

/-- A digest is 16 bytes. -/
structure SixteenBytes (md5 : Str → Str) : Prop where
  length : ∀ s, (md5 s).length = 16
  byte : ∀ s, ∀ c ∈ md5 s, c.toNat < 256

section Stored

variable {md5 : Str → Str} (h : SixteenBytes md5)

include h

theorem SixteenBytes.digest (s : Str) :
    (bytes (md5 s)).length = 16 ∧ ∀ b ∈ bytes (md5 s), b < 256 := by
  constructor
  · rw [bytes, List.length_map, h.length]
  · intro b hb
    obtain ⟨c, hc, rfl⟩ := List.mem_map.1 hb
    exact h.byte s c hc

/-- The 22 characters that are kept of the encoded digest are its digits. -/
theorem generatePass_eq (random pass : Str) :
    generatePass md5 random pass =
      '1' :: ',' :: (saltOf random ++ ',' :: b64Digits (bytes (md5 (saltOf random ++ pass)))) := by
  obtain ⟨hLength, -⟩ := h.digest (saltOf random ++ pass)
  have hDigits : (b64Digits (bytes (md5 (saltOf random ++ pass)))).length = 22 := by
    rw [length_b64Digits, hLength]
  have hTake : (b64Encode (bytes (md5 (saltOf random ++ pass)))).take 22 =
      b64Digits (bytes (md5 (saltOf random ++ pass))) := by
    rw [b64Encode_eq, ← hDigits, List.take_left]
  show str "1," ++ saltOf random ++ str "," ++
    (b64Encode (bytes (md5 (saltOf random ++ pass)))).take 22 = _
  rw [hTake]
  simp [str]

theorem checkPass_generatePass {random : Str} (hRandom : random.length = 8) (pass q : Str) :
    checkPass md5 (generatePass md5 random pass) q = false ↔
      md5 (saltOf random ++ q) = md5 (saltOf random ++ pass) := by
  have hSalt : (saltOf random).length = 8 := by rw [saltOf, List.length_map, hRandom]
  obtain ⟨hLength, hByte⟩ := h.digest (saltOf random ++ pass)
  have hDecode := b64Decode_b64Digits _ hByte (Nat.zero_le _)
  rw [List.replicate_zero, List.append_nil] at hDecode
  have hDrop (tail : Str) : (saltOf random ++ tail).drop 8 = tail := by rw [← hSalt, List.drop_left]
  have hTake (tail : Str) : (saltOf random ++ tail).take 8 = saltOf random := by
    rw [← hSalt, List.take_left]
  have hWhole : (bytes (md5 (saltOf random ++ pass))).take 16 =
      bytes (md5 (saltOf random ++ pass)) := by
    rw [← hLength, List.take_length]
  rw [generatePass_eq h]
  simp only [checkPass, hDrop, hTake, hDecode, hWhole, bne_eq_false_iff_eq]
  exact bytes_injective.eq_iff.trans eq_comm

end Stored

/-- `b64_decode` undoes `b64_encode`, with and without the `=` at the end; a password fits what
`generate_pass` made of it, and any other one only with the same digest. -/
theorem password_round_trip {md5 : Str → Str} (h : SixteenBytes md5) :
    (∀ x : List UInt8, b64Decode (b64Encode (x.map UInt8.toNat)) = x.map UInt8.toNat ∧
      b64Decode ((b64Encode (x.map UInt8.toNat)).rdropWhile (· == '=')) = x.map UInt8.toNat) ∧
    ∀ random pass : Str, random.length = 8 →
      checkPass md5 (generatePass md5 random pass) pass = false ∧
      ∀ q, checkPass md5 (generatePass md5 random pass) q = false →
        md5 (((generatePass md5 random pass).drop 2).take 8 ++ q) =
          md5 (((generatePass md5 random pass).drop 2).take 8 ++ pass) := by
  constructor
  · intro x
    have hByte : ∀ b ∈ x.map UInt8.toNat, b < 256 := by
      intro b hb
      obtain ⟨c, -, rfl⟩ := List.mem_map.1 hb
      exact c.toNat_lt
    constructor
    · rw [b64Encode_eq]
      exact b64Decode_b64Digits _ hByte (le_refl _)
    · have hDecode := b64Decode_b64Digits _ hByte (Nat.zero_le _)
      rw [List.replicate_zero, List.append_nil] at hDecode
      rw [rdropWhile_b64Encode _ hByte, hDecode]
  · intro random pass hRandom
    have hSalt : (saltOf random).length = 8 := by rw [saltOf, List.length_map, hRandom]
    have hStored : ((generatePass md5 random pass).drop 2).take 8 = saltOf random := by
      rw [generatePass_eq h, List.drop_succ_cons, List.drop_succ_cons, List.drop_zero, ← hSalt,
        List.take_left]
    refine ⟨(checkPass_generatePass h hRandom pass pass).2 rfl, fun q hFits => ?_⟩
    rw [hStored]
    exact (checkPass_generatePass h hRandom pass q).1 hFits

/-- The MD5 digest of the salt `AAAAAAAA` and the password `pw`. -/
def digestOfPw : Str :=
  [235, 83, 102, 112, 35, 141, 38, 122, 236, 131, 68, 3, 109, 152, 79, 170].map Char.ofNat

theorem password_round_trip_pw :
    checkPass (fun _ => digestOfPw)
      (generatePass (fun _ => digestOfPw) (List.replicate 8 '@') (str "pw")) (str "pw") = false := by
  have hDigest : SixteenBytes fun _ => digestOfPw := ⟨fun _ => by decide, fun _ => by simp [digestOfPw]⟩
  exact ((password_round_trip hDigest).2 (List.replicate 8 '@') (str "pw") (by decide)).1

/-! ### The memory that is touched -/

/-- What `check_pass` may do wrong in memory. -/
inductive Fault
  /-- it reads behind the NUL of the stored string -/
  | read
  /-- it reads outside `b64_lookup` -/
  | lookup
  /-- `b64_decode` writes behind the 16 bytes of `real` -/
  | write
  deriving DecidableEq

/-- `b64_lookup (c)`: the table has 128 entries, and a `char` from 128 on is negative. -/
def lookupChar (c : Char) : Except Fault Nat :=
  if c.toNat < 128 then .ok (b64Lookup c) else .error .lookup

/-- `*out++`, where so many bytes were written before. -/
def writeByte (out : List Nat) (b : Nat) : Except Fault (List Nat) :=
  if out.length < 16 then .ok (out ++ [b]) else .error .write

/-- `b64_decode` into the 16 bytes of `check_pass`. -/
def b64DecodeRun (out : List Nat) : Str → Except Fault (List Nat)
  | [] => .ok out
  | [c] => do
    let a ← lookupChar c
    -- the second character is the NUL, and the test for the third one is made behind it
    let b ← lookupChar (Char.ofNat 0)
    let _ ← writeByte out ((a * 4 ||| b / 16) % 256)
    .error .read
  | c :: d :: s => do
    let a ← lookupChar c
    let b ← lookupChar d
    let out ← writeByte out ((a * 4 ||| b / 16) % 256)
    match s with
    | [] => .ok out
    | e :: s =>
      if e = '=' then .ok out
      else
        let c ← lookupChar e
        let out ← writeByte out ((b * 16 % 256) ||| c / 4)
        match s with
        | [] => .ok out
        | f :: s =>
          if f = '=' then .ok out
          else
            let d ← lookupChar f
            let out ← writeByte out ((c * 64 % 256) ||| d)
            b64DecodeRun out s

/-- `check_pass`, whether the password does not fit or what goes wrong.  Eight characters are read
after the first comma, and the one after them. -/
def checkPassRun (md5 : Str → Str) (info pass : Str) : Except Fault Bool :=
  match info with
  | '1' :: ',' :: rest =>
    if rest.length < 8 then .error .read
    else
      match rest.drop 8 with
      | ',' :: digest => do
        let real ← b64DecodeRun [] digest
        .ok (real.take 16 != bytes (md5 (rest.take 8 ++ pass)))
      | _ => .ok true
  | _ => .ok true

/-- The loop of `b64_decode` ends at an `=` which is the third or the fourth of its characters. -/
def endsDecoding (p : Char × Nat) : Bool := p.1 == '=' && 2 ≤ p.2 % 4

/-- The characters that `b64_decode` decodes. -/
def decodedPart (s : Str) : Str := ((s.zipIdx).takeWhile fun p => !endsDecoding p).map Prod.fst

/-- What `b64_decode` does not go wrong on. -/
structure Decodable (s : Str) : Prop where
  ascii : ∀ c ∈ decodedPart s, c.toNat < 128
  whole : (decodedPart s).length % 4 ≠ 1
  short : (decodedPart s).length ≤ 22

theorem decodedPart_shift (s : Str) :
    ((s.zipIdx 4).takeWhile fun p => !endsDecoding p).map Prod.fst = decodedPart s := by
  have hShift : s.zipIdx 4 = s.zipIdx.map (Prod.map id (· + 4)) := by
    rw [List.map_snd_add_zipIdx_eq_zipIdx]
  have hSame : (fun p => !endsDecoding p) ∘ Prod.map id (· + 4) = fun p => !endsDecoding p := by
    funext p
    simp only [Function.comp_apply, Prod.map, id, endsDecoding, Nat.add_mod_right]
  rw [hShift, List.takeWhile_map, List.map_map, hSame]
  rfl

/-- Without an `=` all of the string is decoded. -/
theorem decodedPart_eq_self {s : Str} (h : ∀ c ∈ s, c ≠ '=') : decodedPart s = s := by
  have hAll : (s.zipIdx.takeWhile fun p => !endsDecoding p) = s.zipIdx := by
    rw [List.takeWhile_eq_self_iff]
    rintro ⟨c, i⟩ hc
    have hMem : c ∈ s := List.fst_mem_of_mem_zipIdx hc
    simp [endsDecoding, h c hMem]
  rw [decodedPart, hAll, List.zipIdx_map_fst]

section Part

variable (c d e f : Char) (s : Str)

@[simp] theorem decodedPart_nil : decodedPart [] = [] := rfl

@[simp] theorem decodedPart_one : decodedPart [c] = [c] := by
  simp [decodedPart, endsDecoding]

@[simp] theorem decodedPart_two : decodedPart [c, d] = [c, d] := by
  simp [decodedPart, endsDecoding]

theorem decodedPart_pad : decodedPart (c :: d :: '=' :: s) = [c, d] := by
  simp [decodedPart, endsDecoding]

variable {e} in
theorem decodedPart_three (h : e ≠ '=') : decodedPart [c, d, e] = [c, d, e] := by
  simp [decodedPart, endsDecoding, h]

variable {e} in
theorem decodedPart_last (h : e ≠ '=') : decodedPart (c :: d :: e :: '=' :: s) = [c, d, e] := by
  simp [decodedPart, endsDecoding, h]

variable {e f} in
theorem decodedPart_more (h : e ≠ '=') (hf : f ≠ '=') :
    decodedPart (c :: d :: e :: f :: s) = c :: d :: e :: f :: decodedPart s := by
  rw [← decodedPart_shift s]
  simp [decodedPart, endsDecoding, h, hf, List.zipIdx_cons]

end Part

theorem lookupChar_bind {β : Type} {c : Char} {f : Nat → Except Fault β} {r : β} :
    lookupChar c >>= f = .ok r ↔ c.toNat < 128 ∧ f (b64Lookup c) = .ok r := by
  unfold lookupChar
  split
  · rename_i hAscii
    simp [hAscii, bind, Except.bind]
  · rename_i hNot
    simp [hNot, bind, Except.bind]

theorem writeByte_bind {β : Type} {out : List Nat} {b : Nat} {f : List Nat → Except Fault β}
    {r : β} :
    writeByte out b >>= f = .ok r ↔ out.length < 16 ∧ f (out ++ [b]) = .ok r := by
  unfold writeByte
  split
  · rename_i hRoom
    simp [hRoom, bind, Except.bind]
  · rename_i hNot
    simp [hNot, bind, Except.bind]

theorem exists_ok {β : Type} (b : β) : (∃ r, (Except.ok b : Except Fault β) = .ok r) ↔ True :=
  ⟨fun _ => trivial, fun _ => ⟨b, rfl⟩⟩

theorem exists_bind_ok {α β : Type} (x : Except Fault α) (f : α → β) :
    (∃ r, (x >>= fun a => .ok (f a)) = .ok r) ↔ ∃ r, x = .ok r := by
  cases x <;> simp [bind, Except.bind]

theorem ascii_two {c d : Char} :
    (∀ x ∈ [c, d], x.toNat < 128) ↔ c.toNat < 128 ∧ d.toNat < 128 := by
  simp

theorem ascii_three {c d e : Char} :
    (∀ x ∈ [c, d, e], x.toNat < 128) ↔ c.toNat < 128 ∧ d.toNat < 128 ∧ e.toNat < 128 := by
  simp

/-- The loop of `b64_decode`, from where so many bytes are written. -/
theorem b64DecodeRun_ok_iff (out : List Nat) (s : Str) (hOut : out.length ≤ 16) :
    (∃ r, b64DecodeRun out s = .ok r) ↔
      (∀ c ∈ decodedPart s, c.toNat < 128) ∧ (decodedPart s).length % 4 ≠ 1 ∧
        out.length + (decodedPart s).length * 3 / 4 ≤ 16 := by
  match s with
  | [] => simp [b64DecodeRun, hOut]
  | [c] => simp [b64DecodeRun, lookupChar_bind, writeByte_bind]
  | [c, d] =>
    simp only [b64DecodeRun, lookupChar_bind, writeByte_bind, exists_and_left, exists_ok, and_true,
      decodedPart_two, ascii_two, List.length_cons, List.length_nil]
    omega
  | [c, d, e] =>
    obtain rfl | hPad := eq_or_ne e '='
    · simp only [b64DecodeRun, lookupChar_bind, writeByte_bind, exists_and_left, exists_ok, and_true,
        decodedPart_pad, if_true, ascii_two, List.length_cons, List.length_nil]
      omega
    · simp only [b64DecodeRun, lookupChar_bind, writeByte_bind, exists_and_left, exists_ok, and_true,
        decodedPart_three c d hPad, hPad, if_false, ascii_three, List.length_append,
        List.length_cons, List.length_nil]
      omega
  | c :: d :: e :: f :: s =>
    obtain rfl | hPad := eq_or_ne e '='
    · simp only [b64DecodeRun, lookupChar_bind, writeByte_bind, exists_and_left, exists_ok, and_true,
        decodedPart_pad, if_true, ascii_two, List.length_cons, List.length_nil]
      omega
    · obtain rfl | hLast := eq_or_ne f '='
      · simp only [b64DecodeRun, lookupChar_bind, writeByte_bind, exists_and_left, exists_ok, and_true,
          decodedPart_last c d s hPad, hPad, if_false, if_true, ascii_three, List.length_append,
          List.length_cons, List.length_nil]
        omega
      · simp only [b64DecodeRun, lookupChar_bind, writeByte_bind, exists_and_left,
          decodedPart_more c d s hPad hLast, hPad, if_false, hLast, List.forall_mem_cons,
          List.length_cons, List.length_append, List.length_nil]
        constructor
        · rintro ⟨hc, hd, -, he, -, hf, hRoom, hRun⟩
          obtain ⟨hAscii, hWhole, hShort⟩ := (b64DecodeRun_ok_iff _ s (by simp; omega)).1 hRun
          simp only [List.length_append, List.length_cons, List.length_nil] at hShort
          exact ⟨⟨hc, hd, he, hf, hAscii⟩, by omega, by omega⟩
        · rintro ⟨⟨hc, hd, he, hf, hAscii⟩, hWhole, hShort⟩
          refine ⟨hc, hd, by omega, he, by omega, hf, by omega, ?_⟩
          refine (b64DecodeRun_ok_iff _ s (by simp; omega)).2 ⟨hAscii, by omega, ?_⟩
          simp only [List.length_append, List.length_cons, List.length_nil]
          omega

/-- What `b64_decode` puts out when nothing goes wrong. -/
theorem b64DecodeRun_eq (out : List Nat) (s : Str) {r : List Nat} (h : b64DecodeRun out s = .ok r) :
    r = out ++ b64Decode s := by
  match s with
  | [] =>
    cases h
    rw [b64Decode, List.append_nil]
  | [c] =>
    simp only [b64DecodeRun, lookupChar_bind, writeByte_bind, reduceCtorEq, and_false] at h
  | [c, d] =>
    simp only [b64DecodeRun, lookupChar_bind, writeByte_bind] at h
    obtain ⟨-, -, -, hOut⟩ := h
    cases hOut
    rfl
  | [c, d, e] =>
    simp only [b64DecodeRun, lookupChar_bind, writeByte_bind] at h
    obtain ⟨-, -, -, hOut⟩ := h
    simp only [b64Decode]
    split at hOut
    · rename_i hPad
      cases hOut
      rw [if_pos hPad]
    · rename_i hPad
      simp only [lookupChar_bind, writeByte_bind, Except.ok.injEq] at hOut
      obtain ⟨-, -, rfl⟩ := hOut
      rw [if_neg hPad, List.append_assoc]
      rfl
  | c :: d :: e :: f :: s =>
    simp only [b64DecodeRun, lookupChar_bind, writeByte_bind] at h
    obtain ⟨-, -, -, hOut⟩ := h
    simp only [b64Decode]
    split at hOut
    · rename_i hPad
      cases hOut
      rw [if_pos hPad]
    · rename_i hPad
      simp only [lookupChar_bind, writeByte_bind] at hOut
      obtain ⟨-, -, hOut⟩ := hOut
      rw [if_neg hPad]
      split at hOut
      · rename_i hLast
        cases hOut
        rw [if_pos hLast, List.append_assoc]
        rfl
      · rename_i hLast
        simp only [lookupChar_bind, writeByte_bind] at hOut
        obtain ⟨-, -, hOut⟩ := hOut
        rw [if_neg hLast, b64DecodeRun_eq _ s hOut, List.append_assoc, List.append_assoc,
          List.append_assoc]
        rfl

/-- `check_pass` finds out about a password what the other definition says when nothing goes wrong. -/
theorem checkPassRun_eq {md5 : Str → Str} {info pass : Str} {r : Bool}
    (h : checkPassRun md5 info pass = .ok r) : r = checkPass md5 info pass := by
  unfold checkPassRun at h
  split at h
  · rename_i rest
    simp only [checkPass]
    split at h
    · cases h
    · split at h
      · rename_i digest hDigest
        cases hRun : b64DecodeRun [] digest with
        | error e =>
          rw [hRun] at h
          cases h
        | ok real =>
          rw [hRun] at h
          obtain rfl := b64DecodeRun_eq [] digest hRun
          cases h
          simp only [hDigest, List.nil_append]
      · rename_i hNot
        cases h
        cases hPart : rest.drop 8 with
        | nil => rfl
        | cons c digest =>
          have hComma : c ≠ ',' := by
            rintro rfl
            exact hNot digest hPart
          simp [hComma]
  · rename_i hNot
    cases h
    unfold checkPass
    split
    · rename_i rest
      exact absurd rfl (hNot rest)
    · rfl

/-- A stored string that `check_pass` does not go wrong on: it is not of the kind that is looked at,
or the salt is all there and what follows it, if it is a digest, can be decoded. -/
def SafelyStored (info : Str) : Prop :=
  ∀ rest, info = '1' :: ',' :: rest →
    8 ≤ rest.length ∧ ∀ digest, rest.drop 8 = ',' :: digest → Decodable digest

/-- `check_pass` reads the stored string no further than to its NUL, stays within the table and writes
no more than 16 bytes exactly for these strings. -/
theorem checkPassRun_ok_iff (md5 : Str → Str) (info pass : Str) :
    checkPassRun md5 info pass = .ok (checkPass md5 info pass) ↔ SafelyStored info := by
  have hSome : checkPassRun md5 info pass = .ok (checkPass md5 info pass) ↔
      ∃ r, checkPassRun md5 info pass = .ok r :=
    ⟨fun h => ⟨_, h⟩, fun ⟨r, h⟩ => by rw [← checkPassRun_eq h]; exact h⟩
  rw [hSome]
  unfold checkPassRun SafelyStored
  split
  · rename_i rest
    have hRest (P : Str → Prop) : (∀ r, '1' :: ',' :: rest = '1' :: ',' :: r → P r) ↔ P rest :=
      ⟨fun h => h rest rfl, fun h r hr => by cases hr; exact h⟩
    rw [hRest]
    split
    · rename_i hShort
      simp only [reduceCtorEq, exists_false, false_iff]
      rintro ⟨hLong, -⟩
      omega
    · rename_i hLong
      simp only [show 8 ≤ rest.length by omega, true_and]
      split
      · rename_i digest hDigest
        rw [exists_bind_ok, b64DecodeRun_ok_iff [] digest (Nat.zero_le _)]
        constructor
        · rintro ⟨hAscii, hWhole, hShort⟩ digest' hDigest'
          rw [hDigest] at hDigest'
          cases hDigest'
          rw [List.length_nil] at hShort
          exact ⟨hAscii, hWhole, by omega⟩
        · intro hAll
          obtain ⟨hAscii, hWhole, hShort⟩ := hAll digest hDigest
          refine ⟨hAscii, hWhole, ?_⟩
          rw [List.length_nil]
          omega
      · rename_i hNot
        simp only [exists_ok, true_iff]
        intro digest hDigest
        exact absurd hDigest (hNot digest)
  · rename_i hNot
    simp only [exists_ok, true_iff]
    intro rest hInfo
    exact absurd hInfo (hNot rest)

/-- One character where the digest is to stand: the test for a third one is made behind the NUL. -/
theorem checkPassRun_one :
    checkPassRun (fun _ => digestOfPw) (str "1,AAAAAAAA,A") (str "pw") = .error .read ∧
      checkPassRun (fun _ => digestOfPw) (str "1,AAAAAAAA,é") (str "pw") = .error .lookup ∧
      checkPassRun (fun _ => digestOfPw) (str "1,AAAAAAAA,AAAAAAAAAAAAAAAAAAAAAAA") (str "pw") =
        .error .write := by
  decide +kernel

/-- What `generate_pass` stores is safe. -/
theorem safelyStored_generatePass {md5 : Str → Str} (h : SixteenBytes md5) {random : Str}
    (hRandom : random.length = 8) (pass : Str) : SafelyStored (generatePass md5 random pass) := by
  have hSalt : (saltOf random).length = 8 := by rw [saltOf, List.length_map, hRandom]
  obtain ⟨hLength, hByte⟩ := h.digest (saltOf random ++ pass)
  have hChars := b64Digits_chars _ hByte
  have hDigits : (b64Digits (bytes (md5 (saltOf random ++ pass)))).length = 22 := by
    rw [length_b64Digits, hLength]
  intro rest hRest
  rw [generatePass_eq h] at hRest
  cases hRest
  refine ⟨by rw [List.length_append, hSalt]; omega, fun digest hDigest => ?_⟩
  rw [← hSalt, List.drop_left] at hDigest
  cases hDigest
  have hPart := decodedPart_eq_self fun c hc => (hChars c hc).1
  constructor
  · rw [hPart]
    exact fun c hc => (hChars c hc).2
  · rw [hPart, hDigits]
    decide
  · rw [hPart, hDigits]

end OpenNap
