import Mathlib.Algebra.Ring.Nat
import OpenNap.Buffer

/-! The compression of what is queued for a server: `buffer_compress` gives the first block of the
input to `deflate` and collects the output in new blocks. -/

namespace OpenNap

/-- What a call of `deflate` with a free block of output does: it takes up to so many bytes of the
input, puts out bytes that fit the block and returns `Z_OK`, or does nothing and returns
`Z_BUF_ERROR`. -/
inductive Deflated
  | ok (taken : Nat) (out : List UInt8) (fits : out.length ≤ bufferBlock)
  | bufError

namespace Deflated

def taken : Deflated → Nat
  | ok taken _ _ => taken
  | bufError => 0

def out : Deflated → List UInt8
  | ok _ out _ => out
  | bufError => []

theorem out_le (d : Deflated) : d.out.length ≤ bufferBlock := by
  cases d with
  | ok taken out fits => exact fits
  | bufError => exact Nat.zero_le _

end Deflated

namespace Buffer

/-- A block that `deflate` wrote to.  It is marked as full, whatever stands behind the output. -/
def marked (out : List UInt8) : Buffer :=
  { data := out ++ List.replicate (bufferBlock - out.length) 0, datamax := bufferBlock }

/-- The block without the last so many bytes. -/
def trim (n : Nat) (b : Buffer) : Buffer := { b with data := b.data.take (b.datasize - n) }

/-- The loop of `buffer_compress`: the blocks, and `avail_in` and `avail_out` after it.  When there
is nothing left of the list, `deflate` returns `Z_BUF_ERROR`. -/
def deflateLoop (sync : Bool) : List Deflated → Nat → List Buffer → List Buffer × Nat × Nat
  | .ok taken out _ :: calls, availIn, r =>
    let availIn := availIn - min taken availIn
    let availOut := bufferBlock - out.length
    if availOut = 0 ∧ sync = true then deflateLoop sync calls availIn (r ++ [marked out])
    else (r ++ [marked out], availIn, availOut)
  | _, availIn, r => (r ++ [marked []], availIn, bufferBlock)

/-- The end of `buffer_compress`: what is unused of the last block is taken off.  When that is all of
it, the first block is freed and the chain is given up. -/
def trimLast (availOut : Nat) (r : List Buffer) : List Buffer :=
  match r.getLast? with
  | none => []
  | some b => if (b.trim availOut).datasize = 0 then [] else r.dropLast ++ [b.trim availOut]

/-- `buffer_compress`: the chain that it returns, and the input that is left.  The output is flushed
with the last block of the input. -/
def compress (calls : List Deflated) (chain : List Buffer) : List Buffer × List Buffer :=
  match chain with
  | [] => ([], [])
  | b :: more =>
    let bytes := b.datasize - b.consumed
    let loop := deflateLoop more.isEmpty calls bytes []
    (trimLast loop.2.2 loop.1, consume (bytes - loop.2.1) chain)

/-- The calls of `deflate` that `buffer_compress` makes: it goes on as long as the output is flushed
and the last block is full. -/
def deflateCalls (sync : Bool) : List Deflated → List Deflated
  | [] => []
  | d :: calls =>
    if d.out.length = bufferBlock ∧ sync = true then d :: deflateCalls sync calls else [d]

/-- All that `deflate` writes. -/
def deflated (sync : Bool) (calls : List Deflated) : List UInt8 :=
  (deflateCalls sync calls).flatMap Deflated.out

/-- The number of bytes that `deflate` takes, of so many. -/
def taken (sync : Bool) (calls : List Deflated) (bytes : Nat) : Nat :=
  min ((deflateCalls sync calls).map Deflated.taken).sum bytes

theorem rest_marked_full {out : List UInt8} (h : out.length = bufferBlock) :
    (marked out).rest = out ∧ (marked out).Valid := by
  have hData : (marked out).data = out := by
    simp only [marked, h, Nat.sub_self, List.replicate_zero, List.append_nil]
  refine ⟨by rw [rest, hData]; rfl, ?_, ?_⟩
  · rw [datasize, hData, h]
    exact le_refl _
  · rw [datasize, hData, h]
    exact Nat.zero_lt_succ _

theorem data_trim_marked {out : List UInt8} (h : out.length ≤ bufferBlock) :
    ((marked out).trim (bufferBlock - out.length)).data = out := by
  have hSize : (marked out).datasize = bufferBlock := by
    simp only [datasize, marked, List.length_append, List.length_replicate]
    omega
  have hKept : bufferBlock - (bufferBlock - out.length) = out.length := by omega
  rw [trim, hSize, hKept]
  exact List.take_left

/-- What the loop leaves behind: full blocks and one more. -/
structure Looped (sync : Bool) (calls : List Deflated) (availIn : Nat) (r : List Buffer)
    (result : List Buffer × Nat × Nat) (front : List (List UInt8)) (last : List UInt8) : Prop where
  chain : result.1 = r ++ front.map marked ++ [marked last]
  full : ∀ out ∈ front, out.length = bufferBlock
  wrote : front.flatten ++ last = deflated sync calls
  took : result.2.1 = availIn - ((deflateCalls sync calls).map Deflated.taken).sum
  left : result.2.2 = bufferBlock - last.length
  fits : last.length ≤ bufferBlock
  flushed : sync = true → last.length < bufferBlock
  single : sync = false → front = []

theorem deflateLoop_spec (sync : Bool) (calls : List Deflated) (availIn : Nat) (r : List Buffer) :
    ∃ front last, Looped sync calls availIn r (deflateLoop sync calls availIn r) front last := by
  induction calls generalizing availIn r with
  | nil =>
    exact ⟨[], [], by simp [deflateLoop], by simp, rfl, rfl, rfl, Nat.zero_le _, fun _ => by decide,
      fun _ => rfl⟩
  | cons d calls ih =>
    cases d with
    | bufError =>
      have hCalls : deflateCalls sync (.bufError :: calls) = [.bufError] := by
        rw [deflateCalls, if_neg (by simp [Deflated.out, bufferBlock])]
      exact ⟨[], [], by simp [deflateLoop], by simp, by rw [deflated, hCalls]; rfl,
        by rw [hCalls]; rfl, rfl, Nat.zero_le _, fun _ => by decide, fun _ => rfl⟩
    | ok taken out fits =>
      by_cases hMore : out.length = bufferBlock ∧ sync = true
      · have hCalls : deflateCalls sync (.ok taken out fits :: calls) =
            .ok taken out fits :: deflateCalls sync calls := by
          rw [deflateCalls]
          exact if_pos hMore
        have hLoop : deflateLoop sync (.ok taken out fits :: calls) availIn r =
            deflateLoop sync calls (availIn - min taken availIn) (r ++ [marked out]) := by
          rw [deflateLoop]
          exact if_pos ⟨by omega, hMore.2⟩
        obtain ⟨front, last, hLast⟩ := ih (availIn - min taken availIn) (r ++ [marked out])
        rw [hLoop]
        refine ⟨out :: front, last, ?_, ?_, ?_, ?_, hLast.left, hLast.fits, hLast.flushed, ?_⟩
        · rw [hLast.chain]
          simp
        · intro o ho
          rcases List.mem_cons.1 ho with rfl | ho
          · exact hMore.1
          · exact hLast.full o ho
        · rw [deflated, hCalls, List.flatten_cons, List.append_assoc, hLast.wrote]
          rfl
        · rw [hLast.took, hCalls, List.map_cons, List.sum_cons]
          simp only [Deflated.taken]
          omega
        · intro hSync
          rw [hMore.2] at hSync
          cases hSync
      · have hCalls : deflateCalls sync (.ok taken out fits :: calls) = [.ok taken out fits] := by
          rw [deflateCalls]
          exact if_neg hMore
        have hLoop : deflateLoop sync (.ok taken out fits :: calls) availIn r =
            (r ++ [marked out], availIn - min taken availIn, bufferBlock - out.length) := by
          rw [deflateLoop]
          exact if_neg fun hFull => hMore ⟨by omega, hFull.2⟩
        rw [hLoop]
        refine ⟨[], out, by simp, by simp, ?_, ?_, rfl, fits, fun hSync => ?_, fun _ => rfl⟩
        · rw [deflated, hCalls]
          simp [Deflated.out]
        · rw [hCalls]
          simp only [List.map_cons, List.map_nil, List.sum_cons, List.sum_nil, Deflated.taken]
          omega
        · by_contra hNot
          exact hMore ⟨by omega, hSync⟩

theorem trimLast_marked (front : List (List UInt8)) {last : List UInt8}
    (h : last.length ≤ bufferBlock) :
    trimLast (bufferBlock - last.length) (front.map marked ++ [marked last]) =
      if last = [] then []
      else front.map marked ++ [(marked last).trim (bufferBlock - last.length)] := by
  have hData := data_trim_marked h
  simp only [trimLast, List.getLast?_concat, List.dropLast_concat, datasize, hData,
    List.length_eq_zero_iff]

theorem valid_trim_marked {last : List UInt8} (h : last.length ≤ bufferBlock) (hSome : last ≠ []) :
    ((marked last).trim (bufferBlock - last.length)).rest = last ∧
      ((marked last).trim (bufferBlock - last.length)).Valid := by
  have hData := data_trim_marked h
  refine ⟨by rw [rest, hData]; rfl, ?_, ?_⟩
  · rw [datasize, hData]
    exact h
  · rw [datasize, hData]
    exact List.length_pos_iff.2 hSome

/-- The bytes in full blocks. -/
theorem flatMap_rest_marked {front : List (List UInt8)}
    (h : ∀ out ∈ front, out.length = bufferBlock) :
    (front.map marked).flatMap rest = front.flatten ∧ (∀ x ∈ front.map marked, x.Valid) ∧
      front.flatten.length = bufferBlock * front.length := by
  induction front with
  | nil => simp
  | cons out front ih =>
    obtain ⟨hBytes, hValid, hLength⟩ := ih fun o ho => h o (by simp [ho])
    obtain ⟨hRest, hOut⟩ := rest_marked_full (h out (by simp))
    refine ⟨?_, ?_, ?_⟩
    · rw [List.map_cons, List.flatMap_cons, hRest, hBytes, List.flatten_cons]
    · intro x hx
      rcases List.mem_cons.1 hx with rfl | hx
      · exact hOut
      · exact hValid x hx
    · rw [List.flatten_cons, List.length_append, hLength, h out (by simp), List.length_cons,
        Nat.mul_succ, Nat.add_comm]

section Chain

variable (calls : List Deflated) {b : Buffer} {more : List Buffer}

/-- `deflate` was given the last block of the input, and its output ends with the end of a block. -/
def EndsEven (calls : List Deflated) (more : List Buffer) : Prop :=
  more = [] ∧ deflated true calls ≠ [] ∧ (deflated true calls).length % bufferBlock = 0

/-- The chain that is returned holds the output, or it is lost. -/
theorem compress_out :
    (∀ x ∈ (compress calls (b :: more)).1, x.Valid) ∧
      ((EndsEven calls more ∧ (compress calls (b :: more)).1 = []) ∨
        (¬ EndsEven calls more ∧
          (compress calls (b :: more)).1.flatMap rest = deflated more.isEmpty calls)) := by
  obtain ⟨front, last, hLoop⟩ := deflateLoop_spec more.isEmpty calls (b.datasize - b.consumed) []
  obtain ⟨hBytes, hValid, hLength⟩ := flatMap_rest_marked hLoop.full
  have hChain : (compress calls (b :: more)).1 =
      if last = [] then []
      else front.map marked ++ [(marked last).trim (bufferBlock - last.length)] := by
    rw [← trimLast_marked front hLoop.fits, ← hLoop.left]
    simp only [compress, hLoop.chain, List.nil_append]
  have hWrote := hLoop.wrote
  have hSize := congrArg List.length hWrote
  rw [List.length_append, hLength] at hSize
  rw [hChain]
  by_cases hLast : last = []
  · simp only [hLast, if_true, List.not_mem_nil, false_implies, implies_true, List.flatMap_nil,
      true_and, and_true]
    rw [hLast, List.append_nil] at hWrote
    cases hMore : more.isEmpty with
    | false =>
      have hNone := hLoop.single hMore
      have hNot : ¬ EndsEven calls more := by
        rintro ⟨rfl, -⟩
        cases hMore
      refine .inr ⟨hNot, ?_⟩
      rw [← hMore, ← hWrote, hNone]
      rfl
    | true =>
      rw [hMore, hLast] at hSize
      by_cases hSome : deflated true calls = []
      · exact .inr ⟨fun hEven => hEven.2.1 hSome, hSome.symm⟩
      · refine .inl ⟨List.isEmpty_iff.1 hMore, hSome, ?_⟩
        rw [← hSize, List.length_nil, Nat.add_zero, Nat.mul_mod_right]
  · obtain ⟨hRest, hTrimmed⟩ := valid_trim_marked hLoop.fits hLast
    simp only [hLast, if_false]
    constructor
    · intro x hx
      rcases List.mem_append.1 hx with hx | hx
      · exact hValid x hx
      · rw [List.mem_singleton.1 hx]
        exact hTrimmed
    · refine .inr ⟨?_, ?_⟩
      · rintro ⟨rfl, -, hEven⟩
        have hShort := hLoop.flushed rfl
        have hPos := List.length_pos_iff.2 hLast
        rw [show [].isEmpty = true from rfl] at hSize
        rw [← hSize, Nat.mul_add_mod, Nat.mod_eq_of_lt hShort] at hEven
        omega
      · rw [List.flatMap_append, hBytes, ← hWrote, List.flatMap_singleton, hRest]

/-- The input that is left. -/
theorem compress_in (h : ∀ x ∈ b :: more, x.Valid) :
    b.rest.take (taken more.isEmpty calls b.rest.length) ++
        (compress calls (b :: more)).2.flatMap rest = (b :: more).flatMap rest ∧
      ∀ x ∈ (compress calls (b :: more)).2, x.Valid := by
  obtain ⟨front, last, hLoop⟩ := deflateLoop_spec more.isEmpty calls (b.datasize - b.consumed) []
  have hLength := b.rest_length
  have hTaken : b.datasize - b.consumed -
      (deflateLoop more.isEmpty calls (b.datasize - b.consumed) []).2.1 =
      taken more.isEmpty calls b.rest.length := by
    rw [hLoop.took, taken, hLength]
    omega
  have hConsumed := consume_spec h (n := taken more.isEmpty calls b.rest.length) (by
    rw [taken, hLength]
    exact Nat.min_le_right _ _)
  simp only [compress, hTaken]
  exact hConsumed

end Chain

end Buffer

end OpenNap
