import Mathlib.Logic.Relation
import Mathlib.Order.Basic
import Mathlib.Order.WellFounded

/-! Two parties joined by a link that loses nothing: the messages under way in each direction, the
runs in which they are processed, and rules for what every run leads to.  A message may be taken out
of turn, unless the link keeps the order. -/

namespace Duplex

/-- How a party processes a message: from a state to a state, with the answers it sends. -/
abbrev Party (σ μ : Type) := σ → μ → σ → List μ → Prop

/-- The two parties and what is under way to each of them. -/
structure Net (σ τ μ : Type) where
  left : σ
  right : τ
  toLeft : List μ := []
  toRight : List μ := []

variable {σ τ μ : Type}

namespace Net

/-- Nothing is under way. -/
def Quiet (n : Net σ τ μ) : Prop := n.toLeft = [] ∧ n.toRight = []

/-- The same two parties, named the other way round. -/
def swap (n : Net σ τ μ) : Net τ σ μ := ⟨n.right, n.left, n.toRight, n.toLeft⟩

end Net

/-- One message is processed; `inOrder` says that the link keeps the order. -/
inductive Step (P : Party σ μ) (Q : Party τ μ) (inOrder : Prop) : Net σ τ μ → Net σ τ μ → Prop
  | left {a : σ} {b : τ} {before after toRight : List μ} {m : μ} {a' : σ} {out : List μ}
      (hOrder : inOrder → before = []) (hParty : P a m a' out) :
      Step P Q inOrder ⟨a, b, before ++ m :: after, toRight⟩ ⟨a', b, before ++ after, toRight ++ out⟩
  | right {a : σ} {b : τ} {before after toLeft : List μ} {m : μ} {b' : τ} {out : List μ}
      (hOrder : inOrder → before = []) (hParty : Q b m b' out) :
      Step P Q inOrder ⟨a, b, toLeft, before ++ m :: after⟩ ⟨a, b', toLeft ++ out, before ++ after⟩

/-- Any number of messages are processed, one after the other. -/
abbrev Run (P : Party σ μ) (Q : Party τ μ) (inOrder : Prop) : Net σ τ μ → Net σ τ μ → Prop :=
  Relation.ReflTransGen (Step P Q inOrder)

/-- There is no endless run from here. -/
def Terminates (P : Party σ μ) (Q : Party τ μ) (inOrder : Prop) (n : Net σ τ μ) : Prop :=
  Acc (fun later now => Step P Q inOrder now later) n

/-- Every run from here ends, and only where nothing is under way and the parties are as they
should be. -/
structure Settles (P : Party σ μ) (Q : Party τ μ) (inOrder : Prop) (good : σ → τ → Prop)
    (n : Net σ τ μ) : Prop where
  terminates : Terminates P Q inOrder n
  ends : ∀ n', Run P Q inOrder n n' → (∀ n'', ¬ Step P Q inOrder n' n'') →
    n'.Quiet ∧ good n'.left n'.right

variable {P : Party σ μ} {Q : Party τ μ} {inOrder : Prop}

/-- The first message under way can always be processed. -/
theorem Step.firstLeft {a a' : σ} {m : μ} {out : List μ} (h : P a m a' out) (b : τ)
    (rest toRight : List μ) :
    Step P Q inOrder ⟨a, b, m :: rest, toRight⟩ ⟨a', b, rest, toRight ++ out⟩ := by
  show Step P Q inOrder ⟨a, b, [] ++ m :: rest, toRight⟩ ⟨a', b, [] ++ rest, toRight ++ out⟩
  exact .left (fun _ => rfl) h

theorem Step.firstRight {b b' : τ} {m : μ} {out : List μ} (h : Q b m b' out) (a : σ)
    (rest toLeft : List μ) :
    Step P Q inOrder ⟨a, b, toLeft, m :: rest⟩ ⟨a, b', toLeft ++ out, rest⟩ := by
  show Step P Q inOrder ⟨a, b, toLeft, [] ++ m :: rest⟩ ⟨a, b', toLeft ++ out, [] ++ rest⟩
  exact .right (fun _ => rfl) h

/-- What every step keeps, a run keeps. -/
theorem Run.invariant {I : Net σ τ μ → Prop}
    (hStep : ∀ n n', Step P Q inOrder n n' → I n → I n') {n n' : Net σ τ μ}
    (h : Run P Q inOrder n n') (hInit : I n) : I n' := by
  induction h with
  | refl => exact hInit
  | tail _ hLast ih => exact hStep _ _ hLast ih

theorem Step.swap {n n' : Net σ τ μ} (h : Step P Q inOrder n n') :
    Step Q P inOrder n.swap n'.swap := by
  cases h with
  | left hOrder hParty => exact .right hOrder hParty
  | right hOrder hParty => exact .left hOrder hParty

theorem Run.swap {n n' : Net σ τ μ} (h : Run P Q inOrder n n') : Run Q P inOrder n.swap n'.swap := by
  induction h with
  | refl => exact .refl
  | tail _ hLast ih => exact ih.tail hLast.swap

/-- It makes no difference which party is named first. -/
theorem Settles.swap {good : σ → τ → Prop} {n : Net σ τ μ} (h : Settles P Q inOrder good n) :
    Settles Q P inOrder (fun b a => good a b) n.swap := by
  refine ⟨?_, fun n' hRun hEnd => ?_⟩
  · show Acc _ n.swap
    generalize hSwap : n.swap = n'
    obtain ⟨hAcc, -⟩ := h
    induction hAcc generalizing n' with
    | intro m _ ih =>
      subst hSwap
      exact ⟨_, fun later hStep => ih later.swap hStep.swap _ rfl⟩
  · have hEnds := h.ends n'.swap hRun.swap fun n'' hStep => hEnd n''.swap hStep.swap
    exact ⟨⟨hEnds.1.2, hEnds.1.1⟩, hEnds.2⟩

theorem Settles.imp {good good' : σ → τ → Prop} {n : Net σ τ μ} (h : Settles P Q inOrder good n)
    (hGood : ∀ a b, good a b → good' a b) : Settles P Q inOrder good' n where
  terminates := h.terminates
  ends := fun n' hRun hEnd => (h.ends n' hRun hEnd).imp_right (hGood _ _)

/-- A step leads from a net that settles to one that does. -/
theorem Settles.step {good : σ → τ → Prop} {n n' : Net σ τ μ} (h : Settles P Q inOrder good n)
    (hStep : Step P Q inOrder n n') : Settles P Q inOrder good n' where
  terminates := h.terminates.inv hStep
  ends := fun n'' hRun hEnd => h.ends n'' (.head hStep hRun) hEnd

/-- The first message to the right may be the next one to be processed. -/
theorem Settles.firstRight {good : σ → τ → Prop} {n : Net σ τ μ} (h : Settles P Q inOrder good n)
    {m : μ} {rest : List μ} (hNext : n.toRight = m :: rest) {b' : τ} {out : List μ}
    (hParty : Q n.right m b' out) : Settles P Q inOrder good ⟨n.left, b', n.toLeft ++ out, rest⟩ := by
  obtain ⟨a, b, toLeft, toRight⟩ := n
  obtain rfl : toRight = m :: rest := hNext
  exact h.step (.firstRight hParty a rest toLeft)

theorem Settles.firstLeft {good : σ → τ → Prop} {n : Net σ τ μ} (h : Settles P Q inOrder good n)
    {m : μ} {rest : List μ} (hNext : n.toLeft = m :: rest) {a' : σ} {out : List μ}
    (hParty : P n.left m a' out) : Settles P Q inOrder good ⟨a', n.right, rest, n.toRight ++ out⟩ := by
  obtain ⟨a, b, toLeft, toRight⟩ := n
  obtain rfl : toLeft = m :: rest := hNext
  exact h.step (.firstLeft hParty b rest toRight)

theorem Settles.run {good : σ → τ → Prop} {n n' : Net σ τ μ} (h : Settles P Q inOrder good n)
    (hRun : Run P Q inOrder n n') : Settles P Q inOrder good n' :=
  hRun.invariant (fun _ _ hStep h => h.step hStep) h

/-- Where nothing is under way, the parties of a net that settles are as they should be. -/
theorem Settles.good {good : σ → τ → Prop} {n : Net σ τ μ} (h : Settles P Q inOrder good n)
    (hQuiet : n.Quiet) : good n.left n.right := by
  refine (h.ends n .refl fun n' hStep => ?_).2
  obtain ⟨hLeft, hRight⟩ := hQuiet
  cases hStep with
  | left => exact absurd hLeft (by simp)
  | right => exact absurd hRight (by simp)

/-- Runs in which every step takes something away end. -/
theorem terminates_of_measure {I : Net σ τ μ → Prop}
    (hStep : ∀ n n', Step P Q inOrder n n' → I n → I n') (measure : Net σ τ μ → Nat)
    (hLess : ∀ n n', Step P Q inOrder n n' → I n → measure n' < measure n) {n : Net σ τ μ}
    (hInit : I n) : Terminates P Q inOrder n := by
  generalize hMeasure : measure n = k
  induction k using Nat.strongRecOn generalizing n with
  | _ k ih =>
    refine ⟨_, fun n' hNext => ih _ ?_ (hStep _ _ hNext hInit) rfl⟩
    rw [← hMeasure]
    exact hLess _ _ hNext hInit

/-! ### One party prevails -/

/-- The left party prevails.  It keeps its value whatever it is sent, and what it sends makes the
right party take the value over and keep it from then on.  A message that is `Due` is answered. -/
structure Prevails (P : Party σ μ) (Q : Party τ μ) (Holds : σ → Prop) (Taken Open : τ → Prop)
    (Told Vain Due : μ → Prop) : Prop where
  keeps : ∀ a m a' out, Holds a → Vain m → P a m a' out →
    Holds a' ∧ out.length ≤ 1 ∧ (∀ o ∈ out, Told o) ∧ (Due m → out ≠ [])
  takes : ∀ b m b' out, Taken b ∨ Open b → Told m → Q b m b' out → Taken b' ∧ out = []
  left_total : ∀ a m, Holds a → Vain m → ∃ a' out, P a m a' out
  right_total : ∀ b m, Taken b ∨ Open b → Told m → ∃ b' out, Q b m b' out

namespace Prevails

variable {Holds : σ → Prop} {Taken Open : τ → Prop} {Told Vain Due : μ → Prop}

/-- What every run keeps: the right party has taken the value over, or a message is under way that
it will take it from, or that the left party will answer. -/
structure Inv (Holds : σ → Prop) (Taken Open : τ → Prop) (Told Vain Due : μ → Prop)
    (n : Net σ τ μ) : Prop where
  left : Holds n.left
  right : Taken n.right ∨ Open n.right
  toLeft : ∀ m ∈ n.toLeft, Vain m
  toRight : ∀ m ∈ n.toRight, Told m
  pending : Taken n.right ∨ n.toRight ≠ [] ∨ ∃ m ∈ n.toLeft, Due m

theorem Inv.step {n n' : Net σ τ μ} (hInv : Inv Holds Taken Open Told Vain Due n)
    (h : Prevails P Q Holds Taken Open Told Vain Due) (hStep : Step P Q inOrder n n') :
    Inv Holds Taken Open Told Vain Due n' := by
  obtain ⟨hLeft, hRight, hToLeft, hToRight, hPending⟩ := hInv
  cases hStep with
  | left _ hParty =>
    obtain ⟨hHolds, -, hTold, hDue⟩ := h.keeps _ _ _ _ hLeft (hToLeft _ (by simp)) hParty
    refine ⟨hHolds, hRight, fun m hm => hToLeft m ?_, fun m hm => ?_, ?_⟩
    · simp only [List.mem_append, List.mem_cons] at hm ⊢
      tauto
    · exact (List.mem_append.1 hm).elim (hToRight m) (hTold m)
    · rcases hPending with hTaken | hSome | ⟨m, hm, hIsDue⟩
      · exact .inl hTaken
      · exact .inr (.inl (by simp [hSome]))
      · -- the message that was due is the one that was answered, or is still under way
        rcases List.mem_append.1 hm with hm | hm
        · exact .inr (.inr ⟨m, by simp [hm], hIsDue⟩)
        · rcases List.mem_cons.1 hm with rfl | hm
          · exact .inr (.inl (by simp [hDue hIsDue]))
          · exact .inr (.inr ⟨m, by simp [hm], hIsDue⟩)
  | right _ hParty =>
    obtain ⟨hTaken, rfl⟩ := h.takes _ _ _ _ hRight (hToRight _ (by simp)) hParty
    refine ⟨hLeft, .inl hTaken, by simpa using hToLeft, fun m hm => hToRight m ?_, .inl hTaken⟩
    simp only [List.mem_append, List.mem_cons] at hm ⊢
    tauto

/-- A message to the left counts twice, because it may be answered. -/
theorem Inv.less {n n' : Net σ τ μ} (hInv : Inv Holds Taken Open Told Vain Due n)
    (h : Prevails P Q Holds Taken Open Told Vain Due) (hStep : Step P Q inOrder n n') :
    2 * n'.toLeft.length + n'.toRight.length < 2 * n.toLeft.length + n.toRight.length := by
  cases hStep with
  | left _ hParty =>
    have hLength := (h.keeps _ _ _ _ hInv.left (hInv.toLeft _ (by simp)) hParty).2.1
    simp only [List.length_append, List.length_cons]
    omega
  | right _ hParty =>
    obtain ⟨-, rfl⟩ := h.takes _ _ _ _ hInv.right (hInv.toRight _ (by simp)) hParty
    simp only [List.length_append, List.length_cons, List.length_nil]
    omega

/-- Where nothing is left to do, nothing is under way. -/
theorem Inv.quiet {n : Net σ τ μ} (hInv : Inv Holds Taken Open Told Vain Due n)
    (h : Prevails P Q Holds Taken Open Told Vain Due) (hEnd : ∀ n', ¬ Step P Q inOrder n n') :
    n.Quiet := by
  obtain ⟨a, b, toLeft, toRight⟩ := n
  constructor
  · cases toLeft with
    | nil => rfl
    | cons m rest =>
      obtain ⟨a', out, hParty⟩ := h.left_total a m hInv.left (hInv.toLeft m (by simp))
      exact absurd (.firstLeft hParty b rest toRight) (hEnd _)
  · cases toRight with
    | nil => rfl
    | cons m rest =>
      obtain ⟨b', out, hParty⟩ := h.right_total b m hInv.right (hInv.toRight m (by simp))
      exact absurd (.firstRight hParty a rest toLeft) (hEnd _)

/-- Where one party prevails, every run ends with both holding its value. -/
theorem settles (h : Prevails P Q Holds Taken Open Told Vain Due) {n : Net σ τ μ}
    (hInit : Inv Holds Taken Open Told Vain Due n) :
    Settles P Q inOrder (fun a b => Holds a ∧ Taken b) n := by
  have hStep : ∀ n n', Step P Q inOrder n n' → Inv Holds Taken Open Told Vain Due n →
      Inv Holds Taken Open Told Vain Due n' := fun n n' hStep hInv => hInv.step h hStep
  refine ⟨terminates_of_measure hStep (fun n => 2 * n.toLeft.length + n.toRight.length)
    (fun n n' hStep hInv => hInv.less h hStep) hInit, ?_⟩
  intro n' hRun hEnd
  have hInv := hRun.invariant hStep hInit
  have hQuiet := hInv.quiet h hEnd
  refine ⟨hQuiet, hInv.left, ?_⟩
  rcases hInv.pending with hTaken | hSome | ⟨m, hm, -⟩
  · exact hTaken
  · exact absurd hQuiet.2 hSome
  · rw [hQuiet.1] at hm
    exact absurd hm (by simp)

end Prevails

/-! ### Parties that do not answer -/

/-- A party has processed messages in their order. -/
inductive Processed (P : Party σ μ) : σ → List μ → σ → Prop
  | nil (a : σ) : Processed P a [] a
  | cons {a a' a'' : σ} {m : μ} {out rest : List μ} (hParty : P a m a' out)
      (hRest : Processed P a' rest a'') : Processed P a (m :: rest) a''

/-- A party that is ready for every message of some kinds, and answers none of them. -/
structure Silent (P : Party σ μ) (Ready : σ → Prop) (Kind : μ → Prop) : Prop where
  silent : ∀ a m a' out, Ready a → Kind m → P a m a' out → Ready a' ∧ out = []
  total : ∀ a m, Ready a → Kind m → ∃ a' out, P a m a' out

namespace Silent

variable {Ready : σ → Prop} {Ready' : τ → Prop} {Kind Kind' : μ → Prop}

/-- What every run of two silent parties keeps: what they have processed is what each was first
sent, in order. -/
structure Inv (P : Party σ μ) (Q : Party τ μ) (Ready : σ → Prop) (Ready' : τ → Prop)
    (Kind Kind' : μ → Prop) (n n' : Net σ τ μ) : Prop where
  left : Ready n'.left
  right : Ready' n'.right
  toLeft : ∀ m ∈ n'.toLeft, Kind m
  toRight : ∀ m ∈ n'.toRight, Kind' m
  leftDone : ∀ a, Processed P n'.left n'.toLeft a → Processed P n.left n.toLeft a
  rightDone : ∀ b, Processed Q n'.right n'.toRight b → Processed Q n.right n.toRight b

theorem Inv.step {n n' n'' : Net σ τ μ} (hInv : Inv P Q Ready Ready' Kind Kind' n n')
    (hP : Silent P Ready Kind) (hQ : Silent Q Ready' Kind') (hStep : Step P Q True n' n'') :
    Inv P Q Ready Ready' Kind Kind' n n'' := by
  obtain ⟨hLeft, hRight, hToLeft, hToRight, hLeftDone, hRightDone⟩ := hInv
  cases hStep with
  | left hOrder hParty =>
    obtain rfl := hOrder trivial
    obtain ⟨hReady, rfl⟩ := hP.silent _ _ _ _ hLeft (hToLeft _ (by simp)) hParty
    exact ⟨hReady, hRight, fun m hm => hToLeft m (by simpa using .inr hm), by simpa using hToRight,
      fun a hRest => hLeftDone a (.cons hParty hRest), fun b hRest => hRightDone b (by simpa using hRest)⟩
  | right hOrder hParty =>
    obtain rfl := hOrder trivial
    obtain ⟨hReady, rfl⟩ := hQ.silent _ _ _ _ hRight (hToRight _ (by simp)) hParty
    exact ⟨hLeft, hReady, by simpa using hToLeft, fun m hm => hToRight m (by simpa using .inr hm),
      fun a hRest => hLeftDone a (by simpa using hRest), fun b hRest => hRightDone b (.cons hParty hRest)⟩

theorem Inv.less {n n' n'' : Net σ τ μ} (hInv : Inv P Q Ready Ready' Kind Kind' n n')
    (hP : Silent P Ready Kind) (hQ : Silent Q Ready' Kind') (hStep : Step P Q True n' n'') :
    n''.toLeft.length + n''.toRight.length < n'.toLeft.length + n'.toRight.length := by
  cases hStep with
  | left _ hParty =>
    obtain ⟨-, rfl⟩ := hP.silent _ _ _ _ hInv.left (hInv.toLeft _ (by simp)) hParty
    simp only [List.length_append, List.length_cons, List.length_nil]
    omega
  | right _ hParty =>
    obtain ⟨-, rfl⟩ := hQ.silent _ _ _ _ hInv.right (hInv.toRight _ (by simp)) hParty
    simp only [List.length_append, List.length_cons, List.length_nil]
    omega

theorem Inv.quiet {n n' : Net σ τ μ} (hInv : Inv P Q Ready Ready' Kind Kind' n n')
    (hP : Silent P Ready Kind) (hQ : Silent Q Ready' Kind') (hEnd : ∀ n'', ¬ Step P Q True n' n'') :
    n'.Quiet := by
  obtain ⟨a, b, toLeft, toRight⟩ := n'
  constructor
  · cases toLeft with
    | nil => rfl
    | cons m rest =>
      obtain ⟨a', out, hParty⟩ := hP.total a m hInv.left (hInv.toLeft m (by simp))
      exact absurd (.firstLeft hParty b rest toRight) (hEnd _)
  · cases toRight with
    | nil => rfl
    | cons m rest =>
      obtain ⟨b', out, hParty⟩ := hQ.total b m hInv.right (hInv.toRight m (by simp))
      exact absurd (.firstRight hParty a rest toLeft) (hEnd _)

/-- Whatever a silent party was sent, it can process. -/
theorem exists_processed (hP : Silent P Ready Kind) {a : σ} {messages : List μ} (hReady : Ready a)
    (hKind : ∀ m ∈ messages, Kind m) : ∃ a', Processed P a messages a' := by
  induction messages generalizing a with
  | nil => exact ⟨a, .nil a⟩
  | cons m rest ih =>
    obtain ⟨a', out, hParty⟩ := hP.total a m hReady (hKind m (by simp))
    obtain ⟨hNext, -⟩ := hP.silent _ _ _ _ hReady (hKind m (by simp)) hParty
    obtain ⟨a'', hRest⟩ := ih hNext fun m hm => hKind m (by simp [hm])
    exact ⟨a'', .cons hParty hRest⟩

/-- Processing what one party was sent, in order, is a run. -/
theorem run_left (hP : Silent P Ready Kind) {a a' : σ} {toLeft : List μ}
    (h : Processed P a toLeft a') (hReady : Ready a) (hKind : ∀ m ∈ toLeft, Kind m) (b : τ)
    (toRight : List μ) : Run P Q True ⟨a, b, toLeft, toRight⟩ ⟨a', b, [], toRight⟩ := by
  induction h with
  | nil => exact .refl
  | cons hParty _ ih =>
    obtain ⟨hNext, rfl⟩ := hP.silent _ _ _ _ hReady (hKind _ (by simp)) hParty
    rename_i a a' _ m rest _
    have hStep : Step P Q True ⟨a, b, m :: rest, toRight⟩ ⟨a', b, rest, toRight ++ []⟩ :=
      Step.firstLeft hParty b rest toRight
    rw [List.append_nil] at hStep
    exact .head hStep (ih hNext fun m hm => hKind m (by simp [hm]))

/-- Two silent parties on a link that keeps the order settle on what each makes of what it was
sent. -/
theorem settles_iff (hP : Silent P Ready Kind) (hQ : Silent Q Ready' Kind') {good : σ → τ → Prop}
    {n : Net σ τ μ} (hLeft : Ready n.left) (hRight : Ready' n.right)
    (hToLeft : ∀ m ∈ n.toLeft, Kind m) (hToRight : ∀ m ∈ n.toRight, Kind' m) :
    Settles P Q True good n ↔
      ∀ a b, Processed P n.left n.toLeft a → Processed Q n.right n.toRight b → good a b := by
  have hInit : Inv P Q Ready Ready' Kind Kind' n n :=
    ⟨hLeft, hRight, hToLeft, hToRight, fun _ h => h, fun _ h => h⟩
  have hStep : ∀ n' n'', Step P Q True n' n'' → Inv P Q Ready Ready' Kind Kind' n n' →
      Inv P Q Ready Ready' Kind Kind' n n'' := fun n' n'' hStep hInv => hInv.step hP hQ hStep
  constructor
  · intro hSettles a b hA hB
    obtain ⟨l, r, toLeft, toRight⟩ := n
    have hFirst : Run P Q True ⟨l, r, toLeft, toRight⟩ ⟨a, r, [], toRight⟩ :=
      hP.run_left hA hLeft hToLeft r toRight
    have hSecond : Run P Q True ⟨a, r, [], toRight⟩ ⟨a, b, [], []⟩ :=
      (hQ.run_left hB hRight hToRight a []).swap
    exact (hSettles.run (hFirst.trans hSecond)).good ⟨rfl, rfl⟩
  · intro hGood
    refine ⟨terminates_of_measure hStep (fun n => n.toLeft.length + n.toRight.length)
      (fun n' n'' hStep hInv => hInv.less hP hQ hStep) hInit, fun n' hRun hEnd => ?_⟩
    have hInv := hRun.invariant hStep hInit
    have hQuiet := hInv.quiet hP hQ hEnd
    refine ⟨hQuiet, hGood _ _ (hInv.leftDone _ ?_) (hInv.rightDone _ ?_)⟩
    · rw [hQuiet.1]
      exact .nil _
    · rw [hQuiet.2]
      exact .nil _

end Silent

/-! ### A first message that decides -/

/-- Every run from here can go on while something is under way, and where nothing is, the parties
are as they should be. -/
structure Resolves (P : Party σ μ) (Q : Party τ μ) (inOrder : Prop) (good : σ → τ → Prop)
    (n : Net σ τ μ) : Prop where
  goesOn : ∀ n', Run P Q inOrder n n' → n'.Quiet ∨ ∃ n'', Step P Q inOrder n' n''
  ends : ∀ n', Run P Q inOrder n n' → n'.Quiet → good n'.left n'.right

theorem Resolves.imp {good good' : σ → τ → Prop} {n : Net σ τ μ} (h : Resolves P Q inOrder good n)
    (hGood : ∀ a b, good a b → good' a b) : Resolves P Q inOrder good' n where
  goesOn := h.goesOn
  ends := fun n' hRun hQuiet => hGood _ _ (h.ends n' hRun hQuiet)

theorem Resolves.swap {good : σ → τ → Prop} {n : Net σ τ μ} (h : Resolves P Q inOrder good n) :
    Resolves Q P inOrder (fun b a => good a b) n.swap where
  goesOn := fun n' hRun =>
    (h.goesOn n'.swap hRun.swap).imp And.symm fun ⟨n'', hStep⟩ => ⟨n''.swap, hStep.swap⟩
  ends := fun n' hRun hQuiet => h.ends n'.swap hRun.swap hQuiet.symm

theorem Resolves.step {good : σ → τ → Prop} {n n' : Net σ τ μ} (h : Resolves P Q inOrder good n)
    (hStep : Step P Q inOrder n n') : Resolves P Q inOrder good n' where
  goesOn := fun n'' hRun => h.goesOn n'' (.head hStep hRun)
  ends := fun n'' hRun hQuiet => h.ends n'' (.head hStep hRun) hQuiet

/-- What a party makes of its first message is final, but for an order that its peer may send it
later.  When an order is `due`, the party sends one to its peer on reading the first message. -/
structure Decides (P : Party σ μ) (Before After Done : σ → Prop) (lead : μ)
    (Minor Order Order' : μ → Prop) (due : Prop) : Prop where
  first : ∀ a a' out, Before a → P a lead a' out →
    After a' ∧ (∀ o ∈ out, Minor o ∨ Order' o) ∧ (due → ∃ o ∈ out, Order' o)
  minor : ∀ a m a' out, After a → Minor m → P a m a' out →
    After a' ∧ (Done a → Done a') ∧ ∀ o ∈ out, Minor o ∨ Order' o
  order : ∀ a m a' out, After a → Order m → P a m a' out →
    After a' ∧ Done a' ∧ ∀ o ∈ out, Minor o ∨ Order' o
  first_total : ∀ a, Before a → ∃ a' out, P a lead a' out
  total : ∀ a m, After a → Minor m ∨ Order m → ∃ a' out, P a m a' out

namespace Decides

variable {Before After Done : σ → Prop} {Before' After' Done' : τ → Prop} {lead lead' : μ}
  {Minor Order Order' : μ → Prop} {due : Prop}

/-- A party that has not read its first message, or has, and whether its peer has ordered it. -/
inductive Stage (Before After Done : σ → Prop) (lead : μ) (Minor Order : μ → Prop) (ordered : Prop) :
    Bool → σ → List μ → Prop
  | waiting {a : σ} {rest : List μ} (hBefore : Before a) (hRest : ∀ m ∈ rest, Minor m ∨ Order m)
      (hOrdered : ordered → ∃ m ∈ rest, Order m) :
      Stage Before After Done lead Minor Order ordered false a (lead :: rest)
  | decided {a : σ} {messages : List μ} (hAfter : After a)
      (hMessages : ∀ m ∈ messages, Minor m ∨ Order m)
      (hOrdered : ordered → Done a ∨ ∃ m ∈ messages, Order m) :
      Stage Before After Done lead Minor Order ordered true a messages

/-- What a party is sent does not set it back. -/
theorem Stage.append {ordered ordered' : Prop} {decided : Bool} {a : σ} {messages out : List μ}
    (h : Stage Before After Done lead Minor Order ordered decided a messages)
    (hOut : ∀ o ∈ out, Minor o ∨ Order o) (hOrdered : ordered' → ordered ∨ ∃ o ∈ out, Order o) :
    Stage Before After Done lead Minor Order ordered' decided a (messages ++ out) := by
  cases h with
  | waiting hBefore hRest hSome =>
    refine .waiting hBefore (fun m hm => ?_) fun hNew => ?_
    · exact (List.mem_append.1 hm).elim (hRest m) (hOut m)
    · rcases hOrdered hNew with hOld | ⟨o, ho, hIs⟩
      · obtain ⟨m, hm, hIs⟩ := hSome hOld
        exact ⟨m, List.mem_append_left _ hm, hIs⟩
      · exact ⟨o, List.mem_append_right _ ho, hIs⟩
  | decided hAfter hMessages hSome =>
    refine .decided hAfter (fun m hm => ?_) fun hNew => ?_
    · exact (List.mem_append.1 hm).elim (hMessages m) (hOut m)
    · rcases hOrdered hNew with hOld | ⟨o, ho, hIs⟩
      · rcases hSome hOld with hDone | ⟨m, hm, hIs⟩
        · exact .inl hDone
        · exact .inr ⟨m, List.mem_append_left _ hm, hIs⟩
      · exact .inr ⟨o, List.mem_append_right _ ho, hIs⟩

/-- A party reads the message that is next. -/
theorem Stage.next (h : Decides P Before After Done lead Minor Order Order' due) {ordered : Prop}
    {decided : Bool} {a a' : σ} {m : μ} {rest out : List μ}
    (hStage : Stage Before After Done lead Minor Order ordered decided a (m :: rest))
    (hParty : P a m a' out) :
    Stage Before After Done lead Minor Order ordered true a' rest ∧
      (∀ o ∈ out, Minor o ∨ Order' o) ∧ (decided = false → due → ∃ o ∈ out, Order' o) := by
  cases hStage with
  | waiting hBefore hRest hSome =>
    obtain ⟨hAfter, hOut, hDue⟩ := h.first _ _ _ hBefore hParty
    exact ⟨.decided hAfter hRest fun hOrdered => .inr (hSome hOrdered), hOut, fun _ => hDue⟩
  | decided hAfter hMessages hSome =>
    have hRest : ∀ m ∈ rest, Minor m ∨ Order m := fun m hm => hMessages m (.tail _ hm)
    rcases hMessages m (.head _) with hMinor | hOrder
    · obtain ⟨hNext, hKeeps, hOut⟩ := h.minor _ _ _ _ hAfter hMinor hParty
      by_cases hIs : Order m
      · -- a message of both kinds counts as an order
        obtain ⟨-, hDone, -⟩ := h.order _ _ _ _ hAfter hIs hParty
        exact ⟨.decided hNext hRest fun _ => .inl hDone, hOut, by simp⟩
      · refine ⟨.decided hNext hRest fun hOrdered => ?_, hOut, by simp⟩
        rcases hSome hOrdered with hDone | ⟨o, ho, hOrder⟩
        · exact .inl (hKeeps hDone)
        · rcases List.mem_cons.1 ho with rfl | ho
          · exact absurd hOrder hIs
          · exact .inr ⟨o, ho, hOrder⟩
    · obtain ⟨hNext, hDone, hOut⟩ := h.order _ _ _ _ hAfter hOrder hParty
      exact ⟨.decided hNext hRest fun _ => .inl hDone, hOut, by simp⟩

/-- A party with something to read can read it. -/
theorem Stage.total (h : Decides P Before After Done lead Minor Order Order' due) {ordered : Prop}
    {decided : Bool} {a : σ} {m : μ} {rest : List μ}
    (hStage : Stage Before After Done lead Minor Order ordered decided a (m :: rest)) :
    ∃ a' out, P a m a' out := by
  cases hStage with
  | waiting hBefore => exact h.first_total a hBefore
  | decided hAfter hMessages => exact h.total a m hAfter (hMessages m (.head _))

/-- What every run keeps: how far each of the two is. -/
def Inv (Before After Done : σ → Prop) (Before' After' Done' : τ → Prop) (lead lead' : μ)
    (Minor Order Order' : μ → Prop) (due : Prop) (n : Net σ τ μ) : Prop :=
  ∃ l r : Bool,
    Stage Before After Done lead Minor Order (due ∧ r = true) l n.left n.toLeft ∧
      Stage Before' After' Done' lead' Minor Order' (due ∧ l = true) r n.right n.toRight

theorem Inv.step {n n' : Net σ τ μ}
    (hInv : Inv Before After Done Before' After' Done' lead lead' Minor Order Order' due n)
    (hP : Decides P Before After Done lead Minor Order Order' due)
    (hQ : Decides Q Before' After' Done' lead' Minor Order' Order due)
    (hStep : Step P Q True n n') :
    Inv Before After Done Before' After' Done' lead lead' Minor Order Order' due n' := by
  obtain ⟨l, r, hLeft, hRight⟩ := hInv
  cases hStep with
  | left hOrder hParty =>
    obtain rfl := hOrder trivial
    obtain ⟨hNext, hOut, hDue⟩ := hLeft.next hP hParty
    refine ⟨true, r, hNext, hRight.append hOut fun ⟨hIsDue, _⟩ => ?_⟩
    cases l with
    | true => exact .inl ⟨hIsDue, rfl⟩
    | false => exact .inr (hDue rfl hIsDue)
  | right hOrder hParty =>
    obtain rfl := hOrder trivial
    obtain ⟨hNext, hOut, hDue⟩ := hRight.next hQ hParty
    refine ⟨l, true, hLeft.append hOut fun ⟨hIsDue, _⟩ => ?_, hNext⟩
    cases r with
    | true => exact .inl ⟨hIsDue, rfl⟩
    | false => exact .inr (hDue rfl hIsDue)

theorem Inv.total {n : Net σ τ μ}
    (hInv : Inv Before After Done Before' After' Done' lead lead' Minor Order Order' due n)
    (hP : Decides P Before After Done lead Minor Order Order' due)
    (hQ : Decides Q Before' After' Done' lead' Minor Order' Order due) :
    n.Quiet ∨ ∃ n', Step P Q True n n' := by
  obtain ⟨a, b, toLeft, toRight⟩ := n
  obtain ⟨l, r, hLeft, hRight⟩ := hInv
  cases toLeft with
  | cons m rest =>
    obtain ⟨a', out, hParty⟩ := hLeft.total hP
    exact .inr ⟨_, .firstLeft hParty b rest toRight⟩
  | nil =>
    cases toRight with
    | cons m rest =>
      obtain ⟨b', out, hParty⟩ := hRight.total hQ
      exact .inr ⟨_, .firstRight hParty a rest []⟩
    | nil => exact .inl ⟨rfl, rfl⟩

/-- Where nothing is under way, a party has decided, and carried out the order it was sent. -/
theorem Stage.quiet {ordered : Prop} {decided : Bool} {a : σ}
    (h : Stage Before After Done lead Minor Order ordered decided a []) :
    decided = true ∧ After a ∧ (ordered → Done a) := by
  cases h with
  | decided hAfter _ hSome => exact ⟨rfl, hAfter, fun hOrdered => by simpa using hSome hOrdered⟩

/-- Two parties whose first messages decide. -/
theorem resolves (hP : Decides P Before After Done lead Minor Order Order' due)
    (hQ : Decides Q Before' After' Done' lead' Minor Order' Order due) {a : σ} {b : τ}
    {toLeft toRight : List μ} (hLeft : Before a) (hRight : Before' b)
    (hToLeft : ∀ m ∈ toLeft, Minor m) (hToRight : ∀ m ∈ toRight, Minor m) :
    Resolves P Q True (fun a b => After a ∧ After' b ∧ (due → Done a ∧ Done' b))
      ⟨a, b, lead :: toLeft, lead' :: toRight⟩ := by
  have hInit : Inv Before After Done Before' After' Done' lead lead' Minor Order Order' due
      ⟨a, b, lead :: toLeft, lead' :: toRight⟩ :=
    ⟨false, false, .waiting hLeft (fun m hm => .inl (hToLeft m hm)) (by simp),
      .waiting hRight (fun m hm => .inl (hToRight m hm)) (by simp)⟩
  have hKeeps {n' : Net σ τ μ} (hRun : Run P Q True ⟨a, b, lead :: toLeft, lead' :: toRight⟩ n') :=
    hRun.invariant (fun n n' hStep hInv => Inv.step hInv hP hQ hStep) hInit
  refine ⟨fun n' hRun => (hKeeps hRun).total hP hQ, fun n' hRun hQuiet => ?_⟩
  obtain ⟨l, r, hLeft, hRight⟩ := hKeeps hRun
  rw [hQuiet.1] at hLeft
  rw [hQuiet.2] at hRight
  obtain ⟨hDecided, hAfter, hDone⟩ := hLeft.quiet
  obtain ⟨hDecided', hAfter', hDone'⟩ := hRight.quiet
  exact ⟨hAfter, hAfter', fun hDue => ⟨hDone ⟨hDue, hDecided'⟩, hDone' ⟨hDue, hDecided⟩⟩⟩

end Decides

end Duplex
