import Mathlib.Algebra.Order.Ring.Nat
import Mathlib.Data.Fintype.Order
import Mathlib.Logic.Relation
import Mathlib.Tactic.Linarith

/-! Parties with ports, and wires between ports of different parties.  What a party sends to a port
with a wire goes to the party at the other end, and is read there at any time; what it sends to
another port leaves the network.  Where the wires make a tree, a message that every party passes on
to all its other neighbours comes to the root once, and one that is never passed on towards the root
comes there only from a neighbour. -/

namespace Network

variable {P Q μ : Type}

/-- What each party sends when it reads a message at a port, and where the wires go. -/
structure Net (P Q μ : Type) where
  react : P → Q → μ → List (Q × μ)
  wire : P → Q → Option (P × Q)

/-- A message with the party and the port that it is at. -/
structure Flight (P Q μ : Type) where
  party : P
  port : Q
  text : μ
deriving DecidableEq

/-- The messages on wires, those that were read, and those that left the network. -/
structure State (P Q μ : Type) where
  flying : List (Flight P Q μ)
  read : List (Flight P Q μ)
  left : List (Flight P Q μ)

/-- One message is on its way. -/
def State.start (f : Flight P Q μ) : State P Q μ := ⟨[f], [], []⟩

namespace Net

/-- A message that goes over a wire. -/
def crosses (n : Net P Q μ) (p : P) (o : Q × μ) : Option (Flight P Q μ) :=
  (n.wire p o.1).map fun e => ⟨e.1, e.2, o.2⟩

/-- A message that leaves the network. -/
def leaves (n : Net P Q μ) (p : P) (o : Q × μ) : Option (Flight P Q μ) :=
  match n.wire p o.1 with
  | some _ => none
  | none => some ⟨p, o.1, o.2⟩

/-- A party reads one of the messages, in any order. -/
inductive Step (n : Net P Q μ) : State P Q μ → State P Q μ → Prop
  | read {s : State P Q μ} (before after : List (Flight P Q μ)) (f : Flight P Q μ)
      (h : s.flying = before ++ f :: after) :
      Step n s
        { flying := before ++ after ++
            (n.react f.party f.port f.text).filterMap (n.crosses f.party)
          read := s.read ++ [f]
          left := s.left ++ (n.react f.party f.port f.text).filterMap (n.leaves f.party) }

/-- Any number of messages are read. -/
abbrev Run (n : Net P Q μ) : State P Q μ → State P Q μ → Prop := Relation.ReflTransGen n.Step

end Net

/-- The wires make a tree: every party but the root has a port towards it, and each wire is that one
for the party at its lower end. -/
structure Tree (wire : P → Q → Option (P × Q)) (root : P) (up : P → Q) (depth : P → Nat) : Prop where
  back : ∀ {p a q b}, wire p a = some (q, b) → wire q b = some (p, a)
  above : ∀ {p}, p ≠ root → ∃ q b, wire p (up p) = some (q, b) ∧ depth q < depth p
  below : ∀ {p a q b}, wire p a = some (q, b) → (p = root ∨ a ≠ up p) → q ≠ root ∧ b = up q

namespace Tree

variable {wire : P → Q → Option (P × Q)} {root : P} {up : P → Q} {depth : P → Nat}

theorem deeper (h : Tree wire root up depth) {p q : P} {a b : Q} (hWire : wire p a = some (q, b))
    (hDown : p = root ∨ a ≠ up p) : depth p < depth q := by
  obtain ⟨hNe, rfl⟩ := h.below hWire hDown
  obtain ⟨p', a', hUp, hLess⟩ := h.above hNe
  rw [h.back hWire, Option.some.injEq, Prod.mk.injEq] at hUp
  rwa [hUp.1]

/-- A message that goes towards the root comes in from below. -/
theorem rises (h : Tree wire root up depth) {p q : P} {b : Q} (hNe : p ≠ root)
    (hWire : wire p (up p) = some (q, b)) : q = root ∨ b ≠ up q := by
  by_contra hNot
  rw [not_or, not_not] at hNot
  obtain ⟨q', b', hUp, hLess⟩ := h.above hNe
  rw [hWire, Option.some.injEq, Prod.mk.injEq] at hUp
  obtain ⟨p', a', hUp', hLess'⟩ := h.above hNot.1
  rw [← hNot.2, h.back hWire, Option.some.injEq, Prod.mk.injEq] at hUp'
  rw [← hUp.1] at hLess
  rw [← hUp'.1] at hLess'
  omega

end Tree

/-! ### Messages of a kind -/

/-- A message of the kind, at a port with a wire. -/
def Known (n : Net P Q μ) (Kind : μ → Prop) (f : Flight P Q μ) : Prop :=
  Kind f.text ∧ ∃ e, n.wire f.party f.port = some e

/-- A message that comes in from below. -/
def Rising (root : P) (up : P → Q) (f : Flight P Q μ) : Prop := f.party = root ∨ f.port ≠ up f.party

/-- What is passed on is of the kind, a message from above goes only down, and the root passes
nothing on. -/
structure Spreads (n : Net P Q μ) (Kind : μ → Prop) (root : P) (up : P → Q) : Prop where
  kind : ∀ {f o}, Known n Kind f → f.party ≠ root → o ∈ n.react f.party f.port f.text → Kind o.2
  onward : ∀ {f o}, Known n Kind f → f.party ≠ root → f.port = up f.party →
    o ∈ n.react f.party f.port f.text → o.1 ≠ up f.party
  home : ∀ {f o}, Known n Kind f → f.party = root → o ∈ n.react f.party f.port f.text →
    n.wire root o.1 = none

section

variable {n : Net P Q μ} {Kind : μ → Prop} {root : P} {up : P → Q} {depth : P → Nat}
  {f g : Flight P Q μ}

theorem crosses_eq {p : P} {o : Q × μ} (h : n.crosses p o = some g) :
    n.wire p o.1 = some (g.party, g.port) ∧ g.text = o.2 := by
  obtain ⟨e, hWire, rfl⟩ := Option.map_eq_some_iff.1 h
  exact ⟨hWire, rfl⟩

/-- What a party passes on over a wire, and whether it goes towards the root. -/
theorem Spreads.next (h : Spreads n Kind root up) (hTree : Tree n.wire root up depth)
    (hKnown : Known n Kind f)
    (hNext : g ∈ (n.react f.party f.port f.text).filterMap (n.crosses f.party)) :
    Known n Kind g ∧ f.party ≠ root ∧
      ((Rising root up f ∧ Rising root up g ∧ depth g.party < depth f.party) ∨
        (¬ Rising root up g ∧ depth f.party < depth g.party)) := by
  obtain ⟨o, hOut, hCross⟩ := List.mem_filterMap.1 hNext
  obtain ⟨hWire, hText⟩ := crosses_eq hCross
  have hAway : f.party ≠ root := by
    intro hRoot
    have hNone := h.home hKnown hRoot hOut
    rw [← hRoot, hWire] at hNone
    cases hNone
  refine ⟨⟨hText ▸ h.kind hKnown hAway hOut, _, hTree.back hWire⟩, hAway, ?_⟩
  by_cases hUp : o.1 = up f.party
  · refine .inl ⟨.inr fun hPort => h.onward hKnown hAway hPort hOut hUp, ?_⟩
    rw [hUp] at hWire
    refine ⟨hTree.rises hAway hWire, ?_⟩
    obtain ⟨q, b, hAbove, hLess⟩ := hTree.above hAway
    rw [hWire, Option.some.injEq, Prod.mk.injEq] at hAbove
    rwa [hAbove.1]
  · obtain ⟨hNe, hPort⟩ := hTree.below hWire (.inr hUp)
    exact .inr ⟨not_or.2 ⟨hNe, not_not.2 hPort⟩, hTree.deeper hWire (.inr hUp)⟩

/-- All messages are of the kind. -/
def AllKnown (n : Net P Q μ) (Kind : μ → Prop) (s : State P Q μ) : Prop :=
  ∀ f ∈ s.flying, Known n Kind f

theorem AllKnown.step {s t : State P Q μ} (h : AllKnown n Kind s) (hSpreads : Spreads n Kind root up)
    (hTree : Tree n.wire root up depth) (hStep : n.Step s t) : AllKnown n Kind t := by
  cases hStep with
  | read before after f hFlying =>
    have hKnown : Known n Kind f := h f (by simp [hFlying])
    intro g hg
    rcases List.mem_append.1 hg with hg | hg
    · exact h g (by rw [hFlying]; simp only [List.mem_append, List.mem_cons] at hg ⊢; tauto)
    · exact (hSpreads.next hTree hKnown hg).1

end

/-! ### Every run ends -/

section

variable {n : Net P Q μ} {Kind : μ → Prop} {root : P} {up : P → Q} {depth : P → Nat}

open Classical in
/-- How much a message can still cause, in a tree of some height whose parties send a number of
messages at most. -/
noncomputable def weight (root : P) (up : P → Q) (depth : P → Nat) (width height : Nat)
    (f : Flight P Q μ) : Nat :=
  if Rising root up f then (width + 1) ^ (height + 1 + depth f.party)
  else (width + 1) ^ (height - depth f.party)

theorem weight_pos (width height : Nat) (f : Flight P Q μ) :
    0 < weight root up depth width height f := by
  rw [weight]
  split <;> exact Nat.pow_pos (Nat.succ_pos _)

/-- What a message causes is lighter than it. -/
theorem Spreads.weight_next (h : Spreads n Kind root up) (hTree : Tree n.wire root up depth)
    {width height : Nat} (hHeight : ∀ p, depth p ≤ height) {f g : Flight P Q μ}
    (hKnown : Known n Kind f)
    (hNext : g ∈ (n.react f.party f.port f.text).filterMap (n.crosses f.party)) :
    weight root up depth width height g * (width + 1) ≤ weight root up depth width height f := by
  have hg := hHeight g.party
  have hPow {a b : Nat} (hLess : a < b) : (width + 1) ^ a * (width + 1) ≤ (width + 1) ^ b := by
    rw [← Nat.pow_succ]
    exact Nat.pow_le_pow_right (Nat.succ_pos _) hLess
  obtain ⟨-, -, ⟨hf, hRising, hLess⟩ | ⟨hFalling, hLess⟩⟩ := h.next hTree hKnown hNext
  · rw [weight, weight, if_pos hf, if_pos hRising]
    exact hPow (by omega)
  · rw [weight, weight, if_neg hFalling]
    split
    · exact hPow (by omega)
    · exact hPow (by omega)

theorem sum_mul_le {l : List Nat} {b w : Nat} (h : ∀ x ∈ l, x * b ≤ w) :
    l.sum * b ≤ l.length * w := by
  induction l with
  | nil => simp
  | cons x l ih =>
    rw [List.forall_mem_cons] at h
    rw [List.sum_cons, List.length_cons, Nat.add_mul, Nat.succ_mul, Nat.add_comm (l.length * w)]
    exact Nat.add_le_add h.1 (ih h.2)

/-- The weight of all messages on wires. -/
noncomputable def load (root : P) (up : P → Q) (depth : P → Nat) (width height : Nat)
    (s : State P Q μ) : Nat :=
  (s.flying.map (weight root up depth width height)).sum

/-- Each step makes the messages on wires lighter. -/
theorem Spreads.load_step (h : Spreads n Kind root up) (hTree : Tree n.wire root up depth)
    {width height : Nat} (hHeight : ∀ p, depth p ≤ height)
    (hWidth : ∀ f, Known n Kind f → (n.react f.party f.port f.text).length ≤ width)
    {s t : State P Q μ} (hAll : AllKnown n Kind s) (hStep : n.Step s t) :
    load root up depth width height t < load root up depth width height s := by
  cases hStep with
  | read before after f hFlying =>
    have hKnown : Known n Kind f := hAll f (by simp [hFlying])
    generalize hOuts : (n.react f.party f.port f.text).filterMap (n.crosses f.party) = outs
    have hLength : outs.length ≤ width := by
      rw [← hOuts]
      exact (List.length_filterMap_le ..).trans (hWidth f hKnown)
    have hSum : (outs.map (weight root up depth width height)).sum * (width + 1) ≤
        outs.length * weight root up depth width height f := by
      have hLe := sum_mul_le (l := outs.map (weight root up depth width height))
        (b := width + 1) (w := weight root up depth width height f) fun x hx => by
          obtain ⟨g, hg, rfl⟩ := List.mem_map.1 hx
          exact h.weight_next hTree hHeight hKnown (hOuts ▸ hg)
      rwa [List.length_map] at hLe
    have hLess : (outs.map (weight root up depth width height)).sum <
        weight root up depth width height f := by
      have hPos : 0 < weight root up depth width height f := weight_pos width height f
      nlinarith
    simp only [load, hFlying, List.map_append, List.map_cons, List.sum_append, List.sum_cons]
    omega

/-- All messages are read in the end. -/
theorem Spreads.completes (h : Spreads n Kind root up) (hTree : Tree n.wire root up depth)
    {width height : Nat} (hHeight : ∀ p, depth p ≤ height)
    (hWidth : ∀ f, Known n Kind f → (n.react f.party f.port f.text).length ≤ width)
    {s : State P Q μ} (hAll : AllKnown n Kind s) : ∃ t, n.Run s t ∧ t.flying = [] := by
  induction hLoad : load root up depth width height s using Nat.strongRecOn generalizing s with
  | ind k ih =>
    cases hFlying : s.flying with
    | nil => exact ⟨s, .refl, hFlying⟩
    | cons f rest =>
      have hStep := Net.Step.read (n := n) [] rest f hFlying
      have hLess := h.load_step hTree hHeight hWidth hAll hStep
      obtain ⟨t, hRun, hDone⟩ := ih _ (hLoad ▸ hLess) (hAll.step h hTree hStep) rfl
      exact ⟨t, .head hStep hRun, hDone⟩

/-- A network of finitely many parties reads all messages in the end. -/
theorem Spreads.ends [Finite P] (h : Spreads n Kind root up) (hTree : Tree n.wire root up depth)
    (width : P → Nat)
    (hWidth : ∀ f, Known n Kind f → (n.react f.party f.port f.text).length ≤ width f.party)
    {f : Flight P Q μ} (hKnown : Known n Kind f) : ∃ t, n.Run (.start f) t ∧ t.flying = [] := by
  obtain ⟨height, hHeight⟩ := Finite.exists_le depth
  obtain ⟨most, hMost⟩ := Finite.exists_le width
  exact h.completes hTree hHeight (fun g hg => (hWidth g hg).trans (hMost g.party))
    fun g hg => List.mem_singleton.1 hg ▸ hKnown

theorem AllKnown.run {s t : State P Q μ} (h : AllKnown n Kind s) (hSpreads : Spreads n Kind root up)
    (hTree : Tree n.wire root up depth) (hRun : n.Run s t) : AllKnown n Kind t := by
  induction hRun with
  | refl => exact h
  | tail _ hStep ih => exact ih.step hSpreads hTree hStep

/-- Nothing more happens when all messages are read. -/
theorem run_done {s t : State P Q μ} (hDone : s.flying = []) (hRun : n.Run s t) : t = s := by
  cases Relation.ReflTransGen.cases_head hRun with
  | inl hSame => exact hSame.symm
  | inr hStep =>
    obtain ⟨_, hStep, -⟩ := hStep
    cases hStep with
    | read before after f h =>
      rw [hDone] at h
      exact absurd h (by simp)

/-! ### A message that comes to the root once -/

/-- Whatever comes in from below is passed on towards the root once, and the root sends out one
message. -/
structure Carries [DecidableEq Q] (n : Net P Q μ) (Kind : μ → Prop) (root : P) (up : P → Q)
    (out : Q × μ) : Prop extends Spreads n Kind root up where
  wired : ∀ {f o}, Known n Kind f → f.party ≠ root → o ∈ n.react f.party f.port f.text →
    ∃ e, n.wire f.party o.1 = some e
  carried : ∀ {f}, Known n Kind f → f.party ≠ root → f.port ≠ up f.party →
    (n.react f.party f.port f.text).countP (fun o => o.1 = up f.party) = 1
  delivered : ∀ {f}, Known n Kind f → f.party = root → n.react f.party f.port f.text = [out]

open Classical in
/-- One message is on its way up, or was sent out by the root. -/
structure OnceUp (root : P) (up : P → Q) (out : Q × μ) (s : State P Q μ) : Prop where
  once : s.flying.countP (fun f => Rising root up f) + s.left.length = 1
  out : ∀ f ∈ s.left, f = ⟨root, out.1, out.2⟩

theorem OnceUp.left_eq {out : Q × μ} {s : State P Q μ} (h : OnceUp root up out s) (hDone : s.flying = []) :
    s.left = [⟨root, out.1, out.2⟩] := by
  have hOnce := h.once
  rw [hDone, List.countP_nil, Nat.zero_add] at hOnce
  obtain ⟨g, hLeft⟩ := List.length_eq_one_iff.1 hOnce
  rw [hLeft, h.out g (by simp [hLeft])]

section

variable [DecidableEq Q] {out : Q × μ}

open Classical in
/-- How many of the messages that are caused go up. -/
theorem Carries.rising_next (h : Carries n Kind root up out) (hTree : Tree n.wire root up depth)
    {f : Flight P Q μ} (hKnown : Known n Kind f) :
    ((n.react f.party f.port f.text).filterMap (n.crosses f.party)).countP
        (fun g => Rising root up g) =
      if f.party ≠ root ∧ f.port ≠ up f.party then 1 else 0 := by
  by_cases hRoot : f.party = root
  · rw [if_neg (by simp [hRoot]), List.countP_eq_zero]
    intro g hg
    exact absurd hRoot (h.next hTree hKnown hg).2.1
  · by_cases hPort : f.port = up f.party
    · rw [if_neg (by simp [hPort]), List.countP_eq_zero]
      intro g hg
      obtain ⟨-, -, ⟨hRising, -, -⟩ | ⟨hFalling, -⟩⟩ := h.next hTree hKnown hg
      · exact absurd (hRising.resolve_left hRoot) (not_not.2 hPort)
      · simpa using hFalling
    · rw [if_pos ⟨hRoot, hPort⟩, List.countP_filterMap, ← h.carried hKnown hRoot hPort]
      refine List.countP_congr fun o ho => ?_
      obtain ⟨⟨q, b⟩, hWire⟩ := h.wired hKnown hRoot ho
      simp only [Net.crosses, hWire, Option.map_some, Option.getD_some, decide_eq_true_eq]
      constructor
      · intro hRising
        by_contra hNe
        obtain ⟨hq, hb⟩ := hTree.below hWire (.inr hNe)
        exact hRising.elim hq fun hNot => hNot hb
      · intro hUp
        rw [hUp] at hWire
        exact hTree.rises hRoot hWire

open Classical in
/-- Only the root sends a message out of the network. -/
theorem Carries.leaves_next (h : Carries n Kind root up out) {f : Flight P Q μ}
    (hKnown : Known n Kind f) : (n.react f.party f.port f.text).filterMap (n.leaves f.party) =
      if f.party = root then [⟨root, out.1, out.2⟩] else [] := by
  split
  · rename_i hRoot
    have hNone := h.home (o := out) hKnown hRoot (by simp [h.delivered hKnown hRoot])
    rw [h.delivered hKnown hRoot, hRoot]
    simp [Net.leaves, hNone]
  · rename_i hRoot
    rw [List.filterMap_eq_nil_iff]
    intro o ho
    obtain ⟨e, hWire⟩ := h.wired hKnown hRoot ho
    simp [Net.leaves, hWire]

theorem OnceUp.step (hOnce : OnceUp root up out s) (h : Carries n Kind root up out)
    (hTree : Tree n.wire root up depth) (hAll : AllKnown n Kind s) {t : State P Q μ}
    (hStep : n.Step s t) : OnceUp root up out t := by
  cases hStep with
  | read before after f hFlying =>
    have hKnown : Known n Kind f := hAll f (by simp [hFlying])
    have hUp := h.rising_next hTree hKnown
    have hBefore := hOnce.once
    rw [hFlying, List.countP_append, List.countP_cons] at hBefore
    refine ⟨?_, ?_⟩
    · rw [List.countP_append, List.countP_append, hUp, h.leaves_next hKnown, List.length_append]
      by_cases hRoot : f.party = root
      · have hRising : Rising root up f := .inl hRoot
        simp only [hRising, hRoot, decide_true, if_true, ne_eq, not_true_eq_false, false_and, if_false,
          List.length_singleton] at hBefore ⊢
        omega
      · by_cases hPort : f.port = up f.party
        · have hFalling : ¬ Rising root up f := not_or.2 ⟨hRoot, not_not.2 hPort⟩
          simp only [hFalling, hRoot, hPort, decide_false, Bool.false_eq_true, if_false, ne_eq,
            not_true_eq_false, and_false, List.length_nil] at hBefore ⊢
          omega
        · have hRising : Rising root up f := .inr hPort
          simp only [hRising, hRoot, hPort, decide_true, if_true, ne_eq, not_false_eq_true, and_self,
            if_false, List.length_nil] at hBefore ⊢
          omega
    · intro g hg
      rcases List.mem_append.1 hg with hg | hg
      · exact hOnce.out g hg
      · rw [h.leaves_next hKnown] at hg
        split at hg
        · exact List.mem_singleton.1 hg
        · cases hg

/-- When all messages are read, the root has sent out one message, and nobody else has. -/
theorem Carries.once (h : Carries n Kind root up out) (hTree : Tree n.wire root up depth)
    {f : Flight P Q μ} (hKnown : Known n Kind f) (hRising : Rising root up f) {t : State P Q μ}
    (hRun : n.Run (.start f) t) : OnceUp root up out t := by
  have hStart : AllKnown n Kind (.start f) := fun g hg => List.mem_singleton.1 hg ▸ hKnown
  induction hRun with
  | refl => exact ⟨by simp [State.start, hRising], by simp [State.start]⟩
  | tail hBefore hStep ih =>
    exact ih.step h hTree (hStart.run h.toSpreads hTree hBefore) hStep

end

/-! ### A message that is never passed on towards the root -/

/-- No party but the root reads a message and passes it on towards the root. -/
structure Shuns (n : Net P Q μ) (Kind : μ → Prop) (root : P) (up : P → Q) : Prop
    extends Spreads n Kind root up where
  never : ∀ {f o}, Known n Kind f → f.party ≠ root → o ∈ n.react f.party f.port f.text →
    o.1 ≠ up f.party
  wired : ∀ {f o}, Known n Kind f → f.party ≠ root → o ∈ n.react f.party f.port f.text →
    ∃ e, n.wire f.party o.1 = some e

/-- Nothing goes to the root or was read there, and nothing left the network. -/
structure Elsewhere (root : P) (s : State P Q μ) : Prop where
  flying : ∀ f ∈ s.flying, f.party ≠ root
  read : ∀ f ∈ s.read, f.party ≠ root
  left : s.left = []

theorem Elsewhere.step {s t : State P Q μ} (hAway : Elsewhere root s) (h : Shuns n Kind root up)
    (hTree : Tree n.wire root up depth) (hAll : AllKnown n Kind s) (hStep : n.Step s t) :
    Elsewhere root t := by
  cases hStep with
  | read before after f hFlying =>
    have hIn : f ∈ s.flying := by simp [hFlying]
    refine ⟨fun g hg => ?_, fun g hg => ?_, ?_⟩
    · rcases List.mem_append.1 hg with hg | hg
      · exact hAway.flying g (by
          rw [hFlying]; simp only [List.mem_append, List.mem_cons] at hg ⊢; tauto)
      · obtain ⟨o, hOut, hCross⟩ := List.mem_filterMap.1 hg
        exact (hTree.below (crosses_eq hCross).1
          (.inr (h.never (hAll f hIn) (hAway.flying f hIn) hOut))).1
    · rcases List.mem_append.1 hg with hg | hg
      · exact hAway.read g hg
      · rw [List.mem_singleton.1 hg]
        exact hAway.flying f hIn
    · rw [hAway.left, List.nil_append, List.filterMap_eq_nil_iff]
      intro o ho
      obtain ⟨e, hWire⟩ := h.wired (hAll f hIn) (hAway.flying f hIn) ho
      simp [Net.leaves, hWire]

/-- A message that starts elsewhere never comes to the root. -/
theorem Shuns.elsewhere (h : Shuns n Kind root up) (hTree : Tree n.wire root up depth)
    {f : Flight P Q μ} (hKnown : Known n Kind f) (hNe : f.party ≠ root) {t : State P Q μ}
    (hRun : n.Run (.start f) t) : Elsewhere root t := by
  have hStart : AllKnown n Kind (.start f) := fun g hg => List.mem_singleton.1 hg ▸ hKnown
  induction hRun with
  | refl => exact ⟨fun g hg => List.mem_singleton.1 hg ▸ hNe, by simp [State.start], rfl⟩
  | tail hBefore hStep ih =>
    exact ih.step h hTree (hStart.run h.toSpreads hTree hBefore) hStep

end

/-! ### What leaves a network in the end -/

/-- The messages that a party sent. -/
def Net.sends (n : Net P Q μ) (p : P) (out : List (Q × μ)) : State P Q μ :=
  ⟨out.filterMap (n.crosses p), [], out.filterMap (n.leaves p)⟩

/-- The same messages on wires, where others were read and others left before. -/
def State.since (s : State P Q μ) (read left : List (Flight P Q μ)) : State P Q μ :=
  ⟨s.flying, read ++ s.read, left ++ s.left⟩

/-- In whatever order the parties read, all messages are read in the end, and these have left then. -/
structure Delivers (n : Net P Q μ) (s : State P Q μ) (out : List (Flight P Q μ)) : Prop where
  ends : ∀ t, n.Run s t → ∃ u, n.Run t u ∧ u.flying = []
  whole : ∀ t, n.Run s t → t.flying = [] → t.left = out

section

variable {n : Net P Q μ} {s t : State P Q μ} {out : List (Flight P Q μ)}

theorem run_left (h : n.Run s t) : s.left <+: t.left := by
  induction h with
  | refl => exact List.prefix_refl _
  | tail _ hStep ih =>
    cases hStep with
    | read before after f hFlying => exact ih.trans (List.prefix_append ..)

/-- Before that, only the first of them have left. -/
theorem Delivers.part (h : Delivers n s out) (hRun : n.Run s t) : t.left <+: out := by
  obtain ⟨u, hRest, hDone⟩ := h.ends t hRun
  rw [← h.whole u (hRun.trans hRest) hDone]
  exact run_left hRest

theorem delivers_of_done (hDone : s.flying = []) : Delivers n s s.left where
  ends t hRun := ⟨t, .refl, by rw [run_done hDone hRun, hDone]⟩
  whole t hRun _ := by rw [run_done hDone hRun]

theorem sends_wired {p q : P} {a b : Q} {m : μ} (h : n.wire p a = some (q, b)) :
    n.sends p [(a, m)] = .start ⟨q, b, m⟩ := by
  simp [Net.sends, Net.crosses, Net.leaves, h, State.start]

/-- A message for a port without a wire leaves at once. -/
theorem delivers_unwired {p : P} {a : Q} {m : μ} (h : n.wire p a = none) :
    Delivers n (n.sends p [(a, m)]) [⟨p, a, m⟩] := by
  have hSends : n.sends p [(a, m)] = ⟨[], [], [⟨p, a, m⟩]⟩ := by
    simp [Net.sends, Net.crosses, Net.leaves, h]
  rw [hSends]
  exact delivers_of_done rfl

theorem Net.Step.since (h : n.Step s t) (read left : List (Flight P Q μ)) :
    n.Step (s.since read left) (t.since read left) := by
  cases h with
  | read before after f hFlying =>
    have hStep := Net.Step.read (n := n) (s := s.since read left) before after f hFlying
    simpa [State.since, List.append_assoc] using hStep

/-- What happened before makes no difference to what happens. -/
theorem run_since (read left : List (Flight P Q μ)) (h : n.Run (s.since read left) t) :
    ∃ u, n.Run s u ∧ t = u.since read left := by
  induction h with
  | refl => exact ⟨s, .refl, rfl⟩
  | tail _ hStep ih =>
    obtain ⟨u, hRun, rfl⟩ := ih
    cases hStep with
    | read before after f hFlying =>
      refine ⟨_, hRun.tail (.read before after f hFlying), ?_⟩
      simp [State.since, List.append_assoc]

theorem Net.Run.since (h : n.Run s t) (read left : List (Flight P Q μ)) :
    n.Run (s.since read left) (t.since read left) := by
  induction h with
  | refl => exact .refl
  | tail _ hStep ih => exact ih.tail (hStep.since read left)

theorem Delivers.since (h : Delivers n s out) (read left : List (Flight P Q μ)) :
    Delivers n (s.since read left) (left ++ out) where
  ends t hRun := by
    obtain ⟨u, hOwn, rfl⟩ := run_since read left hRun
    obtain ⟨v, hRest, hDone⟩ := h.ends u hOwn
    exact ⟨v.since read left, Net.Run.since hRest read left, hDone⟩
  whole t hRun hDone := by
    obtain ⟨u, hOwn, rfl⟩ := run_since read left hRun
    exact congrArg (left ++ ·) (h.whole u hOwn hDone)

/-- The only message on a wire is read next. -/
theorem Delivers.read {f : Flight P Q μ}
    (h : Delivers n (n.sends f.party (n.react f.party f.port f.text)) out) :
    Delivers n (.start f) out := by
  have hNext : n.Step (.start f) ((n.sends f.party (n.react f.party f.port f.text)).since [f] []) := by
    have hStep := Net.Step.read (n := n) (s := .start f) [] [] f rfl
    simpa [State.start, State.since, Net.sends] using hStep
  have hAfter := h.since [f] []
  have hFirst {t : State P Q μ} (hRun : n.Run (.start f) t) : t = .start f ∨
      n.Run ((n.sends f.party (n.react f.party f.port f.text)).since [f] []) t := by
    cases Relation.ReflTransGen.cases_head hRun with
    | inl hSame => exact .inl hSame.symm
    | inr hSome =>
      obtain ⟨u, hStep, hRest⟩ := hSome
      refine .inr ?_
      cases hStep with
      | read before after g hFlying =>
        obtain ⟨rfl, rfl, rfl⟩ : before = [] ∧ g = f ∧ after = [] := by
          cases before with
          | nil => simpa [State.start, eq_comm] using hFlying
          | cons x before => simp [State.start] at hFlying
        simpa [State.start, State.since, Net.sends] using hRest
  refine ⟨fun t hRun => ?_, fun t hRun hDone => ?_⟩
  · obtain rfl | hLater := hFirst hRun
    · obtain ⟨u, hRest, hDone⟩ := hAfter.ends _ .refl
      exact ⟨u, .head hNext hRest, hDone⟩
    · exact hAfter.ends t hLater
  · obtain rfl | hLater := hFirst hRun
    · exact absurd hDone (by simp [State.start])
    · simpa using hAfter.whole t hLater hDone

/-- A message that each party on its way hands on to the next one, which is nearer to the end of it. -/
theorem Delivers.handed_on {Way : Flight P Q μ → Prop} (rank : Flight P Q μ → Nat)
    (hWay : ∀ f, Way f →
      (∃ g, n.sends f.party (n.react f.party f.port f.text) = .start g ∧ Way g ∧ rank g < rank f) ∨
        Delivers n (n.sends f.party (n.react f.party f.port f.text)) out)
    {f : Flight P Q μ} (h : Way f) : Delivers n (.start f) out := by
  induction hRank : rank f using Nat.strongRecOn generalizing f with
  | ind k ih =>
    obtain ⟨g, hSends, hg, hLess⟩ | hLast := hWay f h
    · exact Delivers.read (hSends ▸ ih (rank g) (hRank ▸ hLess) hg rfl)
    · exact hLast.read

/-- A message that comes to the root once. -/
theorem Carries.delivers [Finite P] [DecidableEq Q] {Kind : μ → Prop} {root : P} {up : P → Q}
    {depth : P → Nat} {o : Q × μ} (h : Carries n Kind root up o) (hTree : Tree n.wire root up depth)
    (width : P → Nat)
    (hWidth : ∀ f, Known n Kind f → (n.react f.party f.port f.text).length ≤ width f.party)
    {f : Flight P Q μ} (hKnown : Known n Kind f) (hRising : Rising root up f) :
    Delivers n (.start f) [⟨root, o.1, o.2⟩] where
  ends t hRun := by
    have hStart : AllKnown n Kind (.start f) := fun g hg => List.mem_singleton.1 hg ▸ hKnown
    obtain ⟨height, hHeight⟩ := Finite.exists_le depth
    obtain ⟨most, hMost⟩ := Finite.exists_le width
    exact h.toSpreads.completes hTree hHeight (fun g hg => (hWidth g hg).trans (hMost g.party))
      (hStart.run h.toSpreads hTree hRun)
  whole t hRun hDone := (h.once hTree hKnown hRising hRun).left_eq hDone

/-- The rule depends only on how the parties react to messages of the kind. -/
theorem Carries.congr [DecidableEq Q] {m : Net P Q μ} {Kind : μ → Prop} {root : P} {up : P → Q}
    {o : Q × μ} (h : Carries n Kind root up o) (hWire : m.wire = n.wire)
    (hReact : ∀ p port text, Kind text → m.react p port text = n.react p port text) :
    Carries m Kind root up o := by
  have hSame {f : Flight P Q μ} (hKnown : Known m Kind f) :
      Known n Kind f ∧ m.react f.party f.port f.text = n.react f.party f.port f.text :=
    ⟨⟨hKnown.1, hWire ▸ hKnown.2⟩, hReact _ _ _ hKnown.1⟩
  refine ⟨⟨fun hKnown hNe hOut => ?_, fun hKnown hNe hPort hOut => ?_, fun hKnown hRoot hOut => ?_⟩,
    fun hKnown hNe hOut => ?_, fun hKnown hNe hPort => ?_, fun hKnown hRoot => ?_⟩
  · obtain ⟨hOld, hEq⟩ := hSame hKnown
    exact h.kind hOld hNe (hEq ▸ hOut)
  · obtain ⟨hOld, hEq⟩ := hSame hKnown
    exact h.onward hOld hNe hPort (hEq ▸ hOut)
  · obtain ⟨hOld, hEq⟩ := hSame hKnown
    rw [hWire]
    exact h.home hOld hRoot (hEq ▸ hOut)
  · obtain ⟨hOld, hEq⟩ := hSame hKnown
    rw [hWire]
    exact h.wired hOld hNe (hEq ▸ hOut)
  · obtain ⟨hOld, hEq⟩ := hSame hKnown
    rw [hEq]
    exact h.carried hOld hNe hPort
  · obtain ⟨hOld, hEq⟩ := hSame hKnown
    rw [hEq]
    exact h.delivered hOld hRoot

end

end Network
