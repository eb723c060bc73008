import OpenNap.Lib.Network
import Mathlib.Algebra.BigOperators.Group.Finset.Basic
import Mathlib.Algebra.Order.BigOperators.Group.Finset

/-! Parties with a state of their own on a tree of links, each of which delivers in the order of
sending.  Inputs come in from outside; a party that acts on a command of its own tells its neighbours,
and each of them acts on it and tells all its other neighbours.  Then every party acts on the commands
of each origin in the order in which that origin acted on them, each of them once, and on all of them
when nothing is under way any more. -/

namespace Broadcast

open Network

variable {P Q ι σ μ γ : Type}

/-- What a party does with an input, and with a message at a port: its next state and what it sends;
and where the wires go. -/
structure Net (P Q ι σ μ : Type) where
  act : P → σ → ι → σ × List (Q × μ)
  react : P → σ → Q → μ → σ × List (Q × μ)
  wire : P → Q → Option (P × Q)

/-- A party: its state, the inputs it has had, and what it sent to ports without a wire. -/
structure Party (Q ι σ μ : Type) where
  store : σ
  asked : List ι := []
  left : List (Q × μ) := []

/-- The parties, and what waits at their ports. -/
structure State (P Q ι σ μ : Type) where
  party : P → Party Q ι σ μ
  inbox : P → Q → List μ

/-- Nothing is under way. -/
def State.Quiet (s : State P Q ι σ μ) : Prop := ∀ p a, s.inbox p a = []

/-- Parties at their start. -/
def State.start (store : P → σ) : State P Q ι σ μ := ⟨fun p => { store := store p }, fun _ _ => []⟩

section

variable [DecidableEq Q]

/-- What is sent to a port. -/
def onPort (a : Q) (outs : List (Q × μ)) : List μ := (outs.filter fun o => o.1 = a).map (·.2)

namespace Net

/-- What is sent to ports without a wire. -/
def unwired (n : Net P Q ι σ μ) (p : P) (outs : List (Q × μ)) : List (Q × μ) :=
  outs.filter fun o => (n.wire p o.1).isNone

/-- A party that has gone to another state, after some inputs, and sends something. -/
def after (n : Net P Q ι σ μ) (p : P) (x : Party Q ι σ μ) (asked : List ι)
    (r : σ × List (Q × μ)) : Party Q ι σ μ where
  store := r.1
  asked := x.asked ++ asked
  left := x.left ++ n.unwired p r.2

variable [DecidableEq P]

/-- What comes to a port when a party sends something. -/
def comes (n : Net P Q ι σ μ) (p : P) (outs : List (Q × μ)) (q : P) (b : Q) : List μ :=
  match n.wire q b with
  | some (p', a) => if p' = p then onPort a outs else []
  | none => []

/-- One party goes to another state and sends something. -/
def goes (n : Net P Q ι σ μ) (s : State P Q ι σ μ) (p : P) (asked : List ι)
    (r : σ × List (Q × μ)) : State P Q ι σ μ where
  party := Function.update s.party p (n.after p (s.party p) asked r)
  inbox q b := s.inbox q b ++ n.comes p r.2 q b

/-- A message is taken from a port. -/
def take (s : State P Q ι σ μ) (p : P) (a : Q) (rest : List μ) : State P Q ι σ μ :=
  { s with inbox := Function.update s.inbox p (Function.update (s.inbox p) a rest) }

/-- A party has an input, or reads the oldest message at a port. -/
inductive Step (n : Net P Q ι σ μ) (Asks : P → ι → Prop) :
    State P Q ι σ μ → State P Q ι σ μ → Prop
  | ask {s : State P Q ι σ μ} (p : P) (i : ι) (hAsks : Asks p i) :
      Step n Asks s (n.goes s p [i] (n.act p (s.party p).store i))
  | read {s : State P Q ι σ μ} (p : P) (a : Q) (m : μ) (rest : List μ)
      (hInbox : s.inbox p a = m :: rest) :
      Step n Asks s (n.goes (take s p a rest) p [] (n.react p (s.party p).store a m))

/-- Any number of inputs and of messages that are read, in any order. -/
abbrev Run (n : Net P Q ι σ μ) (Asks : P → ι → Prop) : State P Q ι σ μ → State P Q ι σ μ → Prop :=
  Relation.ReflTransGen (n.Step Asks)

end Net

end

/-! ### Commands -/

section

variable [DecidableEq P]

/-- The commands of an origin. -/
def ofOrigin (origin : γ → P) (o : P) (log : List γ) : List γ := log.filter fun c => origin c = o

/-- What the parties have acted on: of each origin, the first commands in its order, and all of them
when nothing is under way. -/
structure Agreed (origin : γ → P) (Inv : P → List γ → Party Q ι σ μ → Prop) (s : State P Q ι σ μ)
    (log : P → List γ) : Prop where
  inv : ∀ p, Inv p (log p) (s.party p)
  part : ∀ p o, ofOrigin origin o (log p) <+: ofOrigin origin o (log o)
  whole : s.Quiet → ∀ p o, ofOrigin origin o (log p) = ofOrigin origin o (log o)

/-- The commands that wait at the ports, besides those that were acted on. -/
structure Holds (n : Net P Q ι σ μ) (up : P → P → Q) (origin : γ → P) (text : γ → μ)
    (Valid : List γ → γ → Prop) (Inv : P → List γ → Party Q ι σ μ → Prop) (s : State P Q ι σ μ)
    (log : P → List γ) (pend : P → Q → List γ) : Prop where
  inbox : ∀ p a, s.inbox p a = (pend p a).map text
  toward : ∀ {p a c}, c ∈ pend p a → p ≠ origin c ∧ a = up (origin c) p
  follows : ∀ {p o q b}, p ≠ o → n.wire p (up o p) = some (q, b) →
    ofOrigin origin o (log q) = ofOrigin origin o (log p) ++ ofOrigin origin o (pend p (up o p))
  valid : ∀ {o before c rest}, ofOrigin origin o (log o) = before ++ c :: rest → Valid before c
  inv : ∀ p, Inv p (log p) (s.party p)

section

variable {n : Net P Q ι σ μ} {up : P → P → Q} {depth : P → P → Nat}
  {origin : γ → P} {text : γ → μ} {Valid : List γ → γ → Prop}
  {Inv : P → List γ → Party Q ι σ μ → Prop} {s t : State P Q ι σ μ} {log : P → List γ}
  {pend : P → Q → List γ}

theorem ofOrigin_append (o : P) (l l' : List γ) :
    ofOrigin origin o (l ++ l') = ofOrigin origin o l ++ ofOrigin origin o l' :=
  List.filter_append ..

theorem ofOrigin_self {o : P} {l : List γ} (h : ∀ c ∈ l, origin c = o) : ofOrigin origin o l = l :=
  List.filter_eq_self.2 fun c hc => by simp [h c hc]

theorem ofOrigin_other {o p : P} {l : List γ} (h : ∀ c ∈ l, origin c = p) (hNe : p ≠ o) :
    ofOrigin origin o l = [] :=
  List.filter_eq_nil_iff.2 fun c hc => by simp [h c hc, hNe]

theorem ofOrigin_one {o : P} {c : γ} (h : origin c = o) : ofOrigin origin o [c] = [c] :=
  ofOrigin_self fun d hd => by rw [List.mem_singleton.1 hd, h]

theorem ofOrigin_none {o : P} {c : γ} (h : origin c ≠ o) : ofOrigin origin o [c] = [] :=
  ofOrigin_other (p := origin c) (fun d hd => by rw [List.mem_singleton.1 hd]) h

/-- How many commands of others the parties have not acted on yet. -/
def lag [Fintype P] (origin : γ → P) (log : P → List γ) : Nat :=
  ∑ e : P × P, ((ofOrigin origin e.2 (log e.2)).length - (ofOrigin origin e.2 (log e.1)).length)

namespace Holds

/-- Before anything happens, nothing was acted on. -/
theorem start {store : P → σ} (h : ∀ p, Inv p [] { store := store p }) :
    Holds n up origin text Valid Inv (.start store) (fun _ => []) fun _ _ => [] where
  inbox _ _ := rfl
  toward h := absurd h (List.not_mem_nil)
  follows _ _ := rfl
  valid h := absurd h (by simp [ofOrigin])
  inv := h

variable (hTree : ∀ o, Tree n.wire o (up o) (depth o))

include hTree

/-- What a party has acted on, and what waits on its way to it, are the first commands of their
origin. -/
theorem part (h : Holds n up origin text Valid Inv s log pend) (p o : P) :
    ofOrigin origin o (log p) <+: ofOrigin origin o (log o) := by
  induction hDepth : depth o p using Nat.strongRecOn generalizing p with
  | ind k ih =>
    by_cases hHome : p = o
    · rw [hHome]
    · obtain ⟨q, b, hWire, hLess⟩ := (hTree o).above hHome
      have hNext := ih _ (hDepth ▸ hLess) q rfl
      rw [h.follows hHome hWire] at hNext
      exact (List.prefix_append _ _).trans hNext

/-- A command that waits is the next one of its origin, after those that were acted on. -/
theorem next (h : Holds n up origin text Valid Inv s log pend) {p : P} {a : Q} {c : γ} {rest : List γ}
    (hPend : pend p a = c :: rest) : Valid (ofOrigin origin (origin c) (log p)) c := by
  obtain ⟨hAway, rfl⟩ := h.toward (show c ∈ pend p a by simp [hPend])
  obtain ⟨q, b, hWire, -⟩ := (hTree (origin c)).above hAway
  obtain ⟨more, hMore⟩ := h.part hTree q (origin c)
  have hOrder := h.follows hAway hWire
  rw [hPend, show ofOrigin origin (origin c) (c :: rest) = c :: ofOrigin origin (origin c) rest by
    simp [ofOrigin]] at hOrder
  rw [hOrder, List.append_assoc, List.cons_append] at hMore
  exact h.valid hMore.symm

/-- When nothing is under way, all commands were acted on. -/
theorem whole (h : Holds n up origin text Valid Inv s log pend) (hQuiet : s.Quiet) (p o : P) :
    ofOrigin origin o (log p) = ofOrigin origin o (log o) := by
  induction hDepth : depth o p using Nat.strongRecOn generalizing p with
  | ind k ih =>
    by_cases hHome : p = o
    · rw [hHome]
    · obtain ⟨q, b, hWire, hLess⟩ := (hTree o).above hHome
      have hNone : pend p (up o p) = [] := by
        have hInbox := h.inbox p (up o p)
        rw [hQuiet] at hInbox
        exact List.map_eq_nil_iff.1 hInbox.symm
      have hOrder := h.follows hHome hWire
      rw [hNone, show ofOrigin origin o [] = [] from rfl, List.append_nil] at hOrder
      rw [← hOrder, ih _ (hDepth ▸ hLess) q rfl]

theorem agreed (h : Holds n up origin text Valid Inv s log pend) : Agreed origin Inv s log :=
  ⟨h.inv, h.part hTree, h.whole hTree⟩

/-- Each message that is read is one command less. -/
theorem lag_lt [Fintype P] {p : P} {c : γ} (hAway : p ≠ origin c)
    (h : Holds n up origin text Valid Inv s (Function.update log p (log p ++ [c])) pend) :
    lag origin (Function.update log p (log p ++ [c])) < lag origin log := by
  have hOwn (o : P) : ofOrigin origin o (Function.update log p (log p ++ [c]) o) =
      ofOrigin origin o (log o) := by
    by_cases hSelf : o = p
    · subst hSelf
      rw [Function.update_self, ofOrigin_append, ofOrigin_none hAway.symm, List.append_nil]
    · rw [Function.update_of_ne hSelf]
  have hAll (e : P × P) : (ofOrigin origin e.2 (log e.1)).length ≤
      (ofOrigin origin e.2 (Function.update log p (log p ++ [c]) e.1)).length := by
    by_cases hSelf : e.1 = p
    · rw [hSelf, Function.update_self, ofOrigin_append, List.length_append]
      omega
    · rw [Function.update_of_ne hSelf]
  refine Finset.sum_lt_sum (fun e _ => ?_) ⟨(p, origin c), Finset.mem_univ _, ?_⟩
  · have hLonger := hAll e
    rw [hOwn]
    omega
  · have hPart := (h.part hTree p (origin c)).length_le
    simp only
    rw [hOwn] at hPart ⊢
    rw [Function.update_self, ofOrigin_append, ofOrigin_one rfl, List.length_append,
      List.length_singleton] at hPart ⊢
    omega

end Holds

/-! ### One party acts -/

section

variable [DecidableEq Q] (hTree : ∀ o, Tree n.wire o (up o) (depth o)) {p o : P} {new : List γ}
  {outs : List (Q × μ)}

/-- The commands of an origin that come to a port when a party tells of them. -/
def told (n : Net P Q ι σ μ) (up : P → P → Q) (p o : P) (new : List γ) (q : P) (b : Q) : List γ :=
  match n.wire q b with
  | some (p', a) => if p' = p ∧ ¬(p ≠ o ∧ a = up o p) then new else []
  | none => []

include hTree in
theorem comes_eq (hTold : ∀ b e, n.wire p b = some e →
      onPort b outs = if p ≠ o ∧ b = up o p then [] else new.map text) (q : P) (b : Q) :
    n.comes p outs q b = (told n up p o new q b).map text := by
  simp only [Net.comes, told]
  cases hWire : n.wire q b with
  | none => rfl
  | some e =>
    obtain ⟨p', a⟩ := e
    simp only
    by_cases hSame : p' = p
    · subst hSame
      rw [if_pos rfl, hTold a _ ((hTree q).back hWire)]
      by_cases hUp : p' ≠ o ∧ a = up o p'
      · rw [if_pos hUp, if_neg (by simp [hUp]), List.map_nil]
      · rw [if_neg hUp, if_pos ⟨rfl, hUp⟩]
    · rw [if_neg hSame, if_neg (by simp [hSame]), List.map_nil]

include hTree in
/-- What comes to a port comes from the side of its origin. -/
theorem told_toward (hNew : ∀ c ∈ new, origin c = o) {q : P} {b : Q} {c : γ}
    (h : c ∈ told n up p o new q b) : q ≠ origin c ∧ b = up (origin c) q := by
  simp only [told] at h
  split at h
  · rename_i p' a hWire
    split at h
    · rename_i hSent
      obtain ⟨rfl, hUp⟩ := hSent
      rw [hNew c h]
      refine (hTree o).below ((hTree o).back hWire) ?_
      by_contra hNot
      rw [not_or, not_not] at hNot
      exact hUp hNot
    · cases h
  · cases h

include hTree in
/-- The next party from an origin is told of all its commands. -/
theorem ofOrigin_told (hNew : ∀ c ∈ new, origin c = o) {q r o' : P} {b : Q} (hAway : q ≠ o')
    (hWire : n.wire q (up o' q) = some (r, b)) :
    ofOrigin origin o' (told n up p o new q (up o' q)) =
      if r = p then ofOrigin origin o' new else [] := by
  simp only [told, hWire]
  by_cases hSame : r = p
  · subst hSame
    by_cases hOther : o = o'
    · subst hOther
      have hDown : ¬(r ≠ o ∧ b = up o r) := by
        rintro ⟨hNe, hb⟩
        exact ((hTree o).rises hAway hWire).elim hNe fun h => h hb
      rw [if_pos ⟨rfl, hDown⟩, if_pos rfl]
    · rw [if_pos rfl, ofOrigin_other hNew hOther]
      split
      · exact ofOrigin_other hNew hOther
      · rfl
  · rw [if_neg hSame, if_neg (by simp [hSame])]
    rfl

include hTree in
/-- A party acts on commands of its own, or on one that waited at one of its ports. -/
theorem Holds.goes (h : Holds n up origin text Valid Inv s log pend) (s' : State P Q ι σ μ)
    (pend' : P → Q → List γ) (o : P) {asked : List ι} {r : σ × List (Q × μ)}
    (hParty : s'.party = s.party) (hInbox : ∀ q b, s'.inbox q b = (pend' q b).map text)
    (hPend : ∀ q b, q ≠ p → pend' q b = pend q b) (hFewer : ∀ b, ∀ c ∈ pend' p b, c ∈ pend p b)
    (hFlow : ∀ o', p ≠ o' → ofOrigin origin o' new ++ ofOrigin origin o' (pend' p (up o' p)) =
      ofOrigin origin o' (pend p (up o' p)))
    (hNew : ∀ c ∈ new, origin c = o)
    (hTold : ∀ b e, n.wire p b = some e →
      onPort b r.2 = if p ≠ o ∧ b = up o p then [] else new.map text)
    (hOwn : ∀ before c rest, ofOrigin origin p (log p ++ new) = before ++ c :: rest → Valid before c)
    (hInv : Inv p (log p ++ new) (n.after p (s.party p) asked r)) :
    Holds n up origin text Valid Inv (n.goes s' p asked r)
      (Function.update log p (log p ++ new)) fun q b => pend' q b ++ told n up p o new q b where
  inbox q b := by
    rw [List.map_append, ← comes_eq hTree hTold, ← hInbox, Net.goes]
  toward {q b c} hc := by
    rcases List.mem_append.1 hc with hWaits | hTold
    · by_cases hSame : q = p
      · subst hSame
        exact h.toward (hFewer b c hWaits)
      · exact h.toward (hPend q b hSame ▸ hWaits)
    · exact told_toward hTree hNew hTold
  follows {q o' r b} hAway hWire := by
    have hOrder := h.follows hAway hWire
    have hOther : r ≠ q := by
      rintro rfl
      obtain ⟨r', b', hUp, hLess⟩ := (hTree o').above hAway
      rw [hWire, Option.some.injEq, Prod.mk.injEq] at hUp
      rw [← hUp.1] at hLess
      exact lt_irrefl _ hLess
    rw [ofOrigin_append, ofOrigin_told hTree hNew hAway hWire]
    by_cases hSelf : q = p
    · subst hSelf
      rw [Function.update_self, Function.update_of_ne hOther, if_neg hOther, List.append_nil,
        ofOrigin_append, List.append_assoc, hFlow o' hAway, hOrder]
    · rw [Function.update_of_ne hSelf, hPend q _ hSelf]
      by_cases hFrom : r = p
      · subst hFrom
        rw [Function.update_self, if_pos rfl, ofOrigin_append, hOrder, List.append_assoc]
      · rw [Function.update_of_ne hFrom, if_neg hFrom, List.append_nil, hOrder]
  valid {o' before c rest} hLog := by
    by_cases hSelf : o' = p
    · subst hSelf
      rw [Function.update_self] at hLog
      exact hOwn before c rest hLog
    · rw [Function.update_of_ne hSelf] at hLog
      exact h.valid hLog
  inv q := by
    by_cases hSelf : q = p
    · subst hSelf
      simpa [Net.goes, hParty] using hInv
    · simpa [Net.goes, hParty, hSelf] using h.inv q

end

/-! ### Runs -/

section

variable [DecidableEq Q]

/-- How the parties treat commands.  An input makes a party act on commands of its own, in order, and
it tells its neighbours of them; and a command that a neighbour tells of is acted on and told on.  The
invariant relates the commands that a party has acted on with the party. -/
structure Replicates (n : Net P Q ι σ μ) (Asks : P → ι → Prop) (up : P → P → Q) (origin : γ → P)
    (text : γ → μ) (Valid : List γ → γ → Prop) (Inv : P → List γ → Party Q ι σ μ → Prop) : Prop where
  ask : ∀ {p i log x}, Asks p i → Inv p log x → ∃ new : List γ,
    (∀ before c after, new = before ++ c :: after →
      origin c = p ∧ Valid (ofOrigin origin p log ++ before) c) ∧
    (∀ b e, n.wire p b = some e → onPort b (n.act p x.store i).2 = new.map text) ∧
    Inv p (log ++ new) (n.after p x [i] (n.act p x.store i))
  read : ∀ {p c log x}, p ≠ origin c → Valid (ofOrigin origin (origin c) log) c → Inv p log x →
    (∀ b e, n.wire p b = some e → onPort b (n.react p x.store (up (origin c) p) (text c)).2 =
      if b = up (origin c) p then [] else [text c]) ∧
    Inv p (log ++ [c]) (n.after p x [] (n.react p x.store (up (origin c) p) (text c)))

variable {Asks : P → ι → Prop} (hTree : ∀ o, Tree n.wire o (up o) (depth o))

include hTree

theorem Replicates.holds_ask (hRep : Replicates n Asks up origin text Valid Inv)
    (h : Holds n up origin text Valid Inv s log pend) {p : P} {i : ι} (hAsks : Asks p i) :
    ∃ log' pend', Holds n up origin text Valid Inv
      (n.goes s p [i] (n.act p (s.party p).store i)) log' pend' := by
  obtain ⟨new, hNew, hTold, hInv⟩ := hRep.ask hAsks (h.inv p)
  have hOrigin : ∀ c ∈ new, origin c = p := by
    intro c hc
    obtain ⟨before, rest, hSplit⟩ := List.append_of_mem hc
    exact (hNew before c rest hSplit).1
  refine ⟨_, _, h.goes hTree s pend p rfl h.inbox (fun _ _ _ => rfl) (fun _ _ hc => hc)
    (fun o' hOther => ?_) hOrigin (fun b e hWire => ?_) (fun before c rest hLog => ?_) hInv⟩
  · rw [ofOrigin_other hOrigin hOther, List.nil_append]
  · rw [if_neg (by simp), hTold b e hWire]
  · rw [ofOrigin_append, ofOrigin_self hOrigin] at hLog
    rcases List.append_eq_append_iff.1 hLog with ⟨more, hBefore, hRest⟩ | ⟨more, hLog, hRest⟩
    · rw [hBefore]
      exact (hNew more c rest hRest).2
    · cases more with
      | nil =>
        rw [List.append_nil] at hLog
        rw [← hLog]
        simpa using (hNew [] c rest (by simpa using hRest.symm)).2
      | cons d more =>
        obtain ⟨rfl, -⟩ := List.cons.inj hRest
        exact h.valid hLog

theorem Replicates.holds_read (hRep : Replicates n Asks up origin text Valid Inv)
    (h : Holds n up origin text Valid Inv s log pend) {p : P} {a : Q} {m : μ} {rest : List μ}
    (hInbox : s.inbox p a = m :: rest) : ∃ c pend', p ≠ origin c ∧
      Holds n up origin text Valid Inv
        (n.goes (Net.take s p a rest) p [] (n.react p (s.party p).store a m))
        (Function.update log p (log p ++ [c])) pend' := by
  have hPend := h.inbox p a
  rw [hInbox] at hPend
  obtain ⟨c, more, hMore, rfl, rfl⟩ := List.map_eq_cons_iff.1 hPend.symm
  obtain ⟨hAway, rfl⟩ := h.toward (show c ∈ pend p a by simp [hMore])
  obtain ⟨hTold, hInv⟩ := hRep.read hAway (h.next hTree hMore) (h.inv p)
  have hOrigin : ∀ d ∈ [c], origin d = origin c := by simp
  refine ⟨c, _, hAway, h.goes hTree (Net.take s p (up (origin c) p) (more.map text))
    (Function.update pend p (Function.update (pend p) (up (origin c) p) more)) (origin c) rfl
    (fun q b => ?_) (fun q b hNe => ?_) (fun b d hd => ?_) (fun o' hOther => ?_)
    hOrigin (fun b e hWire => ?_) (fun before d rest hLog => ?_) hInv⟩
  · by_cases hSelf : q = p
    · subst hSelf
      by_cases hPort : b = up (origin c) q
      · subst hPort
        simp [Net.take]
      · simp [Net.take, hPort, h.inbox]
    · simp [Net.take, hSelf, h.inbox]
  · rw [Function.update_of_ne hNe]
  · rw [Function.update_self] at hd
    by_cases hPort : b = up (origin c) p
    · subst hPort
      rw [Function.update_self] at hd
      rw [hMore]
      exact List.mem_cons_of_mem _ hd
    · rwa [Function.update_of_ne hPort] at hd
  · rw [Function.update_self]
    by_cases hPort : up o' p = up (origin c) p
    · rw [hPort, Function.update_self, hMore, ← ofOrigin_append, List.singleton_append]
    · have hOrigins : origin c ≠ o' := fun hSame => hPort (by rw [hSame])
      rw [Function.update_of_ne hPort, ofOrigin_none hOrigins, List.nil_append]
  · rw [hTold b e hWire]
    simp [hAway]
  · rw [ofOrigin_append, ofOrigin_none hAway.symm, List.append_nil] at hLog
    exact h.valid hLog

theorem Replicates.holds_run (hRep : Replicates n Asks up origin text Valid Inv)
    (h : Holds n up origin text Valid Inv s log pend) (hRun : n.Run Asks s t) :
    ∃ log' pend', Holds n up origin text Valid Inv t log' pend' := by
  induction hRun with
  | refl => exact ⟨log, pend, h⟩
  | tail _ hStep ih =>
    obtain ⟨log', pend', hNow⟩ := ih
    cases hStep with
    | ask p i hAsks => exact hRep.holds_ask hTree hNow hAsks
    | read p a m rest hInbox =>
      obtain ⟨c, pend', -, hNext⟩ := hRep.holds_read hTree hNow hInbox
      exact ⟨_, pend', hNext⟩

/-- In every run, each party has acted on the first commands of each origin, and on all of them when
nothing is under way. -/
theorem Replicates.agreed (hRep : Replicates n Asks up origin text Valid Inv) {store : P → σ}
    (hStart : ∀ p, Inv p [] { store := store p }) (hRun : n.Run Asks (.start store) t) :
    ∃ log, Agreed origin Inv t log := by
  obtain ⟨log, pend, h⟩ := hRep.holds_run hTree (Holds.start hStart) hRun
  exact ⟨log, h.agreed hTree⟩

/-- In the end nothing is under way, when nothing more comes in. -/
theorem Replicates.settles [Finite P] (hRep : Replicates n Asks up origin text Valid Inv)
    {store : P → σ} (hStart : ∀ p, Inv p [] { store := store p })
    (hRun : n.Run Asks (.start store) t) :
    ∃ u, n.Run (fun _ _ => False) t u ∧ u.Quiet := by
  have := Fintype.ofFinite P
  obtain ⟨log, pend, h⟩ := hRep.holds_run hTree (Holds.start hStart) hRun
  clear hRun
  induction hLag : lag origin log using Nat.strongRecOn generalizing t log pend with
  | ind k ih =>
    by_cases hQuiet : t.Quiet
    · exact ⟨t, .refl, hQuiet⟩
    · obtain ⟨p, hNot⟩ := not_forall.1 hQuiet
      obtain ⟨a, hSome⟩ := not_forall.1 hNot
      obtain ⟨m, rest, hInbox⟩ := List.exists_cons_of_ne_nil hSome
      obtain ⟨c, pend', hAway, hNext⟩ := hRep.holds_read hTree h hInbox
      obtain ⟨u, hMore, hDone⟩ := ih _ (hLag ▸ hNext.lag_lt hTree hAway) _ pend' hNext rfl
      exact ⟨u, .head (.read p a m rest hInbox) hMore, hDone⟩

end

end

end

end Broadcast
