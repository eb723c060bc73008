import Mathlib.Data.List.Basic
import Mathlib.Data.List.Nodup
import Mathlib.Data.List.Perm.Basic
import Mathlib.Logic.Relation

/-! A ledger of requests.  Requests have ids and owners; a request is begun by its owner, may be
replied to while it is pending, and is ended once, or forgotten when its owner is closed.  The
ledger is what was written down of that, in order.  As long as no id is used twice, nothing is
written about a request after its end, nor to an owner after it was closed. -/

namespace Ledger

variable {I O : Type}

inductive Entry (I O : Type)
  | begun (id : I) (owner : O)
  | reply (id : I) (owner : O)
  | ended (id : I) (owner : O)
  | closed (owner : O)

/-- The requests that are pending and what was written down. -/
structure Book (I O : Type) where
  pending : List (I × O) := []
  log : List (Entry I O) := []

/-- One step of the requests and their owners. -/
inductive Step : Book I O → Book I O → Prop
  | begun (b : Book I O) {id : I} {owner : O} (hOpen : .closed owner ∉ b.log) :
      Step b { pending := b.pending ++ [(id, owner)], log := b.log ++ [.begun id owner] }
  | reply (b : Book I O) {id : I} {owner : O} (h : (id, owner) ∈ b.pending) :
      Step b { b with log := b.log ++ [.reply id owner] }
  | ended (b : Book I O) {id : I} {owner : O} {rest : List (I × O)}
      (h : b.pending.Perm ((id, owner) :: rest)) :
      Step b { pending := rest, log := b.log ++ [.ended id owner] }
  | forget (b : Book I O) {rest : List (I × O)} (h : rest.Sublist b.pending) :
      Step b { b with pending := rest }
  | closed (b : Book I O) {owner : O} (h : ∀ p ∈ b.pending, p.2 ≠ owner) :
      Step b { b with log := b.log ++ [.closed owner] }

/-- Any number of steps. -/
abbrev Path : Book I O → Book I O → Prop := Relation.ReflTransGen Step

/-- The ids of the requests that were begun. -/
def opened (log : List (Entry I O)) : List I :=
  log.filterMap fun
    | .begun id _ => some id
    | _ => none

/-- The ids of the requests that were ended. -/
def finished (log : List (Entry I O)) : List I :=
  log.filterMap fun
    | .ended id _ => some id
    | _ => none

@[simp] theorem opened_append (l m : List (Entry I O)) : opened (l ++ m) = opened l ++ opened m :=
  List.filterMap_append

theorem mem_opened {log : List (Entry I O)} {id : I} :
    id ∈ opened log ↔ ∃ owner, .begun id owner ∈ log := by
  simp only [opened, List.mem_filterMap]
  constructor
  · rintro ⟨entry, hEntry, hId⟩
    cases entry with
    | begun i owner =>
      cases hId
      exact ⟨owner, hEntry⟩
    | reply | ended | closed => cases hId
  · rintro ⟨owner, hEntry⟩
    exact ⟨_, hEntry, rfl⟩

/-- Whether the second entry may be written after the first. -/
def Follows : Entry I O → Entry I O → Prop
  | .ended id _, .reply id' _ => id ≠ id'
  | .ended id _, .ended id' _ => id ≠ id'
  | .closed owner, .begun _ owner' => owner ≠ owner'
  | .closed owner, .reply _ owner' => owner ≠ owner'
  | .closed owner, .ended _ owner' => owner ≠ owner'
  | _, _ => True

/-- What holds of a ledger in which no id is used twice. -/
structure Tidy (b : Book I O) : Prop where
  ids : (b.pending.map Prod.fst).Nodup
  begun : ∀ p ∈ b.pending, .begun p.1 p.2 ∈ b.log
  live : ∀ p ∈ b.pending, ∀ owner, .ended p.1 owner ∉ b.log
  present : ∀ p ∈ b.pending, .closed p.2 ∉ b.log
  ended : ∀ id owner, .ended id owner ∈ b.log → .begun id owner ∈ b.log
  replied : ∀ id owner, .reply id owner ∈ b.log → .begun id owner ∈ b.log
  order : b.log.Pairwise Follows

theorem tidy_empty : Tidy ({} : Book I O) := by
  constructor <;> simp

namespace Tidy

variable {b : Book I O}

/-- A new entry may be written when it follows every entry so far. -/
theorem order_append (h : Tidy b) {entry : Entry I O} (hFollows : ∀ e ∈ b.log, Follows e entry) :
    (b.log ++ [entry]).Pairwise Follows := by
  refine List.pairwise_append.2 ⟨h.order, List.pairwise_singleton _ _, ?_⟩
  intro e he f hf
  rw [List.mem_singleton.1 hf]
  exact hFollows e he

/-- A request that is pending may be replied to, or ended. -/
theorem follows_pending (h : Tidy b) {id : I} {owner : O} (hPending : (id, owner) ∈ b.pending) :
    ∀ e ∈ b.log, Follows e (.reply id owner) ∧ Follows e (.ended id owner) := by
  intro e he
  cases e with
  | begun | reply => exact ⟨trivial, trivial⟩
  | ended i o =>
    have hNe : i ≠ id := fun hEq => h.live _ hPending o (hEq ▸ he)
    exact ⟨hNe, hNe⟩
  | closed o =>
    have hNe : o ≠ owner := fun hEq => h.present _ hPending (hEq ▸ he)
    exact ⟨hNe, hNe⟩

theorem step {c : Book I O} (hStep : Step b c) (hIds : (opened c.log).Nodup) (h : Tidy b) :
    Tidy c := by
  cases hStep with
  | begun hOpen =>
    rename_i id owner
    have hNew : id ∉ opened b.log := by
      rw [opened_append] at hIds
      exact fun hIn => (List.nodup_append.1 hIds).2.2 id hIn id (by simp [opened]) rfl
    have hNever : ∀ o, .begun id o ∉ b.log := fun o hIn => hNew (mem_opened.2 ⟨o, hIn⟩)
    exact {
      ids := by
        rw [List.map_append]
        refine List.Nodup.append h.ids (List.nodup_singleton _) ?_
        intro i hi hId
        obtain ⟨p, hp, rfl⟩ := List.mem_map.1 hi
        obtain rfl := List.mem_singleton.1 hId
        exact hNever _ (h.begun p hp)
      begun := by
        intro p hp
        rcases List.mem_append.1 hp with hp | hp
        · exact List.mem_append_left _ (h.begun p hp)
        · obtain rfl := List.mem_singleton.1 hp
          simp
      live := by
        intro p hp o hIn
        have hIn : Entry.ended p.1 o ∈ b.log := by simpa using hIn
        rcases List.mem_append.1 hp with hp | hp
        · exact h.live p hp o hIn
        · obtain rfl := List.mem_singleton.1 hp
          exact hNever o (h.ended _ _ hIn)
      present := by
        intro p hp hIn
        have hIn : Entry.closed p.2 ∈ b.log := by simpa using hIn
        rcases List.mem_append.1 hp with hp | hp
        · exact h.present p hp hIn
        · obtain rfl := List.mem_singleton.1 hp
          exact hOpen hIn
      ended := fun i o hIn => List.mem_append_left _ (h.ended i o (by simpa using hIn))
      replied := fun i o hIn => List.mem_append_left _ (h.replied i o (by simpa using hIn))
      order := h.order_append fun e he => by
        cases e with
        | begun | reply | ended => trivial
        | closed o => exact fun hEq => hOpen (hEq ▸ he) }
  | reply hPending =>
    rename_i id owner
    exact {
      ids := h.ids
      begun := fun p hp => List.mem_append_left _ (h.begun p hp)
      live := fun p hp o hIn => h.live p hp o (by simpa using hIn)
      present := fun p hp hIn => h.present p hp (by simpa using hIn)
      ended := fun i o hIn => List.mem_append_left _ (h.ended i o (by simpa using hIn))
      replied := by
        intro i o hIn
        refine List.mem_append_left _ ?_
        rcases List.mem_append.1 hIn with hIn | hIn
        · exact h.replied i o hIn
        · cases List.mem_singleton.1 hIn
          exact h.begun _ hPending
      order := h.order_append fun e he => (h.follows_pending hPending e he).1 }
  | ended hPerm =>
    rename_i id owner rest
    have hPending : (id, owner) ∈ b.pending := hPerm.mem_iff.2 (by simp)
    have hRest (p : I × O) (hp : p ∈ rest) : p ∈ b.pending :=
      hPerm.mem_iff.2 (List.mem_cons_of_mem _ hp)
    have hIds' := (hPerm.map Prod.fst).nodup_iff.1 h.ids
    obtain ⟨hNot, hNodup⟩ := List.nodup_cons.1 hIds'
    exact {
      ids := hNodup
      begun := fun p hp => List.mem_append_left _ (h.begun p (hRest p hp))
      live := by
        intro p hp o hIn
        rcases List.mem_append.1 hIn with hIn | hIn
        · exact h.live p (hRest p hp) o hIn
        · cases List.mem_singleton.1 hIn
          exact hNot (List.mem_map.2 ⟨p, hp, rfl⟩)
      present := fun p hp hIn => h.present p (hRest p hp) (by simpa using hIn)
      ended := by
        intro i o hIn
        refine List.mem_append_left _ ?_
        rcases List.mem_append.1 hIn with hIn | hIn
        · exact h.ended i o hIn
        · cases List.mem_singleton.1 hIn
          exact h.begun _ hPending
      replied := fun i o hIn => List.mem_append_left _ (h.replied i o (by simpa using hIn))
      order := h.order_append fun e he => (h.follows_pending hPending e he).2 }
  | forget hSub =>
    exact {
      ids := h.ids.sublist (hSub.map Prod.fst)
      begun := fun p hp => h.begun p (hSub.mem hp)
      live := fun p hp => h.live p (hSub.mem hp)
      present := fun p hp => h.present p (hSub.mem hp)
      ended := h.ended
      replied := h.replied
      order := h.order }
  | closed hNone =>
    rename_i owner
    exact {
      ids := h.ids
      begun := fun p hp => List.mem_append_left _ (h.begun p hp)
      live := fun p hp o hIn => h.live p hp o (by simpa using hIn)
      present := by
        intro p hp hIn
        rcases List.mem_append.1 hIn with hIn | hIn
        · exact h.present p hp hIn
        · cases List.mem_singleton.1 hIn
          exact hNone p hp rfl
      ended := fun i o hIn => List.mem_append_left _ (h.ended i o (by simpa using hIn))
      replied := fun i o hIn => List.mem_append_left _ (h.replied i o (by simpa using hIn))
      order := h.order_append fun e _ => by cases e <;> trivial }

end Tidy

/-- A ledger only grows. -/
theorem Step.grows {b c : Book I O} (h : Step b c) : b.log <+: c.log := by
  cases h <;> simp

theorem Path.grows {b c : Book I O} (h : Path b c) : b.log <+: c.log := by
  induction h with
  | refl => exact List.prefix_refl _
  | tail _ hStep ih => exact ih.trans hStep.grows

theorem opened_mono {l m : List (Entry I O)} (h : l <+: m) : opened l <+: opened m :=
  h.filterMap _

/-- As long as no id is used twice, the ledger stays tidy. -/
theorem Path.tidy {b c : Book I O} (h : Path b c) (hIds : (opened c.log).Nodup) (hTidy : Tidy b) :
    Tidy c := by
  induction h with
  | refl => exact hTidy
  | tail _ hStep ih =>
    exact (ih (hIds.sublist (opened_mono hStep.grows).sublist)).step hStep hIds

/-! ### Several steps at once -/

/-- A pending request is replied to any number of times. -/
theorem Path.replies {b : Book I O} {id : I} {owner : O} (h : (id, owner) ∈ b.pending) (n : Nat) :
    Path b { b with log := b.log ++ List.replicate n (.reply id owner) } := by
  induction n with
  | zero => simpa using Relation.ReflTransGen.refl
  | succ n ih =>
    have hStep := Step.reply { b with log := b.log ++ List.replicate n (.reply id owner) } h
    rw [List.replicate_succ', ← List.append_assoc]
    exact ih.tail hStep

/-- Pending requests are ended one after the other. -/
theorem Path.endAll {b : Book I O} {gone rest : List (I × O)} (h : b.pending.Perm (gone ++ rest))
    (hRest : rest.Sublist b.pending) :
    Path b { pending := rest, log := b.log ++ gone.map fun p => .ended p.1 p.2 } := by
  induction gone generalizing b with
  | nil => simpa using Relation.ReflTransGen.single (Step.forget b hRest)
  | cons p gone ih =>
    have hStep := Step.ended b h
    have hNext := ih (b := { pending := gone ++ rest, log := b.log ++ [.ended p.1 p.2] })
      (List.Perm.refl _) (List.sublist_append_right gone rest)
    simpa using Relation.ReflTransGen.head hStep hNext

namespace Tidy

variable {b : Book I O}

/-- Nothing is written about a request after its end. -/
theorem after_end (h : Tidy b) {before after : List (Entry I O)} {id : I} {owner : O}
    (hLog : b.log = before ++ .ended id owner :: after) (o : O) :
    .reply id o ∉ after ∧ .ended id o ∉ after := by
  have hOrder := h.order
  rw [hLog] at hOrder
  have hAfter := (List.pairwise_cons.1 (List.pairwise_append.1 hOrder).2.1).1
  exact ⟨fun hIn => hAfter _ hIn rfl, fun hIn => hAfter _ hIn rfl⟩

/-- Nothing is written to an owner after it was closed. -/
theorem after_close (h : Tidy b) {before after : List (Entry I O)} {owner : O}
    (hLog : b.log = before ++ .closed owner :: after) (id : I) :
    .reply id owner ∉ after ∧ .ended id owner ∉ after := by
  have hOrder := h.order
  rw [hLog] at hOrder
  have hAfter := (List.pairwise_cons.1 (List.pairwise_append.1 hOrder).2.1).1
  exact ⟨fun hIn => hAfter _ hIn rfl, fun hIn => hAfter _ hIn rfl⟩

/-- No request is ended twice. -/
theorem finished_nodup (h : Tidy b) : (finished b.log).Nodup := by
  refine List.pairwise_filterMap.2 (h.order.imp ?_)
  intro e f hFollows i hi j hj
  cases e with
  | ended id owner =>
    cases f with
    | ended id' owner' =>
      cases hi
      cases hj
      exact hFollows
    | begun | reply | closed => cases hj
  | begun | reply | closed => cases hi

end Tidy

/-- A request has one owner. -/
theorem owner_eq {log : List (Entry I O)} (hIds : (opened log).Nodup) {id : I} {o o' : O}
    (h : .begun id o ∈ log) (h' : .begun id o' ∈ log) : o = o' := by
  obtain ⟨before, after, rfl⟩ := List.append_of_mem h
  have hMiddle : opened (before ++ .begun id o :: after) = opened before ++ id :: opened after := by
    simp [opened]
  rw [hMiddle] at hIds
  -- another entry that begins the request would be a second use of its id
  have hNot := List.nodup_middle.1 hIds
  have hOther (hIn : id ∈ opened before ++ opened after) : False := (List.nodup_cons.1 hNot).1 hIn
  rcases List.mem_append.1 h' with hIn | hIn
  · exact (hOther (List.mem_append_left _ (mem_opened.2 ⟨o', hIn⟩))).elim
  · rcases List.mem_cons.1 hIn with hEq | hIn
    · cases hEq
      rfl
    · exact (hOther (List.mem_append_right _ (mem_opened.2 ⟨o', hIn⟩))).elim

end Ledger
