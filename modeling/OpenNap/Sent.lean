import OpenNap.Login

/-! What a handler queues.  `Says P s t` bounds the messages that are new in `t`; handlers are walked
through with one lemma for each way to send a message. -/

namespace OpenNap

open CText

/-- From `s` to `t` messages are queued that all meet `P`. -/
def Says (P : Message → Prop) (s t : Server) : Prop :=
  ∃ new, t.sent = s.sent ++ new ∧ ∀ m ∈ new, P m

namespace Says

variable {P : Message → Prop} {s t u : Server}

theorem of_sent (h : t.sent = s.sent) : Says P s t :=
  ⟨[], by rw [h, List.append_nil], by simp⟩

theorem refl (s : Server) : Says P s s := of_sent rfl

theorem trans (h1 : Says P s t) (h2 : Says P t u) : Says P s u := by
  obtain ⟨l1, hSent1, hAll1⟩ := h1
  obtain ⟨l2, hSent2, hAll2⟩ := h2
  refine ⟨l1 ++ l2, by rw [hSent2, hSent1, List.append_assoc], fun m hm => ?_⟩
  rcases List.mem_append.1 hm with hm | hm
  · exact hAll1 m hm
  · exact hAll2 m hm

theorem mono {Q : Message → Prop} (h : Says P s t) (hSub : ∀ m, P m → Q m) : Says Q s t := by
  obtain ⟨l, hSent, hAll⟩ := h
  exact ⟨l, hSent, fun m hm => hSub m (hAll m hm)⟩

/-- A walk of which every step queues such messages. -/
theorem foldl {α : Type} {f : Server → α → Server} (h : Says P s t) (hStep : ∀ u a, Says P u (f u a))
    (l : List α) : Says P s (l.foldl f t) := by
  induction l generalizing t with
  | nil => exact h
  | cons a l ih => exact ih (h.trans (hStep t a))

/-- A walk that leaves the data alone. -/
theorem foldlSame {α : Type} {f : Server → α → Server} (hSame : ∀ u a, (f u a).toCore = u.toCore)
    {l : List α} (h : Says P s t)
    (hStep : ∀ u a, a ∈ l → u.toCore = t.toCore → Says P u (f u a)) : Says P s (l.foldl f t) := by
  have hWalk (u : Server) (hCore : u.toCore = t.toCore) (k : List α) (hk : ∀ a ∈ k, a ∈ l) :
      Says P u (k.foldl f u) := by
    induction k generalizing u with
    | nil => exact refl u
    | cons a k ih =>
      exact (hStep u a (hk a (by simp)) hCore).trans
        (ih _ ((hSame u a).trans hCore) fun b hb => hk b (List.mem_cons_of_mem _ hb))
  exact h.trans (hWalk t rfl l fun _ h => h)

/-- What is sought among the messages and never meets `P` is as it was. -/
theorem filter_eq (h : Says P s t) {p : Message → Bool} (hNone : ∀ m, P m → p m = false) :
    t.sent.filter p = s.sent.filter p := by
  obtain ⟨l, hSent, hAll⟩ := h
  have hNew : l.filter p = [] := List.filter_eq_nil_iff.2 fun m hm => by simp [hNone m (hAll m hm)]
  rw [hSent, List.filter_append, hNew, List.append_nil]

/-! Each way to send a message adds to what was queued before. -/

theorem onCore {f : Core → Core} (h : Says P s t) : Says P s (t.onCore f) := h.trans (of_sent rfl)

theorem queueData {con : ConId} {tag : Nat} {body : Str} (h : Says P s t) (hNew : P ⟨con, tag, body⟩) :
    Says P s (t.queueData con tag body) :=
  h.trans ⟨[⟨con, tag, body⟩], rfl, by simpa using hNew⟩

theorem sendCmd {con : ConId} {tag : Nat} {body : Str} (h : Says P s t)
    (hNew : P ⟨con, tag, clip body⟩) : Says P s (t.sendCmd con tag body) := h.queueData hNew

theorem sendIfUser {con : ConId} {tag : Nat} {body : Str} (h : Says P s t)
    (hNew : t.isUser con = true → P ⟨con, tag, clip body⟩) :
    Says P s (t.sendIfUser con tag body) := by
  simp only [Server.sendIfUser]
  split
  · rename_i hUser
    exact h.sendCmd (hNew hUser)
  · exact h

theorem passMessageArgs {except : Option ConId} {tag : Nat} {body : Str} (h : Says P s t)
    (hNew : ∀ con ∈ t.servers, P ⟨con, tag, clip body⟩) :
    Says P s (t.passMessageArgs except tag body) := by
  simp only [Server.passMessageArgs, Server.passMessage]
  apply foldlSame
  · intro u con
    split <;> rfl
  · exact h
  · intro u con hIn _
    split
    · exact refl u
    · exact (refl u).queueData (hNew con hIn)

theorem notifyMods {mode : Nat} {body : Str} (h : Says P s t)
    (hNew : ∀ con, t.isUser con = true → P ⟨con, msgServerNosuch, clip body⟩) :
    Says P s (t.notifyMods mode body) := by
  simp only [Server.notifyMods]
  apply foldlSame
  · intro u slot
    cases slot with
    | none => rfl
    | some con =>
      simp only
      split <;> rfl
  · exact h
  · intro u slot _ hCore
    cases slot with
    | none => exact refl u
    | some con =>
      simp only
      split
      · rename_i hWants
        refine (refl u).queueData (hNew con ?_)
        simp only [Server.wantsNotice] at hWants
        split at hWants
        · simp only [Bool.and_eq_true] at hWants
          rw [← hCore]
          exact hWants.1.1
        · cases hWants
      · exact refl u

theorem tellMembers {members : List ChanUser} {user : UserId} {tag : Nat} {body : Str}
    (h : Says P s t) (hNew : ∀ con, P ⟨con, tag, clip body⟩) :
    Says P s (t.tellMembers members user tag body) := by
  simp only [Server.tellMembers]
  apply h.foldl
  intro u member
  split
  · exact (refl u).queueData (hNew _)
  · exact refl u

theorem tellHotlist {nick : Str} {tag : Nat} {body : Str} (h : Says P s t)
    (hNew : ∀ con, P ⟨con, tag, clip body⟩) : Says P s (t.tellHotlist nick tag body) := by
  simp only [Server.tellHotlist]
  split
  · exact h.foldl (fun u con => (refl u).sendCmd (hNew con)) _
  · exact h

end Says

end OpenNap
