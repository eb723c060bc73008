import OpenNap.Paths

/-! What holds of users, connections and channels in every state that the server reaches, whatever
the order of the events. -/

namespace OpenNap

open CText

namespace Server

/-- Users and the connections they are on point to each other, no two users have the same name, and
a user of another server is on the connection of a server that is still there. -/
theorem reach_registry (f : Startup) (events : List Event) :
    let s := Server.reach f events
    (s.users.values.map fun user => strlower (s.user user).nick).Nodup ∧
    (∀ con, (s.con con).allocated = true → (s.con con).cls = .user →
      ∃ user ∈ s.users.values, (s.con con).user = some user ∧ (s.user user).con = con ∧
        (s.user user).isLocal = true) ∧
    (∀ user ∈ s.users.values, (s.user user).isLocal = true →
      (s.con (s.user user).con).allocated = true ∧ (s.con (s.user user).con).cls = .user ∧
        (s.con (s.user user).con).user = some user) ∧
    (∀ user ∈ s.users.values, (s.user user).isLocal = false →
      (s.con (s.user user).con).allocated = true ∧ (s.con (s.user user).con).cls = .server) := by
  intro s
  have hReg := (reach_sound f events).registry
  refine ⟨?_, hReg.client, hReg.home, hReg.behind⟩
  -- the keys of the table are the names of its users
  have hKeys : (s.users.values.map fun user => strlower (s.user user).nick) =
      s.users.entries.map fun e => strlower e.1 := by
    simp only [Bucket.Table.values, List.map_map]
    exact List.map_congr_left fun e he => (hReg.keyed e he).symm
  rw [hKeys]
  exact hReg.names

/-- A user is in the list of a channel once exactly when the channel is in the list of the user
once, and otherwise neither is in the list of the other.  Both are still in their tables, and a
channel that users created has members. -/
theorem reach_membership (f : Startup) (events : List Event) :
    let s := Server.reach f events
    (∀ user ∈ s.users.values, ∀ chan ∈ s.channels.values,
      (((s.chan chan).members.count user = 1 ↔ (s.user user).channels.count chan = 1) ∧
        ((s.chan chan).members.count user ≠ 1 →
          (s.chan chan).members.count user = 0 ∧ (s.user user).channels.count chan = 0))) ∧
    (∀ user ∈ s.users.values, ∀ chan ∈ (s.user user).channels, chan ∈ s.channels.values) ∧
    (∀ chan ∈ s.channels.values, ∀ user ∈ (s.chan chan).members, user ∈ s.users.values) ∧
    (∀ chan ∈ s.channels.values, (s.chan chan).onUser = true → (s.chan chan).users ≠ []) := by
  intro s
  have hMember := (reach_sound f events).membership
  have hGraph := hMember.graph
  refine ⟨fun user hUser chan hChan => ?_,
    fun user hUser chan hIn => (hGraph.joined user hUser chan hIn).1,
    fun chan hChan user hIn => (hGraph.listed chan hChan user hIn).1, fun chan hChan hFlag => ?_⟩
  · obtain ⟨hEq, hOnce⟩ : (s.chan chan).members.count user = (s.user user).channels.count chan ∧
      (s.user user).channels.count chan ≤ 1 := hGraph.count hUser hChan
    omega
  · have hSome := hMember.kept chan hChan hFlag
    simpa [Channel.members] using hSome

end Server

/-- A server with one setting given, for runs that are looked at. -/
def hub : Startup where
  cfg := { serverName := str "hub", md5 := fun _ => [] }

end OpenNap
