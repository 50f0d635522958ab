import GroupChat.Client
import GroupChat.Hashmap.Slots

/-!
# The groups a client has a queue for

While the lock of `group_mapping` is free, `hashmap_get` finds a queue of a group exactly for
the gids that `create_new_group` has been called with (`Mapped`). When the lock is not free a
`hashmap_put` has not returned, and never will.
-/

namespace GroupChat

open Posix Probing

namespace Client

/-- The groups that have a window. -/
def gids (client : Client) : List UInt8 := client.windows.map GroupWindow.gid

/-- The groups in `group_mapping` are those that have a window, and each pointer in it leads to
a window of its group. -/
structure Mapped (client : Client) : Prop where
  unlocked : client.groupMapping.lock = false
  counted : (entries client.groupMapping.slots).length ≤ client.groupMapping.size
  bounded : client.groupMapping.size ≤ client.groupMapping.tableSize
  users : ∀ gid : UInt8, gid.toUInt64 ∈ client.groupMapping.users ↔ gid ∈ client.gids
  pointers : ∀ key value, (key, value) ∈ entries client.groupMapping.slots →
    ∃ q gid, value = some q ∧ client.gids[q]? = some gid ∧ gid.toUInt64 = key

theorem mapped_start (myUid : UInt16) : Mapped (start myUid) := by
  have hempty : entries (hashmapNew : HashmapMap Nat).slots = [] := by
    rw [HashmapMap.slots_new, entries_empty]
  constructor
  · rfl
  · change ((entries (hashmapNew : HashmapMap Nat).slots).length : Int) ≤ 0
    rw [hempty]
    exact le_refl _
  · exact Int.natCast_nonneg _
  · intro gid
    apply iff_of_false
    · intro h
      change _ ∈ (hashmapNew : HashmapMap Nat).users at h
      rw [HashmapMap.users, keys, hempty] at h
      exact absurd h (Finset.notMem_empty _)
    · exact List.not_mem_nil
  · intro key value h
    change _ ∈ entries (hashmapNew : HashmapMap Nat).slots at h
    rw [hempty] at h
    exact absurd h List.not_mem_nil

variable {client client' : Client} {fuel : Nat} {gid : UInt8}

theorem gids_modify (f : GroupWindow → GroupWindow) (hf : ∀ w, (f w).gid = w.gid)
    (windows : List GroupWindow) (i : Nat) :
    (windows.modify i f).map GroupWindow.gid = windows.map GroupWindow.gid := by
  apply List.ext_getElem?
  intro j
  rw [List.getElem?_map, List.getElem?_map, List.getElem?_modify]
  cases windows[j]? with
  | none => rfl
  | some w =>
      change some (if i = j then f w else w).gid = some w.gid
      split
      · rw [hf]
      · rfl

/-- Messages come and go without a change to the map and the groups. -/
theorem Mapped.of_same (mapped : Mapped client)
    (hmapping : client'.groupMapping = client.groupMapping) (hgids : client'.gids = client.gids) :
    Mapped client' := by
  constructor
  · rw [hmapping]
    exact mapped.unlocked
  · rw [hmapping]
    exact mapped.counted
  · rw [hmapping]
    exact mapped.bounded
  · rw [hmapping, hgids]
    exact mapped.users
  · rw [hmapping, hgids]
    exact mapped.pointers

/-- `create_new_group` gives the group a queue, or its `hashmap_put` does not return. -/
theorem Mapped.createNewGroup (mapped : Mapped client) (fuel : Nat) (gid : UInt8) :
    client.createNewGroup (fuel + 1) gid = none ∨
      ∃ m, client.createNewGroup (fuel + 1) gid =
          some { client with groupMapping := m, windows := client.windows ++ [⟨gid, []⟩] } ∧
        Mapped { client with groupMapping := m, windows := client.windows ++ [⟨gid, []⟩] } := by
  by_cases hfull : client.groupMapping.size = client.groupMapping.tableSize
  · apply Or.inl
    rw [Client.createNewGroup, hashmapPut_full hfull mapped.unlocked]
    rfl
  · apply Or.inr
    have hroom : client.groupMapping.size < client.groupMapping.tableSize :=
      lt_of_le_of_ne mapped.bounded hfull
    obtain ⟨i, hplace⟩ := exists_place mapped.counted hroom gid.toUInt64
    let m := client.groupMapping.set i gid.toUInt64 (some client.windows.length)
    refine ⟨m, ?_, ?_, ?_, ?_, ?_, ?_⟩
    · rw [Client.createNewGroup, hashmapPut_eq mapped.unlocked hfull hplace]
      rfl
    · exact mapped.unlocked
    · have hcounted := mapped.counted
      have hlength : (entries m.slots).length ≤ (entries client.groupMapping.slots).length + 1 := by
        rw [HashmapMap.entries_set]
        exact length_write_le _
      change ((entries m.slots).length : Int) ≤ client.groupMapping.size + 1
      omega
    · change client.groupMapping.size + 1 ≤ client.groupMapping.tableSize
      omega
    · intro gid'
      rw [gids, List.map_append, List.mem_append, ← gids, ← mapped.users, List.map_singleton,
        List.mem_singleton]
      change _ ∈ m.users ↔ _
      rw [HashmapMap.users, keys, HashmapMap.entries_set, ← keys, keys_write (slot_of_place hplace),
        Finset.mem_insert, UInt8.toUInt64_inj, or_comm]
      rfl
    · intro key value he
      change _ ∈ entries m.slots at he
      rw [HashmapMap.entries_set] at he
      change ∃ q gid', value = some q ∧
        ((client.windows ++ [GroupWindow.mk gid []]).map GroupWindow.gid)[q]? = some gid' ∧ _
      rw [List.map_append]
      obtain hnew | hold := mem_of_mem_write he
      · cases hnew
        refine ⟨client.windows.length, gid, rfl, ?_, rfl⟩
        rw [List.getElem?_append_right (List.length_map ..).le, List.length_map, Nat.sub_self]
        rfl
      · obtain ⟨q, gid', hvalue, hq, hkey⟩ := mapped.pointers key value hold
        refine ⟨q, gid', hvalue, ?_, hkey⟩
        rw [List.getElem?_append_left, ← gids, hq]
        exact (List.getElem?_eq_some_iff.mp hq).1

/-- `hashmap_get` finds the queue of a group that has a window. -/
theorem Mapped.get_of_mem (mapped : Mapped client) (hgid : gid ∈ client.gids) :
    ∃ q w, hashmapGet client.groupMapping gid.toUInt64 =
        some (MAP_OK, some q, client.groupMapping) ∧
      client.windows[q]? = some w ∧ w.gid = gid := by
  obtain ⟨j, hj⟩ := mem_keys.mp ((mapped.users gid).mpr hgid)
  have hfind : find client.groupMapping.hash client.groupMapping.slots gid.toUInt64 ≠ none := by
    rw [Ne, find_eq_none_iff]
    intro hnone
    rw [hnone j] at hj
    cases hj
  obtain ⟨i, hi⟩ := Option.ne_none_iff_exists'.mp hfind
  obtain ⟨value, hvalue⟩ := holds_iff.mp (probe_eq_some_iff.mp hi).1
  obtain ⟨q, gid', rfl, hq, hkey⟩ :=
    mapped.pointers gid.toUInt64 value (mem_entries.mpr ⟨i, hvalue⟩)
  rw [gids, List.getElem?_map] at hq
  obtain ⟨w, hw, hwgid⟩ := Option.map_eq_some_iff.mp hq
  refine ⟨q, w, ?_, hw, ?_⟩
  · rw [hashmapGet_eq mapped.unlocked, hi, Option.map_some, HashmapMap.data_of_slots hvalue]
    rfl
  · rw [hwgid]
    exact UInt8.toUInt64_inj.mp hkey

theorem Mapped.get_of_notMem (mapped : Mapped client) (hgid : gid ∉ client.gids) :
    hashmapGet client.groupMapping gid.toUInt64 =
      some (MAP_MISSING, none, client.groupMapping) := by
  have hnone : find client.groupMapping.hash client.groupMapping.slots gid.toUInt64 = none := by
    rw [find_eq_none_iff]
    intro i
    by_contra hi
    exact hgid ((mapped.users gid).mp (mem_keys.mpr ⟨i, Bool.eq_true_of_not_eq_false hi⟩))
  rw [hashmapGet_eq mapped.unlocked, hnone]
  rfl

/-- A chat message whose group has a queue goes there. -/
theorem serverRead_chat {fd : ConnId} {recv : Mainhdr} {q : Nat} (hcmd : recv.cmd = SEND_CHAT)
    (hget : hashmapGet client.groupMapping recv.gid.toUInt64 =
      some (MAP_OK, some q, client.groupMapping)) :
    client.serverRead fuel (.packet fd recv) = .ok (client.addMessage q recv) := by
  rw [serverRead, if_pos hcmd, hget]
  rfl

/-! ## Answering an invitation -/

/-- What the answer to an invitation can be. -/
inductive Answers (client : Client) (inviteGid : UInt8) : Client → Prop
  | accepts : Answers client inviteGid
      { client.queue (responsePacket inviteGid client.myUid 97) with main := .accepted inviteGid }
  | declines : Answers client inviteGid (client.queue (responsePacket inviteGid client.myUid 100))
  | ignores : Answers client inviteGid client

theorem answers_of_answerInvite {answer : Byte} (h : client.answerInvite answer = some client') :
    ∃ inviteGid rest, client.main = .prompting ∧
      Answers { client with groupRequestQueue := rest } inviteGid client' := by
  unfold answerInvite at h
  cases hmain : client.main with
  | accepted inviteGid =>
      simp only [hmain] at h
      cases h
  | waiting =>
      simp only [hmain] at h
      cases h
  | prompting =>
      cases hqueue : client.groupRequestQueue with
      | nil =>
          simp only [hmain, hqueue] at h
          cases h
      | cons inviteGid rest =>
          refine ⟨inviteGid, rest, rfl, ?_⟩
          simp only [hmain, hqueue] at h
          by_cases hyes : answer = 121 ∨ answer = 89
          · rw [if_pos hyes] at h
            cases h
            exact hmain ▸ .accepts
          · rw [if_neg hyes] at h
            by_cases hno : answer = 110 ∨ answer = 78
            · rw [if_pos hno] at h
              cases h
              exact hmain ▸ .declines
            · rw [if_neg hno] at h
              cases h
              exact hmain ▸ .ignores

namespace Answers

variable {inviteGid : UInt8} (answers : Answers client inviteGid client')
include answers

theorem groupMapping : client'.groupMapping = client.groupMapping := by
  cases answers with
  | accepts => rfl
  | declines => rfl
  | ignores => rfl

theorem windows : client'.windows = client.windows := by
  cases answers with
  | accepts => rfl
  | declines => rfl
  | ignores => rfl

theorem readerWaits : client'.readerWaits = client.readerWaits := by
  cases answers with
  | accepts => rfl
  | declines => rfl
  | ignores => rfl

end Answers

/-! ## The reader -/

/-- What the reader leaves as it is: the other threads' state, and the groups there are. -/
structure Grows (client client' : Client) : Prop where
  main : client'.main = client.main
  readerWaits : client'.readerWaits = client.readerWaits
  outgoingMessageQueue : client'.outgoingMessageQueue = client.outgoingMessageQueue
  gids : ∀ gid ∈ client.gids, gid ∈ client'.gids

theorem gids_addMessage (client : Client) (q : Nat) (recv : Mainhdr) :
    (client.addMessage q recv).gids = client.gids := by
  apply gids_modify
  exact fun w => rfl

theorem gids_display (client : Client) (q : Nat) : (client.display q).gids = client.gids := by
  apply gids_modify
  exact fun w => rfl

/-- The reader keeps the map right, unless a `hashmap_put` of it does not return. -/
theorem Mapped.serverRead (mapped : Mapped client) {sent : Sent}
    (h : client.serverRead (fuel + 1) sent = .ok client') :
    client'.groupMapping.lock = true ∨ Mapped client' ∧ client.Grows client' := by
  cases sent with
  | file connfd gid uid content =>
      cases h
      exact Or.inr ⟨mapped, rfl, rfl, rfl, fun _ => id⟩
  | packet connfd recv =>
      rw [Client.serverRead] at h
      by_cases hchat : recv.cmd = SEND_CHAT
      · apply Or.inr
        rw [if_pos hchat] at h
        by_cases hgid : recv.gid ∈ client.gids
        · obtain ⟨q, w, hget, -⟩ := mapped.get_of_mem hgid
          rw [hget] at h
          cases h
          refine ⟨mapped.of_same rfl (gids_addMessage client q recv), rfl, rfl, rfl, ?_⟩
          intro gid hmem
          rw [gids_addMessage]
          exact hmem
        · rw [mapped.get_of_notMem hgid] at h
          cases h
          exact ⟨mapped, rfl, rfl, rfl, fun _ => id⟩
      rw [if_neg hchat] at h
      by_cases hinvite : recv.cmd = INVITE
      · rw [if_pos hinvite] at h
        cases h
        exact Or.inr ⟨mapped.of_same rfl rfl, rfl, rfl, rfl, fun _ => id⟩
      rw [if_neg hinvite] at h
      by_cases hcreate : recv.cmd = CREATE_GROUP ∧ (recv.payload ++ [0]).head? = some (0 : Byte)
      · rw [if_pos hcreate] at h
        obtain hnone | ⟨m, hsome, mapped'⟩ := mapped.createNewGroup fuel recv.gid
        · rw [hnone] at h
          cases h
          exact Or.inl rfl
        · rw [hsome] at h
          cases h
          refine Or.inr ⟨mapped', rfl, rfl, rfl, fun gid hmem => ?_⟩
          rw [gids, List.map_append]
          exact List.mem_append_left _ hmem
      · rw [if_neg hcreate] at h
        cases h
        exact Or.inr ⟨mapped, rfl, rfl, rfl, fun _ => id⟩

/-! ## A lock that is held -/

theorem createNewGroup_held (hlock : client.groupMapping.lock = true) (gid : UInt8) :
    client.createNewGroup fuel gid = none := by
  rw [Client.createNewGroup, hashmapPut_held hlock]
  rfl

theorem serverRead_held (hlock : client.groupMapping.lock = true) {sent : Sent}
    (h : client.serverRead fuel sent = .ok client') : client'.groupMapping.lock = true := by
  cases sent with
  | file connfd gid uid content =>
      cases h
      exact hlock
  | packet connfd recv =>
      rw [Client.serverRead, hashmapGet_held hlock, createNewGroup_held hlock] at h
      split at h
      · cases h
        exact hlock
      · split at h
        · cases h
          exact hlock
        · split at h
          · cases h
            rfl
          · cases h
            exact hlock

end Client

end GroupChat
