import GroupChat.Server.Capacity

/-!
# Group ids

`CREATE_GROUP` searches for a free slot from where it stopped the last time. In every run the taken
slots are the first ones, as many as there were successful requests, and the counter is not past
them (`InOrder`). So a request finds the first free slot as long as there is one, and the gids are
given out in order, each once (`groupIdsFresh`).
-/

namespace GroupChat

open Posix

/-- The gid that a step gives out: that of a successful answer to `CREATE_GROUP`. -/
def gidGiven (x : Taken) : Option UInt8 :=
  match x.event, x.out with
  | .received _ recv _, [.packet _ hdr] =>
    if recv.cmd = CREATE_GROUP ∧ hdr.payload = [0] then some hdr.gid else none
  | _, _ => none

/-- The gids given out so far, the latest last. -/
def gidsGiven (h : List Taken) : List UInt8 := h.filterMap gidGiven

/-- With a free slot, a request for a group from a user gets a free slot's gid, and the slot the
list of this user alone. -/
def CreatesFresh (s : Server) : Prop :=
  (∃ i : Nat, s.groups[i]? = some []) → ∀ c recv heap, recv.cmd = CREATE_GROUP → 0 < recv.uid →
    (s.uidOf c).isSome → ∃ gid s',
      step s (.received c recv heap) =
        .ok ([.packet c (statusReply CREATE_GROUP gid recv.uid 0)], s') ∧
      s.groups[gid.toNat]? = some [] ∧ s'.groups[gid.toNat]? = some [recv.uid] ∧
      ∀ g : Nat, g ≠ gid.toNat → s'.groups[g]? = s.groups[g]?

/-- Group ids are fresh: the k-th one given out is k, counted from 0. -/
structure GroupIdsFresh (h : List Taken) (s : Server) : Prop where
  creates : CreatesFresh s
  numbered : ∀ (k : Nat) (gid : UInt8), (gidsGiven h)[k]? = some gid → gid.toNat = k
  once : (gidsGiven h).Nodup

/-- The slots taken are those of the gids given out, and the search starts at the first free one or
below. -/
structure InOrder (h : List Taken) (s : Server) : Prop where
  taken : ∀ (g : Nat) (l : List UInt16), s.groups[g]? = some l →
    (l = [] ↔ (gidsGiven h).length ≤ g)
  counter : s.groupCnt ≤ (gidsGiven h).length
  numbered : (gidsGiven h).map UInt8.toNat = List.range (gidsGiven h).length

section Step

variable {s s' : Server} {sent : List Sent} {c : ConnId} {recv : Packet} {heap : Byte × Byte}

/-- The step that creates a group. -/
theorem step_createGroup_iff (hcmd : recv.cmd = CREATE_GROUP) (hpos : 0 < recv.uid)
    (hopen : (s.uidOf c).isSome) :
    step s (.received c recv heap) = .ok (sent, s') ↔
      ∃ k, scanGroups s.groups s.groupCnt = .ok k ∧
        sent = [.packet c (statusReply CREATE_GROUP (UInt8.ofNat k) recv.uid 0)] ∧
        s' = { s with groupCnt := k, groups := s.groups.setIfInBounds k [recv.uid] } := by
  rw [Server.uidOf, Option.isSome_map] at hopen
  obtain ⟨me, hme⟩ := Option.isSome_iff_exists.mp hopen
  have hstep : step s (.received c recv heap) =
      (onCreateGroup s c recv.toMainhdr).mapError Stop.undefined := by
    simp only [step, hme, switch_createGroup hcmd]
  rw [hstep, onCreateGroup, if_neg (UInt16.not_le.mpr hpos)]
  cases hscan : scanGroups s.groups s.groupCnt with
  | error fault =>
      constructor
      · intro h
        cases h
      · rintro ⟨k, h, -⟩
        cases h
  | ok k =>
      obtain ⟨-, hlt, -⟩ := scanGroups_spec (le_refl _) hscan
      simp only [ok_bind, if_neg (show ¬ k > GROUP_NUM_MAX by omega), toNat_gid hscan]
      constructor
      · intro h
        cases h
        exact ⟨k, rfl, rfl, rfl⟩
      · rintro ⟨k', hk', rfl, rfl⟩
        cases hk'
        rfl

theorem step_createGroup_refused (hcmd : recv.cmd = CREATE_GROUP) (hzero : ¬ 0 < recv.uid)
    (hstep : step s (.received c recv heap) = .ok (sent, s')) :
    sent = [.packet c (statusReply CREATE_GROUP 0 recv.uid (UInt8.ofInt ERR_NEED_LOGIN))] ∧
      s' = s := by
  obtain ⟨me, -, hswitch⟩ := step_switch hstep
  rw [switch_createGroup hcmd] at hswitch
  cases onCreateGroup_run hswitch with
  | refused zero => exact ⟨rfl, rfl⟩
  | created pos k scan => exact absurd pos hzero

theorem gidGiven_of_ne (hcmd : recv.cmd ≠ CREATE_GROUP) :
    gidGiven ⟨s, .received c recv heap, sent, s'⟩ = none := by
  unfold gidGiven
  split
  · rename_i hevent hsent
    cases hevent
    exact if_neg fun h => hcmd h.1
  · rfl

/-- Where the slots are taken in order, the search stops at the first free one. -/
theorem InOrder.scan {h : List Taken} (horder : InOrder h s) {k : Nat}
    (hscan : scanGroups s.groups s.groupCnt = .ok k) : k = (gidsGiven h).length := by
  obtain ⟨-, hlt, hfree⟩ := scanGroups_spec (le_refl _) hscan
  have hge := (horder.taken k [] hfree).mp rfl
  by_contra hne
  have hlow : (gidsGiven h).length < k := by omega
  have hin : (gidsGiven h).length < GROUP_NUM_MAX := by omega
  have hslot : s.groups[(gidsGiven h).length]? = some s.groups[(gidsGiven h).length] :=
    Vector.getElem?_eq_getElem hin
  have hnil := (horder.taken _ _ hslot).mpr (le_refl _)
  rw [hnil] at hslot
  exact scanGroups_passes hscan horder.counter hlow hslot

theorem InOrder.createsFresh {h : List Taken} (horder : InOrder h s) : CreatesFresh s := by
  rintro ⟨i, hi⟩ c recv heap hcmd hpos hopen
  have hle := (horder.taken i [] hi).mp rfl
  obtain ⟨k, hscan⟩ := scanGroups_of_free hi (horder.counter.trans hle)
  obtain ⟨-, hlt, hfree⟩ := scanGroups_spec (le_refl _) hscan
  have hgid := toNat_gid hscan
  refine ⟨UInt8.ofNat k, _, (step_createGroup_iff hcmd hpos hopen).mpr ⟨k, hscan, rfl, rfl⟩, ?_⟩
  rw [hgid]
  refine ⟨hfree, Vector.getElem?_setIfInBounds_self_of_lt hlt, ?_⟩
  intro g hne
  exact Vector.getElem?_setIfInBounds_ne (Ne.symm hne)

theorem gidsGiven_append (h : List Taken) (x : Taken) :
    gidsGiven (h ++ [x]) = gidsGiven h ++ (gidGiven x).toList := by
  rw [gidsGiven, List.filterMap_append, List.filterMap_cons]
  cases gidGiven x <;> rfl

/-- A step that gives out no gid keeps the order if it leaves the counter and takes no slot. -/
theorem InOrder.of_none {h : List Taken} {x : Taken} (horder : InOrder h s)
    (hx : gidGiven x = none) (hcounter : s'.groupCnt = s.groupCnt)
    (hgroups : ∀ (g : Nat) (l' : List UInt16), s'.groups[g]? = some l' →
      ∃ l, s.groups[g]? = some l ∧ (l' = [] ↔ l = [])) : InOrder (h ++ [x]) s' := by
  have hsame : gidsGiven (h ++ [x]) = gidsGiven h := by
    rw [gidsGiven_append, hx]
    exact List.append_nil _
  refine ⟨?_, ?_, ?_⟩
  · intro g l' hl'
    obtain ⟨l, hl, hiff⟩ := hgroups g l' hl'
    rw [hsame, hiff]
    exact horder.taken g l hl
  · rw [hsame, hcounter]
    exact horder.counter
  · rw [hsame]
    exact horder.numbered

/-- A created group is the next one. -/
theorem InOrder.create {h : List Taken} (horder : InOrder h s) (hcmd : recv.cmd = CREATE_GROUP)
    (hpos : 0 < recv.uid) (hopen : (s.uidOf c).isSome)
    (hstep : step s (.received c recv heap) = .ok (sent, s')) :
    InOrder (h ++ [⟨s, .received c recv heap, sent, s'⟩]) s' := by
  obtain ⟨k, hscan, rfl, rfl⟩ := (step_createGroup_iff hcmd hpos hopen).mp hstep
  obtain ⟨-, hlt, hfree⟩ := scanGroups_spec (le_refl _) hscan
  obtain rfl := horder.scan hscan
  have hgid := toNat_gid hscan
  have hgiven : ∀ s', gidsGiven (h ++ [⟨s, .received c recv heap, [.packet c (statusReply CREATE_GROUP
      (UInt8.ofNat (gidsGiven h).length) recv.uid 0)], s'⟩]) =
      gidsGiven h ++ [UInt8.ofNat (gidsGiven h).length] := by
    intro s'
    rw [gidsGiven_append]
    congr 1
    exact congrArg Option.toList (if_pos ⟨hcmd, rfl⟩)
  refine ⟨?_, ?_, ?_⟩
  · intro g l hl
    rw [hgiven, List.length_append, List.length_singleton]
    rcases getElem?_set hfree rfl hl with ⟨rfl, rfl⟩ | hold
    · simp
    · have hiff := horder.taken g l hold
      have hne : g ≠ (gidsGiven h).length := by
        rintro rfl
        rw [show _ = some [recv.uid] from Vector.getElem?_setIfInBounds_self_of_lt hlt] at hl
        rw [hfree] at hold
        cases hl
        cases hold
      rw [hiff]
      omega
  · rw [hgiven, List.length_append]
    exact Nat.le_add_right _ _
  · rw [hgiven, List.map_append, List.length_append, List.length_singleton, List.range_succ,
      horder.numbered, List.map_singleton, hgid]

theorem InOrder.step {h : List Taken} {e : Event} (horder : InOrder h s)
    (hstep : step s e = .ok (sent, s')) : InOrder (h ++ [⟨s, e, sent, s'⟩]) s' := by
  cases e with
  | accept =>
      obtain ⟨-, rfl⟩ := step_accept hstep
      exact horder.of_none rfl rfl fun g l hl => ⟨l, hl, Iff.rfl⟩
  | closed c =>
      obtain ⟨me, -, -, rfl⟩ := step_closed hstep
      exact horder.of_none rfl rfl fun g l hl => ⟨l, hl, Iff.rfl⟩
  | received c recv heap =>
      obtain ⟨hopen, houtcome⟩ := step_received hstep
      by_cases hcmd : recv.cmd = CREATE_GROUP
      · by_cases hpos : 0 < recv.uid
        · exact horder.create hcmd hpos hopen hstep
        · obtain ⟨rfl, rfl⟩ := step_createGroup_refused hcmd hpos hstep
          have hstatus : [UInt8.ofInt ERR_NEED_LOGIN] ≠ [0] := by decide
          exact horder.of_none (if_neg fun h => hstatus h.2) rfl fun g l hl => ⟨l, hl, Iff.rfl⟩
      · obtain ⟨me, -, hswitch⟩ := step_switch hstep
        have hcounter := (switch_stores hswitch).groupCnt_of_ne hcmd
        apply horder.of_none (gidGiven_of_ne hcmd) hcounter
        intro g l' hl'
        rcases houtcome.groupChange.cases_at hl' with
          hold | ⟨hcmd', -, -⟩ | ⟨-, -, l, hl, hne, -, rfl⟩
        · exact ⟨l', hold, Iff.rfl⟩
        · exact absurd hcmd' hcmd
        · exact ⟨l, hl, by simp [hne]⟩

end Step

/-- In every run a request for a group gets a fresh slot as long as there is one, and the gids are
given out in order, each once. -/
theorem groupIdsFresh (credential : CredentialFile) (disk : Disk) (es : List Event) :
    Lts.Throughout step (Server.start credential disk) es GroupIdsFresh := by
  have hstart : InOrder [] (Server.start credential disk) := by
    refine ⟨?_, Nat.le_refl 0, rfl⟩
    intro g l hl
    exact iff_of_true (groups_start hl) (Nat.zero_le g)
  intro h s run _
  have horder : InOrder h s := run.invariant hstart fun h s e sent s' _ horder => horder.step
  have hnodup : ((gidsGiven h).map UInt8.toNat).Nodup := horder.numbered ▸ List.nodup_range
  refine ⟨horder.createsFresh, ?_, List.Nodup.of_map _ hnodup⟩
  intro k gid hk
  have hmap : ((gidsGiven h).map UInt8.toNat)[k]? = some gid.toNat := by
    rw [List.getElem?_map, hk]
    rfl
  have hlt := (List.getElem?_eq_some_iff.mp hk).1
  rw [horder.numbered, List.getElem?_range hlt] at hmap
  exact (Option.some.inj hmap).symm

end GroupChat
