import GroupChat.Server.Forwarding
import GroupChat.Server.Groups

/-!
# The bounds of the table of groups

`groupIndices` are the indices at which handling a packet reads or writes `groups`; a packet
with an index past the end is undefined behaviour (`switch_outOfBounds`). The scan of
`CREATE_GROUP` has no test of its own, so it stays inside the table as long as a slot is free
(`scanIndices_lt_iff`), and nothing compares the gid of a packet with the length of the table.
`tableSafe_iff` says that in a run no index leaves the table exactly when no group is asked for
while the table is full and no packet takes gid 255 to it.
-/

namespace GroupChat

open Posix

/-- The indices the scan of `CREATE_GROUP` reads. -/
def scanIndices (groups : Vector (List UInt16) GROUP_NUM_MAX) (groupCnt : Nat) : List Nat :=
  if h : groupCnt < GROUP_NUM_MAX then
    if groups[groupCnt] ≠ [] then groupCnt :: scanIndices groups (groupCnt + 1) else [groupCnt]
  else [groupCnt]
termination_by GROUP_NUM_MAX - groupCnt

/-- The indices of `groups` that handling the packet uses. -/
def groupIndices (s : Server) (recv : Mainhdr) : List Nat :=
  if recv.cmd = CREATE_GROUP then
    if recv.uid ≤ 0 then []
    else
      match scanGroups s.groups s.groupCnt with
      | .error _ => scanIndices s.groups s.groupCnt
      | .ok groupCnt => scanIndices s.groups s.groupCnt ++ [(UInt8.ofNat groupCnt).toNat]
  else if recv.cmd = INVITE ∨ recv.cmd = INVITE_RESP then
    if checkHeaderInvite recv ≠ 0 then [] else [recv.gid.toNat]
  else if recv.cmd = SEND_CHAT then
    if checkHeaderChat recv ≠ 0 then [] else [recv.gid.toNat]
  else if recv.cmd = SEND_FILE then
    match fileCall s recv with
    | .error _ => []
    | .ok _ => [recv.gid.toNat]
  else if recv.cmd = DOWNLOAD_FILE then [recv.gid.toNat]
  else []

/-- All slots of the table are taken. -/
def Full (s : Server) : Prop :=
  ∀ (g : Nat) (l : List UInt16), s.groups[g]? = some l → l ≠ []

/-- Every index used is inside the table, and a group asked for while the table is full is
refused. -/
def TableSafe (_ : List Taken) (s : Server) (e : Event) : Prop :=
  ∀ c recv heap, e = .received c recv heap → (s.thread c).isSome →
    (∀ i ∈ groupIndices s recv.toMainhdr, i < GROUP_NUM_MAX) ∧
    (recv.cmd = CREATE_GROUP → 0 < recv.uid → Full s →
      ∃ hdr status s', step s e = .ok ([.packet c hdr], s') ∧ hdr.cmd = CREATE_GROUP ∧
        hdr.gid = 0 ∧ hdr.payload = [status] ∧ status ≠ 0 ∧ s'.groups = s.groups)

/-- The handler of the packet takes its gid to the table. -/
def TakesGid (s : Server) (recv : Mainhdr) : Prop :=
  ((recv.cmd = INVITE ∨ recv.cmd = INVITE_RESP) ∧ checkHeaderInvite recv = 0) ∨
  (recv.cmd = SEND_CHAT ∧ checkHeaderChat recv = 0) ∨
  (recv.cmd = SEND_FILE ∧ ∃ call, fileCall s recv = .ok call) ∨
  recv.cmd = DOWNLOAD_FILE

/-- No group is asked for while the table is full, and gid 255 is not taken to it. -/
def WithinTable (_ : List Taken) (s : Server) (e : Event) : Prop :=
  ∀ c recv heap, e = .received c recv heap → (s.thread c).isSome →
    (recv.cmd = CREATE_GROUP → 0 < recv.uid → ¬ Full s) ∧
    (TakesGid s recv.toMainhdr → recv.gid ≠ 255)

/-! ## The scan -/

section Scan

variable {groups : Vector (List UInt16) GROUP_NUM_MAX} {groupCnt : Nat}

/-- The scan reads the slot it stops at last. -/
theorem scanIndices_of_ok {k : Nat} (h : scanGroups groups groupCnt = .ok k) :
    ∀ i ∈ scanIndices groups groupCnt, i ≤ k := by
  induction groupCnt using scanGroups.induct groups with
  | case1 groupCnt hlt htaken ih =>
      rw [scanGroups, dif_pos hlt, if_pos htaken] at h
      rw [scanIndices, dif_pos hlt, if_pos htaken]
      intro i hi
      rcases List.mem_cons.mp hi with rfl | hi
      · have := (scanGroups_spec (le_refl _) h).1
        omega
      · exact ih h i hi
  | case2 groupCnt hlt hfree =>
      rw [scanGroups, dif_pos hlt, if_neg hfree] at h
      rw [scanIndices, dif_pos hlt, if_neg hfree]
      intro i hi
      rw [List.mem_singleton.mp hi]
      exact (Except.ok.inj h).le
  | case3 groupCnt hge =>
      rw [scanGroups, dif_neg hge] at h
      cases h

/-- A scan that finds no slot reads past the end. -/
theorem scanIndices_of_error {fault : Fault} (h : scanGroups groups groupCnt = .error fault) :
    fault = .outOfBounds ∧ ∃ i ∈ scanIndices groups groupCnt, GROUP_NUM_MAX ≤ i := by
  induction groupCnt using scanGroups.induct groups with
  | case1 groupCnt hlt htaken ih =>
      rw [scanGroups, dif_pos hlt, if_pos htaken] at h
      rw [scanIndices, dif_pos hlt, if_pos htaken]
      obtain ⟨hfault, i, hi, hge⟩ := ih h
      exact ⟨hfault, i, List.mem_cons_of_mem _ hi, hge⟩
  | case2 groupCnt hlt hfree =>
      rw [scanGroups, dif_pos hlt, if_neg hfree] at h
      cases h
  | case3 groupCnt hge =>
      rw [scanGroups, dif_neg hge] at h
      rw [scanIndices, dif_neg hge]
      exact ⟨(Except.error.inj h).symm, groupCnt, List.mem_singleton_self _, Nat.not_lt.mp hge⟩

/-- A scan that starts at or below a free slot finds one. -/
theorem scanGroups_of_free {i : Nat} (hfree : groups[i]? = some []) (hle : groupCnt ≤ i) :
    ∃ k, scanGroups groups groupCnt = .ok k := by
  induction groupCnt using scanGroups.induct groups with
  | case1 groupCnt hlt htaken ih =>
      have hne : groupCnt ≠ i := by
        rintro rfl
        rw [Vector.getElem?_eq_getElem hlt] at hfree
        exact htaken (Option.some.inj hfree)
      rw [scanGroups, dif_pos hlt, if_pos htaken]
      exact ih (by omega)
  | case2 groupCnt hlt hstop =>
      rw [scanGroups, dif_pos hlt, if_neg hstop]
      exact ⟨groupCnt, rfl⟩
  | case3 groupCnt hge =>
      have hi : i < GROUP_NUM_MAX := (Vector.getElem?_eq_some_iff.mp hfree).1
      omega

/-- The scan passes over taken slots only. -/
theorem scanGroups_passes {k : Nat} (h : scanGroups groups groupCnt = .ok k) {i : Nat}
    (hle : groupCnt ≤ i) (hi : i < k) : groups[i]? ≠ some [] := by
  induction groupCnt using scanGroups.induct groups with
  | case1 groupCnt hlt htaken ih =>
      rw [scanGroups, dif_pos hlt, if_pos htaken] at h
      by_cases heq : groupCnt = i
      · subst heq
        rw [Vector.getElem?_eq_getElem hlt]
        exact fun hnil => htaken (Option.some.inj hnil)
      · exact ih h (by omega)
  | case2 groupCnt hlt hstop =>
      rw [scanGroups, dif_pos hlt, if_neg hstop] at h
      have hk := Except.ok.inj h
      omega
  | case3 groupCnt hge =>
      rw [scanGroups, dif_neg hge] at h
      cases h

end Scan

/-- All slots below the counter are taken. -/
def CounterBelowFree (s : Server) : Prop :=
  ∀ (g : Nat), s.groups[g]? = some [] → s.groupCnt ≤ g

section Server

variable {s s' : Server}

/-- The scan finds a slot unless the table is full. -/
theorem scan_fails_iff (hbelow : CounterBelowFree s) :
    (∃ fault, scanGroups s.groups s.groupCnt = .error fault) ↔ Full s := by
  constructor
  · rintro ⟨fault, hscan⟩ g l hl rfl
    obtain ⟨k, hk⟩ := scanGroups_of_free hl (hbelow g hl)
    rw [hscan] at hk
    cases hk
  · intro hfull
    cases hscan : scanGroups s.groups s.groupCnt with
    | error fault => exact ⟨fault, rfl⟩
    | ok k => exact absurd rfl (hfull k [] (scanGroups_spec (le_refl _) hscan).2.2)

/-- A `CREATE_GROUP` stays inside the table unless the table is full. -/
theorem scanIndices_lt_iff {recv : Mainhdr} (hbelow : CounterBelowFree s)
    (hcmd : recv.cmd = CREATE_GROUP) (hpos : 0 < recv.uid) :
    (∀ i ∈ groupIndices s recv, i < GROUP_NUM_MAX) ↔ ¬ Full s := by
  rw [← scan_fails_iff hbelow, groupIndices, if_pos hcmd, if_neg (UInt16.not_le.mpr hpos)]
  cases hscan : scanGroups s.groups s.groupCnt with
  | error fault =>
      obtain ⟨i, hi, hge⟩ := (scanIndices_of_error hscan).2
      exact iff_of_false (fun hlt => absurd (hlt i hi) (Nat.not_lt.mpr hge))
        (fun hno => hno ⟨fault, rfl⟩)
  | ok k =>
      have hk : k < GROUP_NUM_MAX := (scanGroups_spec (le_refl _) hscan).2.1
      refine iff_of_true ?_ (by rintro ⟨fault, h⟩; cases h)
      intro i hi
      rcases List.mem_append.mp hi with hi | hi
      · exact Nat.lt_of_le_of_lt (scanIndices_of_ok hscan i hi) hk
      · rw [List.mem_singleton.mp hi, UInt8.toNat_ofNat']
        exact Nat.lt_of_le_of_lt (Nat.mod_le _ _) hk

/-- What the handlers use of a packet that creates no group is its gid. -/
theorem mem_groupIndices {recv : Mainhdr} (hcmd : recv.cmd ≠ CREATE_GROUP) {i : Nat} :
    i ∈ groupIndices s recv ↔ TakesGid s recv ∧ i = recv.gid.toNat := by
  rw [groupIndices, if_neg hcmd, TakesGid]
  by_cases hinvite : recv.cmd = INVITE ∨ recv.cmd = INVITE_RESP
  · have hchat : recv.cmd ≠ SEND_CHAT := by
      rcases hinvite with h | h <;> rw [h] <;> decide
    have hfile : recv.cmd ≠ SEND_FILE := by
      rcases hinvite with h | h <;> rw [h] <;> decide
    have hdownload : recv.cmd ≠ DOWNLOAD_FILE := by
      rcases hinvite with h | h <;> rw [h] <;> decide
    rw [if_pos hinvite]
    by_cases hcheck : checkHeaderInvite recv = 0
    · simp [hcheck, hinvite]
    · simp [hcheck, hchat, hfile, hdownload]
  rw [if_neg hinvite]
  by_cases hchat : recv.cmd = SEND_CHAT
  · rw [if_pos hchat]
    by_cases hcheck : checkHeaderChat recv = 0
    · simp [hcheck, hchat]
    · simp [hcheck, hchat, INVITE, INVITE_RESP, SEND_CHAT, SEND_FILE, DOWNLOAD_FILE]
  rw [if_neg hchat]
  by_cases hfile : recv.cmd = SEND_FILE
  · rw [if_pos hfile]
    cases hcall : fileCall s recv with
    | error fault => simp [hfile, INVITE, INVITE_RESP, SEND_CHAT, SEND_FILE, DOWNLOAD_FILE]
    | ok call => simp [hfile]
  rw [if_neg hfile]
  by_cases hdownload : recv.cmd = DOWNLOAD_FILE
  · simp [hdownload]
  · simp [hinvite, hchat, hfile, hdownload]

theorem groupAt_of_ge {gid : UInt8} (hge : GROUP_NUM_MAX ≤ gid.toNat) :
    s.groupAt gid = .error .outOfBounds := by
  rw [Server.groupAt, Vector.getElem?_eq_none hge]

/-- A packet that takes a gid past the end of the table to it is undefined behaviour. -/
theorem switch_of_gid {c : ConnId} {me : ClientThread} {recv : Mainhdr} {heap : Byte × Byte}
    (htakes : TakesGid s recv) (hge : GROUP_NUM_MAX ≤ recv.gid.toNat) :
    switch s c me recv heap = .error .outOfBounds := by
  have hgroup : s.groupAt recv.gid = .error .outOfBounds := groupAt_of_ge hge
  rcases htakes with ⟨hcmd | hcmd, hcheck⟩ | ⟨hcmd, hcheck⟩ | ⟨hcmd, call, hcall⟩ | hcmd
  · rw [switch_invite hcmd, onInvite, if_neg (not_not.mpr hcheck), hgroup]
    rfl
  · rw [switch_inviteResp hcmd, onInviteResp, if_neg (not_not.mpr hcheck), hgroup]
    rfl
  · rw [switch_sendChat hcmd, onSendChat, if_neg (not_not.mpr hcheck), hgroup]
    rfl
  · obtain ⟨sendPacket, hsome, hgid⟩ := fileCall_some hcall
    rw [switch_sendFile hcmd, onSendFile_eq, hcall]
    change forwardCall call = _
    rw [forwardCall, hsome]
    simp only [forwardToGroup, groupAt_of_ge (s := call.2) (hgid ▸ hge)]
    rfl
  · rw [switch_downloadFile hcmd, onDownloadFile, cstr_append_nul]
    simp only [hgroup]
    rfl

/-- A packet with an index past the end of the table is undefined behaviour. -/
theorem switch_outOfBounds {c : ConnId} {me : ClientThread} {recv : Mainhdr} {heap : Byte × Byte}
    {i : Nat} (hi : i ∈ groupIndices s recv) (hge : GROUP_NUM_MAX ≤ i) :
    switch s c me recv heap = .error .outOfBounds := by
  by_cases hcmd : recv.cmd = CREATE_GROUP
  · rw [groupIndices, if_pos hcmd] at hi
    by_cases hpos : recv.uid ≤ 0
    · rw [if_pos hpos] at hi
      exact absurd hi List.not_mem_nil
    · rw [if_neg hpos] at hi
      rw [switch_createGroup hcmd, onCreateGroup, if_neg hpos]
      cases hscan : scanGroups s.groups s.groupCnt with
      | error fault =>
          rw [(scanIndices_of_error hscan).1]
          rfl
      | ok k =>
          have hk : k < GROUP_NUM_MAX := (scanGroups_spec (le_refl _) hscan).2.1
          rw [hscan] at hi
          rcases List.mem_append.mp hi with hi | hi
          · have := scanIndices_of_ok hscan i hi
            omega
          · rw [List.mem_singleton.mp hi, UInt8.toNat_ofNat'] at hge
            have := Nat.mod_le k (2 ^ 8)
            omega
  · obtain ⟨htakes, rfl⟩ := (mem_groupIndices hcmd).mp hi
    exact switch_of_gid htakes hge

theorem tableSafe_received_iff (hbelow : CounterBelowFree s) {c : ConnId} {recv : Packet}
    {heap : Byte × Byte} {h : List Taken} (hopen : (s.thread c).isSome) :
    TableSafe h s (.received c recv heap) ↔ WithinTable h s (.received c recv heap) := by
  constructor
  · rintro hsafe c' recv' heap' he -
    cases he
    have hlt := (hsafe c recv heap rfl hopen).1
    refine ⟨fun hcmd hpos => (scanIndices_lt_iff hbelow hcmd hpos).mp hlt, ?_⟩
    intro htakes hgid
    have hcmd : recv.cmd ≠ CREATE_GROUP := by
      intro hcmd
      rcases htakes with ⟨h | h, -⟩ | ⟨h, -⟩ | ⟨h, -⟩ | h <;>
        exact absurd (hcmd.symm.trans h) (by decide)
    have := hlt _ ((mem_groupIndices hcmd).mpr ⟨htakes, rfl⟩)
    rw [hgid] at this
    exact absurd this (by decide)
  · rintro hwithin c' recv' heap' he -
    cases he
    obtain ⟨hfull, hgid⟩ := hwithin c recv heap rfl hopen
    refine ⟨?_, fun hcmd hpos h => absurd h (hfull hcmd hpos)⟩
    by_cases hcmd : recv.cmd = CREATE_GROUP
    · by_cases hpos : 0 < recv.uid
      · exact (scanIndices_lt_iff hbelow hcmd hpos).mpr (hfull hcmd hpos)
      · rw [groupIndices, if_pos hcmd, if_pos (UInt16.not_lt.mp hpos)]
        exact fun i hi => absurd hi List.not_mem_nil
    · intro i hi
      obtain ⟨htakes, rfl⟩ := (mem_groupIndices hcmd).mp hi
      have hne : recv.gid.toNat ≠ 255 := fun h => hgid htakes (UInt8.toNat_inj.mp h)
      have hlt := recv.gid.toNat_lt
      change recv.gid.toNat < 255
      omega

theorem tableSafe_iff_withinTable (hbelow : CounterBelowFree s) (h : List Taken) (e : Event) :
    TableSafe h s e ↔ WithinTable h s e := by
  cases e with
  | accept =>
      exact iff_of_true (fun c recv heap he => by cases he) (fun c recv heap he => by cases he)
  | closed c =>
      exact iff_of_true (fun c recv heap he => by cases he) (fun c recv heap he => by cases he)
  | received c recv heap =>
      by_cases hopen : (s.thread c).isSome
      · exact tableSafe_received_iff hbelow hopen
      · refine iff_of_true ?_ ?_
        · rintro c' recv' heap' he hopen'
          cases he
          exact absurd hopen' hopen
        · rintro c' recv' heap' he hopen'
          cases he
          exact absurd hopen' hopen

end Server

/-! ## Runs -/

section Runs

variable {s s' : Server} {e : Event} {sent : List Sent}

/-- A slot that is free was free before. -/
theorem free_before (hstep : step s e = .ok (sent, s')) {g : Nat} (hfree : s'.groups[g]? = some []) :
    s.groups[g]? = some [] := by
  have hg : g < GROUP_NUM_MAX := (Vector.getElem?_eq_some_iff.mp hfree).1
  obtain ⟨l, hl⟩ : ∃ l, s.groups[g]? = some l := ⟨_, Vector.getElem?_eq_getElem hg⟩
  obtain ⟨l', hl', hprefix⟩ := prefix_step hstep hl
  obtain rfl : l' = [] := Option.some.inj (hl'.symm.trans hfree)
  rw [hl, List.prefix_nil.mp hprefix]

/-- One step keeps the counter below the free slots. -/
theorem counterBelowFree_step (hbelow : CounterBelowFree s) (hstep : step s e = .ok (sent, s')) :
    CounterBelowFree s' := by
  intro g hfree
  have hle := hbelow g (free_before hstep hfree)
  cases e with
  | accept =>
      obtain ⟨-, rfl⟩ := step_accept hstep
      exact hle
  | closed c =>
      obtain ⟨me, -, -, rfl⟩ := step_closed hstep
      exact hle
  | received c recv heap =>
      obtain ⟨me, -, hswitch⟩ := step_switch hstep
      have hbefore := free_before hstep hfree
      cases switch_stores hswitch with
      | creates cmd pos scan groups fileCnt files =>
          by_contra hlt
          by_cases heq : s'.groupCnt = g
          · have hslot := (scanGroups_spec (le_refl _) scan).2.2
            rw [← heq, getElem?_set_self hslot groups] at hfree
            exact absurd (Option.some.inj hfree) (List.cons_ne_nil _ _)
          · exact scanGroups_passes scan hle (by omega) hbefore
      | uploads cmd groupCnt => exact groupCnt ▸ hle
      | lists cmd groupCnt => exact groupCnt ▸ hle
      | same upload group same => exact same.groupCnt ▸ hle

/-- In a run no index leaves the table, and a request for a group is refused when the table is
full, exactly when none is made then and no packet takes gid 255 to the table. -/
theorem tableSafe_iff (credential : CredentialFile) (disk : Disk) (es : List Event) :
    Lts.Along step (Server.start credential disk) es TableSafe ↔
      Lts.Along step (Server.start credential disk) es WithinTable := by
  have hstart : CounterBelowFree (Server.start credential disk) := fun g _ => Nat.zero_le g
  have hrun : ∀ h s, Lts.Run step (Server.start credential disk) h s → CounterBelowFree s := by
    intro h s run
    induction run with
    | start => exact hstart
    | next run taken ih => exact counterBelowFree_step ih taken
  constructor
  · intro hsafe h s e run hes
    exact (tableSafe_iff_withinTable (hrun h s run) h e).mp (hsafe h s e run hes)
  · intro hwithin h s e run hes
    exact (tableSafe_iff_withinTable (hrun h s run) h e).mpr (hwithin h s e run hes)

/-- The last value of a gid leads past the end of the table. -/
theorem last_gid_leaves_table :
    ¬ Lts.Along step (Server.start twoAccounts ∅)
      [.accept, .received 0 (uploadPacket 255 1 120) (0, 0)] TableSafe := by
  intro hsafe
  have hrun : Lts.returns (Lts.execute step [.accept] [] (Server.start twoAccounts ∅))
      (fun r => (r.2.thread 0).isSome ∧
        groupIndices r.2 (uploadPacket 255 1 120).toMainhdr = [255]) = true := by
    decide +kernel
  obtain ⟨⟨h, s⟩, hexec, htest⟩ := Lts.exists_of_returns hrun
  obtain ⟨hopen, hindices⟩ := of_decide_eq_true htest
  obtain ⟨run, hevents⟩ := Lts.Run.start.of_execute hexec
  have hprefix : Lts.events h ++ [.received 0 (uploadPacket 255 1 120) (0, 0)] <+:
      [.accept, .received 0 (uploadPacket 255 1 120) (0, 0)] := hevents ▸ List.prefix_refl _
  have hlt := (hsafe h s _ run hprefix 0 (uploadPacket 255 1 120) (0, 0) rfl hopen).1
  rw [hindices] at hlt
  exact absurd (hlt 255 List.mem_cons_self) (by decide)

end Runs

end GroupChat
