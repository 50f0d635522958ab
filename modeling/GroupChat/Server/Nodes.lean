import GroupChat.Linked.Chain
import GroupChat.Server.History
import GroupChat.Server.Store

/-!
# The groups as linked lists

`Server` keeps the members of a group as a list. Here are the `group_node_t` structs behind it:
`groups` holds the address of the first node of each list, and the functions of `chat-server.c`
and `util.c` that walk, extend or create a list do so link by link. A walk need not end, so it
takes fuel, and `none` is a walk that is still going on. `hold_after` says that after every run
the nodes hold the lists of `Server`.
-/

namespace GroupChat

open Posix Linked

structure GroupNodes where
  groupCnt : Nat
  groups : Vector (Option Nat) GROUP_NUM_MAX
  heap : Heap UInt16

/-- The nodes when `main` starts: `groups[GROUP_NUM_MAX] = {NULL}`. -/
def GroupNodes.start : GroupNodes := ⟨0, Vector.replicate GROUP_NUM_MAX none, []⟩

/-- The loop of `check_user_in_group`. -/
def checkUserWalk (heap : Heap UInt16) (uid : UInt16) : Nat → Option Nat → Option (Except Fault Int)
  | 0, _ => none
  | _ + 1, none => some (.ok ERR_GENERIC)
  | fuel + 1, some current =>
    match heap[current]? with
    | none => some (.error .useAfterFree)
    | some node => if node.val = uid then some (.ok 0) else checkUserWalk heap uid fuel node.next

/-- The loop of `group_add_tail`, which ends at the node whose link is null. -/
def lastNode (heap : Heap UInt16) : Nat → Nat → Option (Except Fault Nat)
  | 0, _ => none
  | fuel + 1, current =>
    match heap[current]? with
    | none => some (.error .useAfterFree)
    | some node =>
      match node.next with
      | none => some (.ok current)
      | some next => lastNode heap fuel next

/-- `group_add_tail`. -/
def groupAddTailNode (fuel : Nat) (heap : Heap UInt16) (uid : UInt16) :
    Option Nat → Option (Except Fault (Heap UInt16))
  | none => some (.error .nullPointer)
  | some head =>
    match lastNode heap fuel head with
    | none => none
    | some (.error fault) => some (.error fault)
    | some (.ok current) =>
      some (.ok (setNext (heap ++ [⟨uid, none⟩]) current (some heap.length)))

/-- `while ( groups[group_cnt] != NULL )`. -/
def scanHeads (groups : Vector (Option Nat) GROUP_NUM_MAX) (groupCnt : Nat) : Except Fault Nat :=
  if h : groupCnt < GROUP_NUM_MAX then
    if groups[groupCnt] ≠ none then scanHeads groups (groupCnt + 1) else .ok groupCnt
  else .error .outOfBounds
termination_by GROUP_NUM_MAX - groupCnt

namespace GroupNodes

/-- The `CREATE_GROUP` case. -/
def onCreateGroup (t : GroupNodes) (recv : Mainhdr) : Except Fault GroupNodes :=
  if recv.uid ≤ 0 then .ok t
  else do
    let groupCnt ← scanHeads t.groups t.groupCnt
    let t := { t with groupCnt := groupCnt }
    if groupCnt > GROUP_NUM_MAX then return t
    else
      return { t with
        groups := t.groups.setIfInBounds (UInt8.ofNat groupCnt).toNat (some t.heap.length)
        heap := t.heap ++ [⟨recv.uid, none⟩] }

/-- The `INVITE_RESP` case. -/
def onInviteResp (fuel : Nat) (t : GroupNodes) (recv : Mainhdr) :
    Option (Except Fault GroupNodes) :=
  if checkHeaderInvite recv ≠ 0 then some (.ok t)
  else
    match t.groups[recv.gid.toNat]? with
    | none => some (.error .outOfBounds)
    | some none => some (.ok t)
    | some (some head) =>
      match checkUserWalk t.heap recv.uid fuel (some head) with
      | none => none
      | some (.error fault) => some (.error fault)
      | some (.ok found) =>
        if found = 0 then some (.ok t)
        else if (recv.payload ++ [0]).head? = some (97 : Byte) then
          (groupAddTailNode fuel t.heap recv.uid (some head)).map
            (Except.map fun heap => { t with heap := heap })
        else some (.ok t)

/-- What an event does to the nodes. -/
def step (fuel : Nat) (t : GroupNodes) : Event → Option (Except Fault GroupNodes)
  | .received _ recv _ =>
    if recv.cmd = CREATE_GROUP then some (t.onCreateGroup recv.toMainhdr)
    else if recv.cmd = INVITE_RESP then t.onInviteResp fuel recv.toMainhdr
    else some (.ok t)
  | _ => some (.ok t)

/-- The nodes after a list of events. -/
def after (fuel : Nat) : List Event → GroupNodes → Option (Except Fault GroupNodes)
  | [], t => some (.ok t)
  | e :: es, t =>
    match t.step fuel e with
    | some (.ok t') => after fuel es t'
    | stopped => stopped

/-- The nodes hold the lists of the server, and no two lists share a node. -/
structure Hold (t : GroupNodes) (s : Server) (addrs : Nat → List Nat) : Prop where
  groupCnt : t.groupCnt = s.groupCnt
  chain : ∀ (g : Nat) (l : List UInt16), s.groups[g]? = some l →
    ∃ p, t.groups[g]? = some p ∧ Chain t.heap p (addrs g) l
  allocated : ∀ g, ∀ a ∈ addrs g, a < t.heap.length
  apart : ∀ g g', g ≠ g' → ∀ a ∈ addrs g, a ∉ addrs g'

end GroupNodes

/-! ## The walks -/

section Walks

variable {heap : Heap UInt16} {p : Option Nat} {as : List Nat} {xs : List UInt16}

theorem checkUserWalk_chain (chain : Chain heap p as xs) (uid : UInt16) {fuel : Nat}
    (hfuel : xs.length < fuel) :
    checkUserWalk heap uid fuel p = some (.ok (if uid ∈ xs then 0 else ERR_GENERIC)) := by
  induction chain generalizing fuel with
  | nil =>
      obtain ⟨fuel, rfl⟩ := Nat.exists_eq_add_of_lt hfuel
      rw [checkUserWalk, if_neg List.not_mem_nil]
  | @cons a n as xs node fresh rest ih =>
      rw [List.length_cons] at hfuel
      obtain ⟨fuel, rfl⟩ : ∃ k, fuel = k + 1 := ⟨fuel - 1, by omega⟩
      simp only [checkUserWalk, node]
      by_cases huid : n.val = uid
      · rw [if_pos huid, if_pos (by rw [huid]; exact List.mem_cons_self)]
      · rw [if_neg huid, ih (by omega)]
        have hmem : uid ∈ n.val :: xs ↔ uid ∈ xs := by
          rw [List.mem_cons]
          exact or_iff_right (fun h => huid h.symm)
        simp only [hmem]

theorem lastNode_chain {a : Nat} (chain : Chain heap p (as ++ [a]) xs) {fuel : Nat}
    (hfuel : as.length < fuel) : ∃ head, p = some head ∧ lastNode heap fuel head = some (.ok a) := by
  induction as generalizing p xs fuel with
  | nil =>
      obtain ⟨fuel, rfl⟩ : ∃ k, fuel = k + 1 := ⟨fuel - 1, by omega⟩
      cases chain with
      | @cons _ n _ _ node fresh rest =>
          obtain ⟨hnext, -⟩ := rest.of_nil
          exact ⟨a, rfl, by simp only [lastNode, node, hnext]⟩
  | cons b as ih =>
      rw [List.length_cons] at hfuel
      obtain ⟨fuel, rfl⟩ : ∃ k, fuel = k + 1 := ⟨fuel - 1, by omega⟩
      cases chain with
      | @cons _ n _ _ node fresh rest =>
          obtain ⟨next, hnext, hlast⟩ := ih rest (by omega : as.length < fuel)
          exact ⟨b, rfl, by simp only [lastNode, node, hnext, hlast]⟩

/-- `group_add_tail` on a list that is not empty appends a new node to it. -/
theorem groupAddTailNode_chain {a : Nat} (chain : Chain heap p (as ++ [a]) xs) (uid : UInt16)
    {fuel : Nat} (hfuel : as.length < fuel) :
    groupAddTailNode fuel heap uid p =
        some (.ok (setNext (heap ++ [⟨uid, none⟩]) a (some heap.length))) := by
  obtain ⟨head, rfl, hlast⟩ := lastNode_chain chain hfuel
  simp only [groupAddTailNode, hlast]

end Walks

/-! ## One step -/

namespace GroupNodes

section Step

variable {t : GroupNodes} {s s' : Server} {addrs : Nat → List Nat}

theorem Hold.of_same (hold : t.Hold s addrs) (hcnt : s'.groupCnt = s.groupCnt)
    (hgroups : s'.groups = s.groups) : t.Hold s' addrs where
  groupCnt := hold.groupCnt.trans hcnt.symm
  chain := hgroups ▸ hold.chain
  allocated := hold.allocated
  apart := hold.apart

theorem Hold.null_iff (hold : t.Hold s addrs) {g : Nat} {l : List UInt16}
    (hl : s.groups[g]? = some l) : t.groups[g]? = some none ↔ l = [] := by
  obtain ⟨p, hp, chain⟩ := hold.chain g l hl
  rw [hp, Option.some_inj, chain.null_iff]

theorem scanHeads_eq (hold : t.Hold s addrs) {n : Nat} : ∀ {groupCnt : Nat},
    GROUP_NUM_MAX - groupCnt ≤ n → scanHeads t.groups groupCnt = scanGroups s.groups groupCnt := by
  induction n with
  | zero =>
      intro groupCnt hn
      rw [scanHeads, dif_neg (by omega), scanGroups, dif_neg (by omega)]
  | succ n ih =>
      intro groupCnt hn
      rw [scanHeads, scanGroups]
      by_cases hlt : groupCnt < GROUP_NUM_MAX
      · have hnull := hold.null_iff (Vector.getElem?_eq_getElem hlt)
        rw [Vector.getElem?_eq_getElem hlt, Option.some_inj] at hnull
        simp only [dif_pos hlt, ne_eq, hnull, ih (show GROUP_NUM_MAX - (groupCnt + 1) ≤ n by omega)]
      · rw [dif_neg hlt, dif_neg hlt]

/-- The addresses of the lists when a new node is hung behind that of group `k`. -/
def push (addrs : Nat → List Nat) (k a : Nat) : Nat → List Nat :=
  Function.update addrs k (addrs k ++ [a])

theorem mem_push {k a b g : Nat} :
    b ∈ push addrs k a g ↔ b ∈ addrs g ∨ (g = k ∧ b = a) := by
  by_cases hg : g = k
  · subst hg
    rw [push, Function.update_self, List.mem_append, List.mem_singleton]
    simp
  · rw [push, Function.update_of_ne hg]
    simp [hg]

theorem Hold.apart_push (hold : t.Hold s addrs) (k : Nat) {g g' : Nat} (hne : g ≠ g') {a : Nat}
    (ha : a ∈ push addrs k t.heap.length g) : a ∉ push addrs k t.heap.length g' := by
  intro ha'
  rcases mem_push.mp ha with ha | ⟨rfl, rfl⟩
  · rcases mem_push.mp ha' with ha' | ⟨-, rfl⟩
    · exact hold.apart g g' hne a ha ha'
    · exact Nat.lt_irrefl _ (hold.allocated g _ ha)
  · rcases mem_push.mp ha' with ha' | ⟨rfl, -⟩
    · exact Nat.lt_irrefl _ (hold.allocated g' _ ha')
    · exact hne rfl

theorem Hold.allocated_push (hold : t.Hold s addrs) (k : Nat) {g a : Nat}
    (ha : a ∈ push addrs k t.heap.length g) : a < t.heap.length + 1 := by
  rcases mem_push.mp ha with ha | ⟨-, rfl⟩
  · exact Nat.lt_succ_of_lt (hold.allocated g a ha)
  · exact Nat.lt_succ_self _

/-- A group is created with a new node for its only member. -/
theorem Hold.create (hold : t.Hold s addrs) {k : Nat} {uid : UInt16}
    (hfree : s.groups[k]? = some []) (hcnt : s'.groupCnt = k)
    (hgroups : s'.groups = s.groups.setIfInBounds k [uid]) :
    Hold ⟨k, t.groups.setIfInBounds k (some t.heap.length), t.heap ++ [⟨uid, none⟩]⟩ s'
      (push addrs k t.heap.length) where
  groupCnt := hcnt.symm
  chain := by
    intro g l hl
    by_cases hg : g = k
    · subst hg
      have hk : g < GROUP_NUM_MAX := (Vector.getElem?_eq_some_iff.mp hfree).1
      rw [hgroups, Vector.getElem?_setIfInBounds_self_of_lt hk] at hl
      cases hl
      obtain ⟨p, -, chain⟩ := hold.chain g [] hfree
      refine ⟨_, Vector.getElem?_setIfInBounds_self_of_lt hk, ?_⟩
      rw [push, Function.update_self, List.length_eq_zero_iff.mp chain.length_eq]
      exact .cons (n := ⟨uid, none⟩) (by simp) List.not_mem_nil .nil
    · rw [hgroups, Vector.getElem?_setIfInBounds_ne (Ne.symm hg)] at hl
      obtain ⟨p, hp, chain⟩ := hold.chain g l hl
      rw [push, Function.update_of_ne hg]
      exact ⟨p, by rw [Vector.getElem?_setIfInBounds_ne (Ne.symm hg), hp], chain.push _⟩
  allocated g a ha := by
    rw [List.length_append, List.length_singleton]
    exact hold.allocated_push k ha
  apart g g' hne a ha := hold.apart_push k hne ha

/-- A new node is hung behind the last one of a group. -/
theorem Hold.join (hold : t.Hold s addrs) {k last : Nat} {as : List Nat} {g : List UInt16}
    {uid : UInt16} (hg : s.groups[k]? = some g) (has : addrs k = as ++ [last])
    (hcnt : s'.groupCnt = s.groupCnt) (hgroups : s'.groups = s.groups.setIfInBounds k (g ++ [uid])) :
    Hold ⟨t.groupCnt, t.groups,
      setNext (t.heap ++ [⟨uid, none⟩]) last (some t.heap.length)⟩ s'
      (push addrs k t.heap.length) where
  groupCnt := hold.groupCnt.trans hcnt.symm
  chain := by
    intro i l hl
    by_cases hi : i = k
    · subst hi
      have hk : i < GROUP_NUM_MAX := (Vector.getElem?_eq_some_iff.mp hg).1
      rw [hgroups, Vector.getElem?_setIfInBounds_self_of_lt hk] at hl
      cases hl
      obtain ⟨p, hp, chain⟩ := hold.chain i g hg
      refine ⟨p, hp, ?_⟩
      rw [push, Function.update_self, has, List.append_assoc]
      exact (has ▸ chain).extend uid
    · rw [hgroups, Vector.getElem?_setIfInBounds_ne (Ne.symm hi)] at hl
      obtain ⟨p, hp, chain⟩ := hold.chain i l hl
      rw [push, Function.update_of_ne hi]
      refine ⟨p, hp, (chain.push _).setNext_of_notMem ?_ _⟩
      apply hold.apart k i (Ne.symm hi)
      rw [has]
      exact List.mem_append_right _ List.mem_cons_self
  allocated i a ha := by
    rw [length_setNext, List.length_append, List.length_singleton]
    exact hold.allocated_push k ha
  apart i i' hne a ha := hold.apart_push k hne ha

/-- `CREATE_GROUP` does to the nodes what it does to the lists. -/
theorem Hold.onCreateGroup (hold : t.Hold s addrs) {recv : Mainhdr} (hcmd : recv.cmd = CREATE_GROUP)
    (h : Stores s recv s') (hsame : ¬ 0 < recv.uid → s'.groups = s.groups) :
    ∃ t' addrs', t.onCreateGroup recv = .ok t' ∧ Hold t' s' addrs' := by
  cases h with
  | creates cmd pos scan groups fileCnt files =>
      obtain ⟨-, hlt, hfree⟩ := scanGroups_spec (le_refl _) scan
      refine ⟨_, _, ?_, hold.create hfree rfl groups⟩
      have hgid := toNat_gid scan
      rw [GroupNodes.onCreateGroup, if_neg (UInt16.not_le.mpr pos), scanHeads_eq hold (le_refl _),
        hold.groupCnt, scan]
      simp only [bind, Except.bind]
      rw [if_neg (by omega), hgid]
      rfl
  | uploads cmd => exact absurd (hcmd.symm.trans cmd) (by decide)
  | lists cmd => exact absurd (hcmd.symm.trans cmd) (by decide)
  | same upload group same =>
      have huid := group hcmd
      refine ⟨t, addrs, ?_, hold.of_same same.groupCnt (hsame huid)⟩
      rw [GroupNodes.onCreateGroup, if_pos (UInt16.not_lt.mp huid)]

/-- `INVITE_RESP` does to the nodes what it does to the lists. -/
theorem Hold.onInviteResp (hold : t.Hold s addrs) {recv : Mainhdr} {sent : List Sent}
    (hcmd : recv.cmd = INVITE_RESP) (h : GroupChange s recv s') (hcnt : s'.groupCnt = s.groupCnt)
    (run : GroupChat.onInviteResp s recv = .ok (sent, s')) :
    ∃ t' addrs' bound, (∀ fuel ≥ bound, t.onInviteResp fuel recv = some (.ok t')) ∧
      Hold t' s' addrs' := by
  cases h with
  | creates gid cmd => exact absurd (hcmd.symm.trans cmd) (by decide)
  | joins g cmd checked group ne fresh groups =>
      obtain ⟨hcheck, -, haccept⟩ := checked
      obtain ⟨p, hp, chain⟩ := hold.chain _ g group
      obtain hnil | ⟨as, last, has⟩ := List.eq_nil_or_concat (addrs recv.gid.toNat)
      · have hlen := chain.length_eq
        rw [hnil] at hlen
        exact absurd (List.length_eq_zero_iff.mp hlen.symm) ne
      · rw [List.concat_eq_append] at has
        have hlen := chain.length_eq
        rw [has, List.length_append, List.length_singleton] at hlen
        refine ⟨_, _, g.length + 1, fun fuel hfuel => ?_, hold.join group has hcnt groups⟩
        have hwalk := checkUserWalk_chain chain recv.uid (show g.length < fuel by omega)
        have hadd := groupAddTailNode_chain (has ▸ chain) recv.uid (show as.length < fuel by omega)
        obtain ⟨head, rfl⟩ : ∃ head, p = some head :=
          Option.ne_none_iff_exists'.mp (mt chain.null_iff.mp ne)
        rw [if_neg fresh] at hwalk
        simp only [GroupNodes.onInviteResp, if_neg (not_not.mpr hcheck), hp, hwalk, hadd]
        rw [if_neg (by decide), if_pos haccept]
        rfl
  | same stays groups =>
      have hsame : Hold t s' addrs := hold.of_same hcnt groups
      rw [GroupChat.onInviteResp] at run
      by_cases hcheck : checkHeaderInvite recv = 0
      · rw [if_neg (not_not.mpr hcheck)] at run
        obtain ⟨g, hg, -⟩ := bind_eq_ok.mp run
        rw [groupAt_eq_ok] at hg
        obtain ⟨p, hp, chain⟩ := hold.chain _ g hg
        refine ⟨t, addrs, g.length + 1, fun fuel hfuel => ?_, hsame⟩
        have hwalk := checkUserWalk_chain chain recv.uid (show g.length < fuel by omega)
        simp only [GroupNodes.onInviteResp, if_neg (not_not.mpr hcheck), hp]
        cases p with
        | none => rfl
        | some head =>
            have hne : g ≠ [] := mt chain.null_iff.mpr (by simp)
            simp only [hwalk]
            by_cases hmem : recv.uid ∈ g
            · rw [if_pos hmem, if_pos rfl]
            · have hdecline : ¬ (recv.payload ++ [0]).head? = some (97 : Byte) :=
                fun haccept => stays hcmd ⟨hcheck, ⟨g, hg, hne, hmem⟩, haccept⟩
              rw [if_neg hmem, if_neg (by decide), if_neg hdecline]
      · exact ⟨t, addrs, 0, fun fuel _ => if_pos hcheck, hsame⟩

/-- Every step does to the nodes what it does to the lists. -/
theorem Hold.step (hold : t.Hold s addrs) {e : Event} {sent : List Sent}
    (hstep : GroupChat.step s e = .ok (sent, s')) :
    ∃ t' addrs' bound, (∀ fuel ≥ bound, t.step fuel e = some (.ok t')) ∧ Hold t' s' addrs' := by
  cases e with
  | accept =>
      obtain ⟨rfl, rfl⟩ := step_accept hstep
      exact ⟨t, addrs, 0, fun _ _ => rfl, hold.of_same rfl rfl⟩
  | closed c =>
      obtain ⟨me, -, rfl, rfl⟩ := step_closed hstep
      exact ⟨t, addrs, 0, fun _ _ => rfl, hold.of_same rfl rfl⟩
  | received c recv heap =>
      obtain ⟨me, hme, hswitch⟩ := step_switch hstep
      have hchange := (switch_outcome hme hswitch).groupChange
      have hstores := switch_stores hswitch
      by_cases hcreate : recv.cmd = CREATE_GROUP
      · have hsame : ¬ 0 < recv.uid → s'.groups = s.groups := by
          intro huid
          cases hchange with
          | creates gid cmd pos => exact absurd pos huid
          | joins g cmd => exact absurd (hcreate.symm.trans cmd) (by decide)
          | same stays groups => exact groups
        obtain ⟨t', addrs', hrun, hold'⟩ := hold.onCreateGroup hcreate hstores hsame
        exact ⟨t', addrs', 0, fun _ _ => by simp only [GroupNodes.step, if_pos hcreate, hrun], hold'⟩
      · have hcnt := hstores.groupCnt_of_ne hcreate
        by_cases hresp : recv.cmd = INVITE_RESP
        · rw [switch_inviteResp hresp] at hswitch
          obtain ⟨t', addrs', bound, hrun, hold'⟩ := hold.onInviteResp hresp hchange hcnt hswitch
          refine ⟨t', addrs', bound, fun fuel hfuel => ?_, hold'⟩
          simp only [GroupNodes.step, if_neg hcreate, if_pos hresp, hrun fuel hfuel]
        · have hgroups : s'.groups = s.groups := by
            cases hchange with
            | creates gid cmd => exact absurd cmd hcreate
            | joins g cmd => exact absurd cmd hresp
            | same stays groups => exact groups
          refine ⟨t, addrs, 0, fun _ _ => ?_, hold.of_same hcnt hgroups⟩
          simp only [GroupNodes.step, if_neg hcreate, if_neg hresp]

end Step

theorem after_append {fuel : Nat} {es : List Event} {t t' : GroupNodes} (e : Event)
    (h : after fuel es t = some (.ok t')) : after fuel (es ++ [e]) t = t'.step fuel e := by
  induction es generalizing t with
  | nil =>
      cases h
      rw [List.nil_append, after]
      cases t'.step fuel e with
      | none => rfl
      | some r => cases r <;> rfl
  | cons e₀ es ih =>
      rw [List.cons_append, after]
      rw [after] at h
      split at h
      · exact ih h
      · rename_i hstop
        rw [h] at hstop
        exact absurd rfl (hstop t')

theorem hold_start (credential : CredentialFile) (disk : Disk) :
    Hold GroupNodes.start (Server.start credential disk) (fun _ => []) where
  groupCnt := rfl
  chain := by
    intro g l hl
    have hlt := (Vector.getElem?_eq_some_iff.mp hl).1
    have hnil : l = [] := (Vector.mem_replicate.mp (Vector.mem_of_getElem? hl)).2
    rw [hnil]
    exact ⟨none, by simp [GroupNodes.start, hlt], .nil⟩
  allocated g a ha := absurd ha List.not_mem_nil
  apart g g' _ a ha := absurd ha List.not_mem_nil

/-- The nodes hold the lists after every run. -/
theorem hold_after (credential : CredentialFile) (disk : Disk) {h : List Taken} {s : Server}
    (run : Lts.Run GroupChat.step (Server.start credential disk) h s) :
    ∃ t addrs bound, (∀ fuel ≥ bound, after fuel (Lts.events h) GroupNodes.start = some (.ok t)) ∧
      Hold t s addrs := by
  induction run with
  | start => exact ⟨_, _, 0, fun _ _ => rfl, hold_start credential disk⟩
  | next run taken ih =>
      obtain ⟨t, addrs, bound, hafter, hold⟩ := ih
      obtain ⟨t', addrs', bound', hstep, hold'⟩ := hold.step taken
      refine ⟨t', addrs', max bound bound', fun fuel hfuel => ?_, hold'⟩
      rw [Lts.events_append, after_append _ (hafter fuel (by omega)), hstep fuel (by omega)]

end GroupNodes

end GroupChat
