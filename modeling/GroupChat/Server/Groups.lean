import GroupChat.Server.Nodes

/-!
# The member lists of the groups

In every run each group is a list without a cycle and without a uid twice that starts with the
uid that created it, and a group that exists is changed by one thing only: an accepting
`INVITE_RESP` of a uid that is not in it appends that uid. `groupLists` puts this together from
what one step can do to the groups (`step_groups`); that the code's nodes are such lists comes
from `GroupNodes.hold_after`.
-/

namespace GroupChat

open Posix Linked

/-- `CREATE_GROUP` of this uid has taken the slot. -/
def CreatesGroup (x : Taken) (g : Nat) (uid : UInt16) : Prop :=
  ∃ c recv heap, x.event = .received c recv heap ∧ recv.cmd = CREATE_GROUP ∧ recv.uid = uid ∧
    x.pre.groups[g]? = some [] ∧ x.post.groups[g]? = some [uid]

/-- An accepting `INVITE_RESP` of a uid that is not in the list has appended it, and has left all
other groups as they were. -/
def AppendsMember (x : Taken) (g : Nat) (l : List UInt16) : Prop :=
  ∃ c recv heap, x.event = .received c recv heap ∧ recv.cmd = INVITE_RESP ∧ recv.gid.toNat = g ∧
    recv.payload.head? = some 97 ∧ recv.uid ∉ l ∧ x.post.groups[g]? = some (l ++ [recv.uid]) ∧
    ∀ g', g' ≠ g → x.post.groups[g']? = x.pre.groups[g']?

structure GroupLists (h : List Taken) (s : Server) : Prop where
  /-- the nodes that the code has linked are the lists, and no list has a cycle -/
  linked : ∃ t bound,
    (∀ fuel ≥ bound, GroupNodes.after fuel (Lts.events h) GroupNodes.start = some (.ok t)) ∧
    ∀ (g : Nat) (l : List UInt16), s.groups[g]? = some l →
      ∃ p as, t.groups[g]? = some p ∧ Chain t.heap p as l ∧ (p = none ↔ l = [])
  nodup : ∀ (g : Nat) (l : List UInt16), s.groups[g]? = some l → l.Nodup
  created : ∀ (g : Nat) (first : UInt16) (rest : List UInt16),
    s.groups[g]? = some (first :: rest) → ∃ x ∈ h, CreatesGroup x g first
  kept : ∀ x ∈ h, ∀ (g : Nat) (l : List UInt16), x.pre.groups[g]? = some l →
    ∃ l', s.groups[g]? = some l' ∧ l <+: l'
  changed : ∀ x ∈ h, ∀ (g : Nat) (l : List UInt16), l ≠ [] → x.pre.groups[g]? = some l →
    x.post.groups[g]? ≠ some l → AppendsMember x g l

/-! ## One step -/

section Step

variable {s s' : Server} {e : Event} {sent : List Sent}

theorem step_groups (hstep : step s e = .ok (sent, s')) :
    s'.groups = s.groups ∨ ∃ c recv heap, e = .received c recv heap ∧
      GroupChange s recv.toMainhdr s' := by
  cases e with
  | accept =>
      obtain ⟨-, rfl⟩ := step_accept hstep
      exact Or.inl rfl
  | closed c =>
      obtain ⟨me, -, -, rfl⟩ := step_closed hstep
      exact Or.inl rfl
  | received c recv heap =>
      exact Or.inr ⟨c, recv, heap, rfl, (step_received hstep).2.groupChange⟩

/-- A list of the server comes from one of these three. -/
theorem GroupChange.cases_at {recv : Mainhdr} (change : GroupChange s recv s') {g : Nat}
    {l : List UInt16} (hl : s'.groups[g]? = some l) :
    s.groups[g]? = some l ∨
    (recv.cmd = CREATE_GROUP ∧ s.groups[g]? = some [] ∧ l = [recv.uid]) ∨
    (recv.cmd = INVITE_RESP ∧ recv.gid.toNat = g ∧
      ∃ l₀, s.groups[g]? = some l₀ ∧ l₀ ≠ [] ∧ recv.uid ∉ l₀ ∧ l = l₀ ++ [recv.uid]) := by
  cases change with
  | creates gid cmd pos free groups =>
      rcases getElem?_set free groups hl with ⟨rfl, rfl⟩ | hsame
      · exact Or.inr (Or.inl ⟨cmd, free, rfl⟩)
      · exact Or.inl hsame
  | joins l₀ cmd checked group ne fresh groups =>
      rcases getElem?_set group groups hl with ⟨rfl, rfl⟩ | hsame
      · exact Or.inr (Or.inr ⟨cmd, rfl, l₀, group, ne, fresh, rfl⟩)
      · exact Or.inl hsame
  | same stays groups => exact Or.inl (groups ▸ hl)

/-- A group that exists stays, with its members in their order. -/
theorem prefix_step (hstep : step s e = .ok (sent, s')) {g : Nat} {l : List UInt16}
    (hl : s.groups[g]? = some l) : ∃ l', s'.groups[g]? = some l' ∧ l <+: l' := by
  have hg : g < GROUP_NUM_MAX := (Vector.getElem?_eq_some_iff.mp hl).1
  obtain ⟨l', hl'⟩ : ∃ l', s'.groups[g]? = some l' := ⟨_, Vector.getElem?_eq_getElem hg⟩
  refine ⟨l', hl', ?_⟩
  rcases step_groups hstep with hsame | ⟨c, recv, heap, -, change⟩
  · rw [hsame, hl] at hl'
    rw [Option.some.inj hl']
  · rcases change.cases_at hl' with hold | ⟨-, hfree, -⟩ | ⟨-, -, l₀, hl₀, -, -, happ⟩
    · rw [hl] at hold
      rw [Option.some.inj hold]
    · rw [hl] at hfree
      rw [Option.some.inj hfree]
      exact List.nil_prefix
    · rw [hl] at hl₀
      rw [happ, Option.some.inj hl₀]
      exact List.prefix_append _ _

theorem nodup_step (hstep : step s e = .ok (sent, s'))
    (hnodup : ∀ (g : Nat) (l : List UInt16), s.groups[g]? = some l → l.Nodup) {g : Nat}
    {l : List UInt16} (hl : s'.groups[g]? = some l) : l.Nodup := by
  rcases step_groups hstep with hsame | ⟨c, recv, heap, -, change⟩
  · exact hnodup g l (hsame ▸ hl)
  · rcases change.cases_at hl with hold | ⟨-, -, rfl⟩ | ⟨-, -, l₀, hl₀, -, hfresh, rfl⟩
    · exact hnodup g l hold
    · exact List.nodup_singleton _
    · exact List.nodup_append.mpr ⟨hnodup g l₀ hl₀, List.nodup_singleton _,
        fun a ha b hb hab => hfresh (List.mem_singleton.mp hb ▸ hab ▸ ha)⟩

/-- The first member of a group was its first member before, or has created it in this step. -/
theorem first_step (hstep : step s e = .ok (sent, s')) {g : Nat} {first : UInt16}
    {rest : List UInt16} (hl : s'.groups[g]? = some (first :: rest)) :
    (∃ rest', s.groups[g]? = some (first :: rest')) ∨ CreatesGroup ⟨s, e, sent, s'⟩ g first := by
  rcases step_groups hstep with hsame | ⟨c, recv, heap, rfl, change⟩
  · exact Or.inl ⟨rest, hsame ▸ hl⟩
  · rcases change.cases_at hl with hold | ⟨hcmd, hfree, hnew⟩ | ⟨-, -, l₀, hl₀, hne, -, happ⟩
    · exact Or.inl ⟨rest, hold⟩
    · obtain ⟨rfl, rfl⟩ := List.cons.inj hnew
      exact Or.inr ⟨c, recv, heap, rfl, hcmd, rfl, hfree, hl⟩
    · obtain ⟨first', rest', rfl⟩ := List.exists_cons_of_ne_nil hne
      obtain ⟨rfl, -⟩ := List.cons.inj happ
      exact Or.inl ⟨rest', hl₀⟩

/-- Nothing but an accepting `INVITE_RESP` of a uid that is not in it changes a group. -/
theorem changed_step (hstep : step s e = .ok (sent, s')) {g : Nat} {l : List UInt16} (hne : l ≠ [])
    (hl : s.groups[g]? = some l) (hchanged : s'.groups[g]? ≠ some l) :
    AppendsMember ⟨s, e, sent, s'⟩ g l := by
  rcases step_groups hstep with hsame | ⟨c, recv, heap, rfl, change⟩
  · rw [hsame] at hchanged
    exact absurd hl hchanged
  · cases change with
    | creates gid cmd pos free groups =>
        rw [groups] at hchanged
        by_cases hg : gid.toNat = g
        · rw [hg, hl] at free
          exact absurd (Option.some.inj free) hne
        · rw [Vector.getElem?_setIfInBounds_ne hg] at hchanged
          exact absurd hl hchanged
    | joins l₀ cmd checked group ne fresh groups =>
        by_cases hg : recv.gid.toNat = g
        · subst hg
          rw [hl] at group
          cases group
          have haccept : recv.payload.head? = some 97 := by
            have hhead := checked.2.2
            cases hpayload : recv.payload with
            | nil =>
                rw [hpayload] at hhead
                exact absurd (Option.some.inj hhead) (by decide)
            | cons b payload =>
                rw [hpayload] at hhead
                exact hhead
          refine ⟨c, recv, heap, rfl, cmd, rfl, haccept, fresh, getElem?_set_self hl groups, ?_⟩
          intro g' hg'
          simp only [groups]
          exact Vector.getElem?_setIfInBounds_ne (Ne.symm hg')
        · rw [groups, Vector.getElem?_setIfInBounds_ne hg] at hchanged
          exact absurd hl hchanged
    | same stays groups =>
        rw [groups] at hchanged
        exact absurd hl hchanged

end Step

/-! ## Runs -/

section Runs

variable {credential : CredentialFile} {disk : Disk}
  {h : List Taken} {s : Server}

theorem groups_start {g : Nat} {l : List UInt16}
    (hl : (Server.start credential disk).groups[g]? = some l) : l = [] :=
  (Vector.mem_replicate.mp (Vector.mem_of_getElem? hl)).2

theorem nodup_of_run (run : Lts.Run step (Server.start credential disk) h s) {g : Nat}
    {l : List UInt16} (hl : s.groups[g]? = some l) : l.Nodup := by
  induction run generalizing g l with
  | start => exact groups_start hl ▸ List.nodup_nil
  | next run taken ih => exact nodup_step taken (fun g l hl => ih hl) hl

theorem created_of_run (run : Lts.Run step (Server.start credential disk) h s) {g : Nat}
    {first : UInt16} {rest : List UInt16} (hl : s.groups[g]? = some (first :: rest)) :
    ∃ x ∈ h, CreatesGroup x g first := by
  induction run generalizing rest with
  | start => exact absurd (groups_start hl) (List.cons_ne_nil _ _)
  | next run taken ih =>
      rcases first_step taken hl with ⟨rest', hold⟩ | hcreates
      · obtain ⟨x, hx, hcreates⟩ := ih hold
        exact ⟨x, List.mem_append_left _ hx, hcreates⟩
      · exact ⟨_, List.mem_append_right _ List.mem_cons_self, hcreates⟩

theorem kept_of_run (run : Lts.Run step (Server.start credential disk) h s) {x : Taken}
    (hx : x ∈ h) {g : Nat} {l : List UInt16} (hl : x.pre.groups[g]? = some l) :
    ∃ l', s.groups[g]? = some l' ∧ l <+: l' := by
  induction run with
  | start => exact absurd hx List.not_mem_nil
  | next run taken ih =>
      rcases List.mem_append.mp hx with hx | hx
      · obtain ⟨l', hl', hprefix⟩ := ih hx
        obtain ⟨l'', hl'', hprefix'⟩ := prefix_step taken hl'
        exact ⟨l'', hl'', hprefix.trans hprefix'⟩
      · cases List.mem_singleton.mp hx
        exact prefix_step taken hl

/-- In every state of every run the groups are such lists. -/
theorem groupLists (credential : CredentialFile) (disk : Disk) (es : List Event) :
    Lts.Throughout step (Server.start credential disk) es GroupLists := by
  intro h s run _
  obtain ⟨t, addrs, bound, hafter, hold⟩ := GroupNodes.hold_after credential disk run
  refine ⟨⟨t, bound, hafter, fun g l hl => ?_⟩, fun g l hl => nodup_of_run run hl,
    fun g first rest hl => created_of_run run hl, fun x hx g l hl => kept_of_run run hx hl, ?_⟩
  · obtain ⟨p, hp, chain⟩ := hold.chain g l hl
    exact ⟨p, addrs g, hp, chain, chain.null_iff⟩
  · intro x hx g l hne hl hchanged
    obtain ⟨before, later, rfl⟩ := List.append_of_mem hx
    exact changed_step run.before.2 hne hl hchanged

end Runs

end GroupChat
