import GroupChat.Hashmap.AsMap
import GroupChat.Server

/-!
# The list of the active users

The server walks the registry, writes every name and a comma into a file and reads one line of at
most 1023 bytes back. `completeList_iff` says for which registries that is the whole list:
`complete_of_few` has those of up to 127 users, `list_of_logins` makes the registry of any users
that have logged in one after the other.
-/

namespace GroupChat

open Posix Probing Lts

/-! ## The walk and the line -/

/-- `active_socket_walk`, with `param` what is in the file. -/
def activeSocketWalkEntry (param : Except Fault (List Byte)) (value : AnyT ClientThreadData) :
    Int × Except Fault (List Byte) :=
  (MAP_OK, do
    let file ← param
    match value with
    | none => throw .nullPointer
    | some data => return file ++ ((← cstr data.username) ++ [44]))

/-- `get_active_users_str`; there is no result when the walk waits for the lock for ever. -/
def getActiveUsersStr (activeSockets : HashmapMap ClientThreadData) :
    Option (Except Fault (List Byte)) :=
  (hashmapIterate activeSockets activeSocketWalkEntry (.ok [])).map fun (_, file, _) => do
    return (fgetsLines 1024 (← file)).headD []

/-- The answer of the `ACTIVE_LIST` case. -/
def activeListReply (recv : Mainhdr) (activeStr : List Byte) : Mainhdr :=
  { createAndFillHdr ACTIVE_LIST 0 recv.uid (UInt32.ofNat activeStr.length) with
    payload := activeStr }

def answerActiveList (activeSockets : HashmapMap ClientThreadData) (recv : Mainhdr) :
    Option (Except Fault Mainhdr) :=
  (getActiveUsersStr activeSockets).map fun r => r.map (activeListReply recv)

/-! ## Registries -/

/-- The name a username array holds. -/
def ClientThreadData.name (user : ClientThreadData) : List Byte := user.username.takeWhile (· ≠ 0)

/-- A username of 1 to 7 bytes that is no two names and ends no line. -/
structure PlainName (user : ClientThreadData) : Prop where
  terminated : 0 ∈ user.username
  nonempty : 1 ≤ user.name.length
  short : user.name.length ≤ 7
  newline_not_mem : newline ∉ user.name
  comma_not_mem : (44 : Byte) ∉ user.name

/-- A registry nobody is using, whose counter is not behind, with users that have such names. -/
structure OnlineUsers where
  activeSockets : HashmapMap ClientThreadData
  unlocked : activeSockets.lock = false
  counted : (entries activeSockets.slots).length ≤ activeSockets.size
  online : ∀ e ∈ entries activeSockets.slots, ∃ user, e.2 = some user ∧ PlainName user

/-- The users of a registry, each as often as it has a slot. -/
def OnlineUsers.users (r : OnlineUsers) : List ClientThreadData :=
  (entries r.activeSockets.slots).filterMap Prod.snd

/-- The names, each with its comma. -/
def nameList (users : List ClientThreadData) : List Byte :=
  users.flatMap fun user => user.name ++ [44]

/-- The answer lists every user of the registry. -/
def CompleteList (r : OnlineUsers) (recv : Mainhdr) : Prop :=
  ∃ reply, answerActiveList r.activeSockets recv = some (.ok reply) ∧
    reply.payload = nameList r.users

/-! ## What the answer is -/

theorem PlainName.cstr {user : ClientThreadData} (plain : PlainName user) :
    cstr user.username = .ok user.name := by
  rw [Posix.cstr, if_pos plain.terminated]
  rfl

theorem nameList_cons (user : ClientThreadData) (users : List ClientThreadData) :
    nameList (user :: users) = user.name ++ ([44] ++ nameList users) := by
  rw [nameList, List.flatMap_cons, List.append_assoc]
  rfl

theorem newline_not_mem_nameList {users : List ClientThreadData}
    (hplain : ∀ user ∈ users, PlainName user) : newline ∉ nameList users := by
  intro h
  obtain ⟨user, huser, hmem⟩ := List.mem_flatMap.mp h
  rcases List.mem_append.mp hmem with hname | hcomma
  · exact (hplain user huser).newline_not_mem hname
  · exact absurd (List.mem_singleton.mp hcomma) (by decide)

/-- What the walk writes, entry by entry. -/
theorem walk_users {users : List ClientThreadData} (hplain : ∀ user ∈ users, PlainName user)
    (file : List Byte) :
    (users.map some).foldl (fun param value => (activeSocketWalkEntry param value).2) (.ok file) =
      .ok (file ++ nameList users) := by
  induction users generalizing file with
  | nil => rw [nameList, List.flatMap_nil, List.append_nil, List.map_nil, List.foldl_nil]
  | cons user users ih =>
      have hname := (hplain user List.mem_cons_self).cstr
      have hrest : ∀ u ∈ users, PlainName u := fun u hu => hplain u (List.mem_cons_of_mem user hu)
      have hentry : (activeSocketWalkEntry (.ok file) (some user)).2 =
          .ok (file ++ (user.name ++ [44])) := by
        rw [activeSocketWalkEntry]
        simp only [ok_bind, hname]
        rfl
      rw [List.map_cons, List.foldl_cons, hentry, ih hrest, nameList_cons]
      simp only [List.append_assoc]

namespace OnlineUsers

variable (r : OnlineUsers)

theorem entries_eq : (entries r.activeSockets.slots).map Prod.snd = r.users.map some := by
  have honline := r.online
  rw [users]
  generalize entries r.activeSockets.slots = slots at honline ⊢
  induction slots with
  | nil => rfl
  | cons e rest ih =>
      obtain ⟨user, huser, -⟩ := honline e List.mem_cons_self
      rw [List.map_cons, ih fun e he => honline e (List.mem_cons_of_mem _ he),
        List.filterMap_cons_some huser, List.map_cons, huser]

theorem plain {user : ClientThreadData} (h : user ∈ r.users) : PlainName user := by
  obtain ⟨e, he, huser⟩ := List.mem_filterMap.mp h
  obtain ⟨user', huser', hplain⟩ := r.online e he
  rw [huser] at huser'
  cases huser'
  exact hplain

/-- The answer is as much of the list as one line holds. -/
theorem answer_eq (recv : Mainhdr) : answerActiveList r.activeSockets recv =
    some (.ok (activeListReply recv ((nameList r.users).take 1023))) := by
  have hgoes : ∀ param value, activeSocketWalkEntry param value =
      (MAP_OK, (activeSocketWalkEntry param value).2) := fun _ _ => rfl
  obtain ⟨status, hiterate⟩ := hashmapIterate_walk hgoes r.unlocked r.counted (.ok [])
  rw [entries_eq, walk_users fun user => r.plain, List.nil_append] at hiterate
  rw [answerActiveList, getActiveUsersStr, hiterate]
  simp only [Option.map_some, ok_bind]
  rw [fgetsLines_headD (by decide) (newline_not_mem_nameList fun user => r.plain)]
  rfl

end OnlineUsers

theorem completeList_of_fits {r : OnlineUsers} (hfits : (nameList r.users).length ≤ 1023)
    (recv : Mainhdr) : CompleteList r recv :=
  ⟨_, r.answer_eq recv, List.take_of_length_le hfits⟩

theorem fits_of_completeList {r : OnlineUsers} {recv : Mainhdr} (h : CompleteList r recv) :
    (nameList r.users).length ≤ 1023 := by
  obtain ⟨reply, hreply, hpayload⟩ := h
  rw [r.answer_eq] at hreply
  cases hreply
  exact List.take_eq_self_iff _ |>.mp hpayload

/-- The answer is complete exactly when the names, with their commas, fit in a line. -/
theorem completeList_iff (r : OnlineUsers) (recv : Mainhdr) :
    CompleteList r recv ↔ (nameList r.users).length ≤ 1023 := by
  constructor
  · exact fits_of_completeList
  · intro hfits
    exact completeList_of_fits hfits recv

/-! ## The handler of the server -/

/-- The walk over the finite map of the server model. -/
theorem activeSocketWalk_eq {s : Server} {conns : List ConnId} {users : List ClientThreadData}
    (hplain : ∀ user ∈ users, PlainName user)
    (hconns : conns.map (fun d => (s.thread d).map ClientThread.data) = users.map some) :
    activeSocketWalk s conns = .ok (nameList users) := by
  induction conns generalizing users with
  | nil =>
      rw [List.map_nil, eq_comm, List.map_eq_nil_iff] at hconns
      rw [hconns]
      rfl
  | cons d conns ih =>
      cases users with
      | nil => cases hconns
      | cons user users =>
          rw [List.map_cons, List.map_cons, List.cons.injEq] at hconns
          obtain ⟨thread, hthread, rfl⟩ := Option.map_eq_some_iff.mp hconns.1
          have hname := (hplain _ List.mem_cons_self).cstr
          have hrest := ih (fun u hu => hplain u (List.mem_cons_of_mem _ hu)) hconns.2
          rw [activeSocketWalk, hthread]
          simp only [hname, hrest, ok_bind]
          rw [nameList_cons]
          rfl

/-- The handler answers with the same line. -/
theorem onActiveList_eq {s : Server} {users : List ClientThreadData}
    (hplain : ∀ user ∈ users, PlainName user)
    (hthreads : (s.activeSockets.entries.map Sigma.snd).map
      (fun d => (s.thread d).map ClientThread.data) = users.map some)
    (c : ConnId) (recv : Mainhdr) :
    onActiveList s c recv =
      .ok ([.packet c (activeListReply recv ((nameList users).take 1023))],
        { s with files := s.files.insert ACTIVE_USER_FILE_NAME (nameList users) }) := by
  rw [onActiveList, activeSocketWalk_eq hplain hthreads, ok_bind,
    fgetsLines_headD (by decide) (newline_not_mem_nameList hplain)]
  rfl

/-! ## How many users fit -/

theorem length_nameList (users : List ClientThreadData) :
    (nameList users).length = (users.map fun user => user.name.length + 1).sum := by
  rw [nameList, List.length_flatMap]
  simp only [List.length_append, List.length_singleton]

theorem length_nameList_le {users : List ClientThreadData} {k : Nat}
    (h : ∀ user ∈ users, user.name.length ≤ k) :
    (nameList users).length ≤ users.length * (k + 1) := by
  have hsum := List.sum_le_card_nsmul (users.map fun user => user.name.length + 1) (k + 1) <| by
    rw [List.forall_mem_map]
    exact fun user huser => Nat.succ_le_succ (h user huser)
  rw [length_nameList]
  simpa only [List.length_map, smul_eq_mul] using hsum

theorem le_length_nameList {users : List ClientThreadData} {k : Nat}
    (h : ∀ user ∈ users, k ≤ user.name.length) :
    users.length * (k + 1) ≤ (nameList users).length := by
  have hsum := List.card_nsmul_le_sum (users.map fun user => user.name.length + 1) (k + 1) <| by
    rw [List.forall_mem_map]
    exact fun user huser => Nat.succ_le_succ (h user huser)
  rw [length_nameList]
  simpa only [List.length_map, smul_eq_mul] using hsum

/-- Up to 127 users are listed, whatever their names are. -/
theorem complete_of_few {r : OnlineUsers} (hfew : r.users.length ≤ 127) (recv : Mainhdr) :
    CompleteList r recv := by
  have hshort : ∀ user ∈ r.users, user.name.length ≤ 7 := fun _ huser => (r.plain huser).short
  have hlen := length_nameList_le hshort
  exact completeList_of_fits (by omega) recv

/-! ## Users that log in one after the other -/

/-- The calls of these logins. -/
def loginCalls (users : List (UInt64 × ClientThreadData)) : List (RegistryCall ClientThreadData) :=
  users.map fun u => .put true u.1 (some u.2)

theorem registered_logins {users : List (UInt64 × ClientThreadData)}
    (hdistinct : (users.map Prod.fst).Nodup) {key : UInt64} {value : AnyT ClientThreadData} :
    registered (loginCalls users) key = some value ↔
      (key, value) ∈ users.map fun u => (u.1, some u.2) := by
  induction users using List.reverseRecOn with
  | nil =>
      constructor
      · intro h
        cases h
      · intro h
        cases h
  | append_singleton users u ih =>
      rw [List.map_append, List.nodup_append] at hdistinct
      obtain ⟨hbefore, -, hnew⟩ := hdistinct
      rw [loginCalls, List.map_append, List.map_singleton, registered_append, RegistryCall.apply,
        List.map_append, List.map_singleton, List.mem_append, List.mem_singleton, ← ih hbefore]
      by_cases hkey : key = u.1
      · have hnone : ¬ registered (loginCalls users) key = some value := by
          rw [ih hbefore]
          intro hmem
          obtain ⟨u', hu', heq⟩ := List.mem_map.mp hmem
          exact hnew u'.1 (List.mem_map_of_mem hu') u.1 (by simp) ((Prod.mk.inj heq).1.trans hkey)
        rw [hkey] at hnone ⊢
        rw [Function.update_self, Option.some.injEq, Prod.mk.injEq]
        tauto
      · rw [Function.update_of_ne hkey, Prod.mk.injEq, loginCalls]
        tauto

/-- They leave a table with exactly these users. -/
theorem exists_of_logins {users : List (UInt64 × ClientThreadData)}
    (hfew : users.length < INITIAL_SIZE) (hdistinct : (users.map Prod.fst).Nodup) :
    ∃ h m, Run (registryStep 1) hashmapNew h m ∧ events h = loginCalls users ∧
      Faithful (loginCalls users) m := by
  induction users using List.reverseRecOn with
  | nil => exact ⟨[], hashmapNew, .start, rfl, faithful_new⟩
  | append_singleton users u ih =>
      have hbefore : (users.map Prod.fst).Nodup := by
        rw [List.map_append, List.nodup_append] at hdistinct
        exact hdistinct.1
      rw [List.length_append, List.length_singleton] at hfew
      obtain ⟨h, m, run, hevents, faithful⟩ := ih (by omega) hbefore
      have hgap : NoGap m.hash m.slots u.1 := by
        intro p hp
        have hsome := faithful.holds_iff_registered.mp ⟨p, hp⟩
        obtain ⟨value, hvalue⟩ := Option.isSome_iff_exists.mp hsome
        obtain ⟨u', hu', heq⟩ := List.mem_map.mp ((registered_logins hbefore).mp hvalue)
        rw [List.map_append, List.nodup_append] at hdistinct
        exact absurd (Prod.mk.inj heq).1
          (hdistinct.2.2 u'.1 (List.mem_map_of_mem hu') u.1 (by simp))
      have hcalls : loginCalls (users ++ [u]) = loginCalls users ++ [.put true u.1 (some u.2)] :=
        List.map_append
      have hcount : FewPuts (loginCalls users ++ [.put true u.1 (some u.2)]) := by
        rw [FewPuts, ← hcalls]
        refine lt_of_le_of_lt List.countP_le_length ?_
        rw [loginCalls, List.length_map, List.length_append, List.length_singleton]
        exact hfew
      obtain ⟨r, m', hstep, faithful'⟩ := faithful.step 0 hcount hgap
      exact ⟨_, m', run.next hstep, by rw [events_append, hevents, hcalls], hcalls ▸ faithful'⟩

theorem entries_logins {users : List (UInt64 × ClientThreadData)}
    (hdistinct : (users.map Prod.fst).Nodup) {m : HashmapMap ClientThreadData}
    (faithful : Faithful (loginCalls users) m) :
    (entries m.slots).Perm (users.map fun u => (u.1, some u.2)) := by
  have hentries : (entries m.slots).Nodup := (nodup_keys_iff.mpr faithful.distinct).of_map
  have husers : (users.map fun u => (u.1, some u.2)).Nodup := by
    refine List.Nodup.of_map Prod.fst ?_
    rw [List.map_map]
    exact hdistinct
  rw [List.perm_ext_iff_of_nodup hentries husers]
  intro e
  rw [← registered_logins hdistinct]
  exact faithful.registered e.1 e.2

/-- A registry that users with such names make by logging in. -/
theorem list_of_logins {users : List (UInt64 × ClientThreadData)}
    (hfew : users.length < INITIAL_SIZE) (hdistinct : (users.map Prod.fst).Nodup)
    (hplain : ∀ u ∈ users, PlainName u.2) :
    ∃ r : OnlineUsers, r.users.Perm (users.map Prod.snd) := by
  obtain ⟨h, m, -, -, faithful⟩ := exists_of_logins hfew hdistinct
  have hperm := entries_logins hdistinct faithful
  have honline : ∀ e ∈ entries m.slots, ∃ user, e.2 = some user ∧ PlainName user := by
    intro e he
    obtain ⟨u, hu, rfl⟩ := List.mem_map.mp (hperm.mem_iff.mp he)
    exact ⟨u.2, rfl, hplain u hu⟩
  refine ⟨⟨m, faithful.unlocked, faithful.counted, honline⟩, ?_⟩
  have hsnd := hperm.filterMap Prod.snd
  rw [List.filterMap_map] at hsnd
  rw [← List.filterMap_eq_map]
  exact hsnd

/-- 128 users with names of seven bytes. -/
def fullHouse : List (UInt64 × ClientThreadData) :=
  (List.range 128).map fun i =>
    (UInt64.ofNat (i + 1), ⟨UInt16.ofNat (i + 1), List.replicate 7 97 ++ [0]⟩)

/-- They do not fit in the line. -/
theorem list_cut_short : ¬ ∀ (r : OnlineUsers) (recv : Mainhdr), CompleteList r recv := by
  intro h
  have hname : ∀ u ∈ fullHouse, u.2.username = List.replicate 7 97 ++ [0] := by
    intro u hu
    obtain ⟨i, -, rfl⟩ := List.mem_map.mp hu
    rfl
  have hplain : ∀ u ∈ fullHouse, PlainName u.2 := by
    intro u hu
    have huser := hname u hu
    constructor <;> simp only [ClientThreadData.name, huser] <;> decide
  have hmany : fullHouse.length = 128 := by
    rw [fullHouse, List.length_map, List.length_range]
  have hdistinct : (fullHouse.map Prod.fst).Nodup := by
    rw [fullHouse, List.map_map]
    refine List.nodup_range.map_on fun i hi j hj heq => ?_
    have hkeys := congrArg UInt64.toNat heq
    rw [List.mem_range] at hi hj
    simp only [Function.comp_apply, UInt64.toNat_ofNat'] at hkeys
    omega
  obtain ⟨r, hperm⟩ := list_of_logins (by rw [hmany]; decide) hdistinct hplain
  have hlong : ∀ user ∈ r.users, 7 ≤ user.name.length := by
    intro user huser
    obtain ⟨u, hu, rfl⟩ := List.mem_map.mp (hperm.mem_iff.mp huser)
    rw [ClientThreadData.name, hname u hu]
    decide
  have hlen := le_length_nameList hlong
  have hcount := hperm.length_eq
  rw [List.length_map, hmany] at hcount
  have hfits := fits_of_completeList (h r ⟨ACTIVE_LIST, 0, 1, 0, []⟩)
  omega

end GroupChat
