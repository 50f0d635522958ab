import GroupChat.Credential.Accounts
import GroupChat.Lts.Run

/-!
# The accounts that `create_user` has written

A `Ledger` is what the file holds after any number of creations: the uids count from 1, every
line fits the buffer, and no stored name is a prefix of a later one, because `create_user`
refuses a username that has a stored name as a prefix. On the file of a ledger `create_user`
either refuses and leaves it alone or extends the ledger (`createUser_refused`,
`createUser_extends`). The last part runs `create_user` from the empty file and compares the
lookups at any later point with what was created (`lookups_agree`).
-/

namespace GroupChat

open Posix

structure Ledger where
  entries : List Entry
  numbered : entries.map Entry.uid = List.range' 1 entries.length
  name_lt : ∀ e ∈ entries, e.name.length < MAX_CHAR_USERID
  password_lt : ∀ e ∈ entries, e.password.length < MAX_CHAR_USERPASS
  unshadowed : entries.Pairwise fun e e' => ¬ e.name <+: e'.name

namespace Ledger

def file (L : Ledger) : CredentialFile := ⟨fileOf L.entries, 0⟩

def empty : Ledger where
  entries := []
  numbered := rfl
  name_lt _ he := absurd he List.not_mem_nil
  password_lt _ he := absurd he List.not_mem_nil
  unshadowed := List.Pairwise.nil

theorem fits {L : Ledger} {e : Entry} (he : e ∈ L.entries) : e.Fits :=
  Entry.fits_of_lt (L.name_lt e he) (L.password_lt e he)

theorem lines_file (L : Ledger) : L.file.lines = L.entries.map Entry.line :=
  lines_fileOf_fits (fun _ he => fits he) 0

theorem length_lines (L : Ledger) : L.file.lines.length = L.entries.length := by
  rw [lines_file, List.length_map]

theorem uid_of_getElem? {L : Ledger} {i : Nat} {e : Entry} (h : L.entries[i]? = some e) :
    e.uid = i + 1 := by
  have huid : (L.entries.map Entry.uid)[i]? = some e.uid := by rw [List.getElem?_map, h]; rfl
  have hi := (List.getElem?_eq_some_iff.mp h).1
  rw [L.numbered, List.getElem?_range' hi] at huid
  have hval := Option.some.inj huid
  omega

theorem uid_le {L : Ledger} {e : Entry} (he : e ∈ L.entries) : e.uid ≤ L.entries.length := by
  obtain ⟨i, hi⟩ := List.mem_iff_getElem?.mp he
  have hlt := (List.getElem?_eq_some_iff.mp hi).1
  rw [uid_of_getElem? hi]
  exact hlt

theorem eq_of_uid {L : Ledger} {e e' : Entry} (he : e ∈ L.entries) (he' : e' ∈ L.entries)
    (h : e.uid = e'.uid) : e = e' := by
  refine List.inj_on_of_nodup_map ?_ he he' h
  rw [L.numbered]
  exact List.nodup_range'

/-- `create_user` finds a stored name that is a prefix of the username. -/
def Refuses (L : Ledger) (username : List Byte) : Prop :=
  ∃ e ∈ L.entries, e.name <+: username ∧ e.uid + 1 < 2 ^ 31

/-- No stored name is a prefix of the username, and there is a uid left. -/
def Admits (L : Ledger) (username : List Byte) : Prop :=
  (∀ e ∈ L.entries, ¬ e.name <+: username) ∧ L.entries.length + 1 < 2 ^ 31

theorem refuses_or_admits {L : Ledger} (hcount : L.entries.length + 1 < 2 ^ 31)
    (username : List Byte) : L.Refuses username ∨ L.Admits username := by
  by_cases h : ∃ e ∈ L.entries, e.name <+: username
  · obtain ⟨e, he, hprefix⟩ := h
    exact Or.inl ⟨e, he, hprefix, Nat.lt_of_le_of_lt (Nat.succ_le_succ (uid_le he)) hcount⟩
  · exact Or.inr ⟨fun e he hprefix => h ⟨e, he, hprefix⟩, hcount⟩

/-- The ledger with one more account. -/
def extend (L : Ledger) (e : Entry) (huid : e.uid = L.entries.length + 1)
    (hname : e.name.length < MAX_CHAR_USERID) (hpassword : e.password.length < MAX_CHAR_USERPASS)
    (hfree : L.Admits e.name) : Ledger where
  entries := L.entries ++ [e]
  numbered := by
    rw [List.map_append, L.numbered, List.length_append, List.length_singleton,
      List.range'_1_concat, List.map_singleton, huid, Nat.add_comm 1]
  name_lt := by
    intro e' he'
    obtain he' | he' := List.mem_append.mp he'
    · exact L.name_lt e' he'
    · exact List.mem_singleton.mp he' ▸ hname
  password_lt := by
    intro e' he'
    obtain he' | he' := List.mem_append.mp he'
    · exact L.password_lt e' he'
    · exact List.mem_singleton.mp he' ▸ hpassword
  unshadowed := by
    refine List.pairwise_append.mpr ⟨L.unshadowed, List.pairwise_singleton _ _, ?_⟩
    intro e₁ he₁ e₂ he₂
    obtain rfl := List.mem_singleton.mp he₂
    exact hfree.1 e₁ he₁

theorem file_extend {L : Ledger} {e : Entry} {huid hname hpassword hfree} :
    (L.extend e huid hname hpassword hfree).file = ⟨fileOf L.entries ++ e.line, 0⟩ := by
  rw [file, extend, fileOf, List.flatMap_append, List.flatMap_singleton]
  rfl

end Ledger

/-! ## `create_user` on a ledger -/

theorem createUser_eq (username password : List Byte) (f : CredentialFile) :
    createUser username password f =
      (createUserLoop username f.lines 1 >>= fun found =>
        match found with
        | none => .ok (ERR_USERNAME_EXIST, f)
        | some count => do
          let line := credentialLine count (← cstr username) (← cstr password)
          return ((count : Int), { f with content := f.content ++ line })) := by
  change (createUserLoop username f.lines 1 >>= _) = _
  cases createUserLoop username f.lines 1 with
  | error fault => rfl
  | ok found => cases found <;> rfl

/-- `create_user` returns on a ledger exactly when it refuses the username or adds a line for
it. -/
theorem createUser_ok_iff {L : Ledger} {username password : Argument} {k : Int}
    {f : CredentialFile} :
    createUser username.buf password.buf L.file = .ok (k, f) ↔
      (L.Refuses username.str ∧ k = ERR_USERNAME_EXIST ∧ f = L.file) ∨
      (L.Admits username.str ∧ k = L.entries.length + 1 ∧ f = ⟨fileOf L.entries ++
        credentialLine (L.entries.length + 1) username.str password.str, 0⟩) := by
  have hnone : createUserLoop username.buf (L.entries.map Entry.line) 1 = .ok none ↔
      L.Refuses username.str := by
    rw [Argument.buf, createUserLoop_none_iff username.nul_not_mem]
    constructor
    · rintro ⟨i, e, he, hprefix, hi⟩
      exact ⟨e, List.mem_of_getElem? he, hprefix, by rw [Ledger.uid_of_getElem? he]; omega⟩
    · rintro ⟨e, he, hprefix, hlt⟩
      obtain ⟨i, hi⟩ := List.mem_iff_getElem?.mp he
      rw [Ledger.uid_of_getElem? hi] at hlt
      exact ⟨i, e, hi, hprefix, by omega⟩
  have hsome : ∀ c, createUserLoop username.buf (L.entries.map Entry.line) 1 = .ok (some c) ↔
      L.Admits username.str ∧ c = L.entries.length + 1 := by
    intro c
    rw [Argument.buf, createUserLoop_some_iff username.nul_not_mem _ (by decide), Ledger.Admits]
    constructor
    · rintro ⟨hno, hc, hlt⟩
      exact ⟨⟨hno, by omega⟩, by omega⟩
    · rintro ⟨⟨hno, hlt⟩, hc⟩
      exact ⟨hno, by omega, by omega⟩
  rw [createUser_eq, L.lines_file]
  constructor
  · intro h
    cases hloop : createUserLoop username.buf (L.entries.map Entry.line) 1 with
    | error fault =>
        rw [hloop] at h
        cases h
    | ok found =>
        rw [hloop] at h
        cases found with
        | none =>
            obtain ⟨rfl, rfl⟩ := Prod.mk.inj (Except.ok.inj h)
            exact Or.inl ⟨hnone.mp hloop, rfl, rfl⟩
        | some c =>
            obtain ⟨hadmits, rfl⟩ := (hsome c).mp hloop
            simp only [bind, Except.bind, username.cstr_buf, password.cstr_buf] at h
            obtain ⟨rfl, rfl⟩ := Prod.mk.inj (Except.ok.inj h)
            exact Or.inr ⟨hadmits, by push_cast; rfl, rfl⟩
  · rintro (⟨hrefuses, rfl, rfl⟩ | ⟨hadmits, rfl, rfl⟩)
    · rw [hnone.mpr hrefuses]
      rfl
    · rw [(hsome _).mpr ⟨hadmits, rfl⟩]
      simp only [bind, Except.bind, username.cstr_buf, password.cstr_buf]
      push_cast
      rfl

/-! ## Creations from the empty file -/

/-- Arguments of `create_user` with 1 to 7 and 1 to 127 bytes that none of the scanners cuts
at. -/
structure Registration where
  username : Argument
  password : Argument
  username_ne : username.str ≠ []
  password_ne : password.str ≠ []
  username_lt : username.str.length < MAX_CHAR_USERID
  password_lt : password.str.length < MAX_CHAR_USERPASS
  username_plain : Plain username.str
  password_plain : Plain password.str

def createStep (f : CredentialFile) (r : Registration) : Except Fault (Int × CredentialFile) :=
  createUser r.username.buf r.password.buf f

/-- The creations that lead from the empty file to this one. -/
abbrev Creations (h : List (Lts.Taken CredentialFile Registration Int)) (f : CredentialFile) :
    Prop :=
  Lts.Run createStep ⟨[], 0⟩ h f

/-- The file is a ledger in which every successful creation so far has its account. -/
def Recorded (h : List (Lts.Taken CredentialFile Registration Int)) (f : CredentialFile) : Prop :=
  ∃ L : Ledger, f = L.file ∧ ∀ x ∈ h, 0 < x.out → ∃ e ∈ L.entries, (e.uid : Int) = x.out ∧
    e.name = x.event.username.str ∧ e.password = x.event.password.str

theorem createStep_refused {L : Ledger} {r : Registration} (h : L.Refuses r.username.str) :
    createStep L.file r = .ok (ERR_USERNAME_EXIST, L.file) :=
  createUser_ok_iff.mpr (Or.inl ⟨h, rfl, rfl⟩)

def Registration.entry (r : Registration) (L : Ledger) (h : L.Admits r.username.str) : Entry :=
  ⟨L.entries.length + 1, r.username.str, r.password.str, Nat.succ_pos _, h.2, r.username_ne,
    r.username_plain, r.password_plain⟩

/-- The ledger after the creation of an account. -/
def Registration.extend (r : Registration) (L : Ledger) (h : L.Admits r.username.str) : Ledger :=
  L.extend (r.entry L h) rfl r.username_lt r.password_lt h

theorem Registration.file_extend {r : Registration} {L : Ledger} (h : L.Admits r.username.str) :
    (r.extend L h).file = ⟨fileOf L.entries ++
      credentialLine (L.entries.length + 1) r.username.str r.password.str, 0⟩ :=
  Ledger.file_extend

theorem createStep_admitted {L : Ledger} {r : Registration} (h : L.Admits r.username.str) :
    createStep L.file r = .ok (L.entries.length + 1, (r.extend L h).file) :=
  createUser_ok_iff.mpr (Or.inr ⟨h, rfl, r.file_extend h⟩)

/-- As long as there are uids left, `create_user` returns. -/
theorem createStep_returns {L : Ledger} (hcount : L.entries.length + 1 < 2 ^ 31)
    (r : Registration) : ∃ k f, createStep L.file r = .ok (k, f) := by
  obtain hrefuses | hadmits := L.refuses_or_admits hcount r.username.str
  · exact ⟨_, _, createStep_refused hrefuses⟩
  · exact ⟨_, _, createStep_admitted hadmits⟩

theorem recorded_creations {h : List (Lts.Taken CredentialFile Registration Int)}
    {f : CredentialFile} (run : Creations h f) : Recorded h f := by
  refine run.invariant ⟨Ledger.empty, rfl, fun x hx => absurd hx List.not_mem_nil⟩ ?_
  rintro h f r k f' - ⟨L, rfl, hrecorded⟩ taken
  obtain ⟨hrefuses, rfl, rfl⟩ | ⟨hadmits, rfl, rfl⟩ := createUser_ok_iff.mp taken
  · refine ⟨L, rfl, fun x hx hpos => ?_⟩
    obtain hx | hx := List.mem_append.mp hx
    · exact hrecorded x hx hpos
    · obtain rfl := List.mem_singleton.mp hx
      exact absurd hpos (show ¬ (0 : Int) < ERR_USERNAME_EXIST by decide)
  · refine ⟨r.extend L hadmits, (r.file_extend hadmits).symm, fun x hx hpos => ?_⟩
    obtain hx | hx := List.mem_append.mp hx
    · obtain ⟨e, he, hsame⟩ := hrecorded x hx hpos
      exact ⟨e, List.mem_append_left _ he, hsame⟩
    · obtain rfl := List.mem_singleton.mp hx
      exact ⟨r.entry L hadmits, List.mem_append_right _ List.mem_cons_self, rfl, rfl, rfl⟩

/-! ## The lookups -/

/-- The first entry whose name is a prefix of a stored name is the one with that name. -/
theorem Ledger.find?_prefix {L : Ledger} {e : Entry} (he : e ∈ L.entries) {q : Entry → Bool}
    (hq : q e = true) (himp : ∀ e', q e' = true → e'.name <+: e.name) :
    L.entries.find? q = some e := by
  obtain ⟨before, after, hsplit⟩ := List.append_of_mem he
  refine List.find?_eq_some_iff_append.mpr ⟨hq, before, after, hsplit, fun e' he' => ?_⟩
  have hpair := L.unshadowed
  rw [hsplit] at hpair
  have hno := (List.pairwise_append.mp hpair).2.2 e' he' e List.mem_cons_self
  cases hqe : q e' with
  | false => rfl
  | true => exact absurd (himp e' hqe) hno

/-- The three lookups find the account `k` of `u` and `p`. -/
def LooksUp (f : CredentialFile) (u p : List Byte) (k : Int) : Prop :=
  (∀ username : Argument, username.str = u → findUid username.buf f = .ok (k, f)) ∧
  findUsername (UInt16.ofInt k) (List.replicate MAX_CHAR_USERID 0) f =
    .ok (u.length, u ++ List.replicate (MAX_CHAR_USERID - u.length) 0, f.fopen) ∧
  (∀ username password : Argument, username.str = u → password.str = p →
    matchUserPw username.buf password.buf f = .ok (k, f))

theorem Ledger.findUid_file {L : Ledger} {e : Entry} (he : e ∈ L.entries) {username : Argument}
    (hname : username.str = e.name) : findUid username.buf L.file = .ok (e.uid, L.file) := by
  have hfind : L.entries.find? (fun e' => e'.name <+: username.str) = some e := by
    rw [hname]
    exact L.find?_prefix he (by simp) (fun e' h => by simpa using h)
  rw [findUid_eq, L.lines_file, Argument.buf, findUidLoop_fileOf username.nul_not_mem, hfind]
  rfl

theorem Ledger.matchUserPw_file {L : Ledger} {e : Entry} (he : e ∈ L.entries)
    {username password : Argument} (hname : username.str = e.name)
    (hpassword : password.str = e.password) :
    matchUserPw username.buf password.buf L.file = .ok (e.uid, L.file) := by
  have hfind : L.entries.find?
      (fun e' => e'.name <+: username.str ∧ e'.password <+: password.str) = some e := by
    rw [hname, hpassword]
    refine L.find?_prefix he (by simp) (fun e' h => ?_)
    exact (of_decide_eq_true h).1
  rw [matchUserPw_eq, L.lines_file, Argument.buf, Argument.buf,
    matchUserPwLoop_fileOf username.nul_not_mem password.nul_not_mem, hfind]
  rfl

theorem Ledger.findUsername_file {L : Ledger} {e : Entry} (he : e ∈ L.entries) {inId : UInt16}
    (hid : inId.toNat = e.uid) :
    findUsername inId (List.replicate MAX_CHAR_USERID 0) L.file =
      .ok (e.name.length, e.name ++ List.replicate (MAX_CHAR_USERID - e.name.length) 0,
        L.file.fopen) := by
  have hfind : L.entries.find? (fun e' => e'.uid = inId.toNat) = some e := by
    obtain ⟨before, after, hsplit⟩ := List.append_of_mem he
    refine List.find?_eq_some_iff_append.mpr ⟨decide_eq_true hid.symm, before, after, hsplit, ?_⟩
    intro e' he'
    have hnodup : (L.entries.map Entry.uid).Nodup := L.numbered ▸ List.nodup_range'
    rw [hsplit, List.map_append, List.map_cons] at hnodup
    have hne : e'.uid ≠ e.uid :=
      (List.nodup_append.mp hnodup).2.2 _ (List.mem_map_of_mem he') _ List.mem_cons_self
    simpa [hid] using hne
  have hpad : (e.name ++ List.replicate MAX_CHAR_USERID 0).take MAX_CHAR_USERID =
      e.name ++ List.replicate (MAX_CHAR_USERID - e.name.length) (0 : Byte) := by
    rw [List.take_append, List.take_of_length_le (L.name_lt e he).le, List.take_replicate]
    congr 2
    omega
  rw [findUsername_eq, L.lines_file,
    findUsernameLoop_fileOf inId List.length_replicate L.name_lt, hfind]
  simp only [hpad]
  rfl

/-- Every account that `create_user` returned is found again by the three lookups at every
later point. -/
theorem lookups_agree {h : List (Lts.Taken CredentialFile Registration Int)} {f : CredentialFile}
    (run : Creations h f) (hcount : f.lines.length ≤ 65535)
    {x : Lts.Taken CredentialFile Registration Int} (hx : x ∈ h) (hpos : 0 < x.out) :
    LooksUp f x.event.username.str x.event.password.str x.out := by
  obtain ⟨L, rfl, hrecorded⟩ := recorded_creations run
  obtain ⟨e, he, huid, hname, hpassword⟩ := hrecorded x hx hpos
  rw [L.length_lines] at hcount
  have hle := Ledger.uid_le he
  have hid : (UInt16.ofInt x.out).toNat = e.uid := by
    rw [← huid, UInt16.ofInt, UInt16.toNat_ofNat']
    omega
  rw [← huid, ← hname, ← hpassword]
  refine ⟨fun username hsame => ?_, ?_, fun username password hsame hsame' => ?_⟩
  · exact Ledger.findUid_file he hsame
  · rw [huid]
    exact Ledger.findUsername_file he hid
  · exact Ledger.matchUserPw_file he hsame hsame'

/-- `bob` registers with password `pw`. -/
def bobRegistration : Registration where
  username := ⟨[98, 111, 98], [0, 0, 0, 0], by decide⟩
  password := ⟨[112, 119], [0], by decide⟩
  username_ne := by decide
  password_ne := by decide
  username_lt := by decide
  password_lt := by decide
  username_plain := ⟨by decide, by decide, by decide⟩
  password_plain := ⟨by decide, by decide, by decide⟩

/-- `ann` registers with password `x`. -/
def annRegistration : Registration where
  username := ⟨[97, 110, 110], [0, 0, 0, 0], by decide⟩
  password := ⟨[120], [0], by decide⟩
  username_ne := by decide
  password_ne := by decide
  username_lt := by decide
  password_lt := by decide
  username_plain := ⟨by decide, by decide, by decide⟩
  password_plain := ⟨by decide, by decide, by decide⟩

def bobFile : CredentialFile := ⟨credentialLine 1 [98, 111, 98] [112, 119], 0⟩

def bobAnnFile : CredentialFile :=
  ⟨credentialLine 1 [98, 111, 98] [112, 119] ++ credentialLine 2 [97, 110, 110] [120], 0⟩

/-- `bob` registers, is refused the second time, and then `ann` registers. -/
theorem lookups_agree_bob : ∃ h, Creations h bobAnnFile ∧
    h.map Lts.Taken.out = [1, ERR_USERNAME_EXIST, 2] ∧
    LooksUp bobAnnFile [98, 111, 98] [112, 119] 1 ∧ LooksUp bobAnnFile [97, 110, 110] [120] 2 := by
  have first : createStep ⟨[], 0⟩ bobRegistration = .ok (1, bobFile) := by
    decide +kernel
  have again : createStep bobFile bobRegistration = .ok (ERR_USERNAME_EXIST, bobFile) := by
    decide +kernel
  have second : createStep bobFile annRegistration = .ok (2, bobAnnFile) := by
    decide +kernel
  have hcount : bobAnnFile.lines.length ≤ 65535 := by
    decide +kernel
  have run := ((Lts.Run.start.next first).next again).next second
  exact ⟨_, run, rfl,
    lookups_agree run hcount (x := ⟨⟨[], 0⟩, bobRegistration, 1, bobFile⟩) (by simp) (by decide),
    lookups_agree run hcount (x := ⟨bobFile, annRegistration, 2, bobAnnFile⟩) (by simp)
      (by decide)⟩

end GroupChat
