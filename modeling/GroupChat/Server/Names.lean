import GroupChat.Credential.Creation
import GroupChat.Credential.Soundness
import GroupChat.Server.History

/-!
# Names that are looked up

`find_uid` and `create_user` compare a stored name with the name asked for over the length of the
stored one. On a file with one account in each line both take the first line whose name is a prefix
of the name asked for. `exactName_iff` says that they look names up exactly when that name is the
name asked for itself; otherwise an invitation goes to someone else or a free name is refused, as
`bobby` is after `bob` has registered (`bobby_is_bob`).
-/

namespace GroupChat

open Posix

/-- A file with a uid and a name in each line, which tell the lines apart. -/
structure NamedFile where
  file : CredentialFile
  accounts : List Account
  lists : Lists file.lines accounts
  uid_pos : ∀ a ∈ accounts, 0 < a.uid
  newline_not_mem : ∀ a ∈ accounts, newline ∉ a.name
  uids : (accounts.map Account.uid).Nodup
  names : (accounts.map Account.name).Nodup

/-- A name of 1 to 7 bytes that can be stored. -/
structure QueriedName extends Argument where
  ne : str ≠ []
  short : str.length < MAX_CHAR_USERID
  plain : Plain str

/-- A name is looked up by equality: `find_uid` finds the line with this name, `create_user` refuses
a name that a line has, and an invitation goes to the account with the name in its payload. -/
structure ExactName (A : NamedFile) (q : QueriedName) : Prop where
  lookup : ∀ k, 0 < k →
    ((∃ f, findUid q.buf A.file = .ok (k, f)) ↔ ∃ a ∈ A.accounts, a.uid = k ∧ a.name = q.str)
  refusal : ∀ password : Argument,
    (∃ f, createUser q.buf password.buf A.file = .ok (ERR_USERNAME_EXIST, f)) ↔
      ∃ a ∈ A.accounts, a.name = q.str
  invitation : ∀ s c recv heap sent s' username fd hdr, s.credential = A.file →
    recv.cmd = INVITE → inviteName recv.toMainhdr = .ok username → cstr username = .ok q.str →
    step s (.received c recv heap) = .ok (sent, s') → .packet fd hdr ∈ sent → hdr.cmd = INVITE →
    ∃ a ∈ A.accounts, a.name = q.str ∧ s.activeSockets.lookup a.uid.toNat = some fd

/-- The first line whose name is a prefix of the name asked for. -/
def NamedFile.firstPrefix (A : NamedFile) (q : List Byte) : Option Account :=
  A.accounts.find? fun a => a.name <+: q

/-- The first stored name that is a prefix of the name asked for is that name, at a line that
`int count` can count. -/
def NameFirst (A : NamedFile) (q : List Byte) : Prop :=
  ∀ a, A.firstPrefix q = some a →
    a.name = q ∧ A.accounts.findIdx (fun a => a.name <+: q) + 2 < 2 ^ 31

/-! ## The two functions -/

section Lookups

variable {A : NamedFile}

theorem findUid_named {u : List Byte} (hu : 0 ∉ u) (junk : List Byte) :
    findUid (terminated u junk) A.file =
      .ok (match A.firstPrefix u with
        | none => ERR_GENERIC
        | some a => a.uid, A.file) := by
  rw [findUid_eq, findUidLoop_lists hu junk A.lists]
  rfl

theorem createUser_refuses_iff {username password : Argument} {f : CredentialFile} :
    (∃ f', createUser username.buf password.buf f = .ok (ERR_USERNAME_EXIST, f')) ↔
      createUserLoop username.buf f.lines 1 = .ok none := by
  rw [createUser_eq]
  constructor
  · rintro ⟨f', h⟩
    obtain ⟨found, hloop, h⟩ := bind_eq_ok.mp h
    cases found with
    | none => exact hloop
    | some count =>
        simp only [username.cstr_buf, password.cstr_buf] at h
        obtain ⟨hcount, -⟩ := Prod.mk.inj (Except.ok.inj h)
        rw [ERR_USERNAME_EXIST] at hcount
        omega
  · intro hloop
    rw [hloop]
    exact ⟨f, rfl⟩

theorem eq_of_name {a b : Account} (ha : a ∈ A.accounts) (hb : b ∈ A.accounts)
    (h : a.name = b.name) : a = b :=
  List.inj_on_of_nodup_map A.names ha hb h

theorem eq_of_account_uid {a b : Account} (ha : a ∈ A.accounts) (hb : b ∈ A.accounts)
    (h : a.uid = b.uid) : a = b :=
  List.inj_on_of_nodup_map A.uids ha hb h

theorem firstPrefix_spec {q : List Byte} {a : Account} (h : A.firstPrefix q = some a) :
    a ∈ A.accounts ∧ a.name <+: q := by
  refine ⟨List.mem_of_find?_eq_some h, ?_⟩
  simpa using List.find?_some h

/-- A line with the name is found by the scan for a prefix of it. -/
theorem firstPrefix_isSome {q : List Byte} {a : Account} (ha : a ∈ A.accounts)
    (hname : a.name <+: q) : ∃ b, A.firstPrefix q = some b := by
  cases hfirst : A.firstPrefix q with
  | some b => exact ⟨b, rfl⟩
  | none =>
      have hno := List.find?_eq_none.mp hfirst a ha
      exact absurd hname (by simpa using hno)

theorem getElem?_findIdx {q : List Byte} {a : Account} (h : A.firstPrefix q = some a) :
    A.accounts[A.accounts.findIdx fun a => a.name <+: q]? = some a := by
  rw [NamedFile.firstPrefix, List.find?_eq_some_iff_getElem] at h
  obtain ⟨hname, i, hi, hget, hbefore⟩ := h
  have hidx : A.accounts.findIdx (fun a => a.name <+: q) = i := by
    refine (List.findIdx_eq hi).mpr ⟨?_, ?_⟩
    · rw [hget]
      exact hname
    · intro j hj
      simpa using hbefore j hj
  rw [hidx, List.getElem?_eq_getElem hi, hget]

/-- The scan of `create_user` stops at the first prefix, if it can count that far. -/
theorem createUserLoop_none_named {u : List Byte} (hu : 0 ∉ u) (junk : List Byte) :
    createUserLoop (terminated u junk) A.file.lines 1 = .ok none ↔
      (∃ a, A.firstPrefix u = some a) ∧
        A.accounts.findIdx (fun a => a.name <+: u) + 2 < 2 ^ 31 := by
  rw [createUserLoop_none_lists hu junk A.lists]
  constructor
  · rintro ⟨i, a, ha, hpre, hi⟩
    refine ⟨firstPrefix_isSome (List.mem_of_getElem? ha) hpre, ?_⟩
    obtain ⟨hlt, hget⟩ := List.getElem?_eq_some_iff.mp ha
    have hle : A.accounts.findIdx (fun a => a.name <+: u) ≤ i := by
      by_contra hgt
      have hnot := List.not_of_lt_findIdx (Nat.lt_of_not_le hgt)
      rw [hget] at hnot
      simp [hpre] at hnot
    omega
  · rintro ⟨⟨a, ha⟩, hidx⟩
    exact ⟨_, a, getElem?_findIdx ha, (firstPrefix_spec ha).2, by omega⟩

/-- Where the first prefix is the name, `find_uid` returns only the uid of the line with the name. -/
theorem NameFirst.of_findUid {u junk : List Byte} (hnamed : NameFirst A u) (hu : 0 ∉ u) {k : Int}
    {f : CredentialFile} (hpos : 0 < k) (hfind : findUid (terminated u junk) A.file = .ok (k, f)) :
    ∃ a ∈ A.accounts, a.uid = k ∧ a.name = u := by
  rw [findUid_named hu] at hfind
  obtain ⟨hk, -⟩ := Prod.mk.inj (Except.ok.inj hfind)
  cases hfirst : A.firstPrefix u with
  | none =>
      rw [hfirst] at hk
      rw [← hk] at hpos
      exact absurd hpos (show ¬ (0 : Int) < ERR_GENERIC by decide)
  | some a =>
      rw [hfirst] at hk
      exact ⟨a, (firstPrefix_spec hfirst).1, hk, (hnamed a hfirst).1⟩

theorem NameFirst.firstPrefix_eq {a : Account} (hnamed : NameFirst A a.name)
    (ha : a ∈ A.accounts) : A.firstPrefix a.name = some a := by
  obtain ⟨b, hfirst⟩ := firstPrefix_isSome ha (List.prefix_refl _)
  have hb := (firstPrefix_spec hfirst).1
  rw [hfirst, eq_of_name hb ha (hnamed b hfirst).1]

end Lookups

/-! ## Invitations -/

/-- An invitation that is forwarded goes to the account that `find_uid` has found. -/
theorem step_invite {s s' : Server} {c : ConnId} {recv : Packet} {heap : Byte × Byte}
    {sent : List Sent} {fd : ConnId} {hdr : Mainhdr} (hcmd : recv.cmd = INVITE)
    (hstep : step s (.received c recv heap) = .ok (sent, s')) (hsent : .packet fd hdr ∈ sent)
    (hinvite : hdr.cmd = INVITE) : ∃ peerId, Invites s recv.toMainhdr peerId fd := by
  obtain ⟨-, houtcome⟩ := step_received hstep
  have hspeaks : Speaks sent hdr.uid := ⟨fd, hdr, hsent, Or.inl hinvite, rfl⟩
  cases houtcome with
  | login k result activeSockets uidOf count groups quiet => exact absurd hspeaks (quiet _)
  | creates gid cmd pos free groups same quiet => exact absurd hspeaks (quiet _)
  | joins g cmd checked group ne fresh groups same quiet => exact absurd hspeaks (quiet _)
  | invites peerId peerData cmd checked out groups same =>
      rw [out] at hsent
      cases List.mem_singleton.mp hsent
      exact ⟨peerId, checked⟩
  | speaks acts out own groups same =>
      rcases acts.1 with ⟨cmd, -⟩ | cmd
      · exact absurd (hcmd.symm.trans cmd) (by decide)
      · exact absurd (hcmd.symm.trans cmd) (by decide)
  | quiet result idle groups same quiet => exact absurd hspeaks (quiet _)

/-- A name is looked up by equality exactly when the first stored name that is a prefix of it is the
name itself. -/
theorem exactName_iff (A : NamedFile) (q : QueriedName) : ExactName A q ↔ NameFirst A q.str := by
  constructor
  · intro hexact a hfirst
    obtain ⟨ha, hprefix⟩ := firstPrefix_spec hfirst
    have hfind : findUid q.buf A.file = .ok (a.uid, A.file) := by
      rw [Argument.buf, findUid_named q.nul_not_mem, hfirst]
    obtain ⟨b, hb, huid, hname⟩ := (hexact.lookup a.uid (A.uid_pos a ha)).mp ⟨_, hfind⟩
    have hsame : b = a := eq_of_account_uid hb ha huid
    have hrefused := (hexact.refusal q.toArgument).mpr ⟨b, hb, hname⟩
    have hloop := createUser_refuses_iff.mp hrefused
    rw [Argument.buf, createUserLoop_none_named q.nul_not_mem] at hloop
    exact ⟨hsame ▸ hname, hloop.2⟩
  · intro hnamed
    refine ⟨?_, ?_, ?_⟩
    · intro k hpos
      constructor
      · rintro ⟨f, hfind⟩
        exact hnamed.of_findUid q.nul_not_mem hpos hfind
      · rintro ⟨a, ha, huid, hname⟩
        refine ⟨A.file, ?_⟩
        have hfirst := (hname ▸ hnamed).firstPrefix_eq ha
        rw [Argument.buf, findUid_named q.nul_not_mem, ← hname, hfirst, ← huid]
    · intro password
      rw [createUser_refuses_iff, Argument.buf, createUserLoop_none_named q.nul_not_mem]
      constructor
      · rintro ⟨⟨a, hfirst⟩, -⟩
        exact ⟨a, (firstPrefix_spec hfirst).1, (hnamed a hfirst).1⟩
      · rintro ⟨a, ha, hname⟩
        have hfirst : A.firstPrefix q.str = some a := hname ▸ (hname ▸ hnamed).firstPrefix_eq ha
        exact ⟨⟨a, hfirst⟩, (hnamed a hfirst).2⟩
    · intro s c recv heap sent s' username fd hdr hcredential hcmd hpayload hstr hstep hsent hinvite
      obtain ⟨peerId, -, -, username', f, hname, hfind, hpos, honline⟩ :=
        step_invite hcmd hstep hsent hinvite
      cases hpayload.symm.trans hname
      obtain ⟨junk, rfl, -⟩ := cstr_ok_iff.mp hstr
      rw [hcredential] at hfind
      obtain ⟨a, ha, huid, hname⟩ := hnamed.of_findUid q.nul_not_mem hpos hfind
      exact ⟨a, ha, hname, huid ▸ honline⟩

/-- The file on which `bob` has registered. -/
def bobNamed : NamedFile where
  file := bobFile
  accounts := [⟨1, [98, 111, 98]⟩]
  lists := by
    have hlines : bobFile.lines = [credentialLine 1 [98, 111, 98] [112, 119]] := by
      decide +kernel
    have htok : tokens (credentialLine 1 [98, 111, 98] [112, 119]) space =
        [[49], [98, 111, 98], [112, 119, 10]] := by
      decide +kernel
    rw [hlines, Lists]
    exact .cons ⟨by decide +kernel, _, _, htok, by decide +kernel⟩ .nil
  uid_pos := by decide
  newline_not_mem := by decide
  uids := by decide
  names := by decide

/-- The name `bobby`. -/
def bobby : QueriedName where
  toArgument := bobbyArgument
  ne := by decide
  short := by decide
  plain := ⟨by decide, by decide, by decide⟩

/-- With `bob` alone in the file, `bobby` is found as `bob` and cannot register. -/
theorem bobby_is_bob : ¬ ExactName bobNamed bobby := by
  intro hexact
  have hfind : findUid bobby.buf bobNamed.file = .ok (1, bobNamed.file) := by
    decide +kernel
  obtain ⟨a, ha, -, hname⟩ := (hexact.lookup 1 (by decide)).mp ⟨_, hfind⟩
  cases List.mem_singleton.mp ha
  exact absurd hname (by decide)

end GroupChat
