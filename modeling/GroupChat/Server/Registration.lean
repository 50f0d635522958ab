import GroupChat.Credential.Payload
import GroupChat.Server.Handles

/-!
# Registrations

The handler of `USR_CREATE` is to answer a payload that does not parse with an error and leave the
credential file alone, and to answer with success only when the account is in the file. It looks at
neither the result of `parse_username_pw` nor the bytes of the fields: a payload with too long a
field is registered with the zeroed arrays. `registrations_iff` says which registrations are handled
as they are to be.
-/

namespace GroupChat

open Posix

/-- The file has a line with this uid, username and password. -/
def HasAccount (f : CredentialFile) (uid : UInt16) (u p : List Byte) : Prop :=
  ∃ l ∈ f.lines, ∃ uidS, tokens l space = [uidS, u, p ++ [newline]] ∧
    scanInt uidS = .ok (some (uid.toNat : Int))

/-- A registration is answered. A payload that is rejected leaves the file as it is and gets an
error and uid 0, and a success has the uid of an account with the fields of the payload. -/
def HonestAnswer (s : Server) (c : ConnId) (recv : Packet) (heap : Byte × Byte) : Prop :=
  ∃ ret username password newUid status s',
    parseCredentials recv.payload recv.len = .ok (ret, username, password) ∧
    step s (.received c recv heap) = .ok ([.packet c (statusReply USR_CREATE 0 newUid status)], s') ∧
    (ret ≠ 0 → s'.credential.content = s.credential.content ∧ status ≠ 0 ∧ newUid = 0) ∧
    (status = 0 → ∃ u p, cstr username = .ok u ∧ cstr password = .ok p ∧
      HasAccount s'.credential newUid u p)

/-- The payload parses into two strings, and either the name is taken, or the username is not empty,
neither string holds a separator and there is a uid left for the account. -/
def Registrable (f : CredentialFile) (recv : Packet) : Prop :=
  ∃ username password u p, parseCredentials recv.payload recv.len = .ok (0, username, password) ∧
    cstr username = .ok u ∧ cstr password = .ok p ∧
    (NameTaken f u ∨ (u ≠ [] ∧ Plain u ∧ Plain p ∧ f.lines.length + 1 ≤ 65535))

/-- A registration on an open connection that comes next is answered honestly. -/
def HonestNext (_ : List Taken) (s : Server) (e : Event) : Prop :=
  ∀ c recv heap, e = .received c recv heap → recv.cmd = USR_CREATE → (s.uidOf c).isSome →
    HonestAnswer s c recv heap

/-- A registration on an open connection that comes next can be recorded. -/
def RegistrableNext (_ : List Taken) (s : Server) (e : Event) : Prop :=
  ∀ c recv heap, e = .received c recv heap → recv.cmd = USR_CREATE → (s.uidOf c).isSome →
    Registrable s.credential recv

/-! ## Open handles do not matter -/

section Handles

variable {username password : List Byte} {content : List Byte} (n : Nat)

theorem createUser_content :
    createUser username password ⟨content, n⟩ =
      (createUser username password ⟨content, 0⟩).map fun r => (r.1, ⟨r.2.content, n⟩) := by
  have hlines : CredentialFile.lines ⟨content, n⟩ = CredentialFile.lines ⟨content, 0⟩ := rfl
  rw [createUser_eq, createUser_eq, hlines]
  cases createUserLoop username (CredentialFile.lines ⟨content, 0⟩) 1 with
  | error fault => rfl
  | ok found =>
      cases found with
      | none => rfl
      | some count =>
          simp only [ok_bind]
          cases cstr username with
          | error fault => rfl
          | ok u => cases cstr password <;> rfl

theorem matchUserPw_content :
    matchUserPw username password ⟨content, n⟩ =
      (matchUserPw username password ⟨content, 0⟩).map fun r => (r.1, ⟨r.2.content, n⟩) := by
  have hlines : CredentialFile.lines ⟨content, n⟩ = CredentialFile.lines ⟨content, 0⟩ := rfl
  rw [matchUserPw_eq, matchUserPw_eq, hlines]
  cases matchUserPwLoop username password (CredentialFile.lines ⟨content, 0⟩) 0 <;> rfl

theorem usrCreate_content (payload : List Byte) (len : UInt32) :
    usrCreate payload len ⟨content, n⟩ =
      (usrCreate payload len ⟨content, 0⟩).map fun r => (r.1, r.2.1, ⟨r.2.2.content, n⟩) := by
  rw [usrCreate, usrCreate]
  cases parseCredentials payload len with
  | error fault => rfl
  | ok parsed =>
      obtain ⟨ret, username, password⟩ := parsed
      simp only [ok_bind, createUser_content n]
      cases cstr username with
      | error fault => rfl
      | ok u =>
          cases cstr password with
          | error fault => rfl
          | ok p =>
              simp only [ok_bind]
              cases hcreate : createUser username password ⟨content, 0⟩ with
              | error fault => rfl
              | ok created =>
                  have hhandles := createUser_handles hcreate
                  obtain ⟨k, content', handles⟩ := created
                  cases hhandles
                  simp only [Except.map, ok_bind, matchUserPw_content n]
                  split
                  · cases matchUserPw username password ⟨content', 0⟩ <;> rfl
                  · rfl

end Handles

/-! ## The handler on a ledger -/

/-- What the handler makes of a packet whose payload does not parse: the arrays stay zero. -/
theorem parse_rejected {payload : List Byte} {len : UInt32} {ret : Int}
    {username password : List Byte}
    (h : parseCredentials payload len = .ok (ret, username, password)) (hret : ret ≠ 0) :
    username = List.replicate MAX_CHAR_USERID 0 ∧ password = List.replicate MAX_CHAR_USERPASS 0 := by
  exact (parseCredentials_cases h).resolve_right fun hparsed => hret hparsed.1

/-- A payload that is rejected is answered with success. -/
theorem rejected_status {L : Ledger} {payload : List Byte} {len : UInt32} {ret : Int}
    {username password : List Byte} {newUid : UInt16} {status : UInt8} {f : CredentialFile}
    (hparse : parseCredentials payload len = .ok (ret, username, password)) (hret : ret ≠ 0)
    (h : usrCreate payload len L.file = .ok (newUid, status, f)) : status = 0 := by
  obtain ⟨rfl, rfl⟩ := parse_rejected hparse hret
  let au : Argument := ⟨[], List.replicate 7 0, List.not_mem_nil⟩
  let ap : Argument := ⟨[], List.replicate 127 0, List.not_mem_nil⟩
  rw [usrCreate, hparse, ok_bind] at h
  obtain ⟨u, -, h⟩ := bind_eq_ok.mp h
  obtain ⟨p, -, h⟩ := bind_eq_ok.mp h
  obtain ⟨⟨k, f₁⟩, hcreate, h⟩ := bind_eq_ok.mp h
  have hcases : createUser au.buf ap.buf L.file = .ok (k, f₁) ↔ _ := createUser_ok_iff
  obtain ⟨⟨e, -, hprefix, -⟩, -, -⟩ | ⟨-, rfl, rfl⟩ := hcases.mp hcreate
  · exact absurd (List.prefix_nil.mp hprefix) e.name_ne
  · have hpos : ((L.entries.length + 1 : Int)) > 0 := by omega
    simp only [if_pos hpos] at h
    obtain ⟨⟨found, f₂⟩, -, h⟩ := bind_eq_ok.mp h
    cases h
    rfl

/-- The request that a packet is whose payload parses. -/
def Packet.createRequest (recv : Packet) {username password : List Byte}
    (h : parseCredentials recv.payload recv.len = .ok (0, username, password)) : CreateRequest where
  payload := recv.payload
  payload_lt := recv.full ▸ recv.len.toNat_lt
  username := username
  password := password
  parsed := by
    have hlen : UInt32.ofNat recv.payload.length = recv.len := by
      rw [recv.full, UInt32.ofNat_toNat]
    rw [hlen]
    exact h

theorem usrCreate_of_registerStep {recv : Packet} {username password : List Byte}
    {h : parseCredentials recv.payload recv.len = .ok (0, username, password)}
    {f f' : CredentialFile} {newUid : UInt16} {status : UInt8}
    (hstep : registerStep f (recv.createRequest h) = .ok ((newUid, status), f')) :
    usrCreate recv.payload recv.len f = .ok (newUid, status, f') := by
  have hlen : UInt32.ofNat recv.payload.length = recv.len := by
    rw [recv.full, UInt32.ofNat_toNat]
  change (usrCreate recv.payload (UInt32.ofNat recv.payload.length) f).map _ = _ at hstep
  rw [hlen] at hstep
  cases hrun : usrCreate recv.payload recv.len f with
  | error fault =>
      rw [hrun] at hstep
      cases hstep
  | ok reply =>
      rw [hrun] at hstep
      cases hstep
      rfl

/-- What a registration that can be recorded leaves: a ledger with its account, if it succeeds. -/
theorem registrable_ledger {L : Ledger} {recv : Packet} (h : Registrable L.file recv) :
    ∃ username password newUid status, ∃ L' : Ledger,
      parseCredentials recv.payload recv.len = .ok (0, username, password) ∧
      usrCreate recv.payload recv.len L.file = .ok (newUid, status, L'.file) ∧
      (status = 0 → ∃ u p, cstr username = .ok u ∧ cstr password = .ok p ∧
        HasAccount L'.file newUid u p) := by
  obtain ⟨username, password, u, p, hparse, hu, hp, hor⟩ := h
  obtain ⟨ju, hubuf, hu0⟩ := cstr_ok_iff.mp hu
  obtain ⟨jp, hpbuf, hp0⟩ := cstr_ok_iff.mp hp
  let au : Argument := ⟨u, ju, hu0⟩
  let ap : Argument := ⟨p, jp, hp0⟩
  let r := recv.createRequest hparse
  by_cases hrefuses : L.Refuses u
  · obtain ⟨-, hreply⟩ := registerStep_refused (r := r) (u := au) (p := ap) hubuf hpbuf hrefuses
    refine ⟨username, password, _, _, L, hparse, usrCreate_of_registerStep hreply, ?_⟩
    intro hzero
    exact absurd hzero (show UInt8.ofInt ERR_USERNAME_EXIST ≠ 0 by decide)
  · obtain htaken | ⟨hne, huplain, hpplain, hcount⟩ := hor
    · exact absurd (nameTaken_ledger.mp htaken) hrefuses
    · rw [L.length_lines] at hcount
      have hadmits : L.Admits u := (L.refuses_or_admits (by omega) u).resolve_left hrefuses
      obtain ⟨L', e, hentries, huid, hname, hpassword, -, hreply⟩ :=
        registerStep_extends (r := r) (u := au) (p := ap) hubuf hpbuf hadmits hne huplain hpplain
      have he : e ∈ L'.entries := hentries ▸ List.mem_append_right _ List.mem_cons_self
      have htoNat : (UInt16.ofInt e.uid).toNat = e.uid := by
        rw [toNat_ofInt (by exact_mod_cast e.uid_pos) (by omega), Int.toNat_natCast]
      refine ⟨username, password, _, _, L', hparse, usrCreate_of_registerStep hreply, fun _ => ?_⟩
      refine ⟨u, p, hu, hp, e.line, ?_, decimal e.uid, ?_, ?_⟩
      · rw [L'.lines_file]
        exact List.mem_map_of_mem he
      · rw [e.tokens_line, hname, hpassword]
      · rw [scanInt_decimal e.uid_int, htoNat]

theorem HasAccount.plain {f : CredentialFile} {uid : UInt16} {u p : List Byte}
    (h : HasAccount f uid u p) : u ≠ [] ∧ Plain u ∧ Plain p := by
  obtain ⟨l, hl, uidS, htok, -⟩ := h
  exact plain_of_tokens hl htok

/-- An account of a ledger file is one of its entries. -/
theorem Ledger.entry_of_account {L : Ledger} {uid : UInt16} {u p : List Byte}
    (h : HasAccount L.file uid u p) : ∃ e ∈ L.entries, e.uid = uid.toNat ∧ e.name = u := by
  obtain ⟨l, hl, uidS, htok, hscan⟩ := h
  rw [L.lines_file] at hl
  obtain ⟨e, he, rfl⟩ := List.mem_map.mp hl
  rw [e.tokens_line] at htok
  obtain ⟨rfl, hname, -⟩ : decimal e.uid = uidS ∧ e.name = u ∧ _ := by simpa using htok
  rw [scanInt_decimal e.uid_int] at hscan
  have huid : (e.uid : Int) = uid.toNat := Option.some.inj (Except.ok.inj hscan)
  exact ⟨e, he, by exact_mod_cast huid, hname⟩

/-- A registration that is answered honestly can be recorded. -/
theorem registrable_of_honest {L : Ledger} {recv : Packet} {ret : Int}
    {username password : List Byte} {newUid : UInt16} {status : UInt8} {f : CredentialFile}
    (hparse : parseCredentials recv.payload recv.len = .ok (ret, username, password))
    (hrun : usrCreate recv.payload recv.len L.file = .ok (newUid, status, f))
    (hrejected : ret ≠ 0 → status ≠ 0)
    (hsuccess : status = 0 → ∃ u p, cstr username = .ok u ∧ cstr password = .ok p ∧
      HasAccount f newUid u p) : Registrable L.file recv := by
  by_cases hret : ret = 0
  · subst hret
    have hparse' := hrun
    rw [usrCreate, hparse, ok_bind] at hparse'
    obtain ⟨u, hu, hparse'⟩ := bind_eq_ok.mp hparse'
    obtain ⟨p, hp, hparse'⟩ := bind_eq_ok.mp hparse'
    obtain ⟨⟨k, f₁⟩, hcreate, hreply⟩ := bind_eq_ok.mp hparse'
    refine ⟨username, password, u, p, hparse, hu, hp, ?_⟩
    obtain ⟨ju, hubuf, hu0⟩ := cstr_ok_iff.mp hu
    obtain ⟨jp, hpbuf, hp0⟩ := cstr_ok_iff.mp hp
    let au : Argument := ⟨u, ju, hu0⟩
    let ap : Argument := ⟨p, jp, hp0⟩
    have hcases : createUser au.buf ap.buf L.file = .ok (k, f₁) ↔ _ := createUser_ok_iff
    rw [hubuf, hpbuf] at hcreate
    obtain ⟨hrefuses, -, -⟩ | ⟨hadmits, rfl, rfl⟩ := hcases.mp hcreate
    · exact Or.inl (nameTaken_ledger.mpr hrefuses)
    · -- the account is new, so the reply is a success and its line is the one that was added
      have hpos : ((L.entries.length + 1 : Int)) > 0 := by omega
      simp only [if_pos hpos] at hreply
      obtain ⟨matched, -, hreply⟩ := bind_eq_ok.mp hreply
      have hstatus : status = 0 := by
        cases hreply
        rfl
      obtain ⟨u', p', hu', hp', haccount⟩ := hsuccess hstatus
      cases hu.symm.trans hu'
      cases hp.symm.trans hp'
      obtain ⟨hne, huplain, hpplain⟩ := haccount.plain
      let r := recv.createRequest hparse
      obtain ⟨L', e, hentries, huid, hname, -, -, hstep⟩ :=
        registerStep_extends (r := r) (u := au) (p := ap) hubuf hpbuf hadmits hne huplain hpplain
      have hfile := hrun.symm.trans (usrCreate_of_registerStep hstep)
      have hf : f = L'.file := by
        rw [Except.ok.injEq, Prod.mk.injEq, Prod.mk.injEq] at hfile
        exact hfile.2.2
      obtain ⟨e', he', huid', hname'⟩ := Ledger.entry_of_account (hf ▸ haccount)
      have hsame : e' = e := by
        rw [hentries] at he'
        rcases List.mem_append.mp he' with he' | he'
        · exact absurd (hname' ▸ List.prefix_refl _) (hadmits.1 e' he')
        · exact List.mem_singleton.mp he'
      have hlt := newUid.toNat_lt
      rw [hsame, huid] at huid'
      exact Or.inr ⟨hne, huplain, hpplain, by rw [L.length_lines]; omega⟩
  · exact absurd (rejected_status hparse hret hrun) (hrejected hret)

/-! ## Runs -/

/-- The step that handles a registration. -/
theorem step_usrCreate_iff {s s' : Server} {c : ConnId} {recv : Packet} {heap : Byte × Byte}
    {sent : List Sent} (hcmd : recv.cmd = USR_CREATE) (hopen : (s.uidOf c).isSome) :
    step s (.received c recv heap) = .ok (sent, s') ↔
      ∃ newUid status f, usrCreate recv.payload recv.len s.credential = .ok (newUid, status, f) ∧
        sent = [.packet c (statusReply USR_CREATE 0 newUid status)] ∧
        s' = { s with credential := f } := by
  rw [Server.uidOf, Option.isSome_map] at hopen
  obtain ⟨me, hme⟩ := Option.isSome_iff_exists.mp hopen
  have hswitch : switch s c me recv.toMainhdr heap = onUsrCreate s c recv.toMainhdr := by
    rw [switch, if_pos hcmd]
  have hstep : step s (.received c recv heap) =
      (onUsrCreate s c recv.toMainhdr).mapError Stop.undefined := by
    simp only [step, hme, hswitch]
  rw [hstep, onUsrCreate]
  cases hrun : usrCreate recv.payload recv.len s.credential with
  | error fault =>
      constructor
      · intro h
        cases h
      · rintro ⟨newUid, status, f, h, -⟩
        cases h
  | ok r =>
      obtain ⟨newUid, status, f⟩ := r
      rw [ok_bind, hcmd]
      constructor
      · intro h
        cases h
        exact ⟨newUid, status, f, rfl, rfl, rfl⟩
      · rintro ⟨newUid', status', f', h, rfl, rfl⟩
        cases h
        rfl

/-- The credential file is a ledger, whatever is open on it. -/
def OnLedger (_ : List Taken) (s : Server) : Prop :=
  ∃ L : Ledger, s.credential.content = L.file.content

theorem usrCreate_onLedger {L : Ledger} {f : CredentialFile} (hfile : f.content = L.file.content)
    {payload : List Byte} {len : UInt32} {newUid : UInt16} {status : UInt8} {f' : CredentialFile} :
    usrCreate payload len f = .ok (newUid, status, f') ↔
      ∃ g, usrCreate payload len L.file = .ok (newUid, status, g) ∧
        f' = ⟨g.content, f.handles⟩ := by
  obtain ⟨content, n⟩ := f
  cases hfile
  rw [usrCreate_content n]
  change Except.map _ (usrCreate payload len L.file) = _ ↔ _
  cases usrCreate payload len L.file with
  | error fault =>
      constructor
      · intro h
        cases h
      · rintro ⟨g, h, -⟩
        cases h
  | ok r =>
      obtain ⟨newUid', status', g⟩ := r
      constructor
      · intro h
        cases h
        exact ⟨g, rfl, rfl⟩
      · rintro ⟨g', h, rfl⟩
        cases h
        rfl

/-- Whether a registration can be recorded depends on the content of the file. -/
theorem registrable_congr {f g : CredentialFile} (h : f.content = g.content) (recv : Packet) :
    Registrable f recv ↔ Registrable g recv := by
  obtain ⟨content, n⟩ := f
  cases h
  rfl

theorem honestAnswer_iff {L : Ledger} {s : Server} {c : ConnId} {recv : Packet}
    {heap : Byte × Byte} (hfile : s.credential.content = L.file.content)
    (hcmd : recv.cmd = USR_CREATE) (hopen : (s.uidOf c).isSome) :
    HonestAnswer s c recv heap ↔ Registrable s.credential recv := by
  rw [registrable_congr hfile]
  constructor
  · rintro ⟨ret, username, password, newUid, status, s', hparse, hstep, hrejected, hsuccess⟩
    obtain ⟨newUid', status', f, hrun, hsent, rfl⟩ := (step_usrCreate_iff hcmd hopen).mp hstep
    cases hsent
    obtain ⟨g, hrun', rfl⟩ := (usrCreate_onLedger hfile).mp hrun
    exact registrable_of_honest hparse hrun' (fun hret => (hrejected hret).2.1) hsuccess
  · intro hregistrable
    obtain ⟨username, password, newUid, status, L', hparse, hrun, haccount⟩ :=
      registrable_ledger hregistrable
    have hrun' := (usrCreate_onLedger hfile).mpr ⟨L'.file, hrun, rfl⟩
    refine ⟨0, username, password, newUid, status, _, hparse,
      (step_usrCreate_iff hcmd hopen).mpr ⟨newUid, status, _, hrun', rfl, rfl⟩, ?_, haccount⟩
    intro hret
    exact absurd rfl hret

/-- Everything but a registration that cannot be recorded leaves a ledger. -/
theorem onLedger_step {h h' : List Taken} {s s' : Server} {e : Event} {sent : List Sent}
    (hledger : OnLedger h s) (hregistrable : RegistrableNext h s e)
    (hstep : step s e = .ok (sent, s')) : OnLedger h' s' := by
  obtain ⟨L, hfile⟩ := hledger
  cases e with
  | accept =>
      obtain ⟨-, rfl⟩ := step_accept hstep
      exact ⟨L, hfile⟩
  | closed c =>
      obtain ⟨me, -, -, rfl⟩ := step_closed hstep
      exact ⟨L, hfile⟩
  | received c recv heap =>
      obtain ⟨hopen, -⟩ := step_received hstep
      obtain ⟨me, -, hswitch⟩ := step_switch hstep
      cases switch_accesses hswitch with
      | registers cmd newUid status run =>
          have hrecord := hregistrable c recv heap rfl cmd hopen
          rw [registrable_congr hfile] at hrecord
          obtain ⟨-, -, newUid', status', L', -, hrun, -⟩ := registrable_ledger hrecord
          obtain ⟨g, hrun', hg⟩ := (usrCreate_onLedger hfile).mp run
          have hsame := hrun.symm.trans hrun'
          rw [Except.ok.injEq, Prod.mk.injEq, Prod.mk.injEq] at hsame
          exact ⟨L', by rw [hg, ← hsame.2.2]⟩
      | opens calls credential => exact ⟨L, by rw [credential]; exact hfile⟩
      | same cmd silent credential => exact ⟨L, by rw [credential]; exact hfile⟩

/-- Along a run from a file that `create_user` has built, every registration is answered honestly
exactly when every one can be recorded. -/
theorem registrations_iff (L : Ledger) (disk : Disk) (es : List Event) :
    Lts.Along step (Server.start L.file disk) es HonestNext ↔
      Lts.Along step (Server.start L.file disk) es RegistrableNext := by
  have hstart : OnLedger [] (Server.start L.file disk) := ⟨L, rfl⟩
  apply Lts.along_iff hstart
  · rintro h s e - ⟨L', hfile⟩
    constructor
    · intro hhonest c recv heap he hcmd hopen
      have hanswer := hhonest c recv heap he hcmd hopen
      exact (honestAnswer_iff hfile hcmd hopen).mp hanswer
    · intro hregistrable c recv heap he hcmd hopen
      have hrecord := hregistrable c recv heap he hcmd hopen
      exact (honestAnswer_iff hfile hcmd hopen).mpr hrecord
  · intro h s e sent s' _ hledger hregistrable hstep
    exact onLedger_step hledger hregistrable hstep

/-- The payload `abcdefghi:p`, whose username is too long. -/
def longName : Packet :=
  ⟨⟨USR_CREATE, 0, 0, 11, [97, 98, 99, 100, 101, 102, 103, 104, 105, 58, 112]⟩, rfl⟩

/-- It is rejected by the parser and answered with success. -/
theorem rejected_registered :
    ¬ Lts.Along step (Server.start Ledger.empty.file ∅) [.accept, .received 0 longName (0, 0)]
      HonestNext := by
  intro hhonest
  let s : Server := { Server.start Ledger.empty.file ∅ with clients := [some freshThread] }
  have haccept : step (Server.start Ledger.empty.file ∅) .accept = .ok ([], s) := rfl
  have hnext : HonestNext _ s _ := hhonest _ _ (.received 0 longName (0, 0))
    (Lts.Run.start.next haccept) (List.prefix_refl _)
  obtain ⟨ret, username, password, newUid, status, s', hparse, hstep, hrejected, -⟩ :=
    hnext 0 longName (0, 0) rfl rfl rfl
  have hreject : Lts.returns (parseCredentials longName.payload longName.len)
      (fun r => r.1 ≠ 0) = true := by
    decide +kernel
  rw [hparse] at hreject
  have hret : ret ≠ 0 := of_decide_eq_true hreject
  obtain ⟨newUid', status', f, hrun, hsent, -⟩ := (step_usrCreate_iff rfl rfl).mp hstep
  cases hsent
  exact (hrejected hret).2.1 (rejected_status hparse hret hrun)

end GroupChat
