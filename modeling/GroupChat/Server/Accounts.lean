import GroupChat.Credential.Table
import GroupChat.Server.Registration

/-!
# The accounts of the server

Over a run the server answers registrations and logins from a text file that it reads line by line.
As long as the requests hold a name and a password that the file can hold, its answers are those of
an `AccountTable`, in every order of the requests of all connections and with anything else that the
server handles in between (`accounts_refine`).
-/

namespace GroupChat

open Posix

/-- The two fields of a payload, if the file can hold them. -/
def credentialsOf (payload : List Byte) : Option Credentials :=
  let username := payload.takeWhile (· ≠ 58)
  let password := (payload.dropWhile (· ≠ 58)).tail
  if h : 58 ∈ payload ∧ username ≠ [] ∧ Plain username ∧ Plain password ∧
      username.length < MAX_CHAR_USERID ∧ password.length < MAX_CHAR_USERPASS then
    some ⟨username, password, h.2.1, h.2.2.1, h.2.2.2.1, h.2.2.2.2.1, h.2.2.2.2.2⟩
  else none

/-- The request to the table that a packet is. -/
def accountRequest (recv : Packet) : Option AccountRequest :=
  if recv.cmd = USR_CREATE then (credentialsOf recv.payload).map .register
  else if recv.cmd = USR_LOGIN then (credentialsOf recv.payload).map .login
  else none

/-- The uid of a reply whose status is 0. -/
def granted : List Sent → Option Nat
  | [.packet _ hdr] => if hdr.payload.head? = some 0 then some hdr.uid.toNat else none
  | _ => none

/-- A request to the table and how it was answered. -/
def accountAnswer (x : Taken) : Option (AccountRequest × Option Nat) :=
  match x.event with
  | .received _ recv _ => (accountRequest recv).map fun r => (r, granted x.out)
  | _ => none

/-- A registration or a login has the two fields, and there is a `uint16_t` left. -/
def Proper (x : Taken) : Prop :=
  ∀ c recv heap, x.event = .received c recv heap → (recv.cmd = USR_CREATE ∨ recv.cmd = USR_LOGIN) →
    (credentialsOf recv.payload).isSome ∧ x.pre.credential.lines.length < 65535

structure AccountsRefine (L : Ledger) (h : List Taken) (s : Server) : Prop where
  /-- the file is that of a table, and the answers are those of the table -/
  table : (∀ x ∈ h, Proper x) → ∃ (h' : List AccountTable.Taken) (T : AccountTable),
    Lts.Run AccountTable.step L.table h' T ∧
      h'.map (fun y => (y.event, y.out)) = h.filterMap accountAnswer ∧
      s.credential.content = T.content
  /-- whoever has registered is logged in as the account that was made -/
  returning : (∀ x ∈ h, Proper x) → ∀ h₁ y h₂ c k out, h = h₁ ++ y :: h₂ →
    (.register c, some k) ∈ h₁.filterMap accountAnswer →
    accountAnswer y = some (.login c, out) → out = some k

/-! ## One request -/

section Requests

variable {c : Credentials} {payload : List Byte}

theorem credentialsOf_eq_some (h : credentialsOf payload = some c) :
    payload = c.username ++ 58 :: c.password ∧ 58 ∉ c.username := by
  rw [credentialsOf] at h
  split at h
  · rename_i hfields
    cases h
    dsimp only
    obtain ⟨-, hno⟩ : _ ∧ 58 ∉ payload.takeWhile (· ≠ 58) := by
      refine ⟨trivial, fun hmem => ?_⟩
      have hne := List.mem_takeWhile_imp hmem
      simp at hne
    refine ⟨?_, hno⟩
    have hsplit := List.takeWhile_append_dropWhile (p := fun b : Byte => decide (b ≠ 58)) (l := payload)
    cases hrest : payload.dropWhile (fun b : Byte => decide (b ≠ 58)) with
    | nil =>
        rw [hrest, List.append_nil] at hsplit
        rw [hsplit] at hno
        exact absurd hfields.1 hno
    | cons b rest =>
        have hb : b = 58 := by
          have hhead := List.head?_dropWhile_not (fun b : Byte => decide (b ≠ 58)) payload
          rw [hrest] at hhead
          simpa using hhead
        rw [hrest, hb] at hsplit
        exact hsplit.symm
  · cases h

theorem parse_credentials {recv : Packet} (h : credentialsOf recv.payload = some c) :
    ∃ username password : Argument, username.str = c.username ∧ password.str = c.password ∧
      parseCredentials recv.payload recv.len = .ok (0, username.buf, password.buf) := by
  obtain ⟨hpayload, hcolon⟩ := credentialsOf_eq_some h
  have hlen : recv.len = UInt32.ofNat (c.username ++ 58 :: c.password).length := by
    rw [← hpayload, recv.full, UInt32.ofNat_toNat]
  have hparse := parseCredentials_fields c.username_plain.1 hcolon c.password_plain.1
    c.username_lt.le c.password_lt.le
  have hpad : ∀ {n : Nat}, 0 < n → List.replicate n (0 : Byte) = 0 :: List.replicate (n - 1) 0 := by
    intro n hn
    rw [← List.replicate_succ, Nat.sub_add_cancel hn]
  refine ⟨⟨c.username, List.replicate (MAX_CHAR_USERID - c.username.length - 1) 0,
    c.username_plain.1⟩, ⟨c.password, List.replicate (MAX_CHAR_USERPASS - c.password.length - 1) 0,
    c.password_plain.1⟩, rfl, rfl, ?_⟩
  rw [hpayload, hlen, hparse, hpad (Nat.sub_pos_of_lt c.username_lt),
    hpad (Nat.sub_pos_of_lt c.password_lt)]
  rfl

theorem granted_reply (fd : ConnId) (cmd : UInt8) (uid : UInt16) (status : UInt8) :
    granted [.packet fd (statusReply cmd 0 uid status)] =
      if status = 0 then some uid.toNat else none := by
  rw [granted]
  by_cases hstatus : status = 0
  · rw [hstatus]
    rfl
  · rw [if_neg hstatus]
    exact if_neg fun h => hstatus (Option.some.inj h)

variable {L : Ledger} {recv : Packet}

/-- A registration on a ledger. -/
theorem usrCreate_table (h : credentialsOf recv.payload = some c) (hcount : L.entries.length < 65535)
    {newUid : UInt16} {status : UInt8} {f : CredentialFile}
    (hrun : usrCreate recv.payload recv.len L.file = .ok (newUid, status, f)) :
    ∃ L' : Ledger, f = L'.file ∧
      L.table.step (.register c) = .ok (if status = 0 then some newUid.toNat else none, L'.table) := by
  obtain ⟨username, password, husername, hpassword, hparse⟩ := parse_credentials h
  let r := recv.createRequest hparse
  by_cases hrefuses : L.Refuses username.str
  · obtain ⟨-, hreply⟩ := registerStep_refused (r := r) (u := username) (p := password) rfl rfl hrefuses
    rw [usrCreate_of_registerStep hreply] at hrun
    cases hrun
    refine ⟨L, rfl, ?_⟩
    obtain ⟨e, he, hprefix, -⟩ := hrefuses
    have htaken : L.table.taken c.username = true :=
      (L.taken_table _).mpr ⟨e, he, husername ▸ hprefix⟩
    rw [AccountTable.step, if_pos htaken]
    rfl
  · have hadmits : L.Admits username.str :=
      (L.refuses_or_admits (by omega) username.str).resolve_left hrefuses
    obtain ⟨L', e, hentries, huid, hname, hword, -, hreply⟩ :=
      registerStep_extends (r := r) (u := username) (p := password) rfl rfl hadmits
        (husername ▸ c.username_ne) (husername ▸ c.username_plain) (hpassword ▸ c.password_plain)
    rw [usrCreate_of_registerStep hreply] at hrun
    cases hrun
    have hfree : ¬ L.table.taken c.username = true := by
      rw [L.taken_table]
      rintro ⟨e', he', hprefix⟩
      exact hadmits.1 e' he' (husername ▸ hprefix)
    have htable : L'.table = L.table ++ [(c.username, c.password)] := by
      rw [Ledger.table, hentries, List.map_append, List.map_singleton, hname, hword, husername,
        hpassword]
      rfl
    have hnumber : (UInt16.ofInt e.uid).toNat = L.table.length + 1 := by
      rw [toNat_ofInt (by exact_mod_cast e.uid_pos) (by omega), Int.toNat_natCast, huid,
        Ledger.table, List.length_map]
    refine ⟨L', rfl, ?_⟩
    rw [AccountTable.step, if_neg hfree, if_pos rfl, hnumber, htable]

/-- A login on a ledger. -/
theorem usrLogin_table (h : credentialsOf recv.payload = some c) {f f' : CredentialFile}
    (hfile : f.content = L.file.content) {username : List Byte} {status : Int}
    (hrun : usrLogin recv.payload recv.len f = .ok (username, status, f')) :
    L.table.number c = (if status > 0 then some status.toNat else none) ∧
      status ≤ L.entries.length := by
  obtain ⟨name, password, hname, hpassword, hparse⟩ := parse_credentials h
  have hlines : f.lines = L.entries.map Entry.line := by
    rw [← L.lines_file, CredentialFile.lines, CredentialFile.lines, hfile]
  obtain ⟨⟨ret, name', word⟩, hparse', hrun⟩ := bind_eq_ok.mp hrun
  cases hparse.symm.trans hparse'
  obtain ⟨⟨k, g⟩, hmatch, hrun⟩ := bind_eq_ok.mp hrun
  cases hrun
  rw [matchUserPw_eq, hlines, Argument.buf, Argument.buf,
    matchUserPwLoop_fileOf name.nul_not_mem password.nul_not_mem, hname, hpassword] at hmatch
  rw [L.number_table]
  cases hfind : L.entries.find? fun e => e.name <+: c.username ∧ e.password <+: c.password with
  | none =>
      rw [hfind] at hmatch
      cases hmatch
      have hnegative : ERR_GENERIC ≤ (0 : Int) := by decide
      exact ⟨rfl, hnegative.trans (Int.natCast_nonneg _)⟩
  | some e =>
      rw [hfind] at hmatch
      cases hmatch
      have he := List.mem_of_find?_eq_some hfind
      have hle : (e.uid : Int) ≤ L.entries.length := by exact_mod_cast Ledger.uid_le he
      refine ⟨?_, hle⟩
      have hpos : (e.uid : Int) > 0 := by exact_mod_cast e.uid_pos
      change some e.uid = if (e.uid : Int) > 0 then some (e.uid : Int).toNat else none
      rw [if_pos hpos, Int.toNat_natCast]

end Requests

/-! ## One step -/

section Step

variable {L : Ledger} {s s' : Server} {e : Event} {sent : List Sent}

/-- A step is one of the table, or leaves it as it is. -/
inductive TableStep (L : Ledger) (x : Taken) : Prop
  | answers (r : AccountRequest) (out : Option Nat) (L' : Ledger)
      (answer : accountAnswer x = some (r, out)) (table : L.table.step r = .ok (out, L'.table))
      (file : x.post.credential.content = L'.file.content)
  | other (answer : accountAnswer x = none) (file : x.post.credential.content = L.file.content)

theorem accountAnswer_other {c : ConnId} {recv : Packet} {heap : Byte × Byte}
    (hcreate : recv.cmd ≠ USR_CREATE) (hlogin : recv.cmd ≠ USR_LOGIN) :
    accountAnswer ⟨s, .received c recv heap, sent, s'⟩ = none := by
  rw [accountAnswer]
  dsimp only
  rw [accountRequest, if_neg hcreate, if_neg hlogin]
  rfl

theorem tableStep_of_step (hfile : s.credential.content = L.file.content)
    (hproper : Proper ⟨s, e, sent, s'⟩) (hstep : step s e = .ok (sent, s')) :
    TableStep L ⟨s, e, sent, s'⟩ := by
  have hlines : s.credential.lines = L.file.lines := by
    rw [CredentialFile.lines, CredentialFile.lines, hfile]
  cases e with
  | accept =>
      obtain ⟨-, rfl⟩ := step_accept hstep
      exact .other rfl hfile
  | closed c =>
      obtain ⟨me, -, -, rfl⟩ := step_closed hstep
      exact .other rfl hfile
  | received c recv heap =>
      obtain ⟨hopen, -⟩ := step_received hstep
      obtain ⟨me, -, hswitch⟩ := step_switch hstep
      by_cases hcreate : recv.cmd = USR_CREATE
      · obtain ⟨hsome, hcount⟩ := hproper c recv heap rfl (Or.inl hcreate)
        obtain ⟨cr, hcr⟩ := Option.isSome_iff_exists.mp hsome
        dsimp only at hcount
        rw [hlines, L.length_lines] at hcount
        obtain ⟨newUid, status, f, hrun, rfl, rfl⟩ := (step_usrCreate_iff hcreate hopen).mp hstep
        obtain ⟨g, hrun', rfl⟩ := (usrCreate_onLedger hfile).mp hrun
        obtain ⟨L', rfl, htable⟩ := usrCreate_table hcr hcount hrun'
        refine .answers (.register cr) _ L' ?_ htable rfl
        rw [accountAnswer]
        dsimp only
        rw [accountRequest, if_pos hcreate, hcr, granted_reply]
        rfl
      by_cases hlogin : recv.cmd = USR_LOGIN
      · obtain ⟨hsome, hcount⟩ := hproper c recv heap rfl (Or.inr hlogin)
        obtain ⟨cr, hcr⟩ := Option.isSome_iff_exists.mp hsome
        dsimp only at hcount
        rw [hlines, L.length_lines] at hcount
        have hrun : onUsrLogin s c me recv.toMainhdr = .ok (sent, s') := by
          rw [switch, if_neg hcreate, if_pos hlogin] at hswitch
          exact hswitch
        have hanswer : ∀ uid status, sent = [.packet c (statusReply USR_LOGIN 0 uid status)] →
            accountAnswer ⟨s, .received c recv heap, sent, s'⟩ =
              some (.login cr, if status = 0 then some uid.toNat else none) := by
          rintro uid status rfl
          rw [accountAnswer]
          dsimp only
          rw [accountRequest, if_neg hcreate, if_pos hlogin, hcr, granted_reply]
          rfl
        have htable : L.table.step (.login cr) = .ok (L.table.number cr, L.table) := rfl
        cases onUsrLogin_run hrun with
        | refused login fails =>
            obtain ⟨hnumber, -⟩ := usrLogin_table hcr hfile login
            rw [hnumber, if_neg fails] at htable
            refine .answers (.login cr) none L (hanswer _ _ rfl) htable ?_
            rw [usrLogin_file login]
            exact hfile
        | @entered username name status credential login pos =>
            obtain ⟨hnumber, hle⟩ := usrLogin_table hcr hfile login
            have huid : (UInt16.ofInt status).toNat = status.toNat := toNat_ofInt pos (by omega)
            rw [hnumber, if_pos pos, ← huid] at htable
            refine .answers (.login cr) _ L (hanswer _ _ rfl) htable ?_
            rw [usrLogin_file login]
            exact hfile
      · have hother : accountAnswer ⟨s, .received c recv heap, sent, s'⟩ = none :=
          accountAnswer_other hcreate hlogin
        cases switch_accesses hswitch with
        | registers cmd newUid status run => exact absurd cmd hcreate
        | opens calls credential =>
            refine .other hother ?_
            rw [credential]
            exact hfile
        | same cmd silent credential =>
            refine .other hother ?_
            rw [credential]
            exact hfile

end Step

/-! ## Runs -/

section Runs

variable {L₀ : Ledger} {disk : Disk} {h : List Taken} {s : Server}

/-- A run with proper requests is one of the table. -/
theorem table_of_run (run : Lts.Run step (Server.start L₀.file disk) h s)
    (hproper : ∀ x ∈ h, Proper x) :
    ∃ (h' : List AccountTable.Taken) (L : Ledger), Lts.Run AccountTable.step L₀.table h' L.table ∧
      h'.map (fun y => (y.event, y.out)) = h.filterMap accountAnswer ∧
      s.credential.content = L.file.content := by
  induction run with
  | start => exact ⟨[], L₀, .start, rfl, rfl⟩
  | @next h s s' e sent run taken ih =>
      obtain ⟨h', L, run', hanswers, hfile⟩ := ih fun x hx => hproper x (List.mem_append_left _ hx)
      have hlast := hproper _ (List.mem_append_right _ List.mem_cons_self)
      cases tableStep_of_step hfile hlast taken with
      | answers r out L' answer table file =>
          refine ⟨h' ++ [⟨L.table, r, out, L'.table⟩], L', run'.next table, ?_, file⟩
          rw [List.map_append, List.filterMap_append, hanswers, List.filterMap_cons_some answer]
          rfl
      | other answer file =>
          refine ⟨h', L, run', ?_, file⟩
          rw [List.filterMap_append, List.filterMap_cons_none answer, hanswers, List.filterMap_nil,
            List.append_nil]

/-- In every run of the server from a file that `create_user` has written, with connections that do
anything else in any order, the accounts are those of a table. -/
theorem accounts_refine (L : Ledger) (disk : Disk) (es : List Event) :
    Lts.Throughout step (Server.start L.file disk) es (AccountsRefine L) := by
  intro h s run _
  constructor
  · intro hproper
    obtain ⟨h', L', run', hanswers, hfile⟩ := table_of_run run hproper
    exact ⟨h', L'.table, run', hanswers, hfile.trans L'.content_table.symm⟩
  · rintro hproper h₁ y h₂ c k out rfl hregister hlogin
    obtain ⟨h', L', run', hanswers, -⟩ := table_of_run run hproper
    rw [List.filterMap_append, List.filterMap_cons_some hlogin, List.map_eq_append_iff] at hanswers
    obtain ⟨before, rest, rfl, hbefore, hrest⟩ := hanswers
    obtain ⟨y', after, rfl, hy', -⟩ := List.map_eq_cons_iff.mp hrest
    rw [← hbefore] at hregister
    obtain ⟨x', hx', hanswer⟩ := List.mem_map.mp hregister
    obtain ⟨hregister', hout⟩ := Prod.mk.inj hanswer
    obtain ⟨hlogin', hout'⟩ := Prod.mk.inj hy'
    have hnumber := AccountTable.number_of_registered L.unshadowed_table run' hx' hregister' hout
      hlogin'
    exact hout'.symm.trans hnumber

end Runs

end GroupChat
