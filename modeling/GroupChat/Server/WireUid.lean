import GroupChat.Credential.Creation
import GroupChat.Server.Registry

/-!
# Account numbers and uids

`match_user_pw` returns the number of a line of the credential file, which is an `int`. The
session and the packets have 16 bits for it, the registry takes it whole. `oneUid_iff` says that
they agree exactly as long as the accounts that log in have numbers up to 65535, and that the
files `create_user` builds have wire uids of their own for all their accounts up to that number
of lines. Account 65536 logs in with uid 0 (`uid_zero_login`).
-/

namespace GroupChat

open Posix

/-! ## The uids of a login and of the end of a connection -/

/-- The key that the end of a connection removes from the registry, if it removes one. -/
def keyRemoved (s : Server) (c : ConnId) : Option Nat :=
  (s.uidOf c).bind fun uid => if uid > 0 then some uid.toNat else none

/-- The session, the reply and the key of a login as account `k` all have `k`. -/
structure LoginUid (s : Server) (c : ConnId) (sent : List Sent) (s' : Server) (k : Int) : Prop where
  session : ∃ uid, s'.uidOf c = some uid ∧ (uid.toNat : Int) = k
  reply : ∃ hdr, sent = [.packet c hdr] ∧ hdr.cmd = USR_LOGIN ∧ (hdr.uid.toNat : Int) = k
  registry : ∃ key : Nat, s'.activeSockets = s.activeSockets.insert key c ∧ (key : Int) = k

/-- A login has one uid, and the connection removes it when it ends. -/
structure OneUid (h : List Taken) (s : Server) (e : Event) : Prop where
  login : ∀ c recv heap k sent s', e = .received c recv heap →
    loginResult s recv.toMainhdr = some k → step s e = .ok (sent, s') → LoginUid s c sent s' k
  closed : ∀ c k, e = .closed c → (s.uidOf c).isSome → lastLoginOf h c = some k →
    ∃ key, keyRemoved s c = some key ∧ (key : Int) = k

/-- The account of a login has a number that a `uint16_t` holds. -/
def FitsUid (_ : List Taken) (s : Server) (e : Event) : Prop :=
  ∀ c recv heap k, e = .received c recv heap → loginResult s recv.toMainhdr = some k → k ≤ 65535

section Sessions

variable {s s' : Server} {c : ConnId} {me : ClientThread} {sent : List Sent}

theorem onClosed_activeSockets (hme : s.thread c = some me) :
    (onClosed s c me).activeSockets =
      match keyRemoved s c with
      | none => s.activeSockets
      | some key => s.activeSockets.erase key := by
  rw [keyRemoved, Server.uidOf_of_thread hme, Option.bind_some, onClosed]
  by_cases hpos : me.data.uid > 0
  · rw [if_pos hpos, if_pos hpos]
  · rw [if_neg hpos, if_neg hpos]

theorem onUsrLogin_sent {recv : Mainhdr} {k : Int} (hcmd : recv.cmd = USR_LOGIN)
    (hk : loginResult s recv = some k) (h : onUsrLogin s c me recv = .ok (sent, s')) :
    sent = [.packet c (statusReply USR_LOGIN 0 (UInt16.ofInt k) 0)] := by
  cases onUsrLogin_run h with
  | refused login fails =>
      rw [loginResult_of_login hcmd login, if_neg fails] at hk
      cases hk
  | entered login pos =>
      rw [loginResult_of_login hcmd login, if_pos pos] at hk
      cases hk
      rfl

theorem cmd_of_loginResult {recv : Mainhdr} {k : Int} (hk : loginResult s recv = some k) :
    recv.cmd = USR_LOGIN := by
  by_contra hne
  rw [loginResult_of_ne hne] at hk
  cases hk

/-- What a login puts in the session, the reply and the registry. -/
theorem step_login {recv : Packet} {heap : Byte × Byte} {k : Int}
    (hk : loginResult s recv.toMainhdr = some k)
    (hstep : step s (.received c recv heap) = .ok (sent, s')) :
    s'.uidOf c = some (UInt16.ofInt k) ∧
      sent = [.packet c (statusReply USR_LOGIN 0 (UInt16.ofInt k) 0)] ∧
      s'.activeSockets = s.activeSockets.insert k.toNat c := by
  have hcmd := cmd_of_loginResult hk
  obtain ⟨me, hme, hswitch⟩ := step_switch hstep
  rcases (switch_outcome hme hswitch).sessions with ⟨k', hk', hsockets, huid, -⟩ | ⟨hnone, -⟩
  · cases hk.symm.trans hk'
    refine ⟨by rw [huid, if_pos rfl], ?_, hsockets⟩
    have hlogin : switch s c me recv.toMainhdr heap = onUsrLogin s c me recv.toMainhdr := by
      rw [switch, if_neg (by rw [hcmd]; decide), if_pos hcmd]
    exact onUsrLogin_sent hcmd hk (hlogin ▸ hswitch)
  · rw [hk] at hnone
    cases hnone

theorem loginUid_iff {recv : Packet} {heap : Byte × Byte} {k : Int}
    (hk : loginResult s recv.toMainhdr = some k)
    (hstep : step s (.received c recv heap) = .ok (sent, s')) :
    LoginUid s c sent s' k ↔ k ≤ 65535 := by
  obtain ⟨hsession, hreply, hregistry⟩ := step_login hk hstep
  have hpos := loginResult_pos hk
  constructor
  · rintro ⟨⟨uid, -, huid⟩, -, -⟩
    have := uid.toNat_lt
    omega
  · intro hsmall
    have htoNat : ((UInt16.ofInt k).toNat : Int) = k := by
      rw [toNat_ofInt hpos (by omega)]
      exact Int.toNat_of_nonneg hpos.le
    refine ⟨⟨_, hsession, htoNat⟩, ⟨_, hreply, rfl, htoNat⟩, ⟨_, hregistry, ?_⟩⟩
    exact Int.toNat_of_nonneg hpos.le

end Sessions

/-! ## Runs -/

/-- The struct of an open connection has the account of its last login. -/
structure SessionUids (h : List Taken) (s : Server) : Prop where
  known : ∀ p ∈ logins h, p.1 < s.clients.length
  session : ∀ c k, (s.uidOf c).isSome → lastLoginOf h c = some k →
    s.uidOf c = some (UInt16.ofInt k) ∧ 0 < k ∧ k ≤ 65535

theorem mem_logins_of_lastLoginOf {h : List Taken} {c : ConnId} {k : Int}
    (hlast : lastLoginOf h c = some k) : (c, k) ∈ logins h := by
  obtain ⟨⟨c', k'⟩, hmem, hk⟩ := Option.map_eq_some_iff.mp hlast
  obtain ⟨hmem, hc⟩ := List.mem_filter.mp (List.mem_of_getLast? hmem)
  have hc : c' = c := of_decide_eq_true hc
  have hk : k' = k := hk
  rwa [hc, hk] at hmem

theorem lastLoginOf_of_none {h : List Taken} {x : Taken} (hx : loginOf x = none) (c : ConnId) :
    lastLoginOf (h ++ [x]) c = lastLoginOf h c := by
  rw [lastLoginOf, logins_of_none hx]
  rfl

theorem oneUid_step_iff {h : List Taken} {s : Server} (huids : SessionUids h s) (e : Event) :
    OneUid h s e ↔ ((∃ sent s', step s e = .ok (sent, s')) → FitsUid h s e) := by
  constructor
  · rintro hone ⟨sent, s', hstep⟩ c recv heap k rfl hk
    exact (loginUid_iff hk hstep).mp (hone.login c recv heap k sent s' rfl hk hstep)
  · intro hfits
    refine ⟨?_, ?_⟩
    · rintro c recv heap k sent s' rfl hk hstep
      exact (loginUid_iff hk hstep).mpr (hfits ⟨sent, s', hstep⟩ c recv heap k rfl hk)
    · intro c k _ hopen hlast
      obtain ⟨huid, hpos, hsmall⟩ := huids.session c k hopen hlast
      have htoNat := toNat_ofInt hpos (by omega)
      have hgt : UInt16.ofInt k > 0 := by
        apply UInt16.lt_iff_toNat_lt.mpr
        rw [htoNat, UInt16.toNat_zero]
        omega
      refine ⟨k.toNat, ?_, Int.toNat_of_nonneg hpos.le⟩
      rw [keyRemoved, huid, Option.bind_some, if_pos hgt, htoNat]

theorem SessionUids.step {h : List Taken} {s s' : Server} {e : Event} {sent : List Sent}
    (huids : SessionUids h s) (hfits : FitsUid h s e) (hstep : step s e = .ok (sent, s')) :
    SessionUids (h ++ [⟨s, e, sent, s'⟩]) s' := by
  refine ⟨known_step huids.known hstep, ?_⟩
  intro c k hopen hlast
  cases e with
  | accept =>
      rcases step_accept hstep with ⟨rfl, rfl⟩
      rw [lastLoginOf_of_none rfl] at hlast
      have hlt := huids.known _ (mem_logins_of_lastLoginOf hlast)
      rw [uidOf_accept hlt] at hopen ⊢
      exact huids.session c k hopen hlast
  | closed d =>
      obtain ⟨me, hme, rfl, rfl⟩ := step_closed hstep
      rw [lastLoginOf_of_none rfl] at hlast
      rw [uidOf_closed hme] at hopen ⊢
      split at hopen
      · cases hopen
      · rename_i hne
        rw [if_neg hne]
        exact huids.session c k hopen hlast
  | received d recv heap =>
      rcases (step_received hstep).2.sessions with ⟨j, hj, -, huid, -⟩ | ⟨hnone, same⟩
      · rw [lastLoginOf_of_some (loginOf_of_some hj)] at hlast
        rw [huid] at hopen ⊢
        by_cases hc : c = d
        · rw [if_pos hc.symm] at hlast
          obtain rfl := Option.some.inj hlast
          exact ⟨if_pos hc, loginResult_pos hj, hfits d recv heap _ rfl hj⟩
        · rw [if_neg (Ne.symm hc)] at hlast
          rw [if_neg hc] at hopen ⊢
          exact huids.session c k hopen hlast
      · rw [lastLoginOf_of_none (loginOf_of_none hnone)] at hlast
        rw [same.uidOf] at hopen ⊢
        exact huids.session c k hopen hlast

/-! ## The accounts of a file -/

/-- `k` is an account that `match_user_pw` returns for some credentials. -/
def IsAccount (f : CredentialFile) (k : Int) : Prop :=
  0 < k ∧ ∃ username password : Argument,
    ∃ f', matchUserPw username.buf password.buf f = .ok (k, f')

/-- No two accounts have the same wire uid, and none has wire uid 0. -/
structure WireUidsDistinct (f : CredentialFile) : Prop where
  distinct : ∀ k k', IsAccount f k → IsAccount f k' → UInt16.ofInt k = UInt16.ofInt k' → k = k'
  ne_zero : ∀ k, IsAccount f k → UInt16.ofInt k ≠ 0

theorem Ledger.isAccount_iff {L : Ledger} {k : Int} :
    IsAccount L.file k ↔ 0 < k ∧ k ≤ L.entries.length := by
  constructor
  · rintro ⟨hpos, username, password, f', hmatch⟩
    refine ⟨hpos, ?_⟩
    rw [matchUserPw_eq, L.lines_file, Argument.buf, Argument.buf,
      matchUserPwLoop_fileOf username.nul_not_mem password.nul_not_mem] at hmatch
    obtain ⟨hk, -⟩ := Prod.mk.inj (Except.ok.inj hmatch)
    split at hk
    · rw [← hk, ERR_GENERIC] at hpos
      omega
    · rename_i e hfind
      have hle := L.uid_le (List.mem_of_find?_eq_some hfind)
      omega
  · rintro ⟨hpos, hle⟩
    refine ⟨hpos, ?_⟩
    have hi : k.toNat - 1 < L.entries.length := by omega
    have he := List.getElem?_eq_getElem hi
    have huid := Ledger.uid_of_getElem? he
    have hmem := List.mem_of_getElem? he
    generalize L.entries[k.toNat - 1] = e at huid hmem
    let username : Argument := ⟨e.name, [], e.name_plain.1⟩
    let password : Argument := ⟨e.password, [], e.password_plain.1⟩
    have hmatch := L.matchUserPw_file hmem (show username.str = e.name from rfl)
      (show password.str = e.password from rfl)
    have hk : (e.uid : Int) = k := by omega
    exact ⟨username, password, _, hk ▸ hmatch⟩

/-- The wire uids of the accounts of a file are distinct up to 65535 lines. -/
theorem Ledger.wireUidsDistinct_iff {L : Ledger} :
    WireUidsDistinct L.file ↔ L.file.lines.length ≤ 65535 := by
  rw [L.length_lines]
  constructor
  · intro hdistinct
    by_contra hmany
    have haccount : IsAccount L.file 65536 := L.isAccount_iff.mpr ⟨by decide, by omega⟩
    exact hdistinct.ne_zero _ haccount (by decide)
  · intro hfew
    have htoNat : ∀ k, IsAccount L.file k → 0 < k ∧ (UInt16.ofInt k).toNat = k.toNat := by
      intro k haccount
      obtain ⟨hpos, hle⟩ := L.isAccount_iff.mp haccount
      exact ⟨hpos, toNat_ofInt hpos (by omega)⟩
    refine ⟨?_, ?_⟩
    · intro k k' haccount haccount' hsame
      obtain ⟨hpos, huid⟩ := htoNat k haccount
      obtain ⟨hpos', huid'⟩ := htoNat k' haccount'
      rw [hsame, huid'] at huid
      omega
    · intro k haccount hzero
      obtain ⟨hpos, huid⟩ := htoNat k haccount
      rw [hzero, UInt16.toNat_zero] at huid
      omega

/-- Along every run each login and each end of a connection has one uid exactly when the accounts
that log in have numbers up to 65535, and the accounts of a file that `create_user` has built have
distinct wire uids other than 0 exactly when it has at most 65535 lines. -/
theorem oneUid_iff (credential : CredentialFile) (disk : Disk) (es : List Event) :
    (Lts.Along step (Server.start credential disk) es OneUid ↔
      Lts.Along step (Server.start credential disk) es fun h s e =>
        (∃ sent s', step s e = .ok (sent, s')) → FitsUid h s e) ∧
    ∀ h f, Creations h f → (WireUidsDistinct f ↔ f.lines.length ≤ 65535) := by
  refine ⟨?_, ?_⟩
  · have hstart : SessionUids [] (Server.start credential disk) := by
      refine ⟨fun p hp => absurd hp List.not_mem_nil, ?_⟩
      intro c k hopen
      cases hopen
    apply Lts.along_iff hstart
    · intro h s e _ huids
      exact oneUid_step_iff huids e
    · intro h s e sent s' _ huids hfits hstep
      exact huids.step (hfits ⟨sent, s', hstep⟩) hstep
  · intro h f run
    obtain ⟨L, rfl, -⟩ := recorded_creations run
    exact L.wireUidsDistinct_iff

/-! ## Account 65536 -/

/-- An account logs in with its own name and password. -/
theorem usrLogin_ledger {L : Ledger} {e : Entry} (he : e ∈ L.entries) (hcolon : 58 ∉ e.name) :
    usrLogin (e.name ++ 58 :: e.password) (UInt32.ofNat (e.name ++ 58 :: e.password).length) L.file =
      .ok (terminated e.name (List.replicate (7 - e.name.length) 0), e.uid, L.file) := by
  have hname : e.name.length < 8 := L.name_lt e he
  have hpassword : e.password.length < 128 := L.password_lt e he
  have hparse := parseCredentials_fields e.name_plain.1 hcolon e.password_plain.1
    (L.name_lt e he).le (L.password_lt e he).le
  have hpad : ∀ n, n < 8 → List.replicate (MAX_CHAR_USERID - n) (0 : Byte) =
      0 :: List.replicate (7 - n) 0 := by
    intro n hn
    rw [← List.replicate_succ, MAX_CHAR_USERID]
    congr 1
    omega
  have hpad' : ∀ n, n < 128 → List.replicate (MAX_CHAR_USERPASS - n) (0 : Byte) =
      0 :: List.replicate (127 - n) 0 := by
    intro n hn
    rw [← List.replicate_succ, MAX_CHAR_USERPASS]
    congr 1
    omega
  let username : Argument := ⟨e.name, List.replicate (7 - e.name.length) 0, e.name_plain.1⟩
  let password : Argument := ⟨e.password, List.replicate (127 - e.password.length) 0,
    e.password_plain.1⟩
  have hmatch := L.matchUserPw_file he (show username.str = e.name from rfl)
    (show password.str = e.password from rfl)
  rw [hpad _ hname, hpad' _ hpassword] at hparse
  rw [usrLogin, hparse]
  refine bind_eq_ok.mpr ⟨_, rfl, ?_⟩
  exact bind_eq_ok.mpr ⟨_, hmatch, rfl⟩

def numberedName (i : Nat) : List Byte := decimal (10 ^ 6 + i % 10 ^ 6)

theorem length_numberedName (i : Nat) : (numberedName i).length = 7 :=
  length_decimal (d := 6) (by omega) (by omega)

/-- The registration of a name of seven digits with password `p`. -/
def numberedAccount (i : Nat) : Registration where
  username := ⟨numberedName i, [], not_mem_decimal rfl _⟩
  password := ⟨[112], List.replicate 126 0, by decide⟩
  username_ne := decimal_ne_nil _
  password_ne := by decide
  username_lt := by
    rw [length_numberedName]
    decide
  password_lt := by decide
  username_plain := ⟨not_mem_decimal rfl _, not_mem_decimal rfl _, not_mem_decimal rfl _⟩
  password_plain := ⟨by decide, by decide, by decide⟩

/-- The names are registered one after the other. -/
theorem numbered_creations {n : Nat} (hn : n ≤ 10 ^ 6) : ∃ h, ∃ L : Ledger, Creations h L.file ∧
    Lts.events h = (List.range n).map numberedAccount ∧
    L.entries.map (fun e => (e.name, e.password)) =
      (List.range n).map fun i => (numberedName i, [112]) := by
  induction n with
  | zero => exact ⟨[], Ledger.empty, Lts.Run.start, rfl, rfl⟩
  | succ n ih =>
      obtain ⟨h, L, run, hevents, hentries⟩ := ih (by omega)
      have hlen : L.entries.length = n := by
        have := congrArg List.length hentries
        rwa [List.length_map, List.length_map, List.length_range] at this
      have hadmits : L.Admits (numberedAccount n).username.str := by
        refine ⟨?_, by omega⟩
        intro e he hprefix
        have hmem := List.mem_map_of_mem (f := fun e : Entry => (e.name, e.password)) he
        rw [hentries] at hmem
        obtain ⟨i, hi, hname⟩ := List.mem_map.mp hmem
        have hi' := List.mem_range.mp hi
        rw [← (Prod.mk.inj hname).1] at hprefix
        have heq : numberedName i = numberedName n := by
          apply hprefix.eq_of_length
          exact (length_numberedName i).trans (length_numberedName n).symm
        have := decimal_injective heq
        omega
      refine ⟨_, (numberedAccount n).extend L hadmits, run.next (createStep_admitted hadmits), ?_, ?_⟩
      · rw [Lts.events_append, hevents, List.range_succ, List.map_append]
        rfl
      · rw [List.range_succ, List.map_append, ← hentries]
        exact List.map_append

/-- `USR_LOGIN` with a name of seven digits and password `p`. -/
def numberedLogin (i : Nat) : Packet :=
  ⟨⟨USR_LOGIN, 0, 0, 9, numberedName i ++ [58, 112]⟩, by
    rw [List.length_append, length_numberedName]
    rfl⟩

section NumberedLogin

variable {L : Ledger} {e : Entry} {i : Nat} (he : e ∈ L.entries) (hname : e.name = numberedName i)
  (hpassword : e.password = [112]) {s : Server} (hcredential : s.credential = L.file)

include he hname hpassword

theorem usrLogin_numbered :
    usrLogin (numberedLogin i).payload (numberedLogin i).len L.file =
      .ok (terminated (numberedName i) [], e.uid, L.file) := by
  have hlogin := usrLogin_ledger he (hname ▸ not_mem_decimal rfl _)
  rw [hname, hpassword, List.length_append, length_numberedName] at hlogin
  exact hlogin

include hcredential

theorem loginResult_numbered :
    loginResult s (numberedLogin i).toMainhdr = some (e.uid : Int) := by
  have hpos : (e.uid : Int) > 0 := by exact_mod_cast e.uid_pos
  rw [loginResult, if_pos (show (numberedLogin i).cmd = USR_LOGIN from rfl), hcredential,
    usrLogin_numbered he hname hpassword]
  exact if_pos hpos

/-- The first login on a connection is answered. -/
theorem step_numbered {c : ConnId} (hme : s.thread c = some freshThread) :
    ∃ sent s', step s (.received c (numberedLogin i) (0, 0)) = .ok (sent, s') := by
  have hpos : (e.uid : Int) > 0 := by exact_mod_cast e.uid_pos
  have hcopy : strncpy freshThread.data.username (terminated (numberedName i) []) MAX_CHAR_USERID =
      .ok ((numberedName i ++ List.replicate MAX_CHAR_USERID 0).take MAX_CHAR_USERID ++
        freshThread.data.username.drop MAX_CHAR_USERID) := by
    have hbytes : strncpyBytes (terminated (numberedName i) []) MAX_CHAR_USERID = _ :=
      strncpyBytes_terminated (not_mem_decimal rfl _)
    rw [strncpy, if_neg (by decide), hbytes]
    rfl
  have hlogin : ∃ sent s', onUsrLogin s c freshThread (numberedLogin i).toMainhdr = .ok (sent, s') := by
    rw [onUsrLogin, hcredential, usrLogin_numbered he hname hpassword]
    simp only [bind, Except.bind, if_pos hpos, hcopy]
    exact ⟨_, _, rfl⟩
  obtain ⟨sent, s', hlogin⟩ := hlogin
  refine ⟨sent, s', ?_⟩
  have hswitch : switch s c freshThread (numberedLogin i).toMainhdr (0, 0) = .ok (sent, s') := by
    have hcreate : (numberedLogin i).cmd ≠ USR_CREATE :=
      show USR_LOGIN ≠ USR_CREATE by decide
    rw [switch, if_neg hcreate, if_pos (show (numberedLogin i).cmd = USR_LOGIN from rfl)]
    exact hlogin
  rw [step, hme]
  simp only [hswitch]
  rfl

end NumberedLogin

/-- With 65536 accounts registered, the last one logs in and gets uid 0. -/
theorem uid_zero_login : ∃ h f, Creations h f ∧
    Lts.events h = (List.range 65536).map numberedAccount ∧ ¬ WireUidsDistinct f ∧
    ¬ Lts.Along step (Server.start f ∅) [.accept, .received 0 (numberedLogin 65535) (0, 0)]
      OneUid := by
  obtain ⟨h, L, run, hevents, hentries⟩ := numbered_creations (show 65536 ≤ 10 ^ 6 by decide)
  have hlen : L.entries.length = 65536 := by
    have := congrArg List.length hentries
    rwa [List.length_map, List.length_map, List.length_range] at this
  refine ⟨h, L.file, run, hevents, ?_, ?_⟩
  · rw [L.wireUidsDistinct_iff, L.length_lines, hlen]
    decide
  · intro hone
    have hi : 65535 < L.entries.length := by omega
    have he := List.getElem?_eq_getElem hi
    have huid := Ledger.uid_of_getElem? he
    have hmem := List.mem_of_getElem? he
    have hfields : (L.entries.map fun e => (e.name, e.password))[65535]? =
        some (numberedName 65535, [112]) := by
      rw [hentries, List.getElem?_map, List.getElem?_range (by decide)]
      rfl
    rw [List.getElem?_map, he] at hfields
    obtain ⟨hname, hpassword⟩ := Prod.mk.inj (Option.some.inj hfields)
    generalize L.entries[65535] = e at huid hmem hname hpassword
    let s : Server := { Server.start L.file ∅ with clients := [some freshThread] }
    have haccept : step (Server.start L.file ∅) .accept = .ok ([], s) := rfl
    have hcredential : s.credential = L.file := rfl
    have hme : s.thread 0 = some freshThread := rfl
    obtain ⟨sent, s', hstep⟩ := step_numbered hmem hname hpassword hcredential hme
    have huids : OneUid _ s _ := hone _ _ (.received 0 (numberedLogin 65535) (0, 0))
      (Lts.Run.start.next haccept) (List.prefix_refl _)
    have hresult := loginResult_numbered hmem hname hpassword hcredential
    have hlogin := huids.login 0 _ _ _ sent s' rfl hresult hstep
    have hsmall := (loginUid_iff hresult hstep).mp hlogin
    omega

end GroupChat
