import GroupChat.Credential.Ledger

/-!
# `USR_CREATE` and the form of the credential file

A `CreateRequest` is a payload that `parse_username_pw` accepts, with the arrays it fills. The
request keeps the form of the file when `create_user` returns, the handler answers, the n-th
line of the file afterwards has three tokens with uid n, and a successful creation has added
one line with the uid, username and password. `create_user` writes the strings as they are, so
a separator in a field, an empty username or an array without a terminator breaks the form;
`keepsForm_iff` says exactly which requests keep it, and `staysWellFormed_iff` carries that to
every sequence of requests from the empty file.
-/

namespace GroupChat

open Posix

structure CreateRequest where
  payload : List Byte
  payload_lt : payload.length < 2 ^ 32
  username : List Byte
  password : List Byte
  parsed : parseCredentials payload (UInt32.ofNat payload.length) = .ok (0, username, password)

/-- A username and a password around a colon are taken apart again, if they are not too long. -/
theorem parseCredentials_fields {u p : List Byte} (hu : 0 ∉ u) (hcolon : 58 ∉ u) (hp : 0 ∉ p)
    (hulen : u.length ≤ MAX_CHAR_USERID) (hplen : p.length ≤ MAX_CHAR_USERPASS) :
    parseCredentials (u ++ 58 :: p) (UInt32.ofNat (u ++ 58 :: p).length) =
      .ok (0, u ++ List.replicate (MAX_CHAR_USERID - u.length) 0,
        p ++ List.replicate (MAX_CHAR_USERPASS - p.length) 0) := by
  have hulen' : u.length ≤ 8 := hulen
  have hplen' : p.length ≤ 128 := hplen
  have hlen : (u ++ 58 :: p).length = u.length + (p.length + 1) := by
    rw [List.length_append, List.length_cons]
  have hlen32 : (UInt32.ofNat (u ++ 58 :: p).length).toNat = u.length + (p.length + 1) := by
    rw [hlen, UInt32.toNat_ofNat']
    omega
  have hchr : strchr (u ++ 58 :: p ++ [0]) 58 = .ok (some u.length) := by
    rw [List.append_assoc, List.cons_append]
    exact strchr_found hu hcolon
  have hname : strncpy (List.replicate MAX_CHAR_USERID 0) (u ++ 58 :: p ++ [0]) u.length =
      .ok (u ++ List.replicate (MAX_CHAR_USERID - u.length) 0) := by
    rw [List.append_assoc]
    exact strncpy_prefix hu hulen
  have hword : strncpy (List.replicate MAX_CHAR_USERPASS 0)
      ((u ++ 58 :: p ++ [0]).drop (u.length + 1)) p.length =
      .ok (p ++ List.replicate (MAX_CHAR_USERPASS - p.length) 0) := by
    rw [List.append_assoc, List.drop_length_add_append, List.cons_append, List.drop_one,
      List.tail_cons]
    exact strncpy_prefix hp hplen
  have hname' : toInt32 u.length = u.length := toInt32_of_lt (by omega)
  have hrest : intResult (toInt32 (UInt32.ofNat (u ++ 58 :: p).length).toNat - u.length) =
      .ok (p.length + 1) := by
    rw [hlen32, toInt32_of_lt (by omega)]
    exact intResult_eq_ok.mpr ⟨by omega, by omega, by omega⟩
  have hlen' : intResult ((p.length + 1 : Int) - 1) = .ok (p.length : Int) := by
    rw [Int.add_sub_cancel, intResult_of_mem (by omega) (by omega)]
  have hfits : ¬ ((u.length : Int) > MAX_CHAR_USERID ∨ (p.length : Int) > MAX_CHAR_USERPASS) := by
    omega
  rw [parseCredentials, parseUsernamePw]
  refine bind_eq_ok.mpr ⟨some u.length, hchr, ?_⟩
  simp only [hname']
  refine bind_eq_ok.mpr ⟨_, hrest, bind_eq_ok.mpr ⟨_, hlen', ?_⟩⟩
  rw [if_neg hfits, toSizeT_of_lt (by omega), toSizeT_of_lt (by omega)]
  exact bind_eq_ok.mpr ⟨_, hname, bind_eq_ok.mpr ⟨_, hword, rfl⟩⟩

/-- The handler, with the uid and the status byte of its reply. -/
def registerStep (f : CredentialFile) (r : CreateRequest) :
    Except Fault ((UInt16 × UInt8) × CredentialFile) :=
  (usrCreate r.payload (UInt32.ofNat r.payload.length) f).map fun reply =>
    ((reply.1, reply.2.1), reply.2.2)

/-- The n-th line read by `fgets` has three tokens, the first of which is n. -/
def WellFormed (f : CredentialFile) : Prop :=
  ∀ i l, f.lines[i]? = some l → ∃ uidS uname pw, tokens l space = [uidS, uname, pw] ∧
    scanInt uidS = .ok (some (i + 1 : Nat))

/-- The second file has one line more, with this uid, username and password. -/
def AddsLine (f f' : CredentialFile) (k : Int) (username password : List Byte) : Prop :=
  ∃ l, f'.lines = f.lines ++ [l] ∧
    tokens l space = [decimal k.toNat, username, password ++ [newline]]

/-- The request is handled as the format of the file asks. -/
def KeepsForm (f : CredentialFile) (r : CreateRequest) : Prop :=
  ∃ k f' reply u p, cstr r.username = .ok u ∧ cstr r.password = .ok p ∧
    createUser r.username r.password f = .ok (k, f') ∧ registerStep f r = .ok (reply, f') ∧
    WellFormed f' ∧ (0 < k → AddsLine f f' k u p)

/-- A stored name is a prefix of the username, at a line that `int count` can count. -/
def NameTaken (f : CredentialFile) (username : List Byte) : Prop :=
  ∃ i l uidS uname rest, f.lines[i]? = some l ∧ tokens l space = uidS :: uname :: rest ∧
    uname <+: username ∧ i + 2 < 2 ^ 31

/-- Both arrays hold strings, and either the name is taken, or the username is not empty,
neither string holds a separator and there is a uid left. -/
def Recordable (f : CredentialFile) (r : CreateRequest) : Prop :=
  ∃ u p, cstr r.username = .ok u ∧ cstr r.password = .ok p ∧
    (NameTaken f u ∨ (u ≠ [] ∧ Plain u ∧ Plain p ∧ f.lines.length + 1 < 2 ^ 31))

/-- A payload that is rejected leaves the arrays zero, and any other one fills them. -/
theorem parseCredentials_cases {payload : List Byte} {len : UInt32} {ret : Int}
    {username password : List Byte}
    (h : parseCredentials payload len = .ok (ret, username, password)) :
    (username = List.replicate MAX_CHAR_USERID 0 ∧
        password = List.replicate MAX_CHAR_USERPASS 0) ∨
      (ret = 0 ∧ username.length = MAX_CHAR_USERID ∧ password.length = MAX_CHAR_USERPASS) := by
  unfold parseCredentials parseUsernamePw at h
  obtain ⟨found, -, h⟩ := bind_eq_ok.mp h
  cases found with
  | none => cases h
  | some delim =>
      simp only at h
      obtain ⟨rest, -, h⟩ := bind_eq_ok.mp h
      obtain ⟨pwLen, -, h⟩ := bind_eq_ok.mp h
      split at h
      · cases h
        exact Or.inl ⟨rfl, rfl⟩
      · obtain ⟨d, hd, h⟩ := bind_eq_ok.mp h
        obtain ⟨d', hd', h⟩ := bind_eq_ok.mp h
        cases h
        exact Or.inr ⟨rfl, (length_strncpy hd).trans List.length_replicate,
          (length_strncpy hd').trans List.length_replicate⟩

namespace CreateRequest

theorem lengths (r : CreateRequest) :
    r.username.length = MAX_CHAR_USERID ∧ r.password.length = MAX_CHAR_USERPASS := by
  obtain ⟨husername, hpassword⟩ | ⟨-, hlengths⟩ := parseCredentials_cases r.parsed
  · rw [husername, hpassword]
    exact ⟨List.length_replicate, List.length_replicate⟩
  · exact hlengths

end CreateRequest

theorem cstr_ok_iff {buf s : List Byte} :
    cstr buf = .ok s ↔ ∃ junk, buf = terminated s junk ∧ 0 ∉ s := by
  constructor
  · intro h
    by_cases h0 : 0 ∈ buf
    · have hbuf := Argument.buf_ofBuf h0
      have hs := (Argument.ofBuf buf).cstr_buf
      rw [hbuf, h] at hs
      rw [Except.ok.inj hs]
      exact ⟨(Argument.ofBuf buf).junk, hbuf.symm, (Argument.ofBuf buf).nul_not_mem⟩
    · rw [cstr_unterminated h0] at h
      cases h
  · rintro ⟨junk, rfl, h0⟩
    exact cstr_terminated h0 junk

theorem usrCreate_eq (r : CreateRequest) (f : CredentialFile) {u p : List Byte}
    (hu : cstr r.username = .ok u) (hp : cstr r.password = .ok p) :
    usrCreate r.payload (UInt32.ofNat r.payload.length) f =
      (createUser r.username r.password f >>= fun created =>
        if created.1 > 0 then
          matchUserPw r.username r.password created.2 >>= fun matched =>
            .ok (UInt16.ofInt matched.1, 0, matched.2)
        else .ok (0, UInt8.ofInt ERR_USERNAME_EXIST, created.2)) := by
  rw [usrCreate, r.parsed]
  simp only [bind, Except.bind, hu, hp]
  cases createUser r.username r.password f with
  | error fault => rfl
  | ok created => rfl

theorem wellFormed_ledger (L : Ledger) : WellFormed L.file := by
  intro i l hl
  rw [L.lines_file, List.getElem?_map] at hl
  obtain ⟨e, he, rfl⟩ := Option.map_eq_some_iff.mp hl
  refine ⟨decimal e.uid, e.name, e.password ++ [newline], e.tokens_line, ?_⟩
  rw [scanInt_decimal e.uid_int, Ledger.uid_of_getElem? he]

theorem nameTaken_ledger {L : Ledger} {u : List Byte} : NameTaken L.file u ↔ L.Refuses u := by
  constructor
  · rintro ⟨i, l, uidS, uname, rest, hl, htok, hprefix, hi⟩
    rw [L.lines_file, List.getElem?_map] at hl
    obtain ⟨e, he, rfl⟩ := Option.map_eq_some_iff.mp hl
    rw [e.tokens_line] at htok
    obtain ⟨-, hname, -⟩ : _ ∧ e.name = uname ∧ _ := by simpa using htok
    exact ⟨e, List.mem_of_getElem? he, hname ▸ hprefix, by rw [Ledger.uid_of_getElem? he]; omega⟩
  · rintro ⟨e, he, hprefix, hlt⟩
    obtain ⟨i, hi⟩ := List.mem_iff_getElem?.mp he
    rw [Ledger.uid_of_getElem? hi] at hlt
    refine ⟨i, e.line, _, _, _, ?_, e.tokens_line, hprefix, by omega⟩
    rw [L.lines_file, List.getElem?_map, hi]
    rfl

/-- The answer of the handler after `create_user` has refused the username. -/
theorem registerStep_refused {L : Ledger} {r : CreateRequest} {u p : Argument}
    (hu : r.username = u.buf) (hp : r.password = p.buf) (h : L.Refuses u.str) :
    createUser r.username r.password L.file = .ok (ERR_USERNAME_EXIST, L.file) ∧
      registerStep L.file r = .ok ((0, UInt8.ofInt ERR_USERNAME_EXIST), L.file) := by
  have hcreate : createUser r.username r.password L.file = .ok (ERR_USERNAME_EXIST, L.file) := by
    rw [hu, hp]
    exact createUser_ok_iff.mpr (Or.inl ⟨h, rfl, rfl⟩)
  refine ⟨hcreate, ?_⟩
  rw [registerStep, usrCreate_eq r L.file (hu ▸ u.cstr_buf) (hp ▸ p.cstr_buf), hcreate]
  rfl

/-- The answer of the handler after a creation that extends the ledger. -/
theorem registerStep_extends {L : Ledger} {r : CreateRequest} {u p : Argument}
    (hu : r.username = u.buf) (hp : r.password = p.buf) (h : L.Admits u.str) (hne : u.str ≠ [])
    (huplain : Plain u.str) (hpplain : Plain p.str) :
    ∃ L' : Ledger, ∃ e : Entry, L'.entries = L.entries ++ [e] ∧
      e.uid = L.entries.length + 1 ∧ e.name = u.str ∧ e.password = p.str ∧
      createUser r.username r.password L.file = .ok (e.uid, L'.file) ∧
      registerStep L.file r = .ok ((UInt16.ofInt e.uid, 0), L'.file) := by
  obtain ⟨hulen, hplen⟩ := r.lengths
  have hult : u.str.length < MAX_CHAR_USERID := by
    rw [hu, Argument.buf, terminated, List.length_append, List.length_cons] at hulen
    omega
  have hplt : p.str.length < MAX_CHAR_USERPASS := by
    rw [hp, Argument.buf, terminated, List.length_append, List.length_cons] at hplen
    omega
  let e : Entry := ⟨L.entries.length + 1, u.str, p.str, Nat.succ_pos _, h.2, hne, huplain, hpplain⟩
  let L' : Ledger := L.extend e rfl hult hplt h
  have hcreate : createUser r.username r.password L.file = .ok ((e.uid : Int), L'.file) := by
    rw [hu, hp]
    exact createUser_ok_iff.mpr (Or.inr ⟨h, rfl, Ledger.file_extend⟩)
  have hmatch : matchUserPw r.username r.password L'.file = .ok ((e.uid : Int), L'.file) := by
    rw [hu, hp]
    exact Ledger.matchUserPw_file (List.mem_append_right _ List.mem_cons_self) rfl rfl
  refine ⟨L', e, rfl, rfl, rfl, rfl, hcreate, ?_⟩
  rw [registerStep, usrCreate_eq r L.file (hu ▸ u.cstr_buf) (hp ▸ p.cstr_buf), hcreate]
  simp only [bind, Except.bind, if_pos (show (e.uid : Int) > 0 by exact_mod_cast e.uid_pos),
    hmatch]
  rfl

/-- A line that is read has its newline at the end, if it has one. -/
theorem CredentialFile.newline_not_mem_dropLast {f : CredentialFile} {l : List Byte}
    (h : l ∈ f.lines) : newline ∉ l.dropLast := by
  obtain ⟨l', hl', rfl⟩ := List.mem_map.mp h
  have hno : newline ∉ l'.dropLast :=
    newline_not_mem_dropLast_of_mem_fgetsLines (le_refl _) hl'
  intro hmem
  obtain ⟨t, ht⟩ := List.takeWhile_prefix (l := l') fun b : Byte => decide (b ≠ 0)
  generalize l'.takeWhile (fun b => decide (b ≠ 0)) = a at ht hmem
  subst ht
  cases t with
  | nil => exact hno (by rwa [List.append_nil])
  | cons b t =>
      rw [List.dropLast_append_of_ne_nil (List.cons_ne_nil b t)] at hno
      exact hno (List.mem_append_left _ (List.dropLast_subset a hmem))

theorem mem_dropLast_of_mem {a w c : List Byte} {x b : Byte} (hb : b ∈ w) :
    b ∈ (a ++ (w ++ x :: c)).dropLast := by
  rw [← List.append_assoc, List.dropLast_append_of_ne_nil (List.cons_ne_nil x c)]
  exact List.mem_append_left _ (List.mem_append_right _ hb)

/-- A line that is read with exactly these three fields holds a username and a password that the
format can hold. -/
theorem plain_of_tokens {f : CredentialFile} {l uidS u p : List Byte} (hl : l ∈ f.lines)
    (htok : tokens l space = [uidS, u, p ++ [newline]]) : u ≠ [] ∧ Plain u ∧ Plain p := by
  have hnewline := CredentialFile.newline_not_mem_dropLast hl
  have h0 := CredentialFile.nul_not_mem_lines hl
  have huTok := mem_tokens (le_refl _) (htok ▸ List.mem_cons_of_mem _ List.mem_cons_self)
  have hpTok := mem_tokens (le_refl _)
    (htok ▸ List.mem_cons_of_mem _ (List.mem_cons_of_mem _ List.mem_cons_self))
  have hsplit : (∃ a c, l = a ++ (u ++ space :: c)) ∧ ∃ a c, l = a ++ (p ++ newline :: c) := by
    obtain ⟨a, rest, hrest, rfl | ⟨rfl, -⟩⟩ := tokens_cons_split htok
    · obtain ⟨b, rest', hrest', rfl | ⟨rfl, -⟩⟩ := tokens_cons_split hrest
      · refine ⟨⟨a ++ (uidS ++ space :: b), rest', by simp⟩, ?_⟩
        obtain ⟨d, rest'', -, rfl | ⟨-, rfl⟩⟩ := tokens_cons_split hrest'
        · exact ⟨a ++ (uidS ++ space :: (b ++ (u ++ space :: d))), space :: rest'', by simp⟩
        · exact ⟨a ++ (uidS ++ space :: (b ++ (u ++ space :: d))), [], by simp⟩
      · rw [tokens_none (strtok_nil space)] at hrest'
        cases hrest'
    · rw [tokens_none (strtok_nil space)] at hrest
      cases hrest
  obtain ⟨⟨a, c, hu⟩, ⟨a', c', hp⟩⟩ := hsplit
  have hin : ∀ b, b ∈ u ∨ b ∈ p → b ∈ l.dropLast := by
    rintro b (hb | hb)
    · exact hu ▸ mem_dropLast_of_mem hb
    · exact hp ▸ mem_dropLast_of_mem hb
  have hin0 : ∀ b, b ∈ u ∨ b ∈ p → b ≠ 0 := fun b hb hzero =>
    h0 (hzero ▸ List.dropLast_subset l (hin b hb))
  refine ⟨huTok.1, ⟨fun h => hin0 _ (Or.inl h) rfl, huTok.2, fun h => hnewline (hin _ (Or.inl h))⟩,
    ⟨fun h => hin0 _ (Or.inr h) rfl, ?_, fun h => hnewline (hin _ (Or.inr h))⟩⟩
  exact fun h => hpTok.2 (List.mem_append_left _ h)

theorem plain_of_addsLine {f f' : CredentialFile} {k : Int} {u p : List Byte}
    (h : AddsLine f f' k u p) : u ≠ [] ∧ Plain u ∧ Plain p := by
  obtain ⟨l, hlines, htok⟩ := h
  have hl : l ∈ f'.lines := hlines ▸ List.mem_append_right _ List.mem_cons_self
  exact plain_of_tokens hl htok

/-- On a ledger a request keeps the form of the file exactly when it is recordable, and what
it leaves is a ledger. -/
theorem recordable_ledger {L : Ledger} {r : CreateRequest} (h : Recordable L.file r) :
    KeepsForm L.file r ∧ ∃ L' : Ledger, ∃ reply, registerStep L.file r = .ok (reply, L'.file) := by
  obtain ⟨u, p, hu, hp, hor⟩ := h
  obtain ⟨ju, hubuf, hu0⟩ := cstr_ok_iff.mp hu
  obtain ⟨jp, hpbuf, hp0⟩ := cstr_ok_iff.mp hp
  let au : Argument := ⟨u, ju, hu0⟩
  let ap : Argument := ⟨p, jp, hp0⟩
  by_cases hrefuses : L.Refuses u
  · obtain ⟨hcreate, hreply⟩ := registerStep_refused (u := au) (p := ap) hubuf hpbuf hrefuses
    refine ⟨⟨_, _, _, u, p, hu, hp, hcreate, hreply, wellFormed_ledger L, ?_⟩, L, _, hreply⟩
    exact fun hpos => absurd hpos (show ¬ (0 : Int) < ERR_USERNAME_EXIST by decide)
  · obtain htaken | ⟨hne, huplain, hpplain, hcount⟩ := hor
    · exact absurd (nameTaken_ledger.mp htaken) hrefuses
    · rw [L.length_lines] at hcount
      have hadmits : L.Admits u := (L.refuses_or_admits hcount u).resolve_left hrefuses
      obtain ⟨L', e, hentries, huid, hname, hpassword, hcreate, hreply⟩ :=
        registerStep_extends (u := au) (p := ap) hubuf hpbuf hadmits hne huplain hpplain
      refine ⟨⟨_, _, _, u, p, hu, hp, hcreate, hreply, wellFormed_ledger L', fun _ => ?_⟩,
        L', _, hreply⟩
      refine ⟨e.line, ?_, ?_⟩
      · rw [L'.lines_file, L.lines_file, hentries, List.map_append, List.map_singleton]
      · rw [e.tokens_line, hname, hpassword]
        rfl

theorem keepsForm_ledger {L : Ledger} {r : CreateRequest} :
    KeepsForm L.file r ↔ Recordable L.file r := by
  constructor
  · rintro ⟨k, f', reply, u, p, hu, hp, hcreate, -, -, hadds⟩
    refine ⟨u, p, hu, hp, ?_⟩
    obtain ⟨ju, hubuf, hu0⟩ := cstr_ok_iff.mp hu
    obtain ⟨jp, hpbuf, hp0⟩ := cstr_ok_iff.mp hp
    let au : Argument := ⟨u, ju, hu0⟩
    let ap : Argument := ⟨p, jp, hp0⟩
    have hcases : createUser au.buf ap.buf L.file = .ok (k, f') ↔ _ := createUser_ok_iff
    rw [hubuf, hpbuf] at hcreate
    obtain ⟨hrefuses, -, -⟩ | ⟨hadmits, rfl, rfl⟩ := hcases.mp hcreate
    · exact Or.inl (nameTaken_ledger.mpr hrefuses)
    · obtain ⟨hne, huplain, hpplain⟩ := plain_of_addsLine (hadds (by omega))
      refine Or.inr ⟨hne, huplain, hpplain, ?_⟩
      rw [L.length_lines]
      exact hadmits.2
  · exact fun h => (recordable_ledger h).1

/-- A sequence of requests from the empty file keeps its form exactly when every request that
is reached is recordable. -/
theorem staysWellFormed_iff (rs : List CreateRequest) :
    Lts.Along registerStep ⟨[], 0⟩ rs (fun _ f r => KeepsForm f r) ↔
      Lts.Along registerStep ⟨[], 0⟩ rs (fun _ f r => Recordable f r) := by
  let IsLedger : List (Lts.Taken CredentialFile CreateRequest (UInt16 × UInt8)) →
      CredentialFile → Prop := fun _ f => ∃ L : Ledger, f = L.file
  have hstart : IsLedger [] ⟨[], 0⟩ := ⟨Ledger.empty, rfl⟩
  refine Lts.along_iff hstart ?_ ?_ rs
  · rintro h f r - ⟨L, rfl⟩
    exact keepsForm_ledger
  · rintro h f r reply f' - ⟨L, rfl⟩ hrec taken
    obtain ⟨-, L', reply', hreply⟩ := recordable_ledger hrec
    obtain ⟨-, rfl⟩ := Prod.mk.inj (Except.ok.inj (hreply.symm.trans taken))
    exact ⟨L', rfl⟩

/-- The payload `:pw`, whose username is empty. -/
def emptyName : CreateRequest where
  payload := [58, 112, 119]
  payload_lt := by decide
  username := List.replicate 8 0
  password := [112, 119] ++ List.replicate 126 0
  parsed := by decide +kernel

theorem emptyName_breaks_form :
    ¬ Lts.Along registerStep ⟨[], 0⟩ [emptyName] (fun _ f r => KeepsForm f r) := by
  intro h
  obtain ⟨k, f', reply, u, p, -, -, hcreate, -, hform, -⟩ :=
    h [] _ emptyName Lts.Run.start (List.prefix_refl _)
  have hrun : createUser emptyName.username emptyName.password ⟨[], 0⟩ =
      .ok (1, ⟨credentialLine 1 [] [112, 119], 0⟩) := by
    decide +kernel
  obtain ⟨rfl, rfl⟩ := Prod.mk.inj (Except.ok.inj (hrun.symm.trans hcreate))
  have hline : CredentialFile.lines ⟨credentialLine 1 [] [112, 119], 0⟩ =
      [[49, 32, 32, 112, 119, 10]] := by
    decide +kernel
  obtain ⟨uidS, uname, pw, htok, -⟩ := hform 0 [49, 32, 32, 112, 119, 10] (by rw [hline]; rfl)
  have htwo : tokens [49, 32, 32, 112, 119, 10] space = [[49], [112, 119, 10]] := by
    decide +kernel
  rw [htwo] at htok
  cases htok

end GroupChat
