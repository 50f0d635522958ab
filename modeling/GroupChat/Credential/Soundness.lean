import GroupChat.Credential.Accounts

/-!
# What `match_user_pw` accepts

A file of accounts is a list of entries with distinct uids. `match_user_pw` is sound on it
when its result is `ERR_GENERIC` or the uid of an entry with exactly the name and the password
that were asked for. The scan passes over a line whose name is no prefix of the username or
whose password is no prefix of the password, and stops at the first line it does not pass;
`fgets` cuts a line of more than 255 bytes, so a line here is a piece of what was written.
`matchSound_iff` says that the result is sound exactly when the scan stops nowhere or at the
line of an entry with the name and the password asked for.
-/

namespace GroupChat

open Posix

structure AccountFile where
  entries : List Entry
  distinct : (entries.map Entry.uid).Nodup

namespace AccountFile

def file (A : AccountFile) : CredentialFile := ⟨fileOf A.entries, 0⟩

/-- Distinct uids tell the entries apart. -/
theorem eq_of_uid {A : AccountFile} {e e' : Entry} (he : e ∈ A.entries) (he' : e' ∈ A.entries)
    (h : e.uid = e'.uid) : e = e' :=
  List.inj_on_of_nodup_map A.distinct he he' h

theorem mem_lines {A : AccountFile} {l : List Byte} (h : l ∈ A.file.lines) :
    ∃ e ∈ A.entries, l = e.line.take 255 ∨ l ∈ fgetsLines 256 (e.line.drop 255) := by
  rw [file, lines_fileOf] at h
  obtain ⟨e, he, hl⟩ := List.mem_flatMap.mp h
  have hfirst := fgetsLines_first (show 2 ≤ 256 by decide) e.newline_not_mem_body
  rw [← e.line_eq] at hfirst
  rw [hfirst] at hl
  exact ⟨e, he, List.mem_cons.mp hl⟩

end AccountFile

/-- The result of `match_user_pw` is the uid of an entry with the name and the password asked
for, or `ERR_GENERIC`. -/
def MatchSound (A : AccountFile) (username password : Argument) : Prop :=
  ∃ k f, matchUserPw username.buf password.buf A.file = .ok (k, f) ∧
    (k = ERR_GENERIC ∨
      ∃ e ∈ A.entries, (e.uid : Int) = k ∧ e.name = username.str ∧ e.password = password.str)

/-! ## One line of the scan -/

/-- The scan goes on after this line. -/
def Passes (username password line : List Byte) : Prop :=
  ∃ uidS uname rest n, tokens line space = uidS :: uname :: rest ∧ scanInt uidS = .ok n ∧
    (¬ uname <+: username ∨ ∃ pw rest', rest = pw :: rest' ∧ ¬ pw.dropLast <+: password)

/-- The comparison of a password token leaves its last byte out. -/
theorem strncmp_token {pw : List Byte} (password : Argument) (h0 : 0 ∉ pw) :
    ∃ c, strncmp password.buf pw (pw.length - 1) = .ok c ∧
      (c = 0 ↔ pw.dropLast <+: password.str) := by
  obtain ⟨c, hc, hiff⟩ := strncmp_prefix password.junk password.nul_not_mem h0 (Nat.sub_le _ 1)
  exact ⟨c, hc, by rw [hiff, List.dropLast_eq_take]⟩

section Scan

variable (username password : Argument)

theorem matchUserPwLoop_passes {line : List Byte} (h0 : 0 ∉ line)
    (h : Passes username.str password.str line) (uid : Int) :
    ∃ uid', ∀ rest, matchUserPwLoop username.buf password.buf (line :: rest) uid =
      matchUserPwLoop username.buf password.buf rest uid' := by
  obtain ⟨uidS, uname, ts, n, htok, hscan, hor⟩ := h
  obtain ⟨save, hnext, hsave, -, -, h0save⟩ := nextToken_some htok h0
  obtain ⟨save', hnext', hsave', -, h0name, h0save'⟩ := nextToken_some hsave h0save
  obtain ⟨c, hc, hname⟩ := strncmp_stored username.nul_not_mem h0name username.junk
  refine ⟨n.getD uid, fun rest => ?_⟩
  simp only [matchUserPwLoop, hnext, scanUid, hscan, hnext', Except.map, bind, Except.bind]
  rw [Argument.buf, hc]
  by_cases hpre : uname <+: username.str
  · obtain hno | ⟨pw, ts', rfl, hpw⟩ := hor
    · exact absurd hpre hno
    · obtain ⟨save'', hnext'', -, -, h0pw, -⟩ := nextToken_some hsave' h0save'
      obtain ⟨d, hd, hiff⟩ := strncmp_token password h0pw
      simp only [if_pos (hname.mpr hpre), hnext'', hd, if_neg (fun h => hpw (hiff.mp h))]
  · simp only [if_neg (fun h => hpre (hname.mp h))]

/-- A line with the three tokens, a prefix of the username and a prefix of the password ends
the scan with its uid. -/
theorem matchUserPwLoop_match {line uidS uname pw : List Byte} {ts : List (List Byte)}
    {n : Option Int} (h0 : 0 ∉ line) (htok : tokens line space = uidS :: uname :: pw :: ts)
    (hscan : scanInt uidS = .ok n) (hname : uname <+: username.str)
    (hpw : pw.dropLast <+: password.str) (rest : List (List Byte)) (uid : Int) :
    matchUserPwLoop username.buf password.buf (line :: rest) uid = .ok (n.getD uid) := by
  obtain ⟨save, hnext, hsave, -, -, h0save⟩ := nextToken_some htok h0
  obtain ⟨save', hnext', hsave', -, h0name, h0save'⟩ := nextToken_some hsave h0save
  obtain ⟨save'', hnext'', -, -, h0pw, -⟩ := nextToken_some hsave' h0save'
  obtain ⟨c, hc, hciff⟩ := strncmp_stored username.nul_not_mem h0name username.junk
  obtain ⟨d, hd, hdiff⟩ := strncmp_token password h0pw
  have hcstr : cstr (terminated username.str username.junk) = .ok username.str :=
    cstr_terminated username.nul_not_mem _
  simp only [matchUserPwLoop, hnext, scanUid, hscan, hnext', Except.map, bind, Except.bind]
  simp only [Argument.buf] at hd ⊢
  simp only [hc, hciff.mpr hname, if_true, hnext'', hd, hdiff.mpr hpw, hcstr]
  rfl

/-- A line that is not passed over ends the scan, with a result only if it has three tokens. -/
theorem matchUserPwLoop_stops {line : List Byte} (h0 : 0 ∉ line)
    (h : ¬ Passes username.str password.str line) {rest : List (List Byte)} {uid k : Int}
    (hk : matchUserPwLoop username.buf password.buf (line :: rest) uid = .ok k) :
    ∃ uidS uname pw ts n, tokens line space = uidS :: uname :: pw :: ts ∧
      scanInt uidS = .ok n ∧ k = n.getD uid := by
  cases htok : tokens line space with
  | nil =>
      simp only [matchUserPwLoop, nextToken_none htok, bind, Except.bind, reduceCtorEq] at hk
  | cons uidS ts =>
      obtain ⟨save, hnext, hsave, -, -, h0save⟩ := nextToken_some htok h0
      simp only [matchUserPwLoop, hnext, scanUid, bind, Except.bind] at hk
      cases hscan : scanInt uidS with
      | error fault =>
          simp only [hscan, Except.map, reduceCtorEq] at hk
      | ok n =>
          simp only [hscan, Except.map] at hk
          cases ts with
          | nil =>
              simp only [nextToken_none hsave, reduceCtorEq] at hk
          | cons uname ts =>
              obtain ⟨save', hnext', hsave', -, h0name, h0save'⟩ := nextToken_some hsave h0save
              obtain ⟨c, hc, hciff⟩ := strncmp_stored username.nul_not_mem h0name username.junk
              have hpre : uname <+: username.str := by
                by_contra hno
                exact h ⟨uidS, uname, ts, n, htok, hscan, Or.inl hno⟩
              simp only [hnext', Argument.buf, hc, if_pos (hciff.mpr hpre)] at hk
              cases ts with
              | nil =>
                  simp only [nextToken_none hsave', reduceCtorEq] at hk
              | cons pw ts =>
                  have hpw : pw.dropLast <+: password.str := by
                    by_contra hno
                    exact h ⟨uidS, uname, _, n, htok, hscan, Or.inr ⟨pw, ts, rfl, hno⟩⟩
                  have hmatch := matchUserPwLoop_match username password h0 htok hscan hpre hpw
                    rest uid
                  refine ⟨uidS, uname, pw, ts, n, rfl, hscan, ?_⟩
                  simp only [matchUserPwLoop, hnext, scanUid, hscan, Except.map, hnext', bind,
                    Except.bind, Argument.buf, hc, if_pos (hciff.mpr hpre)] at hmatch
                  exact Except.ok.inj (hk.symm.trans hmatch)

theorem matchUserPwLoop_append {pre : List (List Byte)} (h0 : ∀ l ∈ pre, 0 ∉ l)
    (h : ∀ l ∈ pre, Passes username.str password.str l) (uid : Int) :
    ∃ uid', ∀ rest, matchUserPwLoop username.buf password.buf (pre ++ rest) uid =
      matchUserPwLoop username.buf password.buf rest uid' := by
  induction pre generalizing uid with
  | nil => exact ⟨uid, fun rest => rfl⟩
  | cons l pre ih =>
      rw [List.forall_mem_cons] at h0 h
      obtain ⟨uid', hl⟩ := matchUserPwLoop_passes username password h0.1 h.1 uid
      obtain ⟨uid'', hpre⟩ := ih h0.2 h.2 uid'
      refine ⟨uid'', fun rest => ?_⟩
      rw [List.cons_append, hl, hpre]

end Scan

/-! ## The pieces of an account line -/

namespace Entry

/-- The first piece of the line holds some of the password field. -/
def Room (e : Entry) : Prop := (decimal e.uid).length + e.name.length + 2 < 255

theorem tokens_first {e : Entry} (h : e.Room) :
    ∃ pw, tokens (e.line.take 255) space = [decimal e.uid, e.name, pw] ∧
      pw.dropLast <+: e.password := by
  rw [Room] at h
  have hline : e.line.take 255 = decimal e.uid ++ space :: (e.name ++ space ::
      (e.password ++ [newline]).take (255 - (decimal e.uid).length - 1 - e.name.length - 1)) := by
    have hd : 255 - (decimal e.uid).length =
        255 - (decimal e.uid).length - 1 - e.name.length - 1 + 1 + e.name.length + 1 := by omega
    rw [line, credentialLine, List.take_append, List.take_of_length_le (by omega), hd,
      List.take_succ_cons, List.take_append, List.take_of_length_le (by omega),
      Nat.add_sub_cancel_right, List.take_succ_cons, Nat.add_sub_cancel_right]
    congr 6
    omega
  refine ⟨(e.password ++ [newline]).take (255 - (decimal e.uid).length - 1 - e.name.length - 1),
    ?_, ?_⟩
  · have hspace : space ∉ e.password ++ [newline] :=
      List.not_mem_append e.password_plain.2.1 (by decide)
    have hne : (e.password ++ [newline]).take
        (255 - (decimal e.uid).length - 1 - e.name.length - 1) ≠ [] := by
      apply List.ne_nil_of_length_pos
      rw [List.length_take, List.length_append, List.length_singleton]
      omega
    rw [hline, tokens_word (decimal_ne_nil _) (not_mem_decimal rfl _),
      tokens_word e.name_ne e.name_plain.2.1,
      tokens_last hne (fun hmem => hspace (List.mem_of_mem_take hmem))]
  · rw [List.dropLast_eq_take, List.take_take, List.length_take, List.length_append,
      List.length_singleton, List.take_append_of_le_length (by omega)]
    exact List.take_prefix _ _

theorem tokens_first_tight {e : Entry} (h : ¬ e.Room) :
    (tokens (e.line.take 255) space).length ≤ 2 := by
  rw [Room, not_lt] at h
  have hlen := length_decimal_le e.uid_int
  have hline : e.line = (decimal e.uid ++ space :: (e.name ++ [space])) ++
      (e.password ++ [newline]) := by
    simp only [line, credentialLine, List.append_assoc, List.cons_append, List.nil_append]
  have htake : e.line.take 255 = (decimal e.uid ++ space :: (e.name ++ [space])).take 255 := by
    rw [hline, List.take_append_of_le_length]
    simp only [List.length_append, List.length_cons, List.length_nil]
    omega
  have hd : 255 = (decimal e.uid).length + (254 - (decimal e.uid).length + 1) := by omega
  rw [htake, hd, List.take_length_add_append, List.take_succ_cons,
    tokens_word (decimal_ne_nil _) (not_mem_decimal rfl _), List.length_cons]
  refine Nat.succ_le_succ ?_
  by_cases hcut : 254 - (decimal e.uid).length ≤ e.name.length
  · rw [List.take_append_of_le_length hcut]
    refine (length_tokens_le (le_refl _)).trans ?_
    rw [List.count_eq_zero.mpr fun hmem => e.name_plain.2.1 (List.mem_of_mem_take hmem)]
  · rw [List.take_of_length_le (by simp; omega), tokens_word e.name_ne e.name_plain.2.1,
      tokens_none (strtok_nil space)]
    exact le_refl 1

theorem tokens_later {e : Entry} {l : List Byte} (h : l ∈ fgetsLines 256 (e.line.drop 255)) :
    (tokens l space).length ≤ 2 := by
  have hlen := length_decimal_le e.uid_int
  have hcount : (e.line.drop 255).count space ≤ 1 := by
    have hd : 255 = (decimal e.uid).length + (254 - (decimal e.uid).length + 1) := by omega
    have hfields : (e.name ++ space :: (e.password ++ [newline])).count space = 1 := by
      rw [List.count_append, List.count_eq_zero.mpr e.name_plain.2.1, List.count_cons_self,
        List.count_append, List.count_eq_zero.mpr e.password_plain.2.1]
      rfl
    rw [line, credentialLine, hd, List.drop_length_add_append, List.drop_succ_cons, ← hfields]
    exact (List.drop_sublist _ _).count_le _
  have hsub : l.Sublist (e.line.drop 255) := by
    rw [← fgetsLines_flatten 256 (le_refl (e.line.drop 255).length)]
    exact List.sublist_flatten_of_mem h
  exact (length_tokens_le (le_refl _)).trans
    (Nat.succ_le_succ ((hsub.count_le space).trans hcount))

end Entry

/-! ## Soundness -/

/-- Where the scan stops, it stops at the line of an entry with the name and the password asked
for, and the first piece of that line holds some of the password. -/
def StopsExactly (A : AccountFile) (username password : Argument) : Prop :=
  ∀ pre l post, A.file.lines = pre ++ l :: post →
    (∀ l' ∈ pre, Passes username.str password.str l') → ¬ Passes username.str password.str l →
    ∃ e ∈ A.entries, l = e.line.take 255 ∧ e.Room ∧ e.name = username.str ∧
      e.password = password.str

theorem first_not_passed (username password : List Byte) (ls : List (List Byte)) :
    (∀ l ∈ ls, Passes username password l) ∨
      ∃ pre l post, ls = pre ++ l :: post ∧ (∀ l' ∈ pre, Passes username password l') ∧
        ¬ Passes username password l := by
  induction ls with
  | nil => exact Or.inl fun l hl => absurd hl List.not_mem_nil
  | cons l ls ih =>
      by_cases h : Passes username password l
      · obtain hall | ⟨pre, l', post, rfl, hpre, hl'⟩ := ih
        · exact Or.inl (List.forall_mem_cons.mpr ⟨h, hall⟩)
        · exact Or.inr ⟨l :: pre, l', post, rfl, List.forall_mem_cons.mpr ⟨h, hpre⟩, hl'⟩
      · exact Or.inr ⟨[], l, ls, rfl, fun l' hl' => absurd hl' List.not_mem_nil, h⟩

/-- A line with three tokens is the first piece of an account line. -/
theorem AccountFile.entry_of_tokens {A : AccountFile} {l uidS uname pw : List Byte}
    {ts : List (List Byte)} (hl : l ∈ A.file.lines)
    (htok : tokens l space = uidS :: uname :: pw :: ts) :
    ∃ e ∈ A.entries, l = e.line.take 255 ∧ e.Room ∧ uidS = decimal e.uid := by
  have hthree : 2 < (tokens l space).length := by simp [htok]
  obtain ⟨e, he, rfl | hlater⟩ := mem_lines hl
  · have hroom : e.Room := by
      by_contra hno
      exact absurd (Entry.tokens_first_tight hno) (not_le.mpr hthree)
    obtain ⟨pw', htok', -⟩ := Entry.tokens_first hroom
    rw [htok] at htok'
    exact ⟨e, he, rfl, hroom, (List.cons.inj htok').1⟩
  · exact absurd (Entry.tokens_later hlater) (not_le.mpr hthree)

/-- `match_user_pw` accepts a pair exactly soundly when its scan stops exactly. -/
theorem matchSound_iff (A : AccountFile) (username password : Argument) :
    MatchSound A username password ↔ StopsExactly A username password := by
  have hloop := matchUserPw_eq username.buf password.buf A.file
  constructor
  · rintro ⟨k, f, hk, hsound⟩ pre l post hlines hpre hl
    have h0 : ∀ l' ∈ pre ++ l :: post, 0 ∉ l' := fun l' hl' =>
      CredentialFile.nul_not_mem_lines (hlines ▸ hl')
    have hmem : l ∈ A.file.lines := hlines ▸ List.mem_append_right pre List.mem_cons_self
    obtain ⟨uid, hskip⟩ := matchUserPwLoop_append username password
      (fun l' hl' => h0 l' (List.mem_append_left _ hl')) hpre 0
    rw [hloop, hlines, hskip] at hk
    cases hstop : matchUserPwLoop username.buf password.buf (l :: post) uid with
    | error fault =>
        rw [hstop] at hk
        cases hk
    | ok k' =>
        rw [hstop] at hk
        obtain ⟨rfl, -⟩ := Prod.mk.inj (Except.ok.inj hk)
        obtain ⟨uidS, uname, pw, ts, n, htok, hscan, hk'⟩ :=
          matchUserPwLoop_stops username password (CredentialFile.nul_not_mem_lines hmem) hl hstop
        obtain ⟨e, he, hpiece, hroom, rfl⟩ := AccountFile.entry_of_tokens hmem htok
        rw [scanInt_decimal e.uid_int] at hscan
        obtain rfl := Except.ok.inj hscan
        have huid : k' = e.uid := hk'
        obtain herr | ⟨e', he', huid', hname, hpassword⟩ := hsound
        · exact absurd (huid.symm.trans herr) (by simp [ERR_GENERIC])
        · have hsame : e' = e :=
            AccountFile.eq_of_uid he' he (by exact_mod_cast huid'.trans huid)
          exact ⟨e, he, hpiece, hroom, hsame ▸ hname, hsame ▸ hpassword⟩
  · intro h
    obtain hall | ⟨pre, l, post, hlines, hpre, hl⟩ :=
      first_not_passed username.str password.str A.file.lines
    · obtain ⟨uid, hskip⟩ := matchUserPwLoop_append username password
        (fun l' hl' => CredentialFile.nul_not_mem_lines hl') hall 0
      have hnil := hskip []
      rw [List.append_nil] at hnil
      refine ⟨ERR_GENERIC, A.file, ?_, Or.inl rfl⟩
      rw [hloop, hnil]
      rfl
    · obtain ⟨e, he, rfl, hroom, hname, hpassword⟩ := h pre l post hlines hpre hl
      have h0 : ∀ l' ∈ pre ++ e.line.take 255 :: post, 0 ∉ l' := fun l' hl' =>
        CredentialFile.nul_not_mem_lines (hlines ▸ hl')
      obtain ⟨uid, hskip⟩ := matchUserPwLoop_append username password
        (fun l' hl' => h0 l' (List.mem_append_left _ hl')) hpre 0
      obtain ⟨pw, htok, hpw⟩ := Entry.tokens_first hroom
      have hstop := matchUserPwLoop_match username password
        (h0 _ (List.mem_append_right pre List.mem_cons_self)) htok
        (scanInt_decimal e.uid_int) (hname ▸ List.prefix_refl e.name) (hpassword ▸ hpw) post uid
      refine ⟨e.uid, A.file, ?_, Or.inr ⟨e, he, rfl, hname, hpassword⟩⟩
      rw [hloop, hlines, hskip, hstop]
      rfl

/-- Where every line fits the buffer, the first entry whose name and password are prefixes
decides. -/
theorem matchSound_of_fits_iff {A : AccountFile} (hfit : ∀ e ∈ A.entries, e.Fits)
    (username password : Argument) :
    MatchSound A username password ↔
      ∀ e, A.entries.find? (fun e => e.name <+: username.str ∧ e.password <+: password.str) =
        some e → e.name = username.str ∧ e.password = password.str := by
  have hrun := matchUserPwLoop_fileOf username.nul_not_mem password.nul_not_mem username.junk
    password.junk A.entries 0
  rw [← lines_fileOf_fits hfit 0] at hrun
  have heq := matchUserPw_eq username.buf password.buf A.file
  rw [Argument.buf, Argument.buf, AccountFile.file, hrun] at heq
  rw [MatchSound, Argument.buf, Argument.buf, AccountFile.file, heq]
  cases hfind : A.entries.find?
      (fun e => e.name <+: username.str ∧ e.password <+: password.str) with
  | none =>
      refine iff_of_true ⟨ERR_GENERIC, _, rfl, Or.inl rfl⟩ ?_
      intro e he
      cases he
  | some e =>
      have hmem := List.mem_of_find?_eq_some hfind
      constructor
      · rintro ⟨k, f, hk, hsound⟩ e' he'
        cases he'
        cases hk
        rcases hsound with herr | ⟨e', he', huid, hname, hpassword⟩
        · exact absurd herr (by simp [ERR_GENERIC])
        · have huid' : (e'.uid : Int) = e.uid := huid
          cases AccountFile.eq_of_uid he' hmem (by exact_mod_cast huid')
          exact ⟨hname, hpassword⟩
      · intro hexact
        obtain ⟨hname, hpassword⟩ := hexact e rfl
        exact ⟨e.uid, _, rfl, Or.inr ⟨e, hmem, rfl, hname, hpassword⟩⟩

/-- Account 1 is `bob` with password `pw`. -/
def bob : Entry where
  uid := 1
  name := [98, 111, 98]
  password := [112, 119]
  uid_pos := by decide
  uid_int := by decide
  name_ne := by decide
  name_plain := ⟨by decide, by decide, by decide⟩
  password_plain := ⟨by decide, by decide, by decide⟩

/-- `bobby` with password `pwned`. -/
def bobbyArgument : Argument := ⟨[98, 111, 98, 98, 121], [0, 0], by decide⟩

def pwnedArgument : Argument := ⟨[112, 119, 110, 101, 100], [0], by decide⟩

theorem bobby_matches_bob :
    ¬ MatchSound ⟨[bob], by decide⟩ bobbyArgument pwnedArgument := by
  rintro ⟨k, f, hk, hsound⟩
  have hrun : matchUserPw bobbyArgument.buf pwnedArgument.buf ⟨fileOf [bob], 0⟩ =
      .ok (1, ⟨fileOf [bob], 0⟩) := by
    decide +kernel
  obtain ⟨rfl, rfl⟩ := Prod.mk.inj (Except.ok.inj (hrun.symm.trans hk))
  obtain herr | ⟨e, he, -, hname, -⟩ := hsound
  · exact absurd herr (by decide)
  · obtain rfl := List.mem_singleton.mp he
    exact absurd hname (by decide)

end GroupChat
