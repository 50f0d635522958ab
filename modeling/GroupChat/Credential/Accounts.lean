import GroupChat.Credential

/-!
# Accounts and the files that hold them

An `Entry` is an account whose uid is an `int` and whose name and password hold none of the
bytes the file format uses; `fileOf` is the file with one line for each entry. On such a
file, with lines that fit the buffer, each scanner is a search of the list of entries:
`findUidLoop_fileOf`, `findUsernameLoop_fileOf`, `matchUserPwLoop_fileOf` and
`createUserLoop_fileOf`. The comparisons are prefix comparisons, as `strncmp` over the
length of the stored string makes them.
-/

namespace GroupChat

open Posix

/-- None of the bytes that end a field, a line or a string. -/
def Plain (s : List Byte) : Prop := 0 ∉ s ∧ space ∉ s ∧ newline ∉ s

/-- The array that holds a string, with whatever follows the terminator. -/
def terminated (s junk : List Byte) : List Byte := s ++ 0 :: junk

/-- A string argument of the credential functions. -/
structure Argument where
  str : List Byte
  junk : List Byte
  nul_not_mem : 0 ∉ str

namespace Argument

def buf (a : Argument) : List Byte := terminated a.str a.junk

theorem cstr_buf (a : Argument) : cstr a.buf = .ok a.str := cstr_terminated a.nul_not_mem a.junk

/-- Every array with a terminator holds a string. -/
def ofBuf (buf : List Byte) : Argument where
  str := buf.takeWhile (· ≠ 0)
  junk := (buf.dropWhile (· ≠ 0)).tail
  nul_not_mem := nul_not_mem_takeWhile buf

theorem buf_ofBuf {buf : List Byte} (h : 0 ∈ buf) : (ofBuf buf).buf = buf := by
  have hne : buf.dropWhile (· ≠ 0) ≠ [] := by
    intro hnil
    have hall := List.dropWhile_eq_nil_iff.mp hnil 0 h
    exact of_decide_eq_true hall rfl
  obtain ⟨b, rest, hdrop⟩ := List.exists_cons_of_ne_nil hne
  have hb : b = 0 := by
    have hhead := List.head?_dropWhile_not (fun x : Byte => decide (x ≠ 0)) buf
    rw [hdrop] at hhead
    simpa using hhead
  have hsplit := List.takeWhile_append_dropWhile (p := fun x : Byte => decide (x ≠ 0)) (l := buf)
  rw [hdrop, hb] at hsplit
  rw [Argument.buf, terminated, ofBuf, hdrop, List.tail_cons]
  exact hsplit

end Argument

theorem nextToken_none {s : List Byte} (h : tokens s space = []) :
    nextToken s = .error .nullPointer := by
  cases htok : strtok s space with
  | none =>
      rw [nextToken, htok]
  | some r =>
      rw [tokens_some htok] at h
      cases h

theorem nextToken_some {s t : List Byte} {ts : List (List Byte)} (h : tokens s space = t :: ts)
    (h0 : 0 ∉ s) : ∃ save, nextToken s = .ok (t, save) ∧ tokens save space = ts ∧
      t ≠ [] ∧ 0 ∉ t ∧ 0 ∉ save := by
  cases htok : strtok s space with
  | none =>
      rw [tokens_none htok] at h
      cases h
  | some r =>
      obtain ⟨t', save⟩ := r
      rw [tokens_some htok] at h
      obtain ⟨rfl, rfl⟩ := List.cons.inj h
      refine ⟨save, by rw [nextToken, htok], rfl, (strtok_spec htok).1, ?_⟩
      obtain ⟨skipped, rfl | ⟨rfl, rfl⟩⟩ := strtok_split htok
      · simp only [List.mem_append, List.mem_cons, not_or] at h0
        exact ⟨h0.2.1, h0.2.2.2⟩
      · rw [List.mem_append, not_or] at h0
        exact ⟨h0.2, List.not_mem_nil⟩

theorem CredentialFile.nul_not_mem_lines {f : CredentialFile} {l : List Byte} (h : l ∈ f.lines) :
    0 ∉ l := by
  obtain ⟨l', -, rfl⟩ := List.mem_map.mp h
  exact nul_not_mem_takeWhile l'

/-! ## Lines and their accounts -/

/-- What the scanners for a name look at in a line. -/
structure Account where
  uid : Int
  name : List Byte

/-- The line begins with the uid and the name of the account. -/
def Account.On (a : Account) (line : List Byte) : Prop :=
  0 ∉ line ∧ ∃ uidS rest, tokens line space = uidS :: a.name :: rest ∧
    scanInt uidS = .ok (some a.uid)

/-- The lines have these accounts, one each. -/
def Lists (lines : List (List Byte)) (as : List Account) : Prop :=
  List.Forall₂ (fun line a => a.On line) lines as

/-- What the two tokens are to the scanners. -/
theorem Account.On.tokens {a : Account} {line : List Byte} (h : a.On line) :
    ∃ uidS save rest, nextToken line = .ok (uidS, save) ∧ (∀ uid, scanUid uidS uid = .ok a.uid) ∧
      nextToken save = .ok (a.name, rest) ∧ 0 ∉ a.name := by
  obtain ⟨h0, uidS, rest, htok, hscan⟩ := h
  obtain ⟨save, hnext, hsave, -, -, h0save⟩ := nextToken_some htok h0
  obtain ⟨save', hnext', -, -, h0name, -⟩ := nextToken_some hsave h0save
  refine ⟨uidS, save, save', hnext, fun uid => ?_, hnext', h0name⟩
  rw [scanUid, hscan]
  rfl

structure Entry where
  uid : Nat
  name : List Byte
  password : List Byte
  uid_pos : 0 < uid
  uid_int : uid < 2 ^ 31
  name_ne : name ≠ []
  name_plain : Plain name
  password_plain : Plain password

namespace Entry

/-- The line of an entry without its newline. -/
def body (e : Entry) : List Byte :=
  decimal e.uid ++ space :: (e.name ++ space :: e.password)

def line (e : Entry) : List Byte := credentialLine e.uid e.name e.password

theorem line_eq (e : Entry) : e.line = e.body ++ [newline] := by
  simp only [line, body, credentialLine, List.append_assoc, List.cons_append]

theorem newline_not_mem_body (e : Entry) : newline ∉ e.body := by
  simp only [body, List.mem_append, List.mem_cons, not_or]
  exact ⟨not_mem_decimal rfl _, by decide, e.name_plain.2.2, by decide, e.password_plain.2.2⟩

theorem nul_not_mem_line (e : Entry) : 0 ∉ e.line := by
  simp only [line, credentialLine, List.mem_append, List.mem_cons, not_or, List.not_mem_nil,
    not_false_eq_true, and_true]
  exact ⟨not_mem_decimal rfl _, by decide, e.name_plain.1, by decide, e.password_plain.1, by decide⟩

theorem nextToken_uid (e : Entry) : nextToken e.line =
    .ok (decimal e.uid, e.name ++ space :: (e.password ++ [newline])) := by
  rw [line, credentialLine, nextToken, strtok_word (decimal_ne_nil _) (not_mem_decimal rfl _)]

theorem nextToken_name (e : Entry) : nextToken (e.name ++ space :: (e.password ++ [newline])) =
    .ok (e.name, e.password ++ [newline]) := by
  rw [nextToken, strtok_word e.name_ne e.name_plain.2.1]

theorem nextToken_password (e : Entry) :
    nextToken (e.password ++ [newline]) = .ok (e.password ++ [newline], []) := by
  have hspace : space ∉ e.password ++ [newline] :=
    List.not_mem_append e.password_plain.2.1 (by decide)
  rw [nextToken, strtok_last (by simp) hspace]

theorem tokens_line (e : Entry) :
    tokens e.line space = [decimal e.uid, e.name, e.password ++ [newline]] := by
  have hspace : space ∉ e.password ++ [newline] :=
    List.not_mem_append e.password_plain.2.1 (by decide)
  rw [line, credentialLine, tokens_word (decimal_ne_nil _) (not_mem_decimal rfl _),
    tokens_word e.name_ne e.name_plain.2.1, tokens_last (by simp) hspace]

theorem scanUid_uid (e : Entry) (uid : Int) : scanUid (decimal e.uid) uid = .ok e.uid := by
  rw [scanUid, scanInt_decimal e.uid_int]
  rfl

def account (e : Entry) : Account := ⟨e.uid, e.name⟩

theorem account_on (e : Entry) : e.account.On e.line :=
  ⟨e.nul_not_mem_line, _, _, e.tokens_line, scanInt_decimal e.uid_int⟩

theorem lists (es : List Entry) : Lists (es.map line) (es.map account) := by
  rw [Lists, List.forall₂_map_left_iff, List.forall₂_map_right_iff]
  exact List.forall₂_same.mpr fun e _ => e.account_on

/-- The line is read whole into `char line[256]`. -/
def Fits (e : Entry) : Prop := e.line.length < 256

/-- A name and a password that fit their arrays make a line that fits the buffer. -/
theorem fits_of_lt {e : Entry} (hname : e.name.length < MAX_CHAR_USERID)
    (hpassword : e.password.length < MAX_CHAR_USERPASS) : e.Fits := by
  have huid := length_decimal_le e.uid_int
  rw [MAX_CHAR_USERID] at hname
  rw [MAX_CHAR_USERPASS] at hpassword
  rw [Fits, line, credentialLine]
  simp only [List.length_append, List.length_cons, List.length_nil]
  omega

theorem fgetsLines_line_of_fits {e : Entry} (h : e.Fits) : fgetsLines 256 e.line = [e.line] := by
  rw [Fits, line_eq, List.length_append, List.length_singleton] at h
  rw [line_eq, fgetsLines_line e.newline_not_mem_body h [], fgetsLines_nil]

end Entry

/-! ## Files -/

def fileOf (es : List Entry) : List Byte := es.flatMap Entry.line

theorem nul_not_mem_fileOf (es : List Entry) : 0 ∉ fileOf es := by
  intro h
  obtain ⟨e, -, he⟩ := List.mem_flatMap.mp h
  exact e.nul_not_mem_line he

theorem fgetsLines_fileOf_append (es : List Entry) (s : List Byte) :
    fgetsLines 256 (fileOf es ++ s) =
      (es.flatMap fun e => fgetsLines 256 e.line) ++ fgetsLines 256 s := by
  induction es with
  | nil => rfl
  | cons e es ih =>
      have happ := fgetsLines_append (show 2 ≤ 256 by decide) (le_refl _)
        e.newline_not_mem_body (fileOf es ++ s)
      rw [← e.line_eq, ih] at happ
      rw [List.flatMap_cons, List.append_assoc, ← happ, fileOf, List.flatMap_cons, e.line_eq,
        List.append_assoc, List.append_assoc]
      rfl

theorem fgetsLines_fileOf (es : List Entry) :
    fgetsLines 256 (fileOf es) = es.flatMap fun e => fgetsLines 256 e.line := by
  have h := fgetsLines_fileOf_append es []
  rwa [fgetsLines_nil, List.append_nil, List.append_nil] at h

theorem lines_fileOf (es : List Entry) (handles : Nat) :
    CredentialFile.lines ⟨fileOf es, handles⟩ = es.flatMap fun e => fgetsLines 256 e.line := by
  rw [← fgetsLines_fileOf, CredentialFile.lines]
  refine (List.map_congr_left fun l hl => ?_).trans (List.map_id _)
  refine List.takeWhile_eq_self_iff.mpr fun b hb => decide_eq_true fun h0 => ?_
  exact nul_not_mem_fileOf es (h0 ▸ mem_of_mem_fgetsLines hl hb)

theorem lines_fileOf_fits {es : List Entry} (h : ∀ e ∈ es, e.Fits) (handles : Nat) :
    CredentialFile.lines ⟨fileOf es, handles⟩ = es.map Entry.line := by
  rw [lines_fileOf, ← List.flatMap_pure_eq_map]
  exact List.flatMap_congr fun e he => Entry.fgetsLines_line_of_fits (h e he)

/-! ## The scanners on a file of entries -/

theorem findUid_eq (username : List Byte) (f : CredentialFile) :
    findUid username f = (findUidLoop username f.lines 0).map fun k => (k, f) := by
  change (findUidLoop username f.lines 0 >>= fun k => pure (k, f)) = _
  cases findUidLoop username f.lines 0 <;> rfl

theorem findUsername_eq (inId : UInt16) (username : List Byte) (f : CredentialFile) :
    findUsername inId username f = (findUsernameLoop inId username f.lines 0).map
      fun found => (found.1, found.2, f.fopen) := by
  change (findUsernameLoop inId username f.lines 0 >>= fun found =>
    pure (found.1, found.2, f.fopen)) = _
  cases findUsernameLoop inId username f.lines 0 <;> rfl

theorem matchUserPw_eq (username password : List Byte) (f : CredentialFile) :
    matchUserPw username password f =
      (matchUserPwLoop username password f.lines 0).map fun k => (k, f) := by
  change (matchUserPwLoop username password f.lines 0 >>= fun k => pure (k, f)) = _
  cases matchUserPwLoop username password f.lines 0 <;> rfl

/-- `strncmp(s, stored, strlen(stored)) == 0` decides whether the stored string is a prefix. -/
theorem strncmp_stored {s stored : List Byte} (hs : 0 ∉ s) (hstored : 0 ∉ stored)
    (junk : List Byte) :
    ∃ c, strncmp (terminated s junk) stored stored.length = .ok c ∧ (c = 0 ↔ stored <+: s) := by
  obtain ⟨c, hc, hiff⟩ := strncmp_prefix junk hs hstored (le_refl stored.length)
  exact ⟨c, hc, by rw [hiff, List.take_length]⟩

/-- The same for the password token, whose last byte is the newline. -/
theorem strncmp_password {s stored : List Byte} (hs : 0 ∉ s) (hstored : 0 ∉ stored)
    (junk : List Byte) :
    ∃ c, strncmp (terminated s junk) (stored ++ [newline]) ((stored ++ [newline]).length - 1) =
      .ok c ∧ (c = 0 ↔ stored <+: s) := by
  have h0 : 0 ∉ stored ++ [newline] := List.not_mem_append hstored (by decide)
  have hlen : (stored ++ [newline]).length - 1 = stored.length := by simp
  obtain ⟨c, hc, hiff⟩ := strncmp_prefix (n := stored.length) junk hs h0 (by simp)
  rw [List.take_left] at hiff
  exact ⟨c, by rw [hlen]; exact hc, hiff⟩

section Scanners

variable {u p : List Byte} (hu : 0 ∉ u) (hp : 0 ∉ p) (ju jp : List Byte)

include hu in
theorem findUidLoop_lists {lines : List (List Byte)} {as : List Account} (h : Lists lines as)
    (uid : Int) :
    findUidLoop (terminated u ju) lines uid =
      .ok (match as.find? (fun a => a.name <+: u) with
        | none => ERR_GENERIC
        | some a => a.uid) := by
  induction h generalizing uid with
  | nil => rfl
  | @cons line a lines as ha _ ih =>
      obtain ⟨uidS, save, rest, hnext, hscan, hname, h0⟩ := ha.tokens
      obtain ⟨c, hc, hiff⟩ := strncmp_stored hu h0 ju
      simp only [findUidLoop, hnext, hscan, hname, hc, bind, Except.bind]
      by_cases hpre : a.name <+: u
      · rw [if_pos (hiff.mpr hpre), List.find?_cons_of_pos (by simpa using hpre), terminated,
          cstr_terminated hu]
        rfl
      · rw [if_neg (fun hc0 => hpre (hiff.mp hc0)), List.find?_cons_of_neg (by simpa using hpre), ih]

include hu in
theorem findUidLoop_fileOf (es : List Entry) (uid : Int) :
    findUidLoop (terminated u ju) (es.map Entry.line) uid =
      .ok (match es.find? (fun e => e.name <+: u) with
        | none => ERR_GENERIC
        | some e => e.uid) := by
  rw [findUidLoop_lists hu ju (Entry.lists es), List.find?_map]
  change Except.ok (match Option.map Entry.account (es.find? fun e => e.name <+: u) with
    | none => ERR_GENERIC
    | some a => a.uid) = _
  cases es.find? fun e => e.name <+: u <;> rfl

theorem findUsernameLoop_fileOf (inId : UInt16) {username : List Byte}
    (hbuf : username.length = MAX_CHAR_USERID) {es : List Entry}
    (hes : ∀ e ∈ es, e.name.length < MAX_CHAR_USERID) (uid : Int) :
    findUsernameLoop inId username (es.map Entry.line) uid =
      .ok (match es.find? (fun e => e.uid = inId.toNat) with
        | none => (ERR_GENERIC, username)
        | some e =>
          (e.name.length, (e.name ++ List.replicate MAX_CHAR_USERID 0).take MAX_CHAR_USERID)) := by
  induction es generalizing uid with
  | nil => rfl
  | cons e es ih =>
      have hlen := hes e List.mem_cons_self
      simp only [List.map_cons, findUsernameLoop, e.nextToken_uid, e.scanUid_uid, bind,
        Except.bind]
      by_cases h : e.uid = inId.toNat
      · have hcopy : strncpy username (e.name ++ [0]) MAX_CHAR_USERID =
            .ok ((e.name ++ List.replicate MAX_CHAR_USERID 0).take MAX_CHAR_USERID) := by
          rw [strncpy, if_neg (by omega), strncpyBytes_terminated e.name_plain.1, ← hbuf,
            List.drop_length]
          exact congrArg Except.ok (List.append_nil _)
        have hpad : (e.name ++ List.replicate MAX_CHAR_USERID 0).take MAX_CHAR_USERID =
            terminated e.name (List.replicate (MAX_CHAR_USERID - e.name.length - 1) 0) := by
          rw [List.take_append, List.take_of_length_le hlen.le, List.take_replicate, terminated,
            ← List.replicate_succ]
          congr 2
          omega
        rw [if_pos (by exact_mod_cast h.symm), List.find?_cons_of_pos (by simpa using h),
          e.nextToken_name]
        simp only [hcopy, hpad, terminated, cstr_terminated e.name_plain.1]
        rfl
      · have hne : ¬ (inId.toNat : Int) = e.uid := fun h' => h (by exact_mod_cast h'.symm)
        rw [if_neg hne, List.find?_cons_of_neg (by simpa using h),
          ih fun e he => hes e (List.mem_cons_of_mem _ he)]

include hu hp in
theorem matchUserPwLoop_fileOf (es : List Entry) (uid : Int) :
    matchUserPwLoop (terminated u ju) (terminated p jp) (es.map Entry.line) uid =
      .ok (match es.find? (fun e => e.name <+: u ∧ e.password <+: p) with
        | none => ERR_GENERIC
        | some e => e.uid) := by
  induction es generalizing uid with
  | nil => rfl
  | cons e es ih =>
      obtain ⟨c, hc, hname⟩ := strncmp_stored hu e.name_plain.1 ju
      obtain ⟨d, hd, hpw⟩ := strncmp_password hp e.password_plain.1 jp
      simp only [List.map_cons, matchUserPwLoop, e.nextToken_uid, e.scanUid_uid,
        e.nextToken_name, e.nextToken_password, hc, hd, bind, Except.bind]
      by_cases h : e.name <+: u
      · rw [if_pos (hname.mpr h)]
        by_cases h' : e.password <+: p
        · rw [if_pos (hpw.mpr h'), List.find?_cons_of_pos (by simpa using ⟨h, h'⟩), terminated,
            cstr_terminated hu]
          rfl
        · rw [if_neg (fun h0 => h' (hpw.mp h0)),
            List.find?_cons_of_neg (by simpa using fun _ => h'), ih]
      · rw [if_neg (fun h0 => h (hname.mp h0)),
          List.find?_cons_of_neg (by simpa using fun h' => absurd h' h), ih]

include hu in
/-- One line of the scan of `create_user`, which counts it before it looks at the name. -/
theorem createUserLoop_cons {line : List Byte} {a : Account} (ha : a.On line)
    (lines : List (List Byte)) (count : Nat) :
    createUserLoop (terminated u ju) (line :: lines) count =
      if 2 ^ 31 ≤ count + 1 then .error .overflow
      else if a.name <+: u then .ok none
      else createUserLoop (terminated u ju) lines (count + 1) := by
  obtain ⟨uidS, save, rest, hnext, -, hname, h0⟩ := ha.tokens
  obtain ⟨c, hc, hiff⟩ := strncmp_stored hu h0 ju
  simp only [createUserLoop, hnext, hname, hc, bind, Except.bind]
  by_cases hcount : 2 ^ 31 ≤ count + 1
  · rw [if_pos hcount, if_pos hcount]
    rfl
  · rw [if_neg hcount, if_neg hcount]
    by_cases h : a.name <+: u
    · rw [if_pos (hiff.mpr h), if_pos h, terminated, cstr_terminated hu]
      rfl
    · rw [if_neg (fun hc0 => h (hiff.mp hc0)), if_neg h]

include hu in
/-- The scan finds the name: a stored name is a prefix, at a line that can be counted. -/
theorem createUserLoop_none_lists {lines : List (List Byte)} {as : List Account} {count : Nat}
    (h : Lists lines as) :
    createUserLoop (terminated u ju) lines count = .ok none ↔
      ∃ i a, as[i]? = some a ∧ a.name <+: u ∧ count + i + 1 < 2 ^ 31 := by
  induction h generalizing count with
  | nil => simp [createUserLoop]
  | @cons line a lines as ha _ ih =>
      rw [createUserLoop_cons hu ju ha]
      by_cases hcount : 2 ^ 31 ≤ count + 1
      · rw [if_pos hcount]
        constructor
        · intro h
          cases h
        · rintro ⟨i, a', -, -, hi⟩
          omega
      · rw [if_neg hcount]
        by_cases h : a.name <+: u
        · rw [if_pos h]
          exact iff_of_true rfl ⟨0, a, rfl, h, by omega⟩
        · rw [if_neg h, ih]
          constructor
          · rintro ⟨i, a', ha', hprefix, hi⟩
            exact ⟨i + 1, a', ha', hprefix, by omega⟩
          · rintro ⟨i, a', ha', hprefix, hi⟩
            cases i with
            | zero => exact absurd (Option.some.inj ha' ▸ hprefix) h
            | succ i => exact ⟨i, a', ha', hprefix, by omega⟩

include hu in
theorem createUserLoop_none_iff {es : List Entry} {count : Nat} :
    createUserLoop (terminated u ju) (es.map Entry.line) count = .ok none ↔
      ∃ i e, es[i]? = some e ∧ e.name <+: u ∧ count + i + 1 < 2 ^ 31 := by
  rw [createUserLoop_none_lists hu ju (Entry.lists es)]
  constructor
  · rintro ⟨i, a, ha, hprefix, hi⟩
    rw [List.getElem?_map] at ha
    obtain ⟨e, he, rfl⟩ := Option.map_eq_some_iff.mp ha
    exact ⟨i, e, he, hprefix, hi⟩
  · rintro ⟨i, e, he, hprefix, hi⟩
    exact ⟨i, e.account, by rw [List.getElem?_map, he]; rfl, hprefix, hi⟩

include hu in
/-- The scan counts the whole file: no stored name is a prefix. -/
theorem createUserLoop_some_iff {es : List Entry} {count c : Nat} (hcount : count < 2 ^ 31) :
    createUserLoop (terminated u ju) (es.map Entry.line) count = .ok (some c) ↔
      (∀ e ∈ es, ¬ e.name <+: u) ∧ c = count + es.length ∧ c < 2 ^ 31 := by
  induction es generalizing count with
  | nil =>
      simp only [List.map_nil, createUserLoop, Except.ok.injEq, Option.some.injEq,
        List.not_mem_nil, List.length_nil]
      constructor
      · rintro rfl
        exact ⟨fun _ he => he.elim, rfl, hcount⟩
      · rintro ⟨-, rfl, -⟩
        rfl
  | cons e es ih =>
      rw [List.map_cons, createUserLoop_cons hu ju e.account_on, List.length_cons,
        List.forall_mem_cons]
      by_cases hnext : 2 ^ 31 ≤ count + 1
      · rw [if_pos hnext]
        constructor
        · intro h
          cases h
        · rintro ⟨-, rfl, hlt⟩
          omega
      · rw [if_neg hnext]
        by_cases h : e.name <+: u
        · rw [if_pos (show e.account.name <+: u from h)]
          constructor
          · intro hc
            cases hc
          · rintro ⟨⟨hno, -⟩, -⟩
            exact absurd h hno
        · rw [if_neg (show ¬ e.account.name <+: u from h), ih (by omega), and_iff_right h,
            Nat.add_assoc, Nat.add_comm 1]

end Scanners

end GroupChat
