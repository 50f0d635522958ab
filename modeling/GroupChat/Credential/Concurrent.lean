import GroupChat.Credential.Ledger

/-!
# Calls of `create_user` from several threads

`create_user` scans the file and, if the name is free, appends a line that goes out when the
stream is closed (`createUser_eq_scan`). Between the two the other threads run. A `Registrar` is
the file with the calls that have scanned and not yet written. Uids and names stay distinct as
long as every line is written before any other thread has written one since its scan;
`concurrent_iff` says that there is no other way.
-/

namespace GroupChat

open Posix

/-- `create_user` up to the end of its scan. The stream stays open if there is a line to write. -/
def createUserScan (username : List Byte) (f : CredentialFile) :
    Except Fault (Option Nat × CredentialFile) := do
  let creFd := f.fopen
  match ← createUserLoop username creFd.lines 1 with
  | none => return (none, creFd.fclose)
  | some count => return (some count, creFd)

/-- The rest of `create_user`. The stream was opened for appending, so the line goes to what is
the end of the file now. -/
def createUserAppend (username password : List Byte) (count : Nat) (creFd : CredentialFile) :
    Except Fault CredentialFile := do
  let line := credentialLine count (← cstr username) (← cstr password)
  return { creFd with content := creFd.content ++ line }.fclose

theorem createUserScan_eq (username : List Byte) (f : CredentialFile) :
    createUserScan username f = (createUserLoop username f.lines 1).map fun found =>
      (found, if found.isSome then f.fopen else f) := by
  change (createUserLoop username f.lines 1 >>= _) = _
  cases createUserLoop username f.lines 1 with
  | error fault => rfl
  | ok found => cases found <;> rfl

/-- One after the other the two parts are `create_user`. -/
theorem createUser_eq_scan (username password : List Byte) (f : CredentialFile) :
    createUser username password f =
      (createUserScan username f >>= fun scanned =>
        match scanned.1 with
        | none => .ok (ERR_USERNAME_EXIST, scanned.2)
        | some count =>
          (createUserAppend username password count scanned.2).map ((count : Int), ·)) := by
  rw [createUser, createUserScan]
  cases createUserLoop username f.fopen.lines 1 with
  | error fault => rfl
  | ok found =>
      cases found with
      | none => rfl
      | some count =>
          change (cstr username >>= _) = (cstr username >>= _ : Except Fault CredentialFile).map _
          cases cstr username with
          | error fault => rfl
          | ok u => cases cstr password <;> rfl

/-! ## Interleavings -/

/-- The file, and for each thread the line that its call of `create_user` is about to write. -/
structure Registrar where
  file : CredentialFile
  calls : ThreadId → Option (Nat × Registration)

inductive CreateEvent
  /-- the thread calls `create_user`, which scans the file -/
  | scan (t : ThreadId) (r : Registration)
  /-- the line of the thread's call is written -/
  | append (t : ThreadId)

inductive CreateStop
  | undefined (fault : Fault)
  /-- the thread is not at this point of the code -/
  | outOfTurn
  deriving DecidableEq, Repr

/-- One step of a thread, with the result of `create_user` if it returns in this step. -/
def Registrar.step (s : Registrar) : CreateEvent → Except CreateStop (Option Int × Registrar)
  | .scan t r =>
    match s.calls t with
    | some _ => .error .outOfTurn
    | none =>
      match createUserScan r.username.buf s.file with
      | .error fault => .error (.undefined fault)
      | .ok (none, file) => .ok (some ERR_USERNAME_EXIST, { s with file := file })
      | .ok (some count, file) => .ok (none, ⟨file, Function.update s.calls t (some (count, r))⟩)
  | .append t =>
    match s.calls t with
    | none => .error .outOfTurn
    | some (count, r) =>
      match createUserAppend r.username.buf r.password.buf count s.file with
      | .error fault => .error (.undefined fault)
      | .ok file => .ok (some count, ⟨file, Function.update s.calls t none⟩)

/-- No call is under way. -/
def Registrar.start (L : Ledger) : Registrar := ⟨L.file, fun _ => none⟩

abbrev CreateTaken := Lts.Taken Registrar CreateEvent (Option Int)

/-- No two lines of the file have the same uid, and no two the same username. -/
def NoDuplicates (f : CredentialFile) : Prop :=
  f.lines.Pairwise fun l l' => (tokens l space)[0]? ≠ (tokens l' space)[0]? ∧
    (tokens l space)[1]? ≠ (tokens l' space)[1]?

instance (f : CredentialFile) : Decidable (NoDuplicates f) :=
  inferInstanceAs (Decidable (List.Pairwise _ _))

def CreateEvent.isScanOf (t : ThreadId) : CreateEvent → Bool
  | .scan t' _ => t' = t
  | .append _ => false

def CreateEvent.isAppend : CreateEvent → Bool
  | .scan _ _ => false
  | .append _ => true

/-- What has happened since the thread's last scan, the latest first. -/
def sinceScan (h : List CreateTaken) (t : ThreadId) : List CreateTaken :=
  h.reverse.takeWhile fun x => ¬ x.event.isScanOf t

/-- A line is written before any other has been written since its call has scanned the file. -/
def AppendsAlone (h : List CreateTaken) (_ : Registrar) (e : CreateEvent) : Prop :=
  ∀ t, e = .append t → ∀ x ∈ sinceScan h t, x.event.isAppend = false

section Steps

variable {s s' : Registrar} {t : ThreadId} {r : Registration} {out : Option Int}

theorem step_scan (h : s.step (.scan t r) = .ok (out, s')) :
    s.calls t = none ∧ s'.file.content = s.file.content ∧
      ((createUserLoop r.username.buf s.file.lines 1 = .ok none ∧ s'.calls = s.calls) ∨
      ∃ count, createUserLoop r.username.buf s.file.lines 1 = .ok (some count) ∧
        s'.calls = Function.update s.calls t (some (count, r))) := by
  rw [Registrar.step] at h
  cases hcall : s.calls t with
  | some call =>
      rw [hcall] at h
      cases h
  | none =>
      simp only [hcall, createUserScan_eq] at h
      cases hloop : createUserLoop r.username.buf s.file.lines 1 with
      | error fault =>
          rw [hloop] at h
          cases h
      | ok found =>
          rw [hloop] at h
          cases found with
          | none =>
              cases h
              exact ⟨rfl, rfl, Or.inl ⟨rfl, rfl⟩⟩
          | some count =>
              cases h
              exact ⟨rfl, rfl, Or.inr ⟨count, rfl, rfl⟩⟩

theorem step_append (h : s.step (.append t) = .ok (out, s')) :
    ∃ count r, s.calls t = some (count, r) ∧ s'.calls = Function.update s.calls t none ∧
      s'.file.content =
        s.file.content ++ credentialLine count r.username.str r.password.str := by
  rw [Registrar.step] at h
  cases hcall : s.calls t with
  | none =>
      rw [hcall] at h
      cases h
  | some call =>
      obtain ⟨count, r⟩ := call
      simp only [hcall, createUserAppend, r.username.cstr_buf, r.password.cstr_buf, bind,
        Except.bind] at h
      cases h
      exact ⟨count, r, rfl, rfl, rfl⟩

theorem sinceScan_self (h : List CreateTaken) {x : CreateTaken} (hx : x.event.isScanOf t = true) :
    sinceScan (h ++ [x]) t = [] := by
  rw [sinceScan, List.reverse_append, List.reverse_singleton, List.singleton_append,
    List.takeWhile_cons_of_neg (by simp [hx])]

theorem sinceScan_other (h : List CreateTaken) {x : CreateTaken}
    (hx : x.event.isScanOf t = false) : sinceScan (h ++ [x]) t = x :: sinceScan h t := by
  rw [sinceScan, List.reverse_append, List.reverse_singleton, List.singleton_append,
    List.takeWhile_cons_of_pos (by simp [hx])]
  rfl

end Steps

/-! ## Files without duplicates -/

theorem noDuplicates_iff {es : List Entry} (hfit : ∀ e ∈ es, e.Fits) {f : CredentialFile}
    (hf : f.content = fileOf es) :
    NoDuplicates f ↔ (es.map Entry.uid).Nodup ∧ (es.map Entry.name).Nodup := by
  have hlines : f.lines = es.map Entry.line := by
    rw [← lines_fileOf_fits hfit f.handles, ← hf]
  rw [NoDuplicates, hlines, List.pairwise_map, List.Nodup, List.Nodup, List.pairwise_map,
    List.pairwise_map, ← List.pairwise_and_iff]
  apply List.Pairwise.iff
  intro e e'
  simp only [Entry.tokens_line, List.getElem?_cons_zero, List.getElem?_cons_succ, ne_eq,
    Option.some.injEq]
  exact and_congr_left' (not_congr ⟨decimal_injective, congrArg decimal⟩)

theorem Ledger.nodup_uid (L : Ledger) : (L.entries.map Entry.uid).Nodup :=
  L.numbered ▸ List.nodup_range'

theorem Ledger.nodup_name (L : Ledger) : (L.entries.map Entry.name).Nodup := by
  rw [List.Nodup, List.pairwise_map]
  apply L.unshadowed.imp
  intro e e' hno heq
  exact hno (heq ▸ List.prefix_refl _)

theorem noDuplicates_ledger {L : Ledger} {f : CredentialFile}
    (hf : f.content = fileOf L.entries) : NoDuplicates f :=
  (noDuplicates_iff (fun _ he => L.fits he) hf).mpr ⟨L.nodup_uid, L.nodup_name⟩

/-! ## What the calls under way have seen -/

/-- A line about to be written was right for the file as it was `n` lines ago. -/
structure Scanned (L : Ledger) (n count : Nat) (r : Registration) : Prop where
  next : count + n = L.entries.length + 1
  pos : 0 < count
  int : count < 2 ^ 31
  free : ∀ e ∈ L.entries.take (count - 1), ¬ e.name <+: r.username.str

/-- The file is a ledger, and each call under way has scanned a beginning of it. -/
def LedgerKept (h : List CreateTaken) (s : Registrar) : Prop :=
  ∃ L : Ledger, s.file.content = fileOf L.entries ∧ ∀ t count r, s.calls t = some (count, r) →
    Scanned L ((sinceScan h t).countP fun x => x.event.isAppend) count r

section Kept

variable {h : List CreateTaken} {s s' : Registrar} {t : ThreadId} {r : Registration}
  {out : Option Int} {L : Ledger}

theorem Scanned.of_loop (hfile : s.file.content = fileOf L.entries) {count : Nat}
    (hloop : createUserLoop r.username.buf s.file.lines 1 = .ok (some count)) :
    Scanned L 0 count r := by
  have hlines : s.file.lines = L.entries.map Entry.line := by
    rw [← L.lines_file, CredentialFile.lines, hfile]
    rfl
  rw [hlines, Argument.buf, createUserLoop_some_iff r.username.nul_not_mem _ (by decide)] at hloop
  obtain ⟨hfree, hcount, hint⟩ := hloop
  exact ⟨by omega, by omega, hint, fun e he => hfree e (List.mem_of_mem_take he)⟩

/-- A scan of another call changes nothing for a call under way. -/
theorem ledgerKept_scan (hkept : LedgerKept h s) (hstep : s.step (.scan t r) = .ok (out, s')) :
    LedgerKept (h ++ [⟨s, .scan t r, out, s'⟩]) s' := by
  obtain ⟨L, hfile, hcalls⟩ := hkept
  obtain ⟨hidle, hsame, hscan⟩ := step_scan hstep
  refine ⟨L, hsame.trans hfile, fun t' count r' hcall => ?_⟩
  have hother : ∀ hne : t' ≠ t, s.calls t' = some (count, r') →
      Scanned L ((sinceScan (h ++ [⟨s, .scan t r, out, s'⟩]) t').countP fun x => x.event.isAppend)
        count r' := by
    intro hne hbefore
    have hno : (CreateEvent.scan t r).isScanOf t' = false := decide_eq_false (Ne.symm hne)
    rw [sinceScan_other h hno, List.countP_cons_of_neg Bool.false_ne_true]
    exact hcalls t' count r' hbefore
  rcases hscan with ⟨-, hrefused⟩ | ⟨count', hloop, hcalled⟩
  · rw [hrefused] at hcall
    have hne : t' ≠ t := by
      intro heq
      rw [heq, hidle] at hcall
      cases hcall
    exact hother hne hcall
  · rw [hcalled] at hcall
    by_cases heq : t' = t
    · subst heq
      rw [Function.update_self] at hcall
      obtain ⟨rfl, rfl⟩ := Prod.mk.inj (Option.some.inj hcall)
      have hself : (CreateEvent.scan t' r).isScanOf t' = true := decide_eq_true rfl
      rw [sinceScan_self h hself]
      exact Scanned.of_loop hfile hloop
    · rw [Function.update_of_ne heq] at hcall
      exact hother heq hcall

/-- The account of a line about to be written. -/
def Scanned.entry {n count : Nat} (hscanned : Scanned L n count r) : Entry :=
  ⟨count, r.username.str, r.password.str, hscanned.pos, hscanned.int, r.username_ne,
    r.username_plain, r.password_plain⟩

/-- A line that is right for the file as it is extends the ledger. -/
theorem Scanned.admits {count : Nat} (hscanned : Scanned L 0 count r) :
    L.Admits r.username.str := by
  have hnext := hscanned.next
  have hint := hscanned.int
  refine ⟨fun e he => hscanned.free e ?_, by omega⟩
  rw [List.take_of_length_le (by omega)]
  exact he

/-- An outdated line repeats a uid. -/
theorem Scanned.duplicates {n count : Nat} (hscanned : Scanned L n count r) (hn : 0 < n)
    {f : CredentialFile}
    (hf : f.content = fileOf L.entries ++ credentialLine count r.username.str r.password.str) :
    ¬ NoDuplicates f := by
  have hcontent : f.content = fileOf (L.entries ++ [hscanned.entry]) := by
    rw [hf, fileOf, fileOf, List.flatMap_append, List.flatMap_singleton]
    rfl
  have hfit : ∀ e ∈ L.entries ++ [hscanned.entry], e.Fits := by
    intro e he
    rcases List.mem_append.mp he with he | he
    · exact L.fits he
    · rw [List.mem_singleton.mp he]
      exact Entry.fits_of_lt r.username_lt r.password_lt
  rw [noDuplicates_iff hfit hcontent, List.map_append, List.nodup_append]
  rintro ⟨⟨-, -, hapart⟩, -⟩
  have hnext := hscanned.next
  have hpos := hscanned.pos
  have hmem : count ∈ L.entries.map Entry.uid := by
    rw [L.numbered, List.mem_range'_1]
    omega
  exact hapart count hmem count List.mem_cons_self rfl

/-- A line that is right for the file as it is keeps the ledger. -/
theorem ledgerKept_append (hkept : LedgerKept h s) (halone : AppendsAlone h s (.append t))
    (hstep : s.step (.append t) = .ok (out, s')) :
    LedgerKept (h ++ [⟨s, .append t, out, s'⟩]) s' := by
  obtain ⟨L, hfile, hcalls⟩ := hkept
  obtain ⟨count, r, hcall, hcalled, hcontent⟩ := step_append hstep
  have hzero : ((sinceScan h t).countP fun x => x.event.isAppend) = 0 :=
    List.countP_eq_zero.mpr fun x hx => by rw [halone t rfl x hx]; exact Bool.false_ne_true
  have hscanned := hcalls t count r hcall
  rw [hzero] at hscanned
  obtain rfl : count = L.entries.length + 1 := hscanned.next
  refine ⟨r.extend L hscanned.admits, ?_, fun t' count' r' hcall' => ?_⟩
  · have hextend := congrArg CredentialFile.content (r.file_extend hscanned.admits)
    rw [hcontent, hfile]
    exact hextend.symm
  · rw [hcalled] at hcall'
    have hne : t' ≠ t := by
      rintro rfl
      rw [Function.update_self] at hcall'
      cases hcall'
    rw [Function.update_of_ne hne] at hcall'
    have hbefore := hcalls t' count' r' hcall'
    have hnext := hbefore.next
    rw [sinceScan_other h rfl, List.countP_cons_of_pos rfl]
    have hlength : (r.extend L hscanned.admits).entries.length = L.entries.length + 1 :=
      List.length_append
    refine ⟨by omega, hbefore.pos, hbefore.int, fun e he => hbefore.free e ?_⟩
    change e ∈ (L.entries ++ [_]).take (count' - 1) at he
    rw [List.take_append_of_le_length (by omega)] at he
    exact he

/-- Under the invariant a step leaves no duplicates exactly when it writes no outdated line. -/
theorem noDuplicates_step_iff {e : CreateEvent} (hkept : LedgerKept h s)
    (hstep : s.step e = .ok (out, s')) : NoDuplicates s'.file ↔ AppendsAlone h s e := by
  cases e with
  | scan t r =>
      obtain ⟨L, hfile, -⟩ := ledgerKept_scan hkept hstep
      exact iff_of_true (noDuplicates_ledger hfile) (fun t' he => by cases he)
  | append t =>
      constructor
      · intro hno t' he
        cases he
        obtain ⟨L, hfile, hcalls⟩ := hkept
        obtain ⟨count, r, hcall, -, hcontent⟩ := step_append hstep
        by_contra hx
        push Not at hx
        have hpos : 0 < (sinceScan h t).countP fun x => x.event.isAppend := by
          apply List.countP_pos_iff.mpr
          obtain ⟨x, hx, happend⟩ := hx
          exact ⟨x, hx, by simpa using happend⟩
        rw [hfile] at hcontent
        exact (hcalls t count r hcall).duplicates hpos hcontent hno
      · intro halone
        obtain ⟨L, hfile, -⟩ := ledgerKept_append hkept halone hstep
        exact noDuplicates_ledger hfile

end Kept

/-- From any file that `create_user` has written, no two lines ever have the same uid or the
same username exactly when every line is written before another thread has written one since
its scan. -/
theorem concurrent_iff (L : Ledger) (es : List CreateEvent) :
    Lts.Throughout Registrar.step (Registrar.start L) es (fun _ s => NoDuplicates s.file) ↔
      Lts.Along Registrar.step (Registrar.start L) es fun h s e =>
        (∃ out s', s.step e = .ok (out, s')) → AppendsAlone h s e := by
  have hstart : LedgerKept [] (Registrar.start L) := ⟨L, rfl, fun t count r hcall => by cases hcall⟩
  apply Lts.throughout_iff_along hstart (noDuplicates_ledger rfl)
  · intro h s e out s' _ hkept hstep
    exact noDuplicates_step_iff hkept hstep
  · intro h s e out s' _ hkept halone hstep
    cases e with
    | scan t r => exact ledgerKept_scan hkept hstep
    | append t => exact ledgerKept_append hkept halone hstep

/-- Two connections register the same name, and both scan the file before either has written
its line. -/
def overlapping : List CreateEvent :=
  [.scan 0 bobRegistration, .scan 1 bobRegistration, .append 0, .append 1]

theorem overlapping_duplicates :
    ¬ Lts.Throughout Registrar.step (Registrar.start Ledger.empty) overlapping
      (fun _ s => NoDuplicates s.file) := by
  intro hno
  have hrun : Lts.returns
      (Lts.execute Registrar.step overlapping [] (Registrar.start Ledger.empty))
      (fun r => ¬ NoDuplicates r.2.file) = true := by
    decide +kernel
  obtain ⟨⟨h, s⟩, hexec, htest⟩ := Lts.exists_of_returns hrun
  obtain ⟨run, hevents⟩ := Lts.Run.start.of_execute hexec
  exact of_decide_eq_true htest (hno h s run (hevents ▸ List.prefix_refl _))

end GroupChat
