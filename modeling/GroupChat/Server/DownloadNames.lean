import GroupChat.Server.Files
import GroupChat.Split

/-!
# The name in a download

The handler cuts the name at its underscores and the second token at its dots, and scans the first
piece of that for the number of the file, without a look at how many tokens there are or at what
`sscanf` returns. `scannedId_eq` says which text the number is read from, and for which names it is
not there. `parsesSafely_iff` has the requests that are parsed safely: the tokens are there and
terminated, and nothing opens at the path unless the name is one that the server gives.
-/

namespace GroupChat

open Posix

/-- What follows the first underscore of a name. -/
def afterUnderscore (name : List Byte) : List Byte := (name.dropWhile (· ≠ 95)).tail

/-- The text between the first two underscores. -/
def fileWord (name : List Byte) : List Byte := (afterUnderscore name).takeWhile (· ≠ 95)

/-- That text up to its first dot. -/
def fileNumber (name : List Byte) : List Byte := (fileWord name).takeWhile (· ≠ 46)

/-- What the handler of a download scans out of the name, if `sscanf` finds a number. -/
def scannedId (name : List Byte) (heap : Byte × Byte) : Except Fault (Option Int) :=
  match (split (46 :: 47 :: name) 95 heap.1)[1]? with
  | none => .error .outOfBounds
  | some input => do
    let number ← cstr ((split (← cstr input) 46 heap.2).headD [])
    scanInt number

/-- A name as `SEND_FILE` makes them. -/
def Generated (name : List Byte) : Prop := ∃ gid n, n < 2 ^ 31 ∧ name = fileFormat gid n

/-- A download of a member comes to its end, with the second token there, and it sends nothing but
files with names that the server gives, under the number in the name. -/
def ParsesSafely (_ : List Taken) (s : Server) (e : Event) : Prop :=
  ∀ c recv heap, e = .received c recv heap → recv.cmd = DOWNLOAD_FILE → (s.thread c).isSome →
    Member s recv.gid recv.uid →
      1 < (split (46 :: 47 :: requestedName recv.toMainhdr) 95 heap.1).length ∧
      ∃ sent s', step s e = .ok (sent, s') ∧
        (¬ Generated (recv.payload.takeWhile (· ≠ 0)) → sent = []) ∧
        ∀ y ∈ sent, ∃ n content, scannedId (requestedName recv.toMainhdr) heap = .ok (some n) ∧
          y = .file c recv.gid (UInt16.ofInt n) content

/-- The tokens that the handler reads are there, each with a terminator, and the number is an
`int`. -/
structure NameParses (name : List Byte) (heap : Byte × Byte) : Prop where
  separated : 95 ∈ name
  word : 95 ∈ afterUnderscore name ∨ heap.1 = 0
  number : 46 ∈ fileWord name ∨ heap.2 = 0
  fits : scanInt (fileNumber name) ≠ .error .overflow

/-- A download of a member has a name that parses, and one that the server gives or at which nothing
opens. -/
def AsksProperly (_ : List Taken) (s : Server) (e : Event) : Prop :=
  ∀ c recv heap, e = .received c recv heap → recv.cmd = DOWNLOAD_FILE → (s.thread c).isSome →
    Member s recv.gid recv.uid → NameParses (requestedName recv.toMainhdr) heap ∧
      (Generated (recv.payload.takeWhile (· ≠ 0)) ∨
        s.fopen (requestedPath recv.toMainhdr) = .failed)

/-! ## The two calls of `split` -/

section Scan

variable {name : List Byte} {heap : Byte × Byte}

theorem split_filename (hmem : 95 ∈ name) :
    (split (46 :: 47 :: name) 95 heap.1).tail = split (afterUnderscore name) 95 heap.1 := by
  obtain ⟨w, rest, rfl, hw⟩ := List.eq_append_cons_of_mem hmem
  have hpath : 95 ∉ (46 : Byte) :: 47 :: w := by
    rw [List.mem_cons, List.mem_cons, not_or, not_or]
    exact ⟨by decide, by decide, hw⟩
  have hcons : (46 : Byte) :: 47 :: (w ++ 95 :: rest) = (46 :: 47 :: w) ++ 95 :: rest := rfl
  rw [hcons, split_append_cons hpath, afterUnderscore, (takeWhile_ne_append hw rest).2]
  rfl

theorem split_filename_one (hmem : 95 ∈ name) :
    (split (46 :: 47 :: name) 95 heap.1)[1]? =
      some ((split (afterUnderscore name) 95 heap.1).headD []) := by
  have htail : (split (46 :: 47 :: name) 95 heap.1).tail = split (afterUnderscore name) 95 heap.1 :=
    split_filename hmem
  obtain ⟨t, ts, hts⟩ := List.exists_cons_of_ne_nil (@split_ne_nil 95 heap.1 (afterUnderscore name))
  rw [← List.getElem?_tail, htail, hts]
  rfl

theorem split_filename_none (hmem : 95 ∉ name) :
    split (46 :: 47 :: name) 95 heap.1 = [46 :: 47 :: name ++ [heap.1]] := by
  apply split_of_notMem
  rw [List.mem_cons, List.mem_cons, not_or, not_or]
  exact ⟨by decide, by decide, hmem⟩

/-- The number is scanned from the text between the first two underscores, up to its first dot, if
the two tokens are there with their terminators. -/
theorem scannedId_eq (h0 : 0 ∉ name) :
    scannedId name heap =
      if 95 ∈ name ∧ (95 ∈ afterUnderscore name ∨ heap.1 = 0) ∧ (46 ∈ fileWord name ∨ heap.2 = 0)
      then scanInt (fileNumber name) else .error .outOfBounds := by
  have hafter : 0 ∉ afterUnderscore name := fun h =>
    h0 ((List.dropWhile_suffix _).subset (List.mem_of_mem_tail h))
  have hword : 0 ∉ fileWord name := fun h => hafter (List.takeWhile_subset _ h)
  rw [scannedId]
  by_cases hmem : 95 ∈ name
  · rw [split_filename_one hmem]
    change (cstr ((split (afterUnderscore name) 95 heap.1).headD []) >>= fun input =>
      cstr ((split input 46 heap.2).headD []) >>= scanInt) = _
    rw [cstr_head_split hafter]
    by_cases hfirst : 95 ∈ afterUnderscore name ∨ heap.1 = 0
    · rw [if_pos hfirst, ok_bind, ← fileWord, cstr_head_split hword]
      by_cases hsecond : 46 ∈ fileWord name ∨ heap.2 = 0
      · rw [if_pos hsecond, if_pos ⟨hmem, hfirst, hsecond⟩]
        rfl
      · rw [if_neg hsecond, if_neg fun h => hsecond h.2.2]
        rfl
    · rw [if_neg hfirst, if_neg fun h => hfirst h.2.1]
      rfl
  · rw [split_filename_none hmem, if_neg fun h => hmem h.1]
    rfl

/-- The scan returns exactly for the names that parse. -/
theorem scannedId_ok_iff (h0 : 0 ∉ name) :
    (∃ scanned, scannedId name heap = .ok scanned) ↔ NameParses name heap := by
  rw [scannedId_eq h0]
  constructor
  · intro ⟨scanned, hscan⟩
    split at hscan
    · rename_i htokens
      refine ⟨htokens.1, htokens.2.1, htokens.2.2, ?_⟩
      rw [hscan]
      exact nofun
    · cases hscan
  · intro hparses
    rw [if_pos ⟨hparses.separated, hparses.word, hparses.number⟩]
    exact scanInt_ok hparses.fits

end Scan

/-! ## Names that the server gives -/

section Names

variable (gid : UInt8) {n : Nat}

theorem fileFormat_parts :
    afterUnderscore (fileFormat gid n) = decimal n ++ [46, 102, 105, 108, 101] ∧
      fileWord (fileFormat gid n) = decimal n ++ [46, 102, 105, 108, 101] ∧
      fileNumber (fileFormat gid n) = decimal n := by
  have hunderscore : ∀ k : Nat, (95 : Byte) ∉ decimal k := not_mem_decimal (by decide)
  have hafter : afterUnderscore (fileFormat gid n) = decimal n ++ [46, 102, 105, 108, 101] := by
    rw [afterUnderscore, fileFormat, (takeWhile_ne_append (hunderscore _) _).2]
    rfl
  have hword : fileWord (fileFormat gid n) = decimal n ++ [46, 102, 105, 108, 101] := by
    rw [fileWord, hafter]
    apply takeWhile_of_notMem
    exact List.not_mem_append (hunderscore n) (by decide)
  refine ⟨hafter, hword, ?_⟩
  rw [fileNumber, hword]
  exact (takeWhile_ne_append (not_mem_decimal (by decide) n) _).1

theorem nul_not_mem_fileFormat : (0 : Byte) ∉ fileFormat gid n := by
  have hnul : ∀ k : Nat, (0 : Byte) ∉ decimal k := not_mem_decimal (by decide)
  rw [fileFormat, List.mem_append, List.mem_cons, List.mem_append, not_or, not_or, not_or]
  exact ⟨hnul _, by decide, hnul _, by decide⟩

/-- The number in such a name is scanned, if the second token got its terminator. -/
theorem scannedId_fileFormat (hn : n < 2 ^ 31) (heap : Byte × Byte) :
    scannedId (fileFormat gid n) heap =
      if heap.1 = 0 then .ok (some n) else .error .outOfBounds := by
  obtain ⟨hafter, hword, hnumber⟩ := @fileFormat_parts gid n
  have hunderscore : 95 ∈ fileFormat gid n := List.mem_append_right _ List.mem_cons_self
  have hsecond : 95 ∉ decimal n ++ [46, 102, 105, 108, 101] :=
    List.not_mem_append (not_mem_decimal (by decide) n) (by decide)
  have hdot : 46 ∈ decimal n ++ [46, 102, 105, 108, 101] :=
    List.mem_append_right _ List.mem_cons_self
  rw [scannedId_eq (nul_not_mem_fileFormat gid), hafter, hword, hnumber, scanInt_decimal hn]
  simp only [hunderscore, hsecond, hdot, true_and, false_or, true_or, and_true]

theorem length_fileFormat_le (hn : n < 2 ^ 31) : (fileFormat gid n).length ≤ 26 := by
  have hgid := UInt8.toNat_lt gid
  have hgidlen := length_decimal_le (n := gid.toNat) (by omega)
  have hnlen := length_decimal_le hn
  rw [fileFormat, List.length_append, List.length_cons, List.length_append]
  simp only [List.length_cons, List.length_nil]
  omega

/-- The array takes such a name whole. -/
theorem generated_take {text : List Byte} : Generated text ↔ Generated (text.take 97) := by
  constructor
  · intro ⟨gid, n, hn, htext⟩
    have hlen := length_fileFormat_le gid hn
    refine ⟨gid, n, hn, ?_⟩
    rw [htext]
    exact List.take_of_length_le (by omega)
  · intro ⟨gid, n, hn, htext⟩
    have hlen := length_fileFormat_le gid hn
    rw [← htext, List.length_take] at hlen
    refine ⟨gid, n, hn, ?_⟩
    rw [← htext]
    exact (List.take_of_length_le (by omega)).symm

end Names

/-! ## The handler -/

section Handler

variable {s : Server} {c : ConnId} {me : ClientThread} {heap : Byte × Byte}

/-- The handler for a member: a name without a number leaves the number of the request before. -/
theorem onDownloadFile_member {recv : Mainhdr} (hmember : Member s recv.gid recv.uid) :
    onDownloadFile s c me recv heap =
      (scannedId (requestedName recv) heap).map fun scanned =>
        ((s.fopen (requestedPath recv)).sent c recv.gid (UInt16.ofInt (scanned.getD me.fileId)),
          { s with
            clients := s.clients.set c (some { me with fileId := scanned.getD me.fileId }) }) := by
  obtain ⟨group, hgroup, hmem⟩ := hmember
  rw [onDownloadFile, cstr_append_nul, ok_bind, groupAt_eq_ok.mpr hgroup, ok_bind,
    if_neg (List.ne_nil_of_mem hmem), checkUserInGroup_of_group hgroup, if_pos hmem, ok_bind,
    if_neg (not_not.mpr rfl), scannedId, requestedPath, requestedName]
  cases (split (46 :: 47 :: (recv.payload.takeWhile (· ≠ 0)).take 97) 95 heap.1)[1]? with
  | none => rfl
  | some input =>
      simp only
      cases cstr input with
      | error fault => rfl
      | ok word =>
          rw [ok_bind, ok_bind]
          cases cstr ((split word 46 heap.2).headD []) with
          | error fault => rfl
          | ok number =>
              rw [ok_bind, ok_bind]
              cases scanInt number with
              | error fault => rfl
              | ok scanned =>
                  rw [ok_bind, Except.map]
                  have hopened : ∀ fileId : Int, ({ s with
                      clients := s.clients.set c (some { me with fileId := fileId }) } :
                      Server).fopen (46 :: 47 :: (recv.payload.takeWhile (· ≠ 0)).take 97) =
                      s.fopen (46 :: 47 :: (recv.payload.takeWhile (· ≠ 0)).take 97) := fun _ => rfl
                  simp only [hopened]
                  cases s.fopen (46 :: 47 :: (recv.payload.takeWhile (· ≠ 0)).take 97) <;> rfl

/-- A download of a member is answered exactly when the name parses. -/
theorem step_download {recv : Packet} (hme : s.thread c = some me) (hcmd : recv.cmd = DOWNLOAD_FILE)
    (hmember : Member s recv.gid recv.uid) {sent : List Sent} :
    (∃ s', step s (.received c recv heap) = .ok (sent, s')) ↔
      ∃ scanned, scannedId (requestedName recv.toMainhdr) heap = .ok scanned ∧
        sent = (s.fopen (requestedPath recv.toMainhdr)).sent c recv.gid
          (UInt16.ofInt (scanned.getD me.fileId)) := by
  rw [step, hme]
  simp only [switch_downloadFile hcmd, onDownloadFile_member hmember]
  cases scannedId (requestedName recv.toMainhdr) heap with
  | error fault =>
      constructor
      · intro h
        obtain ⟨s', h⟩ := h
        cases h
      · intro h
        obtain ⟨scanned, h, hsent⟩ := h
        cases h
  | ok scanned =>
      constructor
      · intro h
        obtain ⟨s', h⟩ := h
        cases h
        exact ⟨scanned, rfl, rfl⟩
      · intro h
        obtain ⟨scanned', h, hsent⟩ := h
        cases h
        exact ⟨_, by rw [hsent]; rfl⟩

theorem sent_eq_nil {gid : UInt8} {uid : UInt16} {opened : Opened} :
    opened.sent c gid uid = [] ↔ opened = .failed := by
  cases opened with
  | failed => exact iff_of_true rfl rfl
  | directory => exact iff_of_false (List.cons_ne_nil _ _) nofun
  | file content => exact iff_of_false (List.cons_ne_nil _ _) nofun

/-- A name that the server gives is that of no directory. -/
theorem mem_sent_generated {recv : Mainhdr} (hgenerated : Generated (requestedName recv)) {y : Sent}
    {gid : UInt8} {uid : UInt16} (hy : y ∈ (s.fopen (requestedPath recv)).sent c gid uid) :
    ∃ content, y = .file c gid uid content := by
  obtain ⟨gid', n, -, hname⟩ := hgenerated
  have htarget : s.paths.target (requestedPath recv) = .entry (fileFormat gid' n) := by
    rw [requestedPath, hname]
    exact s.paths.uploads gid' n
  cases hopened : s.fopen (requestedPath recv) with
  | failed =>
      rw [hopened] at hy
      exact absurd hy List.not_mem_nil
  | directory =>
      rw [Server.fopen, htarget] at hopened
      simp only at hopened
      split at hopened
      · cases hopened
      · split at hopened <;> cases hopened
  | file content =>
      rw [hopened] at hy
      exact ⟨content, List.mem_singleton.mp hy⟩

end Handler

theorem nul_not_mem_requestedName (recv : Mainhdr) : 0 ∉ requestedName recv := fun h =>
  nul_not_mem_takeWhile _ (List.mem_of_mem_take h)

theorem parsesSafely_step_iff (h : List Taken) (s : Server) (e : Event) :
    ParsesSafely h s e ↔ AsksProperly h s e := by
  constructor
  · intro hsafe c recv heap he hcmd hopen hmember
    obtain ⟨-, sent, s', hstep, hform, -⟩ := hsafe c recv heap he hcmd hopen hmember
    obtain ⟨me, hme⟩ := Option.isSome_iff_exists.mp hopen
    rw [he] at hstep
    obtain ⟨scanned, hscan, hsent⟩ := (step_download hme hcmd hmember).mp ⟨s', hstep⟩
    refine ⟨(scannedId_ok_iff (nul_not_mem_requestedName _)).mp ⟨scanned, hscan⟩, ?_⟩
    by_contra hneither
    obtain ⟨hno, hfile⟩ := not_or.mp hneither
    rw [hform hno] at hsent
    exact hfile (sent_eq_nil.mp hsent.symm)
  · intro hproper c recv heap he hcmd hopen hmember
    obtain ⟨hparses, hname⟩ := hproper c recv heap he hcmd hopen hmember
    obtain ⟨me, hme⟩ := Option.isSome_iff_exists.mp hopen
    obtain ⟨scanned, hscan⟩ := (scannedId_ok_iff (nul_not_mem_requestedName _)).mpr hparses
    obtain ⟨s', hstep⟩ := (step_download hme hcmd hmember).mpr ⟨scanned, hscan, rfl⟩
    have htokens : 1 < (split (46 :: 47 :: requestedName recv.toMainhdr) 95 heap.1).length := by
      exact (List.getElem?_eq_some_iff.mp (split_filename_one hparses.separated)).1
    refine ⟨htokens, _, s', he ▸ hstep, ?_, ?_⟩
    · intro hno
      exact sent_eq_nil.mpr (hname.resolve_left hno)
    · intro y hy
      rcases hname with hgenerated | hfailed
      · have hgenerated' : Generated (requestedName recv.toMainhdr) := generated_take.mp hgenerated
        obtain ⟨content, hfile⟩ := mem_sent_generated hgenerated' hy
        obtain ⟨gid', n, hn, hrequested⟩ := hgenerated'
        rw [hrequested, scannedId_fileFormat gid' hn] at hscan ⊢
        split at hscan
        · rename_i hheap
          cases hscan
          exact ⟨n, content, if_pos hheap, hfile⟩
        · cases hscan
      · rw [hfailed] at hy
        exact absurd hy List.not_mem_nil

/-- Downloads are parsed safely throughout a run exactly when each one of a member has a name that
parses, and one that the server gives or at which nothing opens. -/
theorem parsesSafely_iff (credential : CredentialFile) (disk : Disk) (es : List Event) :
    Lts.Along step (Server.start credential disk) es ParsesSafely ↔
      Lts.Along step (Server.start credential disk) es AsksProperly :=
  Lts.along_congr fun h s e _ => parsesSafely_step_iff h s e

/-! ## A file that was not stored for a download -/

/-- `DOWNLOAD_FILE` of `active_name.txt`. -/
def listPacket : Packet :=
  ⟨⟨DOWNLOAD_FILE, 0, 1, 15, ACTIVE_USER_FILE_NAME⟩, rfl⟩

/-- `a` has the list of the active users written and downloads it. -/
def listDownload : List Event :=
  groupOfOne ++ [.received 0 ⟨⟨ACTIVE_LIST, 0, 1, 0, []⟩, rfl⟩ (0, 0)]

/-- The list goes out, with the number that the variable held before. -/
theorem stale_number_sent :
    ¬ ∀ (credential : CredentialFile) (disk : Disk) (es : List Event),
      Lts.Along step (Server.start credential disk) es ParsesSafely := by
  intro hall
  have hrun : Lts.returns (Lts.execute step listDownload [] (Server.start twoAccounts ∅))
      (fun r => r.2.groups[0]? = some [1] ∧ (r.2.thread 0).isSome ∧
        Lts.returns (step r.2 (.received 0 listPacket (0, 0)))
          (fun q => .file 0 0 0 [98, 44, 97, 44] ∈ q.1)) = true := by
    decide +kernel
  obtain ⟨⟨h, s⟩, hexec, htest⟩ := Lts.exists_of_returns hrun
  obtain ⟨hgroup, hopen, hreturns⟩ := of_decide_eq_true htest
  obtain ⟨⟨sent, s'⟩, hstep, hsent⟩ := Lts.exists_of_returns hreturns
  obtain ⟨run, hevents⟩ := Lts.Run.start.of_execute hexec
  have hnext : Lts.events h ++ [.received 0 listPacket (0, 0)] <+:
      listDownload ++ [.received 0 listPacket (0, 0)] := hevents ▸ List.prefix_refl _
  obtain ⟨-, sent', s'', hstep', -, hid⟩ :=
    hall twoAccounts ∅ _ h s _ run hnext 0 listPacket (0, 0) rfl rfl hopen
      ⟨[1], hgroup, List.mem_cons_self⟩
  rw [hstep] at hstep'
  cases hstep'
  obtain ⟨n, content, hscan, -⟩ := hid _ (of_decide_eq_true hsent)
  have hnone : scannedId (requestedName listPacket.toMainhdr) (0, 0) = .ok none := by
    decide +kernel
  rw [hnone] at hscan
  cases hscan

end GroupChat
