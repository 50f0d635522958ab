import GroupChat.Server.Forwarding

/-!
# Which file a download transmits

The check of `DOWNLOAD_FILE` is on the gid in the header, and the file is the one at the path in
the payload (`onDownloadFile_sent`), wherever in the file system that leads. An upload keeps its
name and its content for the rest of the run (`filesKept_of_run`), so a download stays within its
group when the path leads to a file that was stored for that gid; `filesIsolated_iff` says that
nothing else makes it so.
-/

namespace GroupChat

open Posix

/-- The step stores this content under this name for an upload to group `gid`. -/
def StoresFile (x : Taken) (gid : UInt8) (name content : List Byte) : Prop :=
  ∃ c recv heap, x.event = .received c recv heap ∧ recv.cmd = SEND_FILE ∧ recv.gid = gid ∧
    name = fileFormat gid x.pre.fileCnt ∧ content = storedContent recv.toMainhdr

/-- The path in the payload of a `DOWNLOAD_FILE`, as far as the array takes it. -/
def requestedName (recv : Mainhdr) : List Byte := (recv.payload.takeWhile (· ≠ 0)).take 97

/-- The path that a `DOWNLOAD_FILE` has opened. -/
def requestedPath (recv : Mainhdr) : List Byte := 46 :: 47 :: requestedName recv

/-- What `send_file` sends of what has been opened. -/
def Opened.sent (c : ConnId) (gid : UInt8) (uid : UInt16) : Opened → List Sent
  | .failed => []
  | .directory => [.packet c (directoryHeader gid uid)]
  | .file content => [.file c gid uid content]

/-- All that a download of a member transmits is a file that was stored by an earlier upload to the
same gid, under the name its path leads to. -/
def FilesIsolated (h : List Taken) (s : Server) (e : Event) : Prop :=
  ∀ c recv heap sent s', e = .received c recv heap → recv.cmd = DOWNLOAD_FILE →
    step s e = .ok (sent, s') → Member s recv.gid recv.uid →
    ∀ y ∈ sent, ∃ gid uid content, y = .file c gid uid content ∧
      ∃ x ∈ h, ∃ name, s.paths.target (requestedPath recv.toMainhdr) = .entry name ∧
        StoresFile x recv.gid name content

/-- If anything opens at the path in a download of a member, then it is a file stored for the same
gid. -/
def DownloadsOwn (h : List Taken) (s : Server) (e : Event) : Prop :=
  ∀ c recv heap, e = .received c recv heap → recv.cmd = DOWNLOAD_FILE →
    Member s recv.gid recv.uid → s.fopen (requestedPath recv.toMainhdr) ≠ .failed →
      ∃ x ∈ h, ∃ name content, s.paths.target (requestedPath recv.toMainhdr) = .entry name ∧
        StoresFile x recv.gid name content

/-! ## Names -/

/-- Two lists cut at their first separator are equal part by part. -/
theorem append_cons_inj {l l' r r' : List Byte} {b : Byte} (hl : b ∉ l) (hl' : b ∉ l')
    (h : l ++ b :: r = l' ++ b :: r') : l = l' ∧ r = r' := by
  induction l generalizing l' with
  | nil =>
      cases l' with
      | nil => exact ⟨rfl, (List.cons.inj h).2⟩
      | cons a l' => exact absurd ((List.cons.inj h).1 ▸ List.mem_cons_self) hl'
  | cons a l ih =>
      cases l' with
      | nil => exact absurd ((List.cons.inj h).1 ▸ List.mem_cons_self) hl
      | cons a' l' =>
          rw [List.mem_cons, not_or] at hl hl'
          obtain ⟨rfl, hrest⟩ := List.cons.inj h
          obtain ⟨rfl, hr⟩ := ih hl.2 hl'.2 hrest
          exact ⟨rfl, hr⟩

/-- The number of an upload can be read off its name. -/
theorem fileFormat_injective {gid gid' : UInt8} {k k' : Nat}
    (h : fileFormat gid k = fileFormat gid' k') : gid = gid' ∧ k = k' := by
  have hunderscore : ∀ n : Nat, (95 : Byte) ∉ decimal n := not_mem_decimal (by decide)
  have hdot : ∀ n : Nat, (46 : Byte) ∉ decimal n := not_mem_decimal (by decide)
  obtain ⟨hgid, hrest⟩ := append_cons_inj (hunderscore _) (hunderscore _) h
  obtain ⟨hk, -⟩ := append_cons_inj (hdot _) (hdot _) hrest
  exact ⟨UInt8.toNat_inj.mp (decimal_injective hgid), decimal_injective hk⟩

/-! ## What an upload leaves on the disk -/

/-- The files of the uploads so far are on the disk as they were stored, with numbers below the
next one. -/
def FilesKept (h : List Taken) (s : Server) : Prop :=
  ∀ x ∈ h, ∀ gid name content, StoresFile x gid name content →
    x.pre.fileCnt < s.fileCnt ∧ s.files.lookup name = some content

section Step

variable {h : List Taken} {s s' : Server} {e : Event} {sent : List Sent}

/-- A file that was stored stays as it is. -/
theorem Stores.keeps {recv : Mainhdr} (stores : Stores s recv s') {gid : UInt8} {k : Nat}
    {content : List Byte} (hk : k < s.fileCnt)
    (hlookup : s.files.lookup (fileFormat gid k) = some content) :
    k < s'.fileCnt ∧ s'.files.lookup (fileFormat gid k) = some content := by
  cases stores with
  | creates cmd pos scan groups fileCnt files => exact ⟨fileCnt ▸ hk, files ▸ hlookup⟩
  | uploads cmd groupCnt fileCnt files =>
      have hne : fileFormat gid k ≠ fileFormat recv.gid s.fileCnt := by
        intro heq
        have := (fileFormat_injective heq).2
        omega
      rw [files, AList.lookup_insert_ne hne]
      exact ⟨by omega, hlookup⟩
  | lists cmd groupCnt fileCnt text files =>
      have hne : fileFormat gid k ≠ ACTIVE_USER_FILE_NAME := fileFormat_ne (by decide) _ gid k
      rw [files, AList.lookup_insert_ne hne]
      exact ⟨fileCnt ▸ hk, hlookup⟩
  | same upload group same => exact ⟨same.fileCnt ▸ hk, same.files ▸ hlookup⟩

/-- What an upload has just stored. -/
theorem storesFile_stored (hstep : step s e = .ok (sent, s')) {gid : UInt8}
    {name content : List Byte} (hstores : StoresFile ⟨s, e, sent, s'⟩ gid name content) :
    s.fileCnt < s'.fileCnt ∧ s'.files.lookup name = some content := by
  obtain ⟨c, recv, heap, rfl, hcmd, rfl, rfl, hcontent⟩ := hstores
  rw [hcontent]
  obtain ⟨me, -, hswitch⟩ := step_switch hstep
  cases switch_stores hswitch with
  | creates cmd => exact absurd (cmd.symm.trans hcmd) (by decide)
  | uploads cmd groupCnt fileCnt files =>
      rw [files, AList.lookup_insert]
      exact ⟨by omega, rfl⟩
  | lists cmd => exact absurd (cmd.symm.trans hcmd) (by decide)
  | same upload => exact absurd hcmd upload

/-- One step keeps the files of the uploads. -/
theorem filesKept_step (hkept : FilesKept h s) (hstep : step s e = .ok (sent, s')) :
    FilesKept (h ++ [⟨s, e, sent, s'⟩]) s' := by
  intro x hx gid name content hstores
  rcases List.mem_append.mp hx with hx | hx
  · obtain ⟨hk, hlookup⟩ := hkept x hx gid name content hstores
    obtain ⟨c, recv, heap, -, -, -, rfl, -⟩ := hstores
    cases e with
    | accept =>
        obtain ⟨-, rfl⟩ := step_accept hstep
        exact ⟨hk, hlookup⟩
    | closed c =>
        obtain ⟨me, -, -, rfl⟩ := step_closed hstep
        exact ⟨hk, hlookup⟩
    | received c recv heap =>
        obtain ⟨me, -, hswitch⟩ := step_switch hstep
        exact (switch_stores hswitch).keeps hk hlookup
  · cases List.mem_singleton.mp hx
    exact storesFile_stored hstep hstores

theorem filesKept_of_run {credential : CredentialFile} {disk : Disk}
    (run : Lts.Run step (Server.start credential disk) h s) : FilesKept h s := by
  induction run with
  | start => exact fun x hx => absurd hx List.not_mem_nil
  | next run taken ih => exact filesKept_step ih taken

/-! ## Downloads -/

/-- A path to the file of an upload opens what that upload stored. -/
theorem fopen_of_storesFile (hkept : FilesKept h s) {x : Taken} (hx : x ∈ h) {gid : UInt8}
    {path name content : List Byte} (hpath : s.paths.target path = .entry name)
    (hstores : StoresFile x gid name content) : s.fopen path = .file content := by
  obtain ⟨-, hlookup⟩ := hkept x hx gid name content hstores
  obtain ⟨c, recv, heap, -, -, -, rfl, -⟩ := hstores
  have hne : fileFormat gid x.pre.fileCnt ≠ CREDENTIAL_FILE_NAME := fileFormat_ne (by decide) _ _ _
  simp only [Server.fopen, hpath]
  rw [if_neg hne, hlookup]

/-- A download of a member transmits what its path leads to. -/
theorem onDownloadFile_sent {c : ConnId} {me : ClientThread} {recv : Mainhdr}
    {heap : Byte × Byte} (hmember : Member s recv.gid recv.uid)
    (hok : onDownloadFile s c me recv heap = .ok (sent, s')) :
    ∃ uid, sent = (s.fopen (requestedPath recv)).sent c recv.gid uid := by
  cases onDownloadFile_run hok with
  | refused outsider => exact absurd hmember outsider
  | missing member fileId name opened =>
      rw [cstr_append_nul] at name
      cases name
      rw [requestedPath, requestedName, opened]
      exact ⟨0, rfl⟩
  | lists member fileId name opened =>
      rw [cstr_append_nul] at name
      cases name
      rw [requestedPath, requestedName, opened]
      exact ⟨_, rfl⟩
  | sends member fileId name opened =>
      rw [cstr_append_nul] at name
      cases name
      rw [requestedPath, requestedName, opened]
      exact ⟨_, rfl⟩

theorem filesIsolated_step_iff (hkept : FilesKept h s) :
    FilesIsolated h s e ↔ ((∃ sent s', step s e = .ok (sent, s')) → DownloadsOwn h s e) := by
  constructor
  · rintro hisolated ⟨sent, s', hstep⟩ c recv heap rfl hcmd hmember hopens
    obtain ⟨me, -, hswitch⟩ := step_switch hstep
    rw [switch_downloadFile hcmd] at hswitch
    obtain ⟨uid, hsent⟩ := onDownloadFile_sent hmember hswitch
    have hall := hisolated c recv heap sent s' rfl hcmd hstep hmember
    cases hopened : s.fopen (requestedPath recv.toMainhdr) with
    | failed => exact absurd hopened hopens
    | directory =>
        rw [hopened] at hsent
        obtain rfl : sent = [.packet c (directoryHeader recv.gid uid)] := hsent
        obtain ⟨gid, uid', content, hfile, -⟩ := hall _ List.mem_cons_self
        cases hfile
    | file content =>
        rw [hopened] at hsent
        obtain rfl : sent = [.file c recv.gid uid content] := hsent
        obtain ⟨gid, uid', content', hfile, x, hx, name, hname, hstores⟩ :=
          hall _ List.mem_cons_self
        cases hfile
        exact ⟨x, hx, name, content, hname, hstores⟩
  · rintro hown c recv heap sent s' rfl hcmd hstep hmember y hy
    obtain ⟨me, -, hswitch⟩ := step_switch hstep
    rw [switch_downloadFile hcmd] at hswitch
    obtain ⟨uid, hsent⟩ := onDownloadFile_sent hmember hswitch
    have hopens : s.fopen (requestedPath recv.toMainhdr) ≠ .failed := by
      intro hfailed
      rw [hfailed] at hsent
      rw [hsent] at hy
      exact List.not_mem_nil hy
    obtain ⟨x, hx, name, content, hname, hstores⟩ :=
      hown ⟨sent, s', hstep⟩ c recv heap rfl hcmd hmember hopens
    rw [fopen_of_storesFile hkept hx hname hstores] at hsent
    obtain rfl : sent = [.file c recv.gid uid content] := hsent
    exact ⟨recv.gid, uid, content, List.mem_singleton.mp hy, x, hx, name, hname, hstores⟩

end Step

/-- Downloads stay within their group throughout a run exactly when, in each one of a member that
comes to an end, nothing opens at the path or it leads to a file stored for an earlier upload to the
gid in the header. -/
theorem filesIsolated_iff (credential : CredentialFile) (disk : Disk) (es : List Event) :
    Lts.Along step (Server.start credential disk) es FilesIsolated ↔
      Lts.Along step (Server.start credential disk) es fun h s e =>
        (∃ sent s', step s e = .ok (sent, s')) → DownloadsOwn h s e := by
  constructor
  · intro hisolated h s e run hes
    exact (filesIsolated_step_iff (filesKept_of_run run)).mp (hisolated h s e run hes)
  · intro hown h s e run hes
    exact (filesIsolated_step_iff (filesKept_of_run run)).mpr (hown h s e run hes)

/-! ## A file of another group -/

/-- `DOWNLOAD_FILE` of `1_1.file`. -/
def downloadPacket (gid : UInt8) (uid : UInt16) : Packet :=
  ⟨⟨DOWNLOAD_FILE, gid, uid, 8, [49, 95, 49, 46, 102, 105, 108, 101]⟩, rfl⟩

/-- `a` and `b` have a group each, and `b` uploads a file to its own. -/
def uploadElsewhere : List Event :=
  groupOfOne ++ [.received 1 (createGroupPacket 2) (0, 0),
    .received 1 (uploadPacket 1 2 120) (0, 0)]

/-- `a` asks for that file in its own group. -/
def crossDownload : List Event := uploadElsewhere ++ [.received 0 (downloadPacket 0 1) (0, 0)]

def isUploadTo (gid : UInt8) : Event → Bool
  | .received _ recv _ => recv.cmd = SEND_FILE ∧ recv.gid = gid
  | _ => false

theorem file_of_other_group :
    Lts.Along step (Server.start twoAccounts ∅) crossDownload Truthful ∧
      ¬ Lts.Along step (Server.start twoAccounts ∅) crossDownload FilesIsolated := by
  constructor
  · have htruthful : Lts.AlongFrom step Truthful crossDownload []
        (Server.start twoAccounts ∅) := by
      decide +kernel
    intro h s e run hes
    exact Lts.along_of_alongFrom Lts.Run.start htruthful run List.nil_prefix hes
  · intro hisolated
    have hrun : Lts.returns (Lts.execute step uploadElsewhere [] (Server.start twoAccounts ∅))
        (fun r => r.2.groups[0]? = some [1] ∧
          Lts.returns (step r.2 (.received 0 (downloadPacket 0 1) (0, 0)))
            (fun q => .file 0 0 1 [120] ∈ q.1)) = true := by
      decide +kernel
    obtain ⟨⟨h, s⟩, hexec, htest⟩ := Lts.exists_of_returns hrun
    obtain ⟨hgroup, hreturns⟩ := of_decide_eq_true htest
    obtain ⟨⟨sent, s'⟩, hstep, hsent⟩ := Lts.exists_of_returns hreturns
    obtain ⟨run, hevents⟩ := Lts.Run.start.of_execute hexec
    have hprefix : Lts.events h ++ [.received 0 (downloadPacket 0 1) (0, 0)] <+: crossDownload :=
      hevents ▸ List.prefix_refl _
    obtain ⟨-, -, -, -, x, hx, name, -, c, recv, heap, hevent, hcmd, hgid, -⟩ :=
      hisolated h s _ run hprefix 0 (downloadPacket 0 1) (0, 0) sent s' rfl rfl hstep
        ⟨[1], hgroup, List.mem_cons_self⟩ _ (of_decide_eq_true hsent)
    have hnone : ∀ e ∈ uploadElsewhere, isUploadTo 0 e = false := by
      decide +kernel
    have hmem : x.event ∈ uploadElsewhere := by
      have hin := List.mem_map_of_mem (f := Lts.Taken.event) hx
      rw [← Lts.events, hevents] at hin
      exact hin
    have hupload := hnone _ hmem
    rw [hevent] at hupload
    exact of_decide_eq_false hupload ⟨hcmd, hgid⟩

end GroupChat
