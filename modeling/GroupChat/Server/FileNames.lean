import GroupChat.Client
import GroupChat.Server.DownloadNames

/-!
# The numbers of the files

An upload puts the file counter into the name of its file. A download of that name scans the number
back and sends it in the 16 bits of the uid, and the client makes its own file name of it.
`numbersReturn_iff` says that the number comes back, and that two files never get one name at the
client, exactly as long as the numbers that are asked for fit into 16 bits (and the second token of
the name is terminated). The upload with the number 65536 goes out under the number 0
(`number_wraps`).
-/

namespace GroupChat

open Posix

/-- Connection `c` asks, as a member of the group in its header, for the file that upload `x` has
stored under this name. -/
structure Fetches (h : List Taken) (s : Server) (e : Event) (c : ConnId) (gid : UInt8)
    (heap : Byte × Byte) (x : Taken) (name content : List Byte) : Prop where
  asks : ∃ recv, e = .received c recv heap ∧ recv.cmd = DOWNLOAD_FILE ∧ recv.gid = gid ∧
    Member s gid recv.uid ∧ requestedName recv.toMainhdr = name
  isOpen : (s.thread c).isSome
  earlier : x ∈ h
  stored : ∃ g, StoresFile x g name content

/-- An earlier step has sent the file of upload `z` under this gid and number. -/
def Fetched (h : List Taken) (z : Taken) (gid : UInt8) (uid : UInt16) : Prop :=
  ∃ before y later c heap name content data, h = before ++ y :: later ∧
    Fetches before y.pre y.event c gid heap z name content ∧ y.out = [.file c gid uid data]

/-- A download of a stored file has its number scanned out of its name and sends the file under that
number, and no other file that has been sent gets the same name at a client. -/
def NumbersReturn (h : List Taken) (s : Server) (e : Event) : Prop :=
  ∀ c gid heap x name content, Fetches h s e c gid heap x name content →
    scannedId name heap = .ok (some x.pre.fileCnt) ∧
    ∃ uid s', step s e = .ok ([.file c gid uid content], s') ∧ uid.toNat = x.pre.fileCnt ∧
      ∀ z gid' uid', Fetched h z gid' uid' → z ≠ x →
        ∀ myUid, cfileFormat myUid gid uid ≠ cfileFormat myUid gid' uid'

/-- A stored file that is asked for has a number of 16 bits, and the byte after the second token of
its name is zero. -/
def NumbersFit (h : List Taken) (s : Server) (e : Event) : Prop :=
  ∀ c gid heap x name content, Fetches h s e c gid heap x name content →
    x.pre.fileCnt < 2 ^ 16 ∧ heap.1 = 0

/-! ## Names -/

/-- The gid and the number can be read off the name at the client. -/
theorem cfileFormat_injective {myUid : UInt16} {gid gid' : UInt8} {uid uid' : UInt16}
    (h : cfileFormat myUid gid uid = cfileFormat myUid gid' uid') : gid = gid' ∧ uid = uid' := by
  have hunderscore : ∀ n : Nat, (95 : Byte) ∉ decimal n := not_mem_decimal (by decide)
  have hdot : ∀ n : Nat, (46 : Byte) ∉ decimal n := not_mem_decimal (by decide)
  obtain ⟨-, hrest⟩ := List.append_inj h rfl
  obtain ⟨hgid, hnumber⟩ := append_cons_inj (hunderscore _) (hunderscore _) (List.cons.inj hrest).2
  obtain ⟨huid, -⟩ := append_cons_inj (hdot _) (hdot _) hnumber
  exact ⟨UInt8.toNat_inj.mp (decimal_injective hgid), UInt16.toNat_inj.mp (decimal_injective huid)⟩

/-! ## Numbers of uploads -/

/-- Uploads have had numbers below the next one, each its own, and the next one is an `int`. -/
structure Numbered (h : List Taken) (s : Server) : Prop where
  kept : FilesKept h s
  fits : s.fileCnt < 2 ^ 31
  distinct : ∀ x ∈ h, ∀ z ∈ h, ∀ g g' name name' content content', StoresFile x g name content →
    StoresFile z g' name' content' → x.pre.fileCnt = z.pre.fileCnt → x = z

section Step

variable {h : List Taken} {s s' : Server} {e : Event} {sent : List Sent}

theorem onSendFile_fits {recv : Mainhdr} (hok : onSendFile s recv = .ok (sent, s')) :
    s.fileCnt + 1 < 2 ^ 31 := by
  obtain ⟨len, buf, username, credential, run⟩ := onSendFile_run hok
  exact run.fits

theorem fileCnt_step (hfits : s.fileCnt < 2 ^ 31) (hstep : step s e = .ok (sent, s')) :
    s'.fileCnt < 2 ^ 31 := by
  cases e with
  | accept =>
      obtain ⟨-, rfl⟩ := step_accept hstep
      exact hfits
  | closed c =>
      obtain ⟨me, -, -, rfl⟩ := step_closed hstep
      exact hfits
  | received c recv heap =>
      obtain ⟨me, -, hswitch⟩ := step_switch hstep
      cases switch_stores hswitch with
      | creates cmd pos scan groups fileCnt files => exact fileCnt ▸ hfits
      | uploads cmd groupCnt fileCnt files =>
          rw [switch_sendFile cmd] at hswitch
          have := onSendFile_fits hswitch
          omega
      | lists cmd groupCnt fileCnt text files => exact fileCnt ▸ hfits
      | same upload group same => exact same.fileCnt ▸ hfits

theorem numbered_step (numbered : Numbered h s) (hstep : step s e = .ok (sent, s')) :
    Numbered (h ++ [⟨s, e, sent, s'⟩]) s' := by
  refine ⟨filesKept_step numbered.kept hstep, fileCnt_step numbered.fits hstep, ?_⟩
  intro x hx z hz g g' name name' content content' hstores hstores' hcnt
  rw [List.mem_append, List.mem_singleton] at hx hz
  rcases hx with hx | rfl
  · have hbelow := (numbered.kept x hx _ _ _ hstores).1
    rcases hz with hz | rfl
    · exact numbered.distinct x hx z hz _ _ _ _ _ _ hstores hstores' hcnt
    · exact absurd hcnt (Nat.ne_of_lt hbelow)
  · rcases hz with hz | rfl
    · exact absurd hcnt.symm (Nat.ne_of_lt (numbered.kept z hz _ _ _ hstores').1)
    · rfl

/-- A download of a stored file: what is scanned, and what is sent. -/
theorem fetches_step (numbered : Numbered h s) {c : ConnId} {gid : UInt8} {heap : Byte × Byte}
    {x : Taken} {name content : List Byte} (fetches : Fetches h s e c gid heap x name content) :
    (scannedId name heap =
      if heap.1 = 0 then .ok (some x.pre.fileCnt) else .error .outOfBounds) ∧
    ((∃ s', step s e = .ok (sent, s')) ↔
      heap.1 = 0 ∧ sent = [.file c gid (UInt16.ofInt x.pre.fileCnt) content]) := by
  obtain ⟨recv, rfl, hcmd, rfl, hmember, hname⟩ := fetches.asks
  obtain ⟨me, hme⟩ := Option.isSome_iff_exists.mp fetches.isOpen
  obtain ⟨g, hstores⟩ := fetches.stored
  have hbelow := (numbered.kept x fetches.earlier _ _ _ hstores).1
  have hfits := numbered.fits
  obtain rfl : name = fileFormat g x.pre.fileCnt := by
    obtain ⟨_, _, _, _, _, _, rfl, _⟩ := hstores
    rfl
  have hopened := fopen_of_storesFile numbered.kept fetches.earlier (s.paths.uploads g _) hstores
  have hnumber : x.pre.fileCnt < 2 ^ 31 := by omega
  have hscan := scannedId_fileFormat g hnumber heap
  refine ⟨hscan, ?_⟩
  rw [step_download hme hcmd hmember, requestedPath, hname, hscan]
  simp only [hopened, Opened.sent]
  constructor
  · rintro ⟨scanned, hok, hsent⟩
    by_cases hheap : heap.1 = 0
    · rw [if_pos hheap] at hok
      cases hok
      exact ⟨hheap, hsent⟩
    · rw [if_neg hheap] at hok
      cases hok
  · rintro ⟨hheap, hsent⟩
    exact ⟨some x.pre.fileCnt, if_pos hheap, hsent⟩

/-- The files that have been sent went out under their own numbers. -/
structure Returned (h : List Taken) (s : Server) : Prop where
  numbered : Numbered h s
  own : ∀ z gid uid, Fetched h z gid uid → uid.toNat = z.pre.fileCnt

theorem toNat_ofInt_cast {n : Nat} : (UInt16.ofInt (n : Int)).toNat = n % 2 ^ 16 := by
  rw [UInt16.ofInt, UInt16.toNat_ofNat']
  omega

theorem returned_step (returned : Returned h s) (hfit : NumbersFit h s e)
    (hstep : step s e = .ok (sent, s')) : Returned (h ++ [⟨s, e, sent, s'⟩]) s' := by
  refine ⟨numbered_step returned.numbered hstep, ?_⟩
  intro z gid uid ⟨before, y, later, c, heap, name, content, data, hsplit, fetches, hout⟩
  rcases List.eq_nil_or_concat later with rfl | ⟨later, last, rfl⟩
  · obtain ⟨rfl, hy⟩ := List.append_inj' hsplit rfl
    obtain rfl := List.singleton_injective hy
    obtain ⟨hlt, -⟩ := hfit c gid heap z name content fetches
    obtain ⟨-, hsent⟩ := (fetches_step returned.numbered fetches).2.mp ⟨s', hstep⟩
    rw [hsent] at hout
    cases hout
    rw [toNat_ofInt_cast, Nat.mod_eq_of_lt hlt]
  · rw [List.concat_eq_append, ← List.cons_append, ← List.append_assoc] at hsplit
    obtain ⟨rfl, -⟩ := List.append_inj' hsplit rfl
    exact returned.own z gid uid
      ⟨before, y, later, c, heap, name, content, data, rfl, fetches, hout⟩

theorem numbersReturn_step_iff (returned : Returned h s) :
    NumbersReturn h s e ↔ NumbersFit h s e := by
  constructor
  · intro hreturn c gid heap x name content fetches
    obtain ⟨hscan, uid, s', -, huid, -⟩ := hreturn c gid heap x name content fetches
    have huid16 := UInt16.toNat_lt uid
    refine ⟨by omega, ?_⟩
    by_contra hheap
    rw [(@fetches_step h s e [] returned.numbered _ _ _ _ _ _ fetches).1, if_neg hheap] at hscan
    cases hscan
  · intro hfit c gid heap x name content fetches
    obtain ⟨hlt, hheap⟩ := hfit c gid heap x name content fetches
    obtain ⟨hscan, hsent⟩ := fetches_step returned.numbered fetches
    obtain ⟨s', hstep⟩ := hsent.mpr ⟨hheap, rfl⟩
    have huid : (UInt16.ofInt (x.pre.fileCnt : Int)).toNat = x.pre.fileCnt := by
      rw [toNat_ofInt_cast, Nat.mod_eq_of_lt hlt]
    refine ⟨by rw [hscan, if_pos hheap], _, s', hstep, huid, ?_⟩
    intro z gid' uid' hfetched hne myUid hname
    have hsame := (cfileFormat_injective hname).2
    have hcnt : z.pre.fileCnt = x.pre.fileCnt := by
      rw [← returned.own z gid' uid' hfetched, ← hsame, huid]
    obtain ⟨before, y, later, d, heap', name', content', data, hsplit, fetches', -⟩ := hfetched
    obtain ⟨g, hstores⟩ := fetches.stored
    obtain ⟨g', hstores'⟩ := fetches'.stored
    have hz : z ∈ h := hsplit ▸ List.mem_append_left _ fetches'.earlier
    exact hne (returned.numbered.distinct z hz x fetches.earlier _ _ _ _ _ _ hstores' hstores hcnt)

end Step

theorem returned_start (credential : CredentialFile) (disk : Disk) :
    Returned [] (Server.start credential disk) := by
  refine ⟨⟨fun x hx => absurd hx List.not_mem_nil, (by decide : 1 < 2 ^ 31),
    fun x hx => absurd hx List.not_mem_nil⟩, ?_⟩
  intro z gid uid ⟨before, y, later, c, heap, name, content, data, hsplit, _⟩
  exact absurd hsplit (by simp)

/-- Every stored file that a member asks for comes back under its number, and no two of them get the
same name at a client, throughout a run exactly when the numbers asked for have 16 bits and the
second tokens are terminated. -/
theorem numbersReturn_iff (credential : CredentialFile) (disk : Disk) (es : List Event) :
    Lts.Along step (Server.start credential disk) es NumbersReturn ↔
      Lts.Along step (Server.start credential disk) es NumbersFit := by
  apply Lts.along_iff (returned_start credential disk)
  · intro h s e _ returned
    exact numbersReturn_step_iff returned
  · intro h s e sent s' _ returned hfit hstep
    exact returned_step returned hfit hstep

/-! ## More than 65535 uploads -/

/-- `a` is online and alone in group `0`, and the next upload gets the number `n`. -/
structure Uploading (s : Server) (n : Nat) : Prop where
  counter : s.fileCnt = n
  group : s.groups[0]? = some [1]
  online : s.activeSockets.lookup 1 = some 0
  isOpen : (s.thread 0).isSome
  accounts : s.credential.lines = twoAccounts.lines

section Uploading

variable {s : Server} {n : Nat}

theorem Uploading.forward (ready : Uploading s n) (sendPacket : Mainhdr) :
    forwardToGroup s 0 sendPacket = .ok [.packet 0 sendPacket] := by
  obtain ⟨me, hme⟩ := Option.isSome_iff_exists.mp ready.isOpen
  have hgroup : s.groupAt 0 = .ok [1] := groupAt_eq_ok.mpr ready.group
  have hlookup : s.activeSockets.lookup (1 : UInt16).toNat = some 0 := ready.online
  have hfd : s.connfd 0 = .ok 0 := by
    rw [Server.connfd, hme]
  rw [forwardToGroup, hgroup, ok_bind, forwardLoop, hlookup]
  simp only [hfd, ok_bind]
  rfl

theorem Uploading.call (ready : Uploading s n) (hn : n + 1 < 2 ^ 31) :
    ∃ sendPacket s', fileCall s (uploadPacket 0 1 120).toMainhdr = .ok (some sendPacket, s') ∧
      sendPacket.gid = 0 ∧ Uploading s' (n + 1) := by
  have hfind : findUsernameLoop 1 (List.replicate MAX_CHAR_USERID 0) twoAccounts.lines 0 =
      .ok (1, [97, 0, 0, 0, 0, 0, 0, 0]) := by
    decide +kernel
  have hname : findUsername (uploadPacket 0 1 120).uid (List.replicate MAX_CHAR_USERID 0)
      s.credential = .ok (1, [97, 0, 0, 0, 0, 0, 0, 0], s.credential.fopen) := by
    have huid : (uploadPacket 0 1 120).uid = 1 := rfl
    rw [findUsername_eq, ready.accounts, huid, hfind]
    rfl
  have hcstr : cstr [97, 0, 0, 0, 0, 0, 0, 0] = .ok [97] := by decide
  have hcnt := ready.counter
  rw [fileCall, storeUpload_eq_ok.mpr ⟨by omega, rfl⟩]
  simp only [ok_bind, hname, hcstr]
  refine ⟨_, _, rfl, rfl, ?_, ready.group, ready.online, ready.isOpen, ready.accounts⟩
  rw [hcnt]

theorem Uploading.upload (ready : Uploading s n) (hn : n + 1 < 2 ^ 31) :
    ∃ sent s', step s (.received 0 (uploadPacket 0 1 120) (0, 0)) = .ok (sent, s') ∧
      Uploading s' (n + 1) := by
  obtain ⟨me, hme⟩ := Option.isSome_iff_exists.mp ready.isOpen
  obtain ⟨sendPacket, s', hcall, hgid, ready'⟩ := ready.call hn
  have hswitch : switch s 0 me (uploadPacket 0 1 120).toMainhdr (0, 0) =
      .ok ([.packet 0 sendPacket], s') := by
    rw [switch_sendFile rfl, onSendFile_eq, hcall, ok_bind, forwardCall]
    simp only [hgid, ready'.forward, ok_bind]
    rfl
  refine ⟨[.packet 0 sendPacket], s', ?_, ready'⟩
  rw [step, hme]
  simp only [hswitch]
  rfl

/-- Uploads go on until their number leaves `int`. -/
theorem exists_uploads (k : Nat) (hk : k + 1 < 2 ^ 31) :
    ∃ h s, Lts.Run step (Server.start twoAccounts ∅) h s ∧ Uploading s (k + 1) := by
  induction k with
  | zero =>
      have hrun : Lts.returns (Lts.execute step groupOfOne [] (Server.start twoAccounts ∅))
          (fun r => r.2.fileCnt = 1 ∧ r.2.groups[0]? = some [1] ∧
            r.2.activeSockets.lookup 1 = some 0 ∧ (r.2.thread 0).isSome ∧
            r.2.credential.lines = twoAccounts.lines) = true := by
        decide +kernel
      obtain ⟨⟨h, s⟩, hexec, htest⟩ := Lts.exists_of_returns hrun
      obtain ⟨hcnt, hgroup, honline, hopen, haccounts⟩ := of_decide_eq_true htest
      obtain ⟨run, -⟩ := Lts.Run.start.of_execute hexec
      exact ⟨h, s, run, hcnt, hgroup, honline, hopen, haccounts⟩
  | succ k ih =>
      obtain ⟨h, s, run, ready⟩ := ih (by omega)
      obtain ⟨sent, s', hstep, ready'⟩ := ready.upload (by omega)
      exact ⟨_, s', run.next hstep, ready'⟩

end Uploading

/-- `DOWNLOAD_FILE` of `0_65536.file`. -/
def wrappedPacket : Packet :=
  ⟨⟨DOWNLOAD_FILE, 0, 1, 12, [48, 95, 54, 53, 53, 51, 54, 46, 102, 105, 108, 101]⟩, rfl⟩

/-- The file of the upload with the number 65536 cannot go out under that number. -/
theorem number_wraps :
    ¬ ∀ (credential : CredentialFile) (disk : Disk) (es : List Event),
      Lts.Along step (Server.start credential disk) es NumbersReturn := by
  intro hall
  obtain ⟨h, s, run, ready⟩ := exists_uploads 65535 (by decide)
  obtain ⟨sent, s', hstep, ready'⟩ := ready.upload (by decide)
  have hname : requestedName wrappedPacket.toMainhdr = fileFormat 0 65536 := by
    decide +kernel
  have hstored : StoresFile ⟨s, .received 0 (uploadPacket 0 1 120) (0, 0), sent, s'⟩ 0
      (fileFormat 0 65536) (storedContent (uploadPacket 0 1 120).toMainhdr) :=
    ⟨0, uploadPacket 0 1 120, (0, 0), rfl, rfl, rfl, by rw [ready.counter], rfl⟩
  have hfetches : Fetches (h ++ [⟨s, .received 0 (uploadPacket 0 1 120) (0, 0), sent, s'⟩]) s'
      (.received 0 wrappedPacket (0, 0)) 0 0 (0, 0)
      ⟨s, .received 0 (uploadPacket 0 1 120) (0, 0), sent, s'⟩ (fileFormat 0 65536)
      (storedContent (uploadPacket 0 1 120).toMainhdr) :=
    ⟨⟨wrappedPacket, rfl, rfl, rfl, ⟨[1], ready'.group, List.mem_cons_self⟩, hname⟩,
      ready'.isOpen, List.mem_append_right _ List.mem_cons_self, 0, hstored⟩
  obtain ⟨-, uid, s'', -, huid, -⟩ := hall twoAccounts ∅ _ _ s' _ (run.next hstep)
    (List.prefix_refl _) 0 0 (0, 0) _ _ _ hfetches
  have huid16 := UInt16.toNat_lt uid
  have hcnt : uid.toNat = 65536 := huid.trans ready.counter
  omega

end GroupChat
