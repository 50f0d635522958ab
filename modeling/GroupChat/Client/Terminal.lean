import GroupChat.Client
import GroupChat.Gui
import GroupChat.Split

/-!
# Commands at the terminal

What `handle_user_input` does with a line: it splits it at its spaces and compares the first token
with the commands. Every command reads the gid with `sscanf` into an `int` that may stay as it was,
and takes its text in its own way, always one byte short of its length for the newline.

The lemmas say what each command makes of a field without a `NUL` and of the text behind it.
-/

namespace GroupChat

open Posix

/-! ## The commands -/

/-- `sscanf(inputs[1], "%d", &gid)`, with `gid` what the variable held. -/
def scanGid (inputs : List (List Byte)) (gid : Int) : Except Fault Int := do
  return (← scanInt (← cstr (inputs.getD 1 []))).getD gid

/-- `strncpy(hdr->payload, src, n)`, with `hdr` from `create_and_fill_hdr`: its payload is zero and
has one byte more than announced. -/
def strncpyPayload (hdr : Mainhdr) (src : List Byte) (n : Nat) : Except Fault Mainhdr :=
  if hdr.len.toNat + 1 < n then .error .outOfBounds
  else (strncpyBytes src n).map fun bs =>
    { hdr with payload := (bs ++ List.replicate hdr.len.toNat 0).take hdr.len.toNat }

/-- `invite` -/
def inviteCall (myUid : UInt16) (numInputs : Int) (inputs : List (List Byte)) (gid : Int) :
    Except Fault Issued :=
  if numInputs ≠ 3 then .ok .rejected
  else do
    let gid ← scanGid inputs gid
    let username ← cstr (inputs.getD 2 [])
    let len := UInt32.ofNat (toSizeT (username.length - 1))
    let header := createAndFillHdr INVITE (UInt8.ofInt gid) myUid len
    return .queued (← strncpyPayload header (inputs.getD 2 []) len.toNat)

/-- `line = strchr(line, ' '); line++` -/
def afterSpace (line : List Byte) : Except Fault (List Byte) := do
  match ← strchr line space with
  | none => throw .nullPointer
  | some i => return line.drop (i + 1)

/-- `send` -/
def sendCall (myUid : UInt16) (line : List Byte) (numInputs : Int) (inputs : List (List Byte))
    (gid : Int) : Except Fault Issued :=
  if numInputs < 3 then .ok .rejected
  else do
    let gid ← scanGid inputs gid
    let line ← afterSpace line
    let line ← afterSpace line
    let len := toSizeT ((← cstr line).length - 1)
    let header := createAndFillHdr SEND_CHAT (UInt8.ofInt gid) myUid (UInt32.ofNat len)
    return .queued (← strncpyPayload header line len)

/-- `filename` in `send_file` and `download`, and its gid. -/
def filenameCall (inputs : List (List Byte)) (gid : Int) : Except Fault (List Byte × Int) := do
  let input := inputs.getD 2 []
  let filename ← copyFilename input (toSizeT ((← cstr input).length - 1))
  return (filename, ← scanGid inputs gid)

/-- `send_file` -/
def sendFileCall (numInputs : Int) (inputs : List (List Byte)) (gid : Int) :
    Except Fault Issued :=
  if numInputs < 3 then .ok .rejected
  else do
    let (filename, gid) ← filenameCall inputs gid
    return .upload (UInt8.ofInt gid) filename

/-- `download` -/
def downloadCall (myUid : UInt16) (numInputs : Int) (inputs : List (List Byte)) (gid : Int) :
    Except Fault Issued :=
  if numInputs < 3 then .ok .rejected
  else do
    let (filename, gid) ← filenameCall inputs gid
    let header := createAndFillHdr DOWNLOAD_FILE (UInt8.ofInt gid) myUid
      (UInt32.ofNat filename.length)
    return .queued (← strncpyPayload header (filename ++ [0]) filename.length)

/-! ## A line -/

/-- `new_group` -/
def newGroupWord : List Byte := [110, 101, 119, 95, 103, 114, 111, 117, 112]

/-- `active_list` -/
def activeListWord : List Byte := [97, 99, 116, 105, 118, 101, 95, 108, 105, 115, 116]

/-- The commands that take fields. -/
inductive Command
  | invite
  | send
  | sendFile
  | download
  deriving DecidableEq

/-- `invite`, `send`, `send_file`, `download` -/
def Command.word : Command → List Byte
  | .invite => [105, 110, 118, 105, 116, 101]
  | .send => [115, 101, 110, 100]
  | .sendFile => [115, 101, 110, 100, 95, 102, 105, 108, 101]
  | .download => [100, 111, 119, 110, 108, 111, 97, 100]

/-- What a command makes of a line. -/
def Command.call (command : Command) (myUid : UInt16) (line : List Byte) (numInputs : Int)
    (inputs : List (List Byte)) (gid : Int) : Except Fault Issued :=
  match command with
  | .invite => inviteCall myUid numInputs inputs gid
  | .send => sendCall myUid line numInputs inputs gid
  | .sendFile => sendFileCall numInputs inputs gid
  | .download => downloadCall myUid numInputs inputs gid

/-- `strcmp(command, "word\n") == 0 || strcmp(command, "word") == 0` -/
def isWord (command word : List Byte) : Except Fault Bool := do
  if ← strcmpEq command (word ++ [newline]) then return true else strcmpEq command word

/-- The commands in the order in which the line is compared with them. -/
def findCommand (command : List Byte) : List Command → Except Fault (Option Command)
  | [] => .ok none
  | c :: cs => do
    if ← isWord command c.word then return some c else findCommand command cs

/-- `handle_user_input` on the line that `getline` has read, with `gid` what the variables of that
name hold before `sscanf`. -/
def handleLine (myUid : UInt16) (line : List Byte) (malloc : Malloc) (gid : Int) :
    Except Fault Issued := do
  let (numInputs, inputs) ← splitPasses line space malloc
  let command := inputs.headD []
  if ← isWord command newGroupWord then return .queued (newGroupPacket myUid).toMainhdr
  else if ← isWord command activeListWord then return .queued (activeListPacket myUid).toMainhdr
  else
    match ← findCommand command [.invite, .send, .sendFile, .download] with
    | none => return .nothing
    | some c => c.call myUid line numInputs inputs gid

/-! ## What the commands make of their fields -/

section Calls

variable {w field text junk : List Byte} {heap : Byte} {gid : Int} {myUid : UInt16}

theorem scanGid_eq (hfield : 0 ∉ field) (inputs : List (List Byte)) :
    scanGid (w :: (field ++ [0]) :: inputs) gid =
      (scanInt field).map fun scanned => scanned.getD gid := by
  change (cstr (field ++ [0]) >>= fun s => scanInt s >>= fun scanned => pure (scanned.getD gid)) = _
  rw [cstr_terminated hfield [], ok_bind]
  cases scanInt field <;> rfl

theorem third_input {x : List Byte} :
    (w :: x :: split text space heap).getD 2 [] = (split text space heap).headD [] := by
  obtain ⟨t, ts, hts⟩ := List.exists_cons_of_ne_nil (@split_ne_nil space heap text)
  rw [hts]
  rfl

/-- The array takes a string without its last byte. -/
theorem copyFilename_chopped (h0 : 0 ∉ text) (hshort : text.length < 2 ^ 63) :
    copyFilename (text ++ [0]) (toSizeT ((text.length : Int) - 1)) =
      if text ≠ [] ∧ text.length ≤ 100 then .ok text.dropLast else .error .outOfBounds := by
  by_cases hne : text = []
  · have hhuge : toSizeT (((text.length : Nat) : Int) - 1) = 2 ^ 64 - 1 := by
      rw [hne]
      rfl
    have hbytes := @strncpyBytes_terminated (2 ^ 64 - 1) text [] h0
    rw [hhuge, copyFilename_of_bytes hbytes, if_neg (by decide), if_neg fun h => h.1 hne]
  · have hpos : 0 < text.length := List.length_pos_iff.mpr hne
    have hinit : 0 ∉ text.dropLast := fun h => h0 (List.mem_of_mem_dropLast h)
    have hsplit : text ++ [0] = text.dropLast ++ [text.getLast hne, 0] := by
      conv_lhs => rw [← List.dropLast_append_getLast hne]
      exact List.append_assoc _ _ _
    have hroom : text.dropLast.length < 100 ↔ text ≠ [] ∧ text.length ≤ 100 := by
      rw [List.length_dropLast, and_iff_right hne]
      omega
    rw [toSizeT_pred hpos (by omega), hsplit, ← List.length_dropLast, copyFilename_append hinit]
    exact if_congr hroom rfl rfl

/-- A string of the announced length is the payload. -/
theorem strncpyPayload_eq {hdr : Mainhdr} {src bs : List Byte} {n : Nat} (hlen : hdr.len.toNat = n)
    (hbs : strncpyBytes src n = .ok bs) :
    strncpyPayload hdr src n = .ok { hdr with payload := bs } := by
  have hbytes := length_strncpyBytes hbs
  rw [strncpyPayload, if_neg (by omega), hbs, hlen]
  simp only [Except.map, ← hbytes, List.take_left']

/-- The third token is a string that is not empty and fits the array with its last byte off. -/
def NameFits (text : List Byte) (heap : Byte) : Prop :=
  (space ∈ text ∨ heap = 0) ∧ text.takeWhile (· ≠ space) ≠ [] ∧
    (text.takeWhile (· ≠ space)).length ≤ 100

instance : Decidable (NameFits text heap) := inferInstanceAs (Decidable (_ ∧ _ ∧ _))

/-- The file name is the third token without its last byte. -/
theorem filenameCall_eq (hfield : 0 ∉ field) (h0 : 0 ∉ text) (hshort : text.length < 2 ^ 63) :
    filenameCall (w :: (field ++ [0]) :: split text space heap) gid =
      if NameFits text heap then
        (scanInt field).map fun scanned =>
          ((text.takeWhile (· ≠ space)).dropLast, scanned.getD gid)
      else .error .outOfBounds := by
  have hinput : 0 ∉ text.takeWhile (· ≠ space) := fun h => h0 (List.takeWhile_subset _ h)
  have hlen : (text.takeWhile (· ≠ space)).length ≤ text.length :=
    (List.takeWhile_prefix _).length_le
  rw [filenameCall, third_input]
  by_cases hend : space ∈ text ∨ heap = 0
  · rw [cstr_head_split h0, if_pos hend, ok_bind, head_split_terminated hend,
      copyFilename_chopped hinput (by omega)]
    by_cases hfits : text.takeWhile (· ≠ space) ≠ [] ∧ (text.takeWhile (· ≠ space)).length ≤ 100
    · rw [if_pos hfits, if_pos (show NameFits text heap from ⟨hend, hfits⟩), ok_bind,
        scanGid_eq hfield]
      cases scanInt field <;> rfl
    · rw [if_neg hfits, if_neg fun h : NameFits text heap => hfits h.2]
      rfl
  · rw [cstr_head_split h0, if_neg hend, if_neg fun h : NameFits text heap => hend h.1]
    rfl

theorem sendFileCall_eq (hfield : 0 ∉ field) (h0 : 0 ∉ text) (hshort : text.length < 2 ^ 63) :
    sendFileCall ((text.count space : Int) + 3) (w :: (field ++ [0]) :: split text space heap) gid =
      if NameFits text heap then
        (scanInt field).map fun scanned =>
          .upload (UInt8.ofInt (scanned.getD gid)) (text.takeWhile (· ≠ space)).dropLast
      else .error .outOfBounds := by
  rw [sendFileCall, if_neg (by omega), filenameCall_eq hfield h0 hshort]
  by_cases hfits : NameFits text heap
  · rw [if_pos hfits, if_pos hfits]
    cases scanInt field <;> rfl
  · rw [if_neg hfits, if_neg hfits]
    rfl

theorem downloadCall_eq (hfield : 0 ∉ field) (h0 : 0 ∉ text) (hshort : text.length < 2 ^ 63) :
    downloadCall myUid ((text.count space : Int) + 3)
        (w :: (field ++ [0]) :: split text space heap) gid =
      if NameFits text heap then
        (scanInt field).map fun scanned =>
          .queued ⟨DOWNLOAD_FILE, UInt8.ofInt (scanned.getD gid), myUid,
            UInt32.ofNat (text.takeWhile (· ≠ space)).dropLast.length,
            (text.takeWhile (· ≠ space)).dropLast⟩
      else .error .outOfBounds := by
  rw [downloadCall, if_neg (by omega), filenameCall_eq hfield h0 hshort]
  by_cases hfits : NameFits text heap
  · have hinit : 0 ∉ (text.takeWhile (· ≠ space)).dropLast :=
      fun h => h0 (List.takeWhile_subset _ (List.mem_of_mem_dropLast h))
    have hlen : (text.takeWhile (· ≠ space)).dropLast.length < 2 ^ 32 := by
      have := hfits.2.2
      rw [List.length_dropLast]
      omega
    rw [if_pos hfits, if_pos hfits]
    generalize (text.takeWhile (· ≠ space)).dropLast = filename at hinit hlen
    cases scanInt field with
    | error fault => rfl
    | ok scanned =>
        have hannounced : (createAndFillHdr DOWNLOAD_FILE (UInt8.ofInt (scanned.getD gid)) myUid
            (UInt32.ofNat filename.length)).len.toNat = filename.length := by
          change (UInt32.ofNat filename.length).toNat = _
          rw [UInt32.toNat_ofNat']
          omega
        rw [Except.map, ok_bind]
        simp only
        rw [strncpyPayload_eq hannounced (strncpyBytes_of_append hinit)]
        rfl
  · rw [if_neg hfits, if_neg hfits]
    rfl

/-- What an invitation names: an empty token has the length `-1`. -/
def invitedText (text : List Byte) : List Byte :=
  if text = [] then List.replicate (2 ^ 32 - 1) 0 else text.dropLast

theorem length_invitedText (hshort : text.length < 2 ^ 31) :
    (UInt32.ofNat (toSizeT ((text.length : Int) - 1))).toNat = (invitedText text).length := by
  rw [invitedText, UInt32.toNat_ofNat']
  by_cases hne : text = []
  · rw [if_pos hne, List.length_replicate, hne]
    rfl
  · have hpos : 0 < text.length := List.length_pos_iff.mpr hne
    rw [if_neg hne, toSizeT_pred hpos (by omega), List.length_dropLast]
    omega

theorem strncpyBytes_invitedText (h0 : 0 ∉ text) :
    strncpyBytes (text ++ [0]) (invitedText text).length = .ok (invitedText text) := by
  rw [invitedText]
  by_cases hne : text = []
  · have hbytes := @strncpyBytes_terminated (2 ^ 32 - 1) text [] h0
    rw [if_pos hne, List.length_replicate, hbytes, hne, List.nil_append, List.take_replicate,
      Nat.min_self]
  · rw [if_neg hne, List.length_dropLast]
    exact strncpyBytes_dropLast h0 hne [0]

theorem numInputs_eq_three {k : Nat} : ((k : Int) + 3 = 3) ↔ k = 0 := by omega

theorem inviteCall_eq (hfield : 0 ∉ field) (h0 : 0 ∉ text)
    (hshort : space ∉ text → text.length < 2 ^ 31) :
    inviteCall myUid ((text.count space : Int) + 3)
        (w :: (field ++ [0]) :: split text space heap) gid =
      if space ∈ text then .ok .rejected
      else scanInt field >>= fun scanned =>
        if heap = 0 then
          .ok (.queued ⟨INVITE, UInt8.ofInt (scanned.getD gid), myUid,
            UInt32.ofNat (toSizeT ((text.length : Int) - 1)), invitedText text⟩)
        else .error .outOfBounds := by
  rw [inviteCall]
  by_cases hspace : space ∈ text
  · have hcount : text.count space ≠ 0 := fun h => List.count_eq_zero.mp h hspace
    rw [if_pos hspace, if_pos (mt numInputs_eq_three.mp hcount)]
  · have hcount : text.count space = 0 := List.count_eq_zero.mpr hspace
    rw [if_neg hspace, if_neg (not_not.mpr (numInputs_eq_three.mpr hcount)), scanGid_eq hfield,
      third_input]
    cases scanInt field with
    | error fault => rfl
    | ok scanned =>
        rw [Except.map, ok_bind, ok_bind, cstr_head_split h0]
        by_cases hheap : heap = 0
        · have hlen := length_invitedText (hshort hspace)
          have hpayload := strncpyBytes_invitedText h0
          rw [if_pos (Or.inr hheap), if_pos hheap, ok_bind, head_split_terminated (Or.inr hheap),
            takeWhile_of_notMem hspace]
          simp only [hlen]
          rw [strncpyPayload_eq hlen hpayload]
          rfl
        · rw [if_neg (not_or.mpr ⟨hspace, hheap⟩), if_neg hheap]
          rfl

theorem afterSpace_eq {s rest : List Byte} (h0 : 0 ∉ s) (hs : space ∉ s) :
    afterSpace (s ++ space :: rest) = .ok rest := by
  have hdrop : (s ++ space :: rest).drop (s.length + 1) = rest := by
    rw [List.append_cons]
    exact List.drop_left' (by rw [List.length_append, List.length_singleton])
  rw [afterSpace, strchr_found h0 hs, ok_bind]
  simp only [hdrop]
  rfl

theorem sendCall_eq (hw : 0 ∉ w) (hwspace : space ∉ w) (hfield : 0 ∉ field)
    (hfieldspace : space ∉ field) (h0 : 0 ∉ text) (hshort : text.length < 2 ^ 63) :
    sendCall myUid (w ++ space :: (field ++ space :: (text ++ 0 :: junk)))
        ((text.count space : Int) + 3) ((w ++ [0]) :: (field ++ [0]) :: split text space heap) gid =
      scanInt field >>= fun scanned =>
        if text ≠ [] ∧ text.length ≤ 2 ^ 32 then
          .ok (.queued ⟨SEND_CHAT, UInt8.ofInt (scanned.getD gid), myUid,
            UInt32.ofNat (text.length - 1), text.dropLast⟩)
        else .error .outOfBounds := by
  rw [sendCall, if_neg (by omega), scanGid_eq hfield]
  cases scanInt field with
  | error fault => rfl
  | ok scanned =>
      rw [Except.map, ok_bind, ok_bind, afterSpace_eq hw hwspace, ok_bind,
        afterSpace_eq hfield hfieldspace, ok_bind, cstr_terminated h0, ok_bind]
      by_cases hne : text = []
      · have hhuge : toSizeT ((text.length : Int) - 1) = 2 ^ 64 - 1 := by
          rw [hne]
          rfl
        rw [if_neg fun h => h.1 hne]
        simp only [hhuge, strncpyPayload, createAndFillHdr]
        rw [if_pos (by decide)]
        rfl
      · have hpos : 0 < text.length := List.length_pos_iff.mpr hne
        simp only [toSizeT_pred hpos (by omega)]
        by_cases hfits : text.length ≤ 2 ^ 32
        · have hlen : (createAndFillHdr SEND_CHAT (UInt8.ofInt (scanned.getD gid)) myUid
              (UInt32.ofNat (text.length - 1))).len.toNat = text.length - 1 := by
            change (UInt32.ofNat (text.length - 1)).toNat = _
            rw [UInt32.toNat_ofNat']
            omega
          rw [if_pos ⟨hne, hfits⟩, strncpyPayload_eq hlen (strncpyBytes_dropLast h0 hne _)]
          rfl
        · have hover : (createAndFillHdr SEND_CHAT (UInt8.ofInt (scanned.getD gid)) myUid
              (UInt32.ofNat (text.length - 1))).len.toNat + 1 < text.length - 1 := by
            change (UInt32.ofNat (text.length - 1)).toNat + 1 < _
            rw [UInt32.toNat_ofNat']
            omega
          rw [if_neg fun h => hfits h.2, strncpyPayload, if_pos hover]
          rfl

end Calls

end GroupChat
