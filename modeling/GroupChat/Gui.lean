import GroupChat.Posix.Block
import GroupChat.Server

/-!
# The window of a group

The memory of `struct chatbox` that a window writes, and the functions of `gui.c` that write it.
`roll_messages` shifts the table of messages and stores a new one; `chatbox_read_input` handles one
event of the window. The entries of `msgs` lie one behind the other, and `msgs` ends the structure.
What is drawn is left out.

`guiLine` is what `gui_group_function` does with a line that has been ended with Return. The line
stands in an array that nobody clears, and it is the rest of that array that `split` goes on with.
-/

namespace GroupChat

open Posix

def MAX_MSG_SIZE : Nat := 256
def NUMBER_OF_MSGS : Nat := 10

/-- `chatbox_t`; `c` says whether the connection to the display is still there. -/
structure Chatbox where
  c : Bool
  bufferLen : UInt8
  inputBuffer : Block MAX_MSG_SIZE
  msgs : Block (NUMBER_OF_MSGS * MAX_MSG_SIZE)
  deriving DecidableEq

def chatboxInit : Chatbox where
  c := true
  bufferLen := 0
  inputBuffer := .zeros MAX_MSG_SIZE
  msgs := .zeros (NUMBER_OF_MSGS * MAX_MSG_SIZE)

/-- `msgs[i]` -/
def Chatbox.entry (chatbox : Chatbox) (i : Nat) : List Byte :=
  chatbox.msgs.slice (MAX_MSG_SIZE * i) MAX_MSG_SIZE

/-! ## Messages -/

/-- The loop of `roll_messages`, from `msgs[i]` down to `msgs[1]`. -/
def rollLoop : Nat → Block (NUMBER_OF_MSGS * MAX_MSG_SIZE) →
    Except Fault (Block (NUMBER_OF_MSGS * MAX_MSG_SIZE))
  | 0, msgs => .ok msgs
  | i + 1, msgs => do
    rollLoop i (← msgs.memcpy (MAX_MSG_SIZE * (i + 1))
      (msgs.slice (MAX_MSG_SIZE * i) MAX_MSG_SIZE))

/-- `roll_messages`, with `payload` the memory behind the pointer. -/
def rollMessages (chatbox : Chatbox) (payload : List Byte) (len : Int) : Except Fault Chatbox := do
  let msgs ← rollLoop (NUMBER_OF_MSGS - 1) chatbox.msgs
  let msgs ← msgs.memset 0 0 MAX_MSG_SIZE
  if payload.length < toSizeT len then throw .outOfBounds
  let msgs ← msgs.memcpy 0 (payload.take (toSizeT len))
  return { chatbox with msgs := msgs }

/-- A window takes a message off its queue and shows it. -/
def showMessage (chatbox : Chatbox) (msg : Packet) : Except Fault (Unit × Chatbox) :=
  (rollMessages chatbox (msg.payload ++ [0]) (toInt32 msg.len.toNat)).map fun chatbox =>
    ((), chatbox)

/-! ## Keys -/

def XK_BackSpace : UInt32 := 0xff08
def XK_Return : UInt32 := 0xff0d
def XK_Escape : UInt32 := 0xff1b

/-- The line that is being typed. -/
def Chatbox.line (chatbox : Chatbox) : List Byte :=
  chatbox.inputBuffer.bytes.take chatbox.bufferLen.toNat

/-- The case of `XK_BackSpace`. -/
def Chatbox.backSpace (chatbox : Chatbox) : Except Fault Chatbox :=
  if chatbox.bufferLen > 0 then do
    let bufferLen := chatbox.bufferLen - 1
    let inputBuffer ← chatbox.inputBuffer.memcpy bufferLen.toNat [0]
    return { chatbox with bufferLen := bufferLen, inputBuffer := inputBuffer }
  else .ok chatbox

/-- The default case; a `char` is signed. -/
def Chatbox.typeAscii (chatbox : Chatbox) (ascii : Byte) : Except Fault Chatbox :=
  if chatbox.bufferLen < 255 ∧ 0 < ascii ∧ ascii < 128 then do
    let inputBuffer ← chatbox.inputBuffer.memcpy chatbox.bufferLen.toNat [ascii]
    let bufferLen := chatbox.bufferLen + 1
    let inputBuffer ← inputBuffer.memcpy bufferLen.toNat [0]
    return { chatbox with bufferLen := bufferLen, inputBuffer := inputBuffer }
  else do
    let inputBuffer ← chatbox.inputBuffer.memcpy chatbox.bufferLen.toNat [0]
    return { chatbox with inputBuffer := inputBuffer }

/-- `chatbox_read_input` on the release of a key: the size of the line that has been ended, the
window and `msg_to_send` afterwards. -/
def chatboxReadInput (chatbox : Chatbox) (msgToSend : Block MAX_MSG_SIZE) (keysymbol : UInt32) :
    Except Fault (Nat × Chatbox × Block MAX_MSG_SIZE) :=
  if chatbox.c = false then .error .useAfterFree
  else if keysymbol = XK_Escape then .ok (0, { chatbox with c := false }, msgToSend)
  else if keysymbol = XK_BackSpace then
    chatbox.backSpace.map fun chatbox => (0, chatbox, msgToSend)
  else if keysymbol = XK_Return then do
    let msgToSend ← msgToSend.strncpy chatbox.inputBuffer.bytes chatbox.bufferLen.toNat
    let inputBuffer ← chatbox.inputBuffer.memset 0 0 MAX_MSG_SIZE
    return (chatbox.bufferLen.toNat,
      { chatbox with bufferLen := 0, inputBuffer := inputBuffer }, msgToSend)
  else (chatbox.typeAscii keysymbol.toUInt8).map fun chatbox => (0, chatbox, msgToSend)

/-! ## Lines -/

/-- What a line that has been typed leads to. -/
inductive Issued
  | nothing
  /-- the format of the command is printed -/
  | rejected
  | queued (header : Mainhdr)
  /-- a call of `send_file` -/
  | upload (gid : UInt8) (filename : List Byte)
  deriving DecidableEq

/-- `char filename[100]`, set to zeros, after `strncpy(filename, input, n)`: its string. -/
def copyFilename (input : List Byte) (n : Nat) : Except Fault (List Byte) := do
  cstr (← (Block.zeros 100).strncpy input n).bytes

theorem copyFilename_of_bytes {input bs : List Byte} {n : Nat}
    (hbs : strncpyBytes input n = .ok bs) :
    copyFilename input n =
      if n ≤ 100 then cstr (bs ++ List.replicate (100 - n) 0) else .error .outOfBounds := by
  have hlen := length_strncpyBytes hbs
  rw [copyFilename, Block.strncpy, hbs, ok_bind]
  by_cases hn : n ≤ 100
  · obtain ⟨block, hblock, hbytes⟩ := @Block.memcpy_ok _ (Block.zeros 100) 0 bs (by omega)
    rw [hblock, ok_bind, if_pos hn, hbytes, overwrite_zero, Block.zeros, List.drop_replicate, hlen]
  · have hlong : ¬ 0 + bs.length ≤ 100 := by omega
    rw [Block.memcpy, dif_neg hlong, if_neg hn]
    rfl

/-- A string that is copied without its terminator, or a part of one. -/
theorem copyFilename_append {bs : List Byte} (h0 : 0 ∉ bs) (rest : List Byte) :
    copyFilename (bs ++ rest) bs.length = if bs.length < 100 then .ok bs else .error .outOfBounds := by
  rw [copyFilename_of_bytes (strncpyBytes_of_append h0)]
  rcases Nat.lt_trichotomy bs.length 100 with hlt | heq | hgt
  · have hroom : 100 - bs.length = 99 - bs.length + 1 := by omega
    rw [if_pos (by omega), if_pos hlt, hroom, List.replicate_succ, cstr_terminated h0]
  · have hroom : 100 - bs.length = 0 := by omega
    rw [if_pos (by omega), if_neg (by omega), hroom, List.replicate_zero, List.append_nil,
      cstr_unterminated h0]
  · rw [if_neg (by omega), if_neg (by omega)]

/-- `/invite ` -/
def inviteCommand : List Byte := [47, 105, 110, 118, 105, 116, 101, 32]

/-- `/download ` -/
def downloadCommand : List Byte := [47, 100, 111, 119, 110, 108, 111, 97, 100, 32]

/-- `/send_file ` -/
def sendFileCommand : List Byte := [47, 115, 101, 110, 100, 95, 102, 105, 108, 101, 32]

/-- What `gui_group_function` does with the first `msgSize` bytes of `msg_to_send`. -/
def guiLine (groupGid : UInt8) (myUid : UInt16) (msgToSend : Block MAX_MSG_SIZE) (msgSize : Nat)
    (heap : Byte) : Except Fault Issued := do
  if msgSize = 0 then return .nothing
  else if msgToSend.bytes.head? = some 47 ∧ inviteCommand.length ≤ msgSize then
    let inputs := split (← cstr msgToSend.bytes) space heap
    if strncmp msgToSend.bytes inviteCommand inviteCommand.length = .ok 0 then
      match inputs with
      | [_, input] =>
        let len := msgSize - inviteCommand.length
        let payload ← strncpyBytes input len
        return .queued
          { createAndFillHdr INVITE groupGid myUid (UInt32.ofNat len) with payload := payload }
      | _ => return .rejected
    else if downloadCommand.length ≤ msgSize ∧
        strncmp msgToSend.bytes downloadCommand downloadCommand.length = .ok 0 then
      match inputs with
      | _ :: input :: _ =>
        let filename ← copyFilename input (msgSize - downloadCommand.length)
        let len := UInt32.ofNat filename.length
        return .queued { createAndFillHdr DOWNLOAD_FILE groupGid myUid len with payload := filename }
      | _ => return .rejected
    else if sendFileCommand.length ≤ msgSize ∧
        strncmp msgToSend.bytes sendFileCommand sendFileCommand.length = .ok 0 then
      match inputs with
      | _ :: input :: _ =>
        let filename ← copyFilename input (msgSize - sendFileCommand.length)
        return .upload groupGid filename
      | _ => return .rejected
    else return .nothing
  else
    let payload ← strncpyBytes msgToSend.bytes msgSize
    return .queued ⟨SEND_CHAT, groupGid, myUid, UInt32.ofNat msgSize, payload⟩

/-! ## Steps -/

/-- A window and the array of its thread that lines are copied to. -/
structure GuiWindow where
  chatbox : Chatbox
  msgToSend : Block MAX_MSG_SIZE

/-- The release of a key, and what `split` finds in the last byte of its last token. -/
structure KeyRelease where
  keysymbol : UInt32
  heap : Byte

/-- One turn of the loop of `gui_group_function`, up to its look at the queue. -/
def guiStep (groupGid : UInt8) (myUid : UInt16) (w : GuiWindow) (e : KeyRelease) :
    Except Fault (Issued × GuiWindow) := do
  let (msgSize, chatbox, msgToSend) ← chatboxReadInput w.chatbox w.msgToSend e.keysymbol
  let issued ← guiLine groupGid myUid msgToSend msgSize e.heap
  return (issued, ⟨chatbox, msgToSend⟩)

end GroupChat
