import GroupChat.Posix.Socket

/-!
# The wire: headers, packets and files on a socket

The message header of `msg_header.h` and the functions of `util.c` that put packets and
files on a socket and take them off again.

* `sendMainHeader` and `readMainHeader` send and receive one packet through the loops
  `sendWrapper` and `recvWrapper`. The loop of `sendWrapper` goes on with `read`, as the
  source has it.
* `sendFile` builds its header by hand and writes the file in pieces of 1024 bytes;
  `receiveToFile` reads such pieces until the announced length is used up.
* The loops that count down by what a call returned need not end, so they take fuel:
  `none` is a loop that is still running. Allocation is taken to succeed.
-/

namespace GroupChat

open Posix

/-! ## Commands and headers -/

def USR_CREATE : UInt8 := 1
def USR_LOGIN : UInt8 := 2
def SEND_CHAT : UInt8 := 3
def SEND_FILE : UInt8 := 4
def DOWNLOAD_FILE : UInt8 := 5
def INVITE : UInt8 := 6
def INVITE_RESP : UInt8 := 7
def ACTIVE_LIST : UInt8 := 8
def CREATE_GROUP : UInt8 := 9

/-- `mainhdr_t`. The payload is the part of the buffer that has been filled; the bytes
after it are zero. -/
structure Mainhdr where
  cmd : UInt8
  gid : UInt8
  uid : UInt16
  len : UInt32
  payload : List Byte
  deriving DecidableEq, Repr

/-- `sizeof(mainhdr_t)`: the flexible payload has no size. -/
def sizeofMainhdr : Nat := 8

/-- The memory a header and its payload occupy. -/
def Mainhdr.image (hdr : Mainhdr) : List Byte :=
  hdr.cmd :: hdr.gid :: (bytes16 hdr.uid ++ bytes32 hdr.len ++ hdr.payload)

/-- The header that eight bytes of memory hold. -/
def Mainhdr.ofImage : List Byte → Mainhdr
  | [cmd, gid, u0, u1, l0, l1, l2, l3] => ⟨cmd, gid, load16 u0 u1, load32 l0 l1 l2 l3, []⟩
  | _ => ⟨0, 0, 0, 0, []⟩

/-- `create_and_fill_hdr`: a packet whose payload is `len` zero bytes. -/
def createAndFillHdr (cmd gid : UInt8) (uid : UInt16) (len : UInt32) : Mainhdr :=
  ⟨cmd, gid, uid, len, []⟩

/-! ## Packets -/

/-- The loop of `send_wrapper`, with `bytesSent` of the `numBytes` bytes gone. It goes on
with `read`, which takes bytes off the incoming stream and puts none out. -/
def sendLoop (s : Socket) (numBytes bytesSent : Int) : Int × Socket :=
  if bytesSent < numBytes then
    let tmp := s.read (toSizeT (numBytes - bytesSent))
    if tmp.count = 0 ∨ tmp.count = -1 then (tmp.count, tmp.socket)
    else sendLoop tmp.socket numBytes (bytesSent + tmp.count)
  else (0, s)
termination_by (numBytes - bytesSent).toNat
decreasing_by
  have := Socket.read_count_pos ‹_›
  omega

/-- `send_wrapper`. -/
def sendWrapper (s : Socket) (buff : List Byte) (numBytes : Int) : Int × Socket :=
  let (count, s') := s.write buff (toSizeT numBytes)
  let tmp := toInt32 count
  if tmp = 0 ∨ tmp = -1 then (tmp, s')
  else sendLoop s' numBytes tmp

/-- `send_main_header`: the byte count is computed, the two integers are swapped in place
and the whole buffer is handed to `send_wrapper`. -/
def sendMainHeader (hdr : Mainhdr) (s : Socket) : Int × Socket :=
  let bytesToSend := toInt32 (sizeofMainhdr + hdr.len.toNat)
  let hdr := { hdr with uid := swap16 hdr.uid, len := swap32 hdr.len }
  match sendWrapper s hdr.image bytesToSend with
  | (ret, s') => (if ret ≠ 0 then 1 else 0, s')

/-- The loop of `recv_wrapper`, with `got` in the buffer. -/
def recvLoop (s : Socket) (numBytes : Int) (got : List Byte) : Int × List Byte × Socket :=
  if (got.length : Int) < numBytes then
    let tmp := s.read (toSizeT (numBytes - got.length))
    if tmp.count = 0 ∨ tmp.count = -1 then (tmp.count, got, tmp.socket)
    else recvLoop tmp.socket numBytes (got ++ tmp.bytes)
  else (1, got, s)
termination_by (numBytes - got.length).toNat
decreasing_by
  have := Socket.read_count_pos ‹_›
  have := Socket.read_count_eq (s := s) (n := toSizeT (numBytes - got.length)) (by omega)
  simp only [List.length_append]
  omega

/-- `recv_wrapper`: its result and the bytes it put in the buffer. -/
def recvWrapper (s : Socket) (numBytes : Int) : Int × List Byte × Socket :=
  let tmp := s.read (toSizeT numBytes)
  if tmp.count = 0 ∨ tmp.count = -1 then (tmp.count, [], tmp.socket)
  else recvLoop tmp.socket numBytes tmp.bytes

/-- The header as read, in host order. -/
def hostHeader (basic : List Byte) : Mainhdr :=
  let hdr := Mainhdr.ofImage basic
  { hdr with uid := swap16 hdr.uid, len := swap32 hdr.len }

/-- The condition under which a payload follows the header. -/
def Mainhdr.hasPayload (hdr : Mainhdr) : Bool := hdr.len ≠ 0 && hdr.cmd ≠ SEND_FILE

/-- The second half of `read_main_header`: the payload, where one follows. -/
def recvPayload (hdr : Mainhdr) (s : Socket) : Option Mainhdr × Socket :=
  if hdr.hasPayload then
    match recvWrapper s (toInt32 hdr.len.toNat) with
    | (ret, payload, s') =>
      if ret ≠ 0 then (some { hdr with payload := payload }, s') else (none, s')
  else (some hdr, s)

/-- `read_main_header`. The header is read over the eight bytes `basic` that happen to be
on the stack; both `if`s take any result of `recv_wrapper` but `0` for success. -/
def readMainHeader (basic : Vector Byte sizeofMainhdr) (s : Socket) : Option Mainhdr × Socket :=
  match recvWrapper s sizeofMainhdr with
  | (ret, got, s') =>
    if ret ≠ 0 then recvPayload (hostHeader (got ++ basic.toList.drop got.length)) s'
    else (none, s')

/-! ## Files -/

/-- The loop of `send_file`: `data` is what is still to be read from the file. -/
def sendFileLoop : Nat → Socket → List Byte → Int → Option Socket
  | 0, _, _, _ => none
  | fuel + 1, s, data, fileSize =>
    if fileSize > 0 then
      let buff := data.take 1024
      sendFileLoop fuel (s.write buff buff.length).2 (data.drop 1024) (fileSize - buff.length)
    else some s

/-- `send_file` on a file that opens and whose content is `data`. -/
def sendFile (fuel : Nat) (s : Socket) (gid : UInt8) (uid : UInt16) (data : List Byte) :
    Option (Int × Socket) :=
  let fileSize := toInt32 data.length
  let hdr := createAndFillHdr SEND_FILE gid uid 0
  let hdr := { hdr with len := swap32 (UInt32.ofInt fileSize), uid := swap16 uid }
  (sendFileLoop fuel (s.write hdr.image sizeofMainhdr).2 data fileSize).map fun s' => (0, s')

/-- The loop of `receive_to_file`, with `written` in the file. A negative count makes
`fwrite` read far past `buff`. -/
def receiveLoop : Nat → Socket → Int → List Byte → Option (Except Fault (List Byte × Socket))
  | 0, _, _, _ => none
  | fuel + 1, s, byteToRead, written =>
    if byteToRead > 0 then
      let recv := s.read (if byteToRead < 1024 then byteToRead.toNat else 1024)
      if recv.count < 0 then some (.error .outOfBounds)
      else receiveLoop fuel recv.socket (byteToRead - recv.count) (written ++ recv.bytes)
    else some (.ok (written, s))

/-- `receive_to_file` when the destination opens: the result, the file's content, the
socket. -/
def receiveToFile (fuel : Nat) (s : Socket) (len : Int) :
    Option (Except Fault (Int × List Byte × Socket)) :=
  (receiveLoop fuel s len []).map fun r => r.map fun (written, s') => (0, written, s')

end GroupChat
