import GroupChat.Server.Forwarding
import GroupChat.Wire.Receive

/-!
# The length of a forwarded chat

The handler of `SEND_CHAT` puts `username`, a colon and the `len` bytes of the message into a
packet that `create_and_fill_hdr` allocated for `recv_packet->len + len + 1` payload bytes. That
sum is a `uint32_t`, and `send_main_header` makes an `int` of it. `payloadWritten`,
`payloadAllocated` and `bytesToSend` are the three counts.

`copies_iff` and `sends_iff` say up to which message length the copies stay within the packet and
the count on the wire is the right one; `chatFits_iff` puts the two together.
-/

namespace GroupChat

open Posix

/-- The bytes the handler puts into the payload: `strncpy`, the colon, `memcpy`. The last one
copies as many bytes as the header announces. -/
def payloadWritten (recv : Mainhdr) (username : List Byte) : Nat :=
  username.length + 1 + recv.len.toNat

/-- The room `create_and_fill_hdr` makes for the payload: `malloc` gets the size of the header
and `len + 1`, added up as `size_t`. -/
def payloadAllocated (len : UInt32) : Nat := len.toNat + 1

/-- `bytes_to_send` in `send_main_header`. -/
def bytesToSend (hdr : Mainhdr) : Int := toInt32 (sizeofMainhdr + hdr.len.toNat)

/-- A chat is forwarded whole: the copies stay in the packet, and the count that goes to
`send_wrapper` is that of the header and of the bytes copied. -/
structure ChatFits (recv : Mainhdr) (username : List Byte) : Prop where
  copies : payloadWritten recv username ≤ payloadAllocated (chatPacket recv username).len
  sends : bytesToSend (chatPacket recv username) = 8 + payloadWritten recv username

section Counts

variable {recv : Mainhdr} {username : List Byte}

theorem sendMainHeader_count (hdr : Mainhdr) (s : Socket) :
    (sendMainHeader hdr s).2 = (sendWrapper s
      { hdr with uid := swap16 hdr.uid, len := swap32 hdr.len }.image (bytesToSend hdr)).2 :=
  rfl

/-- The length in the header is the number of bytes copied, up to the wrap. -/
theorem chatPacket_len (recv : Mainhdr) (username : List Byte) :
    (chatPacket recv username).len.toNat = payloadWritten recv username % 2 ^ 32 := by
  have hsum : recv.len.toNat + username.length + 1 = payloadWritten recv username := by
    rw [payloadWritten]
    omega
  rw [chatPacket, createAndFillHdr, UInt32.toNat_ofNat', hsum]

theorem copies_iff :
    payloadWritten recv username ≤ payloadAllocated (chatPacket recv username).len ↔
      payloadWritten recv username < 2 ^ 32 := by
  rw [payloadAllocated, chatPacket_len]
  constructor
  · intro h
    omega
  · intro h
    omega

theorem sends_iff :
    bytesToSend (chatPacket recv username) = 8 + payloadWritten recv username ↔
      payloadWritten recv username + 8 < 2 ^ 31 := by
  have hsize : sizeofMainhdr = 8 := rfl
  rw [bytesToSend, chatPacket_len, hsize]
  constructor
  · intro h
    -- whatever the sum is, the conversion makes an `int` of it
    have hint := (toInt32_mem (((8 : Nat) : Int) +
      ((payloadWritten recv username % 2 ^ 32 : Nat) : Int))).2
    omega
  · intro h
    have hmod : payloadWritten recv username % 2 ^ 32 = payloadWritten recv username := by
      omega
    rw [hmod, ← Nat.cast_add, toInt32_of_lt (by omega)]
    exact Nat.cast_add _ _

/-- The handler that has found the sender's name goes on to `forward_to_group` exactly when its
copies stay in the packet. -/
theorem chatCall_copies {s : Server} {group : List UInt16} {found : List Byte}
    {credential : CredentialFile} (hcheck : checkHeaderChat recv = 0)
    (hgroup : s.groups[recv.gid.toNat]? = some group) (hmem : recv.uid ∈ group)
    (hfound : findUsername recv.uid (List.replicate MAX_CHAR_USERID 0) s.credential =
      .ok (username.length, found, credential))
    (hname : cstr found = .ok username) (hne : username ≠ []) :
    chatCall s recv =
      if payloadWritten recv username ≤ payloadAllocated (chatPacket recv username).len then
        .ok (some (chatPacket recv username), { s with credential := credential })
      else .error .outOfBounds := by
  have hpos : 0 < username.length := List.length_pos_iff.mpr hne
  have hsum : recv.len.toNat + username.length + 1 = payloadWritten recv username := by
    rw [payloadWritten]
    omega
  rw [chatCall, if_neg (not_not.mpr hcheck), groupAt_eq_ok.mpr hgroup, ok_bind,
    if_neg (List.ne_nil_of_mem hmem), checkUserInGroup_of_group hgroup, if_pos hmem, ok_bind,
    if_neg (not_not.mpr rfl), hfound, ok_bind]
  simp only [Int.toNat_natCast, hsum]
  rw [if_neg (by omega)]
  by_cases hwrap : 2 ^ 32 ≤ payloadWritten recv username
  · rw [if_pos hwrap, if_neg (mt copies_iff.mp (by omega))]
    rfl
  · rw [if_neg hwrap, if_pos (copies_iff.mpr (by omega)), hname, ok_bind]
    rfl

end Counts

/-- A chat is forwarded whole exactly when the header, the name, the colon and the message add up
to an `int`. -/
theorem chatFits_iff (recv : Mainhdr) (username : List Byte) :
    ChatFits recv username ↔ recv.len.toNat + username.length + 9 < 2 ^ 31 := by
  have hsum : payloadWritten recv username + 8 = recv.len.toNat + username.length + 9 := by
    rw [payloadWritten]
    omega
  rw [← hsum]
  constructor
  · intro h
    exact sends_iff.mp h.sends
  · intro h
    exact ⟨copies_iff.mpr (by omega), sends_iff.mpr h⟩

/-- A header that announces `2 ^ 32 - 1` bytes is handed on although the read of them fails. With
a name of one byte the packet gets room for two bytes, and `2 ^ 32 + 1` are copied. -/
theorem chat_length_wraps :
    ¬ ∀ (basic : Vector Byte sizeofMainhdr) (s t : Socket) (recv : Mainhdr),
      readMainHeader basic s = (some recv, t) → recv.cmd = SEND_CHAT →
        ∀ username : List Byte, 1 ≤ username.length → username.length ≤ 7 →
          ChatFits recv username := by
  intro h
  let s : Socket := ⟨[3, 0, 0, 1, 255, 255, 255, 255], [.upTo 8, .fail], [], []⟩
  have hres : readMainHeader (Vector.replicate _ 0) s =
      (some ⟨SEND_CHAT, 0, 1, 0xffffffff, []⟩, ⟨[], [], [], []⟩) := by decide +kernel
  have hfits := h _ s _ _ hres rfl [97] (by decide) (by decide)
  exact absurd (copies_iff.mp hfits.copies) (by decide +kernel)

end GroupChat
