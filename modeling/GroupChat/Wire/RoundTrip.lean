import GroupChat.Wire.Receive
import GroupChat.Wire.ReceiveFile
import GroupChat.Wire.Send

/-!
# Framing round trip

One sender puts packets (`send_main_header`) and files (`send_file`) on a connection; the
receiver loops over `read_main_header`, followed by `receive_to_file` after a `SEND_FILE`
header. `wire_round_trip` is the statement that the receiver gets exactly what was sent,
however `read` splits the stream.

On the sending side every message is its bytes on the wire (`sendMessage_wire`). On the
receiving side each function takes its own message off a flowing stream and leaves the rest
(`readMainHeader_packet`, `readMainHeader_file`, `receiveLoop_flowing`); the run lemma is an
induction over the messages.
-/

namespace GroupChat

open Posix Socket

/-! ## Messages -/

/-- What a sender may put on the connection. The bounds keep the counts within `int`. -/
inductive Message
  | packet (p : Packet) (notFile : p.cmd ≠ SEND_FILE) (fits : p.len.toNat < 2 ^ 31 - 8)
  | file (gid : UInt8) (uid : UInt16) (content : List Byte) (fits : content.length < 2 ^ 31)

/-- What the receiver gets: a packet, or a `SEND_FILE` header and the file stored. -/
inductive Received
  | packet (hdr : Mainhdr)
  | file (hdr : Mainhdr) (content : List Byte)
  deriving DecidableEq, Repr

/-- The header announcing a file. -/
def fileHeader (gid : UInt8) (uid : UInt16) (content : List Byte) : Mainhdr :=
  ⟨SEND_FILE, gid, uid, UInt32.ofNat content.length, []⟩

namespace Message

/-- The receiver's view of a message that arrives unchanged. -/
def received : Message → Received
  | packet p _ _ => .packet p.toMainhdr
  | file gid uid content _ => .file (fileHeader gid uid content) content

/-- The bytes of a message on the wire. -/
def wire : Message → List Byte
  | packet p _ _ => p.toMainhdr.wire
  | file gid uid content _ => (fileHeader gid uid content).wireHeader ++ content

end Message

/-- The sender: `send_main_header` or `send_file`. -/
def sendMessage (fuel : Nat) (s : Socket) : Message → Option Socket
  | .packet p _ _ => some (sendMainHeader p.toMainhdr s).2
  | .file gid uid content _ => (sendFile fuel s gid uid content).map fun r => r.2

def sendMessages (fuel : Nat) (msgs : List Message) (s : Socket) : Option Socket :=
  msgs.foldlM (sendMessage fuel) s

/-- The receive loop, up to the `NULL` that ends it. Every destination file opens. -/
def receiveMessages (basic : Vector Byte sizeofMainhdr) :
    Nat → Socket → Option (Except Fault (List Received))
  | 0, _ => none
  | fuel + 1, s =>
    match readMainHeader basic s with
    | (none, _) => some (.ok [])
    | (some hdr, s') =>
      if hdr.cmd = SEND_FILE then
        match receiveToFile fuel s' (toInt32 hdr.len.toNat) with
        | none => none
        | some (.error fault) => some (.error fault)
        | some (.ok (_, content, s'')) =>
          (receiveMessages basic fuel s'').map fun r => r.map (.file hdr content :: ·)
      else (receiveMessages basic fuel s').map fun r => r.map (.packet hdr :: ·)

/-! ## Sending -/

theorem Packet.offered_eq {p : Packet} (h : p.len.toNat < 2 ^ 31 - 8) :
    offered p = sizeofMainhdr + p.len.toNat := by
  have hsize : sizeofMainhdr = 8 := rfl
  rw [offered, toInt32_of_lt (by omega), toSizeT_of_lt (by omega)]

theorem sendFileLoop_all {fuel : Nat} : ∀ {s : Socket} {data : List Byte},
    s.writeAnswers = [] → data.length < fuel →
      sendFileLoop fuel s data data.length = some (s.put data) := by
  induction fuel with
  | zero => intro s data _ hfuel; omega
  | succ fuel ih =>
      intro s data hs hfuel
      rw [sendFileLoop]
      by_cases hnil : data = []
      · rw [if_neg (by simp [hnil]), hnil, put_nil]
      · have hpos : 0 < data.length := List.length_pos_iff.mpr hnil
        have hcount : ((data.length : Int) - (data.take 1024).length) =
            (data.drop 1024).length := by
          rw [List.length_take, List.length_drop]
          omega
        have hrest : sendFileLoop fuel (s.put (data.take 1024)) (data.drop 1024)
            (data.drop 1024).length = _ := ih hs (by rw [List.length_drop]; omega)
        rw [if_pos (by omega)]
        simp only [write_all hs, hcount, hrest, put_put, List.take_append_drop]

theorem sendFile_wire {fuel : Nat} {s : Socket} (hs : s.writeAnswers = []) (gid : UInt8)
    (uid : UInt16) {content : List Byte} (hfit : content.length < 2 ^ 31)
    (hfuel : content.length < fuel) :
    sendFile fuel s gid uid content =
      some (0, s.put ((fileHeader gid uid content).wireHeader ++ content)) := by
  have hlen : UInt32.ofInt (content.length : Int) = UInt32.ofNat content.length := by
    rw [UInt32.ofInt]
    congr 1
    omega
  have himage := image_swapped (fileHeader gid uid content)
  rw [Mainhdr.wire, show (fileHeader gid uid content).payload = [] from rfl,
    List.append_nil] at himage
  have hloop := sendFileLoop_all (s := s.put (fileHeader gid uid content).wireHeader) hs hfuel
  have hwrite := write_all hs (fileHeader gid uid content).wireHeader
  rw [length_wireHeader, ← himage] at hwrite
  rw [← himage] at hloop ⊢
  simp only [fileHeader] at hwrite hloop ⊢
  simp only [sendFile, createAndFillHdr, toInt32_of_lt hfit, hlen, hwrite, hloop, put_put,
    Option.map_some]

/-- A packet goes out whole when `write` takes everything. -/
theorem sendMainHeader_put {p : Packet} (hfits : p.len.toNat < 2 ^ 31 - 8) {socket : Socket}
    (hall : socket.writeAnswers = []) :
    (sendMainHeader p.toMainhdr socket).2 = socket.put p.wire := by
  have hacc : socket.accepted (offered p) = offered p := by simp only [accepted, hall]
  have hsend := sendMainHeader_whole p socket [] hall (by rw [hacc, Packet.offered_eq hfits])
  rw [hsend, hall, List.tail_nil, ← hall]
  rfl

/-- A message, whole, is what each sender adds to the outgoing stream. -/
theorem sendMessage_wire {fuel : Nat} {s : Socket} (hs : s.writeAnswers = []) (m : Message)
    (hfuel : m.wire.length < fuel) : sendMessage fuel s m = some (s.put m.wire) := by
  cases m with
  | packet p notFile fits =>
      rw [sendMessage, sendMainHeader_put fits hs]
      rfl
  | file gid uid content fits =>
      rw [Message.wire, List.length_append] at hfuel
      rw [sendMessage, sendFile_wire hs gid uid fits (by omega)]
      rfl

theorem sendMessages_wire {fuel : Nat} (msgs : List Message) : ∀ {s : Socket},
    s.writeAnswers = [] → (msgs.flatMap Message.wire).length < fuel →
      sendMessages fuel msgs s = some (s.put (msgs.flatMap Message.wire)) := by
  induction msgs with
  | nil =>
      intro s _ _
      rw [List.flatMap_nil, put_nil]
      rfl
  | cons m msgs ih =>
      intro s hs hfuel
      rw [List.flatMap_cons, List.length_append] at hfuel
      have hrest := ih (s := s.put m.wire) hs (by omega)
      rw [sendMessages] at hrest ⊢
      rw [List.foldlM_cons, sendMessage_wire hs m (by omega), List.flatMap_cons, ← put_put]
      exact hrest

/-! ## Receiving -/

theorem hostHeader_wireHeader (hdr : Mainhdr) :
    hostHeader hdr.wireHeader = { hdr with payload := [] } := by
  simp only [hostHeader, Mainhdr.wireHeader, network16, network32, List.cons_append,
    List.nil_append, Mainhdr.ofImage, swap16_load16_network, swap32_load32_network]

theorem recvWrapper_flowing {s : Socket} (hs : s.Flowing) {n : Nat} (h0 : 0 < n)
    (hn : n < 2 ^ 31) {bs rest : List Byte} (hbs : bs.length = n)
    (hin : s.incoming = bs ++ rest) :
    ∃ t, recvWrapper s n = (1, bs, t) ∧ t.incoming = rest ∧ t.Flowing := by
  obtain ⟨t, hg, hrest, -, ht⟩ := hs.gathers (n := n) (by rw [hin, List.length_append]; omega)
  rw [hin, List.take_left' hbs] at hg
  rw [hin, List.drop_left' hbs] at hrest
  exact ⟨t, recvWrapper_full h0 hn hg hbs, hrest, ht⟩

/-- The header comes first, whatever follows. -/
theorem readMainHeader_header (basic : Vector Byte sizeofMainhdr) {s : Socket} (hs : s.Flowing)
    (hdr : Mainhdr) {rest : List Byte} (hin : s.incoming = hdr.wireHeader ++ rest) :
    ∃ t, readMainHeader basic s = recvPayload { hdr with payload := [] } t ∧
      t.incoming = rest ∧ t.Flowing := by
  obtain ⟨t, hres, hrest, ht⟩ :=
    recvWrapper_flowing hs (n := sizeofMainhdr) (by decide) (by decide) (length_wireHeader hdr) hin
  have hdrop : basic.toList.drop hdr.wireHeader.length = [] := by
    rw [List.drop_eq_nil_iff, length_wireHeader, Vector.length_toList]
  refine ⟨t, ?_, hrest, ht⟩
  rw [readMainHeader, hres]
  simp only [hdrop, List.append_nil, hostHeader_wireHeader, ne_eq, one_ne_zero, not_false_eq_true,
    if_true]

theorem readMainHeader_packet (basic : Vector Byte sizeofMainhdr) {s : Socket} (hs : s.Flowing)
    (p : Packet) (notFile : p.cmd ≠ SEND_FILE) (fits : p.len.toNat < 2 ^ 31) {rest : List Byte}
    (hin : s.incoming = p.wire ++ rest) :
    ∃ t, readMainHeader basic s = (some p.toMainhdr, t) ∧ t.incoming = rest ∧ t.Flowing := by
  rw [Mainhdr.wire, List.append_assoc] at hin
  obtain ⟨t, hread, hrest, ht⟩ := readMainHeader_header basic hs p.toMainhdr hin
  rw [hread]
  by_cases hp : Mainhdr.hasPayload { p.toMainhdr with payload := [] } = true
  · obtain ⟨u, hres, hrest', hu⟩ :=
      recvWrapper_flowing ht (hasPayload_iff.mp hp).1 fits p.full hrest
    rw [← toInt32_of_lt fits] at hres
    refine ⟨u, ?_, hrest', hu⟩
    rw [recvPayload_of_hasPayload hp hres, if_pos (by decide)]
  · have hlen : p.payload = [] := by
      rw [hasPayload_iff, not_and_or, not_not] at hp
      have hzero := hp.resolve_right (fun h => notFile h)
      have hfull := p.full
      exact List.length_eq_zero_iff.mp (by simp only at hzero; omega)
    rw [hlen, List.nil_append] at hrest
    refine ⟨t, ?_, hrest, ht⟩
    rw [recvPayload_of_not_hasPayload hp, ← hlen]

theorem readMainHeader_file (basic : Vector Byte sizeofMainhdr) {s : Socket} (hs : s.Flowing)
    (gid : UInt8) (uid : UInt16) (content : List Byte) {rest : List Byte}
    (hin : s.incoming = (fileHeader gid uid content).wireHeader ++ rest) :
    ∃ t, readMainHeader basic s = (some (fileHeader gid uid content), t) ∧
      t.incoming = rest ∧ t.Flowing := by
  obtain ⟨t, hread, hrest, ht⟩ := readMainHeader_header basic hs _ hin
  have hp : ¬ (fileHeader gid uid content).hasPayload = true := by
    rw [hasPayload_iff]
    exact fun h => h.2 rfl
  exact ⟨t, hread.trans (recvPayload_of_not_hasPayload hp t), hrest, ht⟩

/-- While bytes flow, the loop of `receive_to_file` stores the announced number of them. -/
theorem receiveLoop_flowing {fuel : Nat} :
    ∀ (written : List Byte) {s : Socket} {data rest : List Byte},
    s.Flowing → s.incoming = data ++ rest → data.length < fuel →
      ∃ t, receiveLoop fuel s data.length written = some (.ok (written ++ data, t)) ∧
        t.incoming = rest ∧ t.Flowing := by
  induction fuel with
  | zero => intro written s data rest _ _ hfuel; omega
  | succ fuel ih =>
      intro written s data rest hs hin hfuel
      by_cases hnil : data = []
      · refine ⟨s, ?_, by rw [hin, hnil, List.nil_append], hs⟩
        rw [receiveLoop_done (by simp [hnil]), hnil, List.append_nil]
      · have hpos : 0 < data.length := List.length_pos_iff.mpr hnil
        obtain ⟨bs, tail, t, hread, hbs, rfl, hrest, ht⟩ := hs.read_within
          (n := min data.length sizeofBuff) (lt_min hpos (by decide)) (min_le_left _ _) hin
        have hpos' : 0 < bs.length := List.length_pos_iff.mpr hbs
        rw [List.length_append] at hfuel
        obtain ⟨u, hres, hrest', hu⟩ := ih (written ++ bs) ht hrest (by omega)
        refine ⟨u, ?_, hrest', hu⟩
        rw [receiveLoop_bytes hpos hread, List.length_append, Nat.add_sub_cancel_left, hres,
          List.append_assoc]

/-- A `NULL` comes only after the last message. -/
theorem readMainHeader_end (basic : Vector Byte sizeofMainhdr) {s : Socket} (hs : s.Flowing)
    (hin : s.incoming = []) : ∃ t, readMainHeader basic s = (none, t) := by
  obtain ⟨t, hread, -⟩ := hs.read_nil hin sizeofMainhdr
  have hres := recvWrapper_stopped (n := sizeofMainhdr) (by decide) (.nil s sizeofMainhdr)
    (by decide) hread (Or.inl rfl)
  exact ⟨t, by rw [readMainHeader, hres]; rfl⟩

theorem length_wire_pos (m : Message) : sizeofMainhdr ≤ m.wire.length := by
  cases m with
  | packet p _ _ =>
      have := p.length_wire
      rw [Message.wire]
      omega
  | file gid uid content _ =>
      rw [Message.wire, List.length_append, length_wireHeader]
      omega

/-- The receiver gets the messages one by one, and then the end of the stream. -/
theorem receiveMessages_flowing (basic : Vector Byte sizeofMainhdr) (msgs : List Message) :
    ∀ {fuel : Nat} {s : Socket}, s.Flowing → s.incoming = msgs.flatMap Message.wire →
      (msgs.flatMap Message.wire).length < fuel →
        receiveMessages basic fuel s = some (.ok (msgs.map Message.received)) := by
  induction msgs with
  | nil =>
      intro fuel s hs hin hfuel
      obtain ⟨fuel, rfl⟩ := Nat.exists_eq_add_one.mpr (Nat.zero_lt_of_lt hfuel)
      obtain ⟨t, hread⟩ := readMainHeader_end basic hs hin
      rw [receiveMessages, hread]
      rfl
  | cons m msgs ih =>
      intro fuel s hs hin hfuel
      obtain ⟨fuel, rfl⟩ := Nat.exists_eq_add_one.mpr (Nat.zero_lt_of_lt hfuel)
      have hsize : sizeofMainhdr = 8 := rfl
      have hm := length_wire_pos m
      rw [List.flatMap_cons] at hin hfuel
      rw [List.length_append] at hfuel
      cases m with
      | packet p notFile fits =>
          obtain ⟨t, hread, hrest, ht⟩ := readMainHeader_packet basic hs p notFile (by omega) hin
          rw [receiveMessages, hread]
          simp only [if_neg notFile]
          rw [ih ht hrest (by omega)]
          rfl
      | file gid uid content fits =>
          rw [Message.wire, List.append_assoc] at hin
          rw [Message.wire, List.length_append, length_wireHeader] at hfuel
          obtain ⟨t, hread, hrest, ht⟩ := readMainHeader_file basic hs gid uid content hin
          obtain ⟨u, hloop, hrest', hu⟩ :=
            receiveLoop_flowing [] ht hrest (show content.length < fuel by omega)
          have hlen : toInt32 ((fileHeader gid uid content).len.toNat) = content.length := by
            have : (UInt32.ofNat content.length).toNat = content.length := by
              rw [UInt32.toNat_ofNat']
              omega
            rw [fileHeader, this, toInt32_of_lt fits]
          rw [receiveMessages, hread]
          simp only [hlen, receiveToFile, hloop]
          rw [if_pos (show (fileHeader gid uid content).cmd = SEND_FILE from rfl)]
          simp only [Option.map_some, Except.map, List.nil_append]
          rw [ih hu hrest' (by omega)]
          rfl

/-- Whatever is sent on a connection by one sender, and however `read` splits the stream,
the receiver gets exactly that, message by message. -/
theorem wire_round_trip (basic : Vector Byte sizeofMainhdr) (msgs : List Message)
    (chunks : List Nat) :
    ∃ bound, ∀ fuel ≥ bound, ∃ sent, sendMessages fuel msgs ⟨[], [], [], []⟩ = some sent ∧
      receiveMessages basic fuel ⟨sent.outgoing, chunks.map .upTo, [], []⟩ =
        some (.ok (msgs.map Message.received)) := by
  refine ⟨(msgs.flatMap Message.wire).length + 1, fun fuel hfuel => ?_⟩
  refine ⟨_, sendMessages_wire msgs rfl (by omega), ?_⟩
  refine receiveMessages_flowing basic msgs (upTo_of_mem_map chunks) ?_ (by omega)
  exact List.nil_append _

end GroupChat
