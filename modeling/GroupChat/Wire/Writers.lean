import GroupChat.Lts.Run
import GroupChat.Wire.RoundTrip

/-!
# Several threads writing to one socket

`send_main_header` is one `write`; `send_file` is one for the header and one for each 1024 bytes of
the file, and between them other threads can write to the same socket. A `Shared` is the socket with
the position of each thread in the loop of `send_file`; a thread alone does what `sendFile` does
(`sendFile_alone`). `packetsWhole_iff` says in which runs the bytes on the socket are at any time
the packets that were sent, in order, less the part of the last one that a thread inside the loop
has still to write: those in which nobody starts a packet while another thread is inside its loop,
and the lengths are such that a packet is written to its end and no further.
-/

namespace GroupChat

open Posix Socket

/-- The socket, and for each thread inside the loop of `send_file` the rest of its file and the
value of `file_size`. -/
structure Shared where
  socket : Socket
  sending : ThreadId → Option (List Byte × Int)

inductive WriteEvent
  /-- the thread calls `send_main_header` -/
  | send (t : ThreadId) (p : Packet)
  /-- the thread calls `send_file`, which writes the header -/
  | header (t : ThreadId) (gid : UInt8) (uid : UInt16) (content : List Byte)
  /-- the thread goes through the loop of `send_file` once -/
  | chunk (t : ThreadId)

/-- The thread is not at this point of the code. -/
inductive WriteStop
  | outOfTurn
  deriving DecidableEq, Repr

/-- The test of the loop of `send_file`. -/
def inLoop (data : List Byte) (fileSize : Int) : Option (List Byte × Int) :=
  if fileSize > 0 then some (data, fileSize) else none

/-- The header of `send_file`, in host order. -/
def announce (gid : UInt8) (uid : UInt16) (content : List Byte) : Mainhdr :=
  { createAndFillHdr SEND_FILE gid uid 0 with len := UInt32.ofInt (toInt32 content.length) }

/-- A kernel that takes all it is given: a `write` of `numBytes` bytes transfers them all. A
negative `numBytes` becomes a count above what a `write` can transfer, and is refused. -/
def takingAll (s : Socket) (numBytes : Int) : Socket :=
  { s with writeAnswers := if numBytes < 0 then [.fail] else [] }

/-- One `write` of a thread. -/
def Shared.step (s : Shared) : WriteEvent → Except WriteStop (Unit × Shared)
  | .send t p =>
    match s.sending t with
    | some _ => .error .outOfTurn
    | none =>
      .ok ((), { s with
        socket := (sendMainHeader p.toMainhdr (takingAll s.socket (numBytes p))).2 })
  | .header t gid uid content =>
    match s.sending t with
    | some _ => .error .outOfTurn
    | none =>
      let hdr := announce gid uid content
      let hdr := { hdr with len := swap32 hdr.len, uid := swap16 hdr.uid }
      .ok ((), ⟨(s.socket.write hdr.image sizeofMainhdr).2,
        Function.update s.sending t (inLoop content (toInt32 content.length))⟩)
  | .chunk t =>
    match s.sending t with
    | none => .error .outOfTurn
    | some (data, fileSize) =>
      let buff := data.take 1024
      .ok ((), ⟨(s.socket.write buff buff.length).2,
        Function.update s.sending t (inLoop (data.drop 1024) (fileSize - buff.length))⟩)

/-- Nothing has been written yet, every `write` takes all it is given, and no thread is inside
`send_file`. -/
def Shared.start : Shared := ⟨⟨[], [], [], []⟩, fun _ => none⟩

abbrev WriteTaken := Lts.Taken Shared WriteEvent Unit

/-! ## One thread alone -/

/-- A thread that is left alone inside the loop ends it as `send_file` does. -/
theorem sendFileLoop_alone {fuel : Nat} (t : ThreadId) {data : List Byte} {fileSize : Int}
    {s : Shared} {after : Socket} {h : List WriteTaken}
    (hloop : sendFileLoop fuel s.socket data fileSize = some after)
    (hsending : s.sending t = inLoop data fileSize) :
    ∃ k h' s', Lts.execute Shared.step (List.replicate k (.chunk t)) h s = .ok (h', s') ∧
      s'.socket = after ∧ s'.sending t = none ∧ ∀ t', t' ≠ t → s'.sending t' = s.sending t' := by
  induction fuel generalizing s data fileSize h with
  | zero => cases hloop
  | succ fuel ih =>
      rw [sendFileLoop] at hloop
      by_cases hpos : fileSize > 0
      · rw [if_pos hpos] at hloop
        rw [inLoop, if_pos hpos] at hsending
        let s₁ : Shared := ⟨(s.socket.write (data.take 1024) (data.take 1024).length).2,
          Function.update s.sending t
            (inLoop (data.drop 1024) (fileSize - (data.take 1024).length))⟩
        have hstep : s.step (.chunk t) = .ok ((), s₁) := by
          simp only [Shared.step, hsending]
          rfl
        have hinside : s₁.sending t =
            inLoop (data.drop 1024) (fileSize - (data.take 1024).length) :=
          Function.update_self ..
        obtain ⟨k, h', s', hexec, hafter, hdone, hothers⟩ :=
          ih (s := s₁) (h := h ++ [⟨s, .chunk t, (), s₁⟩]) hloop hinside
        refine ⟨k + 1, h', s', ?_, hafter, hdone, fun t' hne => ?_⟩
        · rw [List.replicate_succ, Lts.execute, hstep]
          exact hexec
        · rw [hothers t' hne]
          exact Function.update_of_ne hne ..
      · rw [if_neg hpos] at hloop
        rw [inLoop, if_neg hpos] at hsending
        obtain rfl := Option.some.inj hloop
        exact ⟨0, h, s, rfl, rfl, hsending, fun _ _ => rfl⟩

/-- The steps of a thread that calls `send_file` and is left alone are those of `sendFile`. -/
theorem sendFile_alone {fuel : Nat} (t : ThreadId) (gid : UInt8) (uid : UInt16)
    (content : List Byte) {s : Shared} {ret : Int} {after : Socket} (h : List WriteTaken)
    (hidle : s.sending t = none)
    (hsend : sendFile fuel s.socket gid uid content = some (ret, after)) :
    ∃ k h' s', Lts.execute Shared.step (.header t gid uid content :: List.replicate k (.chunk t))
        h s = .ok (h', s') ∧
      s'.socket = after ∧ s'.sending t = none ∧ ∀ t', t' ≠ t → s'.sending t' = s.sending t' := by
  obtain ⟨after', hloop, hafter⟩ := Option.map_eq_some_iff.mp hsend
  obtain rfl : after' = after := (Prod.mk.inj hafter).2
  let hdr : Mainhdr := { announce gid uid content with
    len := swap32 (announce gid uid content).len, uid := swap16 (announce gid uid content).uid }
  let s₁ : Shared := ⟨(s.socket.write hdr.image sizeofMainhdr).2,
    Function.update s.sending t (inLoop content (toInt32 content.length))⟩
  have hstep : s.step (.header t gid uid content) = .ok ((), s₁) := by
    simp only [Shared.step, hidle]
    rfl
  have hinside : s₁.sending t = inLoop content (toInt32 content.length) := Function.update_self ..
  obtain ⟨k, h', s', hexec, hsocket, hdone, hothers⟩ := sendFileLoop_alone (s := s₁)
    (h := h ++ [⟨s, .header t gid uid content, (), s₁⟩]) t hloop hinside
  refine ⟨k, h', s', ?_, hsocket, hdone, fun t' hne => ?_⟩
  · rw [Lts.execute, hstep]
    exact hexec
  · rw [hothers t' hne]
    exact Function.update_of_ne hne ..

/-! ## Framing -/

theorem toNat_announced (content : List Byte) :
    (UInt32.ofInt (toInt32 content.length)).toNat = content.length % 2 ^ 32 := by
  rw [UInt32.ofInt, UInt32.toNat_ofNat']
  unfold toInt32
  rw [Int.bmod_def]
  split <;> omega

/-- The packet that the header of a file announces: as many bytes of the file as it says. -/
def announcedFile (gid : UInt8) (uid : UInt16) (content : List Byte) : Packet :=
  ⟨{ announce gid uid content with payload := content.take (content.length % 2 ^ 32) }, by
    rw [List.length_take, Nat.min_eq_left (Nat.mod_le _ _)]
    exact (toNat_announced content).symm⟩

/-- The packet that a thread starts to send. -/
def WriteEvent.starts : WriteEvent → List (ThreadId × Packet)
  | .send t p => [(t, p)]
  | .header t gid uid content => [(t, announcedFile gid uid content)]
  | .chunk _ => []

/-- The packets that have been sent, each with the thread that sent it. -/
def packetsSent (h : List WriteTaken) : List (ThreadId × Packet) :=
  h.flatMap fun x => x.event.starts

def wires (ps : List (ThreadId × Packet)) : List Byte := ps.flatMap fun p => p.2.wire

/-- The bytes on the socket are the packets that have been sent, one after the other; while a thread
is inside the loop of `send_file` the last packet is its own, and the rest of it is missing. -/
inductive WholePackets (h : List WriteTaken) (s : Shared) : Prop
  | quiet (idle : ∀ t, s.sending t = none) (outgoing : s.socket.outgoing = wires (packetsSent h))
  | inside (before : List (ThreadId × Packet)) (t : ThreadId) (p : Packet) (sent data : List Byte)
      (fileSize : Int) (last : packetsSent h = before ++ [(t, p)])
      (sending : s.sending t = some (data, fileSize)) (others : ∀ t', t' ≠ t → s.sending t' = none)
      (outgoing : s.socket.outgoing = wires before ++ sent)
      (rest : sent ++ data.take fileSize.toNat = p.wire)

/-- Whoever starts a packet does so while nobody else is inside the loop of `send_file`, and with a
length that is an `int`; the loop reads no more from the file than it has still to send. -/
def WritesApart (_ : List WriteTaken) (s : Shared) : WriteEvent → Prop
  | .send t p => (∀ t', t' ≠ t → s.sending t' = none) ∧ p.len.toNat < 2 ^ 31 - 8
  | .header t _ _ content =>
    (∀ t', t' ≠ t → s.sending t' = none) ∧ content.length % 2 ^ 32 < 2 ^ 31
  | .chunk t => ∀ data fileSize, s.sending t = some (data, fileSize) →
    (data.take 1024).length ≤ fileSize

/-- Whole packets, from a kernel that takes all it is given; the loops have something left to send,
and it is in the file. -/
structure Framed (h : List WriteTaken) (s : Shared) : Prop where
  whole : WholePackets h s
  left : ∀ t data fileSize, s.sending t = some (data, fileSize) →
    0 < fileSize ∧ fileSize ≤ data.length
  taking : s.socket.writeAnswers = []

section Packets

variable {h : List WriteTaken} {s s' : Shared} {t : ThreadId} {p : Packet}

theorem packetsSent_append (h : List WriteTaken) (x : WriteTaken) :
    packetsSent (h ++ [x]) = packetsSent h ++ x.event.starts := by
  rw [packetsSent, packetsSent, List.flatMap_append, List.flatMap_singleton]

theorem packetsSent_chunk (h : List WriteTaken) (s s' : Shared) (t : ThreadId) :
    packetsSent (h ++ [⟨s, .chunk t, (), s'⟩]) = packetsSent h :=
  (packetsSent_append h _).trans (List.append_nil _)

theorem wires_append (ps : List (ThreadId × Packet)) (t : ThreadId) (p : Packet) :
    wires (ps ++ [(t, p)]) = wires ps ++ p.wire := by
  rw [wires, wires, List.flatMap_append, List.flatMap_singleton]

/-- Nobody is inside the loop when a thread that is not writes apart from the others. -/
theorem quiet_of_apart (hself : s.sending t = none)
    (hothers : ∀ t', t' ≠ t → s.sending t' = none) (t' : ThreadId) : s.sending t' = none := by
  by_cases ht : t' = t
  · rw [ht, hself]
  · exact hothers t' ht

theorem WholePackets.outgoing_of_quiet (whole : WholePackets h s)
    (hquiet : ∀ t, s.sending t = none) :
    s.socket.outgoing = wires (packetsSent h) := by
  cases whole with
  | quiet idle outgoing => exact outgoing
  | inside before t p sent data fileSize last sending =>
      rw [hquiet t] at sending
      cases sending

/-- What is known where a thread is inside the loop. -/
theorem WholePackets.inside_of_sending (whole : WholePackets h s) {data : List Byte}
    {fileSize : Int} (hself : s.sending t = some (data, fileSize)) :
    ∃ before p sent, packetsSent h = before ++ [(t, p)] ∧
      (∀ t', t' ≠ t → s.sending t' = none) ∧ s.socket.outgoing = wires before ++ sent ∧
        sent ++ data.take fileSize.toNat = p.wire := by
  cases whole with
  | quiet idle =>
      rw [idle t] at hself
      cases hself
  | inside before t₀ p sent data₀ fileSize₀ last sending others outgoing rest =>
      obtain rfl : t = t₀ := by
        by_contra hne
        rw [others t hne] at hself
        cases hself
      obtain ⟨rfl, rfl⟩ := Prod.mk.inj (Option.some.inj (hself.symm.trans sending))
      exact ⟨before, p, sent, last, others, outgoing, rest⟩

/-- The last packet is that of the one thread inside the loop. -/
theorem WholePackets.alone (whole : WholePackets h s) {before : List (ThreadId × Packet)}
    (last : packetsSent h = before ++ [(t, p)]) (t' : ThreadId) (hne : t' ≠ t) :
    s.sending t' = none := by
  cases whole with
  | quiet idle => exact idle t'
  | inside before₀ t₀ p₀ sent data fileSize last₀ sending others =>
      obtain ⟨-, hpair⟩ := List.append_inj' (last.symm.trans last₀) rfl
      obtain ⟨ht, -⟩ := Prod.mk.inj (List.singleton_injective hpair)
      exact others t' (ht ▸ hne)

/-- At the test of the loop: either there is a rest to send, or the packet is complete. -/
theorem WholePackets.of_inLoop {before : List (ThreadId × Packet)} (sent : List Byte)
    {data : List Byte} {fileSize : Int} (last : packetsSent h = before ++ [(t, p)])
    (sending : s.sending t = inLoop data fileSize)
    (others : ∀ t', t' ≠ t → s.sending t' = none)
    (outgoing : s.socket.outgoing = wires before ++ sent)
    (rest : sent ++ data.take fileSize.toNat = p.wire) : WholePackets h s := by
  by_cases hpos : fileSize > 0
  · rw [inLoop, if_pos hpos] at sending
    exact .inside before t p sent data fileSize last sending others outgoing rest
  · rw [inLoop, if_neg hpos] at sending
    refine .quiet (quiet_of_apart sending others) ?_
    have hzero : fileSize.toNat = 0 := by omega
    rw [hzero, List.take_zero, List.append_nil] at rest
    rw [outgoing, rest, last, wires_append]

/-- What the loop has still to send is the next piece and what is left after it. -/
theorem take_piece {data : List Byte} {n : Nat} (hn : n ≤ data.length)
    (hpiece : (data.take 1024).length ≤ n) :
    data.take 1024 ++ (data.drop 1024).take (n - (data.take 1024).length) = data.take n := by
  rw [List.length_take] at hpiece ⊢
  by_cases hlong : 1024 ≤ data.length
  · rw [Nat.min_eq_left hlong] at hpiece ⊢
    rw [← List.take_add, Nat.add_sub_cancel' hpiece]
  · have hall : n = data.length := by omega
    rw [List.take_of_length_le (by omega), List.drop_eq_nil_of_le (by omega), List.take_nil,
      List.append_nil, hall, List.take_length]

theorem announce_image (gid : UInt8) (uid : UInt16) (content : List Byte) :
    Mainhdr.image { announce gid uid content with
      len := swap32 (announce gid uid content).len, uid := swap16 (announce gid uid content).uid } =
      (announce gid uid content).wireHeader :=
  (image_swapped (announce gid uid content)).trans (List.append_nil _)

end Packets

/-! ## One packet -/

section Send

variable {socket : Socket} {p : Packet}

theorem takingAll_of_lt (hall : socket.writeAnswers = []) (h : p.len.toNat < 2 ^ 31 - 8) :
    takingAll socket (numBytes p) = socket := by
  have hsize : sizeofMainhdr = 8 := rfl
  have hcount : ¬ numBytes p < 0 := by
    rw [numBytes, toInt32_of_lt (by omega)]
    omega
  rw [takingAll, if_neg hcount, ← hall]

/-- What reaches the socket is what the one `write` takes. -/
theorem sendMainHeader_first (p : Packet) (s : Socket) :
    (sendMainHeader p.toMainhdr s).2.outgoing = (s.write p.wire (offered p)).2.outgoing := by
  rw [sendMainHeader_eq, sendWrapper_outgoing, numBytes, ← offered]

theorem takingAll_outgoing (n : Int) : (takingAll socket n).outgoing = socket.outgoing := by
  rw [takingAll]

theorem write_refused {num : Int} (h : num < 0) (bytes : List Byte) (n : Nat) :
    ((takingAll socket num).write bytes n).2.outgoing = socket.outgoing := by
  rw [takingAll, if_pos h, write]

/-- Of a packet whose length is no `int` at most a residue is written. -/
theorem written_too_long (socket : Socket) (h : 2 ^ 31 - 8 ≤ p.len.toNat) :
    ∃ k < p.wire.length, ((takingAll socket (numBytes p)).write p.wire (offered p)).2.outgoing =
      socket.outgoing ++ p.wire.take k := by
  have hlen := p.length_wire
  have hsize : sizeofMainhdr = 8 := rfl
  by_cases hbig : 2 ^ 32 ≤ p.wire.length
  · obtain ⟨k, hk, hput, -⟩ := (takingAll socket (numBytes p)).write_spec p.wire (offered p)
    have hoffered := offered_of_ge hbig
    rw [takingAll_outgoing] at hput
    exact ⟨k, by omega, hput⟩
  · have hrefused : numBytes p < 0 := by
      rw [numBytes, hsize, toInt32_of_ge (by omega) (by omega)]
      omega
    refine ⟨0, by omega, ?_⟩
    rw [write_refused hrefused, List.take_zero, List.append_nil]

theorem sendMainHeader_too_long (socket : Socket) (h : 2 ^ 31 - 8 ≤ p.len.toNat) :
    (sendMainHeader p.toMainhdr (takingAll socket (numBytes p))).2.outgoing ≠
      socket.outgoing ++ p.wire := by
  intro hwhole
  obtain ⟨k, hk, hput⟩ := written_too_long socket h
  rw [sendMainHeader_first, hput, List.append_cancel_left_eq, List.take_eq_self_iff] at hwhole
  omega

end Send

section Framing

variable {h : List WriteTaken} {s s' : Shared} {t : ThreadId}

theorem socket_of_ok {socket : Socket}
    (h : (.ok ((), { s with socket := socket }) : Except WriteStop (Unit × Shared)) =
      .ok ((), s')) :
    s'.sending = s.sending ∧ s'.socket = socket := by
  cases h
  exact ⟨rfl, rfl⟩

theorem send_step {p : Packet} (hstep : s.step (.send t p) = .ok ((), s')) :
    s.sending t = none ∧ s'.sending = s.sending ∧
      s'.socket = (sendMainHeader p.toMainhdr (takingAll s.socket (numBytes p))).2 := by
  rw [Shared.step] at hstep
  cases hself : s.sending t with
  | some inside =>
      rw [hself] at hstep
      cases hstep
  | none =>
      rw [hself] at hstep
      exact ⟨rfl, socket_of_ok hstep⟩

theorem send_framed {p : Packet} (framed : Framed h s)
    (hstep : s.step (.send t p) = .ok ((), s')) (hapart : WritesApart h s (.send t p)) :
    Framed (h ++ [⟨s, .send t p, (), s'⟩]) s' := by
  obtain ⟨hothers, hfits⟩ := hapart
  obtain ⟨hself, hsending, hsocket⟩ := send_step hstep
  rw [takingAll_of_lt framed.taking hfits, sendMainHeader_put hfits framed.taking] at hsocket
  have hidle := quiet_of_apart hself hothers
  refine ⟨.quiet (hsending ▸ hidle) ?_, hsending ▸ framed.left, hsocket ▸ framed.taking⟩
  rw [packetsSent_append, hsocket, put, framed.whole.outgoing_of_quiet hidle]
  exact (wires_append _ t p).symm

theorem apart_of_send {p : Packet} (framed : Framed h s)
    (hstep : s.step (.send t p) = .ok ((), s'))
    (whole : WholePackets (h ++ [⟨s, .send t p, (), s'⟩]) s') : WritesApart h s (.send t p) := by
  obtain ⟨hself, hsending, hsocket⟩ := send_step hstep
  have hlast := packetsSent_append h ⟨s, .send t p, (), s'⟩
  have hothers : ∀ t', t' ≠ t → s.sending t' = none := hsending ▸ whole.alone hlast
  have hidle := quiet_of_apart hself hothers
  refine ⟨hothers, ?_⟩
  by_contra hlong
  refine sendMainHeader_too_long s.socket (Nat.not_lt.mp hlong) ?_
  rw [← hsocket, whole.outgoing_of_quiet (hsending ▸ hidle), hlast,
    framed.whole.outgoing_of_quiet hidle]
  exact wires_append _ t p

/-- The header of a file, from the header on the wire. -/
theorem header_step {gid : UInt8} {uid : UInt16} {content : List Byte} (framed : Framed h s)
    (hstep : s.step (.header t gid uid content) = .ok ((), s')) :
    s.sending t = none ∧
      s' = ⟨s.socket.put (announce gid uid content).wireHeader,
        Function.update s.sending t (inLoop content (toInt32 content.length))⟩ := by
  rw [Shared.step] at hstep
  cases hself : s.sending t with
  | some inside =>
      rw [hself] at hstep
      cases hstep
  | none =>
      have hwrite := write_all framed.taking (announce gid uid content).wireHeader
      rw [length_wireHeader] at hwrite
      simp only [hself, announce_image, hwrite] at hstep
      cases hstep
      exact ⟨rfl, rfl⟩

theorem chunk_step (framed : Framed h s) (hstep : s.step (.chunk t) = .ok ((), s')) :
    ∃ data fileSize, s.sending t = some (data, fileSize) ∧
      s' = ⟨s.socket.put (data.take 1024),
        Function.update s.sending t
          (inLoop (data.drop 1024) (fileSize - (data.take 1024).length))⟩ := by
  rw [Shared.step] at hstep
  cases hself : s.sending t with
  | none =>
      rw [hself] at hstep
      cases hstep
  | some inside =>
      obtain ⟨data, fileSize⟩ := inside
      simp only [hself, write_all framed.taking] at hstep
      cases hstep
      exact ⟨data, fileSize, rfl, rfl⟩

theorem inLoop_some {data data' : List Byte} {fileSize fileSize' : Int}
    (h : inLoop data fileSize = some (data', fileSize')) :
    0 < fileSize ∧ data' = data ∧ fileSize' = fileSize := by
  rw [inLoop] at h
  split at h
  · rename_i hpos
    cases h
    exact ⟨hpos, rfl, rfl⟩
  · cases h

/-- What is left to send after the position of one thread has changed. -/
theorem left_update {socket : Socket} {data : List Byte} {fileSize : Int} (framed : Framed h s)
    (enough : fileSize ≤ data.length) (t' : ThreadId) (data' : List Byte) (fileSize' : Int)
    (hinside : Shared.sending ⟨socket, Function.update s.sending t (inLoop data fileSize)⟩ t' =
      some (data', fileSize')) : 0 < fileSize' ∧ fileSize' ≤ data'.length := by
  by_cases ht : t' = t
  · subst ht
    simp only [Function.update_self] at hinside
    obtain ⟨hpos, rfl, rfl⟩ := inLoop_some hinside
    exact ⟨hpos, enough⟩
  · simp only [Function.update_of_ne ht] at hinside
    exact framed.left t' data' fileSize' hinside

theorem others_update {socket : Socket} {x : Option (List Byte × Int)}
    (hothers : ∀ t', t' ≠ t → s.sending t' = none) (t' : ThreadId) (ht : t' ≠ t) :
    Shared.sending ⟨socket, Function.update s.sending t x⟩ t' = none :=
  (Function.update_of_ne ht ..).trans (hothers t' ht)

theorem toInt32_of_announced {size : Nat} (h : size % 2 ^ 32 < 2 ^ 31) :
    (toInt32 size).toNat = size % 2 ^ 32 ∧ toInt32 size ≤ size := by
  rw [toInt32_of_mod h]
  have := Nat.mod_le size (2 ^ 32)
  omega

theorem header_framed {gid : UInt8} {uid : UInt16} {content : List Byte} (framed : Framed h s)
    (hstep : s.step (.header t gid uid content) = .ok ((), s'))
    (hapart : WritesApart h s (.header t gid uid content)) :
    Framed (h ++ [⟨s, .header t gid uid content, (), s'⟩]) s' := by
  obtain ⟨hothers, hsize⟩ := hapart
  obtain ⟨hself, rfl⟩ := header_step framed hstep
  obtain ⟨hcount, henough⟩ := toInt32_of_announced hsize
  refine ⟨?_, left_update framed henough, framed.taking⟩
  refine .of_inLoop (announce gid uid content).wireHeader (packetsSent_append h _)
    (Function.update_self ..) (others_update hothers) ?_ ?_
  · rw [put, framed.whole.outgoing_of_quiet (quiet_of_apart hself hothers)]
  · rw [hcount]
    rfl

theorem apart_of_header {gid : UInt8} {uid : UInt16} {content : List Byte} (framed : Framed h s)
    (hstep : s.step (.header t gid uid content) = .ok ((), s'))
    (whole : WholePackets (h ++ [⟨s, .header t gid uid content, (), s'⟩]) s') :
    WritesApart h s (.header t gid uid content) := by
  obtain ⟨hself, hs'⟩ := header_step framed hstep
  have hlast := packetsSent_append h ⟨s, .header t gid uid content, (), s'⟩
  have hothers : ∀ t', t' ≠ t → s.sending t' = none := by
    intro t' ht
    have hquiet := whole.alone hlast t' ht
    rw [hs'] at hquiet
    exact (Function.update_of_ne ht ..).symm.trans hquiet
  refine ⟨hothers, ?_⟩
  by_contra hlong
  -- a negative size keeps the thread out of the loop: the header is all that is written
  have hmod : content.length % 2 ^ 32 < 2 ^ 32 := Nat.mod_lt _ (by decide)
  have hint : toInt32 content.length = toInt32 (content.length % 2 ^ 32 : Nat) := by
    unfold toInt32
    rw [Int.natCast_mod]
    exact (Int.emod_bmod ..).symm
  have hsize : ¬ toInt32 content.length > 0 := by
    rw [hint, toInt32_of_ge (by omega) hmod]
    omega
  have hidle : ∀ t', s'.sending t' = none := by
    subst hs'
    refine quiet_of_apart (t := t) ?_ (others_update hothers)
    rw [inLoop, if_neg hsize]
    exact Function.update_self ..
  have hout := whole.outgoing_of_quiet hidle
  rw [hlast, hs', put, framed.whole.outgoing_of_quiet (quiet_of_apart hself hothers)] at hout
  have hwire := List.append_cancel_left (hout.trans (wires_append _ t _))
  have hlength := congrArg List.length hwire
  rw [Packet.length_wire, length_wireHeader, announcedFile] at hlength
  have hlen := toNat_announced content
  change sizeofMainhdr = sizeofMainhdr + (UInt32.ofInt (toInt32 content.length)).toNat at hlength
  omega

theorem chunk_framed (framed : Framed h s) (hstep : s.step (.chunk t) = .ok ((), s'))
    (hapart : WritesApart h s (.chunk t)) : Framed (h ++ [⟨s, .chunk t, (), s'⟩]) s' := by
  obtain ⟨data, fileSize, hself, rfl⟩ := chunk_step framed hstep
  have hpiece : (data.take 1024).length ≤ fileSize := hapart data fileSize hself
  obtain ⟨hpos, henough⟩ := framed.left t data fileSize hself
  obtain ⟨before, p, sent, last, others, outgoing, rest⟩ := framed.whole.inside_of_sending hself
  refine ⟨?_, left_update framed ?_, framed.taking⟩
  · refine .of_inLoop (sent ++ data.take 1024) ((packetsSent_chunk ..).trans last)
      (Function.update_self ..) (others_update others) ?_ ?_
    · rw [put, outgoing, List.append_assoc]
    · have htoNat : (fileSize - (data.take 1024).length).toNat =
          fileSize.toNat - (data.take 1024).length := by omega
      rw [htoNat, List.append_assoc, take_piece (by omega) (by omega)]
      exact rest
  · rw [List.length_drop, List.length_take]
    omega

/-- A thread that has left the loop has written the rest of its packet and no more. -/
theorem apart_of_chunk (framed : Framed h s) (hstep : s.step (.chunk t) = .ok ((), s'))
    (whole : WholePackets (h ++ [⟨s, .chunk t, (), s'⟩]) s') : WritesApart h s (.chunk t) := by
  obtain ⟨data, fileSize, hself, hs'⟩ := chunk_step framed hstep
  rintro data' fileSize' hself'
  obtain ⟨rfl, rfl⟩ := Prod.mk.inj (Option.some.inj (hself.symm.trans hself'))
  obtain ⟨before, p, sent, last, others, outgoing, rest⟩ := framed.whole.inside_of_sending hself
  have hpos := (framed.left t data fileSize hself).1
  by_contra hmore
  have hout : fileSize - (data.take 1024).length ≤ 0 := by omega
  have hidle : ∀ t', s'.sending t' = none := by
    subst hs'
    refine quiet_of_apart (t := t) ?_ (others_update others)
    rw [inLoop, if_neg (Int.not_lt.mpr hout)]
    exact Function.update_self ..
  have hwire := whole.outgoing_of_quiet hidle
  rw [packetsSent_chunk, last, wires_append, ← rest, hs', put, outgoing, List.append_assoc,
    List.append_cancel_left_eq, List.append_cancel_left_eq] at hwire
  have hlength := congrArg List.length hwire
  rw [List.length_take, List.length_take] at hlength
  rw [List.length_take] at hmore
  omega

/-- One step of a thread, in a run whose packets are whole so far: they stay whole exactly when the
thread writes apart from the others. -/
theorem framed_step {e : WriteEvent} (framed : Framed h s) (hstep : s.step e = .ok ((), s')) :
    (WholePackets (h ++ [⟨s, e, (), s'⟩]) s' → WritesApart h s e) ∧
      (WritesApart h s e → Framed (h ++ [⟨s, e, (), s'⟩]) s') := by
  cases e with
  | send t p => exact ⟨apart_of_send framed hstep, send_framed framed hstep⟩
  | header t gid uid content => exact ⟨apart_of_header framed hstep, header_framed framed hstep⟩
  | chunk t => exact ⟨apart_of_chunk framed hstep, chunk_framed framed hstep⟩

end Framing

theorem framed_start : Framed [] Shared.start :=
  ⟨.quiet (fun _ => rfl) rfl, fun _ _ _ h => (nomatch h), rfl⟩

/-- The bytes on the socket are whole packets throughout a run exactly when nobody starts a packet
while another thread is inside the loop of `send_file` and every length is one that is written to
its end and no further. -/
theorem packetsWhole_iff (es : List WriteEvent) :
    Lts.Throughout Shared.step Shared.start es WholePackets ↔
      Lts.Along Shared.step Shared.start es fun h s e =>
        (∃ o s', s.step e = .ok (o, s')) → WritesApart h s e := by
  refine Lts.throughout_iff_along framed_start framed_start.whole ?_ ?_ es
  · intro h s e o s' run framed hstep
    have hboth := framed_step framed hstep
    exact ⟨hboth.1, fun hapart => (hboth.2 hapart).whole⟩
  · intro h s e o s' run framed hapart hstep
    exact (framed_step framed hstep).2 hapart

/-! ## A chat in the middle of a file -/

/-- The bytes are at most `n` whole packets. -/
def framedBytes : Nat → List Byte → Bool
  | 0, bytes => bytes.isEmpty
  | n + 1, bytes =>
    bytes.isEmpty ||
      (let size := sizeofMainhdr + (hostHeader (bytes.take sizeofMainhdr)).len.toNat
      size ≤ bytes.length && framedBytes n (bytes.drop size))

theorem framedBytes_packets {ps : List Packet} {n : Nat}
    (hn : (ps.flatMap fun p => p.wire).length ≤ n) :
    framedBytes n (ps.flatMap fun p => p.wire) = true := by
  induction ps generalizing n with
  | nil => cases n <;> rfl
  | cons p ps ih =>
      rw [List.flatMap_cons, List.length_append, p.length_wire, sizeofMainhdr] at hn
      obtain ⟨n, rfl⟩ : ∃ m, n = m + 1 := Nat.exists_eq_succ_of_ne_zero (by omega)
      have hrest := ih (n := n) (by omega)
      have hheader : hostHeader ((p.wire ++ ps.flatMap fun p => p.wire).take sizeofMainhdr) =
          { p.toMainhdr with payload := [] } := by
        rw [Mainhdr.wire, List.append_assoc, ← length_wireHeader p.toMainhdr, List.take_left,
          hostHeader_wireHeader]
      rw [List.flatMap_cons, framedBytes, hheader]
      simp only [← p.length_wire, List.length_append, Nat.le_add_right, decide_true,
        List.drop_left, hrest, Bool.and_self, Bool.or_true]

/-- `SEND_CHAT` of one byte to group 0. -/
def shortChat : Packet := ⟨⟨SEND_CHAT, 0, 2, 1, [104]⟩, rfl⟩

/-- Another thread's packet goes out between the header of a file and its content. -/
def chatInsideFile : List WriteEvent := [.header 0 0 1 [120], .send 1 shortChat, .chunk 0]

/-- All three writes are done, and what is on the socket is no sequence of packets at all. -/
theorem chat_splits_file :
    ∃ h s, Lts.Run Shared.step Shared.start h s ∧ Lts.events h = chatInsideFile ∧
      (∀ t, s.sending t = none) ∧ (∀ ps : List Packet, s.socket.outgoing ≠ ps.flatMap (·.wire)) ∧
      ¬ WholePackets h s := by
  obtain ⟨⟨h, s⟩, hexec, hbytes, hquiet⟩ : ∃ r,
      Lts.execute Shared.step chatInsideFile [] Shared.start = .ok r ∧
        framedBytes r.2.socket.outgoing.length r.2.socket.outgoing = false ∧
        ∀ t, r.2.sending t = none := by
    refine ⟨_, rfl, by decide +kernel, quiet_of_apart (t := 0) ?_ fun t ht => ?_⟩
    · simp only [Function.update_self]
      decide
    · exact (Function.update_of_ne ht ..).trans (Function.update_of_ne ht ..)
  obtain ⟨run, hevents⟩ := Lts.Run.start.of_execute hexec
  have hnone : ∀ ps : List Packet, s.socket.outgoing ≠ ps.flatMap (·.wire) := by
    rintro ps hps
    rw [hps, framedBytes_packets (le_refl _)] at hbytes
    cases hbytes
  refine ⟨h, s, run, hevents, hquiet, hnone, fun whole => ?_⟩
  refine hnone ((packetsSent h).map Prod.snd) ?_
  rw [whole.outgoing_of_quiet hquiet, wires, List.flatMap_map]

end GroupChat
