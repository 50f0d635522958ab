import GroupChat.Wire

/-!
# Sending a packet under every behaviour of `write`

`send_wrapper` writes once and then goes on with `read`, so the only bytes that ever reach
the socket are those the first `write` took (`sendMainHeader_outgoing`).
`sendsWhole_iff` draws the consequence: a packet goes out whole, and nothing is taken off
the incoming stream, exactly when the first `write` takes all of it.

`send_wrapper` returns `0` when the packet is gone, and `send_main_header` takes that for a
failure. `statusTruthful_iff` says for which answers of the kernel the status is right after all.
-/

namespace GroupChat

open Posix Socket

/-- A packet whose payload is all there. -/
structure Packet extends Mainhdr where
  full : payload.length = len.toNat

/-- The eight header bytes in network order. -/
def Mainhdr.wireHeader (hdr : Mainhdr) : List Byte :=
  hdr.cmd :: hdr.gid :: (network16 hdr.uid ++ network32 hdr.len)

/-- The bytes a packet is on the wire. -/
def Mainhdr.wire (hdr : Mainhdr) : List Byte := hdr.wireHeader ++ hdr.payload

theorem length_wireHeader (hdr : Mainhdr) : hdr.wireHeader.length = sizeofMainhdr := rfl

theorem Packet.length_wire (p : Packet) : p.wire.length = sizeofMainhdr + p.len.toNat := by
  rw [Mainhdr.wire, List.length_append, length_wireHeader, p.full]

/-- Swapping the two integers in place puts the packet's memory in wire order. -/
theorem image_swapped (hdr : Mainhdr) :
    Mainhdr.image { hdr with uid := swap16 hdr.uid, len := swap32 hdr.len } = hdr.wire := by
  simp only [Mainhdr.image, Mainhdr.wire, Mainhdr.wireHeader, bytes16_swap16, bytes32_swap32,
    List.cons_append]

/-- The packet is on the socket, once and in order, and no incoming byte is gone. -/
def SendsWhole (p : Packet) (s : Socket) : Prop :=
  (sendMainHeader p.toMainhdr s).2.outgoing = s.outgoing ++ p.wire ∧
    (sendMainHeader p.toMainhdr s).2.incoming = s.incoming

/-- The number of bytes `send_main_header` offers to the first `write`. -/
def offered (p : Packet) : Nat := toSizeT (toInt32 (sizeofMainhdr + p.len.toNat : Nat))

/-- The loop of `send_wrapper` puts nothing on the socket. -/
theorem sendLoop_outgoing {n : Nat} : ∀ {s : Socket} {num sent : Int},
    (num - sent).toNat ≤ n → (sendLoop s num sent).2.outgoing = s.outgoing := by
  induction n with
  | zero =>
      intro s num sent hn
      rw [sendLoop, if_neg (by omega)]
  | succ n ih =>
      intro s num sent hn
      rw [sendLoop]
      split
      · rename_i hlt
        simp only
        split
        · exact (s.read_frame _).1
        · rename_i hc
          have hpos := read_count_pos hc
          rw [ih (by omega)]
          exact (s.read_frame _).1
      · rfl

/-- Whatever the kernel answers, what reaches the socket is what the first `write` took. -/
theorem sendMainHeader_outgoing (p : Packet) (s : Socket) (ws : List Nat)
    (hws : s.writeAnswers = ws.map .upTo) :
    (sendMainHeader p.toMainhdr s).2.outgoing =
      s.outgoing ++ p.wire.take (s.accepted (offered p)) := by
  simp only [sendMainHeader, sendWrapper, image_swapped, ← Nat.cast_add]
  rw [write_accepted _ _ (hws ▸ upTo_of_mem_map ws)]
  simp only
  split
  · rfl
  · rw [sendLoop_outgoing (le_refl _)]
    rfl

/-- When the first `write` takes everything, the loop is not entered. -/
theorem sendMainHeader_whole (p : Packet) (s : Socket) (ws : List Nat)
    (hws : s.writeAnswers = ws.map .upTo)
    (h : sizeofMainhdr + p.len.toNat ≤ s.accepted (offered p)) :
    (sendMainHeader p.toMainhdr s).2 =
      { s with outgoing := s.outgoing ++ p.wire, writeAnswers := s.writeAnswers.tail } := by
  have htake : p.wire.take (s.accepted (offered p)) = p.wire :=
    List.take_of_length_le (by rw [p.length_wire]; exact h)
  simp only [sendMainHeader, sendWrapper, image_swapped, ← Nat.cast_add]
  rw [write_accepted _ _ (hws ▸ upTo_of_mem_map ws), ← offered, htake, p.length_wire]
  simp only
  split
  · rfl
  · rw [sendLoop, if_neg (lt_irrefl _)]

/-- A packet goes out whole, and no incoming byte is lost, exactly when the first `write`
takes all of it. -/
theorem sendsWhole_iff (p : Packet) (s : Socket) (ws : List Nat) :
    SendsWhole p (s.scheduled ws) ↔
      sizeofMainhdr + p.len.toNat ≤ (s.scheduled ws).accepted (offered p) := by
  constructor
  · rintro ⟨hout, -⟩
    rw [sendMainHeader_outgoing p _ ws rfl, List.append_cancel_left_eq, List.take_eq_self_iff,
      p.length_wire] at hout
    exact hout
  · intro h
    rw [SendsWhole, sendMainHeader_whole p _ ws rfl h]
    exact ⟨rfl, rfl⟩

/-- A nine-byte packet of which the first `write` takes four bytes never goes out. -/
theorem short_write_loses :
    ¬ ∀ (p : Packet) (s : Socket) (ws : List Nat), (∀ w ∈ ws, 1 ≤ w) →
      ws.sum = sizeofMainhdr + p.len.toNat →
      SendsWhole p (s.scheduled ws) := by
  intro h
  let p : Packet := ⟨⟨SEND_CHAT, 0, 7, 1, [104]⟩, rfl⟩
  have hsum : [4, 5].sum = sizeofMainhdr + p.len.toNat := by decide +kernel
  obtain ⟨hout, -⟩ := h p ⟨[], [], [], []⟩ [4, 5] (by simp) hsum
  have hlost : (sendMainHeader p.toMainhdr (Socket.scheduled ⟨[], [], [], []⟩ [4, 5])).2.outgoing =
      [3, 0, 0, 7] := by decide +kernel
  have hlen := congrArg List.length (hlost.symm.trans hout)
  rw [List.length_append, p.length_wire] at hlen
  exact absurd hlen (by decide)

/-! ## The status -/

/-- The loop of `send_wrapper` returns `0`, unless a read fails before the count is made up. -/
theorem sendLoop_eq_zero {n : Nat} (hn : n < 2 ^ 64) : ∀ {s : Socket} {num sent : Int},
    (num - sent).toNat = n → ((sendLoop s num sent).1 = 0 ↔ ¬ Stops (-1) s n) := by
  induction n using Nat.strong_induction_on with
  | _ n ih =>
    intro s num sent hleft
    rw [sendLoop]
    by_cases hlt : sent < num
    · have hsize : toSizeT (num - sent) = n := by
        rw [← Int.toNat_of_nonneg (by omega : 0 ≤ num - sent), hleft]
        exact toSizeT_of_lt hn
      rw [if_pos hlt, hsize]
      rcases s.read_cases n with ⟨c, t, hc, hread⟩ | ⟨bs, t, hread, hne, hle⟩
      · simp only [hread, if_pos hc]
        rw [stops_first (by omega) hread]
        omega
      · have hbs : 0 < bs.length := List.length_pos_iff.mpr hne
        have hgo : ¬ ((bs.length : Int) = 0 ∨ (bs.length : Int) = -1) := by omega
        simp only [hread, if_neg hgo]
        rw [stops_cons hread hne]
        exact ih (n - bs.length) (by omega) (by omega) (by omega)
    · rw [if_neg hlt]
      refine ⟨?_, fun _ => rfl⟩
      rintro - ⟨bs, t, u, -, hshort, -⟩
      omega

/-- `send_wrapper` after its first `write`. -/
theorem sendWrapper_first (s : Socket) (buff : List Byte) (num : Int) :
    sendWrapper s buff num =
      if toInt32 (s.write buff (toSizeT num)).1 = 0 then (0, (s.write buff (toSizeT num)).2)
      else if toInt32 (s.write buff (toSizeT num)).1 = -1 then (-1, (s.write buff (toSizeT num)).2)
      else sendLoop (s.write buff (toSizeT num)).2 num (toInt32 (s.write buff (toSizeT num)).1) := by
  rw [sendWrapper]
  generalize s.write buff (toSizeT num) = first
  simp only
  generalize toInt32 first.1 = count
  by_cases hzero : count = 0
  · rw [if_pos hzero, if_pos (Or.inl hzero), hzero]
  · by_cases hfail : count = -1
    · rw [if_pos (Or.inr hfail), if_neg hzero, if_pos hfail, hfail]
    · rw [if_neg (by tauto), if_neg hzero, if_neg hfail]

theorem sendWrapper_outgoing (s : Socket) (buff : List Byte) (num : Int) :
    (sendWrapper s buff num).2.outgoing = (s.write buff (toSizeT num)).2.outgoing := by
  rw [sendWrapper_first]
  split
  · rfl
  · split
    · rfl
    · exact sendLoop_outgoing (le_refl _)

theorem sendWrapper_eq_zero (s : Socket) (buff : List Byte) {num : Int} (hnum : num < 2 ^ 31) :
    (sendWrapper s buff num).1 = 0 ↔ toInt32 (s.write buff (toSizeT num)).1 = 0 ∨
      (toInt32 (s.write buff (toSizeT num)).1 ≠ -1 ∧ ¬ Stops (-1) (s.write buff (toSizeT num)).2
        (num - toInt32 (s.write buff (toSizeT num)).1).toNat) := by
  have hcount := toInt32_mem (s.write buff (toSizeT num)).1
  rw [sendWrapper_first]
  generalize s.write buff (toSizeT num) = first at hcount ⊢
  generalize toInt32 first.1 = count at hcount ⊢
  by_cases hzero : count = 0
  · simp [hzero]
  · by_cases hfail : count = -1
    · simp [hfail]
    · rw [if_neg hzero, if_neg hfail, sendLoop_eq_zero (by omega) rfl]
      simp [hzero, hfail]

/-- The `num_bytes` that a packet hands to `send_wrapper`. -/
def numBytes (p : Packet) : Int := toInt32 (sizeofMainhdr + p.len.toNat : Nat)

/-- The result of the one `write` that `send_main_header` makes. -/
def firstWrite (p : Packet) (s : Socket) : Int × Socket := s.write p.wire (offered p)

/-- The number of bytes that the loop of `send_wrapper` takes to be missing after a first `write`
with the result `count`. -/
def missing (p : Packet) (count : Int) : Nat := (numBytes p - toInt32 count).toNat

/-- Every byte of the packet has been put on the socket. -/
def Written (p : Packet) (s : Socket) : Prop :=
  (sendMainHeader p.toMainhdr s).2.outgoing = s.outgoing ++ p.wire

/-- The contract of `send_main_header`: it returns `1` if successful, `0` if not. -/
def StatusTruthful (p : Packet) (s : Socket) : Prop :=
  (Written p s → (sendMainHeader p.toMainhdr s).1 = 1) ∧
    (¬ Written p s → (sendMainHeader p.toMainhdr s).1 = 0)

/-- `send_main_header` turns the result of `send_wrapper` round. -/
theorem sendMainHeader_eq (p : Packet) (s : Socket) :
    sendMainHeader p.toMainhdr s =
      (if (sendWrapper s p.wire (numBytes p)).1 ≠ 0 then 1 else 0,
        (sendWrapper s p.wire (numBytes p)).2) := by
  simp only [sendMainHeader, image_swapped, ← Nat.cast_add]
  rfl

/-- A packet is on the socket when the first `write` took all of it. -/
theorem written_iff (p : Packet) (s : Socket) :
    Written p s ↔ (firstWrite p s).1 = p.wire.length := by
  obtain ⟨k, -, hput, hcount⟩ := s.write_spec p.wire (offered p)
  rw [Written, sendMainHeader_eq, sendWrapper_outgoing, numBytes, ← offered, firstWrite, hput,
    List.append_cancel_left_eq, List.take_eq_self_iff]
  have hlen : 0 < p.wire.length := by
    rw [p.length_wire, sizeofMainhdr]
    omega
  rcases hcount with hcount | ⟨rfl, hcount⟩
  · rw [hcount, List.length_take]
    omega
  · rw [hcount]
    omega

theorem sendMainHeader_eq_zero (p : Packet) (s : Socket) :
    (sendMainHeader p.toMainhdr s).1 = 0 ↔ toInt32 (firstWrite p s).1 = 0 ∨
      (toInt32 (firstWrite p s).1 ≠ -1 ∧
        ¬ Stops (-1) (firstWrite p s).2 (missing p (firstWrite p s).1)) := by
  have hnum : numBytes p < 2 ^ 31 := (toInt32_mem _).2
  rw [firstWrite, offered, ← numBytes, missing, ← sendWrapper_eq_zero s p.wire hnum,
    sendMainHeader_eq]
  simp only [ne_eq, ite_not, ite_eq_left_iff, one_ne_zero, imp_false, not_not]

theorem sendMainHeader_status (p : Packet) (s : Socket) :
    (sendMainHeader p.toMainhdr s).1 = 1 ↔ (sendMainHeader p.toMainhdr s).1 ≠ 0 := by
  rw [sendMainHeader_eq]
  split <;> simp

/-- The first `write` returns `-1`, or the number of the bytes it took. -/
theorem firstWrite_mem (p : Packet) (s : Socket) :
    -1 ≤ (firstWrite p s).1 ∧ (firstWrite p s).1 ≤ p.wire.length ∧
      (firstWrite p s).1 ≤ offered p := by
  obtain ⟨k, hk, -, hcount⟩ := s.write_spec p.wire (offered p)
  rw [firstWrite]
  rcases hcount with hcount | ⟨rfl, hcount⟩
  · rw [hcount, List.length_take]
    omega
  · rw [hcount]
    omega

/-- Of a packet whose size does not fit 32 bits only the residue is offered. -/
theorem offered_of_ge {p : Packet} (h : 2 ^ 32 ≤ p.wire.length) : offered p < sizeofMainhdr := by
  have hlen := p.length_wire
  have hlow := p.len.toNat_lt
  have hrest : (sizeofMainhdr + p.len.toNat) % 2 ^ 32 < sizeofMainhdr := by
    rw [sizeofMainhdr] at hlen ⊢
    omega
  rw [sizeofMainhdr] at hrest ⊢
  rw [offered, sizeofMainhdr, toInt32_of_mod (by omega), toSizeT_of_lt (by omega)]
  exact hrest

/-- A packet that the first `write` takes whole leaves the loop nothing to do. -/
theorem whole_count {p : Packet} {s : Socket} (h : (firstWrite p s).1 = p.wire.length) :
    p.wire.length < 2 ^ 32 ∧ missing p (firstWrite p s).1 = 0 := by
  have hle := (firstWrite_mem p s).2.2
  constructor
  · by_contra hbig
    have hoffered := offered_of_ge (p := p) (by omega)
    rw [sizeofMainhdr] at hoffered
    omega
  · rw [missing, numBytes, ← p.length_wire, h, sub_self]
    rfl

/-- A packet on the socket is reported as lost, unless its size becomes the `int` `-1`. -/
theorem status_of_whole {p : Packet} {s : Socket} (h : (firstWrite p s).1 = p.wire.length) :
    (sendMainHeader p.toMainhdr s).1 = 0 ↔ p.wire.length ≠ 2 ^ 32 - 1 := by
  obtain ⟨hsmall, hnone⟩ := whole_count h
  have hstop : ¬ Stops (-1) (firstWrite p s).2 0 := by
    rintro ⟨bs, t, u, -, hlt, -⟩
    exact Nat.not_lt_zero _ hlt
  have hlen := p.length_wire
  rw [sizeofMainhdr] at hlen
  rw [sendMainHeader_eq_zero, hnone, h, toInt32_eq_zero hsmall, ne_eq, toInt32_eq_neg_one hsmall]
  constructor
  · rintro (hzero | ⟨hall, -⟩)
    · omega
    · exact hall
  · intro hall
    exact Or.inr ⟨hall, hstop⟩

/-- A packet that is not on the socket is reported as lost, unless the `write` fails, or a `read`
does in the loop. -/
theorem status_of_short {p : Packet} {s : Socket} (h : (firstWrite p s).1 ≠ p.wire.length) :
    (sendMainHeader p.toMainhdr s).1 = 0 ↔ (firstWrite p s).1 = 0 ∨
      (0 < (firstWrite p s).1 ∧
        ¬ Stops (-1) (firstWrite p s).2 (missing p (firstWrite p s).1)) := by
  obtain ⟨hlow, hhigh⟩ := firstWrite_mem p s
  rw [sendMainHeader_eq_zero]
  rcases lt_or_ge (firstWrite p s).1 0 with hneg | hpos
  · have hfail : (firstWrite p s).1 = -1 := by omega
    rw [hfail]
    constructor
    · rintro (hzero | ⟨hgo, -⟩)
      · cases hzero
      · exact absurd rfl hgo
    · rintro (hzero | ⟨hgo, -⟩)
      · cases hzero
      · cases hgo
  · obtain ⟨n, hn⟩ := Int.eq_ofNat_of_zero_le hpos
    have hless : n < 2 ^ 32 - 1 := by
      rcases Nat.lt_or_ge p.wire.length (2 ^ 32) with hsmall | hbig
      · omega
      · have hoffered := offered_of_ge hbig
        rw [sizeofMainhdr] at hoffered
        omega
    rw [hn, toInt32_eq_zero (by omega), ne_eq, toInt32_eq_neg_one (by omega)]
    rcases Nat.eq_zero_or_pos n with rfl | hsome
    · simp
    · have hgo : ¬ n = 2 ^ 32 - 1 := by omega
      simp only [hgo, hsome.ne', not_false_eq_true, true_and, false_or, Int.natCast_pos, hsome,
        Int.natCast_eq_zero]

/-- The status says whether the packet went out exactly when the first `write` took no byte and
returned `0`, or took some of the bytes and no `read` fails while the loop reads for the others.
A packet that is taken whole is reported as lost, unless its `2 ^ 32 - 1` bytes become the `int`
`-1`. -/
theorem statusTruthful_iff (p : Packet) (s : Socket) :
    StatusTruthful p s ↔ (firstWrite p s).1 = 0 ∨
      (0 < (firstWrite p s).1 ∧ (firstWrite p s).1 ≠ p.wire.length ∧
        ¬ Stops (-1) (firstWrite p s).2 (missing p (firstWrite p s).1)) ∨
      ((firstWrite p s).1 = p.wire.length ∧ p.wire.length = 2 ^ 32 - 1) := by
  rw [StatusTruthful, written_iff, sendMainHeader_status]
  by_cases hwhole : (firstWrite p s).1 = p.wire.length
  · have hlen : 0 < p.wire.length := by
      rw [p.length_wire, sizeofMainhdr]
      omega
    rw [ne_eq, status_of_whole hwhole, hwhole]
    simp [hlen.ne']
  · rw [status_of_short hwhole]
    simp [hwhole]

/-- A chat message of one byte goes out whole, and the status is `0`. -/
theorem status_reports_loss : ¬ ∀ (p : Packet) (s : Socket), StatusTruthful p s := by
  intro h
  let p : Packet := ⟨⟨SEND_CHAT, 0, 7, 1, [104]⟩, rfl⟩
  have hall : Written p ⟨[], [], [], []⟩ := by
    rw [Written]
    decide +kernel
  exact absurd ((h p ⟨[], [], [], []⟩).1 hall) (by decide +kernel)

end GroupChat
