import GroupChat.Wire

/-!
# Receiving a packet under every behaviour of `read`

`recvLoop_total` splits the loop of `recv_wrapper` by what the kernel does: the requested
bytes are gathered and the result is `1`, or a read returns `0` or `-1` first and that is
the result. A request with a negative count (a length of `2 ^ 31` or more) is a single
read (`recvWrapper_negative`).

`readMainHeader` takes every result but `0` for success, so a packet that was not received
in full is handed on after a `-1`, or when its length does not fit an `int`.
`noPartialPacket_iff` says for exactly which answers of the kernel that does not happen.
-/

namespace GroupChat

open Posix Socket

/-! ## The loop of `recv_wrapper` -/

theorem recvLoop_done {s : Socket} {num : Int} {got : List Byte} (h : num ≤ got.length) :
    recvLoop s num got = (1, got, s) := by
  rw [recvLoop, if_neg (by omega)]

theorem recvLoop_stop {s t : Socket} {n : Nat} {c : Int} {got : List Byte} (h0 : 0 < n)
    (hn : n < 2 ^ 31) (hread : s.read n = ⟨c, [], t⟩) (hc : c = 0 ∨ c = -1) :
    recvLoop s (got.length + n) got = (c, got, t) := by
  have hsize : toSizeT ((got.length : Int) + n - got.length) = n := by
    rw [add_sub_cancel_left]
    exact toSizeT_of_lt (by omega)
  rw [recvLoop, if_pos (by omega)]
  simp only [hsize, hread, if_pos hc]

theorem recvLoop_more {s t : Socket} {n : Nat} {bs got : List Byte} (hn : n < 2 ^ 31)
    (hread : s.read n = ⟨bs.length, bs, t⟩) (hne : bs ≠ []) :
    recvLoop s (got.length + n) got = recvLoop t (got.length + n) (got ++ bs) := by
  have hpos : 0 < bs.length := List.length_pos_iff.mpr hne
  have hle := (read_length_le hread).1
  have hsize : toSizeT ((got.length : Int) + n - got.length) = n := by
    rw [add_sub_cancel_left]
    exact toSizeT_of_lt (by omega)
  rw [recvLoop, if_pos (by omega)]
  simp only [hsize, hread]
  rw [if_neg (by omega)]

theorem recvLoop_gathers {s t : Socket} {n : Nat} {bs : List Byte} (h : Gathers s n bs t) :
    ∀ got : List Byte, n < 2 ^ 31 →
      recvLoop s (got.length + n) got = recvLoop t (got.length + n) (got ++ bs) := by
  induction h with
  | nil s n =>
      intro got _
      rw [List.append_nil]
  | @cons s t u n bs cs hread hne _ ih =>
      intro got hn
      have hle := (read_length_le hread).1
      have hnum : ((got.length : Int) + n) = (got ++ bs).length + ((n - bs.length : Nat) : Int) := by
        rw [List.length_append]
        omega
      rw [recvLoop_more hn hread hne, hnum, ih (got ++ bs) (by omega), List.append_assoc]

/-- The loop gathers what is missing and returns `1`, or returns what stopped it. -/
theorem recvLoop_total {n : Nat} (hn : n < 2 ^ 31) : ∀ (s : Socket) (got : List Byte),
    ∃ bs t, Gathers s n bs t ∧
      ((bs.length = n ∧ recvLoop s (got.length + n) got = (1, got ++ bs, t)) ∨
        ∃ c u, (c = 0 ∨ c = -1) ∧ bs.length < n ∧ t.read (n - bs.length) = ⟨c, [], u⟩ ∧
          recvLoop s (got.length + n) got = (c, got ++ bs, u)) := by
  induction n using Nat.strong_induction_on with
  | _ n ih =>
    intro s got
    rcases Nat.eq_zero_or_pos n with rfl | hpos
    · refine ⟨[], s, .nil s 0, Or.inl ⟨rfl, ?_⟩⟩
      rw [recvLoop_done (by omega), List.append_nil]
    rcases s.read_cases n with ⟨c, t, hc, hread⟩ | ⟨bs, t, hread, hne, hle⟩
    · refine ⟨[], s, .nil s n, Or.inr ⟨c, t, hc, hpos, hread, ?_⟩⟩
      rw [recvLoop_stop hpos hn hread hc, List.append_nil]
    · have hbs : 0 < bs.length := List.length_pos_iff.mpr hne
      have hnum : ((got.length : Int) + n) =
          (got ++ bs).length + ((n - bs.length : Nat) : Int) := by
        rw [List.length_append]
        omega
      obtain ⟨cs, u, hg, hres⟩ := ih (n - bs.length) (by omega) (by omega) t (got ++ bs)
      refine ⟨bs ++ cs, u, .cons hread hne hg, ?_⟩
      rw [recvLoop_more hn hread hne, hnum, ← List.append_assoc, List.length_append]
      rcases hres with ⟨hfull, hloop⟩ | ⟨c, v, hstop, hlt, hlast, hloop⟩
      · exact Or.inl ⟨by omega, hloop⟩
      · refine Or.inr ⟨c, v, hstop, by omega, ?_, hloop⟩
        rw [← hlast, Nat.sub_sub]

/-! ## `recv_wrapper` -/

theorem recvWrapper_eq_loop (s : Socket) {n : Nat} (h0 : 0 < n) :
    recvWrapper s n = recvLoop s n [] := by
  rw [recvLoop, if_pos (by simpa using h0)]
  simp only [recvWrapper, List.length_nil, Nat.cast_zero, sub_zero, List.nil_append]

theorem recvWrapper_total (s : Socket) {n : Nat} (h0 : 0 < n) (hn : n < 2 ^ 31) :
    ∃ bs t, Gathers s n bs t ∧
      ((bs.length = n ∧ recvWrapper s n = (1, bs, t)) ∨
        ∃ c u, (c = 0 ∨ c = -1) ∧ bs.length < n ∧ t.read (n - bs.length) = ⟨c, [], u⟩ ∧
          recvWrapper s n = (c, bs, u)) := by
  obtain ⟨bs, t, hg, hres⟩ := recvLoop_total hn s []
  rw [recvWrapper_eq_loop s h0]
  simp only [List.length_nil, Nat.cast_zero, zero_add, List.nil_append] at hres
  exact ⟨bs, t, hg, hres⟩

theorem recvWrapper_full {s t : Socket} {n : Nat} {bs : List Byte} (h0 : 0 < n)
    (hn : n < 2 ^ 31) (hg : Gathers s n bs t) (hlen : bs.length = n) :
    recvWrapper s n = (1, bs, t) := by
  have h := recvLoop_gathers hg [] hn
  simp only [List.length_nil, Nat.cast_zero, zero_add, List.nil_append] at h
  rw [recvWrapper_eq_loop s h0, h, recvLoop_done (by omega)]

theorem recvWrapper_stopped {s t u : Socket} {n : Nat} {c : Int} {bs : List Byte}
    (hn : n < 2 ^ 31) (hg : Gathers s n bs t) (hlt : bs.length < n)
    (hread : t.read (n - bs.length) = ⟨c, [], u⟩) (hc : c = 0 ∨ c = -1) :
    recvWrapper s n = (c, bs, u) := by
  have h := recvLoop_gathers hg [] hn
  simp only [List.length_nil, Nat.cast_zero, zero_add, List.nil_append] at h
  have hnum : (n : Int) = bs.length + ((n - bs.length : Nat) : Int) := by omega
  rw [recvWrapper_eq_loop s (by omega), h, hnum]
  exact recvLoop_stop (by omega) (by omega) hread hc

/-- A negative count makes one huge read, and anything it brings is enough. -/
theorem recvWrapper_negative (s : Socket) {num : Int} (hneg : num < 0) :
    recvWrapper s num = ((if (s.read (toSizeT num)).count = 0 ∨ (s.read (toSizeT num)).count = -1
        then (s.read (toSizeT num)).count else 1),
      (s.read (toSizeT num)).bytes, (s.read (toSizeT num)).socket) := by
  unfold recvWrapper
  by_cases hc : (s.read (toSizeT num)).count = 0 ∨ (s.read (toSizeT num)).count = -1
  · simp only [if_pos hc, read_bytes_nil hc]
  · simp only [if_neg hc]
    exact recvLoop_done (by omega)

/-- The kernel alone decides whether `recv_wrapper` stops early, and with what. -/
theorem stops_iff {s : Socket} {n : Nat} {c : Int} (h0 : 0 < n) (hn : n < 2 ^ 31)
    (hc : c = 0 ∨ c = -1) : Stops c s n ↔ (recvWrapper s n).1 = c := by
  constructor
  · rintro ⟨bs, t, u, hg, hlt, hread⟩
    rw [recvWrapper_stopped hn hg hlt hread hc]
  · intro h
    obtain ⟨bs, t, hg, ⟨-, hres⟩ | ⟨c', u, -, hlt, hread, hres⟩⟩ := recvWrapper_total s h0 hn
    · rw [hres] at h
      simp only at h
      omega
    · rw [hres] at h
      cases h
      exact ⟨bs, t, u, hg, hlt, hread⟩

/-! ## `read_main_header` -/

/-- The header and, where one follows, the payload came off the stream in full. -/
def ReceivedInFull (s s' : Socket) (hdr : Mainhdr) : Prop :=
  ∃ b : List Byte, b.length = sizeofMainhdr ∧ hdr = { hostHeader b with payload := hdr.payload } ∧
    s.incoming = b ++ hdr.payload ++ s'.incoming ∧
    (hdr.cmd ≠ SEND_FILE → hdr.payload.length = hdr.len.toNat)

/-- Only packets that were received in full are returned. -/
def NoPartialPacket (basic : Vector Byte sizeofMainhdr) (s : Socket) : Prop :=
  ∀ hdr, (readMainHeader basic s).1 = some hdr →
    ReceivedInFull s (readMainHeader basic s).2 hdr

/-- A payload follows, and the stream ends before it is complete. -/
def PayloadEnds (hdr : Mainhdr) (s : Socket) : Prop :=
  hdr.hasPayload = true ∧
    if hdr.len.toNat < 2 ^ 31 then Stops 0 s hdr.len.toNat else (s.read 1).count = 0

/-- The length of a payload that follows fits an `int`, and no read of it fails. -/
def PayloadSound (hdr : Mainhdr) (s : Socket) : Prop :=
  hdr.hasPayload = true → hdr.len.toNat < 2 ^ 31 ∧ ¬ Stops (-1) s hdr.len.toNat

/-- The answers of the kernel under which `read_main_header` returns no partial packet: the
stream ends within the header; or the header comes in full and what follows is sound, or
ends early; or a read of the header fails, and the header that was on the stack announces a
payload before which the stream ends. -/
def SoundAnswers (basic : Vector Byte sizeofMainhdr) (s : Socket) : Prop :=
  Stops 0 s sizeofMainhdr ∨
    (∃ b s', Gathers s sizeofMainhdr b s' ∧ b.length = sizeofMainhdr ∧
      (PayloadSound (hostHeader b) s' ∨ PayloadEnds (hostHeader b) s')) ∨
    ∃ b s' t, Gathers s sizeofMainhdr b s' ∧ b.length < sizeofMainhdr ∧
      s'.read (sizeofMainhdr - b.length) = ⟨-1, [], t⟩ ∧
      PayloadEnds (hostHeader (b ++ basic.toList.drop b.length)) t

theorem hasPayload_iff {hdr : Mainhdr} :
    hdr.hasPayload = true ↔ 0 < hdr.len.toNat ∧ hdr.cmd ≠ SEND_FILE := by
  have hlen : hdr.len ≠ 0 ↔ 0 < hdr.len.toNat := by
    rw [Nat.pos_iff_ne_zero, Ne, Ne, ← UInt32.toNat_inj]
    rfl
  simp only [Mainhdr.hasPayload, Bool.and_eq_true, decide_eq_true_eq, hlen]

theorem recvPayload_of_hasPayload {hdr : Mainhdr} (hp : hdr.hasPayload = true) {s t : Socket}
    {ret : Int} {p : List Byte} (h : recvWrapper s (toInt32 hdr.len.toNat) = (ret, p, t)) :
    recvPayload hdr s = if ret ≠ 0 then (some { hdr with payload := p }, t) else (none, t) := by
  rw [recvPayload, if_pos hp, h]

theorem recvPayload_of_not_hasPayload {hdr : Mainhdr} (hp : ¬ hdr.hasPayload = true) (s : Socket) :
    recvPayload hdr s = (some hdr, s) := by
  rw [recvPayload, if_neg hp]

/-- A payload that follows is missing from the result exactly when the stream ends within
it, and complete exactly when the answers were sound. -/
def PayloadSpec (hdr : Mainhdr) (s : Socket) : Prop :=
  (PayloadEnds hdr s ∧ ∃ t, recvPayload hdr s = (none, t)) ∨
    (¬ PayloadEnds hdr s ∧ ∃ p t, recvPayload hdr s = (some { hdr with payload := p }, t) ∧
      s.incoming = p ++ t.incoming ∧ p.length ≤ hdr.len.toNat ∧
      (p.length = hdr.len.toNat ↔ PayloadSound hdr s))

theorem payloadSpec_of_fits {hdr : Mainhdr} (hp : hdr.hasPayload = true)
    (hfit : hdr.len.toNat < 2 ^ 31) (s : Socket) : PayloadSpec hdr s := by
  have hpos := (hasPayload_iff.mp hp).1
  have hends : PayloadEnds hdr s ↔ (recvWrapper s hdr.len.toNat).1 = 0 := by
    rw [PayloadEnds, if_pos hfit, stops_iff hpos hfit (Or.inl rfl)]
    exact and_iff_right hp
  have hsound : PayloadSound hdr s ↔ (recvWrapper s hdr.len.toNat).1 ≠ -1 := by
    rw [PayloadSound, stops_iff hpos hfit (Or.inr rfl)]
    exact ⟨fun h => (h hp).2, fun h _ => ⟨hfit, h⟩⟩
  obtain ⟨bs, t, hg, ⟨hlen, hres⟩ | ⟨c, u, hc, hlt, hread, hres⟩⟩ :=
    recvWrapper_total s hpos hfit
  · rw [hres] at hends hsound
    rw [← toInt32_of_lt hfit] at hres
    refine Or.inr ⟨by simp [hends], bs, t, ?_, hg.incoming, le_of_eq hlen, by simp [hsound, hlen]⟩
    rw [recvPayload_of_hasPayload hp hres, if_pos (by decide)]
  · rw [hres] at hends hsound
    rw [← toInt32_of_lt hfit] at hres
    rcases hc with rfl | rfl
    · refine Or.inl ⟨hends.mpr rfl, u, ?_⟩
      rw [recvPayload_of_hasPayload hp hres, if_neg (by simp)]
    · have hu := (t.read_spec (hdr.len.toNat - bs.length)).1
      rw [hread, List.nil_append] at hu
      refine Or.inr ⟨by simp [hends], bs, u, ?_, ?_, le_of_lt hlt, ?_⟩
      · rw [recvPayload_of_hasPayload hp hres, if_pos (by decide)]
      · rw [hg.incoming, hu]
      · simp only [hsound, ne_eq, not_true_eq_false, iff_false]
        omega

theorem payloadSpec_of_huge {hdr : Mainhdr} (hp : hdr.hasPayload = true)
    (hhuge : ¬ hdr.len.toNat < 2 ^ 31) (s : Socket) : PayloadSpec hdr s := by
  have hnum := toInt32_of_ge (Nat.le_of_not_lt hhuge) hdr.len.toNat_lt
  have hlt := hdr.len.toNat_lt
  have hsize : 0 < toSizeT (toInt32 hdr.len.toNat) := by
    have := le_toSizeT_of_neg (n := toInt32 hdr.len.toNat) (by omega) (by omega)
    omega
  have hsound : ¬ PayloadSound hdr s := fun h => hhuge (h hp).1
  have hends : PayloadEnds hdr s ↔ (s.read (toSizeT (toInt32 hdr.len.toNat))).count = 0 := by
    rw [PayloadEnds, if_neg hhuge, read_zero_iff one_pos hsize]
    exact and_iff_right hp
  have hres := recvWrapper_negative s (show toInt32 hdr.len.toNat < 0 by omega)
  have hsplit := s.read_spec (toSizeT (toInt32 hdr.len.toNat))
  have hmax : maxTransfer < 2 ^ 31 := by decide
  generalize s.read (toSizeT (toInt32 hdr.len.toNat)) = r at hends hres hsplit
  by_cases h0 : r.count = 0
  · refine Or.inl ⟨hends.mpr h0, r.socket, ?_⟩
    rw [recvPayload_of_hasPayload hp hres, if_neg (by simp [h0])]
  · refine Or.inr ⟨fun h => h0 (hends.mp h), r.bytes, r.socket, ?_, hsplit.1, by omega, ?_⟩
    · rw [recvPayload_of_hasPayload hp hres, if_pos]
      split <;> omega
    · simp only [hsound, iff_false]
      omega

theorem payloadSpec {hdr : Mainhdr} (hp : hdr.hasPayload = true) (s : Socket) :
    PayloadSpec hdr s := by
  by_cases hfit : hdr.len.toNat < 2 ^ 31
  · exact payloadSpec_of_fits hp hfit s
  · exact payloadSpec_of_huge hp hfit s

theorem hostHeader_payload (b : List Byte) : (hostHeader b).payload = [] := by
  unfold hostHeader Mainhdr.ofImage
  split <;> rfl

/-- After a full header, only full packets are returned if the rest is sound or ends. -/
theorem full_after_header {s s' : Socket} {b : List Byte} (hb : b.length = sizeofMainhdr)
    (hin : s.incoming = b ++ s'.incoming) :
    (∀ hdr, (recvPayload (hostHeader b) s').1 = some hdr →
        ReceivedInFull s (recvPayload (hostHeader b) s').2 hdr) ↔
      PayloadSound (hostHeader b) s' ∨ PayloadEnds (hostHeader b) s' := by
  have hnil := hostHeader_payload b
  by_cases hp : (hostHeader b).hasPayload = true
  · rcases payloadSpec hp s' with ⟨hends, t, hres⟩ | ⟨hends, p, t, hres, hsplit, -, hsound⟩
    · rw [hres]
      exact ⟨fun _ => Or.inr hends, fun _ hdr h => nomatch h⟩
    · rw [hres, ← hsound]
      constructor
      · intro h
        obtain ⟨-, -, -, -, hlen⟩ := h _ rfl
        exact Or.inl (hlen (hasPayload_iff.mp hp).2)
      · rintro (hlen | h) hdr hsome
        · obtain rfl := Option.some.inj hsome
          exact ⟨b, hb, rfl, by rw [hin, hsplit, List.append_assoc], fun _ => hlen⟩
        · exact absurd h hends
  · rw [recvPayload_of_not_hasPayload hp]
    refine ⟨fun _ => Or.inl fun h => absurd h hp, fun _ hdr hsome => ?_⟩
    obtain rfl := Option.some.inj hsome
    refine ⟨b, hb, rfl, by rw [hnil, List.append_nil, hin], fun hcmd => ?_⟩
    rw [hasPayload_iff, not_and_or, not_not] at hp
    have hlen : ¬ 0 < (hostHeader b).len.toNat := hp.resolve_right (fun h => hcmd h)
    rw [hnil, List.length_nil]
    omega

/-- After a header that broke off, whatever is returned is not a full packet. -/
theorem full_after_broken_header {s t : Socket} {b : List Byte} {junk : Mainhdr}
    (hjunk : junk.payload = []) (hb : b.length < sizeofMainhdr)
    (hin : s.incoming = b ++ t.incoming) :
    (∀ hdr, (recvPayload junk t).1 = some hdr → ReceivedInFull s (recvPayload junk t).2 hdr) ↔
      PayloadEnds junk t := by
  -- a full packet would have taken eight bytes before the payload, not `b.length`
  have hnot : ∀ hdr u, t.incoming = hdr.payload ++ u.incoming → ¬ ReceivedInFull s u hdr := by
    rintro hdr u hsplit ⟨b', hb', -, hin', -⟩
    have hlen := congrArg List.length (hin.symm.trans hin')
    simp only [hsplit, List.length_append] at hlen
    omega
  by_cases hp : junk.hasPayload = true
  · rcases payloadSpec hp t with ⟨hends, u, hres⟩ | ⟨hends, p, u, hres, hsplit, -, -⟩
    · rw [hres]
      exact ⟨fun _ => hends, fun _ hdr h => nomatch h⟩
    · rw [hres]
      exact ⟨fun h => absurd (h _ rfl) (hnot { junk with payload := p } u hsplit),
        fun h => absurd h hends⟩
  · rw [recvPayload_of_not_hasPayload hp]
    exact ⟨fun h => absurd (h _ rfl) (hnot junk t (by rw [hjunk, List.nil_append])),
      fun h => absurd h.1 hp⟩

/-- `read_main_header` returns only packets received in full exactly under the sound
answers of the kernel. -/
theorem noPartialPacket_iff (basic : Vector Byte sizeofMainhdr) (s : Socket) :
    NoPartialPacket basic s ↔ SoundAnswers basic s := by
  have h0 : 0 < sizeofMainhdr := by decide
  have hn : sizeofMainhdr < 2 ^ 31 := by decide
  have hstops := stops_iff (s := s) (c := 0) h0 hn (Or.inl rfl)
  unfold NoPartialPacket SoundAnswers readMainHeader
  obtain ⟨b, s', hg, ⟨hlen, hres⟩ | ⟨c, t, hc, hlt, hread, hres⟩⟩ := recvWrapper_total s h0 hn
  · -- the header comes in full
    have hdrop : basic.toList.drop b.length = [] := by
      rw [List.drop_eq_nil_iff, hlen, Vector.length_toList]
    rw [hstops, hres]
    simp only [hdrop, List.append_nil, ne_eq, one_ne_zero, not_false_eq_true, if_true, false_or]
    rw [full_after_header hlen hg.incoming]
    constructor
    · intro h
      exact Or.inl ⟨b, s', hg, hlen, h⟩
    · rintro (⟨b', u, hg', hlen', h⟩ | ⟨b', u, v, hg', hlt', hread', -⟩)
      · have heq := hres.symm.trans (recvWrapper_full h0 hn hg' hlen')
        obtain ⟨-, rfl, rfl⟩ : (1 : Int) = 1 ∧ b = b' ∧ s' = u := by simpa using heq
        exact h
      · have heq := hres.symm.trans (recvWrapper_stopped hn hg' hlt' hread' (Or.inr rfl))
        simp at heq
  · have hnofull : ∀ b' u, Gathers s sizeofMainhdr b' u → b'.length ≠ sizeofMainhdr := by
      intro b' u hg' hlen'
      have heq := hres.symm.trans (recvWrapper_full h0 hn hg' hlen')
      rcases hc with rfl | rfl <;> simp at heq
    rcases hc with rfl | rfl
    · -- the stream ends within the header
      rw [hstops, hres]
      simp
    · -- a read of the header fails
      have hin : s.incoming = b ++ t.incoming := by
        have := (s'.read_spec (sizeofMainhdr - b.length)).1
        rw [hread, List.nil_append] at this
        rw [hg.incoming, this]
      rw [hstops, hres]
      simp only [ne_eq, neg_eq_zero, one_ne_zero, not_false_eq_true, if_true, false_or]
      rw [full_after_broken_header (hostHeader_payload _) hlt hin]
      constructor
      · intro h
        exact Or.inr ⟨b, s', t, hg, hlt, hread, h⟩
      · rintro (⟨b', u, hg', hlen', -⟩ | ⟨b', u, v, hg', hlt', hread', h⟩)
        · exact absurd hlen' (hnofull b' u hg')
        · have heq := hres.symm.trans (recvWrapper_stopped hn hg' hlt' hread' (Or.inr rfl))
          obtain ⟨-, rfl, rfl⟩ : (-1 : Int) = -1 ∧ b = b' ∧ t = v := by simpa using heq
          exact h

/-- A chat of five bytes of which two arrive before a read fails is handed on. -/
theorem partial_packet_returned :
    ¬ ∀ (basic : Vector Byte sizeofMainhdr) (s : Socket), NoPartialPacket basic s := by
  intro h
  let s : Socket := ⟨[3, 0, 0, 7, 0, 0, 0, 5, 104, 105], [.upTo 8, .upTo 2, .fail], [], []⟩
  have hres : readMainHeader (Vector.replicate _ 0) s =
      (some ⟨SEND_CHAT, 0, 7, 5, [104, 105]⟩, ⟨[], [], [], []⟩) := by decide +kernel
  obtain ⟨-, -, -, -, hlen⟩ := h (Vector.replicate _ 0) s _ (by rw [hres])
  exact absurd (hlen (by decide)) (by decide)

end GroupChat
