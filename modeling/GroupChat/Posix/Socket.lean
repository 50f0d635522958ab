import GroupChat.Posix.Basic

/-!
# Stream sockets with short reads and writes

A `Socket` is one end of a stream connection: the bytes still to come in, the bytes put
out so far, and the kernel's answers to the coming `read` and `write` calls. The answers
are arbitrary, so a theorem about every `Socket` is a theorem about every behaviour of the
kernel.

`Gathers s n bs t` says that a run of successful reads, each asking for what is left of
`n` bytes, delivers `bs`; `Stops c s n` says that such a run meets the result `c` (`0` for
the end of the stream, `-1` for an error) before `n` bytes have come. They describe the
kernel alone: a receive loop is proved against them.
-/

namespace Posix

/-- The kernel's answer to one `read` or `write`: at most `k` bytes (and at least one, when
there is one), the result `0`, or the result `-1`. -/
inductive Answer
  | upTo (k : Nat)
  | zero
  | fail
  deriving DecidableEq, Repr

/-- One end of a connection. A list of answers that has run out stands for calls that
transfer all they can. -/
structure Socket where
  incoming : List Byte
  readAnswers : List Answer
  outgoing : List Byte
  writeAnswers : List Answer
  deriving DecidableEq, Repr

/-- The most bytes one `read` transfers, whatever it is asked for. -/
def maxTransfer : Nat := 0x7ffff000

/-- A schedule of positive counts. -/
theorem upTo_of_mem_map (counts : List Nat) :
    ∀ a ∈ counts.map Answer.upTo, ∃ k, a = .upTo k := by
  intro a ha
  obtain ⟨k, -, rfl⟩ := List.mem_map.mp ha
  exact ⟨k, rfl⟩

/-- By how much a `write` of `n` bytes falls short, if it takes any. -/
def Answer.short (n : Nat) : Answer → Nat
  | .upTo k => n - max 1 k
  | .zero => 0
  | .fail => 0

/-- By how much the first `count` of some writes of `n` bytes fall short. -/
def shortfall (n : Nat) (answers : List Answer) (count : Nat) : Nat :=
  ((answers.take count).map (Answer.short n)).sum

theorem shortfall_zero (n : Nat) (answers : List Answer) : shortfall n answers 0 = 0 := by
  rw [shortfall, List.take_zero]
  rfl

theorem shortfall_succ (n : Nat) (answers : List Answer) (count : Nat) :
    shortfall n answers (count + 1) =
      shortfall n answers 1 + shortfall n answers.tail count := by
  cases answers with
  | nil =>
      rw [shortfall, shortfall, shortfall, List.tail_nil, List.take_nil, List.take_nil,
        List.take_nil]
      rfl
  | cons a rest =>
      rw [shortfall, shortfall, shortfall, List.take_succ_cons, List.take_succ_cons, List.tail_cons,
        List.take_zero, List.map_cons, List.map_singleton, List.sum_cons, List.sum_singleton]

/-- What a `read` leaves: its result, the bytes put in the buffer, the socket. -/
structure ReadResult where
  count : Int
  bytes : List Byte
  socket : Socket
  deriving DecidableEq, Repr

namespace Socket

/-- Hand over the next `m` bytes of the stream. -/
def deliver (s : Socket) (m : Nat) (rest : List Answer) : ReadResult :=
  ⟨(s.incoming.take m).length, s.incoming.take m,
    { s with incoming := s.incoming.drop m, readAnswers := rest }⟩

/-- `read(fd, buff, n)`. -/
def read (s : Socket) (n : Nat) : ReadResult :=
  match s.readAnswers with
  | [] => s.deliver (min n maxTransfer) []
  | .upTo k :: rest => s.deliver (min (max 1 k) (min n maxTransfer)) rest
  | .zero :: rest => ⟨0, [], { s with readAnswers := rest }⟩
  | .fail :: rest => ⟨-1, [], { s with readAnswers := rest }⟩

/-- The number of the `n` offered bytes a `write` takes when it succeeds. -/
def accepted (s : Socket) (n : Nat) : Nat :=
  match s.writeAnswers with
  | .upTo k :: _ => min (max 1 k) n
  | _ => n

/-- `write(fd, buff, n)` with `buff` holding `bytes`: the result and the socket afterwards.
A call that offers more than the buffer holds takes no more than it holds. -/
def write (s : Socket) (bytes : List Byte) (n : Nat) : Int × Socket :=
  match s.writeAnswers with
  | .zero :: rest => (0, { s with writeAnswers := rest })
  | .fail :: rest => (-1, { s with writeAnswers := rest })
  | answers =>
    ((bytes.take (s.accepted n)).length,
      { s with outgoing := s.outgoing ++ bytes.take (s.accepted n), writeAnswers := answers.tail })

/-- The socket with a kernel that takes the given counts of bytes, call by call. -/
def scheduled (s : Socket) (counts : List Nat) : Socket :=
  { s with writeAnswers := counts.map .upTo }

/-- The socket with more bytes put out. -/
def put (s : Socket) (bytes : List Byte) : Socket := { s with outgoing := s.outgoing ++ bytes }

@[simp] theorem put_nil (s : Socket) : s.put [] = s := by
  simp only [put, List.append_nil]

@[simp] theorem put_put (s : Socket) (a b : List Byte) : (s.put a).put b = s.put (a ++ b) := by
  simp only [put, List.append_assoc]

/-! ## What one call does -/

/-- While its answer lets bytes through, a read delivers up to the number asked for. -/
theorem read_upTo {s : Socket} (h : ∀ a ∈ s.readAnswers.head?, ∃ k, a = .upTo k) (n : Nat) :
    ∃ m, m ≤ min n maxTransfer ∧ (0 < n → 0 < m) ∧
      s.read n = s.deliver m s.readAnswers.tail := by
  have hmax : 0 < maxTransfer := by decide
  cases ha : s.readAnswers with
  | nil => exact ⟨min n maxTransfer, by omega, by omega, by simp only [read, ha, List.tail_nil]⟩
  | cons a rest =>
    obtain ⟨k, rfl⟩ := h a (by rw [ha]; rfl)
    exact ⟨min (max 1 k) (min n maxTransfer), by omega, by omega,
      by simp only [read, ha, List.tail_cons]⟩

/-- A `read` hands over bytes of the stream, in order, and its result is their number; or
it hands over none and its result is `-1`. -/
theorem read_spec (s : Socket) (n : Nat) :
    s.incoming = (s.read n).bytes ++ (s.read n).socket.incoming ∧
      (s.read n).bytes.length ≤ min n maxTransfer ∧
      ((s.read n).count = (s.read n).bytes.length ∨
        ((s.read n).bytes = [] ∧ (s.read n).count = -1)) := by
  by_cases h : ∀ a ∈ s.readAnswers.head?, ∃ k, a = .upTo k
  · obtain ⟨m, hm, -, hread⟩ := read_upTo h n
    rw [hread]
    refine ⟨(List.take_append_drop m s.incoming).symm, ?_, Or.inl rfl⟩
    simp only [deliver, List.length_take]
    omega
  · cases ha : s.readAnswers with
    | nil => simp [ha] at h
    | cons a rest =>
      cases a with
      | upTo k => simp [ha] at h
      | zero => simp [read, ha]
      | fail => simp [read, ha]

theorem read_length_le {s t : Socket} {n : Nat} {c : Int} {bs : List Byte}
    (h : s.read n = ⟨c, bs, t⟩) : bs.length ≤ n ∧ bs.length ≤ maxTransfer := by
  have hle := (s.read_spec n).2.1
  simp only [h] at hle
  omega

/-- A `read` leaves the writing side alone. -/
theorem read_frame (s : Socket) (n : Nat) :
    (s.read n).socket.outgoing = s.outgoing ∧
      (s.read n).socket.writeAnswers = s.writeAnswers := by
  cases ha : s.readAnswers with
  | nil => simp [read, ha, deliver]
  | cons a rest => cases a <;> simp [read, ha, deliver]

theorem read_count_eq {s : Socket} {n : Nat} (hc : (s.read n).count ≠ -1) :
    (s.read n).count = (s.read n).bytes.length := by
  rcases (s.read_spec n).2.2 with h | ⟨-, h⟩
  · exact h
  · exact absurd h hc

/-- A read that is neither `0` nor `-1` hands over at least one byte. -/
theorem read_count_pos {s : Socket} {n : Nat}
    (hc : ¬ ((s.read n).count = 0 ∨ (s.read n).count = -1)) : 0 < (s.read n).count := by
  have := @read_count_eq s n (by omega)
  omega

/-- A read that is `0` or `-1` hands over nothing. -/
theorem read_bytes_nil {s : Socket} {n : Nat}
    (hc : (s.read n).count = 0 ∨ (s.read n).count = -1) : (s.read n).bytes = [] := by
  rcases (s.read_spec n).2.2 with h | ⟨h, -⟩
  · exact List.length_eq_zero_iff.mp (by omega)
  · exact h

/-- A read returns `0` or `-1`, or it brings bytes. -/
theorem read_cases (s : Socket) (n : Nat) :
    (∃ c t, (c = 0 ∨ c = -1) ∧ s.read n = ⟨c, [], t⟩) ∨
      ∃ bs t, s.read n = ⟨bs.length, bs, t⟩ ∧ bs ≠ [] ∧ bs.length ≤ n := by
  by_cases hc : (s.read n).count = 0 ∨ (s.read n).count = -1
  · exact Or.inl ⟨_, (s.read n).socket, hc, by rw [← read_bytes_nil hc]⟩
  · have hread : s.read n = ⟨(s.read n).bytes.length, (s.read n).bytes, (s.read n).socket⟩ := by
      rw [← read_count_eq (by omega)]
    have hpos := read_count_pos hc
    rw [read_count_eq (by omega)] at hpos
    exact Or.inr ⟨_, _, hread, List.ne_nil_of_length_pos (Int.natCast_pos.mp hpos),
      (read_length_le hread).1⟩

/-- Asking for one byte or for many makes no difference to a read that delivers none. -/
theorem read_zero_iff {s : Socket} {n m : Nat} (hn : 0 < n) (hm : 0 < m) :
    (s.read n).count = 0 ↔ (s.read m).count = 0 := by
  have hmax : 0 < maxTransfer := by decide
  have hlen : ∀ k l, 0 < k → 0 < l → ((s.incoming.take k).length = 0 ↔
      (s.incoming.take l).length = 0) := by
    intro k l hk hl
    simp only [List.length_take]
    omega
  cases ha : s.readAnswers with
  | nil =>
    simp only [read, ha, deliver, Int.natCast_eq_zero]
    exact hlen _ _ (by omega) (by omega)
  | cons a rest =>
    cases a with
    | upTo k =>
      simp only [read, ha, deliver, Int.natCast_eq_zero]
      exact hlen _ _ (by omega) (by omega)
    | zero => simp only [read, ha]
    | fail => simp only [read, ha]

/-- What a write that takes bytes does. -/
theorem write_accepted {s : Socket} (bytes : List Byte) (n : Nat)
    (h : ∀ a ∈ s.writeAnswers, ∃ k, a = .upTo k) :
    s.write bytes n = (↑(bytes.take (s.accepted n)).length,
      { s with outgoing := s.outgoing ++ bytes.take (s.accepted n),
               writeAnswers := s.writeAnswers.tail }) := by
  cases ha : s.writeAnswers with
  | nil => simp only [write, ha]
  | cons a rest =>
    obtain ⟨k, rfl⟩ := h a (by rw [ha]; exact List.mem_cons_self)
    simp only [write, ha]

/-- A write to a socket whose kernel takes everything puts out the whole buffer. -/
theorem write_all {s : Socket} (h : s.writeAnswers = []) (bytes : List Byte) :
    s.write bytes bytes.length = (↑bytes.length, s.put bytes) := by
  simp only [write, accepted, put, h, List.take_length, List.tail_nil]

/-- A `write` returns `0` or `-1`, or how many bytes it took; the others are the shortfall. -/
theorem write_shortfall (s : Socket) {bytes : List Byte} (hne : bytes ≠ []) :
    ∃ count t, s.write bytes bytes.length = (count, t) ∧ t.incoming = s.incoming ∧
      t.readAnswers = s.readAnswers ∧ t.writeAnswers = s.writeAnswers.tail ∧
      (((count = 0 ∨ count = -1) ∧ shortfall bytes.length s.writeAnswers 1 = 0) ∨
        ∃ m : Nat, count = m ∧ 0 < m ∧ m ≤ bytes.length ∧
          bytes.length - m = shortfall bytes.length s.writeAnswers 1) := by
  have hpos : 0 < bytes.length := List.length_pos_iff.mpr hne
  cases ha : s.writeAnswers with
  | nil =>
      refine ⟨_, _, write_all ha bytes, rfl, rfl, ha, Or.inr ⟨_, rfl, hpos, le_refl _, ?_⟩⟩
      exact Nat.sub_self _
  | cons a rest =>
      have hshort : shortfall bytes.length (a :: rest) 1 = a.short bytes.length := by
        rw [shortfall, List.take_succ_cons, List.take_zero, List.map_singleton, List.sum_singleton]
      rw [hshort]
      cases a with
      | upTo k =>
          refine ⟨(bytes.take (min (max 1 k) bytes.length)).length, { s with
            outgoing := s.outgoing ++ bytes.take (min (max 1 k) bytes.length)
            writeAnswers := rest }, ?_, rfl, rfl, rfl, Or.inr ⟨_, rfl, ?_, ?_, ?_⟩⟩
          · simp only [write, accepted, ha, List.tail_cons]
          · rw [List.length_take]
            omega
          · exact List.length_take_le' _ _
          · rw [List.length_take, Answer.short]
            omega
      | zero =>
          refine ⟨0, { s with writeAnswers := rest }, ?_, rfl, rfl, rfl, Or.inl ⟨Or.inl rfl, rfl⟩⟩
          simp only [write, ha]
      | fail =>
          refine ⟨-1, { s with writeAnswers := rest }, ?_, rfl, rfl, rfl, Or.inl ⟨Or.inr rfl, rfl⟩⟩
          simp only [write, ha]

/-- A `write` puts out a leading part of the buffer and its result is the number of bytes, or it
puts out nothing and its result is `-1`. -/
theorem write_spec (s : Socket) (bytes : List Byte) (n : Nat) :
    ∃ k ≤ n, (s.write bytes n).2.outgoing = s.outgoing ++ bytes.take k ∧
      ((s.write bytes n).1 = (bytes.take k).length ∨ (k = 0 ∧ (s.write bytes n).1 = -1)) := by
  cases ha : s.writeAnswers with
  | nil =>
      refine ⟨n, le_refl n, ?_⟩
      simp [write, accepted, ha]
  | cons a rest =>
      cases a with
      | upTo k =>
          refine ⟨min (max 1 k) n, by omega, ?_⟩
          simp [write, accepted, ha]
      | zero =>
          refine ⟨0, Nat.zero_le n, ?_⟩
          simp [write, ha]
      | fail =>
          refine ⟨0, Nat.zero_le n, ?_⟩
          simp [write, ha]

/-! ## Gathering a number of bytes -/

/-- Successful reads, each asking for what is left of `n` bytes, deliver `bs`. -/
inductive Gathers : Socket → Nat → List Byte → Socket → Prop
  | nil (s : Socket) (n : Nat) : Gathers s n [] s
  | cons {s t u : Socket} {n : Nat} {bs cs : List Byte} (hread : s.read n = ⟨bs.length, bs, t⟩)
      (hne : bs ≠ []) (rest : Gathers t (n - bs.length) cs u) : Gathers s n (bs ++ cs) u

/-- Before `n` bytes have come, a read has the result `c`. -/
def Stops (c : Int) (s : Socket) (n : Nat) : Prop :=
  ∃ bs t u, Gathers s n bs t ∧ bs.length < n ∧ t.read (n - bs.length) = ⟨c, [], u⟩

/-- What stops a run of reads after a successful one stops the run from there. -/
theorem stops_cons {c : Int} {s t : Socket} {n : Nat} {bs : List Byte}
    (hread : s.read n = ⟨bs.length, bs, t⟩) (hne : bs ≠ []) :
    Stops c s n ↔ Stops c t (n - bs.length) := by
  constructor
  · rintro ⟨cs, u, v, hg, hlt, hstop⟩
    cases hg with
    | nil =>
        rw [List.length_nil, Nat.sub_zero, hread] at hstop
        cases hstop
        exact absurd rfl hne
    | cons hread' _ hrest =>
        obtain ⟨-, rfl, rfl⟩ := ReadResult.mk.inj (hread.symm.trans hread')
        rw [List.length_append] at hlt hstop
        exact ⟨_, u, v, hrest, by omega, by rw [Nat.sub_sub]; exact hstop⟩
  · rintro ⟨cs, u, v, hg, hlt, hstop⟩
    refine ⟨bs ++ cs, u, v, .cons hread hne hg, ?_, ?_⟩
    · rw [List.length_append]
      omega
    · rw [List.length_append, ← Nat.sub_sub]
      exact hstop

/-- A first read that returns `0` or `-1` is what a run of reads stops with. -/
theorem stops_first {c d : Int} {s t : Socket} {n : Nat} (hn : 0 < n)
    (hread : s.read n = ⟨d, [], t⟩) : Stops c s n ↔ d = c := by
  constructor
  · rintro ⟨cs, u, v, hg, -, hstop⟩
    cases hg with
    | nil =>
        rw [List.length_nil, Nat.sub_zero, hread] at hstop
        cases hstop
        rfl
    | cons hread' hne _ =>
        obtain ⟨-, hnil, -⟩ := ReadResult.mk.inj (hread.symm.trans hread')
        exact absurd hnil.symm hne
  · rintro rfl
    exact ⟨[], s, t, .nil s n, hn, hread⟩

theorem Gathers.incoming {s t : Socket} {n : Nat} {bs : List Byte} (h : Gathers s n bs t) :
    s.incoming = bs ++ t.incoming := by
  induction h with
  | nil => rfl
  | @cons s t u n bs cs hread _ _ ih =>
      have hsplit := (s.read_spec n).1
      rw [hread] at hsplit
      rw [List.append_assoc, ← ih]
      exact hsplit

/-- Every answer lets bytes through, so only an empty stream stops a read. -/
def Flowing (s : Socket) : Prop := ∀ a ∈ s.readAnswers, ∃ k, a = .upTo k

theorem Flowing.head {s : Socket} (h : s.Flowing) :
    ∀ a ∈ s.readAnswers.head?, ∃ k, a = .upTo k :=
  fun a ha => h a (List.mem_of_mem_head? ha)

theorem Flowing.tail {s : Socket} (h : s.Flowing) :
    ∀ a ∈ s.readAnswers.tail, ∃ k, a = .upTo k :=
  fun a ha => h a (List.mem_of_mem_tail ha)

theorem Flowing.read {s : Socket} (h : s.Flowing) {n : Nat} (hn : 0 < n)
    (hin : s.incoming ≠ []) :
    ∃ bs t, s.read n = ⟨bs.length, bs, t⟩ ∧ bs ≠ [] ∧ bs.length ≤ n ∧
      s.incoming = bs ++ t.incoming ∧ t.outgoing = s.outgoing ∧ t.Flowing := by
  have hpos : 0 < s.incoming.length := List.length_pos_iff.mpr hin
  obtain ⟨m, hm, hm0, hread⟩ := read_upTo h.head n
  have := hm0 hn
  refine ⟨_, _, hread, ?_, ?_, (List.take_append_drop m s.incoming).symm, rfl, h.tail⟩
  · apply List.ne_nil_of_length_pos
    rw [List.length_take]
    omega
  · rw [List.length_take]
    omega

/-- A read that asks for no more than a leading block of the stream stays within it. -/
theorem Flowing.read_within {s : Socket} (h : s.Flowing) {data rest : List Byte} {n : Nat}
    (hn : 0 < n) (hle : n ≤ data.length) (hin : s.incoming = data ++ rest) :
    ∃ bs tail t, s.read n = ⟨bs.length, bs, t⟩ ∧ bs ≠ [] ∧ data = bs ++ tail ∧
      t.incoming = tail ++ rest ∧ t.Flowing := by
  have hne : s.incoming ≠ [] := by
    apply List.ne_nil_of_length_pos
    rw [hin, List.length_append]
    omega
  obtain ⟨bs, t, hread, hbs, hlen, hsplit, -, ht⟩ := h.read hn hne
  obtain ⟨tail, rfl⟩ := List.prefix_of_prefix_length_le ⟨t.incoming, hsplit.symm⟩ ⟨rest, hin.symm⟩
    (hlen.trans hle)
  rw [hin, List.append_assoc, List.append_cancel_left_eq] at hsplit
  exact ⟨bs, tail, t, hread, hbs, rfl, hsplit.symm, ht⟩

/-- While bytes flow, any number of them that the stream holds is gathered. -/
theorem Flowing.gathers {n : Nat} :
    ∀ {s : Socket}, s.Flowing → n ≤ s.incoming.length →
      ∃ t, Gathers s n (s.incoming.take n) t ∧ t.incoming = s.incoming.drop n ∧
        t.outgoing = s.outgoing ∧ t.Flowing := by
  induction n using Nat.strong_induction_on with
  | _ n ih =>
    intro s hs hn
    rcases Nat.eq_zero_or_pos n with rfl | hpos
    · exact ⟨s, .nil s 0, rfl, rfl, hs⟩
    · have hin : s.incoming ≠ [] := by
        rintro hnil
        rw [hnil] at hn
        simp only [List.length_nil] at hn
        omega
      obtain ⟨bs, t, hread, hne, hle, hsplit, hout, ht⟩ := hs.read hpos hin
      have hbs : 0 < bs.length := List.length_pos_iff.mpr hne
      have hlen : s.incoming.length = bs.length + t.incoming.length := by
        rw [hsplit, List.length_append]
      obtain ⟨u, hu, hrest, hout', hflow⟩ := ih (n - bs.length) (by omega) ht (by omega)
      refine ⟨u, ?_, ?_, hout'.trans hout, hflow⟩
      · have htake : s.incoming.take n = bs ++ t.incoming.take (n - bs.length) := by
          rw [hsplit, List.take_append, List.take_of_length_le hle]
        rw [htake]
        exact .cons hread hne hu
      · rw [hrest, hsplit, List.drop_append, List.drop_of_length_le hle, List.nil_append]

theorem Flowing.read_nil {s : Socket} (h : s.Flowing) (hin : s.incoming = []) (n : Nat) :
    ∃ t, s.read n = ⟨0, [], t⟩ ∧ t.incoming = [] ∧ t.outgoing = s.outgoing ∧ t.Flowing := by
  obtain ⟨m, -, -, hread⟩ := read_upTo h.head n
  refine ⟨{ s with readAnswers := s.readAnswers.tail }, ?_, hin, rfl, h.tail⟩
  rw [hread, deliver, hin, List.take_nil, List.drop_nil]
  rfl

/-! ## Reading in pieces -/

/-- Successful reads, each asking for what is left of `n` bytes but for no more than `size`,
deliver `bs`. -/
inductive Pieces (size : Nat) : Socket → Nat → List Byte → Socket → Prop
  | nil (s : Socket) (n : Nat) : Pieces size s n [] s
  | cons {s t u : Socket} {n : Nat} {bs cs : List Byte}
      (hread : s.read (min n size) = ⟨bs.length, bs, t⟩) (hne : bs ≠ [])
      (rest : Pieces size t (n - bs.length) cs u) : Pieces size s n (bs ++ cs) u

/-- Before `n` bytes have come in such pieces, a read returns `0` or `-1`. -/
def Interrupted (size : Nat) (s : Socket) (n : Nat) : Prop :=
  ∃ c bs t u, (c = 0 ∨ c = -1) ∧ Pieces size s n bs t ∧ bs.length < n ∧
    t.read (min (n - bs.length) size) = ⟨c, [], u⟩

/-- A transfer that is interrupted after its first piece is interrupted. -/
theorem interrupted_cons {size n : Nat} {s t : Socket} {bs : List Byte}
    (hread : s.read (min n size) = ⟨bs.length, bs, t⟩) (hne : bs ≠ [])
    (h : Interrupted size t (n - bs.length)) : Interrupted size s n := by
  obtain ⟨c, cs, u, v, hc, hpieces, hlt, hlast⟩ := h
  refine ⟨c, bs ++ cs, u, v, hc, .cons hread hne hpieces, ?_, ?_⟩
  · rw [List.length_append]
    omega
  · rw [List.length_append, ← Nat.sub_sub]
    exact hlast

/-- All the bytes come, or the transfer is interrupted. -/
theorem pieces_total (size : Nat) {n : Nat} : ∀ s : Socket,
    (∃ bs t, Pieces size s n bs t ∧ bs.length = n) ∨ Interrupted size s n := by
  induction n using Nat.strong_induction_on with
  | _ n ih =>
    intro s
    rcases Nat.eq_zero_or_pos n with rfl | hpos
    · exact Or.inl ⟨[], s, .nil s 0, rfl⟩
    rcases s.read_cases (min n size) with ⟨c, t, hc, hread⟩ | ⟨bs, t, hread, hne, hle⟩
    · exact Or.inr ⟨c, [], s, t, hc, .nil s n, hpos, hread⟩
    · have hbs : 0 < bs.length := List.length_pos_iff.mpr hne
      rcases ih (n - bs.length) (by omega) t with ⟨cs, u, hpieces, hall⟩ | hstop
      · refine Or.inl ⟨bs ++ cs, u, .cons hread hne hpieces, ?_⟩
        rw [List.length_append]
        omega
      · exact Or.inr (interrupted_cons hread hne hstop)

end Socket

end Posix
