import GroupChat.Wire.RoundTrip

/-!
# Sending a file that changes meanwhile

`send_file` announces what `ftell` returned and then writes what `fread` returns, until the
announced number is used up. Another thread may be writing the file, so the results of `fread` are
arbitrary here, and `ftell` may return any size. A file that has become shorter keeps the loop going
for ever (`sendPieces_endless`), one that has grown is sent on past its announced end.

`sendsAnnounced_iff` says that the announced number of bytes goes out exactly when the size is no
negative `int` and some of the first results of `fread` add up to it. A file below `2 ^ 31` bytes
that does not change is such a file (`sendsAnnounced_unchanged`).
-/

namespace GroupChat

open Posix Socket

/-- What the calls of `fread(buff, 1, sizeof(buff), read_fd)` return, one after the other. -/
structure FileReads where
  piece : Nat → List Byte
  short : ∀ i, (piece i).length ≤ 1024

/-- The reads of a file that nobody writes. -/
def FileReads.unchanged (data : List Byte) : FileReads where
  piece i := (data.drop (1024 * i)).take 1024
  short i := by
    rw [List.length_take]
    exact Nat.min_le_left _ _

/-- What the first `k` reads return, together. -/
def FileReads.firstReads (reads : FileReads) (k : Nat) : List Byte :=
  (List.range k).flatMap reads.piece

/-- The loop of `send_file`, before its read `i`. -/
def sendPieces (reads : FileReads) : Nat → Socket → Nat → Int → Option Socket
  | 0, _, _, _ => none
  | fuel + 1, s, i, fileSize =>
    if fileSize > 0 then
      let buff := reads.piece i
      sendPieces reads fuel (s.write buff buff.length).2 (i + 1) (fileSize - buff.length)
    else some s

/-- The header that `send_file` writes for a file whose size, as an `int`, is `fileSize`. -/
def announcement (gid : UInt8) (uid : UInt16) (fileSize : Int) : Mainhdr :=
  { createAndFillHdr SEND_FILE gid uid 0 with
    len := swap32 (UInt32.ofInt fileSize)
    uid := swap16 uid }

/-- `send_file` on a file that opens, of which `ftell` returns the size. -/
def sendFileReads (fuel : Nat) (s : Socket) (gid : UInt8) (uid : UInt16) (size : Nat)
    (reads : FileReads) : Option (Int × Socket) :=
  let fileSize := toInt32 size
  (sendPieces reads fuel (s.write (announcement gid uid fileSize).image sizeofMainhdr).2 0
    fileSize).map fun s' => (0, s')

/-- The header of that packet as the peer sees it. -/
def announced (gid : UInt8) (uid : UInt16) (size : Nat) : Mainhdr :=
  ⟨SEND_FILE, gid, uid, UInt32.ofInt (toInt32 size), []⟩

/-- `send_file` ends, and as many bytes follow its header as the header says. `write` takes all it
is offered. -/
def SendsAnnounced (s : Socket) (gid : UInt8) (uid : UInt16) (size : Nat) (reads : FileReads) :
    Prop :=
  ∃ bound t body,
    (∀ fuel ≥ bound, sendFileReads fuel (s.scheduled []) gid uid size reads = some (0, t)) ∧
      t.outgoing = s.outgoing ++ (announced gid uid size).wireHeader ++ body ∧
        body.length = (announced gid uid size).len.toNat

/-! ## The reads -/

section Reads

variable (reads : FileReads)

theorem firstReads_zero : reads.firstReads 0 = [] := rfl

theorem firstReads_succ (k : Nat) :
    reads.firstReads (k + 1) = reads.firstReads k ++ reads.piece k := by
  rw [FileReads.firstReads, List.range_succ, List.flatMap_append, List.flatMap_singleton]
  rfl

theorem length_firstReads_mono {j k : Nat} (h : j ≤ k) :
    (reads.firstReads j).length ≤ (reads.firstReads k).length := by
  induction h with
  | refl => exact le_refl _
  | step _ ih =>
      rw [firstReads_succ, List.length_append]
      omega

theorem firstReads_unchanged (data : List Byte) (k : Nat) :
    (FileReads.unchanged data).firstReads k = data.take (1024 * k) := by
  induction k with
  | zero => rfl
  | succ k ih =>
      rw [firstReads_succ, ih, Nat.mul_succ, List.take_add]
      rfl

end Reads

/-! ## The loop -/

section Loop

variable {reads : FileReads} {s : Socket}

theorem sendPieces_done {fuel i : Nat} {fileSize : Int} (h : fileSize ≤ 0) :
    sendPieces reads (fuel + 1) s i fileSize = some s := by
  rw [sendPieces, if_neg (by omega)]

theorem sendPieces_piece (hs : s.writeAnswers = []) {fuel i : Nat} {fileSize : Int}
    (h : 0 < fileSize) :
    sendPieces reads (fuel + 1) s i fileSize =
      sendPieces reads fuel (s.put (reads.piece i)) (i + 1)
        (fileSize - (reads.piece i).length) := by
  rw [sendPieces, if_pos h]
  simp only [write_all hs]

/-- While the reads fall short of the announced size, the loop goes on. -/
theorem sendPieces_first (hs : s.writeAnswers = []) {n fuel : Nat} {k : Nat}
    (h : ∀ j < k, (reads.firstReads j).length < n) :
    sendPieces reads (fuel + k) s 0 n =
      sendPieces reads fuel (s.put (reads.firstReads k)) k (n - (reads.firstReads k).length) := by
  induction k generalizing fuel with
  | zero => rw [firstReads_zero, put_nil, List.length_nil, Nat.add_zero, Nat.cast_zero, sub_zero]
  | succ k ih =>
      have hk := h k (Nat.lt_succ_self k)
      have hleft : (n : Int) - (reads.firstReads k).length - (reads.piece k).length =
          n - (reads.firstReads (k + 1)).length := by
        rw [firstReads_succ, List.length_append]
        omega
      rw [show fuel + (k + 1) = fuel + 1 + k by omega, ih fun j hj => h j (by omega),
        sendPieces_piece (s := s.put (reads.firstReads k)) hs (by omega), hleft, put_put, ← firstReads_succ]

/-- A file that has become shorter than announced is read for ever. -/
theorem sendPieces_endless (hs : s.writeAnswers = []) {n : Nat}
    (h : ∀ k, (reads.firstReads k).length < n) (fuel : Nat) :
    sendPieces reads fuel s 0 n = none := by
  have hrun : sendPieces reads (0 + fuel) s 0 n = none :=
    sendPieces_first hs fun j _ => h j
  rw [Nat.zero_add] at hrun
  exact hrun

/-- Otherwise the loop stops after the first reads that are enough. -/
theorem sendPieces_enough (hs : s.writeAnswers = []) {n k : Nat}
    (hbefore : ∀ j < k, (reads.firstReads j).length < n) (henough : n ≤ (reads.firstReads k).length)
    {fuel : Nat} (hfuel : k < fuel) :
    sendPieces reads fuel s 0 n = some (s.put (reads.firstReads k)) := by
  obtain ⟨more, rfl⟩ : ∃ more, fuel = more + 1 + k := ⟨fuel - k - 1, by omega⟩
  rw [sendPieces_first hs hbefore, sendPieces_done (by omega)]

end Loop

/-! ## What is sent -/

variable (s : Socket) (gid : UInt8) (uid : UInt16) (size : Nat) (reads : FileReads)

/-- The header goes out first. -/
theorem sendFileReads_header (fuel : Nat) :
    sendFileReads fuel (s.scheduled []) gid uid size reads =
      (sendPieces reads fuel ((s.scheduled []).put (announced gid uid size).wireHeader) 0
        (toInt32 size)).map fun s' => (0, s') := by
  have himage := image_swapped (announced gid uid size)
  rw [Mainhdr.wire, show (announced gid uid size).payload = [] from rfl, List.append_nil] at himage
  have hwrite := write_all (s := s.scheduled []) rfl (announced gid uid size).wireHeader
  rw [length_wireHeader, ← himage] at hwrite
  rw [sendFileReads, ← himage]
  simp only [announcement, createAndFillHdr]
  simp only [announced] at hwrite ⊢
  rw [hwrite]

/-- The length that a size becomes: the `int` again, or what is left of a negative one. -/
theorem announced_len :
    ((announced gid uid size).len.toNat : Int) = toInt32 size % 2 ^ 32 := by
  rw [announced, UInt32.ofInt, UInt32.toNat_ofNat']
  omega

/-- What goes out when the size is an `int`: all the reads up to the first that are enough. -/
theorem sendFileReads_enough {n k : Nat} (hsize : toInt32 size = n)
    (hbefore : ∀ j < k, (reads.firstReads j).length < n) (henough : n ≤ (reads.firstReads k).length)
    {fuel : Nat} (hfuel : k < fuel) :
    sendFileReads fuel (s.scheduled []) gid uid size reads =
      some (0, (s.scheduled []).put
        ((announced gid uid size).wireHeader ++ reads.firstReads k)) := by
  rw [sendFileReads_header, hsize,
    sendPieces_enough (s := (s.scheduled []).put _) rfl hbefore henough hfuel, put_put]
  rfl

/-- Reads that add up to the size are sent and no others. -/
theorem sendsAnnounced_of_reads {k : Nat}
    (hk : ((reads.firstReads k).length : Int) = toInt32 size) :
    SendsAnnounced s gid uid size reads := by
  have hlen := announced_len gid uid size
  have hrange := toInt32_mem size
  obtain ⟨n, hn⟩ := Int.eq_ofNat_of_zero_le (show 0 ≤ toInt32 size by omega)
  have hkn : n ≤ (reads.firstReads k).length := by omega
  have hreach : ∃ k, n ≤ (reads.firstReads k).length := ⟨k, hkn⟩
  have hbefore : ∀ j < Nat.find hreach, (reads.firstReads j).length < n :=
    fun j hj => not_le.mp (Nat.find_min hreach hj)
  have hmono := length_firstReads_mono reads (Nat.find_min' hreach hkn)
  have henough := Nat.find_spec hreach
  refine ⟨Nat.find hreach + 1, _, reads.firstReads (Nat.find hreach), fun fuel hfuel =>
    sendFileReads_enough s gid uid size reads hn hbefore henough hfuel, ?_, by omega⟩
  rw [List.append_assoc]
  rfl

/-- What has been sent as announced are reads that add up to the size. -/
theorem reads_of_sendsAnnounced (h : SendsAnnounced s gid uid size reads) :
    ∃ k, ((reads.firstReads k).length : Int) = toInt32 size := by
  have hlen := announced_len gid uid size
  have hrange := toInt32_mem size
  obtain ⟨bound, t, body, hsent, hout, hbody⟩ := h
  rcases lt_or_ge (toInt32 size) 0 with hneg | hpos
  · have hnothing := hsent (bound + 1) (Nat.le_succ bound)
    rw [sendFileReads_header, sendPieces_done (by omega)] at hnothing
    cases hnothing
    have hnil : body = [] := List.append_right_eq_self.mp hout.symm
    rw [hnil, List.length_nil] at hbody
    omega
  · obtain ⟨n, hn⟩ := Int.eq_ofNat_of_zero_le hpos
    by_cases hreach : ∃ k, n ≤ (reads.firstReads k).length
    · have hbefore : ∀ j < Nat.find hreach, (reads.firstReads j).length < n :=
        fun j hj => not_le.mp (Nat.find_min hreach hj)
      have hres := sendFileReads_enough s gid uid size reads hn hbefore (Nat.find_spec hreach)
        (lt_of_lt_of_le (Nat.lt_succ_self _) (Nat.le_max_right bound (Nat.find hreach + 1)))
      rw [hsent _ (Nat.le_max_left _ _)] at hres
      cases hres
      rw [List.append_assoc] at hout
      have hsame : body = reads.firstReads (Nat.find hreach) :=
        (List.append_cancel_left (List.append_cancel_left hout)).symm
      refine ⟨Nat.find hreach, ?_⟩
      rw [← hsame]
      omega
    · have hshort : ∀ k, (reads.firstReads k).length < n :=
        fun k => not_le.mp fun hk => hreach ⟨k, hk⟩
      have hnever := hsent bound (le_refl bound)
      rw [sendFileReads_header, hn, sendPieces_endless rfl hshort] at hnever
      cases hnever

/-- The announced number of bytes goes out exactly when the first reads, up to some one, add up to
the size as an `int`. -/
theorem sendsAnnounced_iff :
    SendsAnnounced s gid uid size reads ↔
      ∃ k, ((reads.firstReads k).length : Int) = toInt32 size := by
  constructor
  · exact reads_of_sendsAnnounced s gid uid size reads
  · rintro ⟨k, hk⟩
    exact sendsAnnounced_of_reads s gid uid size reads hk

/-- A file that has been announced with one byte and is empty by now is read for ever. -/
theorem emptied_file_never_sent : ¬ ∀ (s : Socket) (gid : UInt8) (uid : UInt16) (size : Nat)
    (reads : FileReads), SendsAnnounced s gid uid size reads := by
  intro h
  obtain ⟨bound, t, body, hsent, -⟩ := h ⟨[], [], [], []⟩ 0 0 1 (.unchanged [])
  have hnever := hsent bound (le_refl bound)
  have hshort : ∀ k, ((FileReads.unchanged []).firstReads k).length < 1 := by
    intro k
    rw [firstReads_unchanged, List.take_nil]
    exact Nat.zero_lt_one
  have hone : toInt32 (1 : Nat) = (1 : Nat) := toInt32_of_lt (by decide)
  rw [sendFileReads_header, hone, sendPieces_endless rfl hshort] at hnever
  cases hnever

/-! ## A file that does not change -/

/-- The loop on a file nobody writes is the loop over its content. -/
theorem sendPieces_unchanged (data : List Byte) {fuel : Nat} : ∀ {s : Socket} {i : Nat}
    {fileSize : Int}, sendPieces (.unchanged data) fuel s i fileSize =
      sendFileLoop fuel s (data.drop (1024 * i)) fileSize := by
  induction fuel with
  | zero => intro s i fileSize; rfl
  | succ fuel ih =>
      intro s i fileSize
      rw [sendPieces, sendFileLoop, ih, List.drop_drop]
      rfl

theorem sendFileReads_unchanged (data : List Byte) (fuel : Nat) :
    sendFileReads fuel s gid uid data.length (.unchanged data) = sendFile fuel s gid uid data := by
  rw [sendFileReads, sendFile, sendPieces_unchanged]
  rfl

/-- A file that does not change goes out as announced when its size is an `int`. -/
theorem sendsAnnounced_unchanged (data : List Byte) (hfits : data.length < 2 ^ 31) :
    SendsAnnounced s gid uid data.length (.unchanged data) := by
  have hall : (FileReads.unchanged data).firstReads data.length = data := by
    rw [firstReads_unchanged, List.take_of_length_le (by omega)]
  apply sendsAnnounced_of_reads (k := data.length)
  rw [hall, toInt32_of_lt hfits]

end GroupChat
