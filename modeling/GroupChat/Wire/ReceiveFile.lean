import GroupChat.Wire

/-!
# Receiving a file under every behaviour of `read`

The loop of `receive_to_file` takes what `read` returned off the remaining count without looking
at it. While bytes come it does what it should (`receiveLoop_pieces`). A `-1` goes to `fwrite` as
a count (`receiveToFile_failed`), and a `0` changes nothing, so after the end of the stream the
loop asks for the same bytes for ever (`receiveToFile_disconnected`).

`receivesFile_iff` says that the function ends properly exactly when no read returns `0` or `-1`
before the announced bytes have come.
-/

namespace GroupChat

open Posix Socket

/-- `sizeof(buff)`. -/
def sizeofBuff : Nat := 1024

/-- What `receive_to_file` is to do with `len` announced bytes, whatever `read` returns: it comes
to an end, no negative count gets to `fwrite`, and a transfer that `read` cuts short is reported. -/
structure ReceivesFile (s : Socket) (len : Int) : Prop where
  ends : ∃ bound, ∀ fuel ≥ bound, receiveToFile fuel s len ≠ none
  counts : ∀ fuel fault, receiveToFile fuel s len ≠ some (.error fault)
  reports : Interrupted sizeofBuff s len.toNat → ∀ fuel ret content t,
    receiveToFile fuel s len = some (.ok (ret, content, t)) → ret ≠ 0

/-! ## One turn of the loop -/

section Loop

variable {fuel n : Nat} {s t : Socket} {bs written : List Byte}

theorem receiveLoop_done {len : Int} (h : len ≤ 0) :
    receiveLoop (fuel + 1) s len written = some (.ok (written, s)) := by
  rw [receiveLoop, if_neg (by omega)]

/-- Each turn asks for what is left, or for a full buffer. -/
theorem receiveLoop_turn (hn : 0 < n) :
    receiveLoop (fuel + 1) s n written =
      if (s.read (min n sizeofBuff)).count < 0 then some (.error .outOfBounds)
      else receiveLoop fuel (s.read (min n sizeofBuff)).socket
        (n - (s.read (min n sizeofBuff)).count)
        (written ++ (s.read (min n sizeofBuff)).bytes) := by
  have hask : (if ((n : Nat) : Int) < 1024 then ((n : Nat) : Int).toNat else 1024) =
      min n sizeofBuff := by
    unfold sizeofBuff
    split <;> omega
  rw [receiveLoop, if_pos (by omega), hask]

theorem receiveLoop_bytes (hn : 0 < n)
    (hread : s.read (min n sizeofBuff) = ⟨bs.length, bs, t⟩) :
    receiveLoop (fuel + 1) s n written =
      receiveLoop fuel t ((n - bs.length : Nat) : Int) (written ++ bs) := by
  have hle := (read_length_le hread).1
  have hleft : ((n : Nat) : Int) - (bs.length : Nat) = ((n - bs.length : Nat) : Int) := by
    omega
  rw [receiveLoop_turn hn, hread]
  simp only [hleft]
  rw [if_neg (by omega)]

theorem receiveLoop_zero (hn : 0 < n) (hread : s.read (min n sizeofBuff) = ⟨0, [], t⟩) :
    receiveLoop (fuel + 1) s n written = receiveLoop fuel t n written := by
  have hzero : receiveLoop (fuel + 1) s n written =
      receiveLoop fuel t ((n - ([] : List Byte).length : Nat) : Int) (written ++ []) :=
    receiveLoop_bytes hn hread
  rw [hzero, List.append_nil]
  rfl

theorem receiveLoop_failed (hn : 0 < n)
    (hread : s.read (min n sizeofBuff) = ⟨-1, [], t⟩) :
    receiveLoop (fuel + 1) s n written = some (.error .outOfBounds) := by
  rw [receiveLoop_turn hn, hread]
  rfl

end Loop

/-! ## Runs of the loop -/

/-- While bytes come, every turn stores a piece and counts it off. -/
theorem receiveLoop_pieces {s t : Socket} {n : Nat} {bs : List Byte}
    (h : Pieces sizeofBuff s n bs t) :
    ∃ turns ≤ bs.length, ∀ fuel (written : List Byte),
      receiveLoop (fuel + turns) s n written =
        receiveLoop fuel t ((n - bs.length : Nat) : Int) (written ++ bs) := by
  induction h with
  | nil s n =>
      refine ⟨0, le_refl _, fun fuel written => ?_⟩
      rw [List.append_nil]
      rfl
  | @cons s t u n bs cs hread hne _ ih =>
      obtain ⟨turns, hturns, hloop⟩ := ih
      have hbs : 0 < bs.length := List.length_pos_iff.mpr hne
      have hle := (read_length_le hread).1
      refine ⟨turns + 1, ?_, fun fuel written => ?_⟩
      · rw [List.length_append]
        omega
      · rw [← Nat.add_assoc, receiveLoop_bytes (by omega) hread, hloop, List.append_assoc,
          List.length_append, Nat.sub_sub]

/-- When all the announced bytes come, they are stored and the result is `0`. -/
theorem receiveToFile_complete {s t : Socket} {n : Nat} {bs : List Byte}
    (h : Pieces sizeofBuff s n bs t) (hall : bs.length = n) {fuel : Nat} (hfuel : n < fuel) :
    receiveToFile fuel s n = some (.ok (0, bs, t)) := by
  obtain ⟨turns, hturns, hloop⟩ := receiveLoop_pieces h
  obtain ⟨k, rfl⟩ : ∃ k, fuel = k + 1 + turns := ⟨fuel - turns - 1, by omega⟩
  rw [receiveToFile, hloop, hall, Nat.sub_self, List.nil_append, receiveLoop_done (by omega)]
  rfl

/-- A read that fails before the announced bytes have come makes a negative count. -/
theorem receiveToFile_failed {s t u : Socket} {n : Nat} {bs : List Byte}
    (h : Pieces sizeofBuff s n bs t) (hlt : bs.length < n)
    (hread : t.read (min (n - bs.length) sizeofBuff) = ⟨-1, [], u⟩) {fuel : Nat}
    (hfuel : n < fuel) : receiveToFile fuel s n = some (.error .outOfBounds) := by
  obtain ⟨turns, hturns, hloop⟩ := receiveLoop_pieces h
  obtain ⟨k, rfl⟩ : ∃ k, fuel = k + 1 + turns := ⟨fuel - turns - 1, by omega⟩
  rw [receiveToFile, hloop, receiveLoop_failed (by omega) hread]
  rfl

/-- After the end of the stream the loop goes on for ever: a stream that ends is still at its
end after the read, and as much is left to do. -/
theorem receiveLoop_endless {fuel n : Nat} : ∀ {s : Socket} (written : List Byte), s.Flowing →
    s.incoming.length < n → receiveLoop fuel s n written = none := by
  induction fuel generalizing n with
  | zero => intro s written _ _; rfl
  | succ fuel ih =>
      intro s written hs hlt
      have hn : 0 < n := by omega
      by_cases hin : s.incoming = []
      · obtain ⟨t, hread, hnil, -, ht⟩ := hs.read_nil hin (min n sizeofBuff)
        rw [receiveLoop_zero hn hread]
        apply ih written ht
        rw [hnil]
        exact hn
      · have hask : 0 < min n sizeofBuff := lt_min hn (by decide)
        obtain ⟨bs, t, hread, hne, hle, hsplit, -, ht⟩ := hs.read hask hin
        rw [receiveLoop_bytes hn hread]
        apply ih _ ht
        rw [hsplit, List.length_append] at hlt
        omega

/-- A peer that hangs up in the middle of a file is waited for without end. -/
theorem receiveToFile_disconnected {s : Socket} {n : Nat} (hs : s.Flowing)
    (hlt : s.incoming.length < n) (fuel : Nat) : receiveToFile fuel s n = none := by
  rw [receiveToFile, receiveLoop_endless [] hs hlt]
  rfl

/-! ## When the function ends properly -/

/-- Nothing else is ever returned. -/
theorem receiveToFile_zero {fuel : Nat} {s t : Socket} {len ret : Int} {content : List Byte}
    (h : receiveToFile fuel s len = some (.ok (ret, content, t))) : ret = 0 := by
  unfold receiveToFile at h
  cases hloop : receiveLoop fuel s len [] with
  | none =>
      rw [hloop] at h
      cases h
  | some r =>
      rw [hloop] at h
      cases r with
      | error fault => cases h
      | ok r =>
          cases h
          rfl

/-- Too little fuel is a loop still running, never another result. -/
theorem receiveLoop_mono {fuel : Nat} {r : Except Fault (List Byte × Socket)} :
    ∀ {s : Socket} {len : Int} {written : List Byte}, receiveLoop fuel s len written = some r →
      receiveLoop (fuel + 1) s len written = some r := by
  induction fuel with
  | zero =>
      intro s len written h
      cases h
  | succ fuel ih =>
      intro s len written h
      unfold receiveLoop at h ⊢
      by_cases hpos : len > 0
      · simp only [if_pos hpos] at h ⊢
        generalize s.read (if len < 1024 then len.toNat else 1024) = recv at h ⊢
        by_cases hneg : recv.count < 0
        · rw [if_pos hneg] at h ⊢
          exact h
        · rw [if_neg hneg] at h ⊢
          exact ih h
      · rw [if_neg hpos] at h ⊢
        exact h

theorem receiveToFile_mono {fuel more : Nat} (hle : fuel ≤ more) {s : Socket} {len : Int}
    {r : Except Fault (Int × List Byte × Socket)} (h : receiveToFile fuel s len = some r) :
    receiveToFile more s len = some r := by
  unfold receiveToFile at h ⊢
  obtain ⟨x, hloop, hx⟩ := Option.map_eq_some_iff.mp h
  rw [Option.map_eq_some_iff]
  refine ⟨x, ?_, hx⟩
  induction hle with
  | refl => exact hloop
  | step _ ih => exact receiveLoop_mono ih

/-- A transfer that is not interrupted comes to its end. A length that is no positive `int` asks
for nothing. -/
theorem receiveToFile_total {s : Socket} {len : Int}
    (h : ¬ Interrupted sizeofBuff s len.toNat) :
    ∃ content t, ∀ fuel > len.toNat, receiveToFile fuel s len = some (.ok (0, content, t)) := by
  rcases lt_or_ge 0 len with hpos | hneg
  · obtain ⟨bs, t, hpieces, hall⟩ := (pieces_total sizeofBuff s).resolve_right h
    refine ⟨bs, t, fun fuel hfuel => ?_⟩
    have hcomplete := receiveToFile_complete hpieces hall hfuel
    rw [Int.toNat_of_nonneg (le_of_lt hpos)] at hcomplete
    exact hcomplete
  · refine ⟨[], s, fun fuel hfuel => ?_⟩
    obtain ⟨k, rfl⟩ := Nat.exists_eq_add_one.mpr (Nat.zero_lt_of_lt hfuel)
    rw [receiveToFile, receiveLoop_done hneg]
    rfl

/-- The function does what it is to do exactly when `read` neither fails nor finds the end of the
stream before the announced bytes have come. -/
theorem receivesFile_iff (s : Socket) (len : Int) :
    ReceivesFile s len ↔ ¬ Interrupted sizeofBuff s len.toNat := by
  constructor
  · intro h hstop
    obtain ⟨bound, hends⟩ := h.ends
    cases hres : receiveToFile bound s len with
    | none => exact hends bound (le_refl bound) hres
    | some r =>
        cases r with
        | error fault => exact h.counts bound fault hres
        | ok r => exact h.reports hstop bound r.1 r.2.1 r.2.2 hres (receiveToFile_zero hres)
  · intro hgo
    obtain ⟨content, t, hdone⟩ := receiveToFile_total hgo
    constructor
    · refine ⟨len.toNat + 1, fun fuel hfuel => ?_⟩
      rw [hdone fuel hfuel]
      exact Option.some_ne_none _
    · intro fuel fault hres
      have hmore := receiveToFile_mono (Nat.le_max_left fuel (len.toNat + 1)) hres
      rw [hdone _ (Nat.le_max_right fuel (len.toNat + 1))] at hmore
      cases hmore
    · intro hstop
      exact absurd hstop hgo

/-- One byte is announced and the peer hangs up: the loop never ends. -/
theorem upload_cut_short : ¬ ∀ (s : Socket) (len : Int), ReceivesFile s len := by
  intro h
  obtain ⟨bound, hends⟩ := (h ⟨[], [], [], []⟩ 1).ends
  refine hends bound (le_refl bound) ?_
  exact receiveToFile_disconnected (n := 1) (by simp [Flowing]) (by decide) bound

end GroupChat
