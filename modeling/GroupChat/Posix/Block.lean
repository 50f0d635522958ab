import GroupChat.Posix.CString

/-!
# Blocks of memory

A `Block size` is an array or a structure member of `size` bytes. `memcpy` and `memset` write a part
of it and fault when the part does not lie within; `slice` is what a read of a part finds.
-/

namespace Posix

structure Block (size : Nat) where
  bytes : List Byte
  full : bytes.length = size
  deriving DecidableEq

/-- A part of an array replaced. -/
def overwrite (buf : List Byte) (pos : Nat) (bs : List Byte) : List Byte :=
  buf.take pos ++ bs ++ buf.drop (pos + bs.length)

theorem length_overwrite {buf bs : List Byte} {pos : Nat} (h : pos + bs.length ≤ buf.length) :
    (overwrite buf pos bs).length = buf.length := by
  rw [overwrite, List.length_append, List.length_append, List.length_take, List.length_drop]
  omega

theorem overwrite_zero (buf bs : List Byte) :
    overwrite buf 0 bs = bs ++ buf.drop bs.length := by
  rw [overwrite, List.take_zero, List.nil_append, Nat.zero_add]

theorem overwrite_append (s t bs : List Byte) :
    overwrite (s ++ t) s.length bs = s ++ (bs ++ t.drop bs.length) := by
  rw [overwrite, List.take_left, ← List.drop_drop, List.drop_left, List.append_assoc]

/-- What lies before the part. -/
theorem take_overwrite {buf bs : List Byte} {pos k : Nat} (hk : k ≤ pos) (hpos : pos ≤ buf.length) :
    (overwrite buf pos bs).take k = buf.take k := by
  have hlen : (buf.take pos).length = pos := by
    rw [List.length_take]
    omega
  rw [overwrite, List.append_assoc, List.take_append_of_le_length (by omega), List.take_take,
    Nat.min_eq_left hk]

/-- The part and what lies after it. -/
theorem drop_overwrite {buf bs : List Byte} {pos : Nat} (hpos : pos ≤ buf.length) :
    (overwrite buf pos bs).drop pos = bs ++ buf.drop (pos + bs.length) := by
  have hlen : (buf.take pos).length = pos := by
    rw [List.length_take]
    omega
  rw [overwrite, List.append_assoc, List.drop_left' hlen]

/-- What an array is from some point on does not change exactly when it is written again. -/
theorem drop_overwrite_zero_iff {buf bs : List Byte} {k : Nat} :
    (overwrite buf 0 bs).drop k = buf.drop k ↔ bs.drop k <+: buf.drop k := by
  rw [overwrite_zero, List.prefix_iff_eq_append]
  rcases Nat.le_total k bs.length with hle | hge
  · rw [List.drop_append_of_le_length hle, List.drop_drop, List.length_drop,
      Nat.add_sub_cancel' hle]
  · have hnil : bs.drop k = [] := List.drop_eq_nil_of_le hge
    have hsum : bs.length + (k - bs.length) = k := by omega
    rw [List.drop_append, hnil, List.drop_drop, hsum]
    simp

namespace Block

variable {size : Nat}

def zeros (size : Nat) : Block size := ⟨List.replicate size 0, List.length_replicate⟩

/-- The `len` bytes from `pos`. -/
def slice (b : Block size) (pos len : Nat) : List Byte := (b.bytes.drop pos).take len

/-- `memcpy(block + pos, bs, len)` with `bs` the `len` bytes at the source. -/
def memcpy (b : Block size) (pos : Nat) (bs : List Byte) : Except Fault (Block size) :=
  if h : pos + bs.length ≤ size then
    .ok ⟨overwrite b.bytes pos bs, (length_overwrite (b.full.symm ▸ h)).trans b.full⟩
  else .error .outOfBounds

/-- `memset(block + pos, byte, len)` -/
def memset (b : Block size) (pos : Nat) (byte : Byte) (len : Nat) : Except Fault (Block size) :=
  b.memcpy pos (List.replicate len byte)

/-- `strncpy(block, src, n)` -/
def strncpy (b : Block size) (src : List Byte) (n : Nat) : Except Fault (Block size) := do
  b.memcpy 0 (← strncpyBytes src n)

@[simp] theorem length_slice {b : Block size} {pos len : Nat} (h : pos + len ≤ size) :
    (b.slice pos len).length = len := by
  rw [slice, List.length_take, List.length_drop, b.full]
  omega

theorem memcpy_ok {b : Block size} {pos : Nat} {bs : List Byte} (h : pos + bs.length ≤ size) :
    ∃ b', b.memcpy pos bs = .ok b' ∧ b'.bytes = overwrite b.bytes pos bs := by
  rw [memcpy, dif_pos h]
  exact ⟨_, rfl, rfl⟩

theorem memcpy_eq_ok {b b' : Block size} {pos : Nat} {bs : List Byte} :
    b.memcpy pos bs = .ok b' ↔ pos + bs.length ≤ size ∧ b'.bytes = overwrite b.bytes pos bs := by
  rw [memcpy]
  split
  · rename_i h
    constructor
    · intro heq
      cases heq
      exact ⟨h, rfl⟩
    · rintro ⟨-, hbytes⟩
      cases b' with
      | mk bytes full =>
          cases hbytes
          rfl
  · rename_i h
    constructor
    · intro heq
      cases heq
    · rintro ⟨hle, -⟩
      exact absurd hle h

end Block

end Posix
