import Mathlib.Data.Nat.Digits.Defs
import GroupChat.Posix.Block

/-!
# `long int` in memory

`ofBytes` is the number that bytes of memory hold, with the lowest byte first, and `loadLong` reads
a `long int` of 64 bits from any address of a block.
-/

namespace Posix

/-- The number that bytes of memory hold. -/
def ofBytes (bs : List Byte) : Nat := Nat.ofDigits 256 (bs.map UInt8.toNat)

theorem ofBytes_cons (b : Byte) (bs : List Byte) : ofBytes (b :: bs) = b.toNat + 256 * ofBytes bs :=
  rfl

theorem ofBytes_zeros (n : Nat) : ofBytes (List.replicate n 0) = 0 := by
  rw [ofBytes, List.map_replicate]
  exact Nat.ofDigits_replicate_zero

theorem ofBytes_lt (bs : List Byte) : ofBytes bs < 256 ^ bs.length := by
  have hdigits : ∀ d ∈ bs.map UInt8.toNat, d < 256 := by
    intro d hd
    obtain ⟨b, -, rfl⟩ := List.mem_map.mp hd
    exact b.toNat_lt
  unfold ofBytes
  simpa only [List.length_map] using Nat.ofDigits_lt_base_pow_length (by decide) hdigits

theorem int64_ext {x y : Int64} (h : x.toUInt64.toNat = y.toUInt64.toNat) : x = y := by
  have hbits := UInt64.toNat_inj.mp h
  calc
    x = x.toUInt64.toInt64 := x.toInt64_toUInt64.symm
    _ = y.toUInt64.toInt64 := congrArg UInt64.toInt64 hbits
    _ = y := y.toInt64_toUInt64

namespace Block

variable {size : Nat}

/-- `*(long int*)(block + pos)` -/
def loadLong (b : Block size) (pos : Nat) : Except Fault Int64 :=
  if pos + 8 ≤ size then .ok (UInt64.ofNat (ofBytes (b.slice pos 8))).toInt64
  else .error .outOfBounds

theorem loadLong_ok {b : Block size} {pos : Nat} (h : pos + 8 ≤ size) :
    ∃ x, b.loadLong pos = .ok x ∧ x.toUInt64.toNat = ofBytes (b.slice pos 8) := by
  refine ⟨_, if_pos h, ?_⟩
  have hlt := ofBytes_lt (b.slice pos 8)
  rw [length_slice h] at hlt
  rw [UInt64.toUInt64_toInt64, UInt64.toNat_ofNat']
  exact Nat.mod_eq_of_lt hlt

end Block

end Posix
