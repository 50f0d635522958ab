import Mathlib.Data.List.Basic
import Mathlib.Tactic

/-!
# Bytes, C integers and faults

The vocabulary the other `Posix` modules share: bytes, the conversions a C program
makes between `int` and `size_t`, the byte order of 16- and 32-bit integers in memory,
and the faults a C program can run into. The machine is little-endian and has 32-bit
`int` and 64-bit `size_t`.
-/

namespace Posix

abbrev Byte := UInt8

abbrev ThreadId := Nat

/-- What makes the behaviour of a C program undefined. -/
inductive Fault
  /-- a null pointer is dereferenced -/
  | nullPointer
  /-- an array is read or written past its end -/
  | outOfBounds
  /-- a signed operation or a conversion leaves the range of its type -/
  | overflow
  /-- a block is used after it has been freed -/
  | useAfterFree
  deriving DecidableEq, Repr

/-- A computation that returns has returned from its first part. -/
theorem bind_eq_ok {α β : Type} {x : Except Fault α} {f : α → Except Fault β} {b : β} :
    (x >>= f) = .ok b ↔ ∃ a, x = .ok a ∧ f a = .ok b := by
  cases x with
  | error fault =>
      constructor
      · intro h
        cases h
      · rintro ⟨a, ha, -⟩
        cases ha
  | ok a =>
      constructor
      · intro h
        exact ⟨a, rfl, h⟩
      · rintro ⟨a', ha, h⟩
        exact Except.ok.inj ha ▸ h

theorem ok_bind {α β : Type} (a : α) (f : α → Except Fault β) : (Except.ok a >>= f) = f a := rfl

/-! ## Integer conversions -/

/-- The value an integer has after conversion to `int`. -/
def toInt32 (n : Int) : Int := n.bmod (2 ^ 32)

/-- The result of a signed operation, which has to be an `int`. -/
def intResult (n : Int) : Except Fault Int :=
  if n < -2 ^ 31 ∨ 2 ^ 31 ≤ n then .error .overflow else .ok n

/-- The value an integer has after conversion to `size_t`. -/
def toSizeT (n : Int) : Nat := (n % 2 ^ 64).toNat

@[simp] theorem toInt32_of_lt {n : Nat} (h : n < 2 ^ 31) : toInt32 n = n := by
  unfold toInt32
  rw [Int.bmod_def]
  split <;> omega

/-- A large number whose low 32 bits make a positive `int` becomes that one. -/
theorem toInt32_of_mod {n : Nat} (h : n % 2 ^ 32 < 2 ^ 31) : toInt32 n = (n % 2 ^ 32 : Nat) := by
  unfold toInt32
  rw [Int.bmod_def]
  split <;> omega

theorem toInt32_of_ge {n : Nat} (h : 2 ^ 31 ≤ n) (h' : n < 2 ^ 32) :
    toInt32 n = n - 2 ^ 32 := by
  unfold toInt32
  rw [Int.bmod_def]
  split <;> omega

@[simp] theorem toSizeT_of_lt {n : Nat} (h : n < 2 ^ 64) : toSizeT n = n := by
  unfold toSizeT
  omega

theorem toSizeT_pred {n : Nat} (hpos : 0 < n) (hn : n < 2 ^ 64) :
    toSizeT ((n : Int) - 1) = n - 1 := by
  unfold toSizeT
  omega

theorem intResult_of_mem {n : Int} (h : -2 ^ 31 ≤ n) (h' : n < 2 ^ 31) :
    intResult n = .ok n := by
  rw [intResult, if_neg (by omega)]

theorem intResult_eq_ok {n k : Int} :
    intResult n = .ok k ↔ k = n ∧ -2 ^ 31 ≤ n ∧ n < 2 ^ 31 := by
  rw [intResult]
  split
  · constructor
    · intro h
      cases h
    · rintro ⟨-, hlow, hhigh⟩
      omega
  · constructor
    · intro h
      exact ⟨(Except.ok.inj h).symm, by omega, by omega⟩
    · rintro ⟨rfl, -⟩
      rfl

/-- The conversion to `int` makes an `int`. -/
theorem toInt32_mem (n : Int) : -2 ^ 31 ≤ toInt32 n ∧ toInt32 n < 2 ^ 31 := by
  unfold toInt32
  rw [Int.bmod_def]
  split <;> omega

theorem toInt32_eq_zero {n : Nat} (h : n < 2 ^ 32) : toInt32 n = 0 ↔ n = 0 := by
  rcases Nat.lt_or_ge n (2 ^ 31) with hlt | hge
  · rw [toInt32_of_lt hlt]
    omega
  · rw [toInt32_of_ge hge h]
    omega

theorem toInt32_eq_neg_one {n : Nat} (h : n < 2 ^ 32) : toInt32 n = -1 ↔ n = 2 ^ 32 - 1 := by
  rcases Nat.lt_or_ge n (2 ^ 31) with hlt | hge
  · rw [toInt32_of_lt hlt]
    omega
  · rw [toInt32_of_ge hge h]
    omega

/-- A negative `int` is a huge `size_t`. -/
theorem le_toSizeT_of_neg {n : Int} (h : n < 0) (h' : -2 ^ 31 ≤ n) : 2 ^ 63 ≤ toSizeT n := by
  unfold toSizeT
  omega

/-- A positive integer below `2 ^ 16` survives the conversion to `uint16_t`. -/
theorem toNat_ofInt {k : Int} (hpos : 0 < k) (hsmall : k < 2 ^ 16) :
    (UInt16.ofInt k).toNat = k.toNat := by
  rw [UInt16.ofInt, UInt16.toNat_ofNat']
  omega

/-! ## Byte order -/

/-- The bytes of a 16-bit integer in memory. -/
def bytes16 (x : UInt16) : List Byte :=
  [UInt8.ofNat x.toNat, UInt8.ofNat (x.toNat / 256)]

/-- The bytes of a 32-bit integer in memory. -/
def bytes32 (x : UInt32) : List Byte :=
  [UInt8.ofNat x.toNat, UInt8.ofNat (x.toNat / 256), UInt8.ofNat (x.toNat / 256 ^ 2),
    UInt8.ofNat (x.toNat / 256 ^ 3)]

/-- The 16-bit integer two bytes of memory hold. -/
def load16 (a b : Byte) : UInt16 := UInt16.ofNat (a.toNat + 256 * b.toNat)

/-- The 32-bit integer four bytes of memory hold. -/
def load32 (a b c d : Byte) : UInt32 :=
  UInt32.ofNat (a.toNat + 256 * b.toNat + 256 ^ 2 * c.toNat + 256 ^ 3 * d.toNat)

/-- `htons` and `ntohs`: the two bytes swapped. -/
def swap16 (x : UInt16) : UInt16 := load16 (UInt8.ofNat (x.toNat / 256)) (UInt8.ofNat x.toNat)

/-- `htonl` and `ntohl`: the four bytes reversed. -/
def swap32 (x : UInt32) : UInt32 :=
  load32 (UInt8.ofNat (x.toNat / 256 ^ 3)) (UInt8.ofNat (x.toNat / 256 ^ 2))
    (UInt8.ofNat (x.toNat / 256)) (UInt8.ofNat x.toNat)

/-- The bytes of a 16-bit integer in network order. -/
def network16 (x : UInt16) : List Byte :=
  [UInt8.ofNat (x.toNat / 256), UInt8.ofNat x.toNat]

/-- The bytes of a 32-bit integer in network order. -/
def network32 (x : UInt32) : List Byte :=
  [UInt8.ofNat (x.toNat / 256 ^ 3), UInt8.ofNat (x.toNat / 256 ^ 2),
    UInt8.ofNat (x.toNat / 256), UInt8.ofNat x.toNat]

/-- A byte is determined by the residue it stores. -/
theorem ofNat_eq_byte {n : Nat} {a : Byte} (h : n % 256 = a.toNat) : UInt8.ofNat n = a := by
  apply UInt8.toNat_inj.mp
  rw [UInt8.toNat_ofNat']
  exact h

theorem ofNat_load16_low (a b : Byte) : UInt8.ofNat (load16 a b).toNat = a := by
  have := a.toNat_lt
  have := b.toNat_lt
  refine ofNat_eq_byte ?_
  simp only [load16, UInt16.toNat_ofNat']
  omega

theorem ofNat_load16_high (a b : Byte) : UInt8.ofNat ((load16 a b).toNat / 256) = b := by
  have := a.toNat_lt
  have := b.toNat_lt
  refine ofNat_eq_byte ?_
  simp only [load16, UInt16.toNat_ofNat']
  omega

theorem bytes16_load16 (a b : Byte) : bytes16 (load16 a b) = [a, b] := by
  rw [bytes16, ofNat_load16_low, ofNat_load16_high]

theorem bytes32_load32 (a b c d : Byte) : bytes32 (load32 a b c d) = [a, b, c, d] := by
  have := a.toNat_lt
  have := b.toNat_lt
  have := c.toNat_lt
  have := d.toNat_lt
  have hn : (load32 a b c d).toNat =
      a.toNat + 256 * b.toNat + 256 ^ 2 * c.toNat + 256 ^ 3 * d.toNat := by
    simp only [load32, UInt32.toNat_ofNat']
    omega
  have h0 : UInt8.ofNat (load32 a b c d).toNat = a := ofNat_eq_byte (by omega)
  have h1 : UInt8.ofNat ((load32 a b c d).toNat / 256) = b := ofNat_eq_byte (by omega)
  have h2 : UInt8.ofNat ((load32 a b c d).toNat / 256 ^ 2) = c := ofNat_eq_byte (by omega)
  have h3 : UInt8.ofNat ((load32 a b c d).toNat / 256 ^ 3) = d := ofNat_eq_byte (by omega)
  rw [bytes32, h0, h1, h2, h3]

/-- Swapping in memory is what puts a 16-bit integer in network order. -/
@[simp] theorem bytes16_swap16 (x : UInt16) : bytes16 (swap16 x) = network16 x :=
  bytes16_load16 _ _

/-- Swapping in memory is what puts a 32-bit integer in network order. -/
@[simp] theorem bytes32_swap32 (x : UInt32) : bytes32 (swap32 x) = network32 x :=
  bytes32_load32 _ _ _ _

theorem load16_bytes (x : UInt16) :
    load16 (UInt8.ofNat x.toNat) (UInt8.ofNat (x.toNat / 256)) = x := by
  apply UInt16.toNat_inj.mp
  have := x.toNat_lt
  simp only [load16, UInt16.toNat_ofNat', UInt8.toNat_ofNat']
  omega

theorem load32_bytes (x : UInt32) :
    load32 (UInt8.ofNat x.toNat) (UInt8.ofNat (x.toNat / 256)) (UInt8.ofNat (x.toNat / 256 ^ 2))
      (UInt8.ofNat (x.toNat / 256 ^ 3)) = x := by
  apply UInt32.toNat_inj.mp
  have := x.toNat_lt
  simp only [load32, UInt32.toNat_ofNat', UInt8.toNat_ofNat']
  omega

/-- Reading two bytes of network order and swapping gives the integer back. -/
theorem swap16_load16_network (x : UInt16) :
    swap16 (load16 (UInt8.ofNat (x.toNat / 256)) (UInt8.ofNat x.toNat)) = x := by
  rw [swap16, ofNat_load16_high, ofNat_load16_low, load16_bytes]

/-- Reading four bytes of network order and swapping gives the integer back. -/
theorem swap32_load32_network (x : UInt32) :
    swap32 (load32 (UInt8.ofNat (x.toNat / 256 ^ 3)) (UInt8.ofNat (x.toNat / 256 ^ 2))
      (UInt8.ofNat (x.toNat / 256)) (UInt8.ofNat x.toNat)) = x := by
  have h := bytes32_load32 (UInt8.ofNat (x.toNat / 256 ^ 3)) (UInt8.ofNat (x.toNat / 256 ^ 2))
    (UInt8.ofNat (x.toNat / 256)) (UInt8.ofNat x.toNat)
  simp only [bytes32, List.cons.injEq, and_true] at h
  obtain ⟨h0, h1, h2, h3⟩ := h
  rw [swap32, h0, h1, h2, h3, load32_bytes]

end Posix
