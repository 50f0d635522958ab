import GroupChat.Client
import GroupChat.Posix.Long

/-!
# The argument of a window's thread

`create_new_group` allocates room for two `long int`s and stores two single bytes in it, the gid and
the low byte of the descriptor. `gui_group_function` reads two `long int`s from there, at the first
byte and at the second. `handOff_eq` says what it gets: always the gid, and a descriptor whose upper
bytes are what `malloc` left. `handsOver_iff` has the descriptors that arrive.
-/

namespace GroupChat

open Posix

/-- `sizeof(long int)` -/
def sizeofLong : Nat := 8

/-- What `create_new_group` stores in the block that `malloc` has returned. -/
def newGroupArgs (args : Block (sizeofLong * 2)) (gid : UInt8) (sockfd : Int64) :
    Except Fault (Block (sizeofLong * 2)) := do
  let args ← args.memcpy 0 [gid]
  args.memcpy 1 [sockfd.toUInt64.toUInt8]

/-- `group_gid` and `sockfd` of `gui_group_function`. -/
def guiGroupArgs (arg : Block (sizeofLong * 2)) : Except Fault (UInt8 × Int64) := do
  let groupGid := (← arg.loadLong 0).toUInt64.toUInt8
  let sockfd ← arg.loadLong 1
  return (groupGid, sockfd)

/-- The way from `create_new_group` to its thread. -/
def handOff (malloc : Block (sizeofLong * 2)) (gid : UInt8) (sockfd : Int64) :
    Except Fault (UInt8 × Int64) := do
  guiGroupArgs (← newGroupArgs malloc gid sockfd)

/-- The thread gets what `create_new_group` was given. -/
def HandsOver (malloc : Block (sizeofLong * 2)) (gid : UInt8) (sockfd : Int64) : Prop :=
  handOff malloc gid sockfd = .ok (gid, sockfd)

/-- The bytes of the block that become the upper bytes of the descriptor. -/
def leftover (malloc : Block (sizeofLong * 2)) : List Byte := malloc.slice 2 7

section HandOff

variable (malloc : Block (sizeofLong * 2)) (gid : UInt8) (sockfd : Int64)

theorem newGroupArgs_eq :
    ∃ args, newGroupArgs malloc gid sockfd = .ok args ∧
      args.bytes = gid :: sockfd.toUInt64.toUInt8 :: malloc.bytes.drop 2 := by
  obtain ⟨first, hfirst, hbytes⟩ := @Block.memcpy_ok _ malloc 0 [gid] (show 0 + 1 ≤ 16 by decide)
  obtain ⟨second, hsecond, hbytes'⟩ :=
    @Block.memcpy_ok _ first 1 [sockfd.toUInt64.toUInt8] (show 1 + 1 ≤ 16 by decide)
  refine ⟨second, by rw [newGroupArgs, hfirst, ok_bind, hsecond], ?_⟩
  rw [hbytes', hbytes, overwrite_zero, overwrite, List.drop_append, List.drop_drop]
  rfl

/-- The gid arrives, and of the descriptor its low byte. -/
theorem handOff_eq :
    ∃ fd, handOff malloc gid sockfd = .ok (gid, fd) ∧
      fd.toUInt64.toNat = sockfd.toUInt64.toNat % 256 + 256 * ofBytes (leftover malloc) := by
  obtain ⟨args, hargs, hbytes⟩ := newGroupArgs_eq malloc gid sockfd
  obtain ⟨first, hfirst, hgid⟩ := @Block.loadLong_ok _ args 0 (by decide)
  obtain ⟨fd, hfd, hvalue⟩ := @Block.loadLong_ok _ args 1 (by decide)
  have hlow : args.slice 0 8 = gid :: (args.bytes.drop 1).take 7 := by
    rw [Block.slice, hbytes]
    rfl
  have hhigh : args.slice 1 8 = sockfd.toUInt64.toUInt8 :: leftover malloc := by
    rw [Block.slice, hbytes]
    rfl
  have hgroup : first.toUInt64.toUInt8 = gid := by
    rw [hlow, ofBytes_cons] at hgid
    have hlt := gid.toNat_lt
    rw [← UInt8.toNat_inj, UInt64.toNat_toUInt8, hgid]
    omega
  refine ⟨fd, ?_, ?_⟩
  · rw [handOff, hargs, ok_bind, guiGroupArgs, hfirst, ok_bind, hfd, ok_bind, hgroup]
    rfl
  · rw [hvalue, hhigh, ofBytes_cons, UInt64.toNat_toUInt8]

/-- A descriptor arrives exactly when `malloc` has left its upper bytes in the block. -/
theorem handsOver_iff :
    HandsOver malloc gid sockfd ↔ ofBytes (leftover malloc) = sockfd.toUInt64.toNat / 256 := by
  obtain ⟨fd, hhand, hvalue⟩ := handOff_eq malloc gid sockfd
  rw [HandsOver, hhand]
  constructor
  · intro h
    cases h
    omega
  · intro h
    have hfd : fd = sockfd := int64_ext (by omega)
    rw [hfd]

/-- In a block of zeros the descriptor loses all but its low byte, so that a small one arrives. -/
theorem handOff_zeros :
    handOff (.zeros (sizeofLong * 2)) gid sockfd =
      .ok (gid, (sockfd.toUInt64 % 256).toInt64) := by
  obtain ⟨fd, hhand, hvalue⟩ := handOff_eq (.zeros (sizeofLong * 2)) gid sockfd
  have hzeros : ofBytes (leftover (.zeros (sizeofLong * 2))) = 0 := ofBytes_zeros 7
  have hfd : fd = (sockfd.toUInt64 % 256).toInt64 := by
    apply int64_ext
    rw [hvalue, hzeros, UInt64.toUInt64_toInt64, UInt64.toNat_mod]
    rfl
  rw [hhand, hfd]

end HandOff

/-- The window that `create_new_group` adds is the one of the gid that its thread gets. -/
theorem createNewGroup_window {client client' : Client} {fuel : Nat} {gid : UInt8}
    (created : client.createNewGroup fuel gid = some client')
    (malloc : Block (sizeofLong * 2)) (sockfd : Int64) :
    ∃ w fd, client'.windows = client.windows ++ [w] ∧
      handOff malloc gid sockfd = .ok (w.gid, fd) := by
  obtain ⟨fd, hhand, -⟩ := handOff_eq malloc gid sockfd
  obtain ⟨r, -, rfl⟩ := Option.map_eq_some_iff.mp created
  exact ⟨⟨gid, []⟩, fd, rfl, hhand⟩

/-- In a block that is full of ones, the descriptor 3 becomes a negative number. -/
theorem descriptor_garbled :
    ¬ ∀ (malloc : Block (sizeofLong * 2)) (gid : UInt8) (sockfd : Int64),
      HandsOver malloc gid sockfd := by
  intro h
  have hand := h ⟨List.replicate 16 255, rfl⟩ 0 3
  have hrun : handOff ⟨List.replicate 16 255, rfl⟩ 0 3 = .ok (0, -253) := by decide +kernel
  rw [HandsOver, hrun] at hand
  exact absurd (congrArg Prod.snd (Except.ok.inj hand)) (by decide)

end GroupChat
