import GroupChat.Lts.Run
import GroupChat.Probing.Table
import Mathlib.Data.Vector.Basic

/-!
# The hash map

The functions of `hashmap.c` that the server calls on `active_sockets`. The mutex is not
recursive: a call that locks it while it is held never returns. `hashmap_put` and
`hashmap_rehash` call each other and `hashmap_put` has a loop, so it takes the depth up to
which it is followed and has no result if it needs more. Whether `calloc` finds memory is an
argument. A `Table` is what a map holds, without its counter and its lock.
-/

namespace GroupChat

open Probing

def MAP_MISSING : Int := -3
def MAP_OMEM : Int := -1
def MAP_OK : Int := 0

def INITIAL_SIZE : Nat := 1024

/-- A pointer to an `α`, or `NULL`. -/
abbrev AnyT (α : Type) := Option α

structure HashmapElement (α : Type) where
  key : UInt64
  inUse : Bool
  data : AnyT α
  deriving DecidableEq, Repr

structure HashmapMap (α : Type) where
  tableSize : Nat
  pos : 0 < tableSize
  size : Int
  data : Vector (HashmapElement α) tableSize
  lock : Bool

variable {α : Type}

/-- An element of an array from `calloc`. -/
def HashmapElement.zero : HashmapElement α := { key := 0, inUse := false, data := none }

def hashmapNew : HashmapMap α where
  tableSize := INITIAL_SIZE
  pos := by decide
  size := 0
  data := Vector.replicate INITIAL_SIZE .zero
  lock := false

/-- `pthread_mutex_lock`; there is no result when the caller waits forever. -/
def pthreadMutexLock (m : HashmapMap α) : Option (HashmapMap α) :=
  if m.lock then none else some { m with lock := true }

def pthreadMutexUnlock (m : HashmapMap α) : HashmapMap α := { m with lock := false }

/-- Robert Jenkins' mix function, as the source has it on 64 bits. -/
def jenkinsMix (key : UInt64) : UInt64 :=
  let key := key + (key <<< 12)
  let key := key ^^^ (key >>> 22)
  let key := key + (key <<< 4)
  let key := key ^^^ (key >>> 9)
  let key := key + (key <<< 10)
  let key := key ^^^ (key >>> 2)
  let key := key + (key <<< 7)
  key ^^^ (key >>> 12)

def hashmapHashInt (m : HashmapMap α) (key : UInt64) : Fin m.tableSize :=
  let key := (jenkinsMix key >>> 3) * 2654435761
  ⟨key.toNat % m.tableSize, Nat.mod_lt _ m.pos⟩

/-- `m->data[curr]`. -/
def HashmapMap.elem (m : HashmapMap α) (curr : Fin m.tableSize) : HashmapElement α := m.data[curr]

/-- `m->data[curr].key == key && m->data[curr].in_use == 1`. -/
def HashmapMap.isAt (m : HashmapMap α) (key : UInt64) (curr : Fin m.tableSize) : Bool :=
  (m.elem curr).key = key && (m.elem curr).inUse

/-- `hashmap_hash`; `none` is `MAP_FULL`. -/
def hashmapHash (m : HashmapMap α) (key : UInt64) : Option (Fin m.tableSize) :=
  if m.size = m.tableSize then none
  else
    probe (fun curr => !(m.elem curr).inUse || m.isAt key curr) m.tableSize (hashmapHashInt m key)

/-- The loop of `hashmap_rehash` over the elements of the old array. -/
def rehashLoop (hashmapPut : HashmapMap α → UInt64 → AnyT α → Option (Int × HashmapMap α)) :
    List (HashmapElement α) → HashmapMap α → Option (Int × HashmapMap α)
  | [], m => some (MAP_OK, m)
  | curr :: rest, m => do
    let (status, m) ← hashmapPut m curr.key curr.data
    if status = MAP_OK then rehashLoop hashmapPut rest m else some (status, m)

def hashmapRehash (calloc : Bool)
    (hashmapPut : HashmapMap α → UInt64 → AnyT α → Option (Int × HashmapMap α))
    (m : HashmapMap α) : Option (Int × HashmapMap α) :=
  if calloc then
    rehashLoop hashmapPut m.data.toList
      { tableSize := 2 * m.tableSize
        pos := Nat.mul_pos (by decide) m.pos
        size := 0
        data := Vector.replicate (2 * m.tableSize) .zero
        lock := m.lock }
  else some (MAP_OMEM, m)

/-- What `hashmap_put` writes at the slot it has found. -/
def HashmapMap.set (m : HashmapMap α) (index : Fin m.tableSize) (key : UInt64)
    (value : AnyT α) : HashmapMap α :=
  { m with
    data := m.data.set index { key := key, inUse := true, data := value }
    size := m.size + 1 }

/-- The loop of `hashmap_put`, which ends when a slot has been found, and what follows it. -/
def putLoop (hashmapRehash : HashmapMap α → Option (Int × HashmapMap α)) (key : UInt64)
    (value : AnyT α) : Nat → HashmapMap α → Option (Int × HashmapMap α)
  | 0, _ => none
  | fuel + 1, m =>
    match hashmapHash m key with
    | none => do
      let (status, m) ← hashmapRehash m
      if status = MAP_OMEM then some (MAP_OMEM, pthreadMutexUnlock m)
      else putLoop hashmapRehash key value fuel m
    | some index => some (MAP_OK, pthreadMutexUnlock (m.set index key value))

def hashmapPut (calloc : Bool) :
    Nat → HashmapMap α → UInt64 → AnyT α → Option (Int × HashmapMap α)
  | 0, _, _, _ => none
  | fuel + 1, m, key, value => do
    let m ← pthreadMutexLock m
    putLoop (hashmapRehash calloc (hashmapPut calloc fuel)) key value (fuel + 1) m

/-- `hashmap_get`, with what it leaves in `*arg`. -/
def hashmapGet (m : HashmapMap α) (key : UInt64) : Option (Int × AnyT α × HashmapMap α) := do
  let m ← pthreadMutexLock m
  match probe (m.isAt key) m.tableSize (hashmapHashInt m key) with
  | none => return (MAP_MISSING, none, pthreadMutexUnlock m)
  | some curr => return (MAP_OK, (m.elem curr).data, pthreadMutexUnlock m)

/-- What `hashmap_remove` does at the slot of the key. -/
def HashmapMap.blank (m : HashmapMap α) (curr : Fin m.tableSize) : HashmapMap α :=
  { m with
    data := m.data.set curr { key := 0, inUse := false, data := none }
    size := m.size - 1 }

def hashmapRemove (m : HashmapMap α) (key : UInt64) : Option (Int × HashmapMap α) := do
  let m ← pthreadMutexLock m
  match probe (m.isAt key) m.tableSize (hashmapHashInt m key) with
  | none => return (MAP_MISSING, pthreadMutexUnlock m)
  | some curr => return (MAP_OK, pthreadMutexUnlock (m.blank curr))

/-- The loop of `hashmap_iterate`. The parameter of `f` is what it reads and writes. -/
def iterateLoop {σ : Type} (f : σ → AnyT α → Int × σ) : List (HashmapElement α) → σ → Int × σ
  | [], item => (MAP_OK, item)
  | curr :: rest, item =>
    if curr.inUse then
      let (status, item) := f item curr.data
      if status = MAP_OK then iterateLoop f rest item else (status, item)
    else iterateLoop f rest item

def hashmapIterate {σ : Type} (m : HashmapMap α) (f : σ → AnyT α → Int × σ) (item : σ) :
    Option (Int × σ × HashmapMap α) :=
  if m.size ≤ 0 then some (MAP_MISSING, item, m)
  else do
    let m ← pthreadMutexLock m
    let (status, item) := iterateLoop f m.data.toList item
    return (status, item, pthreadMutexUnlock m)

def hashmapLength (m : HashmapMap α) : Int := m.size

/-! ## The calls of the server -/

/-- A call of the server on `active_sockets`: at a login, at a disconnect, for a member of a
group or an invited user, and for the list of the active users. -/
inductive RegistryCall (α : Type)
  | put (calloc : Bool) (key : UInt64) (value : AnyT α)
  | remove (key : UInt64)
  | get (key : UInt64)
  | iterate
  deriving DecidableEq, Repr

def RegistryCall.isPut : RegistryCall α → Bool
  | .put .. => true
  | .remove _ | .get _ | .iterate => false

/-- What a call gives the server: a status and the pointers it has been handed. -/
structure RegistryResult (α : Type) where
  status : Int
  data : List (AnyT α)
  deriving DecidableEq, Repr

/-- A callback that, like `active_socket_walk`, writes one item for each element and goes on. -/
def recordWalk (item : List (AnyT α)) (data : AnyT α) : Int × List (AnyT α) :=
  (MAP_OK, item ++ [data])

/-- One call. The error is that it has not returned at this depth. -/
def registryStep (fuel : Nat) (m : HashmapMap α) (call : RegistryCall α) :
    Except Unit (RegistryResult α × HashmapMap α) :=
  let result : Option (RegistryResult α × HashmapMap α) :=
    match call with
    | .put calloc key value =>
      (hashmapPut calloc fuel m key value).map fun r => (⟨r.1, []⟩, r.2)
    | .remove key => (hashmapRemove m key).map fun r => (⟨r.1, []⟩, r.2)
    | .get key => (hashmapGet m key).map fun r => (⟨r.1, [r.2.1]⟩, r.2.2)
    | .iterate => (hashmapIterate m recordWalk []).map fun r => (⟨r.1, r.2.1⟩, r.2.2)
  match result with
  | none => .error ()
  | some r => .ok r

end GroupChat
