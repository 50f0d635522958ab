import GroupChat.Hashmap

/-!
# The hash map as a table

`slots` is the table a map holds; `hashmap_hash` is its `place` and `hashmap_get` and
`hashmap_remove` search it with `find`. For each function there is one equation that says what
it returns on a map whose lock is free, and `hashmapPut_full` that it does not return when the
table has to grow.
-/

namespace GroupChat

open Probing

variable {α : Type} {m : HashmapMap α} {key : UInt64} {value : AnyT α} {fuel : Nat}

namespace HashmapMap

def slots (m : HashmapMap α) : Table UInt64 (AnyT α) m.tableSize := fun i =>
  if (m.elem i).inUse then some ((m.elem i).key, (m.elem i).data) else none

/-- Where the search for a key starts. -/
abbrev hash (m : HashmapMap α) : UInt64 → Fin m.tableSize := hashmapHashInt m

/-- The uids that have an entry. -/
def users (m : HashmapMap α) : Finset UInt64 := keys m.slots

theorem isAt_eq (key : UInt64) (i : Fin m.tableSize) : m.isAt key i = holds m.slots key i := by
  unfold isAt holds slots
  cases (m.elem i).inUse with
  | false => simp
  | true => simp

theorem isNone_slots (i : Fin m.tableSize) : (m.slots i).isNone = !(m.elem i).inUse := by
  unfold slots
  cases (m.elem i).inUse with
  | false => rfl
  | true => rfl

theorem data_of_slots {i : Fin m.tableSize} (h : m.slots i = some (key, value)) :
    (m.elem i).data = value := by
  unfold slots at h
  split at h
  · cases h
    rfl
  · cases h

theorem slots_write {e : HashmapElement α} (i : Fin m.tableSize) :
    ({ m with data := m.data.set i e i.isLt } : HashmapMap α).slots =
      Function.update m.slots i (if e.inUse then some (e.key, e.data) else none) := by
  funext j
  by_cases hji : j = i
  · have helem : elem { m with data := m.data.set i e i.isLt } i = e :=
      Vector.getElem_set_self i.isLt
    rw [hji, Function.update_self, slots, helem]
  · have helem : elem { m with data := m.data.set i e i.isLt } j = m.elem j :=
      Vector.getElem_set_ne i.isLt j.isLt fun h => hji (Fin.ext h.symm)
    rw [Function.update_of_ne hji, slots, helem]
    rfl

theorem slots_set (i : Fin m.tableSize) (key : UInt64) (value : AnyT α) :
    (m.set i key value).slots = Function.update m.slots i (some (key, value)) :=
  slots_write i

theorem slots_blank (i : Fin m.tableSize) :
    (m.blank i).slots = Function.update m.slots i none := slots_write i

theorem entries_set (i : Fin m.tableSize) (key : UInt64) (value : AnyT α) :
    entries (m.set i key value).slots =
      entries (n := m.tableSize) (Function.update m.slots i (some (key, value))) :=
  congrArg _ (slots_set i key value)

theorem entries_blank (i : Fin m.tableSize) :
    entries (m.blank i).slots = entries (n := m.tableSize) (Function.update m.slots i none) :=
  congrArg _ (slots_blank i)

theorem slots_new : (hashmapNew : HashmapMap α).slots = fun _ => none := by
  funext i
  unfold slots
  have hzero : (hashmapNew : HashmapMap α).elem i = .zero := Vector.getElem_replicate _
  rw [hzero]
  rfl

/-- The entries are the elements in use, in the order of the array. -/
theorem entries_slots : entries m.slots =
    m.data.toList.filterMap fun e => if e.inUse then some (e.key, e.data) else none := by
  have hdata : m.data.toList = (List.finRange m.tableSize).map m.elem := by
    rw [← List.ofFn_eq_map, ← Vector.toList_ofFn]
    congr 1
    exact Vector.ofFn_getElem.symm
  rw [hdata, List.filterMap_map]
  rfl

end HashmapMap

open HashmapMap

/-! ## The functions on a free lock -/

theorem hashmapHash_eq (hsize : m.size ≠ m.tableSize) (key : UInt64) :
    hashmapHash m key = place m.hash m.slots key := by
  rw [hashmapHash, if_neg hsize, place]
  congr 1
  funext i
  rw [isAt_eq, isNone_slots]

theorem hashmapHash_full (hsize : m.size = m.tableSize) (key : UInt64) :
    hashmapHash m key = none := by
  rw [hashmapHash, if_pos hsize]

theorem hashmapPut_eq (hlock : m.lock = false) (hsize : m.size ≠ m.tableSize)
    {i : Fin m.tableSize} (hplace : place m.hash m.slots key = some i) (calloc : Bool) :
    hashmapPut calloc (fuel + 1) m key value = some (MAP_OK, m.set i key value) := by
  obtain ⟨tableSize, pos, size, data, lock⟩ := m
  obtain rfl : lock = false := hlock
  have hhash : hashmapHash ⟨tableSize, pos, size, data, true⟩ key = some i :=
    (hashmapHash_eq hsize key).trans hplace
  change putLoop _ key value (fuel + 1) ⟨tableSize, pos, size, data, true⟩ = _
  rw [putLoop, hhash]
  rfl

/-- A put waits for a lock that is held. -/
theorem hashmapPut_held (hlock : m.lock = true) (calloc : Bool) :
    hashmapPut calloc fuel m key value = none := by
  cases fuel with
  | zero => rfl
  | succ fuel =>
      rw [hashmapPut, pthreadMutexLock, if_pos hlock]
      rfl

theorem hashmapGet_held (hlock : m.lock = true) : hashmapGet m key = none := by
  rw [hashmapGet, pthreadMutexLock, if_pos hlock]
  rfl

/-- A table that is full has to be enlarged, and the first element of the old array is put
with the lock held. -/
theorem hashmapPut_full (hsize : m.size = m.tableSize) (hlock : m.lock = false) :
    hashmapPut true fuel m key value = none := by
  cases fuel with
  | zero => rfl
  | succ fuel =>
      obtain ⟨tableSize, pos, size, data, lock⟩ := m
      obtain rfl : lock = false := hlock
      have hhash : hashmapHash ⟨tableSize, pos, size, data, true⟩ key = none :=
        hashmapHash_full hsize key
      have hrehash : hashmapRehash true (hashmapPut true fuel)
          ⟨tableSize, pos, size, data, true⟩ = none := by
        rw [hashmapRehash, if_pos rfl]
        obtain ⟨e, rest, hlist⟩ : ∃ e rest, data.toList = e :: rest := by
          cases hlist : data.toList with
          | nil =>
              have hlength := data.length_toList
              rw [hlist] at hlength
              exact absurd hlength.symm pos.ne'
          | cons e rest => exact ⟨e, rest, rfl⟩
        rw [hlist, rehashLoop, hashmapPut_held rfl]
        rfl
      change putLoop _ key value (fuel + 1) ⟨tableSize, pos, size, data, true⟩ = _
      rw [putLoop, hhash]
      change (hashmapRehash true (hashmapPut true fuel) _ >>= _) = _
      rw [hrehash]
      rfl

/-- Without memory for a larger table a put returns and changes nothing. -/
theorem hashmapPut_omem (hsize : m.size = m.tableSize) (hlock : m.lock = false) :
    hashmapPut false (fuel + 1) m key value = some (MAP_OMEM, m) := by
  obtain ⟨tableSize, pos, size, data, lock⟩ := m
  obtain rfl : lock = false := hlock
  have hhash : hashmapHash ⟨tableSize, pos, size, data, true⟩ key = none :=
    hashmapHash_full hsize key
  change putLoop _ key value (fuel + 1) ⟨tableSize, pos, size, data, true⟩ = _
  rw [putLoop, hhash]
  rfl

/-- What `hashmap_get` leaves when it has found this or nothing. -/
def lookupResult : Option (AnyT α) → Int × AnyT α
  | none => (MAP_MISSING, none)
  | some value => (MAP_OK, value)

/-- The search, which the callers make with the lock held. -/
theorem probe_isAt (m : HashmapMap α) (key : UInt64) :
    probe (isAt { m with lock := true } key) m.tableSize
      (hashmapHashInt { m with lock := true } key) = find m.hash m.slots key := by
  rw [find]
  congr 1
  funext i
  exact isAt_eq key i

theorem pthreadMutexLock_free (hlock : m.lock = false) :
    pthreadMutexLock m = some { m with lock := true } := by
  rw [pthreadMutexLock, hlock]
  rfl

theorem pthreadMutexUnlock_locked (hlock : m.lock = false) :
    pthreadMutexUnlock { m with lock := true } = m := by
  unfold pthreadMutexUnlock
  rw [← hlock]

theorem hashmapGet_eq (hlock : m.lock = false) (key : UInt64) :
    hashmapGet m key =
      let found := lookupResult ((find m.hash m.slots key).map fun i => (m.elem i).data)
      some (found.1, found.2, m) := by
  unfold hashmapGet
  rw [pthreadMutexLock_free hlock]
  simp only [Option.bind_eq_bind, Option.bind_some]
  rw [probe_isAt, pthreadMutexUnlock_locked hlock]
  cases find m.hash m.slots key with
  | none => rfl
  | some i => rfl

theorem hashmapRemove_eq (hlock : m.lock = false) (key : UInt64) :
    hashmapRemove m key =
      match find m.hash m.slots key with
      | none => some (MAP_MISSING, m)
      | some i => some (MAP_OK, m.blank i) := by
  unfold hashmapRemove
  rw [pthreadMutexLock_free hlock]
  simp only [Option.bind_eq_bind, Option.bind_some]
  rw [probe_isAt, pthreadMutexUnlock_locked hlock]
  cases find m.hash m.slots key with
  | none => rfl
  | some i =>
      have hblank : pthreadMutexUnlock (blank { m with lock := true } i) = m.blank i := by
        unfold pthreadMutexUnlock blank
        rw [← hlock]
      exact congrArg (fun m => some (MAP_OK, m)) hblank

/-- A callback that always goes on is called for each element in use. -/
theorem iterateLoop_walk {σ : Type} {f : σ → AnyT α → Int × σ} {g : σ → AnyT α → σ}
    (hf : ∀ item data, f item data = (MAP_OK, g item data)) (l : List (HashmapElement α))
    (item : σ) :
    iterateLoop f l item = (MAP_OK,
      ((l.filterMap fun e => if e.inUse then some (e.key, e.data) else none).map Prod.snd).foldl g
        item) := by
  induction l generalizing item with
  | nil => rfl
  | cons e rest ih =>
      rw [iterateLoop]
      cases hused : e.inUse with
      | false =>
          rw [if_neg Bool.false_ne_true, ih, List.filterMap_cons_none]
          rw [hused]
          rfl
      | true =>
          rw [if_pos rfl, hf]
          simp only [if_true]
          rw [ih, List.filterMap_cons_some (b := (e.key, e.data)), List.map_cons, List.foldl_cons]
          rw [hused]
          rfl

/-- An iteration calls it for the entries in the order of their slots. -/
theorem hashmapIterate_walk {σ : Type} {f : σ → AnyT α → Int × σ} {g : σ → AnyT α → σ}
    (hf : ∀ item data, f item data = (MAP_OK, g item data)) (hlock : m.lock = false)
    (hsize : (entries m.slots).length ≤ m.size) (item : σ) :
    ∃ status, hashmapIterate m f item =
      some (status, ((entries m.slots).map Prod.snd).foldl g item, m) := by
  rw [hashmapIterate]
  by_cases hempty : m.size ≤ 0
  · rw [if_pos hempty]
    have hnone : (entries m.slots).length = 0 := by omega
    rw [List.length_eq_zero_iff.mp hnone]
    exact ⟨_, rfl⟩
  · rw [if_neg hempty, entries_slots]
    obtain ⟨tableSize, pos, size, data, lock⟩ := m
    obtain rfl : lock = false := hlock
    refine ⟨MAP_OK, ?_⟩
    change some ((iterateLoop f data.toList item).1, (iterateLoop f data.toList item).2, _) = _
    rw [iterateLoop_walk hf]
    rfl

/-- An iteration visits the entries in the order of their slots. -/
theorem hashmapIterate_eq (hlock : m.lock = false) (hsize : (entries m.slots).length ≤ m.size) :
    ∃ status, hashmapIterate m recordWalk [] =
      some (status, (entries m.slots).map Prod.snd, m) := by
  have hrecord : ∀ item (data : AnyT α), recordWalk item data = (MAP_OK, item ++ [data]) :=
    fun _ _ => rfl
  obtain ⟨status, hiterate⟩ := hashmapIterate_walk hrecord hlock hsize []
  have hall : ∀ l : List (AnyT α), l.foldl (fun item data => item ++ [data]) [] = l := by
    intro l
    rw [List.foldl_append_eq_append, ← List.flatMap_def, List.flatMap_singleton', List.nil_append]
  rw [hall] at hiterate
  exact ⟨status, hiterate⟩

/-! ## The calls -/

/-- In a table with room there is a slot for every key. -/
theorem exists_place (hcounted : (entries m.slots).length ≤ m.size) (hroom : m.size < m.tableSize)
    (key : UInt64) : ∃ i, place m.hash m.slots key = some i := by
  obtain ⟨j, hj⟩ := exists_unused (t := m.slots) (by omega)
  have hstops : ((m.slots j).isNone || holds m.slots key j) = true := by
    rw [hj]
    rfl
  exact exists_probe_eq_some hstops

/-- A put into a table with room writes to the slot that `place` leads to. -/
theorem registryStep_put (fuel : Nat) (hlock : m.lock = false)
    (hcounted : (entries m.slots).length ≤ m.size) (hroom : m.size < m.tableSize) (calloc : Bool)
    (key : UInt64) (value : AnyT α) :
    ∃ i, place m.hash m.slots key = some i ∧ registryStep (fuel + 1) m (.put calloc key value) =
      .ok (⟨MAP_OK, []⟩, m.set i key value) := by
  obtain ⟨i, hplace⟩ := exists_place hcounted hroom key
  refine ⟨i, hplace, ?_⟩
  unfold registryStep
  simp only
  rw [hashmapPut_eq hlock hroom.ne hplace]
  rfl

theorem registryStep_full (hsize : m.size = m.tableSize) (hlock : m.lock = false) :
    registryStep fuel m (.put true key value) = .error () := by
  unfold registryStep
  simp only
  rw [hashmapPut_full hsize hlock]
  rfl

theorem registryStep_omem (hsize : m.size = m.tableSize) (hlock : m.lock = false) :
    registryStep (fuel + 1) m (.put false key value) = .ok (⟨MAP_OMEM, []⟩, m) := by
  unfold registryStep
  simp only
  rw [hashmapPut_omem hsize hlock]
  rfl

/-- The slot is unused or has the key. -/
theorem slot_of_place {i : Fin m.tableSize} (hplace : place m.hash m.slots key = some i) :
    m.slots i = none ∨ holds m.slots key i = true := by
  have hstop := (probe_eq_some_iff.mp hplace).1
  rw [Bool.or_eq_true, Option.isNone_iff_eq_none] at hstop
  exact hstop

/-- A removal of a key that is there clears its slot. -/
theorem registryStep_remove (hlock : m.lock = false) (hdistinct : Distinct m.slots)
    {i : Fin m.tableSize} (hi : holds m.slots key i = true) :
    registryStep fuel m (.remove key) = .ok (⟨MAP_OK, []⟩, m.blank i) := by
  unfold registryStep
  simp only
  rw [hashmapRemove_eq hlock, (find_eq_some_iff hdistinct).mpr hi]
  rfl

theorem registryStep_remove_absent (hlock : m.lock = false)
    (habsent : ∀ i, holds m.slots key i = false) :
    registryStep fuel m (.remove key) = .ok (⟨MAP_MISSING, []⟩, m) := by
  unfold registryStep
  simp only
  rw [hashmapRemove_eq hlock, find_eq_none_iff.mpr habsent]
  rfl

theorem registryStep_get (fuel : Nat) (hlock : m.lock = false) (key : UInt64) :
    ∃ r, registryStep fuel m (.get key) = .ok (r, m) := by
  unfold registryStep
  simp only
  rw [hashmapGet_eq hlock]
  exact ⟨_, rfl⟩

theorem registryStep_iterate (fuel : Nat) (hlock : m.lock = false)
    (hcounted : (entries m.slots).length ≤ m.size) :
    ∃ r, registryStep fuel m .iterate = .ok (r, m) := by
  obtain ⟨status, hvisit⟩ := hashmapIterate_eq hlock hcounted
  unfold registryStep
  simp only
  rw [hvisit]
  exact ⟨_, rfl⟩

end GroupChat
