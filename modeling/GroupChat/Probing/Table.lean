import GroupChat.Probing.Path

/-!
# Tables with open addressing

A slot holds an entry or is unused. `find` probes for a key past unused slots, `place` stops at
the first unused one as well, so on a table that holds a key `place` leads to the key only if no
unused slot comes before it (`NoGap`). The lemmas say what writing to a slot and clearing one do
to the entries, their number and their keys.
-/

namespace Probing

/-- The slots of a table. -/
abbrev Table (κ ν : Type*) (n : Nat) := Fin n → Option (κ × ν)

variable {κ ν : Type*} {n : Nat}

/-- The entries, in the order of their slots. -/
def entries (t : Table κ ν n) : List (κ × ν) := (List.finRange n).filterMap t

variable [DecidableEq κ]

/-- Slot `i` has an entry for this key. -/
def holds (t : Table κ ν n) (k : κ) (i : Fin n) : Bool := (t i).any fun e => e.1 = k

def find (start : κ → Fin n) (t : Table κ ν n) (k : κ) : Option (Fin n) :=
  probe (holds t k) n (start k)

def place (start : κ → Fin n) (t : Table κ ν n) (k : κ) : Option (Fin n) :=
  probe (fun i => (t i).isNone || holds t k i) n (start k)

/-- No two slots have the same key. -/
def Distinct (t : Table κ ν n) : Prop :=
  ∀ (k : κ) (i j : Fin n), holds t k i = true → holds t k j = true → i = j

def keys (t : Table κ ν n) : Finset κ := ((entries t).map Prod.fst).toFinset

/-- No slot before one that has the key is unused. -/
def NoGap (start : κ → Fin n) (t : Table κ ν n) (k : κ) : Prop :=
  ∀ p, holds t k p = true → ∀ q, dist (start k) q < dist (start k) p → t q ≠ none

variable {t : Table κ ν n} {k : κ} {v : ν} {i : Fin n} {start : κ → Fin n}

theorem holds_iff : holds t k i = true ↔ ∃ v, t i = some (k, v) := by
  rw [holds]
  cases t i with
  | none => simp
  | some e =>
      obtain ⟨k', v'⟩ := e
      simp [eq_comm]

theorem ne_none_of_holds (hi : holds t k i = true) : t i ≠ none := by
  obtain ⟨v, hv⟩ := holds_iff.mp hi
  rw [hv]
  exact Option.some_ne_none _

/-- A table in which nothing has been written. -/
theorem distinct_empty : Distinct fun _ : Fin n => (none : Option (κ × ν)) := by
  intro k i j hi
  exact absurd rfl (ne_none_of_holds hi)

omit [DecidableEq κ] in
theorem entries_empty : entries (fun _ : Fin n => (none : Option (κ × ν))) = [] :=
  List.filterMap_none _

/-! ## Searching -/

/-- When keys are distinct, no slot before the one that has a key has it too. -/
theorem Distinct.holds_before (hdistinct : Distinct t) (hi : holds t k i = true) {j : Fin n}
    (hj : dist (start k) j < dist (start k) i) : holds t k j = false := by
  by_contra hne
  have hsame := hdistinct k j i (Bool.eq_true_of_not_eq_false hne) hi
  rw [hsame] at hj
  exact absurd hj (lt_irrefl _)

/-- When keys are distinct, a search finds the slot that has the key. -/
theorem find_eq_some_iff (hdistinct : Distinct t) :
    find start t k = some i ↔ holds t k i = true := by
  rw [find, probe_eq_some_iff]
  constructor
  · exact fun h => h.1
  · intro hi
    exact ⟨hi, fun j hj => hdistinct.holds_before hi hj⟩

theorem find_eq_none_iff : find start t k = none ↔ ∀ i, holds t k i = false := probe_eq_none_iff

/-- Without a gap a key is placed where it is. -/
theorem place_noGap (hdistinct : Distinct t) (hi : holds t k i = true) (hgap : NoGap start t k) :
    place start t k = some i := by
  refine probe_eq_some_iff.mpr ⟨by rw [hi, Bool.or_true], fun j hj => ?_⟩
  have hused : (t j).isNone = false := by
    rw [Bool.eq_false_iff, Ne, Option.isNone_iff_eq_none]
    exact hgap i hi j hj
  rw [hused, Bool.false_or]
  exact hdistinct.holds_before hi hj

/-- With a gap before it a key is placed a second time. -/
theorem place_gap (hdistinct : Distinct t) (hgap : ¬ NoGap start t k) :
    ∃ i, place start t k = some i ∧ t i = none := by
  rw [NoGap] at hgap
  push Not at hgap
  obtain ⟨p, hp, q, hq, hunused⟩ := hgap
  have hstops : ((t q).isNone || holds t k q) = true := by
    rw [hunused]
    rfl
  obtain ⟨i, hi⟩ : ∃ i, place start t k = some i := exists_probe_eq_some hstops
  refine ⟨i, hi, ?_⟩
  obtain ⟨hstop, hbefore⟩ := probe_eq_some_iff.mp hi
  by_contra hused
  have hnone : (t i).isNone = false := by
    rw [Bool.eq_false_iff, Ne, Option.isNone_iff_eq_none]
    exact hused
  rw [hnone, Bool.false_or] at hstop
  have hsame := hdistinct k i p hstop hp
  have hfirst := hbefore q (hsame ▸ hq)
  rw [hunused] at hfirst
  cases hfirst

/-! ## Writing and clearing -/

theorem holds_update_self {e : Option (κ × ν)} :
    holds (Function.update t i e) k i = e.any fun e => e.1 = k := by
  rw [holds, Function.update_self]

theorem holds_update_ne {e : Option (κ × ν)} {j : Fin n} (hne : j ≠ i) :
    holds (Function.update t i e) k j = holds t k j := by
  rw [holds, Function.update_of_ne hne, holds]

/-- Writing a key keeps keys distinct if no other slot has it. -/
theorem Distinct.write (hdistinct : Distinct t) (honly : ∀ j, holds t k j = true → j = i) :
    Distinct (Function.update t i (some (k, v))) := by
  intro k' j j' hj hj'
  have hother : ∀ j, j ≠ i → holds (Function.update t i (some (k, v))) k' j = true →
      k' ≠ k ∧ holds t k' j = true := by
    intro j hne hj
    rw [holds_update_ne hne] at hj
    exact ⟨fun h => hne (honly j (h ▸ hj)), hj⟩
  have hself : holds (Function.update t i (some (k, v))) k' i = true → k' = k := by
    intro h
    rw [holds_update_self] at h
    exact (of_decide_eq_true h).symm
  by_cases hji : j = i
  · by_cases hji' : j' = i
    · rw [hji, hji']
    · exact absurd (hself (hji ▸ hj)) (hother j' hji' hj').1
  · by_cases hji' : j' = i
    · exact absurd (hself (hji' ▸ hj')) (hother j hji hj).1
    · exact hdistinct k' j j' (hother j hji hj).2 (hother j' hji' hj').2

theorem Distinct.clear (hdistinct : Distinct t) (i : Fin n) :
    Distinct (Function.update t i none) := by
  intro k' j j' hj hj'
  have hother : ∀ j, holds (Function.update t i none) k' j = true → holds t k' j = true := by
    intro j hj
    by_cases hne : j = i
    · rw [hne, holds_update_self] at hj
      cases hj
    · rw [holds_update_ne hne] at hj
      exact hj
  exact hdistinct k' j j' (hother j hj) (hother j' hj')

/-- A key that is written a second time is there twice. -/
theorem not_distinct_write {p : Fin n} (hp : holds t k p = true) (hi : t i = none) :
    ¬ Distinct (Function.update t i (some (k, v))) := by
  intro hdistinct
  have hne : p ≠ i := by
    rintro rfl
    rw [holds, hi] at hp
    cases hp
  refine hne (hdistinct k p i ?_ ?_)
  · rw [holds_update_ne hne]
    exact hp
  · rw [holds_update_self]
    exact decide_eq_true rfl

/-! ## Entries -/

omit [DecidableEq κ] in
theorem mem_entries {e : κ × ν} : e ∈ entries t ↔ ∃ i, t i = some e := by
  rw [entries, List.mem_filterMap]
  exact exists_congr fun i => and_iff_right (List.mem_finRange i)

omit [DecidableEq κ] in
/-- Writing a slot adds no entry but the one written. -/
theorem mem_of_mem_write {e e' : κ × ν} (h : e' ∈ entries (Function.update t i (some e))) :
    e' = e ∨ e' ∈ entries t := by
  obtain ⟨j, hj⟩ := mem_entries.mp h
  by_cases hji : j = i
  · rw [hji, Function.update_self] at hj
    exact Or.inl (Option.some.inj hj).symm
  · rw [Function.update_of_ne hji] at hj
    exact Or.inr (mem_entries.mpr ⟨j, hj⟩)

theorem mem_keys : k ∈ keys t ↔ ∃ i, holds t k i = true := by
  rw [keys, List.mem_toFinset, List.mem_map]
  constructor
  · rintro ⟨⟨k', v⟩, he, rfl⟩
    obtain ⟨i, hi⟩ := mem_entries.mp he
    exact ⟨i, holds_iff.mpr ⟨v, hi⟩⟩
  · rintro ⟨i, hi⟩
    obtain ⟨v, hv⟩ := holds_iff.mp hi
    exact ⟨(k, v), mem_entries.mpr ⟨i, hv⟩, rfl⟩

/-- Keys are distinct exactly when the entries have different keys. -/
theorem nodup_keys_iff : ((entries t).map Prod.fst).Nodup ↔ Distinct t := by
  rw [entries, List.map_filterMap, List.Nodup, List.pairwise_filterMap]
  constructor
  · intro hpairwise k i j hi hj
    by_contra hne
    obtain ⟨v, hv⟩ := holds_iff.mp hi
    obtain ⟨v', hv'⟩ := holds_iff.mp hj
    have : Std.Symm fun i j => ∀ b, (t i).map Prod.fst = some b → ∀ b',
        (t j).map Prod.fst = some b' → b ≠ b' :=
      ⟨fun i j h b hb b' hb' heq => h b' hb' b hb heq.symm⟩
    have hapart := hpairwise.forall (List.mem_finRange i) (List.mem_finRange j) hne
    exact hapart k (by rw [hv]; rfl) k (by rw [hv']; rfl) rfl
  · intro hdistinct
    refine (List.nodup_finRange n).imp ?_
    rintro i j hne b hb b' hb' rfl
    obtain ⟨⟨k, v⟩, hv, rfl⟩ := Option.map_eq_some_iff.mp hb
    obtain ⟨⟨k', v'⟩, hv', heq⟩ := Option.map_eq_some_iff.mp hb'
    obtain rfl : k' = k := heq
    exact hne (hdistinct k' i j (holds_iff.mpr ⟨v, hv⟩) (holds_iff.mpr ⟨v', hv'⟩))

/-- After a write the key has the new value and the others what they had. -/
theorem mem_entries_write (honly : ∀ j, holds t k j = true → j = i)
    (hplace : t i = none ∨ holds t k i = true) {k' : κ} {v' : ν} :
    (k', v') ∈ entries (Function.update t i (some (k, v))) ↔
      if k' = k then v' = v else (k', v') ∈ entries t := by
  rw [mem_entries]
  by_cases hk : k' = k
  · rw [if_pos hk, hk]
    constructor
    · rintro ⟨j, hj⟩
      by_cases hji : j = i
      · rw [hji, Function.update_self] at hj
        cases hj
        rfl
      · rw [Function.update_of_ne hji] at hj
        exact absurd (honly j (holds_iff.mpr ⟨v', hj⟩)) hji
    · intro hv
      exact ⟨i, by rw [Function.update_self, hv]⟩
  · rw [if_neg hk, mem_entries]
    apply exists_congr
    intro j
    by_cases hji : j = i
    · rw [hji, Function.update_self]
      apply iff_of_false
      · intro h
        cases h
        exact hk rfl
      · intro h
        obtain hnone | hi := hplace
        · rw [hnone] at h
          cases h
        · obtain ⟨w, hw⟩ := holds_iff.mp hi
          rw [hw] at h
          cases h
          exact hk rfl
    · rw [Function.update_of_ne hji]

/-- When keys are distinct, clearing the slot of a key removes it and nothing else. -/
theorem mem_entries_clear (hdistinct : Distinct t) (hi : holds t k i = true) {k' : κ} {v' : ν} :
    (k', v') ∈ entries (Function.update t i none) ↔ k' ≠ k ∧ (k', v') ∈ entries t := by
  rw [mem_entries, mem_entries]
  constructor
  · rintro ⟨j, hj⟩
    by_cases hji : j = i
    · rw [hji, Function.update_self] at hj
      cases hj
    · rw [Function.update_of_ne hji] at hj
      refine ⟨?_, j, hj⟩
      rintro rfl
      exact hji (hdistinct k' j i (holds_iff.mpr ⟨v', hj⟩) hi)
  · rintro ⟨hk, j, hj⟩
    refine ⟨j, ?_⟩
    rw [Function.update_of_ne, hj]
    rintro rfl
    obtain ⟨w, hw⟩ := holds_iff.mp hi
    rw [hw] at hj
    cases hj
    exact hk rfl

theorem keys_write (hplace : t i = none ∨ holds t k i = true) :
    keys (Function.update t i (some (k, v))) = insert k (keys t) := by
  ext k'
  rw [Finset.mem_insert, mem_keys, mem_keys]
  constructor
  · rintro ⟨j, hj⟩
    by_cases hji : j = i
    · rw [hji, holds_update_self] at hj
      exact Or.inl (of_decide_eq_true hj).symm
    · rw [holds_update_ne hji] at hj
      exact Or.inr ⟨j, hj⟩
  · rintro (rfl | ⟨j, hj⟩)
    · exact ⟨i, by rw [holds_update_self]; exact decide_eq_true rfl⟩
    · by_cases hji : j = i
      · rw [hji] at hj
        refine ⟨i, ?_⟩
        rw [holds_update_self]
        obtain hnone | hi := hplace
        · rw [holds, hnone] at hj
          cases hj
        · obtain ⟨w, hw⟩ := holds_iff.mp hi
          obtain ⟨w', hw'⟩ := holds_iff.mp hj
          rw [hw] at hw'
          cases hw'
          exact decide_eq_true rfl
      · exact ⟨j, by rw [holds_update_ne hji]; exact hj⟩

/-! ## How many entries -/

/-- The slots that hold an entry. -/
def used (t : Table κ ν n) : Finset (Fin n) := Finset.univ.filter fun i => (t i).isSome

section Counting

omit [DecidableEq κ]

theorem mem_used : i ∈ used t ↔ t i ≠ none := by
  rw [used, Finset.mem_filter, Option.isSome_iff_ne_none]
  exact and_iff_right (Finset.mem_univ i)

theorem length_entries : (entries t).length = (used t).card := by
  rw [entries, List.length_filterMap_eq_countP, List.countP_eq_length_filter]
  rw [← List.toFinset_card_of_nodup ((List.nodup_finRange n).filter _)]
  congr 1
  ext i
  simp [used]

theorem used_write {e : κ × ν} : used (Function.update t i (some e)) = insert i (used t) := by
  ext j
  rw [Finset.mem_insert, mem_used, mem_used]
  by_cases hji : j = i
  · simp [hji]
  · simp [hji]

theorem used_clear : used (Function.update t i none) = (used t).erase i := by
  ext j
  rw [Finset.mem_erase, mem_used, mem_used]
  by_cases hji : j = i
  · simp [hji]
  · simp [hji]

theorem length_write_unused {e : κ × ν} (hi : t i = none) :
    (entries (Function.update t i (some e))).length = (entries t).length + 1 := by
  rw [length_entries, length_entries, used_write, Finset.card_insert_of_notMem]
  rw [mem_used]
  exact fun h => h hi

theorem length_write_used {e : κ × ν} (hi : t i ≠ none) :
    (entries (Function.update t i (some e))).length = (entries t).length := by
  rw [length_entries, length_entries, used_write, Finset.insert_eq_of_mem (mem_used.mpr hi)]

theorem length_write_le (e : κ × ν) :
    (entries (Function.update t i (some e))).length ≤ (entries t).length + 1 := by
  by_cases hi : t i = none
  · rw [length_write_unused hi]
  · rw [length_write_used hi]
    exact Nat.le_succ _

theorem length_clear (hi : t i ≠ none) :
    (entries (Function.update t i none)).length + 1 = (entries t).length := by
  rw [length_entries, length_entries, used_clear, Finset.card_erase_add_one (mem_used.mpr hi)]

/-- With fewer entries than slots some slot is unused. -/
theorem exists_unused (h : (entries t).length < n) : ∃ i, t i = none := by
  by_contra hall
  push Not at hall
  have huniv : used t = Finset.univ := Finset.eq_univ_of_forall fun i => mem_used.mpr (hall i)
  rw [length_entries, huniv, Finset.card_univ, Fintype.card_fin] at h
  exact lt_irrefl n h

end Counting

/-- When keys are distinct, there are as many as entries. -/
theorem Distinct.card_keys (hdistinct : Distinct t) : (keys t).card = (entries t).length := by
  rw [keys, List.toFinset_card_of_nodup (nodup_keys_iff.mpr hdistinct), List.length_map]

end Probing
