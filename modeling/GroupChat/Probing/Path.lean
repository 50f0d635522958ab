import Mathlib.Data.List.FinRange
import Mathlib.Data.Fintype.Basic
import Mathlib.Data.Fintype.Card
import Mathlib.Tactic

/-!
# Linear probing

A probe starts at a slot of a cyclic table and goes from slot to slot until it meets one at
which it stops, or has been everywhere. `probe_eq_some_iff` says where it ends: at the slot
nearest to the start, in the direction of the probe, among those that stop it.
-/

namespace Probing

variable {n : Nat}

/-- The slot after `i`, cyclically. -/
def next (i : Fin n) : Fin n := ⟨(i + 1) % n, Nat.mod_lt _ i.pos⟩

/-- The number of steps from `start` to `i`. -/
def dist (start i : Fin n) : Nat := (i + n - start) % n

/-- The first slot among the next `fuel` ones that stops the probe. -/
def probe (stop : Fin n → Bool) : Nat → Fin n → Option (Fin n)
  | 0, _ => none
  | fuel + 1, curr => if stop curr then some curr else probe stop fuel (next curr)

/-! ## Distances -/

theorem dist_eq (start i : Fin n) :
    dist start i = if start ≤ i then i.val - start.val else i + n - start := by
  have hstart := start.isLt
  have hi := i.isLt
  rw [dist]
  by_cases hle : start ≤ i
  · rw [if_pos hle]
    have hval : start.val ≤ i.val := hle
    have hsum : i.val + n - start.val = i.val - start.val + n := by omega
    rw [hsum, Nat.add_mod_right, Nat.mod_eq_of_lt (by omega)]
  · rw [if_neg hle]
    have hval : i.val < start.val := Nat.lt_of_not_le hle
    rw [Nat.mod_eq_of_lt (by omega)]

theorem dist_self (start : Fin n) : dist start start = 0 := by
  rw [dist_eq, if_pos (le_refl _), Nat.sub_self]

theorem dist_lt (start i : Fin n) : dist start i < n := Nat.mod_lt _ start.pos

/-- A slot other than the start is one step nearer from the slot after the start. -/
theorem dist_next {start i : Fin n} (h : i ≠ start) : dist start i = dist (next start) i + 1 := by
  have hi := i.isLt
  have hstart := start.isLt
  have hne : i.val ≠ start.val := fun hval => h (Fin.ext hval)
  rw [dist_eq, dist_eq]
  simp only [Fin.le_def, next]
  by_cases hlast : start.val + 1 = n
  · rw [hlast, Nat.mod_self]
    split <;> split <;> omega
  · rw [Nat.mod_eq_of_lt (by omega)]
    split <;> split <;> omega

/-! ## Where a probe ends -/

variable {stop : Fin n → Bool} {fuel : Nat} {start i : Fin n}

theorem probe_eq_some_iff_of_le (hfuel : fuel ≤ n) :
    probe stop fuel start = some i ↔
      stop i = true ∧ dist start i < fuel ∧ ∀ j, dist start j < dist start i → stop j = false := by
  induction fuel generalizing start with
  | zero =>
      refine iff_of_false ?_ (fun h => absurd h.2.1 (Nat.not_lt_zero _))
      intro h
      cases h
  | succ fuel ih =>
      rw [probe]
      by_cases hstop : stop start = true
      · rw [if_pos hstop]
        constructor
        · intro h
          obtain rfl := Option.some.inj h
          rw [dist_self]
          exact ⟨hstop, Nat.succ_pos _, fun j hj => absurd hj (Nat.not_lt_zero _)⟩
        · rintro ⟨-, -, hbefore⟩
          by_contra hne
          have hi : i ≠ start := fun h => hne (h ▸ rfl)
          have hfirst := hbefore start (by rw [dist_self, dist_next hi]; exact Nat.succ_pos _)
          rw [hstop] at hfirst
          cases hfirst
      · rw [if_neg hstop, ih (by omega)]
        constructor
        · rintro ⟨hi, hlt, hbefore⟩
          have hne : i ≠ start := fun h => hstop (h ▸ hi)
          refine ⟨hi, by rw [dist_next hne]; omega, fun j hj => ?_⟩
          by_cases hj' : j = start
          · rw [hj']
            exact Bool.eq_false_iff.mpr hstop
          · apply hbefore
            rw [dist_next hne, dist_next hj'] at hj
            omega
        · rintro ⟨hi, hlt, hbefore⟩
          have hne : i ≠ start := fun h => hstop (h ▸ hi)
          have hnear := dist_next hne
          refine ⟨hi, by omega, fun j hj => ?_⟩
          by_cases hj' : j = start
          · rw [hj']
            exact Bool.eq_false_iff.mpr hstop
          · apply hbefore
            rw [dist_next hj']
            omega

/-- A probe of the whole table ends at the nearest slot that stops it. -/
theorem probe_eq_some_iff :
    probe stop n start = some i ↔
      stop i = true ∧ ∀ j, dist start j < dist start i → stop j = false := by
  rw [probe_eq_some_iff_of_le (le_refl n)]
  constructor
  · rintro ⟨hi, -, hbefore⟩
    exact ⟨hi, hbefore⟩
  · rintro ⟨hi, hbefore⟩
    exact ⟨hi, dist_lt start i, hbefore⟩

/-- A probe of the whole table finds a slot if there is one. -/
theorem exists_probe_eq_some (hi : stop i = true) : ∃ j, probe stop n start = some j := by
  induction hd : dist start i using Nat.strong_induction_on generalizing i with
  | _ d ih =>
      by_cases hbefore : ∀ j, dist start j < dist start i → stop j = false
      · exact ⟨i, probe_eq_some_iff.mpr ⟨hi, hbefore⟩⟩
      · push Not at hbefore
        obtain ⟨j, hj, hstop⟩ := hbefore
        exact ih (dist start j) (hd ▸ hj) (Bool.eq_true_of_not_eq_false hstop) rfl

theorem probe_eq_none_iff : probe stop n start = none ↔ ∀ j, stop j = false := by
  constructor
  · intro hnone j
    by_contra hj
    obtain ⟨i, hi⟩ : ∃ i, probe stop n start = some i :=
      exists_probe_eq_some (Bool.eq_true_of_not_eq_false hj)
    rw [hnone] at hi
    cases hi
  · intro hall
    cases hprobe : probe stop n start with
    | none => rfl
    | some i =>
        have hi := (probe_eq_some_iff.mp hprobe).1
        rw [hall i] at hi
        cases hi

end Probing
