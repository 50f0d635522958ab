import GroupChat.Lts.Run

/-!
# Simulation of one system by another

An abstraction maps the states of a system to those of another one, and its transitions to
transitions of the other one or to nothing. When every step that a run takes is matched, the run is
a run of the other system, with the history mapped (`Run.project`), and what holds in the states
that the other system reaches holds of the abstraction. `Run.lockstep` is for a relation between the
states of two systems that take the same events one by one, and fail together.
-/

namespace Lts

variable {σ ε ω φ σ' ε' ω' φ' : Type*}

/-- The transition is matched: it is one of the other system, or the abstraction of the state
stays as it is. -/
def Matched (step' : σ' → ε' → Except φ' (ω' × σ')) (abs : σ → σ') (x : Taken σ ε ω) :
    Option (Taken σ' ε' ω') → Prop
  | none => abs x.post = abs x.pre
  | some y => y.pre = abs x.pre ∧ y.post = abs x.post ∧ step' y.pre y.event = .ok (y.out, y.post)

variable {step : σ → ε → Except φ (ω × σ)} {step' : σ' → ε' → Except φ' (ω' × σ')} {s₀ s : σ}
  {h : List (Taken σ ε ω)} {abs : σ → σ'} {absTaken : Taken σ ε ω → Option (Taken σ' ε' ω')}

/-- A run whose steps are matched is a run of the other system. -/
theorem Run.project
    (hsim : ∀ h s e o s', Run step s₀ h s → step s e = .ok (o, s') →
      Matched step' abs ⟨s, e, o, s'⟩ (absTaken ⟨s, e, o, s'⟩))
    (run : Run step s₀ h s) : Run step' (abs s₀) (h.filterMap absTaken) (abs s) := by
  induction run with
  | start => exact .start
  | @next h s s' e o run taken ih =>
      have hmatched := hsim h s e o s' run taken
      rw [List.filterMap_append]
      cases hx : absTaken ⟨s, e, o, s'⟩ with
      | none =>
          rw [hx] at hmatched
          have hstays : abs s' = abs s := hmatched
          rw [List.filterMap_cons_none hx, List.filterMap_nil, List.append_nil, hstays]
          exact ih
      | some y =>
          rw [hx] at hmatched
          rw [List.filterMap_cons_some hx, List.filterMap_nil]
          obtain ⟨pre, event, out, post⟩ := y
          obtain ⟨rfl, rfl, htaken⟩ := hmatched
          exact ih.next htaken

/-! ## Two systems in step -/

/-- Two systems have done the same: they have failed alike, or come to related states with outcomes
that correspond. -/
inductive Lockstep (rel : σ → σ' → Prop) (out : ω' → ω) :
    Except φ (ω × σ) → Except φ (ω' × σ') → Prop
  | ok {s : σ} {s' : σ'} {o : ω'} (related : rel s s') : Lockstep rel out (.ok (out o, s)) (.ok (o, s'))
  | error (fault : φ) : Lockstep rel out (.error fault) (.error fault)

theorem Lockstep.map_fst {rel : σ → σ' → Prop} {out : ω' → ω} {x : Except φ (ω × σ)}
    {y : Except φ (ω' × σ')} (h : Lockstep rel out x y) :
    x.map Prod.fst = y.map fun r => out r.1 := by
  cases h with
  | ok related => rfl
  | error fault => rfl

/-- When the steps from related states correspond, a run is matched by one of the other system. -/
theorem Run.lockstep {step' : σ' → ε' → Except φ (ω' × σ')} {t₀ : σ'} {rel : σ → σ' → Prop}
    {event : ε → ε'} {out : ω' → ω} (hstart : rel s₀ t₀)
    (hstep : ∀ h s t e, Run step s₀ h s → rel s t →
      Lockstep rel out (step s e) (step' t (event e)))
    (run : Run step s₀ h s) : ∃ (h' : List (Taken σ' ε' ω')) (t : σ'), Run step' t₀ h' t ∧ rel s t ∧
      h'.map (fun y => (y.event, out y.out)) = h.map fun x => (event x.event, x.out) := by
  induction run with
  | start => exact ⟨[], t₀, .start, hstart, rfl⟩
  | @next h s s' e o run taken ih =>
      obtain ⟨h', t, run', hrel, hhistory⟩ := ih
      have hboth := hstep h s t e run hrel
      rw [taken] at hboth
      generalize htaken : step' t (event e) = y at hboth
      cases hboth with
      | @ok _ t' o' related =>
          refine ⟨h' ++ [⟨t, event e, o', t'⟩], t', run'.next htaken, related, ?_⟩
          rw [List.map_append, List.map_append, hhistory]
          rfl

end Lts
