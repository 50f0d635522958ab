import Mathlib.Data.List.Basic
import Mathlib.Tactic.ByContra

/-!
# Runs of a system with a fallible step

A step takes a state and an event to an outcome and a new state, or fails. A `Run` keeps every
transition it took, so a property can speak of the past. Over the runs of a list of events,
`Along` quantifies over the situations in which the next event arrives and `Throughout` over
the states reached. The two comparison rules, `along_iff` and `throughout_iff_along`, turn an
equivalence for one step, proved under an invariant of the runs that meet the condition so
far, into an equivalence for whole runs.
-/

namespace Lts

/-- A transition that was taken. -/
structure Taken (σ ε ω : Type*) where
  pre : σ
  event : ε
  out : ω
  post : σ

variable {σ ε ω φ : Type*}

def events (h : List (Taken σ ε ω)) : List ε := h.map Taken.event

@[simp] theorem events_nil : events ([] : List (Taken σ ε ω)) = [] := rfl

@[simp] theorem events_append (h : List (Taken σ ε ω)) (x : Taken σ ε ω) :
    events (h ++ [x]) = events h ++ [x.event] := List.map_append

inductive Run (step : σ → ε → Except φ (ω × σ)) (s₀ : σ) : List (Taken σ ε ω) → σ → Prop
  | start : Run step s₀ [] s₀
  | next {h : List (Taken σ ε ω)} {s s' : σ} {e : ε} {o : ω} (run : Run step s₀ h s)
      (taken : step s e = .ok (o, s')) : Run step s₀ (h ++ [⟨s, e, o, s'⟩]) s'

/-- The run of a list of events. -/
def execute (step : σ → ε → Except φ (ω × σ)) :
    List ε → List (Taken σ ε ω) → σ → Except φ (List (Taken σ ε ω) × σ)
  | [], h, s => .ok (h, s)
  | e :: es, h, s =>
    match step s e with
    | .error f => .error f
    | .ok (o, s') => execute step es (h ++ [⟨s, e, o, s'⟩]) s'

/-- A computation returns a value that passes a test. -/
def returns {α : Type*} (x : Except φ α) (test : α → Bool) : Bool :=
  match x with
  | .error _ => false
  | .ok a => test a

theorem exists_of_returns {α : Type*} {x : Except φ α} {test : α → Bool}
    (h : returns x test = true) : ∃ a, x = .ok a ∧ test a = true := by
  cases x with
  | error f => cases h
  | ok a => exact ⟨a, rfl, h⟩

variable {step : σ → ε → Except φ (ω × σ)} {s₀ s : σ} {h : List (Taken σ ε ω)}

namespace Run

theorem of_execute {es : List ε} {h' : List (Taken σ ε ω)} {s' : σ} (run : Run step s₀ h s)
    (hexec : execute step es h s = .ok (h', s')) :
    Run step s₀ h' s' ∧ events h' = events h ++ es := by
  induction es generalizing h s with
  | nil =>
      obtain ⟨rfl, rfl⟩ := Prod.mk.inj (Except.ok.inj hexec)
      exact ⟨run, (List.append_nil _).symm⟩
  | cons e es ih =>
      rw [execute] at hexec
      split at hexec
      · cases hexec
      · rename_i o s₁ htaken
        obtain ⟨hrun, hevents⟩ := ih (run.next htaken) hexec
        refine ⟨hrun, ?_⟩
        rw [hevents, events_append, List.append_assoc]
        rfl

/-- Every state along a run satisfies what its steps preserve. -/
theorem invariant {Inv : List (Taken σ ε ω) → σ → Prop} (hstart : Inv [] s₀)
    (hnext : ∀ h s e o s', Run step s₀ h s → Inv h s → step s e = .ok (o, s') →
      Inv (h ++ [⟨s, e, o, s'⟩]) s') (run : Run step s₀ h s) : Inv h s := by
  induction run with
  | start => exact hstart
  | next run taken ih => exact hnext _ _ _ _ _ run ih taken

/-- The part of a run before one of its transitions. -/
theorem before {x : Taken σ ε ω} {t : List (Taken σ ε ω)} (run : Run step s₀ (h ++ x :: t) s) :
    Run step s₀ h x.pre ∧ step x.pre x.event = .ok (x.out, x.post) := by
  generalize hall : h ++ x :: t = all at run
  induction run generalizing t with
  | start => exact absurd hall (by simp)
  | next run taken ih =>
      obtain rfl | ⟨t, y, rfl⟩ := List.eq_nil_or_concat t
      · obtain ⟨rfl, hx⟩ := List.append_inj' hall rfl
        obtain rfl := List.singleton_injective hx
        exact ⟨run, taken⟩
      · rw [List.concat_eq_append, ← List.cons_append, ← List.append_assoc] at hall
        exact ih (List.append_inj' hall rfl).1

/-- The events determine the run. -/
theorem unique {h' : List (Taken σ ε ω)} {s' : σ} (run : Run step s₀ h s)
    (run' : Run step s₀ h' s') (hevents : events h = events h') : h = h' ∧ s = s' := by
  induction run generalizing h' s' with
  | start =>
      cases run' with
      | start => exact ⟨rfl, rfl⟩
      | next => exact absurd hevents (by simp)
  | next run taken ih =>
      cases run' with
      | start => exact absurd hevents (by simp)
      | next run' taken' =>
          rw [events_append, events_append] at hevents
          obtain ⟨hevents, he⟩ := List.append_inj' hevents rfl
          obtain ⟨rfl, rfl⟩ := ih run' hevents
          obtain rfl := List.singleton_injective he
          obtain ⟨rfl, rfl⟩ := Prod.mk.inj (Except.ok.inj (taken.symm.trans taken'))
          exact ⟨rfl, rfl⟩

/-- The transition of a run at which another one has come to its next event. -/
theorem taken_at {h' : List (Taken σ ε ω)} {s' : σ} {e : ε} (run : Run step s₀ h s)
    (run' : Run step s₀ h' s') (hwhere : events h' ++ [e] <+: events h) :
    ∃ x t, h = h' ++ x :: t ∧ x.pre = s' ∧ x.event = e := by
  obtain ⟨es, hes⟩ := hwhere
  rw [List.append_assoc, List.singleton_append] at hes
  obtain ⟨h₁, t₁, rfl, hevents, hrest⟩ := List.map_eq_append_iff.mp hes.symm
  obtain ⟨x, t, rfl, hx, -⟩ := List.map_eq_cons_iff.mp hrest
  obtain ⟨rfl, hpre⟩ := run.before.1.unique run' hevents
  exact ⟨x, t, rfl, hpre, hx⟩

end Run

/-- What holds whenever the run of these events comes to its next event. -/
def Along (step : σ → ε → Except φ (ω × σ)) (s₀ : σ) (es : List ε)
    (P : List (Taken σ ε ω) → σ → ε → Prop) : Prop :=
  ∀ h s e, Run step s₀ h s → events h ++ [e] <+: es → P h s e

/-- What holds in every state the run of these events reaches. -/
def Throughout (step : σ → ε → Except φ (ω × σ)) (s₀ : σ) (es : List ε)
    (Q : List (Taken σ ε ω) → σ → Prop) : Prop :=
  ∀ h s, Run step s₀ h s → events h <+: es → Q h s

/-- `Along`, read off by executing the events from a point of the run. -/
def AlongFrom (step : σ → ε → Except φ (ω × σ)) (P : List (Taken σ ε ω) → σ → ε → Prop) :
    List ε → List (Taken σ ε ω) → σ → Prop
  | [], _, _ => True
  | e :: es, h, s => P h s e ∧
    match step s e with
    | .error _ => True
    | .ok (o, s') => AlongFrom step P es (h ++ [⟨s, e, o, s'⟩]) s'

instance AlongFrom.decidable {P : List (Taken σ ε ω) → σ → ε → Prop}
    [∀ h s e, Decidable (P h s e)] :
    ∀ es h s, Decidable (AlongFrom step P es h s)
  | [], _, _ => isTrue trivial
  | e :: es, h, s =>
    match hstep : step s e with
    | .error _ => decidable_of_iff (P h s e) (by rw [AlongFrom, hstep, and_true])
    | .ok (o, s') =>
      have := AlongFrom.decidable (P := P) es (h ++ [⟨s, e, o, s'⟩]) s'
      decidable_of_iff (P h s e ∧ AlongFrom step P es (h ++ [⟨s, e, o, s'⟩]) s')
        (by rw [AlongFrom, hstep])

theorem along_of_alongFrom {P : List (Taken σ ε ω) → σ → ε → Prop} {es : List ε}
    (run : Run step s₀ h s) (hfrom : AlongFrom step P es h s) {h' : List (Taken σ ε ω)} {s' : σ}
    {e : ε} (run' : Run step s₀ h' s') (hlater : events h <+: events h')
    (hes : events h' ++ [e] <+: events h ++ es) : P h' s' e := by
  induction es generalizing h s with
  | nil =>
      have hlen := hes.length_le
      have hlen' := hlater.length_le
      rw [List.append_nil, List.length_append, List.length_singleton] at hlen
      omega
  | cons e₀ es ih =>
      obtain ⟨t, ht⟩ := hlater
      rw [← ht, List.append_assoc] at hes
      have hnext := (List.prefix_append_right_inj _).mp hes
      cases t with
      | nil =>
          rw [List.append_nil] at ht
          obtain ⟨rfl, rfl⟩ := run.unique run' ht
          cases (List.cons_prefix_cons.mp hnext).1
          exact hfrom.1
      | cons e₁ t =>
          cases (List.cons_prefix_cons.mp hnext).1
          obtain ⟨h₁, t₁, rfl, hevents, hrest⟩ := List.map_eq_append_iff.mp ht.symm
          obtain ⟨x, t₂, rfl, hx, -⟩ := List.map_eq_cons_iff.mp hrest
          obtain ⟨hbefore, htaken⟩ := run'.before
          obtain ⟨rfl, hpre⟩ := run.unique hbefore hevents.symm
          have hsnd := hfrom.2
          rw [hpre, ← hx, htaken] at hsnd
          change AlongFrom step P es (h ++ [x]) x.post at hsnd
          have run₁ : Run step s₀ (h ++ [x]) x.post := hbefore.next htaken
          refine ih run₁ hsnd ?_ ?_
          · exact ⟨events t₂, by simp [events]⟩
          · rw [events_append, hx, List.append_assoc, ← ht, List.append_assoc]
            exact (List.prefix_append_right_inj _).mpr hnext

/-- What holds along the events of a run holds along one more if it holds where the run ends. -/
theorem Along.concat {P : List (Taken σ ε ω) → σ → ε → Prop} {e : ε} (run : Run step s₀ h s)
    (along : Along step s₀ (events h) P) (hP : P h s e) : Along step s₀ (events h ++ [e]) P := by
  intro h' s' e' run' hprefix
  rcases List.prefix_concat_iff.mp hprefix with heq | hbefore
  · obtain ⟨hevents, he⟩ := List.append_inj' heq rfl
    obtain ⟨rfl, rfl⟩ := run'.unique run hevents
    obtain rfl := List.singleton_injective he
    exact hP
  · exact along h' s' e' run' hbefore

section Compare

variable {P C : List (Taken σ ε ω) → σ → ε → Prop} {Inv Q : List (Taken σ ε ω) → σ → Prop}

/-- An invariant of the steps that meet a condition holds in every run that meets it. -/
theorem throughout_of_along (hstart : Inv [] s₀)
    (hnext : ∀ h s e o s', Run step s₀ h s → Inv h s → C h s e → step s e = .ok (o, s') →
      Inv (h ++ [⟨s, e, o, s'⟩]) s') {es : List ε} (hC : Along step s₀ es C) :
    Throughout step s₀ es Inv := by
  intro h s run hes
  induction run with
  | start => exact hstart
  | @next h s s' e o run taken ih =>
      rw [events_append] at hes
      have hbefore : events h <+: es := (List.prefix_append _ _).trans hes
      exact hnext h s e o s' run (ih hbefore) (hC h s e run hes) taken

/-- Two properties of situations that agree on the prefixes of these events. -/
theorem along_congr {es : List ε} (h : ∀ h s e, events h ++ [e] <+: es → (P h s e ↔ C h s e)) :
    Along step s₀ es P ↔ Along step s₀ es C := by
  constructor
  · intro hP h' s e run hes
    exact (h h' s e hes).mp (hP h' s e run hes)
  · intro hC h' s e run hes
    exact (h h' s e hes).mpr (hC h' s e run hes)

/-- Two properties of situations that agree under an invariant, which either of them keeps,
agree along every run. -/
theorem along_iff (hstart : Inv [] s₀)
    (hiff : ∀ h s e, Run step s₀ h s → Inv h s → (P h s e ↔ C h s e))
    (hnext : ∀ h s e o s', Run step s₀ h s → Inv h s → C h s e → step s e = .ok (o, s') →
      Inv (h ++ [⟨s, e, o, s'⟩]) s') (es : List ε) :
    Along step s₀ es P ↔ Along step s₀ es C := by
  constructor
  · intro hP
    have hInv : Throughout step s₀ es Inv :=
      throughout_of_along hstart
        (fun h s e o s' run hinv hp => hnext h s e o s' run hinv ((hiff h s e run hinv).mp hp)) hP
    intro h s e run hes
    have hbefore : events h <+: es := (List.prefix_append _ _).trans hes
    exact (hiff h s e run (hInv h s run hbefore)).mp (hP h s e run hes)
  · intro hC
    have hInv : Throughout step s₀ es Inv := throughout_of_along hstart hnext hC
    intro h s e run hes
    have hbefore : events h <+: es := (List.prefix_append _ _).trans hes
    exact (hiff h s e run (hInv h s run hbefore)).mpr (hC h s e run hes)

/-- A property of states holds throughout a run when it holds at the start and after every
step. -/
theorem throughout_iff (hstart : Q [] s₀) (es : List ε) :
    Throughout step s₀ es Q ↔
      Along step s₀ es fun h s e => ∀ o s', step s e = .ok (o, s') → Q (h ++ [⟨s, e, o, s'⟩]) s' := by
  constructor
  · intro hQ h s e run hes o s' taken
    exact hQ _ _ (run.next taken) (by rwa [events_append])
  · intro hsteps h s run hes
    cases run with
    | start => exact hstart
    | next run taken =>
        rw [events_append] at hes
        exact hsteps _ _ _ run hes _ _ taken

/-- The same comparison for a property of states, with the condition asked of steps taken. -/
theorem throughout_iff_along (hstart : Inv [] s₀) (hstartQ : Q [] s₀)
    (hiff : ∀ h s e o s', Run step s₀ h s → Inv h s → step s e = .ok (o, s') →
      (Q (h ++ [⟨s, e, o, s'⟩]) s' ↔ C h s e))
    (hnext : ∀ h s e o s', Run step s₀ h s → Inv h s → C h s e → step s e = .ok (o, s') →
      Inv (h ++ [⟨s, e, o, s'⟩]) s') (es : List ε) :
    Throughout step s₀ es Q ↔
      Along step s₀ es fun h s e => (∃ o s', step s e = .ok (o, s')) → C h s e := by
  refine (throughout_iff hstartQ es).trans (along_iff hstart ?_ ?_ es)
  · intro h s e run hinv
    constructor
    · rintro hQ ⟨o, s', taken⟩
      exact (hiff h s e o s' run hinv taken).mp (hQ o s' taken)
    · intro hC o s' taken
      exact (hiff h s e o s' run hinv taken).mpr (hC ⟨o, s', taken⟩)
  · intro h s e o s' run hinv hC taken
    exact hnext h s e o s' run hinv (hC ⟨o, s', taken⟩) taken

end Compare

end Lts
