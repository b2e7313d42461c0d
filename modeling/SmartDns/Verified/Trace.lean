import Mathlib.Data.List.Basic

/-!
# Finite traces of a partial step function

A system whose step function is deterministic once the event is known: every
choice of the environment is part of the event, and an event that cannot occur
in a state has no successor. A trace is a list of events. `StepsMeet` says that
each event of a trace satisfies a condition in the state before it, which is
how an assumption about the environment restricts the runs a result is about.
-/

namespace SmartDns.Verified

variable {σ ε : Type} (step : σ → ε → Option σ)

/-- The state after a list of events, if they can all occur in order. -/
def runTrace : σ → List ε → Option σ
  | s, [] => some s
  | s, e :: es => (step s e).bind fun s' => runTrace s' es

/-- Every event of the trace meets `ok` in the state it occurs in. -/
def StepsMeet (ok : σ → ε → Prop) : σ → List ε → Prop
  | _, [] => True
  | s, e :: es => ok s e ∧ ∀ s', step s e = some s' → StepsMeet ok s' es

theorem runTrace_cons_some {s s'' : σ} {e : ε} {es : List ε}
    (h : runTrace step s (e :: es) = some s'') :
    ∃ s', step s e = some s' ∧ runTrace step s' es = some s'' :=
  Option.bind_eq_some_iff.mp h

variable {ok : σ → ε → Prop}

/-- Invariants of steps that meet a condition are invariants of traces. -/
theorem runTrace_invariant {Inv : σ → Prop}
    (hStep : ∀ s e s', Inv s → ok s e → step s e = some s' → Inv s') (es : List ε) :
    ∀ {s s' : σ}, Inv s → StepsMeet step ok s es → runTrace step s es = some s' → Inv s' := by
  induction es with
  | nil =>
    intro s s' hInv _ hRun
    cases hRun
    exact hInv
  | cons e es ih =>
    intro s s'' hInv hMeet hRun
    obtain ⟨s', hFirst, hRest⟩ := runTrace_cons_some step hRun
    exact ih (hStep s e s' hInv hMeet.1 hFirst) (hMeet.2 s' hFirst) hRest

/-- Invariants of all steps are invariants of all traces. -/
theorem runTrace_always {Inv : σ → Prop}
    (hStep : ∀ s e s', Inv s → step s e = some s' → Inv s') (es : List ε) :
    ∀ {s s' : σ}, Inv s → runTrace step s es = some s' → Inv s' := by
  induction es with
  | nil =>
    intro s s' hInv hRun
    cases hRun
    exact hInv
  | cons e es ih =>
    intro s s'' hInv hRun
    obtain ⟨s', hFirst, hRest⟩ := runTrace_cons_some step hRun
    exact ih (hStep s e s' hInv hFirst) hRest

/-- A measure that every step lowers bounds the length of a trace. -/
theorem runTrace_length_le {μ : σ → Nat} (hStep : ∀ s e s', step s e = some s' → μ s' < μ s)
    (es : List ε) : ∀ {s s' : σ}, runTrace step s es = some s' → es.length + μ s' ≤ μ s := by
  induction es with
  | nil =>
    intro s s' hRun
    cases hRun
    simp
  | cons e es ih =>
    intro s s'' hRun
    obtain ⟨s', hFirst, hRest⟩ := runTrace_cons_some step hRun
    have hLess := hStep s e s' hFirst
    have hLength := ih hRest
    rw [List.length_cons]
    omega

/-- The condition that every event meets. -/
theorem stepsMeet_true (es : List ε) : ∀ s : σ, StepsMeet step (fun _ _ => True) s es := by
  induction es with
  | nil =>
    intro s
    trivial
  | cons e es ih =>
    intro s
    exact ⟨trivial, fun s' _ => ih s'⟩

/-! ## Checking concrete traces -/

/-- Whether every event of a trace passes a Boolean check. -/
def meets (check : σ → ε → Bool) : σ → List ε → Bool
  | _, [] => true
  | s, e :: es =>
    check s e &&
      match step s e with
      | none => true
      | some s' => meets check s' es

theorem stepsMeet_of_meets {check : σ → ε → Bool} (hCheck : ∀ s e, check s e = true → ok s e)
    (es : List ε) :
    ∀ {s : σ}, meets step check s es = true → StepsMeet step ok s es := by
  induction es with
  | nil =>
    intro s _
    trivial
  | cons e es ih =>
    intro s h
    rw [meets, Bool.and_eq_true] at h
    refine ⟨hCheck s e h.1, ?_⟩
    intro s' hStep
    have hRest := h.2
    rw [hStep] at hRest
    exact ih hRest

end SmartDns.Verified
