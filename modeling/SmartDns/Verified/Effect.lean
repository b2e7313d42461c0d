import Mathlib.Order.Basic

/-!
# Programs over effects

A program is a tree: it is done with a value, or it calls an operation and
continues with whatever the environment answers. Tasks of an asynchronous
server are of this kind, an operation being whatever the task awaits, and
`select` interleaves two of them until the first is done, as the combinator of
that name does.

A `Contract` says of each operation what a caller owes before the call and
what it may assume of the answer, in terms of a ghost state that records as
much of the history as the property at hand needs. `Sat` is the weakest
precondition of a program under a contract. `Keeps` is the form of it that
survives interleaving with another program on the same ghost state: it asks
that every call stays allowed, and every result good, however far the history
has grown in the meantime.
-/

namespace SmartDns.Verified

/-- A program that calls operations `o : O`, answered in `R o`. -/
inductive Prog (O : Type) (R : O → Type) (α : Type) where
  | done (a : α)
  | call (o : O) (k : R o → Prog O R α)

variable {O : Type} {R : O → Type} {α β δ : Type}

namespace Prog

/-- Sequencing. -/
def bind (p : Prog O R α) (f : α → Prog O R β) : Prog O R β :=
  match p with
  | .done a => f a
  | .call o k => .call o fun r => (k r).bind f

instance : Monad (Prog O R) where
  pure := .done
  bind := Prog.bind

/-- Call one operation and return its answer. -/
def perform (o : O) : Prog O R (R o) := .call o .done

@[simp] theorem pure_eq (a : α) : (pure a : Prog O R α) = .done a := rfl

@[simp] theorem done_bind (a : α) (f : α → Prog O R β) : (Prog.done a >>= f) = f a := rfl

@[simp] theorem call_bind (o : O) (k : R o → Prog O R α) (f : α → Prog O R β) :
    (Prog.call o k >>= f) = .call o fun r => k r >>= f := rfl

@[simp] theorem perform_bind (o : O) (f : R o → Prog O R β) :
    (Prog.perform o >>= f) = .call o f := rfl

theorem bind_assoc (p : Prog O R α) (f : α → Prog O R β) (g : β → Prog O R δ) :
    (p >>= f >>= g) = p >>= fun a => f a >>= g := by
  induction p with
  | done a => rfl
  | call o k ih => exact congrArg (Prog.call o) (funext ih)

/-! ## Traces -/

/-- Called and answered in this order, the operations lead `p` to the value. -/
inductive Yields : Prog O R α → List (Sigma R) → α → Prop where
  | done (a : α) : Yields (.done a) [] a
  | call {o : O} {k : R o → Prog O R α} {r : R o} {t : List (Sigma R)} {a : α}
      (h : Yields (k r) t a) : Yields (.call o k) (⟨o, r⟩ :: t) a

variable {p : Prog O R α} {t : List (Sigma R)} {a : α}

/-- A trace determines the value a program returns. -/
theorem Yields.unique {b : α} (ha : Yields p t a) : Yields p t b → a = b := by
  induction ha with
  | done a =>
    intro hb
    cases hb
    rfl
  | call _ ih =>
    intro hb
    cases hb with
    | call hb => exact ih hb

/-- The operations of a sequence are those of its parts, one after the other. -/
theorem Yields.bind_inv {f : α → Prog O R β} {b : β} (p : Prog O R α) :
    ∀ {t : List (Sigma R)}, Yields (p >>= f) t b →
      ∃ t₁ t₂ a, t = t₁ ++ t₂ ∧ Yields p t₁ a ∧ Yields (f a) t₂ b := by
  induction p with
  | done a =>
    intro t h
    exact ⟨[], t, a, rfl, .done a, h⟩
  | call o k ih =>
    intro t h
    cases h with
    | call hRest =>
      obtain ⟨t₁, t₂, a, hEq, hFirst, hSecond⟩ := ih _ hRest
      exact ⟨_ :: t₁, t₂, a, by rw [hEq]; rfl, .call hFirst, hSecond⟩

/-- A program stops at the same place of a list of answers, with the same result. -/
theorem Yields.prefix_unique {t' u u' : List (Sigma R)} {a' : α} (h : Yields p t a) :
    Yields p t' a' → t ++ u = t' ++ u' → t = t' ∧ a = a' := by
  induction h generalizing t' with
  | done a =>
    intro h' _
    cases h'
    exact ⟨rfl, rfl⟩
  | call _ ih =>
    intro h' hEq
    cases h' with
    | call h' =>
      injection hEq with hHead hTail
      cases hHead
      obtain ⟨hTrace, hResult⟩ := ih h' hTail
      exact ⟨by rw [hTrace], hResult⟩

/-- A trace of a program and one of its continuation make a trace of the whole. -/
theorem Yields.seq {f : α → Prog O R β} {t' : List (Sigma R)} {b : β} (h : Yields p t a)
    (hf : Yields (f a) t' b) : Yields (p >>= f) (t ++ t') b := by
  induction h with
  | done a => exact hf
  | call _ ih => exact .call (ih hf)

/-- Mapping over the result changes nothing about the operations. -/
theorem Yields.map (f : α → β) (h : Yields p t a) : Yields (p >>= fun x => pure (f x)) t (f a) := by
  simpa using h.seq (f := fun x => pure (f x)) (.done (f a))

/-! ## Running alone -/

section Alone

variable {σ : Type} {step : σ → (o : O) → Option (R o × σ)}

/-- Run a program to its end on a state that nobody else changes. -/
def run (step : σ → (o : O) → Option (R o × σ)) : Prog O R α → σ → Option (α × σ)
  | .done a, s => some (a, s)
  | .call o k, s => (step s o).bind fun x => run step (k x.1) x.2

end Alone

/-! ## Racing two programs -/

/-- How a race ended: who is done, with the rest of the other. -/
inductive Either (O : Type) (R : O → Type) (α β : Type) where
  | left (a : α) (that : Prog O R β)
  | right (b : β) (this : Prog O R α)

/-- The race once the left program is known to call `o`. -/
def selectCall (choose : O) (toBool : R choose → Bool) (o : O) (k : R o → Prog O R α)
    (step : R o → Prog O R β → Prog O R (Either O R α β)) :
    Prog O R β → Prog O R (Either O R α β)
  | .done b => .done (.right b (.call o k))
  | .call o' k' => .call choose fun c =>
    if toBool c then .call o fun r => step r (.call o' k')
    else .call o' fun r => selectCall choose toBool o k step (k' r)

/-- Interleave two programs, the scheduler choosing who moves, until one is done. -/
def select (choose : O) (toBool : R choose → Bool) :
    Prog O R α → Prog O R β → Prog O R (Either O R α β)
  | .done a => fun q => .done (.left a q)
  | .call o k => selectCall choose toBool o k fun r => select choose toBool (k r)

end Prog

/-! ## Contracts -/

/-- What each operation asks of its caller and promises to it. -/
structure Contract (O : Type) (R : O → Type) (γ : Type) where
  pre : O → γ → Prop
  post : (o : O) → γ → R o → γ → Prop

variable {γ : Type} (C : Contract O R γ)

/-- From ghost state `g` every call of `p` is allowed and the result meets `Q`. -/
def Sat : Prog O R α → γ → (α → γ → Prop) → Prop
  | .done a, g, Q => Q a g
  | .call o k, g, Q => C.pre o g ∧ ∀ r g', C.post o g r g' → Sat (k r) g' Q

namespace Sat

variable {C}

variable {Q : α → γ → Prop}

theorem mono {Q' : α → γ → Prop} (hQ : ∀ a g, Q a g → Q' a g) (p : Prog O R α) :
    ∀ {g : γ}, Sat C p g Q → Sat C p g Q' := by
  induction p with
  | done a =>
    intro g h
    exact hQ a g h
  | call o k ih =>
    intro g h
    exact ⟨h.1, fun r g' hPost => ih r (h.2 r g' hPost)⟩

theorem bind {Q : β → γ → Prop} {f : α → Prog O R β} (p : Prog O R α) :
    ∀ {g : γ}, Sat C p g (fun a g' => Sat C (f a) g' Q) → Sat C (p >>= f) g Q := by
  induction p with
  | done a =>
    intro g h
    exact h
  | call o k ih =>
    intro g h
    exact ⟨h.1, fun r g' hPost => ih r (h.2 r g' hPost)⟩

/-- Sequencing with an intermediate assertion. -/
theorem seq {Q' : β → γ → Prop} {f : α → Prog O R β} {p : Prog O R α} {g : γ} (hp : Sat C p g Q)
    (hf : ∀ a g', Q a g' → Sat C (f a) g' Q') : Sat C (p >>= f) g Q' :=
  bind p (mono hf p hp)

theorem perform {o : O} {k : R o → Prog O R α} {g : γ} (hPre : C.pre o g)
    (hk : ∀ r g', C.post o g r g' → Sat C (k r) g' Q) : Sat C (Prog.perform o >>= k) g Q :=
  ⟨hPre, hk⟩

/-- Along a trace whose answers are as promised, where the ghost state is a function of them. -/
theorem yields (track : γ → Sigma R → γ) {p : Prog O R α} {t : List (Sigma R)} {a : α}
    (hYields : Prog.Yields p t a) :
    ∀ {g : γ}, Sat C p g Q → (∀ x ∈ t, ∀ g', C.post x.1 g' x.2 (track g' x)) →
      Q a (t.foldl track g) := by
  induction hYields with
  | done a =>
    intro g h _
    exact h
  | call _ ih =>
    intro g h hPost
    exact ih (h.2 _ _ (hPost _ List.mem_cons_self g)) fun x hx =>
      hPost x (.tail _ hx)

end Sat

/-- Two contracts, each with a ghost state of its own. -/
def Contract.prod {γ' : Type} (C : Contract O R γ) (C' : Contract O R γ') :
    Contract O R (γ × γ') where
  pre o g := C.pre o g.1 ∧ C'.pre o g.2
  post o g r g' := C.post o g.1 r g'.1 ∧ C'.post o g.2 r g'.2

/-- Two contracts met by one program are met together, each on its own ghost. -/
theorem Sat.prod {γ' : Type} {C : Contract O R γ} {C' : Contract O R γ'} {Q : α → γ → Prop}
    {Q' : α → γ' → Prop} (p : Prog O R α) :
    ∀ {g : γ} {g' : γ'}, Sat C p g Q → Sat C' p g' Q' →
      Sat (C.prod C') p (g, g') fun a h => Q a h.1 ∧ Q' a h.2 := by
  induction p with
  | done a =>
    intro g g' h h'
    exact ⟨h, h'⟩
  | call o k ih =>
    intro g g' h h'
    exact ⟨⟨h.1, h'.1⟩, fun r x hPost => ih r (h.2 r x.1 hPost.1) (h'.2 r x.2 hPost.2)⟩

/-- The same contract, for programs that keep to the operations in `A`. -/
def Contract.within (C : Contract O R γ) (A : O → Prop) : Contract O R γ where
  pre o g := A o ∧ C.pre o g
  post := C.post

theorem Sat.of_within {C : Contract O R γ} {A : O → Prop} {Q : α → γ → Prop} (p : Prog O R α) :
    ∀ {g : γ}, Sat (C.within A) p g Q → Sat C p g Q := by
  induction p with
  | done a =>
    intro g h
    exact h
  | call o k ih =>
    intro g h
    exact ⟨h.1.2, fun r g' hPost => ih r (h.2 r g' hPost)⟩

/-! ## Interference -/

/-- A preorder of ghost states: how the history of a task may grow. -/
structure Growth (γ : Type) where
  le : γ → γ → Prop
  refl : ∀ g, le g g
  trans : ∀ {g g' g'' : γ}, le g g' → le g' g'' → le g g''

variable (L : Growth γ)

/-- From every ghost state later than `g`, every call of `p` is allowed and makes the
history grow, and the result meets `Q` from then on. -/
def Keeps : Prog O R α → γ → (α → γ → Prop) → Prop
  | .done a, g, Q => ∀ g', L.le g g' → Q a g'
  | .call o k, g, Q => ∀ g₁, L.le g g₁ →
      C.pre o g₁ ∧ ∀ r g₂, C.post o g₁ r g₂ → L.le g₁ g₂ ∧ Keeps (k r) g₂ Q

namespace Keeps

variable {C} {L}

variable {Q : α → γ → Prop}

/-- What holds of a program holds at every later time. -/
theorem later {p : Prog O R α} {g g' : γ} (h : Keeps C L p g Q) (hLater : L.le g g') :
    Keeps C L p g' Q := by
  cases p with
  | done a =>
    intro g'' hLater'
    exact h g'' (L.trans hLater hLater')
  | call o k =>
    intro g₁ hLater'
    exact h g₁ (L.trans hLater hLater')

theorem mono {Q' : α → γ → Prop} (p : Prog O R α) :
    ∀ {g : γ}, (∀ a g', L.le g g' → Q a g' → Q' a g') → Keeps C L p g Q → Keeps C L p g Q' := by
  induction p with
  | done a =>
    intro g hQ h g' hLater
    exact hQ a g' hLater (h g' hLater)
  | call o k ih =>
    intro g hQ h g₁ hLater
    refine ⟨(h g₁ hLater).1, ?_⟩
    intro r g₂ hPost
    obtain ⟨hGrow, hRest⟩ := (h g₁ hLater).2 r g₂ hPost
    refine ⟨hGrow, ih r ?_ hRest⟩
    intro a g' hLater'
    exact hQ a g' (L.trans hLater (L.trans hGrow hLater'))

/-- A continuation that keeps `L` from wherever the first program ends keeps it throughout. -/
theorem seq {Q' : β → γ → Prop} {f : α → Prog O R β} (p : Prog O R α) :
    ∀ {g : γ}, Keeps C L p g Q → (∀ a g', L.le g g' → Q a g' → Keeps C L (f a) g' Q') →
      Keeps C L (p >>= f) g Q' := by
  induction p with
  | done a =>
    intro g hp hf
    exact hf a g (L.refl g) (hp g (L.refl g))
  | call o k ih =>
    intro g hp hf g₁ hLater
    refine ⟨(hp g₁ hLater).1, ?_⟩
    intro r g₂ hPost
    obtain ⟨hGrow, hRest⟩ := (hp g₁ hLater).2 r g₂ hPost
    refine ⟨hGrow, ih r hRest ?_⟩
    intro a g' hLater'
    exact hf a g' (L.trans hLater (L.trans hGrow hLater'))

/-- Without interference, a program that keeps its promises meets its contract. -/
theorem sat (p : Prog O R α) :
    ∀ {g : γ}, Keeps C L p g Q → Sat C p g (fun a g' => L.le g g' ∧ Q a g') := by
  induction p with
  | done a =>
    intro g h
    exact ⟨L.refl g, h g (L.refl g)⟩
  | call o k ih =>
    intro g h
    refine ⟨(h g (L.refl g)).1, ?_⟩
    intro r g₂ hPost
    obtain ⟨hGrow, hRest⟩ := (h g (L.refl g)).2 r g₂ hPost
    exact Sat.mono (fun a g' hDone => ⟨L.trans hGrow hDone.1, hDone.2⟩) _ (ih r hRest)

/-- A result that is good stays so. -/
theorem always (p : Prog O R α) :
    ∀ {g : γ}, Keeps C L p g Q → Keeps C L p g (fun a g' => ∀ g'', L.le g' g'' → Q a g'') := by
  induction p with
  | done a =>
    intro g h g' hLater g'' hLater'
    exact h g'' (L.trans hLater hLater')
  | call o k ih =>
    intro g h g₁ hLater
    refine ⟨(h g₁ hLater).1, ?_⟩
    intro r g₂ hPost
    obtain ⟨hGrow, hRest⟩ := (h g₁ hLater).2 r g₂ hPost
    exact ⟨hGrow, ih r hRest⟩

/-- What a race of two programs leaves behind. -/
def EitherMeets (C : Contract O R γ) (L : Growth γ) (Qa : α → γ → Prop) (Qb : β → γ → Prop) :
    Prog.Either O R α β → γ → Prop
  | .left a that, g => (∀ g', L.le g g' → Qa a g') ∧ Keeps C L that g Qb
  | .right b this, g => (∀ g', L.le g g' → Qb b g') ∧ Keeps C L this g Qa

private theorem selectCall {choose : O} {toBool : R choose → Bool} {Qa : α → γ → Prop}
    {Qb : β → γ → Prop} (hChoose : ∀ g, C.pre choose g ∧ ∀ r g', C.post choose g r g' → L.le g g')
    {o : O} {k : R o → Prog O R α} {step : R o → Prog O R β → Prog O R (Prog.Either O R α β)}
    (hStep : ∀ r g, Keeps C L (k r) g Qa → ∀ q, Keeps C L q g Qb →
      Keeps C L (step r q) g (EitherMeets C L Qa Qb)) (q : Prog O R β) :
    ∀ {g : γ}, Keeps C L (.call o k) g Qa → Keeps C L q g Qb →
      Keeps C L (Prog.selectCall choose toBool o k step q) g (EitherMeets C L Qa Qb) := by
  induction q with
  | done b =>
    intro g hCall hq g' hLater
    exact ⟨fun g'' hLater' => hq g'' (L.trans hLater hLater'), hCall.later hLater⟩
  | call o' k' ih =>
    intro g hCall hq g₁ hLater
    refine ⟨(hChoose g₁).1, ?_⟩
    intro c g₂ hChosen
    have hGrow := (hChoose g₁).2 c g₂ hChosen
    refine ⟨hGrow, ?_⟩
    have hCall₂ := hCall.later (L.trans hLater hGrow)
    have hq₂ := hq.later (L.trans hLater hGrow)
    dsimp only
    by_cases hLeft : toBool c = true
    · rw [if_pos hLeft]
      intro g₃ hLater₃
      refine ⟨(hCall₂ g₃ hLater₃).1, ?_⟩
      intro r g₄ hr
      obtain ⟨hGrow₄, hRest⟩ := (hCall₂ g₃ hLater₃).2 r g₄ hr
      exact ⟨hGrow₄, hStep r g₄ hRest _ (hq₂.later (L.trans hLater₃ hGrow₄))⟩
    · rw [if_neg hLeft]
      intro g₃ hLater₃
      refine ⟨(hq₂ g₃ hLater₃).1, ?_⟩
      intro r g₄ hr
      obtain ⟨hGrow₄, hRest⟩ := (hq₂ g₃ hLater₃).2 r g₄ hr
      exact ⟨hGrow₄, ih r (hCall₂.later (L.trans hLater₃ hGrow₄)) hRest⟩

/-- Racing two programs that keep their promises under each other's interference. -/
theorem select {choose : O} {toBool : R choose → Bool} {Qa : α → γ → Prop} {Qb : β → γ → Prop}
    (hChoose : ∀ g, C.pre choose g ∧ ∀ r g', C.post choose g r g' → L.le g g') (p : Prog O R α) :
    ∀ {g : γ}, Keeps C L p g Qa → ∀ q : Prog O R β, Keeps C L q g Qb →
      Keeps C L (p.select choose toBool q) g (EitherMeets C L Qa Qb) := by
  induction p with
  | done a =>
    intro g hp q hq g' hLater
    exact ⟨fun g'' hLater' => hp g'' (L.trans hLater hLater'), hq.later hLater⟩
  | call o k ih =>
    intro g hp q hq
    exact selectCall hChoose (fun r g' hr q hq => ih r hr q hq) q hp hq

end Keeps

/-! ## Fixed answers -/

section Answered

variable (f : (o : O) → R o)

/-- The answers that a program asks `f` for. -/
def Prog.traceOf : Prog O R α → List (Sigma R)
  | .done _ => []
  | .call o k => ⟨o, f o⟩ :: traceOf (k (f o))

/-- What it returns under them. -/
def Prog.resultOf : Prog O R α → α
  | .done a => a
  | .call o k => resultOf (k (f o))

theorem Prog.yields_traceOf (p : Prog O R α) : Prog.Yields p (p.traceOf f) (p.resultOf f) := by
  induction p with
  | done a => exact .done a
  | call o k ih => exact .call (ih (f o))

end Answered

/-! ## Confinement and reliance -/

/-- As long as every answer is in `B`, the program calls only operations in `A` and returns a
value in `Q`. -/
def Ensures (A : O → Prop) (B : (o : O) → R o → Prop) (Q : α → Prop) : Prog O R α → Prop
  | .done a => Q a
  | .call o k => A o ∧ ∀ r, B o r → Ensures A B Q (k r)

/-- Whatever it is answered, the program calls only operations in `A` and returns a value in `Q`. -/
def Only (A : O → Prop) (Q : α → Prop) : Prog O R α → Prop
  | .done a => Q a
  | .call o k => A o ∧ ∀ r, Only A Q (k r)

namespace Ensures

variable {A : O → Prop} {B : (o : O) → R o → Prop}

variable {Q : α → Prop}

theorem mono {Q' : α → Prop} (hQ : ∀ a, Q a → Q' a) (p : Prog O R α) (h : Ensures A B Q p) :
    Ensures A B Q' p := by
  induction p with
  | done a => exact hQ a h
  | call o k ih => exact ⟨h.1, fun r hr => ih r (h.2 r hr)⟩

theorem seq {Q' : β → Prop} {f : α → Prog O R β} (p : Prog O R α) (hp : Ensures A B Q p)
    (hf : ∀ a, Q a → Ensures A B Q' (f a)) : Ensures A B Q' (p >>= f) := by
  induction p with
  | done a => exact hf a hp
  | call o k ih => exact ⟨hp.1, fun r hr => ih r (hp.2 r hr)⟩

theorem perform {o : O} {k : R o → Prog O R α} (hA : A o) (hk : ∀ r, B o r → Ensures A B Q (k r)) :
    Ensures A B Q (Prog.perform o >>= k) :=
  ⟨hA, hk⟩

theorem weaken {A' : O → Prop} (hA : ∀ o, A o → A' o) (p : Prog O R α) (h : Ensures A B Q p) :
    Ensures A' B Q p := by
  induction p with
  | done a => exact h
  | call o k ih => exact ⟨hA o h.1, fun r hr => ih r (h.2 r hr)⟩

theorem anything (p : Prog O R α) : Ensures (fun _ => True) B (fun _ => True) p := by
  induction p with
  | done a => trivial
  | call o k ih => exact ⟨trivial, fun r _ => ih r⟩

/-- Along a trace of answers in `B`. -/
theorem yields {p : Prog O R α} {t : List (Sigma R)} {a : α} (hRun : Prog.Yields p t a)
    (h : Ensures A B Q p) (hB : ∀ x ∈ t, B x.1 x.2) : Q a := by
  induction hRun with
  | done a => exact h
  | call hRest ih =>
    have hHead := hB _ List.mem_cons_self
    exact ih (h.2 _ hHead) fun x hx => hB x (.tail _ hx)

/-- From a contract whose operations are in `A`: each answer in `B` is one that it allows, and
leads to a ghost state with the property `J`. -/
theorem of_sat {C : Contract O R γ} {J : γ → Prop} {Q : α → γ → Prop}
    (hPre : ∀ o g, C.pre o g → A o)
    (hPost : ∀ o g r, C.pre o g → B o r → J g → ∃ g', C.post o g r g' ∧ J g') (p : Prog O R α) :
    ∀ {g : γ}, Sat C p g Q → J g → Ensures A B (fun a => ∃ g', Q a g' ∧ J g') p := by
  induction p with
  | done a =>
    intro g h hJ
    exact ⟨g, h, hJ⟩
  | call o k ih =>
    intro g h hJ
    refine ⟨hPre o g h.1, ?_⟩
    intro r hr
    obtain ⟨g', hAllowed, hJ'⟩ := hPost o g r h.1 hr hJ
    exact ih r (h.2 r g' hAllowed) hJ'

/-- To a contract: the operations in `A` are allowed, and answered within `B`, for as long as
the ghost state has the property `J`, which they keep. -/
theorem sat {C : Contract O R γ} {J : γ → Prop}
    (hOp : ∀ o g, A o → J g → C.pre o g ∧ ∀ r g', C.post o g r g' → B o r ∧ J g') (p : Prog O R α)
    (hp : Ensures A B Q p) :
    ∀ {g : γ}, J g → Sat C p g (fun a g' => Q a ∧ J g') := by
  induction p with
  | done a =>
    intro g hJ
    exact ⟨hp, hJ⟩
  | call o k ih =>
    intro g hJ
    obtain ⟨hPre, hPost⟩ := hOp o g hp.1 hJ
    refine ⟨hPre, ?_⟩
    intro r g' hr
    obtain ⟨hB, hJ'⟩ := hPost r g' hr
    exact ih r (hp.2 r hB) hJ'

/-- Under interference: whatever was answered on the way to `g'` is in `B g'`. -/
theorem keeps {C : Contract O R γ} {L : Growth γ} {B : γ → (o : O) → R o → Prop}
    {Q : α → γ → Prop}
    (hOp : ∀ o g, A o → C.pre o g ∧ ∀ r g₁, C.post o g r g₁ →
      L.le g g₁ ∧ ∀ g', L.le g₁ g' → B g' o r) (p : Prog O R α) :
    ∀ {g : γ}, (∀ g', L.le g g' → Ensures A (B g') (fun a => Q a g') p) → Keeps C L p g Q := by
  induction p with
  | done a =>
    intro g h
    exact h
  | call o k ih =>
    intro g h g₁ hLater
    obtain ⟨hPre, hPost⟩ := hOp o g₁ (h g₁ hLater).1
    refine ⟨hPre, ?_⟩
    intro r g₂ hr
    obtain ⟨hGrow, hB⟩ := hPost r g₂ hr
    refine ⟨hGrow, ih r ?_⟩
    intro g' hLater'
    exact (h g' (L.trans hLater (L.trans hGrow hLater'))).2 r (hB g' hLater')

/-- What a race leaves behind. -/
def EitherEnsures (A : O → Prop) (B : (o : O) → R o → Prop) (Qa : α → Prop) (Qb : β → Prop) :
    Prog.Either O R α β → Prop
  | .left a that => Qa a ∧ Ensures A B Qb that
  | .right b this => Qb b ∧ Ensures A B Qa this

private theorem selectCall {choose : O} {toBool : R choose → Bool} {Qa : α → Prop} {Qb : β → Prop}
    (hChoose : A choose) {o : O} {k : R o → Prog O R α}
    {step : R o → Prog O R β → Prog O R (Prog.Either O R α β)}
    (hCall : Ensures A B Qa (.call o k))
    (hStep : ∀ r q, B o r → Ensures A B Qb q → Ensures A B (EitherEnsures A B Qa Qb) (step r q))
    (q : Prog O R β) (hq : Ensures A B Qb q) :
    Ensures A B (EitherEnsures A B Qa Qb) (Prog.selectCall choose toBool o k step q) := by
  induction q with
  | done b => exact ⟨hq, hCall⟩
  | call o' k' ih =>
    refine ⟨hChoose, ?_⟩
    intro c _
    dsimp only
    split
    · exact ⟨hCall.1, fun r hr => hStep r _ hr hq⟩
    · exact ⟨hq.1, fun r hr => ih r (hq.2 r hr)⟩

theorem select {choose : O} {toBool : R choose → Bool} {Qa : α → Prop} {Qb : β → Prop}
    (hChoose : A choose) (p : Prog O R α) (hp : Ensures A B Qa p) :
    ∀ q : Prog O R β, Ensures A B Qb q →
      Ensures A B (EitherEnsures A B Qa Qb) (p.select choose toBool q) := by
  induction p with
  | done a =>
    intro q hq
    exact ⟨hp, hq⟩
  | call o k ih =>
    intro q hq
    exact selectCall hChoose hp (fun r q hr hq => ih r (hp.2 r hr) q hq) q hq

end Ensures

namespace Only

variable {A : O → Prop}

variable {Q : α → Prop}

/-- Confinement is the case in which nothing is relied on. -/
theorem iff_ensures (p : Prog O R α) : Only A Q p ↔ Ensures A (fun _ _ => True) Q p := by
  induction p with
  | done a => exact Iff.rfl
  | call o k ih =>
    refine and_congr_right fun _ => forall_congr' fun r => ?_
    rw [ih r, true_imp_iff]

theorem mono {Q' : α → Prop} (hQ : ∀ a, Q a → Q' a) (p : Prog O R α) (h : Only A Q p) :
    Only A Q' p :=
  (iff_ensures p).mpr (Ensures.mono hQ p ((iff_ensures p).mp h))

theorem seq {Q' : β → Prop} {f : α → Prog O R β} (p : Prog O R α) (hp : Only A Q p)
    (hf : ∀ a, Q a → Only A Q' (f a)) : Only A Q' (p >>= f) :=
  (iff_ensures _).mpr
    (Ensures.seq p ((iff_ensures p).mp hp) fun a ha => (iff_ensures (f a)).mp (hf a ha))

theorem weaken {B : O → Prop} (hA : ∀ o, A o → B o) (p : Prog O R α) (h : Only A Q p) : Only B Q p
    := by
  induction p with
  | done a => exact h
  | call o k ih => exact ⟨hA o h.1, fun r => ih r (h.2 r)⟩

theorem perform {o : O} {k : R o → Prog O R α} (hA : A o) (hk : ∀ r, Only A Q (k r)) :
    Only A Q (Prog.perform o >>= k) :=
  ⟨hA, hk⟩

/-- Along a trace. -/
theorem trace {p : Prog O R α} {t : List (Sigma R)} {a : α} (hRun : Prog.Yields p t a)
    (h : Only A Q p) : ∀ x ∈ t, A x.1 := by
  induction hRun with
  | done a => exact List.forall_mem_nil _
  | call hRest ih => exact List.forall_mem_cons.mpr ⟨h.1, ih (h.2 _)⟩

end Only

/-- A program confined to `A'` ensures what it ensures within `A'`. -/
theorem Ensures.within {A A' : O → Prop} {B : (o : O) → R o → Prop} {Q Q' : α → Prop}
    (p : Prog O R α) (h : Ensures A B Q p) (h' : Only A' Q' p) :
    Ensures (fun o => A o ∧ A' o) B Q p := by
  induction p with
  | done a => exact h
  | call o k ih => exact ⟨⟨h.1, h'.1⟩, fun r hr => ih r (h.2 r hr) (h'.2 r)⟩

/-! ## Programs that run alike -/

/-- For as long as every answer is in `B`, the programs call the same operations and return
related values. -/
inductive Alike (B : (o : O) → R o → Prop) (S : α → α → Prop) :
    Prog O R α → Prog O R α → Prop where
  | done {a a' : α} (h : S a a') : Alike B S (.done a) (.done a')
  | call {o : O} {k k' : R o → Prog O R α} (h : ∀ r, B o r → Alike B S (k r) (k' r)) :
      Alike B S (.call o k) (.call o k')

/-- The same value, which is in `Q`. -/
def Both (Q : α → Prop) (a a' : α) : Prop := a = a' ∧ Q a

namespace Alike

variable {A : O → Prop} {B B' : (o : O) → R o → Prop} {S : α → α → Prop} {T : β → β → Prop}
  {Q : α → Prop} {p p' : Prog O R α}

/-- A program runs like itself, with what it ensures of its result. -/
theorem self (hB : ∀ o r, A o → B o r → B' o r) (p : Prog O R α) (hp : Ensures A B' Q p) :
    Alike B (Both Q) p p := by
  induction p with
  | done a => exact .done ⟨rfl, hp⟩
  | call o k ih => exact .call fun r hr => ih r (hp.2 r (hB o r hp.1 hr))

theorem refl (p : Prog O R α) : Alike B (Both fun _ => True) p p :=
  self (fun _ _ _ h => h) p (Ensures.anything p)

theorem perform {o : O} {k k' : R o → Prog O R α} (h : ∀ r, B o r → Alike B S (k r) (k' r)) :
    Alike B S (Prog.perform o >>= k) (Prog.perform o >>= k') :=
  .call h

theorem mono {Q' : α → Prop} (hQ : ∀ a, Q a → Q' a) (h : Alike B (Both Q) p p') :
    Alike B (Both Q') p p' := by
  induction h with
  | done h => exact .done ⟨h.1, hQ _ h.2⟩
  | call _ ih => exact .call ih

/-- Programs alike up to `S` stay so when continuations alike on `S` follow. -/
theorem seq {f f' : α → Prog O R β} (hp : Alike B S p p')
    (hf : ∀ a a', S a a' → Alike B T (f a) (f' a')) : Alike B T (p >>= f) (p' >>= f') := by
  induction hp with
  | done h => exact hf _ _ h
  | call _ ih => exact .call ih

/-- How two races end that run alike. -/
inductive EitherAlike (B : (o : O) → R o → Prop) (S : α → α → Prop) (T : β → β → Prop) :
    Prog.Either O R α β → Prog.Either O R α β → Prop where
  | left {a a' : α} {that that' : Prog O R β} (h : S a a') (hRest : Alike B T that that') :
      EitherAlike B S T (.left a that) (.left a' that')
  | right {b b' : β} {this this' : Prog O R α} (h : T b b') (hRest : Alike B S this this') :
      EitherAlike B S T (.right b this) (.right b' this')

private theorem selectCall {choose : O} {toBool : R choose → Bool} {o : O}
    {k k' : R o → Prog O R α} {step step' : R o → Prog O R β → Prog O R (Prog.Either O R α β)}
    (hCall : ∀ r, B o r → Alike B S (k r) (k' r))
    (hStep : ∀ r q q', B o r → Alike B T q q' →
      Alike B (EitherAlike B S T) (step r q) (step' r q'))
    {q q' : Prog O R β} (hq : Alike B T q q') :
    Alike B (EitherAlike B S T) (Prog.selectCall choose toBool o k step q)
      (Prog.selectCall choose toBool o k' step' q') := by
  induction hq with
  | done h => exact .done (.right h (.call hCall))
  | call hRest ih =>
    refine .call ?_
    intro c _
    split
    · exact .call fun r hr => hStep r _ _ hr (.call hRest)
    · exact .call ih

/-- The scheduler can choose alike in both races. -/
theorem select {choose : O} {toBool : R choose → Bool} (hp : Alike B S p p') :
    ∀ {q q' : Prog O R β}, Alike B T q q' →
      Alike B (EitherAlike B S T) (p.select choose toBool q) (p'.select choose toBool q') := by
  induction hp with
  | done h =>
    intro q q' hq
    exact .done (.left h hq)
  | call h ih =>
    intro q q' hq
    exact selectCall h (fun r _ _ hr => ih r hr) hq

end Alike

end SmartDns.Verified
