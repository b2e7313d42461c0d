import SmartDns.Verified.Effect
import SmartDns.Verified.Trace
import Mathlib.Data.List.Perm.Basic

/-!
# Pools of interleaved tasks

A system runs any number of tasks over one shared world. An event either
starts a task or lets one task perform the operation it is waiting for; the
event carries the environment's share of the answer, so a run is a trace in the
sense of `runTrace`. Every task has a ghost state that the semantics updates
alongside the world and that no program can read.
-/

namespace SmartDns.Verified

/-- A running task: what it was started with, its ghost state and what is left of it. -/
structure Thread (O : Type) (R : O → Type) (γ ι α : Type) where
  info : ι
  ghost : γ
  prog : Prog O R α

/-- The tasks of a system and the world they share. -/
structure Pool (O : Type) (R : O → Type) (ω γ ι α : Type) where
  world : ω
  threads : List (Thread O R γ ι α)

/-- Start a task, or let the task at an index perform its operation. -/
inductive PoolEvent (ι ε : Type) where
  | spawn (info : ι)
  | step (tid : Nat) (answer : ε)

/-- A system: the program of each task and the meaning of each operation. -/
structure System (O : Type) (R : O → Type) (ω γ ι ε α : Type) where
  start : ι → Prog O R α
  ghost : ι → γ
  exec : ω → γ → (o : O) → ε → Option (R o × ω × γ)

namespace System

variable {O : Type} {R : O → Type} {ω γ ι ε α : Type} (S : System O R ω γ ι ε α)

/-- One task performs the operation it is waiting for. -/
def perform (w : ω) (t : Thread O R γ ι α) (e : ε) : Option (ω × Thread O R γ ι α) :=
  match t.prog with
  | .done _ => none
  | .call o k => (S.exec w t.ghost o e).map fun x => (x.2.1, ⟨t.info, x.2.2, k x.1⟩)

def step (p : Pool O R ω γ ι α) : PoolEvent ι ε → Option (Pool O R ω γ ι α)
  | .spawn info => some { p with threads := p.threads ++ [⟨info, S.ghost info, S.start info⟩] }
  | .step tid e =>
    (p.threads[tid]?).bind fun t =>
      (S.perform p.world t e).map fun x => ⟨x.1, p.threads.set tid x.2⟩

/-- A condition on the tasks started and on the operations performed. -/
def Meets (okStart : ι → Prop) (okExec : ω → γ → O → ε → Prop) (p : Pool O R ω γ ι α) :
    PoolEvent ι ε → Prop
  | .spawn info => okStart info
  | .step tid e => ∀ t o k, p.threads[tid]? = some t → t.prog = .call o k →
      okExec p.world t.ghost o e

/-- The ghost states of all tasks. -/
def ghosts (p : Pool O R ω γ ι α) : List γ := p.threads.map Thread.ghost

/-- An invariant of the world and of all ghost states, and the contract of what is left of
every task. -/
structure PoolInv (C : Contract O R γ) (J : ω → List γ → Prop) (Q : ι → α → γ → Prop)
    (p : Pool O R ω γ ι α) : Prop where
  shared : J p.world (ghosts p)
  threads : ∀ t ∈ p.threads, Sat C t.prog t.ghost (Q t.info)

/-- The world invariant, and the contract of what is left of every task. -/
structure Inv (C : Contract O R γ) (I : ω → Prop) (Q : ι → α → γ → Prop)
    (p : Pool O R ω γ ι α) : Prop where
  world : I p.world
  threads : ∀ t ∈ p.threads, Sat C t.prog t.ghost (Q t.info)

variable {S} {C : Contract O R γ} {J : ω → List γ → Prop} {I : ω → Prop} {Q : ι → α → γ → Prop}
  {ok : Pool O R ω γ ι α → PoolEvent ι ε → Prop}
  {okStart : ι → Prop} {okExec : ω → γ → O → ε → Prop}

variable {p : Pool O R ω γ ι α}

/-- All that an event can do: a task is added, or one performs its operation. -/
theorem step_cases {p' : Pool O R ω γ ι α} {e : PoolEvent ι ε} (h : S.step p e = some p') :
    (∃ info, e = .spawn info ∧
      p' = { p with threads := p.threads ++ [⟨info, S.ghost info, S.start info⟩] }) ∨
    ∃ tid a t o k r w' g', e = .step tid a ∧ p.threads[tid]? = some t ∧ t.prog = .call o k ∧
      S.exec p.world t.ghost o a = some (r, w', g') ∧
      p' = ⟨w', p.threads.set tid ⟨t.info, g', k r⟩⟩ := by
  cases e with
  | spawn info =>
    cases h
    exact .inl ⟨info, rfl, rfl⟩
  | step tid a =>
    obtain ⟨t, hThread, hRest⟩ := Option.bind_eq_some_iff.mp h
    obtain ⟨⟨w', t'⟩, hPerform, hEq⟩ := Option.map_eq_some_iff.mp hRest
    unfold perform at hPerform
    cases hProg : t.prog with
    | done a =>
      rw [hProg] at hPerform
      cases hPerform
    | call o k =>
      rw [hProg] at hPerform
      obtain ⟨⟨r, w₁, g₁⟩, hRun, hThread'⟩ := Option.map_eq_some_iff.mp hPerform
      cases hThread'
      exact .inr ⟨tid, a, t, o, k, r, w₁, g₁, rfl, hThread, hProg, hRun, hEq.symm⟩

section Rule

variable (hSpawn : ∀ p info, J p.world (ghosts p) → ok p (.spawn info) →
      Sat C (S.start info) (S.ghost info) (Q info) ∧ J p.world (ghosts p ++ [S.ghost info]))
  (hExec : ∀ p tid a t o k r w' g', J p.world (ghosts p) → p.threads[tid]? = some t →
      t.prog = .call o k → C.pre o t.ghost → ok p (.step tid a) →
      S.exec p.world t.ghost o a = some (r, w', g') →
      C.post o t.ghost r g' ∧ J w' ((ghosts p).set tid g'))

include hSpawn hExec

/-- One event of the pool keeps the invariant when it meets the condition. -/
theorem PoolInv.step {p p' : Pool O R ω γ ι α} {e : PoolEvent ι ε} (hInv : PoolInv C J Q p)
    (hOk : ok p e) (hStep : S.step p e = some p') : PoolInv C J Q p' := by
  rcases step_cases hStep with
    ⟨info, hEvent, hNext⟩ | ⟨tid, a, t, o, k, r, w', g', hEvent, hThread, hProg, hRun, hNext⟩
  · subst hEvent hNext
    obtain ⟨hSat, hShared⟩ := hSpawn p info hInv.shared hOk
    refine ⟨?_, ?_⟩
    · unfold ghosts at hShared ⊢
      rw [List.map_append]
      exact hShared
    · exact List.forall_mem_append.mpr ⟨hInv.threads, List.forall_mem_singleton.mpr hSat⟩
  · subst hEvent hNext
    have hSat := hInv.threads t (List.mem_of_getElem? hThread)
    rw [hProg] at hSat
    obtain ⟨hPost, hShared⟩ := hExec p tid a t o k r w' g' hInv.shared hThread hProg hSat.1 hOk hRun
    refine ⟨?_, ?_⟩
    · unfold ghosts at hShared ⊢
      rw [List.map_set]
      exact hShared
    · intro u hu
      rcases List.mem_or_eq_of_mem_set hu with hOld | hNew
      · exact hInv.threads u hOld
      · rw [hNew]
        exact hSat.2 r g' hPost

/-- The proof rule for pools. -/
theorem pool_invariant {w : ω} {es : List (PoolEvent ι ε)} {p : Pool O R ω γ ι α} (hJ : J w [])
    (hMeet : StepsMeet S.step ok ⟨w, []⟩ es) (hRun : runTrace S.step ⟨w, []⟩ es = some p) :
    PoolInv C J Q p :=
  runTrace_invariant S.step
    (fun _ _ _ hInv hOk hStep => PoolInv.step hSpawn hExec hInv hOk hStep) es
    ⟨hJ, fun _ ht => absurd ht List.not_mem_nil⟩ hMeet hRun

end Rule

/-- The rule for an invariant that does not depend on the order of the tasks: the task that moves
may be taken to be the first. -/
theorem symmetric_invariant (hPerm : ∀ w gs gs', gs.Perm gs' → J w gs → J w gs')
    (hSpawn : ∀ p info, J p.world (ghosts p) → ok p (.spawn info) →
      Sat C (S.start info) (S.ghost info) (Q info) ∧ J p.world (S.ghost info :: ghosts p))
    (hExec : ∀ p tid a t o k r w' g' rest, (ghosts p).Perm (t.ghost :: rest) →
      J p.world (t.ghost :: rest) → p.threads[tid]? = some t → t.prog = .call o k →
      C.pre o t.ghost → ok p (.step tid a) → S.exec p.world t.ghost o a = some (r, w', g') →
      C.post o t.ghost r g' ∧ J w' (g' :: rest))
    {w : ω} {es : List (PoolEvent ι ε)} (hJ : J w []) (hMeet : StepsMeet S.step ok ⟨w, []⟩ es)
    (hRun : runTrace S.step ⟨w, []⟩ es = some p) :
    PoolInv C J Q p := by
  refine pool_invariant ?_ ?_ hJ hMeet hRun
  · intro p info hShared hOk
    obtain ⟨hSat, hNext⟩ := hSpawn p info hShared hOk
    exact ⟨hSat, hPerm _ _ _ (List.perm_append_singleton _ _).symm hNext⟩
  · intro p tid a t o k r w' g' hShared hThread hProg hPre hOk hExecuted
    have hGhost : (ghosts p)[tid]? = some t.ghost := by
      unfold ghosts
      rw [List.getElem?_map, hThread]
      rfl
    obtain ⟨hLt, hGet⟩ := List.getElem?_eq_some_iff.mp hGhost
    have hBefore : (ghosts p).Perm (t.ghost :: (ghosts p).eraseIdx tid) := by
      rw [← hGet]
      exact (List.getElem_cons_eraseIdx_perm hLt).symm
    obtain ⟨hPost, hNext⟩ := hExec p tid a t o k r w' g' _ hBefore
      (hPerm _ _ _ hBefore hShared) hThread hProg hPre hOk hExecuted
    exact ⟨hPost, hPerm _ _ _ (List.set_perm_cons_eraseIdx hLt g').symm hNext⟩

/-- The rule for an invariant of the world alone. -/
theorem invariant (hStart : ∀ info, okStart info → Sat C (S.start info) (S.ghost info) (Q info))
    (hExec : ∀ w g o e r w' g', I w → C.pre o g → okExec w g o e →
      S.exec w g o e = some (r, w', g') → C.post o g r g' ∧ I w')
    {w : ω} {es : List (PoolEvent ι ε)} (hI : I w)
    (hMeet : StepsMeet S.step (Meets okStart okExec) ⟨w, []⟩ es)
    (hRun : runTrace S.step ⟨w, []⟩ es = some p) : Inv C I Q p := by
  suffices PoolInv C (fun w _ => I w) Q p from ⟨this.shared, this.threads⟩
  refine pool_invariant ?_ ?_ hI hMeet hRun
  · intro p info hWorld hOk
    exact ⟨hStart info hOk, hWorld⟩
  · intro p tid a t o k r w' g' hWorld hThread hProg hPre hOk hExecuted
    exact hExec p.world t.ghost o a r w' g' hWorld hPre (hOk t o k hThread hProg) hExecuted

variable {t : Thread O R γ ι α}

/-- The next call of a running task meets its precondition. -/
theorem PoolInv.pre_of_call (h : PoolInv C J Q p) {o : O} {k : R o → Prog O R α}
    (ht : t ∈ p.threads) (hProg : t.prog = .call o k) : C.pre o t.ghost := by
  have hSat := h.threads t ht
  rw [hProg] at hSat
  exact hSat.1

theorem PoolInv.post_of_done (h : PoolInv C J Q p) {a : α} (ht : t ∈ p.threads)
    (hProg : t.prog = .done a) :
    Q t.info a t.ghost := by
  have hSat := h.threads t ht
  rw [hProg] at hSat
  exact hSat

theorem Inv.pool (h : Inv C I Q p) : PoolInv C (fun w _ => I w) Q p :=
  ⟨h.world, h.threads⟩

theorem Inv.pre_of_call (h : Inv C I Q p) {o : O} {k : R o → Prog O R α} (ht : t ∈ p.threads)
    (hProg : t.prog = .call o k) :
    C.pre o t.ghost :=
  h.pool.pre_of_call ht hProg

theorem Inv.post_of_done (h : Inv C I Q p) {a : α} (ht : t ∈ p.threads) (hProg : t.prog = .done a) :
    Q t.info a t.ghost :=
  h.pool.post_of_done ht hProg

end System

end SmartDns.Verified
