import Mathlib.Data.List.Perm.Subperm
import Mathlib.Algebra.Order.Group.Multiset
import Mathlib.Tactic.Abel
import SmartDns.Ports.DispatcherLoop

/-!
# Conservation of requests

Every request the loop receives must end up answered on its own channel, and
the counter the limiter reads must come back to zero. `Accounted` says where
each received request is in every reachable state, as an equation between bags:
in the receive buffer, in one of the two batches, unanswered in a task,
answered, or dropped. It holds in every run and makes the one leak visible. A
foreground batch for which no permit is free is dropped at the end of the
iteration with all its senders, and its requests stay in the counter for good.

Runs in which every foreground batch finds a free permit drop nothing.
-/

namespace SmartDns.Ports.DispatcherConservation

open Verified DispatcherLoop List

variable {μ ν : Type}

/-! ## Bags of tasks -/

/-- All requests of the tasks in the join set. -/
def taskRequests (tasks : List (BatchTask μ)) : List (Request μ) := tasks.flatMap BatchTask.batch

/-- The unanswered requests of the tasks in the join set. -/
def taskPending (tasks : List (BatchTask μ)) : List (Request μ) := tasks.flatMap BatchTask.pending

variable {α β : Type} {xs : List α} {i : Nat} {x : α}

/-- Taking a task out of the join set takes its requests out of the bag. -/
theorem flatMap_eraseIdx (f : α → List β) (h : xs[i]? = some x) :
    (↑(xs.flatMap f) : Multiset β) = ↑(f x) + ↑((xs.eraseIdx i).flatMap f) := by
  obtain ⟨hi, hx⟩ := List.getElem?_eq_some_iff.mp h
  have hPerm := (getElem_cons_eraseIdx_perm hi).flatMap_right f
  rw [hx] at hPerm
  exact Multiset.coe_eq_coe.mpr hPerm.symm

/-- Replacing a task replaces its share of the bag. -/
theorem flatMap_set (f : α → List β) (y : α) (h : xs[i]? = some x) :
    (↑((xs.set i y).flatMap f) : Multiset β) = ↑(f y) + ↑((xs.eraseIdx i).flatMap f) := by
  obtain ⟨hi, _⟩ := List.getElem?_eq_some_iff.mp h
  have hPerm := (set_perm_cons_eraseIdx hi y).flatMap_right f
  exact Multiset.coe_eq_coe.mpr hPerm

/-- Replacing a task by one with the same share changes nothing. -/
theorem flatMap_set_same (f : α → List β) {y : α} (xs : List α) :
    ∀ {i : Nat} {x : α}, xs[i]? = some x → f y = f x → (xs.set i y).flatMap f = xs.flatMap f := by
  induction xs with
  | nil =>
    intro i x h _
    cases h
  | cons z zs ih =>
    intro i x h hf
    cases i with
    | zero =>
      have hz : z = x := by simpa using h
      rw [set_cons_zero, flatMap_cons, flatMap_cons, hf, hz]
    | succ i =>
      rw [set_cons_succ, flatMap_cons, flatMap_cons, ih (by simpa using h) hf]

theorem coe_append_singleton (xs : List α) (x : α) : (↑(xs ++ [x]) : Multiset α) = ↑xs + {x} := by
  rfl

theorem coe_dropLast (h : xs.getLast? = some x) : (↑xs : Multiset α) = ↑xs.dropLast + {x} := by
  obtain ⟨front, hFront⟩ := getLast?_eq_some_iff.mp h
  rw [hFront, dropLast_concat, coe_append_singleton]

theorem coe_eraseIdx (h : xs[i]? = some x) : (↑xs : Multiset α) = {x} + ↑(xs.eraseIdx i) := by
  obtain ⟨hi, hx⟩ := List.getElem?_eq_some_iff.mp h
  have hPerm := getElem_cons_eraseIdx_perm hi
  rw [hx] at hPerm
  exact Multiset.coe_eq_coe.mpr hPerm.symm

theorem taskPending_concat (tasks : List (BatchTask μ)) (t : BatchTask μ) :
    taskPending (tasks ++ [t]) = taskPending tasks ++ t.pending := by
  simp [taskPending]

theorem taskRequests_concat (tasks : List (BatchTask μ)) (t : BatchTask μ) :
    taskRequests (tasks ++ [t]) = taskRequests tasks ++ t.batch := by
  simp [taskRequests]

/-! ## The invariant -/

/-- Where every received request is, and what the counter counts. -/
structure Accounted (s : Dispatcher μ ν) : Prop where
  placed : (↑s.received : Multiset (Request μ)) = ↑s.requests + ↑s.batch + ↑s.bgBatch +
    ↑(taskPending s.tasks) + ↑(s.answered.map Prod.fst) + ↑s.dropped
  taken : (↑s.accepted : Multiset (Request μ)) = ↑s.batch + ↑s.bgBatch +
    ↑(taskRequests s.tasks) + ↑s.reaped + ↑s.dropped
  active : s.activeQueries = s.requests.length + s.batch.length + s.bgBatch.length +
    (taskRequests s.tasks).length + s.finished + s.dropped.length
  senders : (s.received.map Request.sender).Nodup
  drained : s.phase ≠ .checking → s.requests = []
  settled : s.phase ≠ .reaping → s.finished = 0
  emptied : s.phase = .receiving → s.batch = []
  ended : ∀ t ∈ s.tasks, t.done = true → t.pending = []

theorem Accounted.init : Accounted (init : Dispatcher μ ν) := by
  refine ⟨rfl, rfl, rfl, nodup_nil, fun _ => rfl, fun _ => rfl, fun _ => rfl, ?_⟩
  intro t ht
  cases ht

variable {s : Dispatcher μ ν}

/-- A received batch is accounted for as held. -/
theorem Accounted.receive (h : Accounted s) {rs : List (Request μ)} (limit : Nat)
    (hPhase : s.phase = .receiving) (hFresh : fresh s rs = true) :
    Accounted (s.receive rs limit) := by
  have hRequests : s.requests = [] := h.drained (by rw [hPhase]; decide)
  have hActive := h.active
  have hPlaced := h.placed
  rw [hRequests] at hActive hPlaced
  unfold fresh at hFresh
  rw [Bool.and_eq_true, decide_eq_true_eq, all_eq_true] at hFresh
  unfold Dispatcher.receive
  refine ⟨?_, h.taken, ?_, ?_, ?_, ?_, ?_, h.ended⟩
  · rw [← Multiset.coe_add, hPlaced]
    abel
  · dsimp only
    rw [hActive, length_nil]
    omega
  · rw [map_append, nodup_append]
    refine ⟨h.senders, hFresh.1, ?_⟩
    intro a ha b hb hEq
    obtain ⟨r, hr, hb⟩ := mem_map.mp hb
    have hNot := hFresh.2 r hr
    rw [hb, ← hEq] at hNot
    have hIn : (s.received.map Request.sender).contains a = true := by simpa using ha
    rw [hIn] at hNot
    cases hNot
  · intro hNe
    exact absurd rfl hNe
  · intro _
    exact h.settled (by rw [hPhase]; decide)
  · intro hEq
    exact absurd hEq Phase.noConfusion

/-- Checking a request refuses it or files it, once. -/
theorem Accounted.check (h : Accounted s) {r : Request μ} (hPhase : s.phase = .checking)
    (hLast : s.requests.getLast? = some r) : Accounted (s.check r) := by
  have hBag := coe_dropLast hLast
  have hLen : s.requests.length = s.requests.dropLast.length + 1 := by
    have hCard := congrArg Multiset.card hBag
    simpa using hCard
  have hPlaced := h.placed
  have hTaken := h.taken
  have hActive := h.active
  rw [hBag] at hPlaced
  have hFinished := h.settled (by rw [hPhase]; decide)
  have hBusy : s.phase ≠ .receiving := by
    rw [hPhase]
    decide
  unfold Dispatcher.check
  split
  · refine ⟨?_, hTaken, ?_, h.senders, fun hNe => absurd hPhase hNe, fun _ => hFinished,
      fun hEq => absurd hEq hBusy, h.ended⟩
    · rw [hPlaced, map_append, ← Multiset.coe_add]
      simp only [map_cons, map_nil, Multiset.coe_singleton]
      abel
    · dsimp only
      omega
  · split
    -- the two batches differ in nothing that counts
    all_goals
      refine ⟨?_, ?_, ?_, h.senders, fun hNe => absurd hPhase hNe, fun _ => hFinished,
        fun hEq => absurd hEq hBusy, h.ended⟩
      · rw [hPlaced, coe_append_singleton]
        abel
      · rw [coe_append_singleton, coe_append_singleton, hTaken]
        abel
      · dsimp only
        rw [length_append, length_singleton]
        omega

variable {t : BatchTask μ}

/-- A new task has answered nothing, so it has not ended. -/
theorem Accounted.ended_concat (h : Accounted s) (hRunning : t.done = false) :
    ∀ t' ∈ s.tasks ++ [t], t'.done = true → t'.pending = [] := by
  intro t' ht' hDone
  rcases mem_append.mp ht' with hOld | hNew
  · exact h.ended t' hOld hDone
  · rw [mem_singleton.mp hNew, hRunning] at hDone
    exact absurd hDone Bool.false_ne_true

/-- The background requests move into tasks. -/
theorem Accounted.spawnBackground (h : Accounted s) (hPhase : s.phase = .spawningBackground) :
    Accounted s.spawnBackground := by
  have hRequests : s.requests = [] := h.drained (by rw [hPhase]; decide)
  have hFinished := h.settled (by rw [hPhase]; decide)
  unfold Dispatcher.spawnBackground
  split
  · refine ⟨?_, ?_, ?_, h.senders, fun _ => hRequests, fun _ => hFinished,
      fun hEq => absurd hEq Phase.noConfusion, h.ended_concat rfl⟩
    · rw [h.placed, taskPending_concat, ← Multiset.coe_add]
      abel
    · rw [h.taken, taskRequests_concat, ← Multiset.coe_add]
      abel
    · rw [h.active, taskRequests_concat, length_append, length_nil]
      dsimp only
      omega
  · exact ⟨h.placed, h.taken, h.active, h.senders, fun _ => hRequests, fun _ => hFinished,
      fun hEq => absurd hEq Phase.noConfusion, h.ended⟩

theorem Accounted.spawnForeground (h : Accounted s) (hPhase : s.phase = .spawningForeground) :
    Accounted s.spawnForeground := by
  have hRequests : s.requests = [] := h.drained (by rw [hPhase]; decide)
  unfold Dispatcher.spawnForeground
  split
  · refine ⟨?_, ?_, ?_, h.senders, fun _ => hRequests, fun hNe => absurd rfl hNe,
      fun hEq => absurd hEq Phase.noConfusion, h.ended_concat rfl⟩
    · rw [h.placed, taskPending_concat, ← Multiset.coe_add]
      abel
    · rw [h.taken, taskRequests_concat, ← Multiset.coe_add]
      abel
    · rw [h.active, taskRequests_concat, length_append, length_nil]
      dsimp only
      omega
  · exact ⟨h.placed, h.taken, h.active, h.senders, fun _ => hRequests,
      fun hNe => absurd rfl hNe, fun hEq => absurd hEq Phase.noConfusion, h.ended⟩

/-- Reaping a task that is done loses no request. -/
theorem Accounted.reap (h : Accounted s) (hTask : s.tasks[i]? = some t)
    (hPhase : s.phase = .reaping) (hDone : t.done = true) :
    Accounted (s.reap i t) := by
  have hPending := flatMap_eraseIdx BatchTask.pending hTask
  have hBatch := flatMap_eraseIdx BatchTask.batch hTask
  have hEmpty := h.ended t (mem_of_getElem? hTask) hDone
  have hLen : (taskRequests s.tasks).length =
      t.batch.length + (taskRequests (s.tasks.eraseIdx i)).length := by
    have hCard := congrArg Multiset.card hBatch
    simpa [taskRequests] using hCard
  rw [hEmpty, Multiset.coe_nil, zero_add] at hPending
  unfold Dispatcher.reap
  refine ⟨?_, ?_, ?_, h.senders, h.drained, fun hNe => absurd hPhase hNe, h.emptied, ?_⟩
  · rw [h.placed]
    unfold taskPending
    rw [hPending]
  · rw [h.taken, ← Multiset.coe_add]
    unfold taskRequests
    rw [hBatch]
    abel
  · dsimp only
    rw [h.active]
    omega
  · intro t' ht'
    exact h.ended t' (mem_of_mem_eraseIdx ht')

theorem Accounted.endIteration (h : Accounted s) (hPhase : s.phase = .reaping) :
    Accounted s.endIteration := by
  have hRequests : s.requests = [] := h.drained (by rw [hPhase]; decide)
  unfold Dispatcher.endIteration
  refine ⟨?_, ?_, ?_, h.senders, fun _ => hRequests, fun _ => rfl, fun _ => rfl, h.ended⟩
  · rw [h.placed, ← Multiset.coe_add]
    abel
  · rw [h.taken, ← Multiset.coe_add]
    abel
  · dsimp only
    rw [h.active, length_append, length_nil]
    omega

/-- An answer moves a request from its task to those answered. -/
theorem Accounted.answer (h : Accounted s) {j : Nat} {r : Request μ} (result : ν)
    (hTask : s.tasks[i]? = some t) (hPending : t.pending[j]? = some r) :
    Accounted (s.answer i j t r result) := by
  have hErase := flatMap_eraseIdx BatchTask.pending hTask
  have hSet := flatMap_set BatchTask.pending { t with pending := t.pending.eraseIdx j } hTask
  have hBag := coe_eraseIdx hPending
  have hRequests : taskRequests (s.tasks.set i { t with pending := t.pending.eraseIdx j }) =
      taskRequests s.tasks :=
    flatMap_set_same BatchTask.batch s.tasks hTask rfl
  unfold Dispatcher.answer
  refine ⟨?_, ?_, ?_, h.senders, h.drained, h.settled, h.emptied, ?_⟩
  · rw [h.placed, map_append, ← Multiset.coe_add]
    unfold taskPending
    rw [hErase, hSet, hBag]
    simp only [map_cons, map_nil, Multiset.coe_singleton]
    abel
  · rw [hRequests]
    exact h.taken
  · rw [hRequests]
    exact h.active
  · intro t' ht' hDone
    rcases mem_or_eq_of_mem_set ht' with hOld | hNew
    · exact h.ended t' hOld hDone
    · subst hNew
      have hNil := h.ended t (mem_of_getElem? hTask) hDone
      simp [hNil]

theorem Accounted.complete (h : Accounted s) (hTask : s.tasks[i]? = some t)
    (hPending : t.pending = []) :
    Accounted (s.complete i t) := by
  have hSamePending : taskPending (s.tasks.set i { t with done := true }) =
      taskPending s.tasks :=
    flatMap_set_same BatchTask.pending s.tasks hTask rfl
  have hSameBatch : taskRequests (s.tasks.set i { t with done := true }) =
      taskRequests s.tasks :=
    flatMap_set_same BatchTask.batch s.tasks hTask rfl
  unfold Dispatcher.complete
  refine ⟨?_, ?_, ?_, h.senders, h.drained, h.settled, h.emptied, ?_⟩
  · rw [hSamePending]
    exact h.placed
  · rw [hSameBatch]
    exact h.taken
  · rw [hSameBatch]
    exact h.active
  · intro t' ht' hDone
    rcases mem_or_eq_of_mem_set ht' with hOld | hNew
    · exact h.ended t' hOld hDone
    · rw [hNew]
      exact hPending

/-! ## Steps and runs -/

/-- Every step keeps the bag equations. -/
theorem Accounted.step {s s' : Dispatcher μ ν} {e : Event μ ν} (h : Accounted s)
    (hStep : step s e = some s') : Accounted s' := by
  cases moves_of_step hStep with
  | receive hPhase hFresh => exact h.receive _ hPhase hFresh
  | check hPhase hLast => exact h.check hPhase hLast
  | checked hPhase hNil =>
    have hFinished := h.settled (by rw [hPhase]; decide)
    exact ⟨h.placed, h.taken, h.active, h.senders, fun _ => hNil, fun _ => hFinished,
      fun hEq => absurd hEq Phase.noConfusion, h.ended⟩
  | spawnBackground hPhase => exact h.spawnBackground hPhase
  | spawnForeground hPhase => exact h.spawnForeground hPhase
  | reap hTask hPhase hDone => exact h.reap hTask hPhase hDone
  | endIteration hPhase => exact h.endIteration hPhase
  | answer hTask hPending => exact h.answer _ hTask hPending
  | complete hTask hPending => exact h.complete hTask hPending

/-- The bag equations hold in every reachable state. -/
theorem Accounted.reached {es : List (Event μ ν)} {s : Dispatcher μ ν}
    (hRun : runTrace DispatcherLoop.step DispatcherLoop.init es = some s) : Accounted s :=
  runTrace_always DispatcherLoop.step (fun _ _ _ hInv hStep => hInv.step hStep) es
    Accounted.init hRun

/-! ## Conservation -/

/-- A foreground batch about to be spawned finds a free permit. -/
def PermitFree (s : Dispatcher μ ν) (e : Event μ ν) : Prop :=
  match e with
  | .spawnForeground => s.batch ≠ [] → 0 < s.foregroundPermits
  | _ => True

/-- Nothing was dropped, and once spawning is over nothing is left to drop. -/
structure NothingDropped (s : Dispatcher μ ν) : Prop where
  dropped : s.dropped = []
  spawned : s.phase = .reaping → s.batch = []

/-- With a permit free, a step drops no request. -/
theorem NothingDropped.step {s s' : Dispatcher μ ν} {e : Event μ ν} (h : NothingDropped s)
    (hFree : PermitFree s e) (hStep : step s e = some s') : NothingDropped s' := by
  cases moves_of_step hStep with
  | receive => exact ⟨h.dropped, fun hEq => absurd hEq Phase.noConfusion⟩
  | check hPhase =>
    refine ⟨by rw [Dispatcher.check_dropped, h.dropped], ?_⟩
    intro hEq
    rw [Dispatcher.check_phase, hPhase] at hEq
    exact absurd hEq Phase.noConfusion
  | checked => exact ⟨h.dropped, fun hEq => absurd hEq Phase.noConfusion⟩
  | spawnBackground =>
    refine ⟨by rw [Dispatcher.spawnBackground_dropped, h.dropped], ?_⟩
    intro hEq
    rw [Dispatcher.spawnBackground_phase] at hEq
    exact absurd hEq Phase.noConfusion
  | spawnForeground =>
    refine ⟨by rw [Dispatcher.spawnForeground_dropped, h.dropped], fun _ => ?_⟩
    unfold Dispatcher.spawnForeground
    split
    · rfl
    · rename_i hNot
      by_contra hBatch
      exact hNot ⟨hBatch, hFree hBatch⟩
  | reap => exact ⟨h.dropped, h.spawned⟩
  | endIteration hPhase =>
    refine ⟨?_, fun hEq => absurd hEq Phase.noConfusion⟩
    show s.dropped ++ s.batch = []
    rw [h.dropped, h.spawned hPhase]
    rfl
  | answer | complete => exact ⟨h.dropped, h.spawned⟩

theorem NothingDropped.reached {es : List (Event μ ν)} {s : Dispatcher μ ν}
    (hFree : StepsMeet DispatcherLoop.step PermitFree DispatcherLoop.init es)
    (hRun : runTrace DispatcherLoop.step DispatcherLoop.init es = some s) : NothingDropped s :=
  runTrace_invariant DispatcherLoop.step (fun _ _ _ hInv hOk hStep => hInv.step hOk hStep) es
    ⟨rfl, fun hEq => absurd hEq Phase.noConfusion⟩ hFree hRun

/-- The request waits in the receive buffer, in a batch or in a task. -/
def Held (s : Dispatcher μ ν) (r : Request μ) : Prop :=
  r ∈ s.requests ∨ r ∈ s.batch ∨ r ∈ s.bgBatch ∨ r ∈ taskPending s.tasks

/-- The result of processing the request was sent on its channel. -/
def Processed (s : Dispatcher μ ν) (r : Request μ) : Prop :=
  ∃ result, (r, Answer.processed result) ∈ s.answered

/-- A refusal was sent on the request's channel. -/
def Refused (s : Dispatcher μ ν) (r : Request μ) : Prop := (r, Answer.refused) ∈ s.answered

/--
No request is lost or answered twice, and the counter is exact between
iterations.
-/
structure Conserved (s : Dispatcher μ ν) : Prop where
  exactlyOne : ∀ r ∈ s.received,
    (Held s r ∧ ¬Processed s r ∧ ¬Refused s r) ∨
      (¬Held s r ∧ Processed s r ∧ ¬Refused s r) ∨
      (¬Held s r ∧ ¬Processed s r ∧ Refused s r)
  once : (s.requests ++ s.batch ++ s.bgBatch ++ taskPending s.tasks ++
    s.answered.map Prod.fst).Nodup
  noneDropped : s.dropped = []
  counted : s.phase = .receiving →
    s.reaped.Subperm s.accepted ∧ s.activeQueries = s.accepted.length - s.reaped.length
  zero : s.phase = .receiving → s.bgBatch = [] → s.tasks = [] → s.activeQueries = 0

/-- The places of a state without losses, as one list. -/
theorem Accounted.perm_places (h : Accounted s) (hDropped : s.dropped = []) :
    s.received.Perm (s.requests ++ s.batch ++ s.bgBatch ++ taskPending s.tasks ++
      s.answered.map Prod.fst) := by
  have hPlaced := h.placed
  rw [hDropped, Multiset.coe_nil, add_zero] at hPlaced
  exact Multiset.coe_eq_coe.mp hPlaced

/-- Every request received is held, processed or refused, and only one. -/
theorem Accounted.exactlyOne (h : Accounted s) (hDropped : s.dropped = []) (r : Request μ)
    (hr : r ∈ s.received) :
    (Held s r ∧ ¬Processed s r ∧ ¬Refused s r) ∨
      (¬Held s r ∧ Processed s r ∧ ¬Refused s r) ∨
      (¬Held s r ∧ ¬Processed s r ∧ Refused s r) := by
  have hPerm := h.perm_places hDropped
  have hNodup := hPerm.nodup (List.Nodup.of_map _ h.senders)
  obtain ⟨_, hAnswered, hDisjoint⟩ := nodup_append.mp hNodup
  have hHeld : Held s r ↔ r ∈ s.requests ++ s.batch ++ s.bgBatch ++ taskPending s.tasks := by
    simp [Held]
  have hMem : ∀ a, (r, a) ∈ s.answered → r ∈ s.answered.map Prod.fst := by
    intro a ha
    exact mem_map_of_mem ha
  rcases mem_append.mp (hPerm.mem_iff.mp hr) with hIn | hIn
  · have hNotAnswered : ∀ a, (r, a) ∉ s.answered := by
      intro a ha
      exact hDisjoint r hIn r (hMem a ha) rfl
    left
    refine ⟨hHeld.mpr hIn, ?_, hNotAnswered _⟩
    rintro ⟨result, hResult⟩
    exact hNotAnswered _ hResult
  · have hNotHeld : ¬Held s r := by
      intro hIs
      exact hDisjoint r (hHeld.mp hIs) r hIn rfl
    have hUnique : ∀ a b, (r, a) ∈ s.answered → (r, b) ∈ s.answered → a = b := by
      intro a b ha hb
      have hEq := inj_on_of_nodup_map hAnswered ha hb rfl
      exact (Prod.mk.inj hEq).2
    obtain ⟨⟨r', a⟩, ha, hFst⟩ := mem_map.mp hIn
    subst hFst
    right
    cases a with
    | processed result =>
      left
      refine ⟨hNotHeld, ⟨result, ha⟩, ?_⟩
      intro hRefused
      exact absurd (hUnique _ _ ha hRefused) (by simp)
    | refused =>
      right
      refine ⟨hNotHeld, ?_, ha⟩
      rintro ⟨result, hResult⟩
      exact absurd (hUnique _ _ ha hResult) (by simp)

/-- Between iterations the counter is the number of requests not yet reaped. -/
theorem Accounted.counted (h : Accounted s) (hPhase : s.phase = .receiving) :
    s.reaped.Subperm s.accepted ∧ s.activeQueries = s.accepted.length - s.reaped.length := by
  have hRequests := h.drained (by rw [hPhase]; decide)
  have hFinished := h.settled (by rw [hPhase]; decide)
  have hTaken := h.taken
  have hActive := h.active
  have hCard := congrArg Multiset.card hTaken
  simp only [Multiset.card_add, Multiset.coe_card] at hCard
  refine ⟨?_, ?_⟩
  · rw [← Multiset.coe_le, hTaken]
    exact (Multiset.le_add_left _ _).trans (Multiset.le_add_right _ _)
  · rw [hActive, hRequests, length_nil]
    omega

/--
**Request conservation**: in every run in which each foreground batch finds a
free permit when it is spawned, every received request is in exactly one of the
three states, none is dropped, and between iterations the counter is the number
of accepted requests not yet reaped.
-/
theorem requests_conserved (es : List (Event μ ν)) (s : Dispatcher μ ν)
    (hRun : runTrace DispatcherLoop.step DispatcherLoop.init es = some s)
    (hFree : StepsMeet DispatcherLoop.step PermitFree DispatcherLoop.init es) :
    Conserved s := by
  have hAcc := Accounted.reached hRun
  have hDropped := (NothingDropped.reached hFree hRun).dropped
  refine ⟨hAcc.exactlyOne hDropped, ?_, hDropped, hAcc.counted, ?_⟩
  · exact (hAcc.perm_places hDropped).nodup (List.Nodup.of_map _ hAcc.senders)
  · intro hPhase hBg hTasks
    have hActive := hAcc.active
    rw [hAcc.drained (by rw [hPhase]; decide), hAcc.emptied hPhase, hBg, hTasks,
      hAcc.settled (by rw [hPhase]; decide), hDropped] at hActive
    exact hActive

/-! ## Runs -/

/-- One foreground request, handled alone. -/
def soloRequest (sender : Nat) : Request Unit := ⟨sender, (), false⟩

/-- The loop body for one received request under no limit. -/
def soloIteration (sender : Nat) : List (Event Unit Unit) :=
  [.receive [soloRequest sender] 0, .check, .check, .spawnBackground, .spawnForeground,
    .endIteration]

/-- A request that is received, answered and reaped in the next iteration. -/
def answeredRun : List (Event Unit Unit) :=
  soloIteration 0 ++ [.answer 0 0 (), .complete 0, .receive [soloRequest 1] 0, .check, .check,
    .spawnBackground, .spawnForeground, .reap 0, .endIteration]

/-- `PermitFree` as a check. -/
def permitFree (s : Dispatcher μ ν) (e : Event μ ν) : Bool :=
  match e with
  | .spawnForeground => s.batch.isEmpty || decide (0 < s.foregroundPermits)
  | _ => true

theorem permitFree_sound (s : Dispatcher μ ν) (e : Event μ ν) (h : permitFree s e = true) :
    PermitFree s e := by
  cases e with
  | spawnForeground =>
    intro hBatch
    rw [permitFree, Bool.or_eq_true, decide_eq_true_eq, List.isEmpty_iff] at h
    exact h.resolve_left hBatch
  | _ => trivial

theorem requests_conserved_answeredRun :
    ∃ s, runTrace DispatcherLoop.step DispatcherLoop.init answeredRun = some s ∧ Conserved s :=
  ⟨_, rfl, requests_conserved answeredRun _ rfl
    (stepsMeet_of_meets DispatcherLoop.step permitFree_sound answeredRun (by decide))⟩

/-- Sixty-five requests arrive one by one while none is answered. -/
def saturatedRun : List (Event Unit Unit) := (List.range 65).flatMap soloIteration

/--
The sixty-fifth batch finds no permit: its request is dropped without an
answer, and conservation fails.
-/
theorem batch_dropped :
    ∃ s, runTrace DispatcherLoop.step DispatcherLoop.init saturatedRun = some s ∧
      s.dropped = [soloRequest 64] ∧ ¬Conserved s := by
  have hDropped : (runTrace DispatcherLoop.step DispatcherLoop.init saturatedRun).map
      (fun s => s.dropped) = some [soloRequest 64] := by decide +kernel
  obtain ⟨s, hRun, hs⟩ := Option.map_eq_some_iff.mp hDropped
  refine ⟨s, hRun, hs, ?_⟩
  intro hConserved
  rw [hConserved.noneDropped] at hs
  cases hs

/-- In every run no request is answered twice or after it was dropped, and between iterations the
counter is what waits or is in a task and all that was dropped. -/
theorem counter_leaks (es : List (Event μ ν)) (s : Dispatcher μ ν)
    (hRun : runTrace DispatcherLoop.step DispatcherLoop.init es = some s) :
    (s.answered.map Prod.fst ++ s.dropped).Nodup ∧ (s.phase = .receiving →
      s.activeQueries = s.bgBatch.length + (taskRequests s.tasks).length + s.dropped.length) := by
  have hAcc := Accounted.reached hRun
  refine ⟨?_, fun hPhase => ?_⟩
  · rw [← Multiset.coe_nodup]
    refine Multiset.nodup_of_le ?_ (Multiset.coe_nodup.mpr (.of_map _ hAcc.senders))
    rw [hAcc.placed, add_assoc]
    exact Multiset.le_add_left _ _
  · simp [hAcc.active, hAcc.drained (by simp [hPhase]), hAcc.emptied hPhase,
      hAcc.settled (by simp [hPhase])]

/-- Sixty-four requests are in tasks and one was dropped, which the counter goes on counting. -/
theorem counter_leaks_saturatedRun :
    ∃ s, runTrace DispatcherLoop.step DispatcherLoop.init saturatedRun = some s ∧
      s.dropped = [soloRequest 64] ∧ (s.answered.map Prod.fst ++ s.dropped).Nodup ∧
      s.activeQueries = s.bgBatch.length + (taskRequests s.tasks).length + s.dropped.length := by
  have hEnd : (runTrace DispatcherLoop.step DispatcherLoop.init saturatedRun).map
      (fun s => (s.dropped, s.phase)) = some ([soloRequest 64], .receiving) := by decide +kernel
  obtain ⟨s, hRun, hs⟩ := Option.map_eq_some_iff.mp hEnd
  obtain ⟨hDropped, hPhase⟩ := Prod.mk.inj hs
  obtain ⟨hNodup, hActive⟩ := counter_leaks saturatedRun s hRun
  exact ⟨s, hRun, hDropped, hNodup, hActive hPhase⟩

end SmartDns.Ports.DispatcherConservation
