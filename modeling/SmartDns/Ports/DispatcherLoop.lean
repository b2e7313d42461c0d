import SmartDns.Verified.Trace

/-!
# The dispatcher loop

Every request reaches the server as a message with the sender half of a
one-shot channel. One loop drains the channel in batches, answers requests over
the concurrency limit itself, and hands the others to spawned tasks: background
requests through a batch that survives iterations, foreground requests through
one batch per iteration. A spawned task holds a permit until its last request
is answered; the loop reaps finished tasks at the end of an iteration and only
then gives their requests back to the `active_queries` counter.

The loop and its tasks run concurrently, so the model is a step function over
events: the events of the loop occur in program order, recorded by the phase,
and the events of tasks at any time in between. Every choice the environment
has — arrivals, the limit read from the configuration, which future finishes
with which result, when the reaper looks — is part of the event. `process`
always returns, so a task's requests can all be answered.

The counter is an integer, so that a count below zero would show. The lists
`received`, `accepted`, `reaped`, `answered` and `dropped` record history and
decide nothing.
-/

namespace SmartDns.Ports.DispatcherLoop

/-- A request as the loop receives it; the sender identifies it. -/
structure Request (μ : Type) where
  sender : Nat
  message : μ
  isBackground : Bool
  deriving DecidableEq

/-- What is sent on a request's own channel. -/
inductive Answer (ν : Type) where
  | processed (result : ν)
  | refused

/-- A spawned batch: its requests, those not yet answered, and whether it ended. -/
structure BatchTask (μ : Type) where
  background : Bool
  batch : List (Request μ)
  pending : List (Request μ)
  done : Bool

/-- Where in its body the loop is. -/
inductive Phase where
  | receiving
  | checking
  | spawningBackground
  | spawningForeground
  | reaping
  deriving DecidableEq

structure Dispatcher (μ ν : Type) where
  phase : Phase
  maxQueryLimit : Nat
  activeQueries : Int
  finished : Nat
  requests : List (Request μ)
  batch : List (Request μ)
  bgBatch : List (Request μ)
  tasks : List (BatchTask μ)
  foregroundPermits : Nat
  backgroundPermits : Nat
  received : List (Request μ)
  accepted : List (Request μ)
  reaped : List (Request μ)
  answered : List (Request μ × Answer ν)
  dropped : List (Request μ)

/-- What can happen next. -/
inductive Event (μ ν : Type) where
  | receive (requests : List (Request μ)) (maxQueryLimit : Nat)
  | check
  | spawnBackground
  | spawnForeground
  | reap (task : Nat)
  | endIteration
  | answer (task idx : Nat) (result : ν)
  | complete (task : Nat)

variable {μ ν : Type}

def batchSize : Nat := 256

/-- The state in which `serve` enters its loop. -/
def init : Dispatcher μ ν where
  phase := .receiving
  maxQueryLimit := 0
  activeQueries := 0
  finished := 0
  requests := []
  batch := []
  bgBatch := []
  tasks := []
  foregroundPermits := 64
  backgroundPermits := 4
  received := []
  accepted := []
  reaped := []
  answered := []
  dropped := []

def shouldRefuseQuery (maxQueryLimit : Nat) (isBackground : Bool) (activeQueries : Int) : Bool :=
  decide (maxQueryLimit > 0) && !isBackground && decide (activeQueries > maxQueryLimit)

/-- Senders are created per request: none is new twice. -/
def fresh (s : Dispatcher μ ν) (rs : List (Request μ)) : Bool :=
  decide ((rs.map Request.sender).Nodup) &&
    rs.all fun r => !(s.received.map Request.sender).contains r.sender

namespace Dispatcher

/-- `recv_many`, the counters and the limit of this iteration. -/
def receive (s : Dispatcher μ ν) (rs : List (Request μ)) (limit : Nat) : Dispatcher μ ν :=
  { s with
    phase := .checking
    maxQueryLimit := limit
    activeQueries := s.activeQueries + rs.length
    requests := rs
    received := s.received ++ rs }

/-- One request of the batch, from the end: refuse it or put it in a batch. -/
def check (s : Dispatcher μ ν) (r : Request μ) : Dispatcher μ ν :=
  if shouldRefuseQuery s.maxQueryLimit r.isBackground s.activeQueries then
    { s with
      requests := s.requests.dropLast
      activeQueries := s.activeQueries - 1
      answered := s.answered ++ [(r, .refused)] }
  else if r.isBackground then
    { s with
      requests := s.requests.dropLast
      bgBatch := s.bgBatch ++ [r]
      accepted := s.accepted ++ [r] }
  else
    { s with
      requests := s.requests.dropLast
      batch := s.batch ++ [r]
      accepted := s.accepted ++ [r] }

/-- Spawn the background batch when there is one and a permit for it. -/
def spawnBackground (s : Dispatcher μ ν) : Dispatcher μ ν :=
  if s.bgBatch ≠ [] ∧ 0 < s.backgroundPermits then
    { s with
      phase := .spawningForeground
      bgBatch := []
      backgroundPermits := s.backgroundPermits - 1
      tasks := s.tasks ++ [⟨true, s.bgBatch, s.bgBatch, false⟩] }
  else { s with phase := .spawningForeground }

/-- Spawn the foreground batch when there is one and a permit for it. -/
def spawnForeground (s : Dispatcher μ ν) : Dispatcher μ ν :=
  if s.batch ≠ [] ∧ 0 < s.foregroundPermits then
    { s with
      phase := .reaping
      batch := []
      foregroundPermits := s.foregroundPermits - 1
      tasks := s.tasks ++ [⟨false, s.batch, s.batch, false⟩] }
  else { s with phase := .reaping }

/-- One finished task noticed by `reap_tasks`. -/
def reap (s : Dispatcher μ ν) (i : Nat) (t : BatchTask μ) : Dispatcher μ ν :=
  { s with
    tasks := s.tasks.eraseIdx i
    finished := s.finished + t.batch.length
    reaped := s.reaped ++ t.batch }

/-- The end of the loop body; a batch that was not spawned goes out of scope. -/
def endIteration (s : Dispatcher μ ν) : Dispatcher μ ν :=
  { s with
    phase := .receiving
    activeQueries := s.activeQueries - s.finished
    finished := 0
    batch := []
    dropped := s.dropped ++ s.batch }

/-- A future of a task finishes and answers on its request's channel. -/
def answer (s : Dispatcher μ ν) (i j : Nat) (t : BatchTask μ) (r : Request μ) (result : ν) :
    Dispatcher μ ν :=
  { s with
    tasks := s.tasks.set i { t with pending := t.pending.eraseIdx j }
    answered := s.answered ++ [(r, .processed result)] }

/-- A task whose requests are all answered drops its permit and ends. -/
def complete (s : Dispatcher μ ν) (i : Nat) (t : BatchTask μ) : Dispatcher μ ν :=
  { s with
    tasks := s.tasks.set i { t with done := true }
    foregroundPermits := s.foregroundPermits + if t.background then 0 else 1
    backgroundPermits := s.backgroundPermits + if t.background then 1 else 0 }

/-! What the transitions with branches leave as it is. -/

@[simp] theorem check_phase (s : Dispatcher μ ν) (r : Request μ) : (s.check r).phase = s.phase := by
  unfold check
  split_ifs <;> rfl

@[simp] theorem check_dropped (s : Dispatcher μ ν) (r : Request μ) :
    (s.check r).dropped = s.dropped := by
  unfold check
  split_ifs <;> rfl

@[simp] theorem spawnBackground_phase (s : Dispatcher μ ν) :
    s.spawnBackground.phase = .spawningForeground := by
  unfold spawnBackground
  split <;> rfl

@[simp] theorem spawnBackground_dropped (s : Dispatcher μ ν) :
    s.spawnBackground.dropped = s.dropped := by
  unfold spawnBackground
  split <;> rfl

@[simp] theorem spawnBackground_answered (s : Dispatcher μ ν) :
    s.spawnBackground.answered = s.answered := by
  unfold spawnBackground
  split <;> rfl

@[simp] theorem spawnForeground_dropped (s : Dispatcher μ ν) :
    s.spawnForeground.dropped = s.dropped := by
  unfold spawnForeground
  split <;> rfl

@[simp] theorem spawnForeground_answered (s : Dispatcher μ ν) :
    s.spawnForeground.answered = s.answered := by
  unfold spawnForeground
  split <;> rfl

end Dispatcher

/-- The successor of a state under an event that can occur in it. -/
def step (s : Dispatcher μ ν) : Event μ ν → Option (Dispatcher μ ν)
  | .receive rs limit =>
    if s.phase = .receiving ∧ rs ≠ [] ∧ rs.length ≤ batchSize ∧ fresh s rs = true then
      some (s.receive rs limit)
    else none
  | .check =>
    if s.phase = .checking then
      match s.requests.getLast? with
      | some r => some (s.check r)
      | none => some { s with phase := .spawningBackground }
    else none
  | .spawnBackground =>
    if s.phase = .spawningBackground then some s.spawnBackground else none
  | .spawnForeground =>
    if s.phase = .spawningForeground then some s.spawnForeground else none
  | .reap i =>
    match s.tasks[i]? with
    | some t => if s.phase = .reaping ∧ t.done = true then some (s.reap i t) else none
    | none => none
  | .endIteration => if s.phase = .reaping then some s.endIteration else none
  | .answer i j result =>
    match s.tasks[i]? with
    | some t =>
      match t.pending[j]? with
      | some r => some (s.answer i j t r result)
      | none => none
    | none => none
  | .complete i =>
    match s.tasks[i]? with
    | some t => if t.pending = [] ∧ t.done = false then some (s.complete i t) else none
    | none => none

/-- The transitions, each with the guards under which it is taken. -/
inductive Moves (s : Dispatcher μ ν) : Event μ ν → Dispatcher μ ν → Prop where
  | receive {rs : List (Request μ)} {limit : Nat} (hPhase : s.phase = .receiving)
      (hFresh : fresh s rs = true) : Moves s (.receive rs limit) (s.receive rs limit)
  | check {r : Request μ} (hPhase : s.phase = .checking)
      (hLast : s.requests.getLast? = some r) : Moves s .check (s.check r)
  | checked (hPhase : s.phase = .checking) (hNil : s.requests = []) :
      Moves s .check { s with phase := .spawningBackground }
  | spawnBackground (hPhase : s.phase = .spawningBackground) :
      Moves s .spawnBackground s.spawnBackground
  | spawnForeground (hPhase : s.phase = .spawningForeground) :
      Moves s .spawnForeground s.spawnForeground
  | reap {i : Nat} {t : BatchTask μ} (hTask : s.tasks[i]? = some t) (hPhase : s.phase = .reaping)
      (hDone : t.done = true) : Moves s (.reap i) (s.reap i t)
  | endIteration (hPhase : s.phase = .reaping) : Moves s .endIteration s.endIteration
  | answer {i j : Nat} {result : ν} {t : BatchTask μ} {r : Request μ}
      (hTask : s.tasks[i]? = some t) (hPending : t.pending[j]? = some r) :
      Moves s (.answer i j result) (s.answer i j t r result)
  | complete {i : Nat} {t : BatchTask μ} (hTask : s.tasks[i]? = some t)
      (hPending : t.pending = []) : Moves s (.complete i) (s.complete i t)

/-- Everything a step can do. -/
theorem moves_of_step {s s' : Dispatcher μ ν} {e : Event μ ν} (h : step s e = some s') :
    Moves s e s' := by
  cases e with
  | receive rs limit =>
    obtain ⟨hGuard, hEq⟩ := Option.ite_none_right_eq_some.mp h
    cases hEq
    exact .receive hGuard.1 hGuard.2.2.2
  | check =>
    obtain ⟨hPhase, hRest⟩ := Option.ite_none_right_eq_some.mp h
    cases hLast : s.requests.getLast? with
    | none =>
      rw [hLast] at hRest
      cases hRest
      exact .checked hPhase (List.getLast?_eq_none_iff.mp hLast)
    | some r =>
      rw [hLast] at hRest
      cases hRest
      exact .check hPhase hLast
  | spawnBackground =>
    obtain ⟨hPhase, hEq⟩ := Option.ite_none_right_eq_some.mp h
    cases hEq
    exact .spawnBackground hPhase
  | spawnForeground =>
    obtain ⟨hPhase, hEq⟩ := Option.ite_none_right_eq_some.mp h
    cases hEq
    exact .spawnForeground hPhase
  | reap i =>
    simp only [step] at h
    split at h
    · rename_i t hTask
      obtain ⟨hGuard, hEq⟩ := Option.ite_none_right_eq_some.mp h
      cases hEq
      exact .reap hTask hGuard.1 hGuard.2
    · cases h
  | endIteration =>
    obtain ⟨hPhase, hEq⟩ := Option.ite_none_right_eq_some.mp h
    cases hEq
    exact .endIteration hPhase
  | answer i j result =>
    simp only [step] at h
    split at h
    · rename_i t hTask
      split at h
      · rename_i r hPending
        cases h
        exact .answer hTask hPending
      · cases h
    · cases h
  | complete i =>
    simp only [step] at h
    split at h
    · rename_i t hTask
      obtain ⟨hGuard, hEq⟩ := Option.ite_none_right_eq_some.mp h
      cases hEq
      exact .complete hTask hGuard.1
    · cases h

end SmartDns.Ports.DispatcherLoop
