import SmartDns.Ports.DispatcherConservation

/-!
# Precision of the concurrency limiter

The limiter compares `active_queries` with the configured limit before a
foreground request enters a batch. The counter goes up when requests are
received and down when whole tasks are reaped, at the end of an iteration that
some later request had to start. In between it counts requests that have long
been answered, and it keeps counting requests whose batch was dropped.

`CounterFresh` excludes both at the moment the limiter reads the counter.
Under it the counter is the number of requests that still wait, so a refusal
means that more requests wait than the limit allows.
-/

namespace SmartDns.Ports.DispatcherLimiter

open Verified DispatcherLoop DispatcherConservation

variable {μ ν : Type}

/-- The received requests that still wait for an answer. -/
def unanswered (s : Dispatcher μ ν) : Int :=
  s.received.length - s.answered.length - s.dropped.length

variable {s : Dispatcher μ ν}

/-- Every waiting request is in one of the loop's places. -/
theorem unanswered_eq_places (h : Accounted s) :
    unanswered s = s.requests.length + s.batch.length + s.bgBatch.length +
      (taskPending s.tasks).length := by
  have hCard := congrArg Multiset.card h.placed
  simp only [Multiset.card_add, Multiset.coe_card, List.length_map] at hCard
  unfold unanswered
  omega

/--
When a foreground request is checked against a limit, no batch has been dropped
and no task in the join set has answered any of its requests.
-/
def CounterFresh (s : Dispatcher μ ν) (e : Event μ ν) : Prop :=
  match e with
  | .check => ∀ r, s.requests.getLast? = some r → r.isBackground = false →
      0 < s.maxQueryLimit → s.dropped = [] ∧ ∀ t ∈ s.tasks, t.pending = t.batch
  | _ => True

/-- A refusal is sent only by a check that finds the counter over the limit. -/
theorem refused_inv {s' : Dispatcher μ ν} {e : Event μ ν} {r : Request μ}
    (hStep : step s e = some s') (hRefused : s'.answered = s.answered ++ [(r, Answer.refused)]) :
    e = .check ∧ s.phase = .checking ∧ s.requests.getLast? = some r ∧
      shouldRefuseQuery s.maxQueryLimit r.isBackground s.activeQueries = true := by
  have hSame : s'.answered ≠ s.answered := by
    intro hEq
    rw [hEq] at hRefused
    have hLen := congrArg List.length hRefused
    simp at hLen
  cases moves_of_step hStep with
  | check hPhase hLast =>
    unfold Dispatcher.check at hRefused hSame
    split at hRefused
    · rename_i r' hOver
      have hPair : r' = r := by
        have hCancel := List.append_cancel_left hRefused
        simpa using hCancel
      subst hPair
      exact ⟨rfl, hPhase, hLast, hOver⟩
    · rename_i hUnder
      rw [if_neg hUnder] at hSame
      split at hSame
      · exact absurd rfl hSame
      · exact absurd rfl hSame
  | spawnBackground => exact absurd (Dispatcher.spawnBackground_answered s) hSame
  | spawnForeground => exact absurd (Dispatcher.spawnForeground_answered s) hSame
  | answer =>
    have hCancel := List.append_cancel_left hRefused
    simp at hCancel
  | receive | checked | reap | endIteration | complete => exact absurd rfl hSame

/-- A fresh counter counts the waiting requests. -/
theorem active_eq_unanswered (h : Accounted s) (hPhase : s.phase = .checking)
    (hDropped : s.dropped = []) (hTasks : ∀ t ∈ s.tasks, t.pending = t.batch) :
    s.activeQueries = unanswered s := by
  have hActive := h.active
  have hFinished := h.settled (by rw [hPhase]; decide)
  have hSame : taskPending s.tasks = taskRequests s.tasks := by
    exact List.flatMap_congr hTasks
  rw [unanswered_eq_places h, hActive, hDropped, hSame, List.length_nil]
  omega

/--
**Refusal precision**: in every run, a refusal by a check that finds the counter
fresh is sent only while more requests wait than the limit in force, the refused
one included; in particular never to a request that waits alone. What earlier
checks found does not matter.
-/
theorem refusal_precise (es : List (Event μ ν)) (e : Event μ ν) (s s' : Dispatcher μ ν)
    (r : Request μ) (hRun : runTrace step init es = some s) (hStep : step s e = some s')
    (hFresh : CounterFresh s e)
    (hRefused : s'.answered = s.answered ++ [(r, Answer.refused)]) :
    (s.maxQueryLimit : Int) < unanswered s ∧ 1 < unanswered s := by
  obtain ⟨rfl, hPhase, hLast, hOver⟩ := refused_inv hStep hRefused
  unfold shouldRefuseQuery at hOver
  simp only [Bool.and_eq_true, decide_eq_true_eq, Bool.not_eq_true'] at hOver
  obtain ⟨⟨hPos, hForeground⟩, hLimit⟩ := hOver
  obtain ⟨hDropped, hTasks⟩ := hFresh r hLast hForeground hPos
  have hActive := active_eq_unanswered (Accounted.reached hRun) hPhase hDropped hTasks
  omega

/-! ## Runs -/

/-- Two requests received together under a limit of one. -/
def crowdedRun : List (Event Unit Unit) := [.receive [soloRequest 0, soloRequest 1] 1]

/-- `CounterFresh` as a check for states without tasks. -/
def noTasks (s : Dispatcher μ ν) (_ : Event μ ν) : Bool := s.dropped.isEmpty && s.tasks.isEmpty

theorem noTasks_sound (s : Dispatcher μ ν) (e : Event μ ν) (h : noTasks s e = true) :
    CounterFresh s e := by
  rw [noTasks, Bool.and_eq_true, List.isEmpty_iff, List.isEmpty_iff] at h
  cases e with
  | check =>
    intro r _ _ _
    refine ⟨h.1, ?_⟩
    intro t ht
    rw [h.2] at ht
    cases ht
  | _ => trivial

theorem refusal_precise_crowdedRun :
    ∃ s s', runTrace step init crowdedRun = some s ∧ step s .check = some s' ∧
      s'.answered = s.answered ++ [(soloRequest 1, Answer.refused)] ∧
      (s.maxQueryLimit : Int) < unanswered s ∧ 1 < unanswered s :=
  ⟨_, _, rfl, rfl, rfl, refusal_precise crowdedRun .check _ _ (soloRequest 1) rfl rfl
    (noTasks_sound _ _ rfl) rfl⟩

/-- A request answered but not yet reaped when the next one arrives alone. -/
def staleRun : List (Event Unit Unit) :=
  [.receive [soloRequest 0] 1, .check, .check, .spawnBackground, .spawnForeground,
    .endIteration, .answer 0 0 (), .complete 0, .receive [soloRequest 1] 1]

/--
Under a limit of one, a request that arrives alone after the only earlier
request has been answered is refused although nothing else waits.
-/
theorem refused_alone :
    ∃ s s', runTrace step init staleRun = some s ∧ step s .check = some s' ∧
      s.requests = [soloRequest 1] ∧ s.received = [soloRequest 0, soloRequest 1] ∧
      s.answered = [(soloRequest 0, Answer.processed ())] ∧
      s'.answered = s.answered ++ [(soloRequest 1, Answer.refused)] ∧
      s.maxQueryLimit = 1 ∧ ¬(s.maxQueryLimit : Int) < unanswered s :=
  ⟨_, _, rfl, rfl, rfl, rfl, rfl, rfl, rfl, by decide⟩

end SmartDns.Ports.DispatcherLimiter
