import SmartDns.Verified.Pool
import SmartDns.Ports.DnsMessage
import Mathlib.Algebra.Group.Nat.Defs
import Mathlib.Logic.Function.Basic

/-!
# The circuit breaker of an upstream

An upstream counts its failures in a row and remembers the time of the last one. A
lookup that finds three of them, the last less than `NS_COOLDOWN` ago, is not sent. The
counter and the time are separate, and lookups, probes and the status page read and write
them in any order, so each is a task over one world and each access an operation.

Once every upstream of a group is cooling, a request may send a probe: the counters are
reset, which lets the lookups of that request through. They are all reset to zero, though,
and a lookup that fails counts one failure, so the next lookups go through as well until
there are three again. The same happens to lookups that check before the first one has
recorded its failure, after a busy upstream, whose failure is not recorded, and when a query
is retried.
-/

namespace SmartDns.Ports.CircuitBreaker

open Verified DnsMessage List

/-! ## Answers of an upstream -/

/-- Times are in nanoseconds. -/
def millis (n : Nat) : Nat := n * 1000000

def nsFailThreshold : Nat := 3
def nsCooldown : Nat := millis 30000
def nsProbeInterval : Nat := millis 5000
def nsLookupDeadline : Nat := millis 8000

/-- The kinds of `ProtoError` that a lookup tells apart. -/
inductive SendError where
  | busy
  | canceled
  | io (rawOsError : Option Int)
  | noRecordsFound (responseCode : ResponseCode)
  | timeout
  | other
  deriving DecidableEq

def isBusy (err : SendError) : Bool := decide (err = .busy)

def isNegativeAnswer : SendError → Bool
  | .noRecordsFound code => decide (code = .NoError ∨ code = .NXDomain)
  | _ => false

def isRetryable : SendError → Bool
  | .canceled => true
  | .io code => decide (code = some 10055 ∨ code = some 105)
  | _ => false

/-- What a query ends with; the time limit makes it an error. -/
inductive Reply where
  | response (code : ResponseCode)
  | error (err : SendError)

variable {r : Reply}

namespace Reply

def negative : Reply → Bool
  | response _ => false
  | error err => isNegativeAnswer err

def busy : Reply → Bool
  | response _ => false
  | error err => isBusy err

def retryable : Reply → Bool
  | response _ => false
  | error err => !isBusy err && isRetryable err

/-- The answers that count as a failure. -/
def fails : Reply → Bool
  | response code => decide (code = .ServFail ∨ code = .Refused)
  | error err => !isBusy err && !isNegativeAnswer err

/-- The answers that reset the count. -/
def succeeds (r : Reply) : Bool := !r.fails && !r.busy

theorem of_fails (h : r.fails = true) : r.negative = false ∧ r.busy = false := by
  cases r with
  | response code => exact ⟨rfl, rfl⟩
  | error err =>
    obtain ⟨hBusy, hNegative⟩ := Bool.and_eq_true_iff.mp h
    exact ⟨by simpa [negative] using hNegative, by simpa [busy] using hBusy⟩

theorem not_busy_of_negative (h : r.negative = true) : r.busy = false := by
  cases r with
  | response code => cases h
  | error err =>
    cases err with
    | busy => cases h
    | _ => rfl

end Reply

/-! ## Tasks -/

/-- The accesses to an upstream. `judged` marks what `in_cooldown` returns. -/
inductive Op where
  | load (i : Nat)
  | store (i : Nat)
  | add (i : Nat)
  | elapsed (i : Nat)
  | now
  | stamp (i : Nat) (t : Nat)
  | send (i : Nat)
  | receive (i : Nat)
  | sleep (time : Nat)
  | judged (i : Nat) (cooling : Bool)

abbrev Op.Resp : Op → Type
  | .load _ => Nat
  | .elapsed _ => Option Nat
  | .now => Nat
  | .receive _ => Reply
  | _ => Unit

abbrev Async (α : Type) := Prog Op Op.Resp α

/-- Whether the last failure is recent. -/
def cools (age : Option Nat) : Bool := age.any fun d => decide (d < nsCooldown)

def judge (i : Nat) (cooling : Bool) : Async Bool := do
  Prog.perform (Op.judged i cooling)
  return cooling

/-- Enough failures in a row, the last of them recent. -/
def inCooldown (i : Nat) : Async Bool := do
  let streak ← Prog.perform (Op.load i)
  if streak < nsFailThreshold then judge i false
  else do
    let age ← Prog.perform (Op.elapsed i)
    judge i (cools age)

def recordSuccess (i : Nat) : Async Unit := Prog.perform (Op.store i)

/-- The clock is read before the lock of the last failure is taken. -/
def recordFailure (i : Nat) : Async Unit := do
  Prog.perform (Op.add i)
  let t ← Prog.perform Op.now
  Prog.perform (Op.stamp i t)

def isFailing (i : Nat) : Async Bool := inCooldown i

def allowProbe (i : Nat) : Async Unit := Prog.perform (Op.store i)

def sinceLastFailure (i : Nat) : Async (Option Nat) := Prog.perform (Op.elapsed i)

/-- Whether an upstream has failed within the interval of the probes. -/
def failedLately (i : Nat) : Async Bool := do
  let age ← sinceLastFailure i
  return age.any fun d => decide (d < nsProbeInterval)

/-- Lets one query through when the whole group cools. -/
def allowProbeIfAllCooling (servers : List Nat) : Async Unit := do
  if servers.isEmpty || !(← servers.allM isFailing) then return ()
  else if ← servers.anyM failedLately then return ()
  else servers.forM allowProbe

/-- What a lookup records about the answer it ends with. -/
def record (i : Nat) : Reply → Async Unit
  | .response code =>
    if code = .ServFail ∨ code = .Refused then recordFailure i else recordSuccess i
  | .error err =>
    if isBusy err then return ()
    else if isNegativeAnswer err then recordSuccess i
    else recordFailure i

def conclude (i : Nat) (res : Reply) : Async (Option Reply) := do
  record i res
  return some res

/-- The loop of `lookup`, by the retries left. -/
def attempts (i deadline : Nat) : Nat → Nat → Async (Option Reply)
  | 0, _ => do
    Prog.perform (Op.send i)
    conclude i (← Prog.perform (Op.receive i))
  | retries + 1, backoffMs => do
    Prog.perform (Op.send i)
    let res ← Prog.perform (Op.receive i)
    if res.retryable then
      if (← Prog.perform Op.now) < deadline then
        Prog.perform (Op.sleep (millis backoffMs))
        attempts i deadline retries (min (backoffMs * 2) 1000)
      else conclude i res
    else conclude i res

/-- `NameServer::lookup`; an upstream in cooldown has no connections to offer. -/
def lookup (i : Nat) : Async (Option Reply) := do
  if ← inCooldown i then return none
  else do
    let start ← Prog.perform Op.now
    attempts i (start + nsLookupDeadline) 2 50

inductive Task where
  | lookup (i : Nat)
  | probe (servers : List Nat)
  | status (i : Nat)

def Task.prog : Task → Async (Option Reply)
  | .lookup i => CircuitBreaker.lookup i
  | .probe servers => do
    allowProbeIfAllCooling servers
    return none
  | .status i => do
    let _ ← isFailing i
    return none

/-! ## The world -/

/-- What has happened to the upstreams, the latest first. -/
inductive Entry where
  | failure (i : Nat)
  | reset (i : Nat)
  | sent (i : Nat) (t : Nat)

/-- The clock, the counters and what has happened. -/
structure World where
  clock : Nat
  failStreak : Nat → Nat
  lastFailure : Nat → Option Nat
  log : List Entry

/-- The failures of an upstream since its count was last reset. -/
def recorded (i : Nat) : List Entry → Nat
  | [] => 0
  | .failure j :: log => if j = i then recorded i log + 1 else recorded i log
  | .reset j :: log => if j = i then 0 else recorded i log
  | .sent _ _ :: log => recorded i log

/-- The times at which queries were sent to an upstream. -/
def sends (i : Nat) (log : List Entry) : List Nat :=
  log.filterMap fun entry =>
    match entry with
    | .sent j t => if j = i then some t else none
    | _ => none

namespace World

def tick (w : World) (d : Nat) : World := { w with clock := w.clock + d }

/-- One operation, with `reply` as what comes back. -/
def perform (w : World) (reply : Reply) : (o : Op) → o.Resp × World
  | .load i => (w.failStreak i, w)
  | .store i =>
    ((), { w with failStreak := Function.update w.failStreak i 0, log := .reset i :: w.log })
  | .add i =>
    ((), { w with
      failStreak := Function.update w.failStreak i ((w.failStreak i + 1) % 2 ^ 32)
      log := .failure i :: w.log })
  | .elapsed i => ((w.lastFailure i).map (w.clock - ·), w)
  | .now => (w.clock, w)
  | .stamp i t => ((), { w with lastFailure := Function.update w.lastFailure i (some t) })
  | .send i => ((), { w with log := .sent i w.clock :: w.log })
  | .receive _ => (reply, w)
  | .sleep _ => ((), w)
  | .judged _ _ => ((), w)

end World

/-- How far a lookup has come. -/
inductive Phase where
  | checking
  | through
  | sent
  | counted
  | timed (t : Nat)
  | stamped
  | cleared
  deriving DecidableEq

/-- What a task has seen: the failures recorded when it loaded the counter, the age of the last
one when it read that, and the answer it has received. -/
structure Ghost where
  server : Option Nat
  phase : Phase
  recorded : Nat
  age : Option Nat
  heard : Option Reply

def Ghost.after (g : Ghost) (n : Nat) : (o : Op) → o.Resp → Ghost
  | .load _, streak =>
    { g with
      recorded := n
      phase := if g.server.isSome && decide (streak < nsFailThreshold) then .through
        else g.phase }
  | .elapsed _, age =>
    { g with
      age := age
      phase := if g.server.isSome && !cools age then .through else g.phase }
  | .send _, _ => { g with phase := .sent }
  | .receive _, reply => { g with heard := some reply }
  | .add _, _ => { g with phase := .counted }
  | .now, t => { g with phase := if g.phase = .counted then .timed t else g.phase }
  | .stamp _ _, _ => { g with phase := .stamped }
  | .store _, _ => { g with phase := if g.server.isSome then .cleared else g.phase }
  | .sleep _, _ => g
  | .judged _ _, _ => g

/-- The failures recorded in the log for the upstream whose counter is loaded. -/
def recordedFor (log : List Entry) : Op → Nat
  | .load i => recorded i log
  | _ => 0

/-- The counter has 32 bits. -/
def Honest (n : Nat) : (o : Op) → o.Resp → Prop
  | .load _, streak => streak = n % 2 ^ 32
  | _, _ => True

/-- Time passes before each operation. -/
def system : System Op Op.Resp World Ghost Task (Nat × Reply) (Option Reply) where
  start := Task.prog
  ghost
    | .lookup i => ⟨some i, .checking, 0, none, none⟩
    | _ => ⟨none, .checking, 0, none, none⟩
  exec w g o e :=
    let x := (w.tick e.1).perform e.2 o
    some (x.1, x.2, g.after (recordedFor w.log o) o x.1)

/-! ## The contract of the tasks -/

/-- A task reads the breaker of the upstream it is for, or of any if it is not a lookup. -/
def Checks (g : Ghost) (i : Nat) : Prop := g.phase = .checking ∧ ∀ j ∈ g.server, j = i

/-- A lookup has received an answer. -/
def Heard (g : Ghost) (i : Nat) (p : Reply → Bool) : Prop :=
  g.server = some i ∧ g.phase = .sent ∧ ∃ r, g.heard = some r ∧ p r = true

/-- What each operation of the breaker asks for. -/
def breaker : Contract Op Op.Resp Ghost where
  pre
    | .load i, g => Checks g i
    | .elapsed i, g => Checks g i
    | .judged _ true, g => nsFailThreshold ≤ g.recorded ∧ cools g.age = true
    | .send i, g => g.server = some i ∧ g.phase = .through ∨ Heard g i Reply.retryable
    | .receive i, g => g.server = some i ∧ g.phase = .sent
    | .add i, g => Heard g i Reply.fails
    | .stamp i t, g => g.server = some i ∧ g.phase = .timed t
    | .store i, g => g.server = none ∨ Heard g i Reply.succeeds
    | _, _ => True
  post o g r g' := ∃ n, g' = g.after n o r ∧ Honest n o r

section Contracts

variable {i : Nat} {g : Ghost}

/-- A judgement of cooling needs enough failures recorded, and a recent one. -/
theorem sat_judge {b : Bool} {Q : Bool → Ghost → Prop} (hQ : Q b g)
    (hCool : b = true → nsFailThreshold ≤ g.recorded ∧ cools g.age = true) :
    Sat breaker (judge i b) g Q := by
  refine Sat.perform ?_ ?_
  · cases b with
    | true => exact hCool rfl
    | false => trivial
  · rintro _ g' ⟨n, rfl, -⟩
    exact hQ

/-- What a check leaves behind. -/
def Judged (g : Ghost) (b : Bool) (g' : Ghost) : Prop :=
  g'.server = g.server ∧ g'.heard = g.heard ∧
    g'.phase = if g.server.isSome && !b then .through else .checking

/-- The cooldown check judges by the failures recorded before it. -/
theorem sat_inCooldown (h : Checks g i) : Sat breaker (inCooldown i) g (Judged g) := by
  refine Sat.perform h ?_
  rintro (streak : Nat) g₁ ⟨n, rfl, hStreak⟩
  have hStreak : streak = n % 2 ^ 32 := hStreak
  by_cases hFew : streak < nsFailThreshold
  · rw [if_pos hFew]
    refine sat_judge ⟨rfl, rfl, ?_⟩ nofun
    simp [Ghost.after, hFew, h.1]
  · rw [if_neg hFew]
    have hSame : g.after n (.load i) streak = { g with recorded := n } := by
      simp [Ghost.after, hFew]
    rw [hSame]
    refine Sat.perform (o := Op.elapsed i) h ?_
    rintro age g₂ ⟨m, rfl, -⟩
    refine sat_judge ⟨rfl, rfl, ?_⟩ ?_
    · simp [Ghost.after, h.1]
    · intro hCool
      exact ⟨show nsFailThreshold ≤ n by omega, hCool⟩

/-- A lookup that has heard a negative answer has reset the count. -/
def Concluded (g : Ghost) : Prop := ∀ r, g.heard = some r → r.negative = true → g.phase = .cleared

/-- A success is recorded after a reply that succeeds. -/
theorem sat_recordSuccess (hHeard : Heard g i Reply.succeeds) :
    Sat breaker (recordSuccess i) g (fun _ => Concluded) := by
  refine ⟨.inr hHeard, ?_⟩
  rintro _ g' ⟨n, rfl, -⟩
  exact fun _ _ _ => if_pos (by rw [hHeard.1]; rfl)

/-- A failure is recorded after a reply that fails. -/
theorem sat_recordFailure (hServer : g.server = some i) (hPhase : g.phase = .sent)
    (hHeard : g.heard = some r) (hFails : r.fails = true) :
    Sat breaker (recordFailure i) g (fun _ => Concluded) := by
  refine Sat.perform ⟨hServer, hPhase, r, hHeard, hFails⟩ ?_
  rintro _ g₁ ⟨n, rfl, -⟩
  refine Sat.perform trivial ?_
  rintro (t : Nat) g₂ ⟨m, rfl, -⟩
  refine ⟨⟨hServer, rfl⟩, ?_⟩
  rintro _ g₃ ⟨_, rfl, -⟩
  intro r' hr' hNegative
  rw [show r' = r from Option.some.inj (hr'.symm.trans hHeard)] at hNegative
  rw [(Reply.of_fails hFails).1] at hNegative
  cases hNegative

/-- A lookup is concluded by what its last reply was. -/
theorem sat_conclude (hServer : g.server = some i) (hPhase : g.phase = .sent)
    (hHeard : g.heard = some r) : Sat breaker (conclude i r) g (fun _ => Concluded) := by
  have hFailure : r.fails = true → Sat breaker (recordFailure i) g (fun _ => Concluded) :=
    sat_recordFailure hServer hPhase hHeard
  have hSuccess : r.succeeds = true → Sat breaker (recordSuccess i) g (fun _ => Concluded) :=
    fun h => sat_recordSuccess ⟨hServer, hPhase, r, hHeard, h⟩
  refine Sat.seq (Q := fun _ => Concluded) ?_ (fun _ _ hDone => hDone)
  cases r with
  | response code =>
    by_cases hCode : code = .ServFail ∨ code = .Refused
    · rw [record, if_pos hCode]
      exact hFailure (decide_eq_true hCode)
    · rw [record, if_neg hCode]
      exact hSuccess (by simp [Reply.succeeds, Reply.fails, Reply.busy, hCode])
  | error err =>
    by_cases hBusy : isBusy err = true
    · rw [record, if_pos hBusy]
      intro r' hr' hNegative
      rw [show r' = .error err from Option.some.inj (hr'.symm.trans hHeard)] at hNegative
      exact absurd hBusy (Bool.eq_false_iff.mp (Reply.not_busy_of_negative hNegative))
    · rw [record, if_neg hBusy]
      by_cases hNegative : isNegativeAnswer err = true
      · rw [if_pos hNegative]
        exact hSuccess (by simp [Reply.succeeds, Reply.fails, Reply.busy, hNegative, hBusy])
      · rw [if_neg hNegative]
        exact hFailure (by simp [Reply.fails, hNegative, hBusy])

/-- Every attempt but the first follows a reply that may be tried again. -/
theorem sat_attempts (deadline retries : Nat) : ∀ backoffMs {g : Ghost},
    g.server = some i ∧ g.phase = .through ∨ Heard g i Reply.retryable →
      Sat breaker (attempts i deadline retries backoffMs) g (fun _ => Concluded) := by
  induction retries with
  | zero =>
    intro backoffMs g h
    have hServer : g.server = some i := h.elim And.left And.left
    refine Sat.perform h ?_
    rintro _ g₁ ⟨_, rfl, -⟩
    refine Sat.perform ⟨hServer, rfl⟩ ?_
    rintro (res : Reply) g₂ ⟨_, rfl, -⟩
    exact sat_conclude hServer rfl rfl
  | succ retries ih =>
    intro backoffMs g h
    have hServer : g.server = some i := h.elim And.left And.left
    refine Sat.perform h ?_
    rintro _ g₁ ⟨_, rfl, -⟩
    refine Sat.perform ⟨hServer, rfl⟩ ?_
    rintro (res : Reply) g₂ ⟨_, rfl, -⟩
    split
    · rename_i hRetry
      refine Sat.perform trivial ?_
      rintro (t : Nat) g₃ ⟨_, rfl, -⟩
      split
      · refine Sat.perform trivial ?_
        rintro _ g₄ ⟨_, rfl, -⟩
        exact ih _ (.inr ⟨hServer, rfl, res, rfl, hRetry⟩)
      · exact sat_conclude hServer rfl rfl
    · exact sat_conclude hServer rfl rfl

/-- A lookup of one server keeps to the rules of the breaker. -/
theorem sat_lookup (h : Checks g i) (hServer : g.server = some i) (hHeard : g.heard = none) :
    Sat breaker (lookup i) g (fun _ => Concluded) := by
  refine Sat.seq (sat_inCooldown h) ?_
  rintro b g₁ ⟨hServer₁, hHeard₁, hPhase₁⟩
  rw [hServer] at hServer₁ hPhase₁
  cases b with
  | true =>
    intro r hr
    rw [hHeard₁, hHeard] at hr
    cases hr
  | false =>
    refine Sat.perform trivial ?_
    rintro (t : Nat) g₂ ⟨_, rfl, -⟩
    refine sat_attempts _ _ _ (.inl ⟨hServer₁, ?_⟩)
    simp [Ghost.after, hPhase₁]

/-- A task that is not a lookup leaves its ghost state as it was, but for what it has read. -/
def Free (g : Ghost) : Prop := g.server = none ∧ g.phase = .checking ∧ g.heard = none

theorem Free.checks (h : Free g) (i : Nat) : Checks g i := ⟨h.2.1, by simp [h.1]⟩

theorem sat_isFailing (h : Free g) (i : Nat) : Sat breaker (isFailing i) g (fun _ => Free) := by
  refine Sat.mono ?_ _ (sat_inCooldown (h.checks i))
  rintro b g' ⟨hServer, hHeard, hPhase⟩
  rw [h.1] at hServer hPhase
  exact ⟨hServer, hPhase, hHeard.trans h.2.2⟩

theorem sat_failedLately (h : Free g) (i : Nat) :
    Sat breaker (failedLately i) g (fun _ => Free) := by
  refine Sat.perform (o := Op.elapsed i) (h.checks i) ?_
  rintro age g' ⟨_, rfl, -⟩
  exact ⟨h.1, by simp [Ghost.after, h.1, h.2.1], h.2.2⟩

theorem sat_allowProbe (h : Free g) (i : Nat) : Sat breaker (allowProbe i) g (fun _ => Free) := by
  refine ⟨.inl h.1, ?_⟩
  rintro _ g' ⟨_, rfl, -⟩
  exact ⟨h.1, by simp [Ghost.after, h.1, h.2.1], h.2.2⟩

theorem sat_allM {p : Nat → Async Bool}
    (hp : ∀ {g}, Free g → ∀ i, Sat breaker (p i) g (fun _ => Free)) (servers : List Nat) :
    ∀ {g}, Free g → Sat breaker (servers.allM p) g (fun _ => Free) := by
  induction servers with
  | nil => exact id
  | cons i servers ih =>
    intro g h
    refine Sat.seq (hp h i) ?_
    intro b g' h'
    cases b with
    | true => exact ih h'
    | false => exact h'

theorem sat_anyM {p : Nat → Async Bool}
    (hp : ∀ {g}, Free g → ∀ i, Sat breaker (p i) g (fun _ => Free)) (servers : List Nat) :
    ∀ {g}, Free g → Sat breaker (servers.anyM p) g (fun _ => Free) := by
  induction servers with
  | nil => exact id
  | cons i servers ih =>
    intro g h
    refine Sat.seq (hp h i) ?_
    intro b g' h'
    cases b with
    | true => exact h'
    | false => exact ih h'

theorem sat_forM (servers : List Nat) :
    ∀ {g}, Free g → Sat breaker (servers.forM allowProbe) g (fun _ => Free) := by
  induction servers with
  | nil => exact id
  | cons i servers ih =>
    intro g h
    exact Sat.seq (sat_allowProbe h i) (fun _ _ h' => ih h')

/-- Allowing a probe of a cooling group sends nothing. -/
theorem sat_probe (h : Free g) (servers : List Nat) :
    Sat breaker (allowProbeIfAllCooling servers) g (fun _ => Free) := by
  refine Sat.seq (sat_allM sat_isFailing servers h) ?_
  intro all g₁ h₁
  split
  · exact h₁
  · refine Sat.seq (sat_anyM sat_failedLately servers h₁) ?_
    intro lately g₂ h₂
    split
    · exact h₂
    · exact sat_forM servers h₂

theorem Free.concluded (h : Free g) : Concluded g := by
  intro r hr
  rw [h.2.2] at hr
  cases hr

/-- Every task keeps to the rules and ends concluded. -/
theorem sat_task (task : Task) :
    Sat breaker (system.start task) (system.ghost task) (fun _ => Concluded) := by
  cases task with
  | lookup i => exact sat_lookup ⟨rfl, by simp [system]⟩ rfl rfl
  | probe servers => exact Sat.seq (sat_probe ⟨rfl, rfl, rfl⟩ servers) fun _ _ h => h.concluded
  | status i => exact Sat.seq (sat_isFailing ⟨rfl, rfl, rfl⟩ i) fun _ _ h => h.concluded

end Contracts

/-! ## What a cooling upstream has behind it -/

def World.start (clock : Nat) : World := ⟨clock, fun _ => 0, fun _ => none, []⟩

/-- The counters count, as far as they go. -/
def Exact (w : World) : Prop := ∀ i, w.failStreak i = recorded i w.log % 2 ^ 32

variable {w : World}

/-- The counters stay exact whatever operation is performed. -/
theorem Exact.perform (h : Exact w) (reply : Reply) (o : Op) : Exact (w.perform reply o).2 := by
  intro j
  cases o with
  | store i =>
    by_cases hj : j = i
    · simp [World.perform, recorded, hj]
    · simp [World.perform, recorded, hj, Ne.symm hj, h j]
  | add i =>
    by_cases hj : j = i
    · simp [World.perform, recorded, hj, h i]
    · simp [World.perform, recorded, hj, Ne.symm hj, h j]
  | _ => exact h j

/-- What an operation answers agrees with the failures recorded. -/
theorem exec_honest (h : Exact w) (d : Nat) (reply : Reply) (o : Op) :
    Honest (recordedFor w.log o) o ((w.tick d).perform reply o).1 := by
  cases o with
  | load i => exact h i
  | _ => trivial

/-- A server found cooling has failed often enough and lately; negative replies clear it. -/
theorem cooldown_sound {clock : Nat} {es : List (PoolEvent Task (Nat × Reply))}
    {p : Pool Op Op.Resp World Ghost Task (Option Reply)}
    (hRun : runTrace system.step ⟨.start clock, []⟩ es = some p) :
    ∀ t ∈ p.threads,
      (∀ i k, t.prog = .call (.judged i true) k →
        nsFailThreshold ≤ t.ghost.recorded ∧ ∃ d, t.ghost.age = some d ∧ d < nsCooldown) ∧
      (∀ i k, t.prog = .call (.add i) k →
        ∃ r, t.ghost.heard = some r ∧ r.negative = false ∧ r.busy = false) ∧
      (∀ res r, t.prog = .done res → t.ghost.heard = some r → r.negative = true →
        t.ghost.phase = .cleared) := by
  have hInv : System.PoolInv breaker (fun w _ => Exact w) (fun _ _ => Concluded) p := by
    refine System.pool_invariant ?_ ?_ (fun _ => rfl) (stepsMeet_true _ es _) hRun
    · exact fun _ task hExact _ => ⟨sat_task task, hExact⟩
    · intro p tid a t o k r w' g' hExact _ _ _ _ hExec
      cases hExec
      exact ⟨⟨_, rfl, exec_honest hExact a.1 a.2 o⟩,
        Exact.perform (w := p.world.tick a.1) hExact a.2 o⟩
  intro t ht
  refine ⟨?_, ?_, ?_⟩
  · intro i k hProg
    obtain ⟨hMany, hCools⟩ := hInv.pre_of_call ht hProg
    obtain ⟨d, hd, hLess⟩ := (Option.any_eq_true _ _).mp hCools
    exact ⟨hMany, d, hd, of_decide_eq_true hLess⟩
  · intro i k hProg
    obtain ⟨-, -, r, hr, hFails⟩ := hInv.pre_of_call ht hProg
    exact ⟨r, hr, Reply.of_fails hFails⟩
  · intro res r hProg hr hNegative
    exact hInv.post_of_done ht hProg r hr hNegative

/-- Some operations of one task, the upstream not answering in time. -/
def proceeds (tid n : Nat) : List (PoolEvent Task (Nat × Reply)) :=
  List.replicate n (.step tid (0, .error .timeout))

/-- A lookup that is let through and fails. -/
def failedLookup (tid : Nat) : List (PoolEvent Task (Nat × Reply)) :=
  .spawn (.lookup 0) :: proceeds tid 8

/-- Three lookups have failed, and a fourth checks. -/
def fourLookups : List (PoolEvent Task (Nat × Reply)) :=
  failedLookup 0 ++ failedLookup 1 ++ failedLookup 2 ++ .spawn (.lookup 0) :: proceeds 3 2

/-- The task has found an upstream cooling. -/
def foundCooling (t : Thread Op Op.Resp Ghost Task (Option Reply)) : Bool :=
  match t.prog with
  | .call (.judged _ true) _ => true
  | _ => false

theorem of_foundCooling {t : Thread Op Op.Resp Ghost Task (Option Reply)}
    (h : foundCooling t = true) : ∃ i k, t.prog = .call (.judged i true) k := by
  unfold foundCooling at h
  split at h
  · rename_i i k hProg
    exact ⟨i, k, hProg⟩
  · cases h

/-- Three failed lookups, and a fourth that finds the server cooling. -/
theorem cooldown_sound_fourLookups : ∃ p t,
    runTrace system.step ⟨.start 0, []⟩ fourLookups = some p ∧ t ∈ p.threads ∧
      foundCooling t = true ∧ nsFailThreshold ≤ t.ghost.recorded ∧
      ∃ d, t.ghost.age = some d ∧ d < nsCooldown := by
  have hCooling : ((runTrace system.step ⟨.start 0, []⟩ fourLookups).bind
      fun p => p.threads[3]?).any foundCooling = true := by decide
  obtain ⟨t, hFourth, hFound⟩ := (Option.any_eq_true _ _).mp hCooling
  obtain ⟨p, hRun, hThread⟩ := Option.bind_eq_some_iff.mp hFourth
  obtain ⟨i, k, hProg⟩ := of_foundCooling hFound
  have hMem := mem_of_getElem? hThread
  exact ⟨p, t, hRun, hMem, hFound, (cooldown_sound hRun t hMem).1 i k hProg⟩

/-! ## The rate of the probes -/

/-- A lookup is let through and has not recorded the time of its failure. -/
def underWay (i : Nat) (g : Ghost) : Bool :=
  g.server == some i &&
    match g.phase with
    | .checking => false
    | .stamped => false
    | .cleared => false
    | _ => true

/-- A query was sent less than `NS_PROBE_INTERVAL` ago. -/
def sentLately (i : Nat) (w : World) : Bool :=
  (sends i w.log).any fun s => decide (w.clock < s + nsProbeInterval)

/-- A lookup checks while no other is under way, an upstream that was sent a query lately has
three failures, and each query ends with a failure that counts. -/
def calm (w : World) (gs : List Ghost) (g : Ghost) (reply : Reply) : Op → Bool
  | .load i =>
    g.server.isNone || gs.countP (underWay i) == 0 &&
      (!sentLately i w || decide (nsFailThreshold ≤ w.failStreak i))
  | .elapsed i => g.server.isNone || gs.countP (underWay i) == 0
  | .receive _ => reply.fails && !reply.retryable
  | _ => true

/-- A pool event whose operation is calm. -/
def orderly (p : Pool Op Op.Resp World Ghost Task (Option Reply)) :
    PoolEvent Task (Nat × Reply) → Bool
  | .spawn _ => true
  | .step tid e =>
    match p.threads[tid]? with
    | some ⟨_, g, .call o _⟩ => calm (p.world.tick e.1) (System.ghosts p) g e.2 o
    | _ => true

/-- What a lookup under way knows of the queries sent before. -/
def Poised (i : Nat) (w : World) (g : Ghost) : Prop :=
  g.server = some i →
    (g.phase = .through → ∀ s ∈ sends i w.log, s + nsProbeInterval ≤ w.clock) ∧
      ∀ t, g.phase = .timed t → ∀ s ∈ sends i w.log, s ≤ t

/-- The sends to one server lie apart. -/
structure Spaced (i : Nat) (w : World) (gs : List Ghost) : Prop where
  alone : gs.countP (underWay i) ≤ 1
  past : ∀ s ∈ sends i w.log, s ≤ w.clock
  apart : (sends i w.log).Pairwise fun s s' => s' + nsProbeInterval ≤ s
  poised : ∀ g ∈ gs, Poised i w g
  stamped : gs.countP (underWay i) = 0 → ∀ s ∈ sends i w.log, ∃ t, w.lastFailure i = some t ∧ s ≤ t

/-- Every answer heard is a failure that counts. -/
def Failing (g : Ghost) : Prop := ∀ r, g.heard = some r → r.fails = true ∧ r.retryable = false

variable {reply : Reply}

section Spacing

variable {i : Nat} {w : World} {g : Ghost} {gs rest : List Ghost}

theorem Spaced.tick (h : Spaced i w gs) (d : Nat) : Spaced i (w.tick d) gs where
  alone := h.alone
  past s hs := (h.past s hs).trans (Nat.le_add_right _ d)
  apart := h.apart
  poised g hg hServer := by
    obtain ⟨hThrough, hTimed⟩ := h.poised g hg hServer
    exact ⟨fun hPhase s hs => (hThrough hPhase s hs).trans (Nat.le_add_right _ d), hTimed⟩
  stamped := h.stamped

theorem Spaced.perm {gs' : List Ghost} (h : Spaced i w gs) (hPerm : gs.Perm gs') :
    Spaced i w gs' where
  alone := hPerm.countP_eq (underWay i) ▸ h.alone
  past := h.past
  apart := h.apart
  poised g hg := h.poised g (hPerm.mem_iff.mpr hg)
  stamped hNone := h.stamped ((hPerm.countP_eq (underWay i)).trans hNone)

variable {g' : Ghost}

/-- The task that moves is under way as before, and nothing else that matters changes. -/
theorem Spaced.frame {w' : World} (h : Spaced i w (g :: rest))
    (hLog : sends i w'.log = sends i w.log) (hClock : w'.clock = w.clock)
    (hFailure : w'.lastFailure i = w.lastFailure i) (hWay : underWay i g' = underWay i g)
    (hPoised : Poised i w g') : Spaced i w' (g' :: rest) := by
  have hCount : (g' :: rest).countP (underWay i) = (g :: rest).countP (underWay i) := by
    rw [countP_cons, countP_cons, hWay]
  refine ⟨hCount ▸ h.alone, ?_, ?_, ?_, ?_⟩
  · rw [hLog, hClock]
    exact h.past
  · rw [hLog]
    exact h.apart
  · intro u hu
    unfold Poised
    rw [hLog, hClock]
    rcases mem_cons.mp hu with rfl | hu
    · exact hPoised
    · exact h.poised u (mem_cons_of_mem g hu)
  · rw [hCount, hLog, hFailure]
    exact h.stamped

theorem not_underWay_of_ne (h : g.server ≠ some i) : underWay i g = false := by
  rw [underWay, beq_eq_false_iff_ne.mpr h]
  exact Bool.false_and _

theorem poised_of_not_underWay (h : underWay i g = false) : Poised i w g := by
  intro hServer
  constructor
  · intro hPhase
    simp [underWay, hServer, hPhase] at h
  · intro t hPhase
    simp [underWay, hServer, hPhase] at h

/-- A lookup is let through when no other is under way and no query was sent lately. -/
theorem Spaced.letThrough (h : Spaced i w (g :: rest)) (hNone : (g :: rest).countP (underWay i) = 0)
    (hPhase : g'.phase = .through) (hFar : ∀ s ∈ sends i w.log, s + nsProbeInterval ≤ w.clock) :
    Spaced i w (g' :: rest) := by
  have hRest : rest.countP (underWay i) = 0 := by
    rw [countP_cons] at hNone
    omega
  refine ⟨?_, h.past, h.apart, ?_, ?_⟩
  · rw [countP_cons]
    split <;> omega
  · intro u hu
    rcases mem_cons.mp hu with rfl | hu
    · exact fun _ => ⟨fun _ => hFar, fun t hTimed => by rw [hPhase] at hTimed; cases hTimed⟩
    · exact h.poised u (mem_cons_of_mem g hu)
  · intro hZero
    refine h.stamped ?_
    rw [hNone]

/-- While a task is under way, the others are not. -/
theorem Spaced.others (h : Spaced i w (g :: rest)) (hWay : underWay i g = true) :
    rest.countP (underWay i) = 0 := by
  have hAlone := h.alone
  rw [countP_cons, if_pos hWay] at hAlone
  omega

/-- A send of the one task under way keeps the sends apart. -/
theorem Spaced.send (h : Spaced i w (g :: rest)) (hServer : g.server = some i)
    (hPhase : g.phase = .through) (hServer' : g'.server = some i) (hPhase' : g'.phase = .sent) :
    Spaced i { w with log := .sent i w.clock :: w.log } (g' :: rest) := by
  have hOthers := h.others (by simp [underWay, hServer, hPhase])
  have hSends : sends i (.sent i w.clock :: w.log) = w.clock :: sends i w.log := by simp [sends]
  have hWay' : underWay i g' = true := by simp [underWay, hServer', hPhase']
  have hFar := (h.poised g mem_cons_self hServer).1 hPhase
  refine ⟨?_, ?_, ?_, ?_, ?_⟩
  · rw [countP_cons, hOthers, if_pos hWay']
  · rw [hSends]
    exact forall_mem_cons.mpr ⟨le_rfl, h.past⟩
  · rw [hSends]
    exact pairwise_cons.mpr ⟨hFar, h.apart⟩
  · refine forall_mem_cons.mpr ⟨fun _ => ⟨?_, ?_⟩, ?_⟩
    · rw [hPhase']
      exact nofun
    · rw [hPhase']
      exact nofun
    · intro u hu
      exact poised_of_not_underWay (by simpa using countP_eq_zero.mp hOthers u hu)
  · rw [countP_cons, if_pos hWay']
    exact nofun

/-- Writing the stamp keeps the sends apart. -/
theorem Spaced.stamp {t : Nat} (h : Spaced i w (g :: rest)) (hServer : g.server = some i)
    (hPhase : g.phase = .timed t) (hPhase' : g'.phase = .stamped) :
    Spaced i { w with lastFailure := Function.update w.lastFailure i (some t) } (g' :: rest) := by
  have hOthers := h.others (by simp [underWay, hServer, hPhase])
  have hWay' : underWay i g' = false := by simp [underWay, hPhase']
  have hBefore := (h.poised g mem_cons_self hServer).2 t hPhase
  refine ⟨?_, h.past, h.apart, ?_, ?_⟩
  · rw [countP_cons]
    split <;> omega
  · refine forall_mem_cons.mpr ⟨poised_of_not_underWay hWay', ?_⟩
    exact fun u hu => h.poised u (mem_cons_of_mem g hu)
  · exact fun _ s hs => ⟨t, Function.update_self .., hBefore s hs⟩

/-- Without a recent send, all sends are a probe interval back. -/
theorem far_of_not_sentLately (h : sentLately i w = false) :
    ∀ s ∈ sends i w.log, s + nsProbeInterval ≤ w.clock := by
  simpa [sentLately] using h

/-- A failure that is no longer recent was the last thing recorded. -/
theorem Spaced.far_of_not_cools (h : Spaced i w gs) (hNone : gs.countP (underWay i) = 0)
    (hCools : cools ((w.lastFailure i).map (w.clock - ·)) = false) :
    ∀ s ∈ sends i w.log, s + nsProbeInterval ≤ w.clock := by
  intro s hs
  obtain ⟨t, hLast, hBefore⟩ := h.stamped hNone s hs
  have hOld : nsCooldown ≤ w.clock - t := by simpa [hLast, cools] using hCools
  have hLess : nsProbeInterval < nsCooldown := by decide
  omega

variable {o : Op}

/-- One operation of a lookup of the upstream. -/
theorem Spaced.own (h : Spaced i w (g :: rest)) (hServer : g.server = some i) (hFailing : Failing g)
    (hPre : breaker.pre o g) (hCalm : calm w (g :: rest) g reply o = true) (n : Nat) :
    Spaced i (w.perform reply o).2 (g.after n o (w.perform reply o).1 :: rest) := by
  have hSome : g.server.isSome = true := by rw [hServer]; rfl
  have hMine : Poised i w g := h.poised g mem_cons_self
  cases o with
  | load j =>
    obtain rfl : i = j := hPre.2 i hServer
    by_cases hFew : w.failStreak i < nsFailThreshold
    · simp only [calm, hServer, Option.isNone_some, Bool.false_or, Bool.and_eq_true, beq_iff_eq,
        Nat.not_le.mpr hFew] at hCalm
      refine h.letThrough hCalm.1 (by simp [Ghost.after, World.perform, hSome, hFew]) ?_
      exact far_of_not_sentLately (by simpa using hCalm.2)
    · have hSame : g.after n (.load i) (w.failStreak i) = { g with recorded := n } := by
        simp [Ghost.after, hFew]
      show Spaced i w (g.after n (.load i) (w.failStreak i) :: rest)
      rw [hSame]
      exact h.frame rfl rfl rfl rfl hMine
  | elapsed j =>
    obtain rfl : i = j := hPre.2 i hServer
    have hNone : (g :: rest).countP (underWay i) = 0 := by simpa [calm, hServer] using hCalm
    cases hCools : cools ((w.lastFailure i).map (w.clock - ·)) with
    | false =>
      refine h.letThrough hNone ?_ (h.far_of_not_cools hNone hCools)
      simp [Ghost.after, World.perform, hSome, hCools]
    | true =>
      refine h.frame rfl rfl rfl ?_ ?_
      · simp [underWay, Ghost.after, World.perform, hCools]
      · simpa [Poised, Ghost.after, World.perform, hCools] using hMine
  | send j =>
    obtain ⟨hj, hPhase⟩ | ⟨-, -, r, hr, hRetry⟩ := hPre
    · obtain rfl : i = j := Option.some.inj (hServer.symm.trans hj)
      exact h.send hServer hPhase hServer rfl
    · rw [(hFailing r hr).2] at hRetry
      cases hRetry
  | receive j => exact h.frame rfl rfl rfl rfl hMine
  | add j =>
    refine h.frame rfl rfl rfl ?_ (fun _ => ⟨nofun, nofun⟩)
    simp [underWay, Ghost.after, hPre.2.1]
  | now =>
    by_cases hCounted : g.phase = .counted
    · have hTimed : g.after n .now w.clock = { g with phase := .timed w.clock } := by
        simp [Ghost.after, hCounted]
      show Spaced i w (g.after n .now w.clock :: rest)
      rw [hTimed]
      refine h.frame rfl rfl rfl ?_ (fun _ => ⟨nofun, ?_⟩)
      · simp [underWay, hCounted]
      · rintro t ht
        cases ht
        exact h.past
    · have hSame : g.after n .now w.clock = g := by simp [Ghost.after, hCounted]
      show Spaced i w (g.after n .now w.clock :: rest)
      rw [hSame]
      exact h
  | stamp j t =>
    obtain rfl : i = j := Option.some.inj (hServer.symm.trans hPre.1)
    exact h.stamp hServer hPre.2 rfl
  | store j =>
    obtain hNone | ⟨-, -, r, hr, hSucceeds⟩ := hPre
    · rw [hServer] at hNone
      cases hNone
    · rw [Reply.succeeds, (hFailing r hr).1] at hSucceeds
      cases hSucceeds
  | sleep | judged => exact h

/-- An operation of a task that is not a lookup of the upstream. -/
theorem Spaced.other (h : Spaced i w (g :: rest)) (hServer : g.server ≠ some i)
    (hPre : breaker.pre o g) (reply : Reply) (n : Nat) :
    Spaced i (w.perform reply o).2 (g.after n o (w.perform reply o).1 :: rest) := by
  have hServer' : (g.after n o (w.perform reply o).1).server ≠ some i := by
    cases o <;> exact hServer
  have hWay : underWay i (g.after n o (w.perform reply o).1) = underWay i g :=
    (not_underWay_of_ne hServer').trans (not_underWay_of_ne hServer).symm
  refine h.frame ?_ ?_ ?_ hWay (fun hMine => absurd hMine hServer')
  · cases o with
    | send j =>
      have hj : j ≠ i := by
        rintro rfl
        exact hServer (hPre.elim And.left And.left)
      simp [World.perform, sends, hj]
    | _ => rfl
  · cases o <;> rfl
  · cases o with
    | stamp j t =>
      have hj : i ≠ j := by
        rintro rfl
        exact hServer hPre.1
      exact Function.update_of_ne hj ..
    | _ => rfl

/-- A calm step hears nothing but failures that count. -/
theorem Failing.after (h : Failing g) (hCalm : calm w gs g reply o = true) (n : Nat) :
    Failing (g.after n o (w.perform reply o).1) := by
  cases o with
  | receive j =>
    intro r hr
    rw [show r = reply from (Option.some.inj hr).symm]
    simpa [calm] using hCalm
  | _ => exact h

end Spacing

/-- The upstreams of a group, each on its own. -/
structure GroupSpaced (w : World) (gs : List Ghost) : Prop where
  exact : Exact w
  spaced : ∀ i, Spaced i w gs
  failing : ∀ g ∈ gs, Failing g

theorem groupSpaced_spawn {gs : List Ghost} (h : GroupSpaced w gs) (task : Task) :
    GroupSpaced w (system.ghost task :: gs) where
  exact := h.exact
  spaced i := by
    have hIdle : underWay i (system.ghost task) = false := by
      cases task <;> simp [system, underWay]
    have hCount : (system.ghost task :: gs).countP (underWay i) = gs.countP (underWay i) := by
      rw [countP_cons, hIdle]
      rfl
    have hOld := h.spaced i
    refine ⟨hCount ▸ hOld.alone, hOld.past, hOld.apart, ?_, hCount ▸ hOld.stamped⟩
    exact forall_mem_cons.mpr ⟨poised_of_not_underWay hIdle, hOld.poised⟩
  failing := by
    refine forall_mem_cons.mpr ⟨?_, h.failing⟩
    cases task <;> exact nofun

variable {o : Op}

theorem orderly_call {p : Pool Op Op.Resp World Ghost Task (Option Reply)} {tid : Nat}
    {e : Nat × Reply} {t : Thread Op Op.Resp Ghost Task (Option Reply)}
    {k : o.Resp → Async (Option Reply)} (h : orderly p (.step tid e) = true)
    (hThread : p.threads[tid]? = some t) (hProg : t.prog = .call o k) :
    calm (p.world.tick e.1) (System.ghosts p) t.ghost e.2 o = true := by
  obtain ⟨info, g, prog⟩ := t
  cases hProg
  simpa only [orderly, hThread] using h

theorem calm_perm {gs gs' : List Ghost} {g : Ghost} (hPerm : gs.Perm gs') :
    calm w gs g reply o = calm w gs' g reply o := by
  cases o with
  | load | elapsed => rw [calm, calm, hPerm.countP_eq]
  | _ => rfl

/-- A calm step keeps the sends to each server apart. -/
theorem GroupSpaced.perform {g : Ghost} {rest : List Ghost} (h : GroupSpaced w (g :: rest))
    (hPre : breaker.pre o g) (hCalm : calm w (g :: rest) g reply o = true) (n : Nat) :
    GroupSpaced (w.perform reply o).2 (g.after n o (w.perform reply o).1 :: rest) where
  exact := h.exact.perform reply o
  spaced i := by
    by_cases hServer : g.server = some i
    · exact (h.spaced i).own hServer (h.failing g mem_cons_self) hPre hCalm n
    · exact (h.spaced i).other hServer hPre reply n
  failing := by
    obtain ⟨hMine, hRest⟩ := forall_mem_cons.mp h.failing
    exact forall_mem_cons.mpr ⟨hMine.after hCalm n, hRest⟩

/-- In every orderly run the sends to each server are apart. -/
theorem groupSpaced_run (hExact : Exact w) (hLog : ∀ i, sends i w.log = [])
    {es : List (PoolEvent Task (Nat × Reply))} {p : Pool Op Op.Resp World Ghost Task (Option Reply)}
    (hMeet : StepsMeet system.step (fun p e => orderly p e = true) ⟨w, []⟩ es)
    (hRun : runTrace system.step ⟨w, []⟩ es = some p) :
    System.PoolInv breaker GroupSpaced (fun _ _ => Concluded) p := by
  refine System.symmetric_invariant ?_ ?_ ?_ ?_ hMeet hRun
  · intro w gs gs' hPerm h
    exact ⟨h.exact, fun i => (h.spaced i).perm hPerm,
      fun g hg => h.failing g (hPerm.mem_iff.mpr hg)⟩
  · exact fun p task h _ => ⟨sat_task task, groupSpaced_spawn h task⟩
  · intro p tid a t o k r w' g' rest hPerm h hThread hProg hPre hOk hExec
    have hCalm := orderly_call hOk hThread hProg
    rw [calm_perm hPerm] at hCalm
    have hTick : GroupSpaced (p.world.tick a.1) (t.ghost :: rest) :=
      ⟨h.exact, fun i => (h.spaced i).tick a.1, h.failing⟩
    cases hExec
    exact ⟨⟨_, rfl, exec_honest h.exact a.1 a.2 o⟩, hTick.perform hPre hCalm _⟩
  · refine ⟨hExact, fun i => ?_, nofun⟩
    refine ⟨Nat.zero_le 1, ?_, ?_, nofun, ?_⟩
    · rw [hLog i]
      exact nofun
    · rw [hLog i]
      exact List.Pairwise.nil
    · rw [hLog i]
      exact nofun

/-- Queries that are apart do not share a window. -/
theorem countP_window_le {ts : List Nat} {d : Nat} (h : ts.Pairwise fun s s' => s' + d ≤ s)
    (a : Nat) : ts.countP (fun s => decide (a ≤ s ∧ s < a + d)) ≤ 1 := by
  induction ts with
  | nil => exact Nat.zero_le 1
  | cons s ts ih =>
    obtain ⟨hFirst, hRest⟩ := pairwise_cons.mp h
    by_cases hIn : a ≤ s ∧ s < a + d
    · have hNone : ts.countP (fun s => decide (a ≤ s ∧ s < a + d)) = 0 := by
        apply countP_eq_zero.mpr
        intro s' hs'
        have hApart := hFirst s' hs'
        simp only [decide_eq_true_eq]
        omega
      rw [countP_cons]
      split <;> omega
    · rw [countP_cons, if_neg (by simpa using hIn)]
      exact ih hRest

/-- In an orderly run a server is sent at most one query in any probe interval. -/
theorem probe_rate {w : World} (hExact : Exact w) (hLog : ∀ i, sends i w.log = [])
    {es : List (PoolEvent Task (Nat × Reply))}
    {p : Pool Op Op.Resp World Ghost Task (Option Reply)}
    (hMeet : StepsMeet system.step (fun p e => orderly p e = true) ⟨w, []⟩ es)
    (hRun : runTrace system.step ⟨w, []⟩ es = some p) (i a : Nat) :
    (sends i p.world.log).countP (fun s => decide (a ≤ s ∧ s < a + nsProbeInterval)) ≤ 1 :=
  countP_window_le ((groupSpaced_run hExact hLog hMeet hRun).shared.spaced i).apart a

/-- The only upstream of a group has failed three times, at time zero. -/
def cooled (clock : Nat) : World :=
  let log := [.failure 0, .failure 0, .failure 0]
  ⟨clock, fun i => recorded i log, fun _ => some 0, log⟩

theorem exact_cooled (clock : Nat) : Exact (cooled clock) := by
  intro i
  by_cases hi : 0 = i
  · subst hi
    rfl
  · simp [cooled, recorded, hi]

/-- The cooldown is over, and a lookup comes a second after one that has failed. -/
def afterCooldown : List (PoolEvent Task (Nat × Reply)) :=
  .spawn (.lookup 0) :: proceeds 0 9 ++
    .spawn (.lookup 0) :: .step 1 (millis 1000, .error .timeout) :: proceeds 1 2

theorem probe_rate_afterCooldown : ∃ p,
    runTrace system.step ⟨cooled (millis 31000), []⟩ afterCooldown = some p ∧
      sends 0 p.world.log = [millis 31000] ∧ ∀ a, (sends 0 p.world.log).countP
        (fun s => decide (a ≤ s ∧ s < a + nsProbeInterval)) ≤ 1 := by
  have hMeet : StepsMeet system.step (fun p e => orderly p e = true)
      ⟨cooled (millis 31000), []⟩ afterCooldown :=
    stepsMeet_of_meets _ (fun _ _ h => h) _ (by decide)
  have hSends : ((runTrace system.step ⟨cooled (millis 31000), []⟩ afterCooldown).map
      fun p => sends 0 p.world.log) = some [millis 31000] := by decide
  obtain ⟨p, hRun, hOne⟩ := Option.map_eq_some_iff.mp hSends
  exact ⟨p, hRun, hOne, probe_rate (exact_cooled _) (fun _ => rfl) hMeet hRun 0⟩

/-- Two requests while the group is cooling, a second apart: each asks for a probe, then looks up
the name. -/
def twoRequests : List (PoolEvent Task (Nat × Reply)) :=
  .spawn (.probe [0]) :: proceeds 0 5 ++ failedLookup 1 ++
    .spawn (.probe [0]) :: .step 2 (millis 1000, .error .timeout) :: proceeds 2 1 ++
    .spawn (.lookup 0) :: proceeds 3 4

/-- Two requests to a cooling group send two queries within one interval. -/
theorem probe_rate_exceeded : ∃ p,
    runTrace system.step ⟨cooled (millis 5000), []⟩ twoRequests = some p ∧
      (sends 0 p.world.log).countP
        (fun s => decide (millis 5000 ≤ s ∧ s < millis 5000 + nsProbeInterval)) = 2 :=
  ⟨_, rfl, by decide⟩

end SmartDns.Ports.CircuitBreaker
