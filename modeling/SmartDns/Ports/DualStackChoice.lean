import SmartDns.Ports.DualStackIsolation

/-!
# What dual-stack selection decides

`decide_that_faster` compares the pings of the two families once both have ended.
`which_faster` asks it only when the other family's ping ends first. Where the
ping of the family asked for ends first, with or without a result, the other
family is not the faster one.

The middleware lets go of the family asked for in two places: when the comparison
says so, and when the other family has answered and the family asked for does not
answer before a timer. `choose` is the middleware up to that decision. Behind the
first place there is always an address of the other family, which was pinged;
behind the second there need not be one.
-/

namespace SmartDns.Ports.DualStackChoice

open Verified DnsMessage DnsLookup RequestContext RuleTree Middleware InnerChain LookupChoice
open ServerRuns DualStackIsolation

/-! ## Comparing two families -/

/-- **The decision and the order of the pings**: for every outcome of the two pings, `which_faster`
decides by `decide_that_faster` if and only if the other family's ping ends first or the other
family is not the faster one anyway. -/
theorem whichFaster_agrees_iff (this that : DnsResponse) (modes : List SpeedCheckMode)
    (threshold : Nat) (thatFirst : Bool) (t₁ t₂ : List (Sigma Op.Resp)) (o₁ o₂ : Option Nat)
    (hThis : Prog.Yields (pingFastest this.ipAddrs modes) t₁ o₁)
    (hThat : Prog.Yields (pingFastest that.ipAddrs modes) t₂ o₂) :
    ∃ b, Prog.Yields (whichFaster this that modes threshold)
        (⟨.select, thatFirst⟩ :: if thatFirst then t₂ ++ t₁ else t₁) b ∧
      (b = decideThatFaster o₁ o₂ threshold ↔
        thatFirst = true ∨ decideThatFaster o₁ o₂ threshold = false) := by
  cases thatFirst with
  | true =>
    refine ⟨decideThatFaster o₁ o₂ threshold, .call ?_, by simp⟩
    exact hThat.seq (hThis.map fun thisDura => decideThatFaster thisDura o₂ threshold)
  | false =>
    refine ⟨false, .call ?_, by rw [eq_comm]; simp⟩
    exact hThis.map fun _ => false

/-- An answer without an address, and one with an address for the other family. -/
def emptyAnswer : DnsResponse := DnsResponse.newWithMaxTtl (Query.query exampleName .AAAA) []

def addressAnswer : DnsResponse :=
  DnsResponse.newWithMaxTtl exampleQuery [Record.fromRdata exampleName 300 exampleAddress]

/-- There is nothing to ping in the one; the address of the other is reached in a millisecond. -/
def noPing : List (Sigma Op.Resp) := [⟨.ping emptyAnswer.ipAddrs .Ping, none⟩, ⟨.select, false⟩]

def onePing : List (Sigma Op.Resp) :=
  [⟨.ping addressAnswer.ipAddrs .Ping, some (.v4 0x5db8d822#32, 1000000)⟩]

theorem noPing_yields : Prog.Yields (pingFastest emptyAnswer.ipAddrs [.Ping]) noPing none :=
  .call (.call (.done _))

theorem onePing_yields :
    Prog.Yields (pingFastest addressAnswer.ipAddrs [.Ping]) onePing (some 1000000) :=
  .call (.done _)

theorem whichFaster_agrees_iff_thatFirst :
    ∃ b, Prog.Yields (whichFaster emptyAnswer addressAnswer [.Ping] 10000000)
      (⟨.select, true⟩ :: (onePing ++ noPing)) b ∧
      b = decideThatFaster none (some 1000000) 10000000 := by
  obtain ⟨b, hRun, hAgrees⟩ := whichFaster_agrees_iff emptyAnswer addressAnswer [.Ping] 10000000
    true noPing onePing none (some 1000000) noPing_yields onePing_yields
  exact ⟨b, hRun, hAgrees.mpr (.inl rfl)⟩

/-- The family asked for has no address, its ping ends first, and the other family loses. -/
theorem whichFaster_disagrees :
    Prog.Yields (whichFaster emptyAnswer addressAnswer [.Ping] 10000000)
        (⟨.select, false⟩ :: noPing) false ∧
      Prog.Yields (pingFastest emptyAnswer.ipAddrs [.Ping]) noPing none ∧
      Prog.Yields (pingFastest addressAnswer.ipAddrs [.Ping]) onePing (some 1000000) ∧
      decideThatFaster none (some 1000000) 10000000 = true :=
  ⟨.call (noPing_yields.map fun _ => false), noPing_yields, onePing_yields, rfl⟩

/-! ## The decision of the middleware -/

/-- What becomes of the family asked for. It is given up for the response of the other family,
by comparison or because it was late. -/
inductive Choice where
  | keep (outcome : Outcome)
  | suppress (ctx : DnsContext) (that : DnsResponse) (late : Bool)

def Choice.outcome (req : DnsRequest) : Choice → Async Outcome
  | .keep outcome => return outcome
  | .suppress ctx _ _ => thisNoRecords ctx req

/-- Both families have answered. -/
def compare (ctx : DnsContext) (req : DnsRequest) (this that : DnsResponse) (outcome : Outcome) :
    Async Choice := do
  let threshold := ctx.cfg.dualstackIpSelectionThreshold * 1000000
  let thatFaster ← whichFaster this that (dualstackModes ctx) threshold
  let preferThat := req.query.queryType == .A
  if thatFaster && (preferThat || req.query.queryType == .AAAA) then
    return .suppress outcome.2 that false
  else return .keep outcome

/-- The family asked for has ended first. -/
def chooseFirst (ctx : DnsContext) (req : DnsRequest) (outcome : Outcome) (that : Async Outcome) :
    Async Choice :=
  match outcome.1 with
  | .ok this => do
    match ← withTimeout that with
    | some (.ok thatLookup, _) => compare ctx req this thatLookup outcome
    | _ => return .keep outcome
  | .error _ => return .keep outcome

/-- The other family has ended first. -/
def chooseSecond (ctx : DnsContext) (req : DnsRequest) (thatOutcome : Outcome)
    (this : Async Outcome) : Async Choice :=
  match thatOutcome.1 with
  | .ok thatLookup => do
    match ← withTimeout this with
    | some (.ok thisLookup, ctx') =>
      compare ctx req thisLookup thatLookup (.ok thisLookup, ctx')
    | some (.error err, ctx') => return .keep (.error err, ctx')
    | none => return .suppress ctx thatLookup true
  | .error _ => do
    let outcome ← this
    return .keep outcome

/-- The middleware up to its decision. -/
def choose (next : Handler) (ctx : DnsContext) (req : DnsRequest) : Async Choice :=
  if !dualstackApplies ctx req then do
    let outcome ← next ctx req
    return .keep outcome
  else do
    let thatReq := req.setQueryType (thatType req.query.queryType)
    match ← race (next ctx req) (next ctx thatReq) with
    | .left outcome that => chooseFirst ctx req outcome that
    | .right thatOutcome this => chooseSecond ctx req thatOutcome this

section Refinement

variable (ctx : DnsContext) (req : DnsRequest)

theorem keep_outcome (p : Async Outcome) :
    (p >>= fun outcome => (pure (.keep outcome) : Async Choice) >>= Choice.outcome req) = p := by
  induction p with
  | done a => rfl
  | call o k ih => exact congrArg (Prog.call o) (funext ih)

theorem compare_outcome (this that : DnsResponse) (outcome : Outcome) :
    (compare ctx req this that outcome >>= Choice.outcome req) =
      compareFamilies ctx req this that outcome := by
  unfold compare compareFamilies
  rw [Prog.bind_assoc]
  congr 1
  funext thatFaster
  dsimp only
  split <;> rfl

/-- The middleware carries out what it decides. -/
theorem dualStackLayer_eq (next : Handler) :
    dualStackLayer next ctx req = choose next ctx req >>= Choice.outcome req := by
  unfold dualStackLayer choose
  split
  · rw [Prog.bind_assoc]
    exact (keep_outcome req _).symm
  · dsimp only
    rw [Prog.bind_assoc]
    congr 1
    funext ended
    rcases ended with ⟨⟨_ | this, ctx'⟩, that⟩ | ⟨⟨_ | that, ctx'⟩, this⟩
    · rfl
    · unfold chooseFirst
      dsimp only
      rw [Prog.bind_assoc]
      congr 1
      funext late
      rcases late with _ | ⟨_ | thatLookup, ctx''⟩
      · rfl
      · rfl
      · exact (compare_outcome ctx req this thatLookup (.ok this, ctx')).symm
    · unfold chooseSecond
      rw [Prog.bind_assoc]
      exact (keep_outcome req this).symm
    · unfold chooseSecond
      dsimp only
      rw [Prog.bind_assoc]
      congr 1
      funext late
      rcases late with _ | ⟨_ | thisLookup, ctx''⟩
      · rfl
      · rfl
      · exact (compare_outcome ctx req thisLookup that (.ok thisLookup, ctx'')).symm

end Refinement

/-! ## The alternative -/

/-- Behind a family given up by comparison there is an address of the other one. -/
def Choice.Founded : Choice → Prop
  | .suppress _ that late => late = true ∨ that.ipAddrs ≠ []
  | .keep _ => True

/-- As long as the answers are possible, the result is in `Q`. -/
abbrev Returns {α : Type} (Q : α → Prop) (p : Async α) : Prop :=
  Ensures (fun _ => True) (fun o r => Possible ⟨o, r⟩) Q p

theorem pingFastest_returns (addrs : List IpAddr) (modes : List SpeedCheckMode) :
    Returns (fun dura => dura.isSome = true → addrs ≠ []) (pingFastest addrs modes) := by
  induction modes with
  | nil => exact fun hFalse => absurd hFalse (by simp)
  | cons mode modes ih =>
    refine Ensures.perform trivial ?_
    intro out hOut
    cases out with
    | some out => exact fun _ => List.ne_nil_of_mem (possible_ping hOut)
    | none =>
      refine Ensures.perform trivial ?_
      intro expired _
      split
      · exact fun hFalse => absurd hFalse (by simp)
      · exact ih

/-- Only a family with an address is found faster. -/
theorem whichFaster_returns (this that : DnsResponse) (modes : List SpeedCheckMode)
    (threshold : Nat) :
    Returns (fun thatFaster => thatFaster = true → that.ipAddrs ≠ [])
      (whichFaster this that modes threshold) := by
  refine Ensures.perform trivial ?_
  intro thatFirst _
  split
  · refine Ensures.seq _ (pingFastest_returns _ modes) ?_
    intro thatDura hThat
    refine Ensures.seq _ (Ensures.anything _) ?_
    intro thisDura _ hFaster
    apply hThat
    cases thatDura with
    | some dura => rfl
    | none => cases thisDura <;> exact absurd hFaster (by simp [decideThatFaster])
  · exact Ensures.seq _ (Ensures.anything _) fun _ _ hFalse => absurd hFalse (by simp)

theorem compare_returns (ctx : DnsContext) (req : DnsRequest) (this that : DnsResponse)
    (outcome : Outcome) : Returns Choice.Founded (compare ctx req this that outcome) := by
  refine Ensures.seq _ (whichFaster_returns this that _ _) ?_
  intro thatFaster hFaster
  dsimp only
  split
  · rename_i hSuppress
    exact .inr (hFaster (Bool.and_eq_true_iff.mp hSuppress).1)
  · trivial

/-- A family given up by comparison leaves an address of the other. -/
theorem choose_returns (next : Handler) (ctx : DnsContext) (req : DnsRequest) :
    Returns Choice.Founded (choose next ctx req) := by
  unfold choose
  split
  · exact Ensures.seq _ (Ensures.anything _) fun _ _ => trivial
  · refine Ensures.seq _ (Ensures.anything _) ?_
    intro ended _
    rcases ended with ⟨⟨_ | this, ctx'⟩, that⟩ | ⟨⟨_ | that, ctx'⟩, this⟩
    · trivial
    · refine Ensures.seq _ (Ensures.anything (withTimeout that)) ?_
      intro late _
      rcases late with _ | ⟨_ | thatLookup, ctx''⟩
      · trivial
      · trivial
      · exact compare_returns ctx req this thatLookup _
    · exact Ensures.seq _ (Ensures.anything this) fun _ _ => trivial
    · refine Ensures.seq _ (Ensures.anything (withTimeout this)) ?_
      intro late _
      rcases late with _ | ⟨_ | thisLookup, ctx''⟩
      · exact .inl rfl
      · trivial
      · exact compare_returns ctx req thisLookup that _

/-- A program that is not waited for has lost against the timer, which is in the trace. -/
theorem timeout_of_race {α : Type} (p : Async α) {u : List (Sigma Op.Resp)} {b : Unit}
    {rest : Async α} (h : Prog.Yields (race p (Prog.perform Op.timeout)) u (.right b rest)) :
    ⟨.timeout, ()⟩ ∈ u := by
  induction p generalizing u with
  | done a => cases h
  | call o k ih =>
    rcases h with _ | hTurn
    dsimp only at hTurn
    split at hTurn
    · rcases hTurn with _ | hRest
      exact .tail _ (.tail _ (ih _ hRest))
    · rcases hTurn with _ | hRest
      exact .tail _ (.head _)

/-- A program that is late has seen its timer fire. -/
theorem timeout_of_withTimeout {α : Type} {p : Async α} {u : List (Sigma Op.Resp)}
    (h : Prog.Yields (withTimeout p) u none) : ⟨.timeout, ()⟩ ∈ u := by
  obtain ⟨u₁, u₂, winner, hSplit, hRace, hWinner⟩ := h.bind_inv
  rw [hSplit]
  cases winner with
  | left a that => cases hWinner
  | right b this => exact List.mem_append_left _ (timeout_of_race p hRace)

/-- A comparison never finds the family asked for late. -/
theorem compare_not_late {ctx ctx' : DnsContext} {req : DnsRequest} {this that that' : DnsResponse}
    {outcome : Outcome} {u : List (Sigma Op.Resp)}
    (h : Prog.Yields (compare ctx req this that outcome) u (.suppress ctx' that' true)) :
    False := by
  obtain ⟨u₁, u₂, thatFaster, -, -, hEnd⟩ := h.bind_inv
  dsimp only at hEnd
  split at hEnd
  · cases hEnd
  · cases hEnd

/-- Whoever is late was timed out. -/
theorem choose_late {next : Handler} {ctx ctx' : DnsContext} {req : DnsRequest}
    {that : DnsResponse} {t : List (Sigma Op.Resp)}
    (h : Prog.Yields (choose next ctx req) t (.suppress ctx' that true)) :
    ⟨.timeout, ()⟩ ∈ t := by
  unfold choose at h
  split at h
  · obtain ⟨_, _, outcome, -, -, hEnd⟩ := h.bind_inv
    cases hEnd
  · obtain ⟨u, u', ended, rfl, -, hEnd⟩ := h.bind_inv
    refine List.mem_append_right _ ?_
    rcases ended with ⟨⟨_ | this, _⟩, that⟩ | ⟨⟨_ | that, _⟩, this⟩
    · cases hEnd
    · obtain ⟨v, v', late, rfl, -, hChoice⟩ := hEnd.bind_inv
      rcases late with _ | ⟨_ | thatLookup, _⟩
      · cases hChoice
      · cases hChoice
      · exact (compare_not_late hChoice).elim
    · obtain ⟨_, _, outcome, -, -, hChoice⟩ := hEnd.bind_inv
      cases hChoice
    · obtain ⟨v, v', late, rfl, hLate, hChoice⟩ := hEnd.bind_inv
      rcases late with _ | ⟨_ | thisLookup, _⟩
      · exact List.mem_append_left _ (timeout_of_withTimeout hLate)
      · cases hChoice
      · exact (compare_not_late hChoice).elim

/-- **The alternative to a suppressed family**: every run of the middleware carries out a decision,
and if that gives the family asked for up, the other family's response has an address if and
only if it has one in case that the family asked for was late, that is in case that the timer of
the run has ended. -/
theorem suppression_has_alternative (next : Handler) (ctx : DnsContext) (req : DnsRequest)
    (t : List (Sigma Op.Resp)) (outcome : Outcome) (hPossible : ∀ x ∈ t, Possible x)
    (hRun : Prog.Yields (dualStackLayer next ctx req) t outcome) :
    ∃ t₁ t₂ choice, t = t₁ ++ t₂ ∧ Prog.Yields (choose next ctx req) t₁ choice ∧
      Prog.Yields (choice.outcome req) t₂ outcome ∧
      ∀ ctx' that late, choice = .suppress ctx' that late →
        (that.ipAddrs ≠ [] ↔ (late = true → that.ipAddrs ≠ [])) ∧
        (that.ipAddrs ≠ [] ↔ (⟨.timeout, ()⟩ ∈ t → that.ipAddrs ≠ [])) := by
  rw [dualStackLayer_eq] at hRun
  obtain ⟨t₁, t₂, choice, hSplit, hChoice, hOutcome⟩ := hRun.bind_inv
  refine ⟨t₁, t₂, choice, hSplit, hChoice, hOutcome, ?_⟩
  have hFounded : choice.Founded := by
    refine (choose_returns next ctx req).yields hChoice ?_
    intro x hx
    exact hPossible x (by rw [hSplit]; exact List.mem_append_left _ hx)
  rintro ctx' that late rfl
  refine ⟨⟨fun hAddress _ => hAddress, ?_⟩, ⟨fun hAddress _ => hAddress, ?_⟩⟩
  · intro hLate
    exact hFounded.elim hLate id
  · intro hTimer
    rcases hFounded with rfl | hAddress
    · exact hTimer (by rw [hSplit]; exact List.mem_append_left _ (choose_late hChoice))
    · exact hAddress

/-- Lookups below: the IPv4 family is answered at once, the other waits for its server. -/
def slowFamily (answer : DnsResponse) : Handler := fun ctx req =>
  if req.query.queryType = .A then .done (.ok answer, ctx)
  else do
    let records ← Prog.perform (Op.localLookup req.query)
    return (.ok (DnsResponse.newWithMaxTtl req.query (records.getD [])), ctx)

def ipv6Request : DnsRequest := askFor exampleName .AAAA exampleSource

def ipv6Context : DnsContext := DnsContext.new exampleName pingConfig ServerOpts.default

/-- The timer ends before the server of the IPv6 family answers. -/
def lateTrace : List (Sigma Op.Resp) :=
  [⟨.select, false⟩, ⟨.timeout, ()⟩, ⟨.logDualStack ipv6Request.lowerName .A, ()⟩]

def suppressed : Outcome := (.error (DnsError.noRecordsFound ipv6Request.query 0), ipv6Context)

theorem lateTrace_possible : ∀ x ∈ lateTrace, Possible x := by
  intro x hx
  simp only [lateTrace, List.mem_cons, List.not_mem_nil, or_false] at hx
  rcases hx with rfl | rfl | rfl
  · exact ⟨.flag false, rfl⟩
  · exact ⟨.unit, rfl⟩
  · exact ⟨.unit, rfl⟩

theorem suppression_has_alternative_address :
    ∃ t₁ t₂ choice, lateTrace = t₁ ++ t₂ ∧
      Prog.Yields (choose (slowFamily addressAnswer) ipv6Context ipv6Request) t₁ choice ∧
      Prog.Yields (choice.outcome ipv6Request) t₂ suppressed ∧
      ∀ ctx' that late, choice = .suppress ctx' that late →
        (that.ipAddrs ≠ [] ↔ (late = true → that.ipAddrs ≠ [])) ∧
        (that.ipAddrs ≠ [] ↔ (⟨.timeout, ()⟩ ∈ lateTrace → that.ipAddrs ≠ [])) :=
  suppression_has_alternative (slowFamily addressAnswer) ipv6Context ipv6Request lateTrace
    suppressed lateTrace_possible (.call (.call (.call (.done _))))

/-- The IPv6 family is given up for a response without an address. -/
theorem suppression_for_nothing :
    Prog.Yields (dualStackLayer (slowFamily emptyAnswer) ipv6Context ipv6Request) lateTrace
        suppressed ∧
      (∀ x ∈ lateTrace, Possible x) ∧
      Prog.Yields (choose (slowFamily emptyAnswer) ipv6Context ipv6Request)
        [⟨.select, false⟩, ⟨.timeout, ()⟩] (.suppress ipv6Context emptyAnswer true) ∧
      emptyAnswer.ipAddrs = [] :=
  ⟨.call (.call (.call (.done _))), lateTrace_possible, .call (.call (.done _)), rfl⟩

end SmartDns.Ports.DualStackChoice
