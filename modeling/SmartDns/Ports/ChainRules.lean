import SmartDns.Ports.BelowCache

/-!
# Proof rules for the chain from the cache down

How the promises made of upstream answers travel up through the bogus-address
check, dual-stack selection and the cache. Below dual-stack selection the
promise has to survive a race of two lookups on one history; selection itself
then adds at most the mark that it decided against the request. The cache
middleware meets its contract when what it stores is related to the history
that produced it, and when this relation is enough to answer from the store.
-/

namespace SmartDns.Ports.ChainRules

open Verified DnsMessage DnsLookup RequestContext RuleTree Middleware CacheContents Upstream
open InnerChain ServerRuns LookupRules LookupChoice BelowCache

section Rules

variable {Φ : Query → DnsResponse → Origin → Prop}
  {P : DnsContext → DnsRequest → DnsResponse → Bool → Ghost → Prop}
  {E : Ghost → (o : Op) → Op.Resp o → Prop} {T : ServerGroup → Prop}
  {Good : Bool → DnsResponse → Ghost → Prop} {client : DnsClient} {ctx : DnsContext}
  {req : DnsRequest}

/-! ## The end of the chain -/

/-- The operations of the lookup for a request, in groups in `T`. -/
def Lookups (T : ServerGroup → Prop) : Op → Prop
  | .forward _ _ => True
  | .localLookup _ => True
  | .serverLookup group _ _ _ => T group
  | .ping _ _ => True
  | .next _ => True
  | _ => False

/-- What was answered on the way to a stage of the history. -/
def Replied (E : Ghost → (o : Op) → Op.Resp o → Prop) (T : ServerGroup → Prop) (g' : Ghost)
    (o : Op) (r : Op.Resp o) : Prop :=
  ∃ g, E g o r ∧ (hearing T).le (g.track o r) g'

/-- Lookups make the history grow. -/
theorem lookups_grow (o : Op) (g : Ghost) (h : Lookups T o) :
    (provenance Φ P E).pre o g ∧ ∀ r g₁, (provenance Φ P E).post o g r g₁ →
      (hearing T).le g g₁ ∧ ∀ g', (hearing T).le g₁ g' → Replied E T g' o r := by
  cases o with
  | serverLookup group ns name options =>
    refine ⟨trivial, ?_⟩
    rintro res g₁ ⟨hTrack, hE⟩
    rw [hTrack]
    exact ⟨hearing_track g h ns name options res, fun g' hLater => ⟨g, hE, hLater⟩⟩
  | forward | localLookup | ping | next =>
    refine ⟨trivial, ?_⟩
    rintro r g₁ ⟨hTrack, hE⟩
    rw [hTrack]
    exact ⟨(hearing T).refl g, fun g' hLater => ⟨g, hE, hLater⟩⟩
  | _ => exact h.elim

/-- Answers below the cache are among those that the environment can give. -/
def Realistic (E : Ghost → (o : Op) → Op.Resp o → Prop) : Prop :=
  ∀ g o r, Below o → E g o r → Possible ⟨o, r⟩

/-- What holds of the answers heard holds of the one that is chosen. -/
theorem chosen_meets {Good : DnsResponse → Ghost → Prop} (hGood : Promise T Good)
    {options : LookupIpOptions} {isIp : Bool} {res : Lookup} {hs : List Lookup} {g : Ghost}
    (h : Chosen options isIp res hs) (hAll : ∀ x ∈ hs, OkMeets Good x g) : OkMeets Good res g := by
  obtain ⟨source, hMem, hPassed⟩ := passedOn_of_chosen h
  have hSource := hAll source hMem
  cases hPassed with
  | whole => exact hSource
  | cut hOk hCut => exact okMeets_ok (hGood.pick _ _ _ g hCut (hSource _ hOk))

theorem okMeets_label (hGood : Graded T Good) {res : Lookup} {g : Ghost} (group : String)
    (h : OkMeets (Good false) res g) :
    OkMeets (Good false) (res.map fun r => r.withNameServerGroup group) g := by
  cases res with
  | error e => exact okMeets_error
  | ok r => exact okMeets_ok (hGood.stored.label r g group (h r rfl))

/-- The promise for the answers of a server, at a later stage. -/
theorem heard_meets (hGood : Graded T Good) (hSourced : Sourced E ctx req Good) {g₀ g : Ghost}
    (hForward : E g₀ (.forward ctx req) ()) {group : ServerGroup} {ns : NameServer} {res : Lookup}
    (hReplied :
      Replied E T g (.serverLookup group ns req.lowerName (lookupOptionsOf ctx req)) res) :
    OkMeets (Good false) (given (lookupIpOptions ctx req (lookupOptionsOf ctx req))
      (isFiltered ctx req) ns res) g := by
  obtain ⟨g₁, hE, hLater⟩ := hReplied
  intro r hr
  refine hGood.stored.mono r _ g hLater ?_
  cases hFiltered : isFiltered ctx req with
  | true =>
    rw [hFiltered] at hr
    exact hSourced.filtered g₀ g₁ group ns res hForward hFiltered hE r hr
  | false =>
    rw [hFiltered] at hr
    subst hr
    exact hSourced.plain g₀ g₁ group ns r hForward hFiltered hE

/-- The promise for what `NameServerMiddleware` returns. -/
theorem nameServerLayer_keeps (hGood : Graded T Good) (hSourced : Sourced E ctx req Good)
    (hReal : Realistic E) (hTarget : ∀ s, targetGroup client ctx req = some s → T s)
    (next : Handler) (g : Ghost) :
    Keeps (provenance Φ P E) (hearing T) (nameServerLayer client next ctx req) g
      (OutcomeMeets ctx Good) := by
  refine Ensures.keeps lookups_grow _ ?_
  intro g' _
  refine nameServerLayer_asks (Q := fun res => OkMeets (Good false) res g') trivial ?_ ?_
    okMeets_error (fun res hRes => ⟨rfl, hGood.of_stored ctx.noCache hRes⟩)
    (fun res group hRes => okMeets_label hGood group hRes)
  · rintro ⟨g₀, hForward, -⟩
    refine Ensures.mono ?_ _ (lookupNameserver_ensures (F := fun r => Good true r g') trivial ?_)
    · exact fun found hFound r hr => ⟨rfl, okMeets_ok (hFound r hr)⟩
    · rintro records ⟨g₁, hE, hLater⟩
      exact hGood.mono _ g₁ g' hLater (hSourced.bootstrap g₀ g₁ records hForward hE)
  · rintro ⟨g₀, hForward, -⟩ server hServer
    by_cases hServers : server.servers = []
    · rw [askGroup_empty _ _ _ hServers]
      exact okMeets_error
    · have hPossible : ∀ o r, Below o → Replied E T g' o r → Possible ⟨o, r⟩ := by
        rintro o r hBelow ⟨g₁, hE, -⟩
        exact hReal g₁ o r hBelow hE
      refine Ensures.mono ?_ _ (Ensures.weaken ?_ _
        (askGroup_ensures (H := fun x => OkMeets (Good false) x g') hPossible
          (fun _ _ _ => heard_meets hGood hSourced hForward) hServers))
      · rintro res ⟨hs, hChosen, hAll⟩
        exact chosen_meets hGood.stored hChosen hAll
      · intro o hGroup
        cases o with
        | serverLookup group ns name options =>
          rw [show group = server.group from hGroup]
          exact hTarget _ hServer
        | ping | next => trivial
        | _ => exact hGroup.elim

/-! ## Bogus addresses -/

/-- No address of an answer to an address query is bogus for the client. -/
def NoBogus (cfg : RuntimeConfig) (req : DnsRequest) (r : DnsResponse) : Prop :=
  req.query.queryType.isIpAddr = true → ∀ ip ∈ r.ipAddrs, isBogus cfg req.src ip = false

/-- What is promised once the check has been made. -/
def Checked (cfg : RuntimeConfig) (req : DnsRequest) (Good : Bool → DnsResponse → Ghost → Prop)
    (b : Bool) (r : DnsResponse) (g : Ghost) : Prop :=
  Good b r g ∧ (cfg.bogusNxdomain.isEmpty = false → NoBogus cfg req r)

variable {r : DnsResponse}

/-- A reply the bogus test passes has no bogus address. -/
theorem noBogus_of_any_eq_false {cfg : RuntimeConfig}
    (h : (req.query.queryType.isIpAddr &&
      r.records.any fun x => x.rdata.ipAddr.any (isBogus cfg req.src)) = false) :
    NoBogus cfg req r := by
  intro hIp ip hMem
  rw [hIp] at h
  obtain ⟨x, hx, hAddr⟩ := List.mem_filterMap.mp hMem
  have hNone := List.any_eq_false.mp h x hx
  rw [hAddr] at hNone
  simpa using hNone

variable {next : Handler} {g : Ghost}

/-- The bogus layer keeps what holds of the replies below it. -/
theorem bogusLayer_keeps
    (hNext : Keeps (provenance Φ P E) (hearing T) (next ctx req) g (OutcomeMeets ctx Good)) :
    Keeps (provenance Φ P E) (hearing T) (bogusLayer next ctx req) g
      (OutcomeMeets ctx fun b r g' => Good b r g' ∧ NoBogus ctx.cfg req r) := by
  refine Keeps.seq _ (Keeps.always _ hNext) ?_
  rintro ⟨res, ctx'⟩ g₁ _ hMeets
  have hCfg : ctx'.cfg = ctx.cfg := (hMeets g₁ ((hearing T).refl g₁)).cfg
  cases res with
  | error e =>
    intro g₂ hLater
    exact ⟨(hMeets g₂ hLater).1, okMeets_error⟩
  | ok lookup =>
    dsimp only
    split
    · intro g₂ hLater
      exact ⟨(hMeets g₂ hLater).1, okMeets_error⟩
    · rename_i hNotBogus
      intro g₂ hLater
      refine ⟨(hMeets g₂ hLater).1, okMeets_ok ⟨(hMeets g₂ hLater).2 lookup rfl, ?_⟩⟩
      rw [← hCfg]
      exact noBogus_of_any_eq_false (by simpa using hNotBogus)

/-- The promise below dual-stack selection. -/
theorem lowerChain_keeps (hGood : Graded T Good) (hSourced : Sourced E ctx req Good)
    (hReal : Realistic E) (hTarget : ∀ s, targetGroup client ctx req = some s → T s) (g : Ghost) :
    Keeps (provenance Φ P E) (hearing T) (lowerChain ctx.cfg client ctx req) g
      (OutcomeMeets ctx (Checked ctx.cfg req Good)) := by
  have hBottom := nameServerLayer_keeps (Φ := Φ) (P := P) hGood hSourced hReal hTarget
    defaultHandler g
  unfold lowerChain
  by_cases hEmpty : ctx.cfg.bogusNxdomain.isEmpty = true
  · rw [if_pos hEmpty]
    refine Keeps.mono _ ?_ hBottom
    intro outcome g' _ hMeets
    refine ⟨hMeets.1, ?_⟩
    intro r hr
    exact ⟨hMeets.2 r hr, fun hSome => absurd hEmpty (by simp [hSome])⟩
  · rw [if_neg hEmpty]
    refine Keeps.mono _ ?_ (bogusLayer_keeps hBottom)
    intro outcome g' _ hMeets
    refine ⟨hMeets.1, ?_⟩
    intro r hr
    exact ⟨(hMeets.2 r hr).1, fun _ => (hMeets.2 r hr).2⟩

/-! ## Races -/

variable {α : Type}

/-- What two programs keep apart, their race keeps. -/
theorem race_keeps {β : Type} {this : Async α} {that : Async β} {Qa : α → Ghost → Prop}
    {Qb : β → Ghost → Prop} (hThis : Keeps (provenance Φ P E) (hearing T) this g Qa)
    (hThat : Keeps (provenance Φ P E) (hearing T) that g Qb) :
    Keeps (provenance Φ P E) (hearing T) (race this that) g
      (Keeps.EitherMeets (provenance Φ P E) (hearing T) Qa Qb) := by
  refine Keeps.select ?_ this hThis that hThat
  intro g₁
  refine ⟨trivial, ?_⟩
  rintro c g₂ ⟨hSame, -⟩
  rw [hSame]
  exact (hearing T).refl g₁

theorem withTimeout_keeps {p : Async α} {Q : α → Ghost → Prop}
    (hp : Keeps (provenance Φ P E) (hearing T) p g Q) :
    Keeps (provenance Φ P E) (hearing T) (withTimeout p) g
      (fun out g' => ∀ a, out = some a → ∀ g'', (hearing T).le g' g'' → Q a g'') := by
  have hTimer : Keeps (provenance Φ P E) (hearing T) (Prog.perform Op.timeout) g
      (fun _ _ => True) := keeps_silent rfl fun _ _ _ _ _ _ => trivial
  refine Keeps.seq _ (race_keeps hp hTimer) ?_
  intro winner g₁ _ hWinner
  cases winner with
  | left a _ =>
    intro g₂ hLater a' hEq g₃ hLater'
    cases hEq
    exact hWinner.1 g₃ ((hearing T).trans hLater hLater')
  | right _ _ =>
    intro g₂ _ a hEq
    cases hEq

theorem pingFastest_keeps (addrs : List IpAddr) (modes : List SpeedCheckMode) :
    ∀ g, Keeps (provenance Φ P E) (hearing T) (pingFastest addrs modes) g (fun _ _ => True) := by
  induction modes with
  | nil =>
    intro g
    exact fun _ _ => trivial
  | cons mode modes ih =>
    intro g
    refine keeps_silent rfl ?_
    intro out g₁ _ _
    cases out with
    | some out => exact fun _ _ => trivial
    | none =>
      refine keeps_silent rfl ?_
      intro expired g₂ _ _
      split
      · exact fun _ _ => trivial
      · exact ih g₂

/-- The comparison by ping needs nothing and keeps the history. -/
theorem whichFaster_keeps (this that : DnsResponse) (modes : List SpeedCheckMode)
    (threshold : Nat) (g : Ghost) :
    Keeps (provenance Φ P E) (hearing T) (whichFaster this that modes threshold) g
      (fun _ _ => True) := by
  refine keeps_silent rfl ?_
  intro thatFirst g₁ _ _
  split
  · refine Keeps.seq _ (pingFastest_keeps _ modes g₁) ?_
    intro thatDura g₂ _ _
    refine Keeps.seq _ (pingFastest_keeps _ modes g₂) ?_
    exact fun _ _ _ _ _ _ => trivial
  · refine Keeps.seq _ (pingFastest_keeps _ modes g₁) ?_
    exact fun _ _ _ _ _ _ => trivial

/-! ## Dual-stack selection -/

/-- Selection passes a result on, or decides against the family asked for: then the result
is an error and the history says so. -/
def Settled (T : ServerGroup → Prop) (Good : Bool → DnsResponse → Ghost → Prop) (ctx : DnsContext)
    (req : DnsRequest) (g : Ghost) (outcome : Outcome) (g' : Ghost) : Prop :=
  outcome.2 = { ctx with noCache := outcome.2.noCache } ∧
    (((hearing T).le g g' ∧ OkMeets (Good outcome.2.noCache) outcome.1 g') ∨
      (dualstackApplies ctx req = true ∧ (∃ e, outcome.1 = .error e) ∧
        ∃ g₁, (hearing T).le g g₁ ∧ g' = g₁.update fun o => { o with suppressed := true }))

variable {g' : Ghost} {outcome : Outcome}

theorem Settled.of_outcomeMeets (h : OutcomeMeets ctx Good outcome g')
    (hLater : (hearing T).le g g') :
    Settled T Good ctx req g outcome g' :=
  ⟨h.1, Or.inl ⟨hLater, h.2⟩⟩

theorem thisNoRecords_sat (hApplies : dualstackApplies ctx req = true) {ctx' : DnsContext}
    (hCtx : ctx' = { ctx with noCache := ctx'.noCache }) {g₁ : Ghost}
    (hLater : (hearing T).le g g₁) :
    Sat (provenance Φ P E) (thisNoRecords ctx' req) g₁ (Settled T Good ctx req g) := by
  refine ⟨trivial, ?_⟩
  rintro _ g₂ ⟨hTrack, -⟩
  exact ⟨hCtx, Or.inr ⟨hApplies, ⟨_, rfl⟩, g₁, hLater, hTrack⟩⟩

/-- The comparison of the families settles the outcome. -/
theorem compareFamilies_sat (hApplies : dualstackApplies ctx req = true) {this that : DnsResponse}
    {g₁ : Ghost} (hLater : (hearing T).le g g₁)
    (hOutcome : ∀ g₂, (hearing T).le g₁ g₂ → OutcomeMeets ctx Good outcome g₂) :
    Sat (provenance Φ P E) (compareFamilies ctx req this that outcome) g₁
      (Settled T Good ctx req g) := by
  refine Sat.seq (Keeps.sat _ (whichFaster_keeps (T := T) _ _ _ _ g₁)) ?_
  rintro thatFaster g₂ ⟨hLater₂, -⟩
  have hLater' := (hearing T).trans hLater hLater₂
  dsimp only
  split
  · exact thisNoRecords_sat hApplies (hOutcome g₂ hLater₂).1 hLater'
  · exact Settled.of_outcomeMeets (hOutcome g₂ hLater₂) hLater'

/-- The race of the two families, resolved. -/
theorem dualStackLayer_sat
    (hThis : Keeps (provenance Φ P E) (hearing T) (next ctx req) g (OutcomeMeets ctx Good))
    (hThat : Keeps (provenance Φ P E) (hearing T)
      (next ctx (req.setQueryType (thatType req.query.queryType))) g (fun _ _ => True)) :
    Sat (provenance Φ P E) (dualStackLayer next ctx req) g (Settled T Good ctx req g) := by
  unfold dualStackLayer
  by_cases hApplies : dualstackApplies ctx req = true
  · rw [if_neg (by simp [hApplies])]
    refine Sat.seq (Keeps.sat _ (race_keeps hThis hThat)) ?_
    rintro winner g₁ ⟨hLater, hWinner⟩
    cases winner with
    | left outcome that =>
      obtain ⟨hOutcome, hLoser⟩ := hWinner
      have hPass : ∀ g₂, (hearing T).le g₁ g₂ → Settled T Good ctx req g outcome g₂ :=
        fun g₂ hLater₂ =>
          Settled.of_outcomeMeets (hOutcome g₂ hLater₂) ((hearing T).trans hLater hLater₂)
      obtain ⟨res, ctx'⟩ := outcome
      cases res with
      | error e => exact hPass g₁ ((hearing T).refl g₁)
      | ok this =>
        refine Sat.seq (Keeps.sat _ (withTimeout_keeps hLoser)) ?_
        rintro out g₂ ⟨hLater₂, -⟩
        match out with
        | some (.ok thatLookup, _) =>
          exact compareFamilies_sat hApplies ((hearing T).trans hLater hLater₂)
            fun g₃ hLater₃ => hOutcome g₃ ((hearing T).trans hLater₂ hLater₃)
        | some (.error _, _) => exact hPass g₂ hLater₂
        | none => exact hPass g₂ hLater₂
    | right thatOutcome this =>
      obtain ⟨-, hLoser⟩ := hWinner
      obtain ⟨res, ctx'⟩ := thatOutcome
      cases res with
      | error e =>
        refine Sat.mono ?_ _ (Keeps.sat _ hLoser)
        rintro outcome g₂ ⟨hLater₂, hMeets⟩
        exact Settled.of_outcomeMeets hMeets ((hearing T).trans hLater hLater₂)
      | ok thatLookup =>
        refine Sat.seq (Keeps.sat _ (withTimeout_keeps hLoser)) ?_
        rintro out g₂ ⟨hLater₂, hOut⟩
        have hLater' := (hearing T).trans hLater hLater₂
        match out with
        | some (.ok thisLookup, ctx') =>
          exact compareFamilies_sat hApplies hLater' (hOut _ rfl)
        | some (.error err, ctx') =>
          exact Settled.of_outcomeMeets (hOut _ rfl g₂ ((hearing T).refl g₂)) hLater'
        | none => exact thisNoRecords_sat hApplies rfl hLater'
  · rw [if_pos (by simpa using hApplies)]
    refine Sat.mono ?_ _ (Keeps.sat _ hThis)
    rintro outcome g₁ ⟨hLater, hMeets⟩
    exact Settled.of_outcomeMeets hMeets hLater

/-! ## The cache -/

/-- Clamping changes nothing but the TTL. -/
theorem clampTtlBounds_eq (bounds : Option Nat × Option Nat) (r : Record) :
    clampTtlBounds bounds r = { r with ttl := (clampTtlBounds bounds r).ttl } := by
  unfold clampTtlBounds
  cases bounds.1 <;> cases bounds.2 <;> simp

@[simp] theorem clampTtlBounds_rdata (bounds : Option Nat × Option Nat) (r : Record) :
    (clampTtlBounds bounds r).rdata = r.rdata := by
  rw [clampTtlBounds_eq]

theorem ownerQuery_clamp (bounds : Option Nat × Option Nat) (r : Record) :
    ownerQuery (clampTtlBounds bounds r) = ownerQuery r := by
  rw [clampTtlBounds_eq]
  rfl

/-- What is written for clamped records: an entry for the question or for the owner of one of
the records, with addresses of theirs. -/
theorem written_clamp {query : Query} {records : List Record} {group : String}
    {bounds : Option Nat × Option Nat} {p : Query × DnsResponse}
    (hp : p ∈ written query (records.map (clampTtlBounds bounds)) group) :
    (p.1 = query ∨ ∃ x ∈ records, p.1 = ownerQuery x) ∧ p.2.message.queries = [p.1] ∧
      p.2.nameServerGroup = some group ∧
      ∀ ip ∈ p.2.ipAddrs, ip ∈ records.filterMap fun x => x.rdata.ipAddr := by
  obtain ⟨hQuestion, hQueries, hGroup, -, hSubset⟩ := written_spec hp
  refine ⟨hQuestion.imp_right ?_, hQueries, hGroup, ?_⟩
  · rintro ⟨x, hx, hOwner⟩
    obtain ⟨y, hy, rfl⟩ := List.mem_map.mp hx
    exact ⟨y, hy, hOwner.trans (ownerQuery_clamp bounds y)⟩
  · intro ip hIp
    obtain ⟨x, hx, hAddr⟩ := List.mem_filterMap.mp hIp
    obtain ⟨y, hy, rfl⟩ := List.mem_map.mp (hSubset x hx)
    rw [clampTtlBounds_rdata] at hAddr
    exact List.mem_filterMap.mpr ⟨y, hy, hAddr⟩

/-- A failure becomes an answer to the question without records. -/
theorem negativeResponseFromError_spec {e : DnsError} {query : Query}
    (h : negativeResponseFromError e query = some r) :
    r.message.queries = [query] ∧ r.message.answers = [] := by
  unfold negativeResponseFromError at h
  split at h
  · cases h
    exact ⟨rfl, rfl⟩
  · exact DnsError.asSoa_spec h

/-- What makes the cache middleware safe for one request: what it stores is related to the
history of the request, and what is related to a history may be served. -/
structure CachePolicy (Φ : Query → DnsResponse → Origin → Prop)
    (P : DnsContext → DnsRequest → DnsResponse → Bool → Ghost → Prop)
    (E : Ghost → (o : Op) → Op.Resp o → Prop) (T : ServerGroup → Prop)
    (Good : Bool → DnsResponse → Ghost → Prop) (Final : DnsResponse → Prop) (ctx : DnsContext)
    (req : DnsRequest) : Prop where
  final : ∀ b r g, Good b r g → Final r
  serve : ∀ g₀ g d o r b, E g₀ (.consult ctx req) () → g.hit = some o → Φ req.query.key d o →
    Served d r → r.nameServerGroup = some ctx.serverGroupName →
    P { ctx with noCache := b } req r true g ∧ Final r
  answer : ∀ g o r b stores, g.current = some o → Extends T (Origin.fresh ctx req stores) o →
    Good b r g → P ctx req r false g
  store : ∀ g₀ g o r, E g₀ (.consult ctx req) () → g.current = some o →
    Extends T (Origin.fresh ctx req true) o → Good false r g →
    Φ req.query.key (negativeData r (negativeTtl r) ctx.serverGroupName) o ∧
    ∀ p ∈ written req.query (r.records.map (clampTtlBounds (rrTtlBounds ctx)))
      ctx.serverGroupName, Φ p.1.key p.2 o
  negative : ∀ g₀ g o e r b, E g₀ (.consult ctx req) () → g.current = some o →
    Extends T (Origin.fresh ctx req true) { o with suppressed := false } →
    (o.suppressed = true → dualstackApplies ctx req = true) → ctx.cfg.cacheNegative = true →
    negativeResponseFromError e req.query = some r →
    Φ req.query.key (negativeData r (negativeTtl r) ctx.serverGroupName) o ∧
    P { ctx with noCache := b } req r false g ∧ Final r

/-- What the store has for a request, it has with an origin. -/
def Found (Φ : Query → DnsResponse → Origin → Prop) (ctx : DnsContext) (req : DnsRequest)
    (r : DnsResponse) (g : Ghost) : Prop :=
  r.nameServerGroup = some ctx.serverGroupName ∧
    ∃ d o, g.hit = some o ∧ Φ req.query.key d o ∧ Served d r

/-- The result of looking a request up. -/
def CachedMeets (Φ : Query → DnsResponse → Origin → Prop) (ctx : DnsContext) (req : DnsRequest)
    (g : Ghost) (cached : Cached) (g' : Ghost) : Prop :=
  g'.current = g.current ∧ ∀ r, cached = .fresh r ∨ cached = .stale r → Found Φ ctx req r g'

/-- What the cache serves was found for this request. -/
theorem serveCached_sat (hCurrent : g'.current = g.current) (hFound : Found Φ ctx req r g') :
    Sat (provenance Φ P E) (serveCached ctx req r) g' (CachedMeets Φ ctx req g) := by
  have hMarked : Found Φ ctx req r.markFromCache g' := by
    obtain ⟨hLabel, d, o, hHit, hΦ, hServed⟩ := hFound
    exact ⟨hLabel, d, o, hHit, hΦ, hServed.markFromCache⟩
  have hDone : Sat (provenance Φ P E)
      (Prog.perform Op.queryHit >>= fun _ => pure (Cached.fresh r.markFromCache)) g'
      (CachedMeets Φ ctx req g) := by
    refine sat_silent rfl ?_
    intro _ _
    refine ⟨hCurrent, ?_⟩
    rintro r' (hEq | hEq) <;> cases hEq
    exact hMarked
  unfold serveCached
  dsimp only
  split
  · refine sat_silent rfl ?_
    intro _ _
    exact hDone
  · exact hDone

/-- A lookup in the cache gives what was found for the request, or nothing. -/
theorem lookupCache_sat (g : Ghost) :
    Sat (provenance Φ P E) (lookupCache ctx req) g (CachedMeets Φ ctx req g) := by
  have hAbsent : ∀ g', g'.current = g.current → CachedMeets Φ ctx req g .absent g' := by
    intro g' hCurrent
    refine ⟨hCurrent, ?_⟩
    rintro r (hEq | hEq) <;> cases hEq
  unfold lookupCache
  split
  · exact hAbsent g rfl
  · refine sat_silent rfl ?_
    intro now _
    refine Sat.perform trivial ?_
    rintro out g' ⟨hCurrent, hReply⟩
    cases out with
    | none => exact hAbsent g' hCurrent
    | some reply =>
      obtain ⟨res, status⟩ := reply
      obtain ⟨d, o, hHit, hΦ, hReplays⟩ := hReply res status rfl
      dsimp only
      split
      · rename_i hLabel
        have hFound : Found Φ ctx req res g' := ⟨hLabel, d, o, hHit, hΦ, hReplays.served⟩
        cases status with
        | Valid => exact serveCached_sat hCurrent hFound
        | Expired =>
          dsimp only
          split
          · exact serveCached_sat hCurrent hFound
          · refine ⟨hCurrent, ?_⟩
            rintro r (hEq | hEq) <;> cases hEq
            exact hFound
      · exact hAbsent g' hCurrent

/-- A request that leaves its history as it is before the next operation. -/
theorem sat_unchanged {o : Op} {k : Op.Resp o → Async α} {Q : α → Ghost → Prop}
    (hPre : provenancePre Φ P o g) (hTrack : ∀ r g', provenancePost Φ E o g r g' → g' = g)
    (hk : ∀ r, Sat (provenance Φ P E) (k r) g Q) :
    Sat (provenance Φ P E) (Prog.perform o >>= k) g Q := by
  refine Sat.perform hPre ?_
  intro r g' hPost
  rw [hTrack r g' hPost]
  exact hk r

variable {o : Origin} {b : Bool}

/-- Storing an answer asks that all it writes meets `Φ` for the request under way. -/
theorem storeLookup_sat (hCurrent : g.current = some o)
    (hStore : b = false →
      Φ req.query.key (negativeData r (negativeTtl r) ctx.serverGroupName) o ∧
      ∀ p ∈ written req.query (r.records.map (clampTtlBounds (rrTtlBounds ctx)))
        ctx.serverGroupName, Φ p.1.key p.2 o) :
    Sat (provenance Φ P E) (storeLookup { ctx with noCache := b } req r) g
      (fun _ g' => g' = g) := by
  unfold storeLookup
  split
  · rename_i hNegative
    have hKept : b = false := by
      rw [Bool.and_eq_true, Bool.and_eq_true] at hNegative
      simpa using hNegative.1.1
    refine sat_silent rfl ?_
    intro now _
    exact sat_unchanged ⟨o, hCurrent, (hStore hKept).1⟩ (fun _ _ hPost => hPost.1) fun _ => rfl
  · split
    · exact rfl
    · split
      · rename_i hKept
        refine sat_silent rfl ?_
        intro now _
        exact sat_unchanged ⟨o, hCurrent, (hStore (by simpa using hKept)).2⟩
          (fun _ _ hPost => hPost.1) fun _ => rfl
      · exact rfl

variable {Final : DnsResponse → Prop}

/-- What is known of a handler's outcome above the cache. -/
def Answered (cfg : RuntimeConfig) (Final : DnsResponse → Prop) (outcome : Outcome)
    (_ : Ghost) : Prop :=
  outcome.2.cfg = cfg ∧ ∀ r, outcome.1 = .ok r → Final r

theorem Settled.answered (h : Settled T Good ctx req g outcome g')
    (hFinal : ∀ b r g, Good b r g → Final r) :
    Answered ctx.cfg Final outcome g' := by
  refine ⟨by rw [h.1], ?_⟩
  intro r hr
  rcases h.2 with ⟨-, hOk⟩ | ⟨-, ⟨e, hError⟩, -⟩
  · exact hFinal _ r g' (hOk r hr)
  · exact absurd (hr.symm.trans hError) (by simp)

variable {g₀ : Ghost}

/-- After the layers below have failed. -/
theorem storeError_sat (hPolicy : CachePolicy Φ P E T Good Final ctx req) {e : DnsError}
    {cached : Cached} (hConsult : E g₀ (.consult ctx req) ()) (hCurrent : g.current = some o)
    (hExt : Extends T (Origin.fresh ctx req true) { o with suppressed := false })
    (hSuppressed : o.suppressed = true → dualstackApplies ctx req = true)
    (hCached : ∀ r, cached = .stale r → Found Φ ctx req r g) :
    Sat (provenance Φ P E) (storeError { ctx with noCache := b } req e cached) g
      (fun res _ => ∀ r, res = .ok r → Final r) := by
  unfold storeError
  dsimp only
  split
  · rename_i neg hNeg
    split at hNeg
    · rename_i hCaching
      have hNegative : ctx.cfg.cacheNegative = true := by
        rw [Bool.and_eq_true] at hCaching
        exact hCaching.2
      obtain ⟨hΦ, hP, hFinal⟩ :=
        hPolicy.negative g₀ g o e neg b hConsult hCurrent hExt hSuppressed hNegative hNeg
      refine sat_silent rfl ?_
      intro now _
      refine sat_unchanged ⟨o, hCurrent, hΦ⟩ (fun _ _ hPost => hPost.1) fun _ => ?_
      refine sat_unchanged hP (fun _ _ hPost => hPost.1) fun _ => ?_
      intro r hr
      cases hr
      exact hFinal
    · cases hNeg
  · split
    · rename_i res
      obtain ⟨hLabel, d, o', hHit, hΦ, hServed⟩ := hCached res rfl
      obtain ⟨hP, hFinal⟩ := hPolicy.serve g₀ g d o' res b hConsult hHit hΦ hServed hLabel
      refine sat_unchanged hP (fun _ _ hPost => hPost.1) fun _ => ?_
      intro r hr
      cases hr
      exact hFinal
    · intro r hr
      cases hr

/-- After the layers below have returned a response. -/
theorem storeOk_sat (hPolicy : CachePolicy Φ P E T Good Final ctx req) {lookup : DnsResponse}
    (hConsult : E g₀ (.consult ctx req) ()) (hCurrent : g.current = some o)
    (hExt : Extends T (Origin.fresh ctx req true) o) (hGood : Good b lookup g) :
    Sat (provenance Φ P E)
      (do
        storeLookup { ctx with noCache := b } req lookup
        Prog.perform (Op.answer ctx req lookup false)
        return (.ok lookup, { ctx with noCache := b })) g (Answered ctx.cfg Final) := by
  have hP := hPolicy.answer g o lookup b true hCurrent hExt hGood
  have hStore : b = false → _ := fun hKept =>
    hPolicy.store g₀ g o lookup hConsult hCurrent hExt (hKept ▸ hGood)
  refine Sat.seq (storeLookup_sat hCurrent hStore) ?_
  rintro _ g₁ rfl
  refine sat_unchanged hP (fun _ _ hPost => hPost.1) fun _ => ?_
  refine ⟨rfl, ?_⟩
  intro r hr
  cases hr
  exact hPolicy.final b lookup g₁ hGood

/-- The history once the layers below are done: grown, and perhaps marked by selection. -/
theorem Settled.history {stores : Bool} (h : Settled T Good ctx req g outcome g')
    (hFresh : g.current = some (Origin.fresh ctx req stores)) :
    ∃ o, g'.current = some o ∧ g'.hit = g.hit ∧
      Extends T (Origin.fresh ctx req stores) { o with suppressed := false } ∧
      (o.suppressed = true → dualstackApplies ctx req = true) := by
  rcases h.2 with ⟨hLater, -⟩ | ⟨hApplies, -, g₁, hLater, hMarked⟩
  · obtain ⟨o, hCurrent, hExt⟩ := hearing_current hLater hFresh
    have hSame : o.suppressed = false := hExt.suppressed
    refine ⟨o, hCurrent, hLater.1, ?_, fun hTrue => absurd hTrue (by simp [hSame])⟩
    rw [← hSame]
    exact hExt
  · obtain ⟨o, hCurrent, hExt⟩ := hearing_current hLater hFresh
    have hSame : o.suppressed = false := hExt.suppressed
    refine ⟨{ o with suppressed := true }, ?_, ?_, ?_, fun _ => hApplies⟩
    · rw [hMarked, Ghost.update, hCurrent]
      rfl
    · rw [hMarked]
      exact hLater.1
    · rw [← hSame]
      exact hExt

/-- After the layers below have returned, whichever way. -/
theorem settled_sat (hPolicy : CachePolicy Φ P E T Good Final ctx req) {cached : Cached}
    (hConsult : E g₀ (.consult ctx req) ()) (hFresh : g.current = some (Origin.fresh ctx req true))
    (hCached : ∀ r, cached = .stale r → Found Φ ctx req r g)
    (hSettled : Settled T Good ctx req g outcome g') :
    Sat (provenance Φ P E)
      (match outcome.1 with
        | .ok lookup => do
          storeLookup outcome.2 req lookup
          Prog.perform (Op.answer ctx req lookup false)
          return outcome
        | .error err => return (← storeError outcome.2 req err cached, outcome.2)) g'
      (Answered ctx.cfg Final) := by
  obtain ⟨o, hCurrent, hHit, hExt, hSuppressed⟩ := hSettled.history hFresh
  obtain ⟨hCtx, hCases⟩ := hSettled
  obtain ⟨res, ctx'⟩ := outcome
  dsimp only at hCtx hCases ⊢
  cases res with
  | ok lookup =>
    rcases hCases with ⟨hLater, hOk⟩ | ⟨-, ⟨e, hError⟩, -⟩
    · obtain ⟨o', hCurrent', hExt'⟩ := hearing_current hLater hFresh
      rw [hCtx]
      exact storeOk_sat hPolicy hConsult hCurrent' hExt' (hOk lookup rfl)
    · cases hError
  | error err =>
    have hStale : ∀ r, cached = .stale r → Found Φ ctx req r g' := by
      intro r hr
      obtain ⟨hLabel, d, o', hOrigin, hRest⟩ := hCached r hr
      exact ⟨hLabel, d, o', hHit.trans hOrigin, hRest⟩
    rw [hCtx]
    refine Sat.seq (storeError_sat hPolicy hConsult hCurrent hExt hSuppressed hStale) ?_
    intro res g₁ hRes
    exact ⟨rfl, hRes⟩

/-- A request that passes the store by. -/
theorem passBy_sat (hPolicy : CachePolicy Φ P E T Good Final ctx req)
    (hNext : ∀ g, Sat (provenance Φ P E) (next ctx req) g (Settled T Good ctx req g)) (g : Ghost) :
    Sat (provenance Φ P E) (passBy next ctx req) g (Answered ctx.cfg Final) := by
  refine Sat.perform trivial ?_
  rintro _ g₁ ⟨hTrack, -⟩
  have hFresh : g₁.current = some (Origin.fresh ctx req false) := by
    rw [hTrack]
    rfl
  refine Sat.seq (hNext g₁) ?_
  intro outcome g₂ hSettled
  have hAnswered : Answered ctx.cfg Final outcome g₂ := hSettled.answered hPolicy.final
  obtain ⟨res, ctx'⟩ := outcome
  cases res with
  | error err => exact hAnswered
  | ok lookup =>
    rcases hSettled.2 with ⟨hLater, hOk⟩ | ⟨-, ⟨e, hError⟩, -⟩
    · obtain ⟨o, hCurrent, hExt⟩ := hearing_current hLater hFresh
      have hP := hPolicy.answer g₂ o lookup _ false hCurrent hExt (hOk lookup rfl)
      exact sat_unchanged hP (fun _ _ hPost => hPost.1) fun _ => hAnswered
    · cases hError

/-- The cache middleware under a policy. -/
theorem cacheLayer_sat (hPolicy : CachePolicy Φ P E T Good Final ctx req)
    (hNext : ∀ g, Sat (provenance Φ P E) (next ctx req) g (Settled T Good ctx req g)) (g : Ghost) :
    Sat (provenance Φ P E) (cacheLayer next ctx req) g (Answered ctx.cfg Final) := by
  unfold cacheLayer
  split
  · exact passBy_sat hPolicy hNext g
  · refine Sat.perform trivial ?_
    rintro _ g₁ ⟨hTrack, hConsult⟩
    have hFresh : g₁.current = some (Origin.fresh ctx req true) := by
      rw [hTrack]
      rfl
    refine Sat.seq (lookupCache_sat g₁) ?_
    rintro cached g₂ ⟨hCurrent, hFound⟩
    have hFresh₂ := hCurrent.trans hFresh
    have hMiss : Sat (provenance Φ P E) (next ctx req >>= fun outcome =>
        match outcome.1 with
        | .ok lookup => do
          storeLookup outcome.2 req lookup
          Prog.perform (Op.answer ctx req lookup false)
          return outcome
        | .error err => return (← storeError outcome.2 req err cached, outcome.2)) g₂
        (Answered ctx.cfg Final) := by
      refine Sat.seq (hNext g₂) ?_
      intro outcome g₃ hSettled
      exact settled_sat hPolicy hConsult hFresh₂ (fun r hr => hFound r (Or.inr hr)) hSettled
    cases cached with
    | fresh res =>
      obtain ⟨hLabel, d, o, hHit, hΦ, hServed⟩ := hFound res (Or.inl rfl)
      obtain ⟨hP, hFinal⟩ :=
        hPolicy.serve g g₂ d o res ctx.noCache hConsult hHit hΦ hServed hLabel
      refine sat_unchanged hP (fun _ _ hPost => hPost.1) fun _ => ?_
      refine ⟨rfl, ?_⟩
      intro r hr
      cases hr
      exact hFinal
    | stale | absent => exact hMiss

/-! ## From the cache down -/

/-- The groups a request may ask. -/
def askedBy (client : DnsClient) (ctx : DnsContext) (req : DnsRequest) (s : ServerGroup) : Prop :=
  targetGroup client ctx req = some s

/-- Everything the chain from the cache down needs for one request. -/
structure StorePolicy (Φ : Query → DnsResponse → Origin → Prop)
    (P : DnsContext → DnsRequest → DnsResponse → Bool → Ghost → Prop)
    (E : Ghost → (o : Op) → Op.Resp o → Prop) (client : DnsClient)
    (Good : Bool → DnsResponse → Ghost → Prop) (Final : DnsResponse → Prop) (ctx : DnsContext)
    (req : DnsRequest) : Prop where
  promise : Graded (askedBy client ctx req) Good
  sourced : Sourced E ctx req Good
  cache : CachePolicy Φ P E (askedBy client ctx req) (Checked ctx.cfg req Good) Final ctx req

/-- What `E` says of answers, and those below the cache are possible. -/
def realistic (E : Ghost → (o : Op) → Op.Resp o → Prop) (g : Ghost) (o : Op) (r : Op.Resp o) :
    Prop :=
  E g o r ∧ (Below o → Possible ⟨o, r⟩)

theorem StorePolicy.realistic (h : StorePolicy Φ P E client Good Final ctx req) :
    StorePolicy Φ P (realistic E) client Good Final ctx req where
  promise := h.promise
  sourced := {
    bootstrap g₀ g records hForward hE := h.sourced.bootstrap g₀ g records hForward.1 hE.1
    plain g₀ g group ns r hForward hPlain hE :=
      h.sourced.plain g₀ g group ns r hForward.1 hPlain hE.1
    filtered g₀ g group ns res hForward hFiltered hE :=
      h.sourced.filtered g₀ g group ns res hForward.1 hFiltered hE.1 }
  cache := {
    final := h.cache.final
    serve g₀ g d o r b hConsult := h.cache.serve g₀ g d o r b hConsult.1
    answer := h.cache.answer
    store g₀ g o r hConsult := h.cache.store g₀ g o r hConsult.1
    negative g₀ g o e r b hConsult := h.cache.negative g₀ g o e r b hConsult.1 }

/-- Dual-stack selection over the layers below it. -/
theorem innerChain_sat (hPromise : Graded (askedBy client ctx req) Good)
    (hSourced : Sourced E ctx req Good) (hReal : Realistic E) (g : Ghost) :
    Sat (provenance Φ P E) (execute defaultHandler (innerLayers ctx.cfg client) ctx req) g
      (Settled (askedBy client ctx req) (Checked ctx.cfg req Good) ctx req g) := by
  have hTarget : ∀ s, targetGroup client ctx
      (req.setQueryType (thatType req.query.queryType)) = some s → askedBy client ctx req s :=
    fun _ hs => hs
  have hThat := lowerChain_keeps (Φ := Φ) (P := P) (Graded.anything (askedBy client ctx req))
    (Sourced.anything E ctx _) hReal hTarget g
  exact dualStackLayer_sat (lowerChain_keeps hPromise hSourced hReal (fun _ hs => hs) g)
    (Keeps.mono _ (fun _ _ _ _ => trivial) hThat)

/-- A request through cache, selection and servers is answered by the policy. -/
theorem storeChain_sat (hPolicy : StorePolicy Φ P E client Good Final ctx req) (g : Ghost) :
    Sat (provenance Φ P (realistic E)) (execute defaultHandler (storeLayers ctx.cfg client) ctx req)
      g (Answered ctx.cfg Final) := by
  have hReal := hPolicy.realistic
  have hInner := innerChain_sat (Φ := Φ) (P := P) hReal.promise hReal.sourced
    fun _ _ _ hBelow hE => hE.2 hBelow
  unfold storeLayers
  split
  · exact cacheLayer_sat hReal.cache hInner g
  · exact passBy_sat hReal.cache hInner g

end Rules

end SmartDns.Ports.ChainRules
