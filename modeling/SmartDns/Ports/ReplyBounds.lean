import SmartDns.Ports.AddressFrame
import SmartDns.Ports.RuleMerging

/-!
# The TTL bounds and the address limit of a reply

An operator bounds the TTLs of replies by `rr-ttl-min` and `rr-ttl-max`, or by
`rr-ttl` in place of both, for the whole server or for one domain, and the TTLs
of replies alone by `rr-ttl-reply-max`. The settings are 64-bit numbers and a TTL
has 32 bits, so a larger setting can only mean the largest TTL. `replyTtl` says
so, from the lines that were written for the domain.

Three things happen to a setting on its way to a reply. The lines of a domain are
merged by `add_assign`, which takes the upper bound from the lower one, so a rule
either has both bounds, and they are equal, or none. `rr_ttl_bounds` reads the two
bounds of the rule and passes over its `rr-ttl`. And the number is cut down to its
low 32 bits. What is left are a lowest and a highest TTL, and `BoundsArrive` says that
they are those that were meant.
-/

namespace SmartDns.Ports.ReplyBounds

open Verified DnsMessage DnsLookup PatternMap RuleTree RuleSources RuleMerging
open RequestContext Middleware InnerChain OuterChain AddressFrame ServerRuns Process List

/-! ## The lines of a domain -/

/-- The `domain-rules` lines that speak about a pattern, in the order of the configuration. -/
def linesOf (sets : DomainSets) (group : RuleGroup) (p : WildcardName) : List DomainRule :=
  (group.domainRules.filter fun line => (expandDomain sets line.domain).any (· == p)).map (·.config)

/-- What they say together: of each attribute, the value of the last line that has one. -/
def asWritten (lines : List DomainRule) : DomainRule := lines.foldl overlay DomainRule.default

/-- The attributes of a rule that bound TTLs. -/
structure TtlSettings where
  rrTtl : Option Nat
  rrTtlMin : Option Nat
  rrTtlMax : Option Nat

def ttlSettings (rule : DomainRule) : TtlSettings := ⟨rule.rrTtl, rule.rrTtlMin, rule.rrTtlMax⟩

theorem foldl_ttlSettings (lines : List DomainRule) : ∀ {rule rule' : DomainRule},
    ttlSettings rule = { ttlSettings rule' with rrTtlMax := rule'.rrTtlMin } →
    ttlSettings (lines.foldl addAssign rule) =
      { ttlSettings (lines.foldl overlay rule') with
        rrTtlMax := (lines.foldl overlay rule').rrTtlMin } := by
  induction lines with
  | nil =>
    intro rule rule' h
    exact h
  | cons line lines ih =>
    intro rule rule' h
    rw [ttlSettings, TtlSettings.mk.injEq] at h
    obtain ⟨hTtl, hMin, hMax⟩ := h
    apply ih
    unfold ttlSettings addAssign overlay
    rw [hTtl, hMin, hMax]
    rfl

/-- Merging loses the upper bound of a rule: it is the lower one, or absent with it. -/
theorem merged_ttlSettings (lines : List DomainRule) :
    ttlSettings (merged lines) =
      { ttlSettings (asWritten lines) with rrTtlMax := (asWritten lines).rrTtlMin } :=
  foldl_ttlSettings lines rfl

/-! ## The rule of a pattern -/

/-- An update that leaves the TTL settings alone. -/
def Neutral (u : Update) : Prop := ∀ rule, ttlSettings (u.apply rule) = ttlSettings rule

section Collected

variable {sets : DomainSets} {nftsets : NftSets} {group : RuleGroup} {p : WildcardName}

/-- None of the other passes writes a TTL setting. -/
theorem ttlSettings_of_mem_collect {rule : DomainRule}
    (h : (p, rule) ∈ collect sets nftsets group) :
    ttlSettings rule = ttlSettings (merged (linesOf sets group p)) := by
  rw [collect_eq] at h
  obtain ⟨-, rfl⟩ := ((mem_performWrites _).2 p rule).mp h
  unfold writes
  simp only [append_assoc]
  rw [updatesTo_append_writes, applyAll_append, applyAll_domainRules]
  refine applyAll_keeps ttlSettings ?_ _
  intro u hu
  obtain ⟨w, hw, hu⟩ := mem_updatesTo hu
  simp only [mem_append] at hw
  rcases hw with hw | hw | hw | hw | hw | hw | hw | hw <;>
    exact forall_writesOf (P := Neutral) (fun _ => forall_mem_singleton.mpr fun _ => rfl) _ w hw
      u hu

end Collected

/-- The lines behind the rule of a request: those of the pattern whose node was found. -/
def Governed (sets : DomainSets) (nftsets : NftSets) (group : RuleGroup)
    (rule : Option DomainRuleTreeNode) (lines : List DomainRule) : Prop :=
  match rule with
  | none => lines = []
  | some node => ∃ p, (p, node.rule) ∈ collect sets nftsets group ∧ lines = linesOf sets group p

/-! ## The specification -/

def maxTtl : Nat := 2 ^ 32 - 1

/-- A setting above the largest TTL acts as the largest TTL. -/
def saturate (setting : Nat) : Nat := min setting maxTtl

def lowerBound (rule : DomainRule) (cfg : RuntimeConfig) : Option Nat :=
  (rule.rrTtlMin.or rule.rrTtl).or (cfg.rrTtlMinSetting.or cfg.rrTtl)

def upperBound (rule : DomainRule) (cfg : RuntimeConfig) : Option Nat :=
  (rule.rrTtlMax.or rule.rrTtl).or (cfg.rrTtlMaxSetting.or cfg.rrTtl)

/-- A lowest TTL and two highest ones. -/
structure Bounds where
  low : Nat
  high : Nat
  reply : Nat

/-- `min(min(max(t, low), high), reply)`. -/
def Bounds.clamp (bounds : Bounds) (ttl : Nat) : Nat :=
  min (min (max ttl bounds.low) bounds.high) bounds.reply

/-- The bounds that the settings mean. Without a setting there is no bound. -/
def meant (rule : DomainRule) (cfg : RuntimeConfig) : Bounds where
  low := ((lowerBound rule cfg).map saturate).getD 0
  high := ((upperBound rule cfg).map saturate).getD maxTtl
  reply := (cfg.rrTtlReplyMax.map saturate).getD maxTtl

def replyTtl (rule : DomainRule) (cfg : RuntimeConfig) (ttl : Nat) : Nat :=
  (meant rule cfg).clamp ttl

/-- The records kept under a limit on addresses, where zero is no limit. -/
def Limited (limit : Option Nat) (records kept : List Record) : Prop :=
  if 0 < limit.getD 0 ∧ limit.getD 0 ≤ addressCount records then
    UpToAddress (limit.getD 0) records kept
  else kept = records

/-- The limit applies to address queries. -/
def limitFor (cfg : RuntimeConfig) (queryType : RecordType) : Option Nat :=
  if queryType.isIpAddr then cfg.maxReplyIpNum else none

/-! ## The reply -/

section Reply

variable {ctx : DnsContext} {queryType : RecordType} {r : DnsResponse}

/-- The answer is cut to the number that governs it. -/
theorem limitAddresses_limited (ctx : DnsContext) (queryType : RecordType)
    (records : List Record) :
    Limited (limitFor ctx.cfg queryType) records (limitAddresses ctx queryType records).1 := by
  unfold Limited limitFor limitAddresses
  cases hType : queryType.isIpAddr with
  | false => cases ctx.cfg.maxReplyIpNum <;> simp
  | true =>
    cases ctx.cfg.maxReplyIpNum with
    | none => simp
    | some n =>
      by_cases hn : 0 < n
      · have hSpec := takeAddresses_spec records n hn
        simpa [hn] using hSpec
      · simp [hn]

theorem UpToAddress.eq_or_length_lt {n : Nat} {records kept : List Record}
    (h : UpToAddress n records kept) : kept = records ∨ kept.length < records.length := by
  obtain ⟨front, last, rest, hRecords, hKept, -⟩ := h
  cases rest with
  | nil => exact .inl (hKept.trans hRecords.symm)
  | cons x rest =>
    rw [hKept, hRecords]
    simp

theorem limitAddresses_subset {records : List Record} {record : Record}
    (h : record ∈ (limitAddresses ctx queryType records).1) : record ∈ records := by
  rcases limitAddresses_kept ctx queryType records with hAll | ⟨n, -, front, last, rest, hRecords,
    hKept, -⟩
  · rwa [hAll] at h
  · rw [hKept] at h
    rw [hRecords, append_cons]
    exact mem_append_left rest h

theorem limitAddresses_snd (records : List Record) :
    (limitAddresses ctx queryType records).2 =
      decide ((limitAddresses ctx queryType records).1.length < records.length) := by
  unfold limitAddresses
  split
  · split
    · rfl
    · simp
  · simp

/-- A limit that cuts nothing off keeps every record. -/
theorem limitAddresses_eq {records : List Record}
    (h : (limitAddresses ctx queryType records).2 = false) :
    (limitAddresses ctx queryType records).1 = records := by
  rw [limitAddresses_snd, decide_eq_false_iff_not] at h
  rcases limitAddresses_kept ctx queryType records with hAll | ⟨n, -, hCut⟩
  · exact hAll
  · exact (UpToAddress.eq_or_length_lt hCut).resolve_right h

/-- The reply's records are those of the cut answer, bounded. -/
theorem reworkReply_records (ctx : DnsContext) (queryType : RecordType) (r : DnsResponse) :
    (reworkReply ctx queryType r).records =
      (limitAddresses ctx queryType r.records).1.map (boundTtl ctx) := by
  cases h : rebuilds ctx queryType r with
  | true =>
    rw [reworkReply_of_rebuilds h]
    rfl
  | false =>
    rw [reworkReply_of_not_rebuilds h]
    unfold rebuilds at h
    simp only [Bool.or_eq_false_iff, Option.isSome_eq_false_iff, Option.isNone_iff_eq_none] at h
    obtain ⟨hLimit, ⟨hMin, hMax⟩, hReply⟩ := h
    have hId : boundTtl ctx = id := by
      unfold boundTtl clampTtlBounds
      rw [hMin, hMax, hReply]
      rfl
    rw [limitAddresses_eq hLimit, hId, map_id]

end Reply

/-! ## The settings that arrive -/

/-- The bounds that arrive of a rule as written: its lower bound in place of both, and the low 32
bits of every setting. -/
def arriving (rule : DomainRule) (cfg : RuntimeConfig) : Bounds where
  low := ((rule.rrTtlMin.or (cfg.rrTtlMinSetting.or cfg.rrTtl)).map (· % 2 ^ 32)).getD 0
  high := ((rule.rrTtlMin.or (cfg.rrTtlMaxSetting.or cfg.rrTtl)).map (· % 2 ^ 32)).getD maxTtl
  reply := (cfg.rrTtlReplyMax.map (· % 2 ^ 32)).getD maxTtl

/-- The highest TTL in a reply. -/
def Bounds.ceiling (bounds : Bounds) : Nat := min bounds.high bounds.reply

/-- The lowest one: a lower bound above the highest TTL is as good as that. -/
def Bounds.floor (bounds : Bounds) : Nat := min bounds.low bounds.ceiling

/-- The highest and the lowest TTL that the settings let through are those that were meant. -/
def BoundsArrive (rule : DomainRule) (cfg : RuntimeConfig) : Prop :=
  (arriving rule cfg).ceiling = (meant rule cfg).ceiling ∧
    (arriving rule cfg).floor = (meant rule cfg).floor

/-- Bounds are their highest and their lowest TTL: the first is what the largest TTL comes to, the
second what zero comes to. -/
theorem clamp_eq_iff {bounds bounds' : Bounds} (h : bounds.ceiling ≤ maxTtl)
    (h' : bounds'.ceiling ≤ maxTtl) :
    (∀ ttl ≤ maxTtl, bounds.clamp ttl = bounds'.clamp ttl) ↔
      bounds.ceiling = bounds'.ceiling ∧ bounds.floor = bounds'.floor := by
  have hClamp : ∀ (b : Bounds) ttl, b.clamp ttl = max (min ttl b.ceiling) b.floor := by
    intro b ttl
    unfold Bounds.clamp Bounds.floor Bounds.ceiling
    omega
  simp only [hClamp]
  constructor
  · intro hAll
    have hTop := hAll maxTtl (Nat.le_refl _)
    have hZero := hAll 0 (Nat.zero_le _)
    have hFloor : bounds.floor ≤ bounds.ceiling := Nat.min_le_right _ _
    have hFloor' : bounds'.floor ≤ bounds'.ceiling := Nat.min_le_right _ _
    omega
  · rintro ⟨hCeiling, hFloor⟩ ttl -
    rw [hCeiling, hFloor]

theorem ceiling_le (setting reply : Option Nat) (f : Nat → Nat) (hf : ∀ b, f b ≤ maxTtl)
    (low : Nat) :
    (Bounds.mk low ((setting.map f).getD maxTtl) ((reply.map f).getD maxTtl)).ceiling ≤ maxTtl := by
  refine Nat.le_trans (Nat.min_le_left _ _) ?_
  cases setting with
  | none => exact Nat.le_refl _
  | some b => exact hf b

/-- The bounds act as written on every TTL exactly when `BoundsArrive` holds. -/
theorem arrive_iff (rule : DomainRule) (cfg : RuntimeConfig) :
    (∀ ttl ≤ maxTtl, (arriving rule cfg).clamp ttl = replyTtl rule cfg ttl) ↔
      BoundsArrive rule cfg :=
  clamp_eq_iff (ceiling_le _ _ _ (fun b => Nat.le_sub_one_of_lt (Nat.mod_lt b (by decide))) _)
    (ceiling_le _ _ _ (fun b => Nat.min_le_right b maxTtl) _)

section Settings

variable {sets : DomainSets} {nftsets : NftSets} {group : RuleGroup} {lines : List DomainRule}
  {ctx : DnsContext}

theorem Governed.headGet_eq (h : Governed sets nftsets group ctx.domainRule lines) :
    headGet ctx.domainRule (·.rrTtlMin) = (asWritten lines).rrTtlMin ∧
      headGet ctx.domainRule (·.rrTtlMax) = (asWritten lines).rrTtlMin := by
  cases hRule : ctx.domainRule with
  | none =>
    rw [hRule] at h
    subst h
    exact ⟨rfl, rfl⟩
  | some node =>
    rw [hRule] at h
    obtain ⟨p, hp, rfl⟩ := h
    have hSettings := (ttlSettings_of_mem_collect hp).trans (merged_ttlSettings _)
    rw [TtlSettings.mk.injEq] at hSettings
    exact ⟨hSettings.2.1, hSettings.2.2⟩

theorem raised_eq (bound : Option Nat) (record : Record) :
    (bound.map record.setMinTtl).getD record =
      { record with ttl := max record.ttl (bound.getD 0) } := by
  cases bound <;> simp

theorem lowered_eq (bound : Option Nat) (record : Record) (h : record.ttl ≤ maxTtl) :
    (bound.map record.setMaxTtl).getD record =
      { record with ttl := min record.ttl (bound.getD maxTtl) } := by
  cases bound <;> simp [h]

/-- What the middleware does with the TTL of a record. -/
theorem boundTtl_eq (h : Governed sets nftsets group ctx.domainRule lines) {record : Record}
    (hTtl : record.ttl ≤ maxTtl) :
    boundTtl ctx record =
      { record with ttl := (arriving (asWritten lines) ctx.cfg).clamp record.ttl } := by
  obtain ⟨hMin, hMax⟩ := Governed.headGet_eq h
  have hLow : max record.ttl (arriving (asWritten lines) ctx.cfg).low ≤ maxTtl := by
    refine Nat.max_le.mpr ⟨hTtl, ?_⟩
    unfold arriving
    cases (asWritten lines).rrTtlMin.or (ctx.cfg.rrTtlMinSetting.or ctx.cfg.rrTtl) with
    | none => exact Nat.zero_le _
    | some b => exact Nat.le_sub_one_of_lt (Nat.mod_lt b (by decide))
  unfold boundTtl clampTtlBounds rrTtlBounds
  rw [hMin, hMax]
  dsimp only
  rw [raised_eq, lowered_eq (((asWritten lines).rrTtlMin.or ctx.cfg.rrTtlMax).map (· % 2 ^ 32)) _
    hLow, lowered_eq _ _ (Nat.le_trans (Nat.min_le_left _ _) hLow)]
  rfl

end Settings

/-! ## The middleware -/

/-- The TTLs of a response have 32 bits. -/
def TtlsFit (r : DnsResponse) : Prop := ∀ record ∈ r.records, record.ttl ≤ maxTtl

/-- The reply of the middleware to the response of an inner chain. -/
theorem addressLayer_yields {next : Handler} {ctx ctx' : DnsContext} {req : DnsRequest}
    {t : List (Sigma Op.Resp)} {r : DnsResponse}
    (hNoRule : handleRuleAddr req.query.queryType ctx = none)
    (hInner : Prog.Yields (next ctx req) t (.ok r, ctx')) :
    Prog.Yields (addressLayer next ctx req) t
      (.ok (reworkReply ctx' req.query.queryType r), ctx') := by
  unfold addressLayer
  rw [hNoRule]
  exact hInner.map fun outcome =>
    (outcome.1.map (reworkReply outcome.2 req.query.queryType), outcome.2)

/-- **The bounds of a reply**: where no rule decides the query, the reply has the records of the
inner chain's response up to the last address allowed, with other TTLs at most; and for all inner
chains and responses the TTLs are bounded as written, exactly if the bounds arrive. -/
theorem reply_bounds (ctx ctx' : DnsContext) (req : DnsRequest) (sets : DomainSets)
    (nftsets : NftSets) (group : RuleGroup) (lines : List DomainRule)
    (hNoRule : handleRuleAddr req.query.queryType ctx = none)
    (hLines : Governed sets nftsets group ctx'.domainRule lines) :
    (∀ (next : Handler) t r, Prog.Yields (next ctx req) t (.ok r, ctx') →
      ∃ reply kept, Prog.Yields (addressLayer next ctx req) t (.ok reply, ctx') ∧
        Limited (limitFor ctx'.cfg req.query.queryType) r.records kept ∧
        List.Forall₂ SameButTtl kept reply.records) ∧
    ((∀ (next : Handler) t r, TtlsFit r → Prog.Yields (next ctx req) t (.ok r, ctx') →
      ∃ reply kept, Prog.Yields (addressLayer next ctx req) t (.ok reply, ctx') ∧
        Limited (limitFor ctx'.cfg req.query.queryType) r.records kept ∧
        reply.records = kept.map fun record =>
          { record with ttl := replyTtl (asWritten lines) ctx'.cfg record.ttl }) ↔
      BoundsArrive (asWritten lines) ctx'.cfg) := by
  have hLimited := fun r : DnsResponse =>
    limitAddresses_limited ctx' req.query.queryType r.records
  refine ⟨?_, ?_⟩
  · intro next t r hInner
    refine ⟨_, _, addressLayer_yields hNoRule hInner, hLimited r, ?_⟩
    rw [reworkReply_records, forall₂_map_right_iff]
    exact forall₂_same.mpr fun record _ => sameButTtl_boundTtl record
  · rw [← arrive_iff]
    constructor
    · intro hAll ttl hTtl
      -- an answer of one alias, which the limit on addresses leaves alone
      let record := Record.fromRdata req.query.name ttl (.CNAME req.query.name)
      let r := DnsResponse.newWithMaxTtl req.query [record]
      let next : Handler := fun _ _ => .done (.ok r, ctx')
      have hInner : Prog.Yields (next ctx req) [] (.ok r, ctx') := .done _
      obtain ⟨reply, kept, hReply, hKept, hRecords⟩ :=
        hAll next [] r (forall_mem_singleton.mpr hTtl) hInner
      have hUncut : ∀ kept, Limited (limitFor ctx'.cfg req.query.queryType) r.records kept →
          kept = [record] := by
        intro kept hKept
        have hNot : ¬(0 < (limitFor ctx'.cfg req.query.queryType).getD 0 ∧
            (limitFor ctx'.cfg req.query.queryType).getD 0 ≤ addressCount r.records) := by
          have hNone : addressCount r.records = 0 := rfl
          omega
        rw [Limited, if_neg hNot] at hKept
        exact hKept
      cases hReply.unique (addressLayer_yields hNoRule hInner)
      rw [reworkReply_records, hUncut _ (hLimited r), hUncut _ hKept, map_singleton,
        boundTtl_eq hLines hTtl] at hRecords
      exact congrArg Record.ttl (cons.inj hRecords).1
    · intro hArrive next t r hFit hInner
      refine ⟨_, _, addressLayer_yields hNoRule hInner, hLimited r, ?_⟩
      rw [reworkReply_records]
      refine map_congr_left fun record hKept => ?_
      have hTtl := hFit record (limitAddresses_subset hKept)
      rw [boundTtl_eq hLines hTtl, hArrive _ hTtl]

/-! ## Lines for `example.com` -/

/-- The configuration of one `domain-rules` line. -/
def groupOf (line : DomainRule) : RuleGroup :=
  { RuleGroup.default with domainRules := [⟨.Name (.Full exampleName), line⟩] }

/-- A request under that line as it was merged. -/
def contextUnder (cfg : RuntimeConfig) (line : DomainRule) : DnsContext :=
  { DnsContext.new exampleName cfg ServerOpts.default with
    domainRule := some (.mk (.Full exampleName) (merged [line]) none) }

theorem governed_contextUnder (cfg : RuntimeConfig) (line : DomainRule) :
    Governed (fun _ => none) [] (groupOf line) (contextUnder cfg line).domainRule [line] := by
  refine ⟨.Full exampleName, ?_, ?_⟩
  · exact .head _
  · rfl

/-- At least one minute for the domain. -/
def minuteRule : DomainRule := { DomainRule.default with rrTtlMin := some 60 }

/-- At most one minute for all, and replies with one address. The bound for replies is beyond 32
bits. -/
def oneAddress : RuntimeConfig :=
  { RuntimeConfig.default with
    rrTtlMaxSetting := some 60
    rrTtlReplyMax := some (2 ^ 40 - 1)
    maxReplyIpNum := some 1 }

def twoAnswers : DnsResponse :=
  DnsResponse.newWithMaxTtl exampleQuery
    [Record.fromRdata exampleName 3600 exampleAddress,
      Record.fromRdata exampleName 30 (.A 0x5db8d823#32)]

theorem reply_bounds_minute :
    ∃ reply kept, Prog.Yields (addressLayer (settledChain (.ok twoAnswers))
        (contextUnder oneAddress minuteRule) boundedRequest) []
          (.ok reply, contextUnder oneAddress minuteRule) ∧
      Limited (some 1) twoAnswers.records kept ∧
      reply.records = kept.map fun record => { record with ttl := 60 } := by
  have hMinute : ∀ ttl, replyTtl minuteRule oneAddress ttl = 60 := by
    intro ttl
    show min (min (max ttl 60) 60) maxTtl = 60
    unfold maxTtl
    omega
  have hArrive : BoundsArrive minuteRule oneAddress := by
    unfold BoundsArrive
    decide
  have hFit : TtlsFit twoAnswers := by
    unfold TtlsFit
    decide
  obtain ⟨reply, kept, hReply, hKept, hRecords⟩ := (reply_bounds
    (contextUnder oneAddress minuteRule) (contextUnder oneAddress minuteRule) boundedRequest
    (fun _ => none) [] (groupOf minuteRule) [minuteRule] (by decide)
    (governed_contextUnder oneAddress minuteRule)).2.mpr hArrive (settledChain (.ok twoAnswers)) []
    twoAnswers hFit (.done _)
  refine ⟨reply, kept, hReply, hKept, ?_⟩
  rw [hRecords]
  exact map_congr_left fun record _ => by rw [← hMinute record.ttl]; rfl

/-- A bound that no TTL reaches, a fixed TTL and an upper bound for one domain. -/
def hugeConfig : RuntimeConfig := { RuntimeConfig.default with rrTtlMaxSetting := some (2 ^ 32) }

def fixedRule : DomainRule := { DomainRule.default with rrTtl := some 60 }

def upperRule : DomainRule := { DomainRule.default with rrTtlMax := some 60 }

/-- The TTLs of the reply to an upstream answer of one hour. -/
def replyTtls (cfg : RuntimeConfig) (line : DomainRule) : List Nat :=
  (reworkReply (contextUnder cfg line) .A plainAnswer).records.map (·.ttl)

/-- The bound that no TTL reaches sets every TTL to zero, and the two lines have no effect. -/
theorem reply_bounds_lost :
    (∀ cfg line, handleRuleAddr .A (contextUnder cfg line) = none →
      Prog.Yields (addressLayer (settledChain (.ok plainAnswer)) (contextUnder cfg line)
        boundedRequest) []
        (.ok (reworkReply (contextUnder cfg line) .A plainAnswer), contextUnder cfg line)) ∧
    (handleRuleAddr .A (contextUnder hugeConfig DomainRule.default) = none ∧
      replyTtls hugeConfig DomainRule.default = [0] ∧
      replyTtl DomainRule.default hugeConfig 3600 = 3600) ∧
    (handleRuleAddr .A (contextUnder RuntimeConfig.default fixedRule) = none ∧
      replyTtls RuntimeConfig.default fixedRule = [3600] ∧
      replyTtl fixedRule RuntimeConfig.default 3600 = 60) ∧
    (handleRuleAddr .A (contextUnder RuntimeConfig.default upperRule) = none ∧
      replyTtls RuntimeConfig.default upperRule = [3600] ∧
      replyTtl upperRule RuntimeConfig.default 3600 = 60) := by
  refine ⟨?_, by decide, by decide, by decide⟩
  intro cfg line hNoRule
  have hType : boundedRequest.query.queryType = .A := rfl
  unfold addressLayer
  rw [hType, hNoRule]
  exact .done _

end SmartDns.Ports.ReplyBounds
