import SmartDns.Ports.LookupRules

/-!
# Layers that answer from files

The layers for leases, builtin zones and the hosts file ask the host a few
things, and then answer with what they found or leave the request to the rest of
the chain. That is all they do with the rest of the chain, so a property of the
whole chain needs one argument for the three of them.
-/

namespace SmartDns.Ports.FileLayers

open DnsMessage DnsLookup RequestContext Middleware OuterChain LookupRules

/-- Files have records of the name and the type that they are asked for. -/
def FromFiles : (o : Op) → Op.Resp o → Prop
  | .hosts query, some records =>
    ∀ x ∈ records, x.name.lowerLabels = query.name.lowerLabels ∧ x.recordType = query.queryType
  | .lease _ recordType, some rdata => rdata.recordType = recordType
  | .reverseLease _, some rdata => rdata.recordType = .PTR
  | _, _ => True

/-- Records of the question, or no addresses. -/
def Fitting (query : Query) (records : List Record) : Prop :=
  (∀ x ∈ records, x.name.lowerLabels = query.name.lowerLabels ∧
    x.recordType = query.queryType) ∨ ∀ x ∈ records, x.recordType.isIpAddr = false

/-- What is done for a request, given the rest of the chain. An answer fits the question if the
files are right, that is under the condition `C`. -/
inductive Consults (ctx : DnsContext) (req : DnsRequest) :
    Prop → (Handler → Async Outcome) → Prop where
  | answer {C : Prop} {r : DnsResponse} (hQuestion : r.message.queries = [req.query])
      (hFits : C → Fitting req.query r.records) :
      Consults ctx req C fun _ => .done (.ok r, ctx)
  | rest {C : Prop} : Consults ctx req C fun next => next ctx req
  | filtered {C : Prop} (noIpv4Hint noIpv6Hint : Bool) :
      Consults ctx req C fun next => next ctx req >>= fun outcome =>
        pure (outcome.1.map fun r => r.mapAnswers (filterHints noIpv4Hint noIpv6Hint), outcome.2)
  | ask {C : Prop} {o : Op} {k : Op.Resp o → Handler → Async Outcome} (hSilent : silent o = true)
      (hk : ∀ r, Consults ctx req (C ∧ FromFiles o r) (k r)) :
      Consults ctx req C fun next => .call o fun r => k r next

variable {ctx : DnsContext} {req : DnsRequest}

/-! ## Leases -/

theorem Consults.localAnswer {C : Prop} {rdata : RData}
    (h : C → rdata.recordType = req.query.queryType) :
    Consults ctx req C fun _ => .done (.ok (OuterChain.localAnswer ctx req rdata), ctx) := by
  refine .answer rfl fun hC => .inl ?_
  exact List.forall_mem_singleton.mpr ⟨rfl, h hC⟩

/-- The lease layer answers from its files or passes the request on. -/
theorem dnsmasqLayer_consults (ctx : DnsContext) (req : DnsRequest) :
    Consults ctx req True fun next => dnsmasqLayer next ctx req := by
  have hLease : ∀ C, Consults ctx req C fun next => leaseOr next ctx req := by
    intro C
    refine .ask rfl ?_
    intro found
    cases found with
    | some rdata => exact .localAnswer fun h => h.2
    | none => exact .rest
  unfold dnsmasqLayer
  split
  · rename_i hPtr
    refine .ask rfl ?_
    intro found
    cases found with
    | some rdata => exact .localAnswer fun h => h.2.trans hPtr.symm
    | none => exact hLease _
  · exact hLease _

/-! ## Builtin zones -/

/-- What a zone provider found: an answer to the question, without addresses. -/
def ZoneFound (req : DnsRequest) (found : Option DnsResponse) : Prop :=
  ∀ r, found = some r →
    r.message.queries = [req.query] ∧ ∀ x ∈ r.records, x.recordType.isIpAddr = false

theorem zoneFound_none : ZoneFound req none := by
  intro r hr
  cases hr

theorem zoneFound_some {r : DnsResponse} (hQuestion : r.message.queries = [req.query])
    (hRecords : ∀ x ∈ r.records, x.recordType.isIpAddr = false) : ZoneFound req (some r) := by
  intro r' hr
  cases hr
  exact ⟨hQuestion, hRecords⟩

theorem other_singleton {record : Record} (h : record.recordType.isIpAddr = false) :
    ∀ x ∈ [record], x.recordType.isIpAddr = false := by
  exact List.forall_mem_singleton.mpr h

theorem other_map {α : Type} {f : α → Record} (hf : ∀ a, (f a).recordType.isIpAddr = false)
    (values : List α) : ∀ x ∈ values.map f, x.recordType.isIpAddr = false := by
  intro x hx
  obtain ⟨a, -, rfl⟩ := List.mem_map.mp hx
  exact hf a

theorem other_classRecords {query : Query} {α : Type} {f : α → RData}
    (hf : ∀ a, (f a).recordType.isIpAddr = false) (values : List α) :
    ∀ x ∈ (classRecords query (values.map f)).records, x.recordType.isIpAddr = false := by
  intro x hx
  obtain ⟨rdata, hr, rfl⟩ := List.mem_map.mp hx
  obtain ⟨a, -, rfl⟩ := List.mem_map.mp hr
  exact hf a

section Providers

variable {k : Option DnsResponse → Handler → Async Outcome}
  (hk : ∀ C found, ZoneFound req found → Consults ctx req C (k found))

include hk

theorem localPtrLookup_consults (C : Prop) :
    Consults ctx req C fun next => localPtrLookup ctx req >>= fun found => k found next := by
  unfold localPtrLookup
  split
  · refine .ask rfl ?_
    intro zone
    cases zone with
    | foreign => exact hk _ none zoneFound_none
    | server => exact hk _ (some _) (zoneFound_some rfl (other_singleton rfl))
    | privateNet => exact hk _ (some _) (zoneFound_some rfl fun x hx => by cases hx)
  · exact hk _ none zoneFound_none

theorem identityLookup_consults (C : Prop) :
    Consults ctx req C fun next => identityLookup req >>= fun found => k found next := by
  unfold identityLookup
  split
  · refine .ask rfl ?_
    intro texts
    cases texts with
    | none => exact hk _ none zoneFound_none
    | some values => exact hk _ (some _) (zoneFound_some rfl (other_classRecords (fun _ => rfl) _))
  · exact hk _ none zoneFound_none

end Providers

theorem ruleLookup_consults (ctx : DnsContext) (req : DnsRequest) (C : Prop) :
    Consults ctx req C fun next => (ruleLookup next ctx req).getD (next ctx req) := by
  cases hType : req.query.queryType with
  | SRV =>
    simp only [ruleLookup, hType]
    cases headGet ctx.domainRule (·.srv) with
    | none => exact .rest
    | some values => exact .answer rfl fun _ => .inr (other_classRecords (fun _ => rfl) _)
  | TXT =>
    simp only [ruleLookup, hType]
    cases headGet ctx.domainRule (·.txt) with
    | none => exact .rest
    | some values => exact .answer rfl fun _ => .inr (other_map (fun _ => rfl) _)
  | HTTPS =>
    simp only [ruleLookup, hType]
    cases headGet ctx.domainRule (·.https) with
    | none => exact .rest
    | some rule =>
      cases rule with
      | Ignore => exact .rest
      | Filter noIpv4Hint noIpv6Hint => exact .filtered noIpv4Hint noIpv6Hint
      | SOA | RecordData => exact .answer rfl fun _ => .inr (other_singleton rfl)
  | _ =>
    simp only [ruleLookup, hType]
    exact .rest

/-- The zone layer answers from what it is given or passes the request on. -/
theorem zoneLayer_consults (ctx : DnsContext) (req : DnsRequest) :
    Consults ctx req True fun next => zoneLayer next ctx req := by
  have hAnswer : ∀ C r, ZoneFound req (some r) →
      Consults ctx req C fun _ => .done (.ok r, ctx) := fun C r hFound =>
    .answer (hFound r rfl).1 fun _ => .inr (hFound r rfl).2
  refine localPtrLookup_consults ?_ True
  intro C found hFound
  cases found with
  | some r => exact hAnswer C r hFound
  | none =>
    refine identityLookup_consults ?_ C
    intro C' found hFound
    cases found with
    | some r => exact hAnswer C' r hFound
    | none => exact ruleLookup_consults ctx req C'

/-! ## The hosts file -/

/-- A lookup in the hosts file gives records of the name and type asked for. -/
theorem lookupHosts_consults {k : Option (List Record) → Handler → Async Outcome}
    (hNone : ∀ C, Consults ctx req C (k none))
    (hSome : ∀ {C : Prop} {records}, (C → ∀ x ∈ records,
      x.name.lowerLabels = req.query.name.lowerLabels ∧ x.recordType = req.query.queryType) →
        Consults ctx req C (k (some records))) (C : Prop) :
    Consults ctx req C fun next => lookupHosts ctx req.query >>= fun found => k found next := by
  refine .ask rfl ?_
  intro found
  cases found with
  | some records => exact hSome fun h => h.2
  | none =>
    refine .ask rfl ?_
    intro found
    cases found with
    | some records => exact hSome fun h => h.2
    | none =>
      split
      · exact hNone _
      · refine .ask rfl ?_
        intro found
        cases found with
        | none => exact hNone _
        | some records =>
          refine hSome ?_
          intro h x hx
          obtain ⟨y, hy, rfl⟩ := List.mem_map.mp hx
          exact ⟨rfl, (h.2 y hy).2⟩

/-- The hosts layer answers from its file or passes the request on. -/
theorem hostsLayer_consults (ctx : DnsContext) (req : DnsRequest) :
    Consults ctx req True fun next => hostsLayer next ctx req := by
  by_cases hAsked : (req.query.queryType.isIpAddr ||
      req.query.queryType == .PTR && ctx.cfg.expandPtrFromAddress) = true
  · simp only [hostsLayer, if_pos hAsked]
    refine lookupHosts_consults ?_ ?_ True
    · exact fun C => .rest
    · exact fun h => .answer rfl fun hC => .inl (h hC)
  · simp only [hostsLayer, if_neg hAsked]
    exact .rest

/-! ## All of them -/

/-- The layers that answer from files. -/
def fileLayers (cfg : RuntimeConfig) : List Layer :=
  (if cfg.hasLeaseFile then [dnsmasqLayer] else []) ++ [zoneLayer] ++
  (if cfg.resolvHostname then [hostsLayer] else [])

theorem eq_of_mem_optional {c : Bool} {l layer : Layer}
    (h : l ∈ if c = true then [layer] else []) : l = layer := by
  split at h
  · exact List.mem_singleton.mp h
  · cases h

/-- Each of the layers that read files does no more than that. -/
theorem fileLayers_consults {cfg : RuntimeConfig} {l : Layer} (hLayer : l ∈ fileLayers cfg)
    (ctx : DnsContext) (req : DnsRequest) : Consults ctx req True fun next => l next ctx req := by
  unfold fileLayers at hLayer
  simp only [List.mem_append] at hLayer
  rcases hLayer with (h | h) | h
  · rw [eq_of_mem_optional h]
    exact dnsmasqLayer_consults ctx req
  · rw [List.mem_singleton.mp h]
    exact zoneLayer_consults ctx req
  · rw [eq_of_mem_optional h]
    exact hostsLayer_consults ctx req

end SmartDns.Ports.FileLayers
