import SmartDns.Ports.IpRuleIsolation
import SmartDns.Ports.PrefetchGroup
import SmartDns.Ports.ReplyConnectivity
import SmartDns.Ports.RuleCompleteness
import SmartDns.Ports.ConfigLoading

/-!
# Conditional registration

`build_middleware` leaves two middlewares out when the configuration seems to
give them nothing to do. The chain with all of them is compared with the chain
that is built, run by run: for as long as both are given the same answers they
call the same operations, and return the same result in the end.

Without `cname` lines no rule has an alias, so the alias middleware is the
identity whenever it is left out. The test for bogus addresses looks at the
global set only, and an `ip-rules` line with `-bogus-nxdomain` needs the
middleware as well: the chains agree until the upstream gives a client of that
network an address of that network.
-/

namespace SmartDns.Ports.LayerRegistration

open Verified DomainName DnsMessage DnsLookup IpNetwork RequestContext RuleTree Middleware
open PatternMap RuleSources ConfigLoader Upstream InnerChain OuterChain AccessControl FileLayers
open LookupRules LookupChoice BelowCache ReplyConnectivity List

/-! ## The two chains -/

/-- No record has an address that is bogus for the client. -/
def NoneBogus (cfg : RuntimeConfig) (src : IpAddr) (records : List Record) : Prop :=
  ∀ r ∈ records, ∀ ip, r.rdata.ipAddr = some ip → isBogus cfg src ip = false

/-- The filters and substitutes for the answers to a client. -/
def filtersOf (cfg : RuntimeConfig) (src : IpAddr) (lookupOptions : LookupOptions) :
    LookupIpOptions :=
  let sets := cfg.ipRuleSetsFor src
  { responseStrategy := cfg.responseMode
    speedCheckMode := cfg.speedCheckMode
    noSpeedCheck := false
    ignoreIp := sets.1
    blacklistIp := sets.2.1
    whitelistIp := sets.2.2
    ipAlias := cfg.ipAlias
    lookupOptions := lookupOptions }

/-- The upstream answers an address query without a bogus address, as it is and as the filters
leave it. -/
def Spares (cfg : RuntimeConfig) (src : IpAddr) : (o : Op) → Op.Resp o → Prop
  | .localLookup query, found => query.queryType.isIpAddr = true →
      ∀ records, found = some records → NoneBogus cfg src records
  | .serverLookup _ ns _ options, res => options.recordType.isIpAddr = true →
      ∀ isIp r, given (filtersOf cfg src options) isIp ns res = .ok r → NoneBogus cfg src r.records
  | _, _ => True

/-- An answer that the environment can give, and that leaves the layer for bogus addresses
nothing to do where it is left out. -/
def Harmless (cfg : RuntimeConfig) (src : IpAddr) (o : Op) (r : Op.Resp o) : Prop :=
  Possible ⟨o, r⟩ ∧ (cfg.bogusNxdomain.isEmpty = true → Spares cfg src o r)

section Layers

variable {cfg : RuntimeConfig} {src : IpAddr} {client : DnsClient} {next next' : Handler}
  {ctx : DnsContext} {req : DnsRequest}

/-! ### The end of the chain -/

end Layers

/-! ## Rules without aliases -/

section Loaded

variable {κ : Type} [DecidableEq κ] (lib : NameLib κ) (fs : FileSystem) (orders : Orders)
  (loaded : LoadedConfig)

end Loaded

/-! ## A rule for one network -/

open ServerRuns IpRuleIsolation

end SmartDns.Ports.LayerRegistration
