import SmartDns.Ports.DnsLookup
import SmartDns.Ports.IpNetwork
import SmartDns.Ports.RuleTree

/-!
# Configuration and request context

The part of the configuration that the middlewares read, the options of the
listener a request came in on, and the context that a request is resolved in.

The settings of `RuntimeConfig` are what the accessors of the same names
return, with their defaults applied; `RuntimeConfig.default` lists those
defaults. Three settings whose default is another setting keep both. Rule groups enter through
`findDomainRule`, whose definition over the rule maps is `ConfigLoader.findDomainRule`.

A rule attribute is read in three ways in the source: on an optional node only
the node itself counts (`headGet`), on a node its zone counts as well
(`nodeGet`), and the server group is looked for along the whole chain.
-/

namespace SmartDns.Ports.RequestContext

open DomainName DnsMessage IpNetwork RuleTree

/-! ## Listener options -/

/-- The options of a listener, together with the group its client matched. -/
structure ServerOpts where
  group : Option String
  ruleGroup : Option String
  noRuleAddr : Option Bool
  noRuleNameserver : Option Bool
  noSpeedCheck : Option Bool
  noCache : Option Bool
  noServeExpired : Option Bool
  noRuleSoa : Option Bool
  noDualstackSelection : Option Bool
  forceAaaaSoa : Option Bool
  forceHttpsSoa : Option Bool
  isBackground : Bool
  deriving DecidableEq

def ServerOpts.default : ServerOpts where
  group := none
  ruleGroup := none
  noRuleAddr := none
  noRuleNameserver := none
  noSpeedCheck := none
  noCache := none
  noServeExpired := none
  noRuleSoa := none
  noDualstackSelection := none
  forceAaaaSoa := none
  forceHttpsSoa := none
  isBackground := false

/-! ## Client rules -/

/-- Whom a client rule is about. -/
inductive Client where
  | MacAddr (mac : String)
  | IpAddr (net : IpNet)
  deriving DecidableEq

/-- The rule group a client is sent to. -/
structure ClientRule where
  client : Client
  group : String
  deriving DecidableEq

def ClientRule.matchIp (rule : ClientRule) (ip : IpAddr) : Bool :=
  match rule.client with
  | .MacAddr _ => false
  | .IpAddr net => net.containsAddr ip

def ClientRule.matchNet (rule : ClientRule) (subnet : IpNet) : Bool :=
  match rule.client with
  | .MacAddr _ => false
  | .IpAddr net => net.containsNet subnet

/-- Filters in force for the clients of one network. -/
structure IpRule where
  net : IpNet
  blacklist : Bool
  whitelist : Bool
  bogusNxdomain : Bool
  ignore : Bool
  deriving DecidableEq

/-- The substitutes of an address; the mark is the allocation that the map hands out for it, which
is one for all of a range that the map has joined from neighbours with equal lists. -/
structure IpAlias where
  mark : Nat
  addrs : List IpAddr
  deriving DecidableEq

/-! ## The configuration -/

structure RuntimeConfig where
  findDomainRule : Name → String → Option DomainRuleTreeNode
  clientRules : List ClientRule
  aclEnable : Bool
  ipRules : List IpRule
  ignoreIp : IpSet
  blacklistIp : IpSet
  whitelistIp : IpSet
  bogusNxdomain : IpSet
  ipAlias : IpMap IpAlias
  mdnsLookup : Bool
  localDomain : Option Name
  responseMode : ResponseMode
  speedCheckMode : Option (List SpeedCheckMode)
  dualstackIpSelection : Bool
  dualstackIpSelectionThreshold : Nat
  dualstackIpAllowForceAaaa : Bool
  rrTtl : Option Nat
  rrTtlMinSetting : Option Nat
  rrTtlMaxSetting : Option Nat
  rrTtlReplyMax : Option Nat
  localTtlSetting : Option Nat
  maxReplyIpNum : Option Nat
  forceAaaaSoa : Bool
  forceHttpsSoa : Bool
  forceQtypeSoa : List RecordType
  forceNoCname : Bool
  hasCnames : Bool
  cacheSize : Nat
  cacheNegative : Bool
  serveExpired : Bool
  serveExpiredPrefetchTime : Nat
  dns64Prefix : Option (Cidr 128)
  hasLeaseFile : Bool
  resolvHostname : Bool
  localPtrEnable : Bool
  expandPtrFromAddress : Bool
  serverName : Name

/-- The configuration of an empty file. -/
def RuntimeConfig.default : RuntimeConfig where
  findDomainRule := fun _ _ => none
  clientRules := []
  aclEnable := false
  ipRules := []
  ignoreIp := []
  blacklistIp := []
  whitelistIp := []
  bogusNxdomain := []
  ipAlias := []
  mdnsLookup := false
  localDomain := none
  responseMode := .FirstPing
  speedCheckMode := none
  dualstackIpSelection := true
  dualstackIpSelectionThreshold := 10
  dualstackIpAllowForceAaaa := false
  rrTtl := none
  rrTtlMinSetting := none
  rrTtlMaxSetting := none
  rrTtlReplyMax := none
  localTtlSetting := none
  maxReplyIpNum := none
  forceAaaaSoa := false
  forceHttpsSoa := false
  forceQtypeSoa := []
  forceNoCname := false
  hasCnames := false
  cacheSize := 512
  cacheNegative := true
  serveExpired := true
  serveExpiredPrefetchTime := 0
  dns64Prefix := none
  hasLeaseFile := false
  resolvHostname := false
  localPtrEnable := true
  expandPtrFromAddress := false
  serverName := Name.ofLabels ["smartdns"]

namespace RuntimeConfig

def rrTtlMin (cfg : RuntimeConfig) : Option Nat := cfg.rrTtlMinSetting.or cfg.rrTtl

def rrTtlMax (cfg : RuntimeConfig) : Option Nat := cfg.rrTtlMaxSetting.or cfg.rrTtl

/-- `local_ttl`: the setting, else the smallest TTL, else ten seconds. -/
def localTtl (cfg : RuntimeConfig) : Nat := (cfg.localTtlSetting.or cfg.rrTtlMin).getD 10

/-- A global set with the networks of the matching rules added to it. -/
def mergeSet (global : IpSet) (extra : List IpNet) : IpSet :=
  extra.foldl (fun set net => IpMap.insert set net ()) global

/-- `ip_rule_sets_for`: the sets in force for a client, as `(ignore, blacklist, whitelist)`. -/
def ipRuleSetsFor (cfg : RuntimeConfig) (clientIp : IpAddr) : IpSet × IpSet × IpSet :=
  let rules := cfg.ipRules.filter fun rule => rule.net.containsAddr clientIp
  (mergeSet cfg.ignoreIp ((rules.filter (·.ignore)).map (·.net)),
    mergeSet cfg.blacklistIp ((rules.filter (·.blacklist)).map (·.net)),
    mergeSet cfg.whitelistIp ((rules.filter (·.whitelist)).map (·.net)))

def ipRuleBogusSetFor (cfg : RuntimeConfig) (clientIp : IpAddr) : IpSet :=
  IpSet.new ((cfg.ipRules.filter fun rule =>
    rule.bogusNxdomain && rule.net.containsAddr clientIp).map (·.net))

end RuntimeConfig

def defaultGroup : String := "default"

/-! ## Reading rules -/

/-- The getter on an optional node: the node itself or nothing. -/
def headGet {α : Type} (rule : Option DomainRuleTreeNode) (f : DomainRule → Option α) : Option α :=
  rule.bind fun node => f node.rule

/-- The getter on a node: the node, else its zone. -/
def nodeGet {α : Type} (node : DomainRuleTreeNode) (f : DomainRule → Option α) : Option α :=
  (f node.rule).or (node.zone.bind fun zone => f zone.rule)

/-! ## The request context -/

/-- What a request is resolved in. -/
structure DnsContext where
  cfg : RuntimeConfig
  serverOpts : ServerOpts
  domainRule : Option DomainRuleTreeNode
  noCache : Bool
  serverGroupName : String

namespace DnsContext

/-- The listener's group, else the nearest rule's, else the default one. -/
def resolveServerGroupName (serverOpts : ServerOpts) (domainRule : Option DomainRuleTreeNode) :
    String :=
  match serverOpts.group with
  | some name => name
  | none => (domainRule.bind fun node => node.findUp (·.nameserver)).getD defaultGroup

def new (name : Name) (cfg : RuntimeConfig) (serverOpts : ServerOpts) : DnsContext :=
  let domainRule := cfg.findDomainRule name (serverOpts.ruleGroup.getD "")
  { cfg := cfg
    serverOpts := serverOpts
    domainRule := domainRule
    noCache := (headGet domainRule (·.noCache)).getD false
    serverGroupName := resolveServerGroupName serverOpts domainRule }

end DnsContext

end SmartDns.Ports.RequestContext
