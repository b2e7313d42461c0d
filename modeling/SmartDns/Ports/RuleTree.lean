import Mathlib.Data.List.Sort
import SmartDns.Ports.DnsMessage
import SmartDns.Ports.PatternMap

/-!
# Domain rules and their tree

A configuration attaches rules to patterns. `create` sorts the patterns by
name, so that an ancestor precedes its descendants, and inserts them one by
one; each new node is linked to the node that a lookup of its parent name
finds among the patterns inserted so far. A request walks from the node of its
name along these zone links until some node answers.

The order in which a hash map hands out its items is not fixed, so `create`
takes the items as a list in whatever order they come.
-/

namespace SmartDns.Ports.RuleTree

open DomainName DnsMessage PatternMap

inductive AddressRuleValue where
  | SOA
  | SOAv4
  | SOAv6
  | IGN
  | IGNv4
  | IGNv6
  | Addr (v4 : Option (List (BitVec 32))) (v6 : Option (List (BitVec 128)))
  deriving DecidableEq

/-- How an upstream answer is chosen. -/
inductive ResponseMode where
  | FirstPing
  | FastestIp
  | FastestResponse
  deriving DecidableEq

/-- One way to measure how far an address is. -/
inductive SpeedCheckMode where
  | None
  | Ping
  | Tcp (port : Nat)
  | Http (port : Nat)
  | Https (port : Nat)
  deriving DecidableEq

/-- An alias rule: an alias, or the explicit absence of one. -/
inductive CNameRule where
  | Value (name : Name)
  | Ignore
  deriving DecidableEq

inductive HttpsRecordRule where
  | Ignore
  | SOA
  | Filter (noIpv4Hint noIpv6Hint : Bool)
  | RecordData (svcb : SVCB)
  deriving DecidableEq

/-- The rules attached to one pattern. -/
structure DomainRule where
  nameserver : Option String
  address : Option AddressRuleValue
  cname : Option CNameRule
  speedCheckMode : Option (List SpeedCheckMode)
  dualstackIpSelection : Option Bool
  responseMode : Option ResponseMode
  noCache : Option Bool
  noServeExpired : Option Bool
  rrTtl : Option Nat
  rrTtlMin : Option Nat
  rrTtlMax : Option Nat
  subnet : Option ClientSubnet
  srv : Option (List (List UInt8))
  https : Option HttpsRecordRule
  txt : Option (List (List UInt8))
  nftset : Option (List String)
  ipsets : Option (List String)
  deriving DecidableEq

def DomainRule.default : DomainRule where
  nameserver := none
  address := none
  cname := none
  speedCheckMode := none
  dualstackIpSelection := none
  responseMode := none
  noCache := none
  noServeExpired := none
  rrTtl := none
  rrTtlMin := none
  rrTtlMax := none
  subnet := none
  srv := none
  https := none
  txt := none
  nftset := none
  ipsets := none

/-! ## The tree -/

/-- A pattern with its rules and the node of its enclosing zone. -/
inductive DomainRuleTreeNode where
  | mk (name : WildcardName) (rule : DomainRule) (zone : Option DomainRuleTreeNode)

namespace DomainRuleTreeNode

def name : DomainRuleTreeNode → WildcardName
  | .mk name _ _ => name

def rule : DomainRuleTreeNode → DomainRule
  | .mk _ rule _ => rule

def zone : DomainRuleTreeNode → Option DomainRuleTreeNode
  | .mk _ _ zone => zone

/-- The node, its zone, the zone of that, and so on. -/
def chain : DomainRuleTreeNode → List DomainRuleTreeNode
  | .mk name rule none => [.mk name rule none]
  | .mk name rule (some z) => .mk name rule (some z) :: z.chain

/-- Walk the chain until some node has the rule asked for. -/
def findUp {α : Type} (f : DomainRule → Option α) : DomainRuleTreeNode → Option α
  | .mk _ rule none => f rule
  | .mk _ rule (some z) => (f rule).or (z.findUp f)

theorem mem_chain_self (node : DomainRuleTreeNode) : node ∈ node.chain := by
  cases node with
  | mk name rule zone =>
    cases zone with
    | none | some => simp [chain]

/-- The chain is closed under zone links. -/
theorem zone_mem_chain (node : DomainRuleTreeNode) :
    ∀ {z z' : DomainRuleTreeNode}, z ∈ node.chain → z.zone = some z' → z' ∈ node.chain := by
  match node with
  | .mk name rule none =>
    intro z z' hz hZone
    rw [chain, List.mem_singleton] at hz
    subst hz
    exact absurd hZone (by simp [zone])
  | .mk name rule (some up) =>
    intro z z' hz hZone
    rw [chain, List.mem_cons] at hz ⊢
    right
    rcases hz with hHead | hTail
    · subst hHead
      have hUp : up = z' := by simpa [zone] using hZone
      rw [← hUp]
      exact mem_chain_self up
    · exact zone_mem_chain up hTail hZone

end DomainRuleTreeNode

abbrev DomainRuleMap (κ : Type) := DomainMap κ DomainRuleTreeNode

section Create

variable {κ : Type} [DecidableEq κ] (lib : NameLib κ)

/-- The items in the order of their patterns; equal patterns keep their order. -/
def sortItems (items : List (WildcardName × DomainRule)) : List (WildcardName × DomainRule) :=
  items.insertionSort fun a b => (a.1.cmp b.1).isLE = true

/-- Link one item to the node found for its parent name and insert it. -/
def insertItem (rules : DomainRuleMap κ) (item : WildcardName × DomainRule) : DomainRuleMap κ :=
  let zone := rules.find lib item.1.name.baseName
  rules.insert lib item.1 (.mk item.1 item.2 zone)

/-- `DomainRuleMap::create`, from the collected items on. -/
def DomainRuleMap.create (items : List (WildcardName × DomainRule)) : DomainRuleMap κ :=
  (sortItems items).foldl (insertItem lib) DomainMap.empty

end Create

end SmartDns.Ports.RuleTree
