import SmartDns.Verified.Effect
import SmartDns.Ports.CacheStore
import SmartDns.Ports.RequestContext

/-!
# Middlewares as programs

A request is resolved by a chain of middlewares, each of which may answer, or
run the rest of the chain and rework what comes back. Every middleware is an
asynchronous function, so it is modelled as a program whose operations are the
points where it touches something it does not own: the clock, the cache, the
upstream servers, the files of the host, the dispatcher and the scheduler.

Five operations carry no code. `consult` marks the moment the cache middleware
takes a request up, `bypass` the moment a request passes it by and `answer` the
moment a response to either goes out, `forward` marks a request that reaches the
end of the chain, and `logDualStack` is the log line of dual-stack selection.
They do nothing to the world; a specification hangs its bookkeeping on them.
-/

namespace SmartDns.Ports.Middleware

open Verified DomainName DnsMessage DnsLookup RequestContext RuleTree CacheStore

/-! ## Upstream servers -/

/-- Which servers a lookup goes to. -/
inductive ServerGroup where
  | default
  | named (name : String)
  deriving DecidableEq

/-- One upstream server with the filters it is configured to apply. -/
structure NameServer where
  id : Nat
  whitelistIp : Bool
  blacklistIp : Bool
  deriving DecidableEq

structure NameServerGroup where
  group : ServerGroup
  servers : List NameServer
  deriving DecidableEq

structure LookupOptions where
  isDnssec : Bool
  recordType : RecordType
  clientSubnet : Option ClientSubnet
  deriving DecidableEq

/-! ## Operations -/

/-- What the builtin PTR zone knows about a name. -/
inductive PtrZone where
  | foreign
  | server
  | privateNet
  deriving DecidableEq

/-- What becomes of a request between the handle and the chain. -/
inductive Dispatch where
  | processed
  | refused
  | dropped (freshId : Nat)
  deriving DecidableEq

/-- The points at which a middleware leaves its own code. -/
inductive Op where
  | dispatch
  | now
  | cacheGet (query : Query) (now : Nat)
  | insertNegative (query : Query) (resp : DnsResponse) (ttl : Nat) (group : String) (now : Nat)
  | insertRecords (query : Query) (records : List Record) (now : Nat) (group : String)
  | queryHit
  | tryPrefetch (query : Query) (group : String)
  | localLookup (query : Query)
  | serverLookup (group : ServerGroup) (server : NameServer) (name : Name)
      (options : LookupOptions)
  | ping (addrs : List IpAddr) (mode : SpeedCheckMode)
  | next (pending : Nat)
  | select
  | timeout
  | hosts (query : Query)
  | lease (name : Name) (recordType : RecordType)
  | reverseLease (name : Name)
  | ptrZone (name : Name)
  | identity (name : Name) (client : IpAddr)
  | logDualStack (name : Name) (chosen : RecordType)
  | consult (ctx : DnsContext) (req : DnsRequest)
  | bypass (ctx : DnsContext) (req : DnsRequest)
  | forward (ctx : DnsContext) (req : DnsRequest)
  | answer (ctx : DnsContext) (req : DnsRequest) (res : DnsResponse) (cached : Bool)

/-- What an operation is answered with. -/
abbrev Op.Resp : Op → Type
  | .dispatch => Dispatch
  | .now => Nat
  | .cacheGet _ _ => Option (DnsResponse × CacheStatus)
  | .localLookup _ => Option (List Record)
  | .serverLookup _ _ _ _ => Except DnsError DnsResponse
  | .ping _ _ => Option (IpAddr × Nat)
  | .next _ => Nat
  | .select => Bool
  | .hosts _ => Option (List Record)
  | .lease _ _ => Option RData
  | .reverseLease _ => Option RData
  | .ptrZone _ => PtrZone
  | .identity _ _ => Option (List (List UInt8))
  | _ => Unit

/-- Programs of the server. -/
abbrev Async (α : Type) := Prog Op Op.Resp α

/-- What a handler leaves behind: its result and the context it was lent. -/
abbrev Outcome := Except DnsError DnsResponse × DnsContext

/-- `Next::run`: the rest of the chain as a function of context and request. -/
abbrev Handler := DnsContext → DnsRequest → Async Outcome

/-- A middleware, given the rest of the chain. -/
abbrev Layer := Handler → Handler

/-- `MiddlewareHost::execute`: the middlewares in order, then the default handler. -/
def execute (default : Handler) (layers : List Layer) : Handler :=
  layers.foldr (fun layer next => layer next) default

/-- What every layer passes on, a chain has if the rest of it does. -/
theorem execute_append {Good : Handler → Prop} {default : Handler} {rest : List Layer}
    (hRest : Good (execute default rest)) (layers : List Layer)
    (hLayers : ∀ l ∈ layers, ∀ next, Good next → Good (l next)) :
    Good (execute default (layers ++ rest)) := by
  induction layers with
  | nil => exact hRest
  | cons l layers ih =>
    exact hLayers l (List.mem_cons_self ..) _
      (ih fun l' hl' => hLayers l' (.tail _ hl'))

/-- `DnsDefaultHandler`: nobody answered. -/
def defaultHandler : Handler := fun ctx req =>
  .done (.error (DnsError.noRecordsFound req.query (ctx.cfg.rrTtl.getD 0 % 2 ^ 32)), ctx)

end SmartDns.Ports.Middleware
