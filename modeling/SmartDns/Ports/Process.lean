import SmartDns.Ports.AccessControl

/-!
# From the chain's outcome to the reply

`process` decodes a request, runs the chain on it and turns the outcome into
the message for the transport. The header of that message is built from the
request's header and replaces the header of whatever the chain returned, so
the only response codes that reach the client are those `respond` writes into
it. `send` is the handle in front of it: a request is processed, refused by the
limiter or by a closed channel, or lost together with its reply channel.
-/

namespace SmartDns.Ports.Process

open Verified DnsMessage DnsLookup RequestContext Middleware AccessControl

/-- Why a message cannot be decoded; a form error still has a header. -/
inductive DecodeError where
  | formError (header : Header)
  | other

/-- What `DnsRequest::try_from` makes of a message. -/
abbrev Incoming := Except DecodeError DnsRequest

/-! ## The reply to a standard query -/

/-- The response of an outcome, the header code it asks for and the cache flag. -/
def settle (req : DnsRequest) : Except DnsError DnsResponse → DnsResponse × ResponseCode × Bool
  | .ok lookup => (lookup, .NoError, lookup.fromCache)
  | .error e =>
    let code := if e.isNxDomain then .NXDomain else ResponseCode.NoError
    let code := e.code?.getD code
    match e.asSoa req.query with
    | some soa => (soa, code, false)
    | none =>
      if e.code?.isSome then (DnsResponse.empty.addQuery req.query, code, false)
      else (DnsResponse.empty.addQuery req.query, .ServFail, false)

/-- The message for the transport, under a header built from the request's. -/
def respond (req : DnsRequest) (res : Except DnsError DnsResponse) : Message × Bool :=
  let settled := settle req res
  let header :=
    { req.message.header.responseFromRequest with
      recursionAvailable := true
      authoritative := false
      responseCode := settled.2.1 }
  (settled.1.intoMessage (some header), settled.2.2)

/-- A reply without question or records. -/
def bareReply (header : Header) (code : ResponseCode) : Message :=
  (Message.query 0).toResponse.setHeader { header.responseFromRequest with responseCode := code }

/-- `process`, with the flag that says whether the answer came from the cache. -/
def process (cfg : RuntimeConfig) (host : Handler) (incoming : Incoming)
    (serverOpts : ServerOpts) : Async (Message × Bool) :=
  match incoming with
  | .ok req =>
    match req.message.header.messageType with
    | .Query =>
      match req.message.header.opCode with
      | .Query => do
        let res ← search cfg host serverOpts req
        return respond req res
      | _ => .done (bareReply req.message.header .NotImp, false)
    | .Response => .done (bareReply req.message.header .Refused, false)
  | .error (.formError header) => .done (bareReply header .FormErr, false)
  | .error .other => .done (Message.query 0, false)

/-! ## The handle -/

def refusedResponse : Incoming → Message
  | .ok req => req.message.toResponse.setResponseCode .Refused
  | .error _ => (Message.query 0).toResponse.setResponseCode .Refused

/-- `DnsHandle::send`. -/
def send (cfg : RuntimeConfig) (host : Handler) (incoming : Incoming) (serverOpts : ServerOpts) :
    Async Message := do
  match ← Prog.perform Op.dispatch with
  | .processed => return (← process cfg host incoming serverOpts).1
  | .refused => return refusedResponse incoming
  | .dropped freshId => return (Message.query freshId).toResponse.setResponseCode .Refused

/-! ## Standard queries -/

/-- A query with the standard operation code. -/
def StandardQuery (req : DnsRequest) : Prop :=
  req.message.header.messageType = .Query ∧ req.message.header.opCode = .Query

/-- On a standard query, `process` is the chain followed by `respond`. -/
theorem process_standard (cfg : RuntimeConfig) (host : Handler) (serverOpts : ServerOpts)
    {req : DnsRequest} (hStandard : StandardQuery req) :
    process cfg host (.ok req) serverOpts =
      (search cfg host serverOpts req >>= fun res => pure (respond req res)) := by
  unfold process
  simp only [hStandard.1, hStandard.2]

/-- A chain that has its outcome ready. -/
def settledChain (res : Except DnsError DnsResponse) : Handler := fun ctx _ => .done (res, ctx)

end SmartDns.Ports.Process
