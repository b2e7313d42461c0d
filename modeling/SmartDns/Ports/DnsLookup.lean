import SmartDns.Ports.DnsMessage

/-!
# Requests, responses and lookup errors

The three values that travel through the middleware chain. A `DnsRequest`
keeps the message it was decoded from next to the question being resolved,
because alias resolution replaces the question and leaves the message alone. A
`DnsResponse` is a message with the name of the server group that produced it.
A `DnsError` is the chain's failure, and `asSoa` is the one place where a
failure turns back into a message.

The deadline a response carries in the source decides nothing and is left out.
-/

namespace SmartDns.Ports.DnsLookup

open DomainName DnsMessage

/-! ## Requests -/

/-- A decoded request: the question as the client wrote it and its origin. -/
structure DnsRequest where
  id : Nat
  query : Query
  message : Message
  src : IpAddr
  deriving DecidableEq

namespace DnsRequest

def new (message : Message) (src : IpAddr) : DnsRequest where
  id := message.header.id
  query := message.queries.head?.getD Query.default
  message := message
  src := src

/-- `LowerQuery::name`: the queried name in lower case. -/
def lowerName (req : DnsRequest) : Name := req.query.name.toLowercase

/-- `DnsRequest::with_cname`: ask for another name, in class `IN`. -/
def withCname (req : DnsRequest) (name : Name) : DnsRequest :=
  { req with query := Query.query name req.query.queryType }

def setQueryType (req : DnsRequest) (queryType : RecordType) : DnsRequest :=
  { req with query := { req.query with queryType := queryType } }

def isDnssec (req : DnsRequest) : Bool :=
  match req.message.extensions with
  | some e => e.dnssecOk
  | none => req.query.queryType.isDnssec

/-- The address a request built from a bare question claims to come from. -/
def localhost : IpAddr := .v4 0x7f000001#32

end DnsRequest

/-! ## Responses -/

/-- A response on its way to the client or into the cache. -/
structure DnsResponse where
  message : Message
  nameServerGroup : Option String
  fromCache : Bool
  deriving DecidableEq

namespace DnsResponse

def newWithDeadline (query : Query) (records : List Record) : DnsResponse where
  message := { (Message.query 0).toResponse.addQuery query with answers := records }
  nameServerGroup := none
  fromCache := false

def newWithMaxTtl (query : Query) (records : List Record) : DnsResponse :=
  newWithDeadline query records

def empty : DnsResponse where
  message := Message.query 0
  nameServerGroup := none
  fromCache := false

def ofMessage (message : Message) : DnsResponse where
  message := message
  nameServerGroup := none
  fromCache := false

def maxTtl : Nat := 86400

def fromRdata (query : Query) (rdata : RData) : DnsResponse :=
  newWithMaxTtl query [Record.fromRdata query.name maxTtl rdata]

def query (r : DnsResponse) : Query := r.message.queries.head?.getD Query.default

def records (r : DnsResponse) : List Record := r.message.answers

/-- `DnsResponse::response_code`, through the message. -/
def responseCode (r : DnsResponse) : ResponseCode := r.message.responseCode

/-- Rewrite the answer section record by record. -/
def mapAnswers (r : DnsResponse) (f : Record → Record) : DnsResponse :=
  { r with message := { r.message with answers := r.message.answers.map f } }

def setMaxTtl (r : DnsResponse) (ttl : Nat) : DnsResponse :=
  r.mapAnswers fun record => record.setMaxTtl ttl

def withNameServerGroup (r : DnsResponse) (group : String) : DnsResponse :=
  { r with nameServerGroup := some group }

def markFromCache (r : DnsResponse) : DnsResponse := { r with fromCache := true }

/-- `Message::add_authority`, on the response's message. -/
def addAuthority (r : DnsResponse) (record : Record) : DnsResponse :=
  { r with message := { r.message with authorities := r.message.authorities ++ [record] } }

/-- `Message::add_query`, on the response's message. -/
def addQuery (r : DnsResponse) (q : Query) : DnsResponse :=
  { r with message := r.message.addQuery q }

/-- `DnsResponse::max_ttl`: the largest TTL of the answers. -/
def maxAnswerTtl (r : DnsResponse) : Option Nat :=
  (r.message.answers.map fun record => record.ttl).max?

/-- The addresses among the answers. -/
def ipAddrs (r : DnsResponse) : List IpAddr := r.message.answers.filterMap fun x => x.rdata.ipAddr

def intoMessage (r : DnsResponse) (header : Option Header) : Message :=
  match header with
  | some h => r.message.setHeader h
  | none => r.message

@[simp] theorem mapAnswers_answers (r : DnsResponse) (f : Record → Record) :
    (r.mapAnswers f).message.answers = r.message.answers.map f := rfl

end DnsResponse

/-! ## Errors -/

/-- A start-of-authority record, typed as the library types it. -/
structure SoaRecord where
  name : Name
  ttl : Nat
  dnsClass : DNSClass
  soa : SOA
  deriving DecidableEq

def SoaRecord.intoRecordOfRdata (r : SoaRecord) : Record := ⟨r.name, r.ttl, r.dnsClass, .SOA r.soa⟩

/-- What a negative upstream answer leaves behind. -/
structure NoRecords where
  query : Query
  soa : Option SoaRecord
  responseCode : ResponseCode
  deriving DecidableEq

/-- The protocol errors the server tells apart. -/
inductive ProtoErrorKind where
  | noConnections
  | timeout
  | noRecordsFound (noRecords : NoRecords)
  | other (text : String)
  deriving DecidableEq

/-- The errors a lookup may end with. -/
inductive DnsError where
  | nameExists
  | responseCode (code : ResponseCode)
  | proto (kind : ProtoErrorKind)
  | io (text : String)
  deriving DecidableEq

def defaultSoa : SOA where
  mname := (Name.ofLabels ["a", "gtld-servers", "net"]).setFqdn false
  rname := (Name.ofLabels ["nstld", "verisign-grs", "com"]).setFqdn false
  serial := 1800
  refresh := 1800
  retry := 900
  expire := 604800
  minimum := 86400

namespace DnsError

def isNxDomain : DnsError → Bool
  | .responseCode .NXDomain => true
  | _ => false

def code? : DnsError → Option ResponseCode
  | .responseCode code => some code
  | _ => none

def isNoConnections : DnsError → Bool
  | .proto .noConnections => true
  | _ => false

/-- `LookupError::as_soa`: an empty answer with the authority's record. -/
def asSoa (e : DnsError) (query : Query) : Option DnsResponse :=
  match e with
  | .proto (.noRecordsFound ⟨_, some record, _⟩) =>
    some ((DnsResponse.newWithMaxTtl query []).addAuthority record.intoRecordOfRdata)
  | _ => none

theorem asSoa_spec {e : DnsError} {query : Query} {r : DnsResponse}
    (h : e.asSoa query = some r) : r.message.queries = [query] ∧ r.message.answers = [] := by
  unfold asSoa at h
  split at h
  · cases h
    exact ⟨rfl, rfl⟩
  · cases h

def noRecordsFound (query : Query) (ttl : Nat) : DnsError :=
  .proto (.noRecordsFound ⟨query, some ⟨query.name, ttl, .IN, defaultSoa⟩, .ServFail⟩)

end DnsError

end SmartDns.Ports.DnsLookup
