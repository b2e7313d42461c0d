import SmartDns.Ports.DomainName

/-!
# DNS messages

The wire-level vocabulary that the server passes around: addresses, record
types, records, questions, headers and messages, together with the two
wrappers of the source, `DnsRequest` and `DnsResponse`, and its error type.

Identity (`=`) of a message is what a client can observe. Questions also carry
the library's coarser `==`, which ignores the letter case of the name; this is
the equality the cache is keyed by.

Only the data that the modelled functions read or return is present. Instants
and durations are natural numbers of nanoseconds, TTLs are seconds.
-/

namespace SmartDns.Ports.DnsMessage

open DomainName

/-! ## Addresses, types and records -/

/-- An IP address of either family. -/
inductive IpAddr where
  | v4 (addr : BitVec 32)
  | v6 (addr : BitVec 128)
  deriving DecidableEq

/-- The record types the server distinguishes; the rest by their code. -/
inductive RecordType where
  | A
  | AAAA
  | CNAME
  | PTR
  | SOA
  | TXT
  | SRV
  | HTTPS
  | ANY
  | other (code : Nat)
  deriving DecidableEq

def RecordType.isIpAddr : RecordType → Bool
  | .A => true
  | .AAAA => true
  | _ => false

/-- `RecordType::is_dnssec`, by the codes of the DNSSEC record types. -/
def RecordType.isDnssec : RecordType → Bool
  | .other code => [24, 25, 43, 46, 47, 48, 50, 51, 59, 60, 250].contains code
  | _ => false

/-- The classes of records and questions. -/
inductive DNSClass where
  | IN
  | CH
  | HS
  | NONE
  | ANY
  | other (code : Nat)
  deriving DecidableEq

/-- The data of a start-of-authority record. -/
structure SOA where
  mname : Name
  rname : Name
  serial : Nat
  refresh : Nat
  retry : Nat
  expire : Nat
  minimum : Nat
  deriving DecidableEq

/-- The data of a service-binding record; parameters go by their key's code. -/
structure SVCB where
  svcPriority : Nat
  targetName : Name
  svcParams : List (Nat × List UInt8)
  deriving DecidableEq

/-- Record data. Types no modelled function looks into stay opaque bytes. -/
inductive RData where
  | A (addr : BitVec 32)
  | AAAA (addr : BitVec 128)
  | CNAME (name : Name)
  | PTR (name : Name)
  | SOA (soa : SOA)
  | TXT (data : List UInt8)
  | SRV (data : List UInt8)
  | HTTPS (svcb : SVCB)
  | other (code : Nat) (data : List UInt8)
  deriving DecidableEq

def RData.recordType : RData → RecordType
  | .A _ => .A
  | .AAAA _ => .AAAA
  | .CNAME _ => .CNAME
  | .PTR _ => .PTR
  | .SOA _ => .SOA
  | .TXT _ => .TXT
  | .SRV _ => .SRV
  | .HTTPS _ => .HTTPS
  | .other code _ => .other code

def RData.ipAddr : RData → Option IpAddr
  | .A addr => some (.v4 addr)
  | .AAAA addr => some (.v6 addr)
  | _ => none

/-- An IPv4 address embedded in IPv6, as `::ffff:a.b.c.d`. -/
def toIpv6Mapped (addr : BitVec 32) : BitVec 128 := 0xffff#96 ++ addr

def toIpv4Mapped (addr : BitVec 128) : Option (BitVec 32) :=
  if addr.extractLsb' 32 96 = 0xffff#96 then some (addr.extractLsb' 0 32) else none

/-- `IpAddr` as record data. -/
def IpAddr.toRData : IpAddr → RData
  | .v4 addr => .A addr
  | .v6 addr => .AAAA addr

/-- One resource record. -/
structure Record where
  name : Name
  ttl : Nat
  dnsClass : DNSClass
  rdata : RData
  deriving DecidableEq

namespace Record

def recordType (r : Record) : RecordType := r.rdata.recordType

def fromRdata (name : Name) (ttl : Nat) (rdata : RData) : Record := ⟨name, ttl, .IN, rdata⟩

def setMaxTtl (r : Record) (ttl : Nat) : Record :=
  if r.ttl > ttl then { r with ttl := ttl } else r

def setMinTtl (r : Record) (ttl : Nat) : Record :=
  if r.ttl < ttl then { r with ttl := ttl } else r

def setName (r : Record) (name : Name) : Record := { r with name := name }

/-- Bounding the TTL changes nothing else. -/
@[simp] theorem setMaxTtl_eq (r : Record) (ttl : Nat) :
    r.setMaxTtl ttl = { r with ttl := min r.ttl ttl } := by
  unfold setMaxTtl
  split
  · rw [Nat.min_eq_right (by omega)]
  · rw [Nat.min_eq_left (by omega)]

@[simp] theorem setMinTtl_eq (r : Record) (ttl : Nat) :
    r.setMinTtl ttl = { r with ttl := max r.ttl ttl } := by
  unfold setMinTtl
  split
  · rw [Nat.max_eq_right (by omega)]
  · rw [Nat.max_eq_left (by omega)]

end Record

/-! ## Questions -/

/-- One question of a message. -/
structure Query where
  name : Name
  queryType : RecordType
  queryClass : DNSClass
  deriving DecidableEq

namespace Query

def query (name : Name) (queryType : RecordType) : Query := ⟨name, queryType, .IN⟩

def default : Query := ⟨Name.root, .A, .IN⟩

/-- `PartialEq` of questions: the name is compared without its letter case. -/
instance : BEq Query :=
  ⟨fun a b => a.name == b.name && decide (a.queryType = b.queryType) &&
    decide (a.queryClass = b.queryClass)⟩

/-- The canonical representative of a question under `==`. -/
def key (q : Query) : Query := { q with name := q.name.toLowercase }

theorem beq_iff_key {a b : Query} : (a == b) = true ↔ a.key = b.key := by
  show (a.name == b.name && decide (a.queryType = b.queryType) &&
    decide (a.queryClass = b.queryClass)) = true ↔ _
  simp [key, Name.beq_iff_toLowercase, and_assoc]

instance : EquivBEq Query where
  rfl := beq_iff_key.mpr rfl
  symm h := beq_iff_key.mpr (beq_iff_key.mp h).symm
  trans h h' := beq_iff_key.mpr ((beq_iff_key.mp h).trans (beq_iff_key.mp h'))

end Query

/-! ## Messages -/

/-- Response codes. -/
inductive ResponseCode where
  | NoError
  | FormErr
  | ServFail
  | NXDomain
  | NotImp
  | Refused
  | other (code : Nat)
  deriving DecidableEq

/-- Operation codes. -/
inductive OpCode where
  | Query
  | Status
  | Notify
  | Update
  | Unknown (code : Nat)
  deriving DecidableEq

/-- Whether a message asks or answers. -/
inductive MessageType where
  | Query
  | Response
  deriving DecidableEq

/-- A message header without its section counts, which encoding derives. -/
structure Header where
  id : Nat
  messageType : MessageType
  opCode : OpCode
  authoritative : Bool
  truncated : Bool
  recursionDesired : Bool
  recursionAvailable : Bool
  authenticData : Bool
  checkingDisabled : Bool
  responseCode : ResponseCode
  deriving DecidableEq

def Header.responseFromRequest (h : Header) : Header where
  id := h.id
  messageType := .Response
  opCode := h.opCode
  authoritative := false
  truncated := false
  recursionDesired := h.recursionDesired
  recursionAvailable := false
  authenticData := false
  checkingDisabled := h.checkingDisabled
  responseCode := .NoError

/-- An EDNS client-subnet option as it stands in a request. -/
structure ClientSubnet where
  addr : IpAddr
  sourcePrefix : Nat
  scopePrefix : Nat
  deriving DecidableEq

/-- The EDNS pseudo-record: the DNSSEC flag and the client-subnet option. -/
structure Edns where
  dnssecOk : Bool
  subnet : Option ClientSubnet
  deriving DecidableEq

/-- A DNS message. -/
structure Message where
  header : Header
  queries : List Query
  answers : List Record
  authorities : List Record
  additionals : List Record
  extensions : Option Edns
  deriving DecidableEq

namespace Message

/-- `Message::query`, under the identifier the library draws for it. -/
def query (id : Nat) : Message where
  header :=
    { id := id, messageType := .Query, opCode := .Query, authoritative := false,
      truncated := false, recursionDesired := false, recursionAvailable := false,
      authenticData := false, checkingDisabled := false, responseCode := .NoError }
  queries := []
  answers := []
  authorities := []
  additionals := []
  extensions := none

/-- `Message::to_response`: the same identifier and questions, as an answer. -/
def toResponse (m : Message) : Message where
  header := m.header.responseFromRequest
  queries := m.queries
  answers := []
  authorities := []
  additionals := []
  extensions := none

def setHeader (m : Message) (h : Header) : Message := { m with header := h }

def setResponseCode (m : Message) (code : ResponseCode) : Message :=
  { m with header := { m.header with responseCode := code } }

def addQuery (m : Message) (q : Query) : Message := { m with queries := m.queries ++ [q] }

def responseCode (m : Message) : ResponseCode := m.header.responseCode

end Message

end SmartDns.Ports.DnsMessage
