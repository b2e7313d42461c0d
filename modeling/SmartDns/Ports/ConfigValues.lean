import Mathlib.Algebra.Group.Nat.Defs
import SmartDns.Verified.Combinators
import SmartDns.Ports.RequestContext
import SmartDns.Ports.RuleSources

/-!
# The values of configuration lines

One parser for each type of value, in the terms of the combinators the source is
written with. A value parser takes what it understands off the front and leaves
the rest of the line, whatever it is, to its caller.

What the source takes from other libraries is `TextLib`: how a name, a wildcard, a
size, a glob pattern or an address of a server or proxy is read, how a name is
written, and which characters are letters or digits.

An option that a parser stores in a variable of its own is an update of a state
here. `options` runs the updates in the order of the line.
-/

namespace SmartDns.Ports.ConfigValues

open Verified Parser DomainName DnsMessage IpNetwork PatternMap RuleTree RuleSources RequestContext

/-- What the parsers take from other libraries. -/
structure TextLib where
  /-- `Name::from_str` and `Display` of a name. -/
  name : List Char → Option Name
  showName : Name → List Char
  /-- Does `WildcardBuilder` take the text? -/
  isWildcard : List Char → Bool
  /-- `char::is_alphanumeric`. -/
  isAlphanumeric : Char → Bool
  /-- `Byte::parse_str`. -/
  byte : List Char → Option Nat
  isPattern : List Char → Bool
  isUrl : List Char → Bool
  /-- Does `DnsUrl::from_str` take the text? -/
  isDnsUrl : List Char → Bool
  isProxy : List Char → Bool

variable (lib : TextLib)

/-! ## Characters -/

def isWhitespace (c : Char) : Bool :=
  let n := c.toNat
  (9 ≤ n && n ≤ 13) || n == 0x20 || n == 0x85 || n == 0xA0 || n == 0x1680 ||
    (0x2000 ≤ n && n ≤ 0x200A) || n == 0x2028 || n == 0x2029 || n == 0x202F || n == 0x205F ||
    n == 0x3000

def trimEnd (s : List Char) : List Char := (s.reverse.dropWhile isWhitespace).reverse

def trim (s : List Char) : List Char := trimEnd (s.dropWhile isWhitespace)

def splitWhitespace (s : List Char) : List (List Char) :=
  (s.splitOnP isWhitespace).filter fun token => !token.isEmpty

/-! ## Basic values -/

def boolean : Parser Bool :=
  alt
    [value true (alt [tagNoCase "True", tagNoCase "T", tagNoCase "Yes", tagNoCase "Y", tag "1"]),
      value false
        (alt [tagNoCase "False", tagNoCase "F", tagNoCase "No", tagNoCase "N", tag "0"])]

def u8 : Parser Nat := uint (2 ^ 8)

def u16 : Parser Nat := uint (2 ^ 16)

def u64 : Parser Nat := uint (2 ^ 64)

def usize : Parser Nat := u64

def string : Parser String := String.ofList <$> isNot " \t\r\n"

/-- The text of a path in quotes, of a Unix path or of a Windows path. -/
def pathText : Parser (List Char) :=
  alt
    [delimited (char '"') (isNot "\"") (char '"'),
      recognize (do
        let _ ← opt (char '/')
        let _ ← separatedList1 (char '/')
          (escaped (fun c => decide (c ∉ "\n \t\\".toList)) '\\' fun c => decide (c ∈ " \\".toList))
        opt (char '/')),
      recognize (do
        let _ ← opt (pair alpha1 (tag ":\\"))
        let _ ← separatedList1 (char '\\') (isNot "\\")
        opt (char '\\'))]

def pathBuf : Parser String := String.ofList <$> pathText

def pattern : Parser String :=
  mapRes (fun s => if lib.isPattern s then some (String.ofList s) else none) pathText

/-- `Byte::parse`. -/
def bytes : Parser Nat :=
  mapRes lib.byte (recognize (do
    let _ ← recognize (pair digit1 (opt (pair (char '.') digit1)))
    let _ ← space0
    alpha1))

/-- `FileMode::from_str`: an octal number, with `0o` or `o` in front of it or without. -/
def fileModeFromStr (s : List Char) : Option Nat :=
  let s := trim s
  let s := if "0o".toList.isPrefixOf s then s.drop 2 else s
  let s := if "o".toList.isPrefixOf s then s.drop 1 else s
  if s.isEmpty || s.any (fun c => !('0' ≤ c && c ≤ '7')) then none
  else if digitsValue 8 s < 2 ^ 32 then some (digitsValue 8 s) else none

def fileMode : Parser Nat := mapRes fileModeFromStr (isA "0o1234567")

inductive Level where
  | TRACE
  | DEBUG
  | INFO
  | WARN
  | ERROR

def logLevel : Parser Level :=
  alt
    [value .TRACE (tagNoCase "trace"), value .DEBUG (tagNoCase "debug"),
      value .INFO (alt [tagNoCase "info", tagNoCase "notice"]), value .WARN (tagNoCase "warn"),
      value .ERROR (alt [tagNoCase "error", tagNoCase "fatal"])]

/-! ## Addresses -/

def ipv4 : Parser (BitVec 32) := do
  let a ← u8
  let b ← preceded (char '.') u8
  let c ← preceded (char '.') u8
  let d ← preceded (char '.') u8
  pure (BitVec.ofNat 32 (((a * 256 + b) * 256 + c) * 256 + d))

/-- A group of up to four hexadecimal digits. -/
def hextet : Parser Nat :=
  digitsValue 16 <$> verify (fun s => !s.isEmpty && s.length ≤ 4) hexDigit1

/-- The eight groups of an address: those before the gap from the left, those after it from the
right, over the others if they meet. -/
def fillGroups (pre post : List Nat) : List Nat :=
  (pre ++ List.replicate (8 - pre.length) 0).take (8 - post.length) ++ post

/-- Groups, perhaps around a gap. -/
def gappedGroups : Parser (List Nat × Option (List Char) × List Nat) := do
  let pre ← separatedList0 (char ':') hextet
  let gap ← opt (tag "::")
  let post ← separatedList0 (char ':') hextet
  pure (pre, gap, post)

def ipv6 : Parser (BitVec 128) :=
  alt
    [(fun ip => BitVec.ofNat 128 (0xffff * 2 ^ 32 + ip.toNat)) <$> preceded (tag "::ffff:") ipv4,
      mapRes
        (fun x : List Nat × Option (List Char) × List Nat =>
          -- more than eight groups after the gap would be an index out of bounds
          if (x.1.length == 8 || x.2.1.isSome && x.1.length + x.2.2.length < 8) &&
              x.2.2.length ≤ 8 then
            some (BitVec.ofNat 128 ((fillGroups x.1 x.2.2).foldl (fun n g => n * 2 ^ 16 + g) 0))
          else none)
        gappedGroups]

def ip : Parser IpAddr := alt [.v4 <$> ipv4, .v6 <$> ipv6]

/-- A comma, with blanks around it. -/
def comma : Parser Char := delimited space0 (char ',') space0

def ipNet : Parser IpNet :=
  mapRes
    (fun x : IpAddr × Option Nat =>
      match x.1 with
      | .v4 addr => (Cidr.new addr (x.2.getD 32)).map .v4
      | .v6 addr => (Cidr.new addr (x.2.getD 128)).map .v6)
    (pair ip (opt (preceded (char '/') u8)))

def ipv6Net : Parser (Cidr 128) :=
  mapRes (fun x : BitVec 128 × Nat => Cidr.new x.1 x.2) (pair ipv6 (preceded (tag "/") u8))

inductive IpOrSet where
  | Net (net : IpNet)
  | Set (name : String)

def ipOrSet : Parser IpOrSet :=
  alt [.Set <$> preceded (tagNoCase "ip-set:") string, .Net <$> ipNet]

structure IpAlias where
  ip : IpOrSet
  addrs : List IpAddr

def ipAlias : Parser IpAlias := do
  let target ← ipOrSet
  let _ ← space1
  let addrs ← separatedList1 comma ip
  pure ⟨target, addrs⟩

def macAddr : Parser (List Char) :=
  recognize (verify (fun parts => parts.length == 6)
    (separatedList1 (char ':') (verify (fun s => s.length == 2) (takeWhileMN 2 2 isHexDigit))))

def client : Parser Client :=
  alt [.IpAddr <$> ipNet, (fun mac => .MacAddr (String.ofList mac)) <$> macAddr]

/-! ## Domains -/

def name : Parser Name := mapRes lib.name (isNot " \n\t\\/|\"#',!+<>")

def Wildcard.fromStr (s : List Char) : Option Wildcard :=
  if lib.isWildcard s then some ⟨s.flatMap String.utf8EncodeChar⟩ else none

/-- The pattern of a name without a mark. -/
def patternOfName (n : Name) : WildcardName :=
  if n.isWildcard then .Sub ⟨[]⟩ n.baseName else if n.isRoot then .Suffix n else .Default n

def wildcardName : Parser WildcardName :=
  alt
    [(do
        let w ← mapRes (Wildcard.fromStr lib)
          (terminated (verify (fun w => !w.isEmpty && w.contains '*') (isNot ".")) (char '.'))
        let n ← name lib
        pure (.Sub w n)),
      .Full <$> preceded (pair (char '-') (char '.')) (name lib),
      .Suffix <$> preceded (pair (opt (char '+')) (char '.')) (name lib),
      patternOfName <$> name lib,
      value (.Suffix .root) (pair (char '+') (opt (char '.')))]

def domain : Parser Domain :=
  alt
    [(fun set => .Set (String.ofList set)) <$>
        preceded (tagNoCase "domain-set:") (takeTill1 (· == '/')),
      .Name <$> wildcardName lib]

/-- A domain between slashes. -/
def slashed : Parser Domain := delimited (char '/') (domain lib) (char '/')

/-- A value for a domain, or for all domains if none is given. -/
def configForDomain {α : Type} (config : Parser α) : Parser (ConfigForDomain α) := do
  let target ← opt (slashed lib)
  let value ← preceded space0 config
  pure ⟨target.getD (.Name (.Default .root)), value⟩

def asIpv4 : IpAddr → Option (BitVec 32)
  | .v4 addr => some addr
  | .v6 _ => none

def asIpv6 : IpAddr → Option (BitVec 128)
  | .v4 _ => none
  | .v6 addr => some addr

/-- The value of a list of addresses, by family. -/
def addressesValue (ips : List IpAddr) : AddressRuleValue :=
  let v4 := ips.filterMap asIpv4
  let v6 := ips.filterMap asIpv6
  .Addr (if v4.isEmpty then none else some v4) (if v6.isEmpty then none else some v6)

def addressRuleValue : Parser AddressRuleValue :=
  alt
    [value .SOAv4 (tag "#4"), value .SOAv6 (tag "#6"), value .SOA (char '#'),
      value .IGNv4 (tag "-4"), value .IGNv6 (tag "-6"), value .IGN (tag "-"),
      addressesValue <$> separatedList1 comma ip]

abbrev AddressRule := ConfigForDomain AddressRuleValue

def addressRule : Parser AddressRule := do
  let target ← slashed lib
  let address ← addressRuleValue
  pure ⟨target, address⟩

def forwardRule : Parser (ConfigForDomain String) := do
  let target ← slashed lib
  let server ← string
  pure ⟨target, server⟩

def cnameRule : Parser CNameRule := alt [value .Ignore (char '-'), .Value <$> name lib]

def localDomain : Parser (Option Name) := alt [value none (char '-'), some <$> name lib]

/-! ## Records -/

structure SRV where
  priority : Nat
  weight : Nat
  port : Nat
  target : Name

def srv : Parser SRV := do
  let target ← name lib
  let port ← preceded comma u16
  let priority ← preceded comma u16
  let weight ← preceded comma u16
  pure ⟨priority, weight, port, target⟩

def txtRecord : Parser String :=
  (fun s => String.ofList (trim s)) <$> verify (fun s => !(trim s).isEmpty) rest

inductive SvcParam where
  | alpn (names : List String)
  | port (port : Nat)
  | ipv4Hint (addrs : List (BitVec 32))
  | ipv6Hint (addrs : List (BitVec 128))
  | ech (config : String)

structure SvcbText where
  svcPriority : Nat
  targetName : Name
  svcParams : List SvcParam

/-- The name of a parameter, up to its value. -/
def paramKey (key : String) : Parser (List Char) :=
  terminated (tagNoCase key) (delimited space0 (char '=') space0)

/-- A list with blanks around its elements. -/
def spacedList {α : Type} (p : Parser α) : Parser (List α) :=
  separatedList1 (char ',') (delimited space0 p space0)

def quoted {α : Type} (p : Parser α) : Parser α := delimited (char '"') p (char '"')

def svcParam : Parser SvcParam :=
  alt
    [(fun names => .alpn (names.map String.ofList)) <$>
        preceded (paramKey "alpn") (quoted (spacedList
          (takeWhile1 fun c => c != ',' && c != '"' && !isWhitespace c))),
      .port <$> preceded (paramKey "port") u16,
      .ipv4Hint <$> preceded (paramKey "ipv4hint")
        (alt [quoted (spacedList ipv4), spacedList ipv4]),
      .ipv6Hint <$> preceded (paramKey "ipv6hint")
        (alt [quoted (spacedList ipv6), spacedList ipv6]),
      (fun text => .ech (String.ofList text)) <$>
        preceded (paramKey "ech") (quoted (isNot "\""))]

def svcb : Parser SvcbText :=
  (fun updates => updates.foldl (fun s update => update s) ⟨0, .root, []⟩) <$>
    separatedList0 (char ',') (delimited space0
      (alt
        [(fun param s => { s with svcParams := s.svcParams ++ [param] }) <$> svcParam,
          (fun target s => { s with targetName := target }) <$>
            preceded (paramKey "target") (name lib),
          (fun priority s => { s with svcPriority := priority }) <$>
            preceded (paramKey "priority") u16,
          value id space0])
      space0)

inductive HttpsRecordText where
  | SOA
  | Ignore
  | Filter (noIpv4Hint noIpv6Hint : Bool)
  | RecordData (svcb : SvcbText)

def httpsRecordRule : Parser HttpsRecordText :=
  alt
    [value .SOA (char '#'), value .Ignore (char '-'),
      (fun hints => .Filter (hints.contains 4) (hints.contains 6)) <$>
        spacedList (alt [value 4 (tagNoCase "noipv4hint"), value 6 (tagNoCase "noipv6hint")]),
      .RecordData <$> svcb lib]

/-! ## Options -/

/-- One dash or two. -/
def dashes : Parser (List Char) := takeWhileMN 1 2 (· == '-')

/-- What stands between an option and its value. -/
def optionSign : Parser (List Char) := alt [tag "=", recognize (pair (opt (char ':')) space1)]

def parseValue {α : Type} (key : Parser (List Char)) (p : Parser α) : Parser α := do
  let _ ← dashes
  let _ ← key
  let _ ← optionSign
  p

def parseFlag (key : Parser (List Char)) : Parser Bool := value true (preceded dashes key)

def unknownValue : Parser (List Char) :=
  preceded optionSign (recognize (pair (isNot "-_ \t#") (takeTill isWhitespace)))

def unknownOption : Parser (List Char × Option (List Char)) :=
  pair
    (preceded dashes
      (recognize (pair alpha1 (takeWhile fun c => c == '-' || lib.isAlphanumeric c))))
    (opt unknownValue)

/-- The options of a server or a listener, by name. -/
def optionList : Parser (List (String × Option String)) :=
  List.map (fun x => (String.ofList x.1, x.2.map String.ofList)) <$>
    separatedList0 space1 (unknownOption lib)

/-- Options that update a state, with blanks between them. -/
def options {σ : Type} (init : σ) (one : Parser (σ → σ)) : Parser σ :=
  (fun updates => updates.foldl (fun s update => update s) init) <$> separatedList1 space1 one

def clientRule : Parser ClientRule := do
  let who ← client
  let group ← opt (preceded space1 (options ""
    ((fun group _ => group) <$> parseValue (alt [tagNoCase "group", tag "g"]) string)))
  pure ⟨who, group.getD ""⟩

def ipRule : Parser IpRule := do
  let net ← ipNet
  let flags ← many0 (preceded space1 (alt
    [value (fun rule : IpRule => { rule with blacklist := true }) (tagNoCase "-blacklist-ip"),
      value (fun rule : IpRule => { rule with whitelist := true }) (tagNoCase "-whitelist-ip"),
      value (fun rule : IpRule => { rule with bogusNxdomain := true })
        (tagNoCase "-bogus-nxdomain"),
      value (fun rule : IpRule => { rule with ignore := true }) (tagNoCase "-ignore-ip")]))
  pure (flags.foldl (fun rule flag => flag rule) ⟨net, false, false, false, false⟩)

structure IpSetProvider where
  name : String
  file : String

def ipSetProvider : Parser IpSetProvider :=
  mapRes
    (fun x : Option String × Option String =>
      match x with
      | (some name, some file) => some ⟨name, file⟩
      | _ => none)
    (options (none, none) (alt
      [(fun name s => (some name, s.2)) <$>
          parseValue (alt [tagNoCase "name", tagNoCase "n"]) string,
        (fun file s => (s.1, some file)) <$>
          parseValue (alt [tagNoCase "file", tagNoCase "f"]) pathBuf,
        value id (parseValue (alt [tagNoCase "type", tagNoCase "t"]) (tagNoCase "list"))]))

/-- Where the names of a domain set come from; the only type of content is a list. -/
inductive DomainSetProvider where
  | File (name : String) (file : String)
  | Http (name : String) (url : String) (interval : Option Nat)

def domainSetFileProvider : Parser DomainSetProvider :=
  mapRes
    (fun x : Option String × Option String =>
      match x with
      | (some name, some file) => some (.File name file)
      | _ => none)
    (options (none, none) (alt
      [(fun name s => (some name, s.2)) <$>
          parseValue (alt [tagNoCase "name", tagNoCase "n"]) string,
        (fun file s => (s.1, some file)) <$>
          parseValue (alt [tagNoCase "file", tagNoCase "f"]) pathBuf,
        value id (parseValue (alt [tagNoCase "type", tagNoCase "t"]) (tagNoCase "list"))]))

def domainSetHttpProvider : Parser DomainSetProvider :=
  mapRes
    (fun x : Option String × Option String × Option Nat =>
      match x with
      | (some name, some url, interval) => some (.Http name url interval)
      | _ => none)
    (options (none, none, none) (alt
      [(fun name s => (some name, s.2)) <$>
          parseValue (alt [tagNoCase "name", tagNoCase "n"]) string,
        (fun url s => (s.1, some url, s.2.2)) <$>
          parseValue (alt [tagNoCase "url", tagNoCase "u"])
            (mapRes (fun s => if lib.isUrl s then some (String.ofList s) else none)
              (isNot " \t\r\n")),
        (fun interval s => (s.1, s.2.1, some interval)) <$>
          parseValue (alt [tagNoCase "interval", tagNoCase "i"]) usize,
        value id (parseValue (alt [tagNoCase "type", tagNoCase "t"]) (tagNoCase "list"))]))

def domainSetProvider : Parser DomainSetProvider :=
  alt [domainSetFileProvider, domainSetHttpProvider lib]

structure NamedProxyConfig where
  name : String
  config : String

def namedProxyConfig : Parser NamedProxyConfig :=
  mapRes
    (fun x : Option String × Option String =>
      match x with
      | (some name, some config) => some ⟨name, config⟩
      | _ => none)
    (options (none, none) (alt
      [(fun name s => (some name, s.2)) <$>
          parseValue (alt [tagNoCase "name", tagNoCase "n"]) string,
        (fun config s => (s.1, some config)) <$>
          mapRes (fun s => if lib.isProxy s then some (String.ofList s) else none)
            (isNot " \t\r\n")]))

/-! ## Lookup rules -/

def responseMode : Parser ResponseMode :=
  alt
    [value .FirstPing (tagNoCase "first-ping"), value .FastestIp (tagNoCase "fastest-ip"),
      value .FastestResponse (tagNoCase "fastest-response")]

def speedCheckMode : Parser SpeedCheckMode :=
  alt
    [value .None (tagNoCase "none"), value .Ping (tagNoCase "ping"),
      .Tcp <$> preceded (tagNoCase "tcp") (preceded (char ':') u16),
      (fun port => .Https (port.getD 443)) <$>
        preceded (tagNoCase "https") (opt (preceded (char ':') u16)),
      (fun port => .Http (port.getD 80)) <$>
        preceded (tagNoCase "http") (opt (preceded (char ':') u16))]

def speedCheckModeList : Parser (List SpeedCheckMode) := separatedList1 comma speedCheckMode

def speedMode : Parser (Option (List SpeedCheckMode)) :=
  alt [value none (tagNoCase "none"), some <$> speedCheckModeList]

/-- `ClientSubnet::from`. -/
def subnetOfNet : IpNet → ClientSubnet
  | .v4 net => ⟨.v4 net.addr, net.prefixLen, 0⟩
  | .v6 net => ⟨.v6 net.addr, net.prefixLen, 0⟩

/-- `DomainRule::parse`; an unknown option is logged and otherwise ignored. -/
def domainRule : Parser DomainRule :=
  options .default (alt
    [(fun v rule => { rule with speedCheckMode := some (rule.speedCheckMode.getD [] ++ v) }) <$>
        parseValue (alt [tag "speed-check-mode", tag "c"]) speedCheckModeList,
      (fun v rule => { rule with address := some v }) <$>
        parseValue (alt [tagNoCase "address", tag "a"]) addressRuleValue,
      (fun v rule => { rule with nameserver := some (String.ofList v) }) <$>
        parseValue (alt [tagNoCase "nameserver", tag "n"]) alphanumeric1,
      (fun v rule => { rule with dualstackIpSelection := some v }) <$>
        parseFlag (alt [tagNoCase "dualstack-ip-selection", tag "d"]),
      (fun v rule => { rule with cname := some v }) <$>
        parseValue (tagNoCase "cname") (cnameRule lib),
      (fun v rule => { rule with subnet := some (subnetOfNet v) }) <$>
        parseValue (tagNoCase "subnet") ipNet,
      (fun v rule => { rule with noCache := some v }) <$> parseFlag (tagNoCase "no-cache"),
      (fun v rule => { rule with noServeExpired := some v }) <$>
        parseFlag (tagNoCase "no-serve-expired"),
      (fun v rule => { rule with responseMode := some v }) <$>
        parseValue (alt [tagNoCase "response-mode", tag "r"]) responseMode,
      (fun v rule => { rule with rrTtlMin := some v }) <$>
        parseValue (tagNoCase "rr-ttl-min") u64,
      (fun v rule => { rule with rrTtlMax := some v }) <$>
        parseValue (tagNoCase "rr-ttl-max") u64,
      (fun v rule => { rule with rrTtl := some v }) <$> parseValue (tagNoCase "rr-ttl") u64,
      value id (unknownOption lib)])

/-! ## Sets of the packet filter -/

def ipSetName : Parser String := String.ofList <$> takeWhile1 fun c => !isWhitespace c

def sanList : Parser (List String) :=
  (fun s => (s.splitOn ',').map trim |>.filter (fun part => !part.isEmpty) |>.map fun part =>
    String.ofList (part.reverse.dropWhile (· == '.')).reverse) <$>
    takeWhile1 fun c => !isWhitespace c

inductive NftFamily where
  | inet
  | ip6
  | ip
  deriving DecidableEq

structure NFTsetConfig where
  family : NftFamily
  table : String
  name : String

inductive ConfigForIP where
  | V4 (config : NFTsetConfig)
  | V6 (config : NFTsetConfig)
  | None

def nftsetConfig : Parser NFTsetConfig := do
  let family ← alt [value .inet (tag "inet"), value .ip6 (tag "ip6"), value .ip (tag "ip")]
  let table ← preceded (char '#') (takeWhile1 fun c => c.isAlphanum || c == '_')
  let name ← preceded (char '#') (takeWhile1 fun c => c.isAlphanum || c == '_')
  pure ⟨family, String.ofList table, String.ofList name⟩

def configForIP : Parser ConfigForIP :=
  alt
    [value .None (char '-'),
      .V4 <$> preceded (tag "#4:")
        (verify (fun x => decide (x.family = .inet ∨ x.family = .ip)) nftsetConfig),
      .V6 <$> preceded (tag "#6:")
        (verify (fun x => decide (x.family = .inet ∨ x.family = .ip6)) nftsetConfig)]

def nftsets : Parser (List ConfigForIP) := separatedList1 comma configForIP

def nftSetList : Parser (List ConfigForIP) := separatedList1 space1 configForIP

/-! ## Groups -/

structure GroupMatch where
  group : String
  domains : List Domain
  clients : List Client

/-- The pairs of a `group-match` line. -/
def groupMatchPairs : List (List Char) → Option String × List Domain × List Client →
    Option (Option String × List Domain × List Client)
  | [], s => some s
  | [_], _ => none
  | key :: value :: tokens, s =>
    if key ∈ ["-g".toList, "--group".toList, "-group".toList] then
      groupMatchPairs tokens (some (String.ofList value), s.2)
    else if key ∈ ["-d".toList, "--domain".toList, "-domain".toList] then
      match (domain lib).run value with
      | some (target, _) => groupMatchPairs tokens (s.1, s.2.1 ++ [target], s.2.2)
      | none => none
    else if key ∈ ["-c".toList, "--client-ip".toList, "-client-ip".toList] then
      match client.run value with
      | some (who, _) => groupMatchPairs tokens (s.1, s.2.1, s.2.2 ++ [who])
      | none => none
    else none

/-- `GroupMatch::parse` reads all that is left. -/
def groupMatch : Parser GroupMatch :=
  mapRes
    (fun text =>
      match groupMatchPairs lib (splitWhitespace text) (none, [], []) with
      | some (some group, domains, clients) =>
        if domains.isEmpty && clients.isEmpty then none else some ⟨group, domains, clients⟩
      | _ => none)
    rest

/-! ## Listeners and servers -/

inductive BindProtocol where
  | Udp
  | Tcp
  | Tls
  | Http
  | Https
  | Quic
  | H3

inductive BindAddr where
  | Localhost
  | All
  | V4 (addr : BitVec 32)
  | V6 (addr : BitVec 128)

structure BindAddrConfig where
  proto : BindProtocol
  addr : BindAddr
  port : Nat
  device : Option String
  options : List (String × Option String)

def bindAddr : Parser BindAddr :=
  alt
    [alt
      [value .Localhost (tagNoCase "localhost"), .V4 <$> ipv4,
        .V6 <$> delimited (char '[') ipv6 (char ']')],
      value .All (char '*')]

def bindProtocol : Parser BindProtocol :=
  alt
    [value .Tcp (tagNoCase "bind-tcp"), value .Tls (tagNoCase "bind-tls"),
      value .Quic (tagNoCase "bind-quic"), value .Https (tagNoCase "bind-https"),
      value .Http (tagNoCase "bind-http"), value .H3 (tagNoCase "bind-h3"),
      value .Udp (tagNoCase "bind-udp"), value .Udp (tagNoCase "bind")]

def bindAddrConfig : Parser BindAddrConfig := do
  let proto ← preceded space0 bindProtocol
  let addr ← preceded space1 (opt bindAddr)
  let port ← preceded (char ':') u16
  let device ← opt (preceded (char '@') (takeTill isWhitespace))
  let options ← opt (preceded space1 (optionList lib))
  pure ⟨proto, addr.getD (.V4 0), port, device.map String.ofList, options.getD []⟩

structure NameServerInfo where
  server : String
  options : List (String × Option String)

/-- The part of a text before the first `://`, and the part after it. -/
def splitScheme : List Char → Option (List Char × List Char)
  | [] => none
  | c :: s =>
    if "://".toList.isPrefixOf (c :: s) then some ([], s.drop 2)
    else (splitScheme s).map fun x => (c :: x.1, x.2)

/-- The address of a server; a bare IPv6 address gets its brackets. -/
def serverUrl (defaultProto : String) (url : List Char) : Option String :=
  let parts :=
    match splitScheme url with
    | some parts => some parts
    | none =>
      if url = "system".toList ∨ url = "dhcp".toList then none
      else some (defaultProto.toList, url)
  match parts with
  | none => if lib.isDnsUrl url then some (String.ofList url) else none
  | some (proto, host) =>
    let plain := proto ++ "://".toList ++ host
    let bracketed := proto ++ "://[".toList ++ host ++ "]".toList
    if lib.isDnsUrl plain then some (String.ofList plain)
    else if lib.isDnsUrl bracketed then some (String.ofList bracketed)
    else none

/-- A keyword for servers, with its default protocol. -/
def serverLine (keyword defaultProto : String) : Parser String :=
  preceded (tagNoCase keyword) (preceded space1
    (mapRes (serverUrl lib defaultProto) (takeTill1 isWhitespace)))

def nameServerInfo : Parser NameServerInfo := do
  let server ← alt
    [serverLine lib "server-udp" "udp", serverLine lib "server-tcp" "tcp",
      serverLine lib "server-tls" "tls", serverLine lib "server-https" "https",
      serverLine lib "server-h3" "h3", serverLine lib "server-http3" "h3",
      serverLine lib "server-quic" "quic", serverLine lib "server" "udp"]
  let options ← opt (preceded space1 (optionList lib))
  pure ⟨server, options.getD []⟩

end SmartDns.Ports.ConfigValues
