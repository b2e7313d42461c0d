import SmartDns.Ports.ConfigValues

/-!
# Lines and files of a configuration

A line is a directive with an optional comment, a comment, or empty. A directive
is a keyword in any letter case, blanks and a value. The keywords are tried in a
fixed order, and the first whose keyword and value are found decides, whatever
the line goes on with: `cache-size 512kb` is `cache-size 512`, with `kb` left.

If nothing else fits, the line counts as empty, and all of it but the leading
blanks is left. So the parser of a line always succeeds.

A file is parsed as lines with line endings between them, and printed line by
line. What an item other than an address or forward rule prints as is a parameter.
-/

namespace SmartDns.Ports.ConfigText

open Verified Parser DnsMessage IpNetwork PatternMap RuleTree RuleSources RequestContext
  ConfigValues

/-! ## Directives -/

/-- What a line of a configuration says. -/
inductive ConfigItem where
  | Address (rule : AddressRule)
  | AuditEnable (enabled : Bool)
  | AuditFile (path : String)
  | AuditFileMode (value : Nat)
  | AuditNum (value : Nat)
  | AuditSize (value : Nat)
  | BindCertFile (path : String)
  | BindCertKeyFile (path : String)
  | BindCertKeyPass (text : String)
  | BlacklistIp (addrs : IpOrSet)
  | BogusNxDomain (addrs : IpOrSet)
  | CacheFile (path : String)
  | CachePersist (enabled : Bool)
  | CacheSize (value : Nat)
  | CacheMemSize (value : Nat)
  | CacheCheckpointTime (value : Nat)
  | CaFile (path : String)
  | CaPath (path : String)
  | ClientRule (rule : RequestContext.ClientRule)
  | CNAME (rule : ConfigForDomain CNameRule)
  | SrvRecord (rule : ConfigForDomain SRV)
  | TxtRecord (rule : ConfigForDomain String)
  | GroupBegin (text : String)
  | GroupEnd
  | HttpsRecord (rule : ConfigForDomain HttpsRecordText)
  | ConfFile (path : String)
  | DnsmasqLeaseFile (path : String)
  | Dns64 (net : Cidr 128)
  | Domain (name : DomainName.Name)
  | DomainRule (rule : ConfigForDomain RuleTree.DomainRule)
  | DomainSetProvider (provider : ConfigValues.DomainSetProvider)
  | DualstackIpAllowForceAAAA (enabled : Bool)
  | DualstackIpSelection (enabled : Bool)
  | DualstackIpSelectionThreshold (value : Nat)
  | EdnsClientSubnet (net : IpNet)
  | ExpandPtrFromAddress (enabled : Bool)
  | ForceAAAASOA (enabled : Bool)
  | ForceHTTPSSOA (enabled : Bool)
  | ForceNoCNAME (enabled : Bool)
  | LocalPtrEnable (enabled : Bool)
  | MaxQueryLimit (value : Nat)
  | SocketBuffSize (value : Nat)
  | DataDir (path : String)
  | LocalDomain (name : Option DomainName.Name)
  | OdhcpdLeaseFile (path : String)
  | GroupMatch (groups : ConfigValues.GroupMatch)
  | IpRule (rule : RequestContext.IpRule)
  | IpSet (rule : ConfigForDomain String)
  | IpSetTimeoutEnable (enabled : Bool)
  | IpSetNoSpeed (text : String)
  | AclEnable (enabled : Bool)
  | BindCertGenerate (enabled : Bool)
  | BindCertRootKeyFile (path : String)
  | BindCertSan (names : List String)
  | BindCertValidityDays (value : Nat)
  | LogSyslog (enabled : Bool)
  | AuditSyslog (enabled : Bool)
  | NftsetNoSpeed (sets : List ConfigForIP)
  | DebugSaveFailPacket (enabled : Bool)
  | DebugSaveFailPacketDir (path : String)
  | LogColor (enabled : Bool)
  | AuditSoa (enabled : Bool)
  | AuditConsole (enabled : Bool)
  | ForceQtypeSoa (value : Nat)
  | ForwardRule (rule : ConfigForDomain String)
  | HostsFile (text : String)
  | IgnoreIp (addrs : IpOrSet)
  | Listener (listener : BindAddrConfig)
  | LocalTtl (value : Nat)
  | LogConsole (enabled : Bool)
  | LogNum (value : Nat)
  | LogSize (value : Nat)
  | LogLevel (level : Level)
  | LogFile (path : String)
  | LogFileMode (value : Nat)
  | LogFilter (text : String)
  | MaxReplyIpNum (value : Nat)
  | MdnsLookup (enabled : Bool)
  | NftSet (rule : ConfigForDomain (List ConfigForIP))
  | NftsetTimeoutEnable (enabled : Bool)
  | NftsetDebug (enabled : Bool)
  | NumWorkers (value : Nat)
  | PrefetchDomain (enabled : Bool)
  | ProxyConfig (proxy : NamedProxyConfig)
  | ResolvHostname (enabled : Bool)
  | ResponseMode (mode : RuleTree.ResponseMode)
  | ServeExpired (enabled : Bool)
  | ServeExpiredPrefetchTime (value : Nat)
  | ServeExpiredTtl (value : Nat)
  | ServeExpiredReplyTtl (value : Nat)
  | Server (server : NameServerInfo)
  | ServerName (name : DomainName.Name)
  | ResolvFile (path : String)
  | RrTtl (value : Nat)
  | RrTtlMin (value : Nat)
  | RrTtlMax (value : Nat)
  | RrTtlReplyMax (value : Nat)
  | SpeedMode (modes : Option (List SpeedCheckMode))
  | TcpIdleTime (value : Nat)
  | WhitelistIp (addrs : IpOrSet)
  | User (text : String)
  | IpSetProvider (provider : ConfigValues.IpSetProvider)
  | IpAlias (addrs : ConfigValues.IpAlias)

/-- A keyword and what has to follow it. -/
structure Directive where
  keyword : String
  item : Parser ConfigItem

def Directive.parser (d : Directive) : Parser ConfigItem :=
  preceded (tagNoCase d.keyword) d.item

/-- A keyword with a value. -/
def config {α : Type} (keyword : String) (item : α → ConfigItem) (value : Parser α) : Directive :=
  ⟨keyword, item <$> preceded space1 value⟩

variable (lib : TextLib)

def group1 : List Directive :=
  [config "address" .Address (addressRule lib),
    config "audit-enable" .AuditEnable boolean,
    config "audit-file-mode" .AuditFileMode fileMode,
    config "audit-file" .AuditFile pathBuf,
    config "audit-num" .AuditNum usize,
    config "audit-size" .AuditSize (bytes lib),
    config "bind-cert-file" .BindCertFile pathBuf,
    config "bind-cert-key-file" .BindCertKeyFile pathBuf,
    config "bind-cert-key-pass" .BindCertKeyPass string,
    config "bogus-nxdomain" .BogusNxDomain ipOrSet,
    config "blacklist-ip" .BlacklistIp ipOrSet,
    config "cache-file" .CacheFile pathBuf,
    config "cache-persist" .CachePersist boolean,
    config "cache-size" .CacheSize usize,
    config "cache-mem-size" .CacheMemSize usize,
    config "cache-checkpoint-time" .CacheCheckpointTime u64,
    config "ca-file" .CaFile pathBuf,
    config "ca-path" .CaPath pathBuf,
    config "client-rules" .ClientRule clientRule,
    config "client-rule" .ClientRule clientRule,
    config "conf-file" .ConfFile pathBuf]

def group2 : List Directive :=
  [config "domain-rules" .DomainRule (configForDomain lib (domainRule lib)),
    config "domain-rule" .DomainRule (configForDomain lib (domainRule lib)),
    config "domain-set" .DomainSetProvider (domainSetProvider lib),
    config "dnsmasq-lease-file" .DnsmasqLeaseFile pathBuf,
    config "dns64" .Dns64 ipv6Net,
    config "dualstack-ip-allow-force-AAAA" .DualstackIpAllowForceAAAA boolean,
    config "dualstack-ip-selection" .DualstackIpSelection boolean,
    config "dualstack-ip-selection-threshold" .DualstackIpSelectionThreshold u64,
    config "edns-client-subnet" .EdnsClientSubnet ipNet,
    config "expand-ptr-from-address" .ExpandPtrFromAddress boolean,
    config "force-AAAA-SOA" .ForceAAAASOA boolean,
    config "force-HTTPS-SOA" .ForceHTTPSSOA boolean,
    config "force-qtype-soa" .ForceQtypeSoa u16,
    config "response" .ResponseMode responseMode,
    config "group-begin" .GroupBegin string,
    ⟨"group-end", pure .GroupEnd⟩,
    config "prefetch-domain" .PrefetchDomain boolean,
    config "cname" .CNAME (configForDomain lib (cnameRule lib)),
    config "num-workers" .NumWorkers usize,
    config "domain" .Domain (name lib),
    config "hosts-file" .HostsFile (pattern lib)]

def group2b : List Directive :=
  [config "force-no-CNAME" .ForceNoCNAME boolean,
    config "local-ptr-enable" .LocalPtrEnable boolean,
    config "max-query-limit" .MaxQueryLimit usize,
    config "nftset-timeout" .NftsetTimeoutEnable boolean,
    config "nftset-debug" .NftsetDebug boolean,
    config "socket-buff-size" .SocketBuffSize usize,
    config "data-dir" .DataDir pathBuf,
    config "log-color" .LogColor boolean,
    config "audit-SOA" .AuditSoa boolean,
    config "audit-console" .AuditConsole boolean,
    config "local-domain" .LocalDomain (localDomain lib),
    config "odhcpd-lease-file" .OdhcpdLeaseFile pathBuf]

def group2c : List Directive :=
  [config "group-match" .GroupMatch (groupMatch lib),
    config "ip-rules" .IpRule ipRule,
    config "ipset" .IpSet (configForDomain lib ipSetName),
    config "ipset-timeout" .IpSetTimeoutEnable boolean,
    config "ipset-no-speed" .IpSetNoSpeed string,
    config "acl-enable" .AclEnable boolean,
    config "bind-cert-generate" .BindCertGenerate boolean,
    config "bind-cert-root-key-file" .BindCertRootKeyFile pathBuf,
    config "bind-cert-san" .BindCertSan sanList,
    config "bind-cert-validity-days" .BindCertValidityDays u64,
    config "log-syslog" .LogSyslog boolean,
    config "audit-syslog" .AuditSyslog boolean,
    config "nftset-no-speed" .NftsetNoSpeed nftSetList,
    config "debug-save-fail-packet" .DebugSaveFailPacket boolean,
    config "debug-save-fail-packet-dir" .DebugSaveFailPacketDir pathBuf]

def group3 : List Directive :=
  [config "https-record" .HttpsRecord (configForDomain lib (httpsRecordRule lib)),
    config "ignore-ip" .IgnoreIp ipOrSet,
    config "local-ttl" .LocalTtl u64,
    config "log-console" .LogConsole boolean,
    config "log-file-mode" .LogFileMode fileMode,
    config "log-file" .LogFile pathBuf,
    config "log-filter" .LogFilter string,
    config "log-level" .LogLevel logLevel,
    config "log-num" .LogNum u64,
    config "log-size" .LogSize (bytes lib),
    config "max-reply-ip-num" .MaxReplyIpNum u8,
    config "mdns-lookup" .MdnsLookup boolean,
    config "nameserver" .ForwardRule (forwardRule lib),
    config "proxy-server" .ProxyConfig (namedProxyConfig lib),
    config "rr-ttl-reply-max" .RrTtlReplyMax u64,
    config "rr-ttl-min" .RrTtlMin u64,
    config "rr-ttl-max" .RrTtlMax u64,
    config "rr-ttl" .RrTtl u64,
    config "resolv-file" .ResolvFile pathBuf]

def group4 : List Directive :=
  [config "resolv-hostanme" .ResolvHostname boolean,
    config "response-mode" .ResponseMode responseMode,
    config "server-name" .ServerName (name lib),
    config "speed-check-mode" .SpeedMode speedMode,
    config "serve-expired-reply-ttl" .ServeExpiredReplyTtl u64,
    config "serve-expired-ttl" .ServeExpiredTtl u64,
    config "serve-expired-prefetch-time" .ServeExpiredPrefetchTime u64,
    config "serve-expired" .ServeExpired boolean,
    config "srv-record" .SrvRecord (configForDomain lib (srv lib)),
    config "txt-record" .TxtRecord (configForDomain lib txtRecord),
    config "resolv-hostname" .ResolvHostname boolean,
    config "tcp-idle-time" .TcpIdleTime u64,
    config "nftset" .NftSet (configForDomain lib nftsets),
    config "user" .User string]

def group5 : List Directive :=
  [config "whitelist-ip" .WhitelistIp ipOrSet,
    config "ip-set" .IpSetProvider ipSetProvider,
    config "ip-alias" .IpAlias ipAlias]

/-- The directives, in the order in which they are tried. -/
def directive : Parser ConfigItem :=
  alt
    [alt ((group1 lib).map Directive.parser), alt ((group2 lib).map Directive.parser),
      alt ((group2b lib).map Directive.parser), alt ((group2c lib).map Directive.parser),
      alt ((group3 lib).map Directive.parser), alt ((group4 lib).map Directive.parser),
      alt (group5.map Directive.parser ++
        [.Listener <$> bindAddrConfig lib, .Server <$> nameServerInfo lib])]

/-! ## Lines -/

inductive ConfigLine where
  | Config (config : ConfigItem) (comment : Option (List Char))
  | Comment (comment : List Char)
  | EmptyLine
  | Eof

def comment : Parser (List Char) := trimEnd <$> recognize (pair (char '#') notLineEnding)

/-- What may follow a directive: blanks, and a comment if there are any. -/
def lineTail : Parser (Option (List Char)) :=
  alt [some <$> recognize (pair space1 comment), value none space0]

def parseLine : Parser ConfigLine :=
  alt
    [(do
        let item ← preceded space0 (directive lib)
        let comment ← lineTail
        pure (.Config item comment)),
      .Comment <$> preceded space0 comment,
      value .Eof eof,
      value .EmptyLine space0]

/-- `parse_config`: the item of a line and what is left of the line; `none` is an error. -/
def parseConfig (input : List Char) : Option (Option ConfigItem × List Char) :=
  ((parseLine lib).run input).map fun x =>
    match x.1 with
    | .Config item _ => (some item, x.2)
    | _ => (none, x.2)

/-! ## Files -/

/-- `ConfigFile::parse`. -/
def parseFile : Parser (List ConfigLine) := separatedList0 lineEnding (parseLine lib)

/-- `Ipv4Addr::fmt`. -/
def showIpv4 (addr : BitVec 32) : List Char :=
  let n := addr.toNat
  List.intercalate ['.'] ([n / 2 ^ 24, n / 2 ^ 16 % 256, n / 2 ^ 8 % 256, n % 256].map
    fun octet => Nat.toDigits 10 octet)

def groupsOf (addr : BitVec 128) : List Nat :=
  (List.range 8).map fun i => addr.toNat / 2 ^ (112 - 16 * i) % 2 ^ 16

/-- The longest run of zeros so far and the current one, after one more group. -/
def spanStep (s : (Nat × Nat) × Nat × Nat) (x : Nat × Nat) : (Nat × Nat) × Nat × Nat :=
  if x.1 = 0 then
    let current := if s.2.2 = 0 then (x.2, 1) else (s.2.1, s.2.2 + 1)
    (if s.1.2 < current.2 then current else s.1, current)
  else (s.1, (0, 0))

/-- The first longest run of zeros: where it starts and how long it is. -/
def zeroSpan (groups : List Nat) : Nat × Nat :=
  (groups.zipIdx.foldl spanStep ((0, 0), (0, 0))).1

def showGroups (groups : List Nat) : List Char :=
  List.intercalate [':'] (groups.map fun group => Nat.toDigits 16 group)

/-- `Ipv6Addr::fmt`. -/
def showIpv6 (addr : BitVec 128) : List Char :=
  if addr.toNat / 2 ^ 32 = 0xffff then
    "::ffff:".toList ++ showIpv4 (BitVec.ofNat 32 addr.toNat)
  else
    let groups := groupsOf addr
    let span := zeroSpan groups
    if 1 < span.2 then
      showGroups (groups.take span.1) ++ "::".toList ++ showGroups (groups.drop (span.1 + span.2))
    else showGroups groups

def showAddress : AddressRuleValue → List Char
  | .SOA => "#".toList
  | .SOAv4 => "#4".toList
  | .SOAv6 => "#6".toList
  | .IGN => "-".toList
  | .IGNv4 => "-4".toList
  | .IGNv6 => "-6".toList
  | .Addr v4 v6 =>
    List.intercalate [','] ((v4.getD []).map showIpv4 ++ (v6.getD []).map showIpv6)

/-- `Wildcard::fmt`. -/
def showWildcard (w : Wildcard) : List Char :=
  if w.pattern.isEmpty then "*".toList
  else ((String.fromUTF8? ⟨w.pattern.toArray⟩).getD "").toList

def showPattern : WildcardName → List Char
  | .Default n => lib.showName n
  | .Suffix n => "+.".toList ++ lib.showName n
  | .Sub w n => showWildcard w ++ ".".toList ++ lib.showName n
  | .Full n => "-.".toList ++ lib.showName n

def showDomain : Domain → List Char
  | .Name n => showPattern lib n
  | .Set set => "domain-set:".toList ++ set.toList

/-- `AddressRule::fmt`. -/
def showRule (rule : AddressRule) : List Char :=
  "/".toList ++ showDomain lib rule.domain ++ "/".toList ++ showAddress rule.config

/-- `ConfigItem::fmt`. -/
def showItem (other : ConfigItem → List Char) : ConfigItem → List Char
  | .Address rule => "address ".toList ++ showRule lib rule
  | .ForwardRule rule =>
    "nameserver /".toList ++ showDomain lib rule.domain ++ "/".toList ++ rule.config.toList
  | item => other item

/-- The text of a line without its line ending; the end of the file has none. -/
def showLine (other : ConfigItem → List Char) : ConfigLine → Option (List Char)
  | .Config item comment => some (showItem lib other item ++ comment.getD [])
  | .Comment comment => some comment
  | .EmptyLine => some []
  | .Eof => none

/-- `ConfigFile::fmt`. -/
def showFile (other : ConfigItem → List Char) (file : List ConfigLine) : List Char :=
  (file.filterMap (showLine lib other)).flatMap fun line => line ++ ['\n']

/-! ## ASCII text -/

/-- Names in ASCII without escapes, and nothing but names. -/
def asciiLib : TextLib where
  name s :=
    if s = ['.'] then some .root
    else
      let labels := (s.splitOn '.').map fun label => label.map fun c => UInt8.ofNat c.toNat
      if labels.getLast? = some [] then some ⟨labels.dropLast, true⟩ else some ⟨labels, false⟩
  showName n :=
    List.intercalate ['.'] (n.labels.map fun label => label.map fun b => Char.ofNat b.toNat) ++
      if n.isFqdn then ['.'] else []
  isWildcard _ := true
  isAlphanumeric := Char.isAlphanum
  byte _ := none
  isPattern _ := false
  isUrl _ := false
  isDnsUrl _ := false
  isProxy _ := false

end SmartDns.Ports.ConfigText
