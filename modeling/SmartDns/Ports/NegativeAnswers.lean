import SmartDns.Ports.LookupChoice

/-!
# Negative answers and the failures of other servers

A server that says a name does not exist, or has no records of a type, has
answered. The library reports such an answer in two shapes, as a response and as
the error `NoRecordsFound`, next to the errors of servers that could not be
reached and the responses of servers that failed. A group of servers is asked in
four ways, and each of them picks one result out of those that arrive.

`deciding` says which of the answers that will arrive is returned, without regard to
how many of them the strategy waits for. Where that answer is a failure, it has masked
the negative one.
-/

namespace SmartDns.Ports.NegativeAnswers

open Verified DomainName DnsMessage DnsLookup RuleTree Middleware Upstream InnerChain ServerRuns
open LookupRules LookupChoice

/-! ## Kinds of results -/

/-- A code under which a name or its records are known not to exist. -/
def saysSo (code : ResponseCode) : Bool := decide (code = .NoError) || decide (code = .NXDomain)

/-- `NXDOMAIN` or no records of the type, in either shape. -/
def isNegative (query : Query) : Lookup → Bool
  | .ok r => isNegativeResponse r query
  | .error (.proto (.noRecordsFound noRecords)) => saysSo noRecords.responseCode
  | .error _ => false

def isPositive (query : Query) : Lookup → Bool
  | .ok r =>
    decide (r.responseCode = .NoError) && r.records.any fun x => x.recordType == query.queryType
  | .error _ => false

/-- Transport errors and responses such as `SERVFAIL` or `REFUSED`. -/
def isFailure : Lookup → Bool
  | .ok r => !saysSo r.responseCode
  | .error (.proto (.noRecordsFound noRecords)) => !saysSo noRecords.responseCode
  | .error _ => true

variable {res : Lookup}

theorem isNegative_iff {query : Query} (h : isPositive query res = false) :
    isNegative query res = true ↔ isFailure res = false := by
  match res with
  | .ok r =>
    simp only [isPositive, isNegative, isFailure, isNegativeResponse, saysSo] at *
    cases hCode : r.responseCode <;> simp_all
  | .error (.proto (.noRecordsFound noRecords)) => simp [isNegative, isFailure]
  | .error (.proto .noConnections) => simp [isNegative, isFailure]
  | .error (.proto .timeout) => simp [isNegative, isFailure]
  | .error (.proto (.other _)) => simp [isNegative, isFailure]
  | .error .nameExists => simp [isNegative, isFailure]
  | .error (.responseCode _) => simp [isNegative, isFailure]
  | .error (.io _) => simp [isNegative, isFailure]

/-! ## The answer that decides -/

/-- The first response, else the first error. -/
def firstSource (hs : List Lookup) : Option Lookup :=
  ((oks hs).head?.map Except.ok).or ((errs hs).head?.map Except.error)

/-- The answer that decides, out of all answers of a group in the order of their arrival. The two
strategies that go by address have nothing to ping where no answer has an address. -/
def deciding (client : DnsClient) (options : LookupIpOptions) (isIp : Bool)
    (answers : List Lookup) : Option Lookup :=
  if isIp then
    match (strategyOf options).1 with
    | .FirstPing => firstSource answers
    | .FastestIp => firstSource answers
    | .FastestResponse => responseSource (waitsFor client none answers)
  else groupSource answers

variable {hs answers : List Lookup}

/-- A lookup that has waited for a response, or for all servers, has heard the first one. -/
theorem firstSource_eq (hOrder : hs <+: answers)
    (hWaited : oks hs ≠ [] ∨ hs.length = answers.length) :
    firstSource answers = firstSource hs := by
  rcases hWaited with hSome | hAll
  · obtain ⟨rest, rfl⟩ := hOrder
    obtain ⟨r, rs, hOks⟩ := List.exists_cons_of_ne_nil hSome
    have hMore : oks (hs ++ rest) = r :: (rs ++ oks rest) := by
      rw [oks, List.filterMap_append]
      exact congrArg (· ++ oks rest) hOks
    rw [firstSource, firstSource, hMore, hOks]
    rfl
  · rw [hOrder.eq_of_length hAll]

/-- Replies after the first with records do not change the choice. -/
theorem groupSource_eq (hOrder : hs <+: answers)
    (hWaited : (∃ x ∈ hs, hasRecords x = true) ∨ hs.length = answers.length) :
    groupSource answers = groupSource hs := by
  rcases hWaited with hSome | hAll
  · obtain ⟨rest, rfl⟩ := hOrder
    obtain ⟨x, hFind⟩ := Option.isSome_iff_exists.mp (List.find?_isSome.mpr hSome)
    rw [groupSource, groupSource, List.find?_append, hFind]
    rfl
  · rw [hOrder.eq_of_length hAll]

/-- Without an address there is nothing to choose by it. -/
theorem firstSource_of_chosen (hNoAddress : ∀ r ∈ oks hs, r.ipAddrs = [])
    (h : ChosenByAddress res hs) : firstSource hs = some res := by
  rcases h with ⟨ip, r, r', hFind, -, -⟩ | ⟨-, hFirst⟩
  · have hCarries := List.find?_some hFind
    rw [hNoAddress r (List.mem_of_find?_eq_some hFind)] at hCarries
    cases hCarries
  · exact hFirst

/-- Nor is there a response with a single one. -/
theorem firstSource_of_ping (hNoAddress : ∀ r ∈ oks hs, r.ipAddrs = [])
    (h : ChosenByPing res hs) : firstSource hs = some res := by
  rcases h with ⟨hLast, r, rfl, hSingle⟩ | ⟨hAddress, -⟩
  · have hMem : r ∈ oks hs := List.mem_filterMap.mpr ⟨.ok r, List.mem_of_getLast? hLast, rfl⟩
    rw [hNoAddress r hMem] at hSingle
    cases hSingle
  · exact firstSource_of_chosen hNoAddress hAddress

theorem mem_of_firstSource (h : firstSource hs = some res) : res ∈ hs :=
  mem_of_okElseError h (fun _ => List.mem_of_head?) (fun _ => List.mem_of_head?)

/-- Where no answer has an address, what a lookup returns is the answer that decides. -/
theorem deciding_of_chosen {client : DnsClient} {options : LookupIpOptions} {isIp : Bool}
    (hChosen : Chosen options isIp res hs)
    (hWaited : Waited client options isIp answers.length hs) (hOrder : hs <+: answers)
    (hNoAddress : isIp = true → ∀ r ∈ oks hs, r.ipAddrs = []) :
    deciding client options isIp answers = some res ∧ res ∈ hs := by
  cases isIp with
  | false => exact ⟨(groupSource_eq hOrder hWaited).trans hChosen, mem_of_groupSource hChosen⟩
  | true =>
    have hNone := hNoAddress rfl
    simp only [Chosen, Waited, deciding, if_true] at hChosen hWaited ⊢
    cases hMode : (strategyOf options).1 with
    | FirstPing =>
      rw [hMode] at hChosen hWaited
      have hFirst := firstSource_of_ping hNone hChosen
      exact ⟨(firstSource_eq hOrder hWaited).trans hFirst, mem_of_firstSource hFirst⟩
    | FastestIp =>
      rw [hMode] at hChosen hWaited
      have hFirst := firstSource_of_chosen hNone hChosen
      exact ⟨(firstSource_eq hOrder (.inr hWaited)).trans hFirst, mem_of_firstSource hFirst⟩
    | FastestResponse =>
      rw [hMode] at hChosen hWaited
      obtain ⟨rest, rfl⟩ := hOrder
      have hHeard := hWaited rest (List.length_append ..).symm
      refine ⟨?_, mem_of_responseSource hChosen⟩
      rw [← hHeard] at hChosen
      exact hChosen

/-- The question that is put to every server of a group. -/
def asked (name : Name) (options : LookupIpOptions) : Query :=
  Query.query name options.lookupOptions.recordType

/--
**Negative answers and failures**: let the servers of a group give these answers,
in this order of arrival, one of them negative and none positive, and none with an
address where an address is looked up. Whichever way the group is asked, and
however many of the answers it waits for, the result is negative exactly if the
answer that decides among all of them is not a failure.
-/
theorem negative_unmasked_iff (client : DnsClient) (server : NameServerGroup) (name : Name)
    (options : LookupIpOptions) (isIp : Bool) (t : List (Sigma Op.Resp)) (res : Lookup)
    (hRun : Prog.Yields (askGroup client server name options isIp) t res)
    (hPossible : ∀ x ∈ t, Possible x) (answers : List Lookup)
    (hOrder : heard options isIp t <+: answers)
    (hServers : answers.length = server.servers.length)
    (hNegative : ∃ x ∈ answers, isNegative (asked name options) x = true)
    (hNoPositive : ∀ x ∈ answers, isPositive (asked name options) x = false)
    (hNoAddress : isIp = true → ∀ r ∈ oks answers, r.ipAddrs = []) :
    isNegative (asked name options) res = true ↔
      (deciding client options isIp answers).any isFailure = false := by
  have hSome : server.servers ≠ [] := by
    obtain ⟨x, hx, -⟩ := hNegative
    intro hNil
    rw [hNil, List.length_nil, List.length_eq_zero_iff] at hServers
    rw [hServers] at hx
    cases hx
  obtain ⟨hChosen, hWaited⟩ := chosen_of_yields hSome hRun hPossible
  rw [← hServers] at hWaited
  have hHeard : ∀ r ∈ oks (heard options isIp t), r ∈ oks answers :=
    (hOrder.sublist.filterMap _).subset
  obtain ⟨hDecides, hMem⟩ := deciding_of_chosen hChosen hWaited hOrder
    fun h r hr => hNoAddress h r (hHeard r hr)
  rw [hDecides, isNegative_iff (hNoPositive res (hOrder.subset hMem))]
  rfl

/-! ## Groups of two and three servers -/

def secondServer : NameServer := ⟨1, false, false⟩

def twoServers : NameServerGroup := ⟨.default, [exampleServer, secondServer]⟩

def threeServers : NameServerGroup := ⟨.default, [exampleServer, secondServer, ⟨2, false, false⟩]⟩

/-- An address query under a response mode, with pings. -/
def underMode (mode : ResponseMode) : LookupIpOptions where
  responseStrategy := mode
  speedCheckMode := some [.Ping]
  noSpeedCheck := false
  ignoreIp := []
  whitelistIp := []
  blacklistIp := []
  ipAlias := []
  lookupOptions := ⟨false, .A, none⟩

/-- The first two servers answer, the first one first. -/
def twoAnswers (servers : Nat) (first second : Lookup) : List (Sigma Op.Resp) :=
  [⟨.next servers, (0 : Nat)⟩,
    ⟨.serverLookup .default exampleServer exampleName ⟨false, .A, none⟩, first⟩,
    ⟨.next (servers - 1), (0 : Nat)⟩,
    ⟨.serverLookup .default secondServer exampleName ⟨false, .A, none⟩, second⟩]

theorem possible_twoAnswers (servers : Nat) (hServers : 1 < servers) (first second : Lookup) :
    ∀ x ∈ twoAnswers servers first second, Possible x := by
  intro x hx
  simp only [twoAnswers, List.mem_cons, List.not_mem_nil, or_false] at hx
  rcases hx with rfl | rfl | rfl | rfl
  · exact ⟨.index 0, if_pos (by omega)⟩
  · exact ⟨.lookup first, rfl⟩
  · exact ⟨.index 0, if_pos (by omega)⟩
  · exact ⟨.lookup second, rfl⟩

/-- The name does not exist, as a response. -/
def nxResponse : Lookup :=
  .ok { DnsResponse.newWithMaxTtl exampleQuery [] with
    message := (DnsResponse.newWithMaxTtl exampleQuery []).message.setResponseCode .NXDomain }

/-- The same as the error that the library makes of it. -/
def nxError : Lookup := .error (.proto (.noRecordsFound ⟨exampleQuery, none, .NXDomain⟩))

/-- The name has no records of the type. -/
def noData : Lookup := .ok (DnsResponse.newWithMaxTtl exampleQuery [])

def timedOut : Lookup := .error (.proto .timeout)

def servFail : Lookup :=
  .ok { DnsResponse.newWithMaxTtl exampleQuery [] with
    message := (DnsResponse.newWithMaxTtl exampleQuery []).message.setResponseCode .ServFail }

/-- The timeout does not mask the answer that comes after it. The second server of three says that
the name has no records, and the third is not waited for. -/
theorem negative_unmasked_iff_timedOut :
    Prog.Yields (askGroup exampleClient threeServers exampleName (underMode .FastestResponse) true)
        (twoAnswers 3 timedOut noData) noData ∧
      isNegative exampleQuery noData = true := by
  have hRun : Prog.Yields (askGroup exampleClient threeServers exampleName
      (underMode .FastestResponse) true) (twoAnswers 3 timedOut noData) noData :=
    .call (.call (.call (.call (.done _))))
  exact ⟨hRun, (negative_unmasked_iff exampleClient threeServers exampleName
    (underMode .FastestResponse) true _ _ hRun (possible_twoAnswers 3 (by decide) _ _)
    [timedOut, noData, servFail] ⟨[servFail], rfl⟩ rfl ⟨noData, by simp, rfl⟩ (by decide)
    (by decide)).mpr rfl⟩

/-- One server says that the name does not exist, the other one fails, and the group has failed:
asked as a whole, under each of the three response modes, and when the failure is a response. -/
theorem negative_masked :
    isNegative exampleQuery nxResponse = true ∧ isNegative exampleQuery nxError = true ∧
    isFailure timedOut = true ∧ isFailure servFail = true ∧
    (∀ x ∈ [nxResponse, nxError, timedOut, servFail], isPositive exampleQuery x = false) ∧
    (∀ first second, ∀ x ∈ twoAnswers 2 first second, Possible x) ∧
    Prog.Yields (askGroup exampleClient twoServers exampleName (underMode .FirstPing) false)
      (twoAnswers 2 nxResponse timedOut) timedOut ∧
    Prog.Yields (askGroup exampleClient twoServers exampleName (underMode .FirstPing) true)
      (twoAnswers 2 timedOut nxError) timedOut ∧
    Prog.Yields (askGroup exampleClient twoServers exampleName (underMode .FastestIp) true)
      (twoAnswers 2 timedOut nxError) timedOut ∧
    Prog.Yields (askGroup exampleClient twoServers exampleName (underMode .FastestResponse) true)
      (twoAnswers 2 nxError timedOut) timedOut ∧
    Prog.Yields (askGroup exampleClient twoServers exampleName (underMode .FastestResponse) true)
      (twoAnswers 2 nxResponse servFail) servFail :=
  ⟨rfl, rfl, rfl, rfl, by decide, possible_twoAnswers 2 (by decide),
    .call (.call (.call (.call (.done _)))), .call (.call (.call (.call (.done _)))),
    .call (.call (.call (.call (.done _)))), .call (.call (.call (.call (.done _)))),
    .call (.call (.call (.call (.done _))))⟩

end SmartDns.Ports.NegativeAnswers
