import Mathlib.Data.Finset.Max
import SmartDns.Ports.LookupRules

/-!
# Which answer a lookup chooses

A group of servers is asked in four ways: as a whole, or for an address by one of
three strategies. Each of them picks one result out of those that arrive, and the
strategies that go by address cut it down to the record of the address chosen.

The results that a lookup has heard, in the order of their arrival and after the
filters on addresses, are the ghost state of its contract, so that `Chosen` can say
which of them is returned.
-/

namespace SmartDns.Ports.LookupChoice

open Verified DomainName DnsMessage DnsLookup RuleTree Middleware Upstream ServerRuns LookupRules
open List

/-! ## Choices -/

/-- The responses among the results heard. -/
def oks (hs : List Lookup) : List DnsResponse := hs.filterMap Except.toOption

def errorOf : Lookup → Option DnsError
  | .ok _ => none
  | .error e => some e

/-- The errors among them. -/
def errs (hs : List Lookup) : List DnsError := hs.filterMap errorOf

@[simp] theorem oks_concat_ok (hs : List Lookup) (r : DnsResponse) :
    oks (hs ++ [.ok r]) = oks hs ++ [r] := by
  simp [oks, Except.toOption]

@[simp] theorem oks_concat_error (hs : List Lookup) (e : DnsError) :
    oks (hs ++ [.error e]) = oks hs := by
  simp [oks, Except.toOption]

@[simp] theorem errs_concat_ok (hs : List Lookup) (r : DnsResponse) :
    errs (hs ++ [.ok r]) = errs hs := by
  simp [errs, errorOf]

@[simp] theorem errs_concat_error (hs : List Lookup) (e : DnsError) :
    errs (hs ++ [.error e]) = errs hs ++ [e] := by
  simp [errs, errorOf]

/-- A group as a whole: the first result with records, else the last result. -/
def groupSource (hs : List Lookup) : Option Lookup := (hs.find? hasRecords).or hs.getLast?

def isNoError : Lookup → Bool
  | .ok r => decide (r.responseCode = .NoError)
  | .error _ => false

/-- The fastest response: the first one without an error code, else the last one, else the
last error. -/
def responseSource (hs : List Lookup) : Option Lookup :=
  (hs.find? isNoError).or
    (((oks hs).getLast?.map Except.ok).or ((errs hs).getLast?.map Except.error))

/-- The result heard last is a response with a single address. -/
def SingleAddress (hs : List Lookup) (source : Lookup) : Prop :=
  hs.getLast? = some source ∧ ∃ r, source = .ok r ∧ r.ipAddrs.length = 1

/-- By address: the record of the address chosen, from the first response that has it; where none
has an address, the first response, else the first error. -/
def ChosenByAddress (res : Lookup) (hs : List Lookup) : Prop :=
  (∃ ip r r', (oks hs).find? (fun r => r.ipAddrs.contains ip) = some r ∧
      selectRecord ip r = some r' ∧ res = .ok r') ∨
    ((∀ r ∈ oks hs, r.ipAddrs = []) ∧
      ((oks hs).head?.map Except.ok).or ((errs hs).head?.map Except.error) = some res)

/-- An address is chosen only as long as no response with a single one is heard. -/
def ChosenByPing (res : Lookup) (hs : List Lookup) : Prop :=
  SingleAddress hs res ∨ (ChosenByAddress res hs ∧ ∀ r ∈ oks hs, r.ipAddrs.length ≠ 1)

/-- The result of a lookup, by the strategy in effect. -/
def Chosen (options : LookupIpOptions) (isIp : Bool) (res : Lookup) (hs : List Lookup) : Prop :=
  if isIp then
    match (strategyOf options).1 with
    | .FirstPing => ChosenByPing res hs
    | .FastestIp => ChosenByAddress res hs
    | .FastestResponse => responseSource hs = some res
  else groupSource hs = some res

/-- The answers that the fastest response is waited for among: up to the first one without an
error code, or up to an error that is the same as the error before it. -/
def waitsFor (client : DnsClient) : Option DnsError → List Lookup → List Lookup
  | _, [] => []
  | lastError, .ok r :: rest =>
    if r.responseCode = .NoError then [.ok r] else .ok r :: waitsFor client lastError rest
  | lastError, .error err :: rest =>
    if !err.isNoConnections && lastError.any fun e => client.sameError e err then [.error err]
    else .error err :: waitsFor client (some err) rest

/-- How far a lookup in a group of `total` servers has waited when it ends: for a result with
records, for a response, or for all servers. -/
def Waited (client : DnsClient) (options : LookupIpOptions) (isIp : Bool) (total : Nat)
    (hs : List Lookup) : Prop :=
  if isIp then
    match (strategyOf options).1 with
    | .FirstPing => oks hs ≠ [] ∨ hs.length = total
    | .FastestIp => hs.length = total
    | .FastestResponse =>
      ∀ rest, hs.length + rest.length = total → waitsFor client none (hs ++ rest) = hs
  else (∃ x ∈ hs, hasRecords x = true) ∨ hs.length = total

/-! ## The contract of a lookup -/

section Arrivals

/-- What an operation lets a lookup hear, the answer of a server being `given` to it. -/
def heardBy (given : NameServer → Lookup → Lookup) : Sigma Op.Resp → List Lookup
  | ⟨.serverLookup _ ns _ _, res⟩ => [given ns res]
  | _ => []

/-- An answer the environment can give. -/
def Possible (x : Sigma Op.Resp) : Prop := ∃ a, execEnv x.1 a = some x.2

/-- The operations of a lookup: it puts one question to servers and pings what they answer. -/
def Asks (name : Name) (options : LookupOptions) : Op → Prop
  | .serverLookup _ _ name' options' => name' = name ∧ options' = options
  | .ping _ _ => True
  | .next _ => True
  | _ => False

/-- Lookups collect the results they hear; the scheduler and the pings answer in bounds. -/
def arrivals (name : Name) (options : LookupOptions) (given : NameServer → Lookup → Lookup) :
    Contract Op Op.Resp (List Lookup) where
  pre o _ := Asks name options o
  post o hs r hs' := Possible ⟨o, r⟩ ∧ hs' = hs ++ heardBy given ⟨o, r⟩

/-- The task that comes next is one of those pending. -/
theorem possible_next {n i : Nat} (h : Possible ⟨.next n, i⟩) : i < n := by
  obtain ⟨a, ha⟩ := h
  cases a with
  | index j =>
    obtain ⟨hLt, hEq⟩ := Option.ite_none_right_eq_some.mp ha
    rw [show i = j from (Option.some.inj hEq).symm]
    exact hLt
  | _ => cases ha

theorem possible_ping {addrs : List IpAddr} {mode : SpeedCheckMode} {out : IpAddr × Nat}
    (h : Possible ⟨.ping addrs mode, some out⟩) : out.1 ∈ addrs := by
  obtain ⟨a, ha⟩ := h
  cases a with
  | ping out' =>
    obtain ⟨hIn, hEq⟩ := Option.ite_none_right_eq_some.mp ha
    rw [show out' = some out from Option.some.inj hEq] at hIn
    simpa using (Bool.and_eq_true_iff.mp hIn).1
  | _ => cases ha

variable {name : Name} {lookupOptions : LookupOptions} {given : NameServer → Lookup → Lookup}
  {α : Type}

variable {hs : List Lookup} {Q : α → List Lookup → Prop}

theorem sat_next {n : Nat} {k : Nat → Async α}
    (hk : ∀ i, i < n → Sat (arrivals name lookupOptions given) (k i) hs Q) :
    Sat (arrivals name lookupOptions given) (Prog.perform (Op.next n) >>= k) hs Q := by
  refine Sat.perform trivial ?_
  rintro i hs' ⟨hPossible, hHeard⟩
  rw [show hs' = hs from hHeard.trans (append_nil hs)]
  exact hk i (possible_next hPossible)

theorem sat_multiModePing (addrs : List IpAddr) (modes : List SpeedCheckMode) (hs : List Lookup) :
    Sat (arrivals name lookupOptions given) (multiModePing addrs modes) hs
      (fun out hs' => hs' = hs ∧ ∀ o, out = some o → o.1 ∈ addrs) := by
  induction modes with
  | nil => exact ⟨rfl, nofun⟩
  | cons mode modes ih =>
    refine Sat.perform trivial ?_
    rintro out hs' ⟨hPossible, hHeard⟩
    rw [show hs' = hs from hHeard.trans (append_nil hs)]
    cases out with
    | none => exact ih
    | some out =>
      refine ⟨rfl, ?_⟩
      intro o ho
      rw [← Option.some.inj ho]
      exact possible_ping hPossible

/-- A server's reply is heard before the program goes on. -/
theorem sat_serverLookup {group : ServerGroup} {ns : NameServer} {k : Lookup → Async α}
    (hk : ∀ res, Sat (arrivals name lookupOptions given) (k res) (hs ++ [given ns res]) Q) :
    Sat (arrivals name lookupOptions given)
      (Prog.perform (Op.serverLookup group ns name lookupOptions) >>= k) hs Q := by
  refine Sat.perform ⟨rfl, rfl⟩ ?_
  rintro res hs' ⟨-, hHeard⟩
  rw [hHeard]
  exact hk res

/-- A server is asked for an address, and its answer filtered. -/
theorem sat_perServer {group : ServerGroup} {ns : NameServer} {options : LookupIpOptions}
    {k : Lookup → Async α}
    (hk : ∀ res, Sat (arrivals name options.lookupOptions (perServer options)) (k res)
      (hs ++ [res]) Q) :
    Sat (arrivals name options.lookupOptions (perServer options))
      (perNameserverLookupIp group ns name options >>= k) hs Q := by
  rw [perNameserverLookupIp_eq]
  exact sat_serverLookup fun res => hk (perServer options ns res)

end Arrivals

variable {name : Name} {lookupOptions : LookupOptions}

/-! ## Asking a whole group -/

variable {hs : List Lookup} {res : Lookup}

theorem forall_mem_concat {P : Lookup → Prop} (hOld : ∀ x ∈ hs, P x) (hNew : P res) :
    ∀ x ∈ hs ++ [res], P x := by
  exact forall_mem_append.mpr ⟨hOld, forall_mem_singleton.mpr hNew⟩

theorem groupSource_concat (hNone : ∀ x ∈ hs, hasRecords x = false) (res : Lookup) :
    groupSource (hs ++ [res]) = some res := by
  have hFind : hs.find? hasRecords = none := by
    rw [find?_eq_none]
    intro x hx
    simp [hNone x hx]
  unfold groupSource
  rw [find?_append, hFind]
  cases hRes : hasRecords res <;> simp [hRes]

variable {group : ServerGroup}

/-- The loop over a group chooses the first reply with records, or the last. -/
theorem groupLoop_chooses {name : Name} {options : LookupOptions} {total : Nat} (n : Nat) :
    ∀ pending hs, pending.length = n → n ≠ 0 → hs.length + n = total →
      (∀ x ∈ hs, hasRecords x = false) →
      Sat (arrivals name options fun _ res => res) (groupLoop group name options n pending) hs
        (fun res hs => groupSource hs = some res ∧
          ((∃ x ∈ hs, hasRecords x = true) ∨ hs.length = total)) := by
  induction n with
  | zero =>
    intro pending hs _ hZero
    exact absurd rfl hZero
  | succ n ih =>
    intro pending hs hLength _ hTotal hNone
    refine sat_next ?_
    intro i hi
    have hIn : i < pending.length := by omega
    rw [getElem?_eq_getElem hIn]
    refine sat_serverLookup ?_
    intro res
    by_cases hLast : (hasRecords res || n == 0) = true
    · rw [if_pos hLast]
      refine ⟨groupSource_concat hNone res, ?_⟩
      rcases Bool.or_eq_true_iff.mp hLast with hRecords | hAll
      · exact .inl ⟨res, by simp, hRecords⟩
      · rw [length_append, length_singleton]
        have := eq_of_beq hAll
        omega
    · rw [if_neg hLast]
      simp only [Bool.or_eq_true, beq_iff_eq, not_or, Bool.not_eq_true] at hLast
      refine ih _ _ ?_ hLast.2 ?_ (forall_mem_concat hNone hLast.1)
      · rw [length_eraseIdx_of_lt hIn]
        omega
      · rw [length_append, length_singleton]
        omega

/-! ## The fastest response -/

theorem eq_nil_of_oks_errs (hOks : oks hs = []) (hErrs : errs hs = []) : hs = [] := by
  cases hs with
  | nil => rfl
  | cons x hs =>
    cases x with
    | ok r => simp [oks, Except.toOption] at hOks
    | error e => simp [errs, errorOf] at hErrs

theorem responseSource_concat (hNone : ∀ x ∈ hs, isNoError x = false) (res : Lookup) :
    responseSource (hs ++ [res]) =
      if isNoError res then some res
      else ((oks (hs ++ [res])).getLast?.map Except.ok).or
        ((errs (hs ++ [res])).getLast?.map Except.error) := by
  have hFind : hs.find? isNoError = none := by
    rw [find?_eq_none]
    intro x hx
    simp [hNone x hx]
  unfold responseSource
  rw [find?_append, hFind]
  cases hRes : isNoError res <;> simp [hRes]

variable {client : DnsClient} {options : LookupIpOptions}

/-- What was heard has not ended the wait. -/
def StillWaits (client : DnsClient) (hs : List Lookup) : Prop :=
  ∀ rest, waitsFor client none (hs ++ rest) = hs ++ waitsFor client (errs hs).getLast? rest

/-- One more answer that does not end it. -/
theorem StillWaits.concat (h : StillWaits client hs) {x : Lookup}
    (hx : ∀ rest, waitsFor client (errs hs).getLast? (x :: rest) =
      x :: waitsFor client (errs (hs ++ [x])).getLast? rest) : StillWaits client (hs ++ [x]) := by
  intro rest
  rw [append_assoc, singleton_append, h, hx, append_assoc, singleton_append]

/-- The loop for the fastest response chooses as `responseSource` does. -/
theorem fastestResponseLoop_chooses {name : Name} {total : Nat} (n : Nat) :
    ∀ pending hs, pending.length = n → (n = 0 → hs ≠ []) → hs.length + n = total →
      (∀ x ∈ hs, isNoError x = false) → StillWaits client hs →
      Sat (arrivals name options.lookupOptions (perServer options))
        (fastestResponseLoop client group name options n pending (oks hs).getLast?
          (errs hs).getLast?) hs
        (fun res hs => responseSource hs = some res ∧
          ∀ rest, hs.length + rest.length = total → waitsFor client none (hs ++ rest) = hs) := by
  induction n with
  | zero =>
    intro pending hs _ hHeard hTotal hNone hWaits
    have hAll : ∀ rest : List Lookup, hs.length + rest.length = total →
        waitsFor client none (hs ++ rest) = hs := by
      intro rest hRest
      rw [eq_nil_of_length_eq_zero (l := rest) (by omega), hWaits, waitsFor, append_nil]
    have hSource : responseSource hs =
        ((oks hs).getLast?.map Except.ok).or ((errs hs).getLast?.map Except.error) := by
      unfold responseSource
      rw [find?_eq_none.mpr (by simpa using hNone), Option.none_or]
    cases hOk : (oks hs).getLast? with
    | some ok => exact ⟨hSource.trans (by rw [hOk]; rfl), hAll⟩
    | none =>
      cases hErr : (errs hs).getLast? with
      | some err => exact ⟨hSource.trans (by rw [hOk, hErr]; rfl), hAll⟩
      | none =>
        rw [getLast?_eq_none_iff] at hOk hErr
        exact absurd (eq_nil_of_oks_errs hOk hErr) (hHeard rfl)
  | succ n ih =>
    intro pending hs hLength _ hTotal hNone hWaits
    refine sat_next ?_
    intro i hi
    have hIn : i < pending.length := by omega
    rw [getElem?_eq_getElem hIn]
    have hLength' : (pending.eraseIdx i).length = n := by
      rw [length_eraseIdx_of_lt hIn]
      omega
    refine sat_perServer ?_
    intro res
    have hTotal' : (hs ++ [res]).length + n = total := by
      rw [length_append, length_singleton]
      omega
    have hEnds : (∀ rest, waitsFor client (errs hs).getLast? (res :: rest) = [res]) →
        ∀ rest : List Lookup, (hs ++ [res]).length + rest.length = total →
          waitsFor client none ((hs ++ [res]) ++ rest) = hs ++ [res] := by
      intro hRes rest _
      rw [append_assoc, singleton_append, hWaits, hRes]
    have hSource := responseSource_concat hNone res
    cases res with
    | ok response =>
      dsimp only
      by_cases hCode : response.responseCode = .NoError
      · rw [if_pos hCode]
        exact ⟨hSource.trans (if_pos (decide_eq_true hCode)), hEnds fun _ => if_pos hCode⟩
      · rw [if_neg hCode]
        have hNoError : isNoError (.ok response) = false := decide_eq_false hCode
        have hRest := ih _ _ hLength' (by simp) hTotal' (forall_mem_concat hNone hNoError)
          (hWaits.concat fun rest => by rw [errs_concat_ok]; exact if_neg hCode)
        rw [oks_concat_ok, errs_concat_ok, getLast?_concat] at hRest
        exact hRest
    | error err =>
      dsimp only
      split
      · rename_i hSame
        rw [oks_concat_error, errs_concat_error, getLast?_concat] at hSource
        cases hOk : (oks hs).getLast? with
        | some | none => exact ⟨hSource.trans (by rw [hOk]; rfl), hEnds fun _ => if_pos hSame⟩
      · rename_i hOther
        have hNoError : isNoError (.error err) = false := rfl
        have hRest := ih _ _ hLength' (by simp) hTotal' (forall_mem_concat hNone hNoError)
          (hWaits.concat fun rest => by
            rw [errs_concat_error, getLast?_concat]
            exact if_neg hOther)
        rw [oks_concat_error, errs_concat_error, getLast?_concat] at hRest
        exact hRest

/-! ## Choosing by address -/

/-- Some response has the address. -/
def Carries (rs : List DnsResponse) (ip : IpAddr) : Prop := ∃ r ∈ rs, ip ∈ r.ipAddrs

theorem selectRecord_isSome (ip : IpAddr) (r : DnsResponse) :
    (selectRecord ip r).isSome = r.ipAddrs.contains ip := by
  rw [Bool.eq_iff_iff]
  unfold selectRecord DnsResponse.ipAddrs DnsResponse.records
  simp

/-- A selected address chooses a reply that carries it. -/
theorem selectedIp_chooses {ip : IpAddr} (hIp : Carries (oks hs) ip) :
    ChosenByAddress (selectedIp ip (oks hs)) hs := by
  obtain ⟨r₀, hr₀, hMem⟩ := hIp
  cases hFind : (oks hs).find? fun r => r.ipAddrs.contains ip with
  | none =>
    have hMissing := find?_eq_none.mp hFind r₀ hr₀
    exact absurd (contains_iff_mem.mpr hMem) hMissing
  | some r =>
    obtain ⟨hHas, front, rest, hSplit, hFront⟩ := find?_eq_some_iff_append.mp hFind
    obtain ⟨r', hCut⟩ :=
      Option.isSome_iff_exists.mp ((selectRecord_isSome ip r).trans hHas)
    have hBefore : ∀ x ∈ front, selectRecord ip x = none := by
      intro x hx
      rw [← Option.not_isSome_iff_eq_none, selectRecord_isSome]
      simpa using hFront x hx
    have hFirst : (oks hs).findSome? (selectRecord ip) = some r' :=
      findSome?_eq_some_iff.mpr ⟨front, r, rest, hSplit, hCut, hBefore⟩
    refine .inl ⟨ip, r, r', hFind, hCut, ?_⟩
    unfold selectedIp
    rw [hFirst]

variable {rs : List DnsResponse}

/-- A most frequent address is one that a reply carries. -/
theorem mem_mostFrequentIps {ip : IpAddr} (h : ip ∈ mostFrequentIps rs) : Carries rs ip := by
  have hMem := (mem_filter.mp h).1
  exact mem_flatMap.mp (mem_dedup.mp hMem)

/-- Where there are addresses, one of them occurs most often. -/
theorem ipAddrs_of_mostFrequentIps (h : mostFrequentIps rs = []) : ∀ r ∈ rs, r.ipAddrs = [] := by
  intro r hr
  by_contra hNonempty
  obtain ⟨ip, hIp⟩ := exists_mem_of_ne_nil _ hNonempty
  have hAll : ip ∈ ((rs.flatMap DnsResponse.ipAddrs).dedup).toFinset := by
    simp only [mem_toFinset, mem_dedup, mem_flatMap]
    exact ⟨r, hr, hIp⟩
  obtain ⟨best, hBest, hMax⟩ := Finset.exists_max_image _ (ipCount rs) ⟨ip, hAll⟩
  have hIn : best ∈ mostFrequentIps rs := by
    refine mem_filter.mpr ⟨mem_toFinset.mp hBest, ?_⟩
    simp only [all_eq_true, decide_eq_true_eq]
    exact fun ip' hip' => hMax ip' (mem_toFinset.mpr hip')
  rw [h] at hIn
  cases hIn

theorem sat_mostFrequentIp (given : NameServer → Lookup → Lookup) (rs : List DnsResponse)
    (hs : List Lookup) :
    Sat (arrivals name lookupOptions given) (mostFrequentIp rs) hs
      (fun found hs' => hs' = hs ∧ (∀ ip, found = some ip → Carries rs ip) ∧
        (found = none → ∀ r ∈ rs, r.ipAddrs = [])) := by
  unfold mostFrequentIp
  split
  · rename_i hNone
    exact ⟨rfl, nofun, fun _ => ipAddrs_of_mostFrequentIps hNone⟩
  · refine sat_next ?_
    intro i hi
    refine ⟨rfl, ?_, ?_⟩
    · intro ip hip
      exact mem_mostFrequentIps (mem_of_getElem? hip)
    · intro hNone
      exact absurd hi (Nat.not_lt.mpr (getElem?_eq_none_iff.mp hNone))

/-- Without an address the fallback chooses a reply heard. -/
theorem fallback_chooses (hHeard : hs ≠ []) (hNone : ∀ r ∈ oks hs, r.ipAddrs = []) :
    ChosenByAddress (fallback (oks hs) (errs hs)) hs := by
  cases hOk : oks hs with
  | cons r rest => exact .inr ⟨hNone, by rw [hOk]; rfl⟩
  | nil =>
    cases hErr : errs hs with
    | cons e rest => exact .inr ⟨hNone, by rw [hOk, hErr]; rfl⟩
    | nil => exact absurd (eq_nil_of_oks_errs hOk hErr) hHeard

/-- The result of choosing, while nothing more is heard. -/
def ChoosesNow (hs : List Lookup) (res : Lookup) (hs' : List Lookup) : Prop :=
  hs' = hs ∧ ChosenByAddress res hs

/-- The choice by address chooses a reply that was heard. -/
theorem chooseIp_chooses (given : NameServer → Lookup → Lookup) {fastest : Option IpAddr}
    (hHeard : hs ≠ []) (hIp : ∀ ip, fastest = some ip → Carries (oks hs) ip) :
    Sat (arrivals name lookupOptions given) (chooseIp fastest (oks hs) (errs hs)) hs
      (ChoosesNow hs) := by
  cases fastest with
  | some ip => exact ⟨rfl, selectedIp_chooses (hIp ip rfl)⟩
  | none =>
    refine Sat.seq (sat_mostFrequentIp given (oks hs) hs) ?_
    rintro found hs' ⟨hSame, hSome, hNone⟩
    cases found with
    | some ip => exact ⟨hSame, selectedIp_chooses (hSome ip rfl)⟩
    | none => exact ⟨hSame, fallback_chooses hHeard (hNone rfl)⟩

variable {modes : List SpeedCheckMode}

/-- Wait for the ping of some addresses, then choose. -/
theorem pingThenChoose_chooses (given : NameServer → Lookup → Lookup) {addrs : List IpAddr}
    (hHeard : hs ≠ []) (hAddrs : ∀ ip ∈ addrs, Carries (oks hs) ip) :
    Sat (arrivals name lookupOptions given)
      (multiModePing addrs modes >>= fun out => chooseIp (out.map Prod.fst) (oks hs) (errs hs)) hs
      (ChoosesNow hs) := by
  refine Sat.seq (sat_multiModePing addrs modes hs) ?_
  rintro out hs' ⟨hSame, hOut⟩
  rw [hSame]
  refine chooseIp_chooses given hHeard ?_
  intro ip hip
  obtain ⟨o, ho, hEq⟩ := Option.map_eq_some_iff.mp hip
  rw [← hEq]
  exact hAddrs o.1 (hOut o ho)

/-! ## The first ping -/

/-- The pings under way are those of the addresses of responses heard. -/
def PingsOf (pings : List (List IpAddr)) (rs : List DnsResponse) : Prop :=
  ∀ addrs ∈ pings, ∃ r ∈ rs, addrs = r.ipAddrs

variable {pings : List (List IpAddr)}

theorem PingsOf.getD (h : PingsOf pings rs) (i : Nat) : ∀ ip ∈ pings[i]?.getD [],
    Carries rs ip := by
  intro ip hip
  cases hAt : pings[i]? with
  | none =>
    rw [hAt] at hip
    cases hip
  | some addrs =>
    rw [hAt] at hip
    obtain ⟨r, hr, hEq⟩ := h addrs (mem_of_getElem? hAt)
    exact ⟨r, hr, hEq ▸ hip⟩

theorem PingsOf.heard (h : PingsOf pings rs) (hSome : pings ≠ []) : rs ≠ [] := by
  obtain ⟨addrs, hAddrs⟩ := exists_mem_of_ne_nil _ hSome
  obtain ⟨r, hr, -⟩ := h addrs hAddrs
  exact ne_nil_of_mem hr

theorem PingsOf.concat (h : PingsOf pings rs) (r : DnsResponse) :
    PingsOf (pings ++ [r.ipAddrs]) (rs ++ [r]) := by
  intro addrs hAddrs
  rcases mem_append.mp hAddrs with hOld | hNew
  · obtain ⟨r', hr', hEq⟩ := h addrs hOld
    exact ⟨r', mem_append_left _ hr', hEq⟩
  · exact ⟨r, by simp, mem_singleton.mp hNew⟩

theorem chosenByPing_of_now (given : NameServer → Lookup → Lookup) {p : Async Lookup} {total : Nat}
    (hMany : ∀ r ∈ oks hs, r.ipAddrs.length ≠ 1) (hWaited : oks hs ≠ [] ∨ hs.length = total)
    (hp : Sat (arrivals name lookupOptions given) p hs (ChoosesNow hs)) :
    Sat (arrivals name lookupOptions given) p hs
      (fun res hs => ChosenByPing res hs ∧ (oks hs ≠ [] ∨ hs.length = total)) := by
  refine Sat.mono ?_ _ hp
  rintro res hs' ⟨hSame, hChosen⟩
  rw [hSame]
  exact ⟨.inr ⟨hChosen, hMany⟩, hWaited⟩

theorem ne_nil_of_oks (h : oks hs ≠ []) : hs ≠ [] := by
  rintro rfl
  exact h rfl

/-- The loop of the first ping chooses a reply by its address. -/
theorem firstPingLoop_chooses {name : Name} {total : Nat} (n : Nat) :
    ∀ pending pings hs, pending.length = n → (n = 0 → hs ≠ []) → hs.length + n = total →
      PingsOf pings (oks hs) → (∀ r ∈ oks hs, r.ipAddrs.length ≠ 1) →
      Sat (arrivals name options.lookupOptions (perServer options))
        (firstPingLoop group name options modes n pending pings (oks hs) (errs hs)) hs
        (fun res hs => ChosenByPing res hs ∧ (oks hs ≠ [] ∨ hs.length = total)) := by
  induction n with
  | zero =>
    intro pending pings hs _ hHeard hTotal hPings hMany
    unfold firstPingLoop
    split
    · exact chosenByPing_of_now _ hMany (.inr hTotal) (chooseIp_chooses _ (hHeard rfl) (by simp))
    · refine sat_next ?_
      intro i _
      exact chosenByPing_of_now _ hMany (.inr hTotal)
        (pingThenChoose_chooses _ (hHeard rfl) (hPings.getD i))
  | succ n ih =>
    intro pending pings hs hLength _ hTotal hPings hMany
    refine sat_next ?_
    intro i hi
    cases hAt : pending[i]? with
    | none =>
      have hOut := getElem?_eq_none_iff.mp hAt
      have hSome : pings ≠ [] := by
        rintro rfl
        simp only [length_nil] at hi
        omega
      exact chosenByPing_of_now _ hMany (.inl (hPings.heard hSome))
        (pingThenChoose_chooses _ (ne_nil_of_oks (hPings.heard hSome)) (hPings.getD _))
    | some ns =>
      have hLength' : (pending.eraseIdx i).length = n := by
        rw [List.length_eraseIdx_of_lt (List.getElem?_eq_some_iff.mp hAt).1]
        omega
      refine sat_perServer ?_
      intro res
      have hTotal' : (hs ++ [res]).length + n = total := by
        rw [length_append, length_singleton]
        omega
      cases res with
      | ok lookup =>
        dsimp only
        split
        · rename_i hSingle
          exact ⟨.inl ⟨getLast?_concat, lookup, rfl, hSingle⟩, .inl (by simp)⟩
        · rename_i hNotSingle
          have hMany' : ∀ r ∈ oks hs ++ [lookup], r.ipAddrs.length ≠ 1 := by
            exact forall_mem_append.mpr ⟨hMany, forall_mem_singleton.mpr hNotSingle⟩
          have hRest := ih (pending.eraseIdx i) (pings ++ [lookup.ipAddrs])
            (hs ++ [.ok lookup]) hLength' (by simp) hTotal'
            (by rw [oks_concat_ok]; exact hPings.concat lookup)
            (by rw [oks_concat_ok]; exact hMany')
          rw [oks_concat_ok, errs_concat_ok] at hRest
          exact hRest
      | error err =>
        have hRest := ih (pending.eraseIdx i) pings (hs ++ [.error err]) hLength' (by simp) hTotal'
          (by rw [oks_concat_error]; exact hPings) (by rw [oks_concat_error]; exact hMany)
        rw [oks_concat_error, errs_concat_error] at hRest
        exact hRest

/-! ## The fastest address -/

/-- The state of a race agrees with what was heard: the addresses pinged, and the fastest of
them, are addresses of responses heard. -/
structure RaceInv (race : PingRace) (hs : List Lookup) : Prop where
  okTasks : race.okTasks = oks hs
  errTasks : race.errTasks = errs hs
  pings : ∀ ip ∈ race.pings, Carries (oks hs) ip
  fastest : ∀ out, race.fastest = some out → Carries (oks hs) out.1

variable {race : PingRace}

theorem RaceInv.reported (h : RaceInv race hs) :
    ∀ ip, race.fastest.map Prod.fst = some ip → Carries (oks hs) ip := by
  intro ip hip
  obtain ⟨out, hOut, hEq⟩ := Option.map_eq_some_iff.mp hip
  rw [← hEq]
  exact h.fastest out hOut

theorem RaceInv.choose (given : NameServer → Lookup → Lookup) (h : RaceInv race hs)
    (hHeard : hs ≠ []) {total : Nat} (hTotal : hs.length = total) :
    Sat (arrivals name lookupOptions given)
      (chooseIp (race.fastest.map Prod.fst) race.okTasks race.errTasks) hs
      (fun res hs => ChosenByAddress res hs ∧ hs.length = total) := by
  rw [h.okTasks, h.errTasks]
  refine Sat.mono ?_ _ (chooseIp_chooses given hHeard h.reported)
  rintro res hs' ⟨hSame, hChosen⟩
  rw [hSame]
  exact ⟨hChosen, hTotal⟩

theorem pingDone_fastest {j : Nat} {out : Option (IpAddr × Nat)} {best : IpAddr × Nat}
    (h : (race.pingDone j out).fastest = some best) :
    out = some best ∨ race.fastest = some best := by
  obtain ⟨pending, pings, pinged, fastest, okTasks, errTasks⟩ := race
  cases out with
  | none => exact .inr h
  | some o =>
    cases fastest with
    | none => exact .inl h
    | some t =>
      by_cases hLess : o.2 < t.2
      · exact .inl ((if_pos hLess).symm.trans h)
      · exact .inr ((if_neg hLess).symm.trans h)

/-- A finished ping keeps the race's addresses among those heard. -/
theorem RaceInv.pingDone (h : RaceInv race hs) {j : Nat} {out : Option (IpAddr × Nat)}
    (hOut : ∀ o, out = some o → o.1 ∈ race.pings[j]?.toList) :
    RaceInv (race.pingDone j out) hs where
  okTasks := h.okTasks
  errTasks := h.errTasks
  pings ip hip := h.pings ip (mem_of_mem_eraseIdx hip)
  fastest := by
    have hNew : ∀ o, out = some o → Carries (oks hs) o.1 := by
      intro o ho
      exact h.pings o.1 (mem_of_getElem? (Option.mem_toList.mp (hOut o ho)))
    intro best hBest
    exact (pingDone_fastest hBest).elim (hNew best) (h.fastest best)

/-- A reply that arrives adds its addresses to the race. -/
theorem RaceInv.queryDone (h : RaceInv race hs) (i : Nat) (res : Lookup) :
    RaceInv (race.queryDone i res) (hs ++ [res]) := by
  cases res with
  | error err =>
    refine ⟨?_, ?_, ?_, ?_⟩
    · rw [oks_concat_error]
      exact h.okTasks
    · rw [errs_concat_error, ← h.errTasks]
      rfl
    · rw [oks_concat_error]
      exact h.pings
    · rw [oks_concat_error]
      exact h.fastest
  | ok lookup =>
    have hOld : ∀ {ip : IpAddr}, Carries (oks hs) ip → Carries (oks hs ++ [lookup]) ip := by
      rintro ip ⟨r, hr, hIp⟩
      exact ⟨r, mem_append_left _ hr, hIp⟩
    refine ⟨?_, ?_, ?_, ?_⟩
    · rw [oks_concat_ok, ← h.okTasks]
      rfl
    · rw [errs_concat_ok]
      exact h.errTasks
    · rw [oks_concat_ok]
      intro ip hip
      rcases mem_append.mp hip with hPinged | hFresh
      · exact hOld (h.pings ip hPinged)
      · exact ⟨lookup, by simp, mem_dedup.mp (mem_filter.mp hFresh).1⟩
    · rw [oks_concat_ok]
      exact fun out hOut => hOld (h.fastest out hOut)

theorem drainPings_chooses {given : NameServer → Lookup → Lookup}
    {onQuery : Nat → PingRace → Async Lookup} {pending : List NameServer} {total : Nat}
    (hNone : pending = [] → hs ≠ [] ∧ hs.length = total)
    (hQuery : ∀ i race, i < pending.length → race.pending = pending → RaceInv race hs →
      Sat (arrivals name lookupOptions given) (onQuery i race) hs
        (fun res hs => ChosenByAddress res hs ∧ hs.length = total))
    (n : Nat) :
    ∀ race, race.pending = pending → RaceInv race hs →
      Sat (arrivals name lookupOptions given) (drainPings modes onQuery n race) hs
        (fun res hs => ChosenByAddress res hs ∧ hs.length = total) := by
  induction n with
  | zero =>
    intro race hPending hRace
    unfold drainPings
    split
    · rename_i hEmpty
      obtain ⟨hHeard, hTotal⟩ := hNone (hPending.symm.trans hEmpty)
      exact hRace.choose given hHeard hTotal
    · refine sat_next ?_
      intro i hi
      exact hQuery i race (hPending ▸ hi) hPending hRace
  | succ n ih =>
    intro race hPending hRace
    refine sat_next ?_
    intro i hi
    by_cases hServer : i < race.pending.length
    · rw [if_pos hServer]
      exact hQuery i race (hPending ▸ hServer) hPending hRace
    · rw [if_neg hServer]
      refine Sat.seq (sat_multiModePing _ modes hs) ?_
      rintro out hs' ⟨hSame, hOut⟩
      rw [hSame]
      exact ih _ hPending (hRace.pingDone hOut)

/-- The loop of the fastest address chooses by an address heard. -/
theorem fastestIpLoop_chooses {name : Name} {total : Nat} (n : Nat) :
    ∀ race hs, race.pending.length = n → (n = 0 → hs ≠ []) → hs.length + n = total →
      RaceInv race hs →
      Sat (arrivals name options.lookupOptions (perServer options))
        (fastestIpLoop group name options modes n race) hs
        (fun res hs => ChosenByAddress res hs ∧ hs.length = total) := by
  induction n with
  | zero =>
    intro race hs hLength hHeard hTotal hRace
    refine drainPings_chooses (fun _ => ⟨hHeard rfl, hTotal⟩) ?_ _ race rfl hRace
    omega
  | succ n ih =>
    intro race hs hLength _ hTotal hRace
    have hSome : race.pending ≠ [] := ne_nil_of_length_eq_add_one hLength
    refine drainPings_chooses (fun hNil => absurd hNil hSome) ?_ _ race rfl hRace
    intro i race' hi hPending hRace'
    rw [hPending, getElem?_eq_getElem hi]
    refine sat_perServer ?_
    intro res
    refine ih _ _ ?_ (by simp) (by rw [length_append, length_singleton]; omega)
      (hRace'.queryDone i res)
    have hErased : (race'.queryDone i res).pending = race'.pending.eraseIdx i := by
      cases res <;> rfl
    rw [hErased, hPending, length_eraseIdx_of_lt hi]
    omega

/-! ## Every way of asking -/

/-- A group is asked for an address, by the strategy in effect, or as a whole. -/
def askGroup (client : DnsClient) (server : NameServerGroup) (name : Name)
    (options : LookupIpOptions) (isIp : Bool) : Async Lookup :=
  if isIp then lookupIp client server name options
  else groupLookup server name options.lookupOptions

/-- The operations of a lookup in a group. -/
def InGroup (group : ServerGroup) : Op → Prop
  | .serverLookup group' _ _ _ => group' = group
  | .ping _ _ => True
  | .next _ => True
  | _ => False

theorem multiModePing_only (addrs : List IpAddr) (modes : List SpeedCheckMode) :
    Only (InGroup group) (fun _ => True) (multiModePing addrs modes) := by
  induction modes with
  | nil => trivial
  | cons mode modes ih =>
    refine Only.perform trivial ?_
    intro out
    cases out with
    | some out => trivial
    | none => exact ih

theorem chooseIp_only (fastest : Option IpAddr) (okTasks : List DnsResponse)
    (errTasks : List DnsError) :
    Only (InGroup group) (fun _ => True) (chooseIp fastest okTasks errTasks) := by
  have hFrequent : Only (InGroup group) (fun _ => True) (mostFrequentIp okTasks) := by
    unfold mostFrequentIp
    split
    · trivial
    · exact Only.perform trivial fun _ => trivial
  cases fastest with
  | some ip => trivial
  | none =>
    refine Only.seq _ hFrequent ?_
    intro found _
    cases found with
    | some | none => trivial

theorem perNameserverLookupIp_only (ns : NameServer) :
    Only (InGroup group) (fun _ => True) (perNameserverLookupIp group ns name options) := by
  rw [perNameserverLookupIp_eq]
  exact Only.perform rfl fun _ => trivial

theorem groupLoop_only (n : Nat) :
    ∀ pending, Only (InGroup group) (fun _ => True)
      (groupLoop group name lookupOptions n pending) := by
  induction n with
  | zero => exact fun _ => trivial
  | succ n ih =>
    intro pending
    refine Only.perform trivial ?_
    intro i
    cases pending[i]? with
    | none => trivial
    | some ns =>
      refine Only.perform rfl ?_
      intro res
      split
      · trivial
      · exact ih _

theorem fastestResponseLoop_only (n : Nat) :
    ∀ pending lastOk lastError, Only (InGroup group) (fun _ => True)
      (fastestResponseLoop client group name options n pending lastOk lastError) := by
  induction n with
  | zero =>
    intro pending lastOk lastError
    unfold fastestResponseLoop
    split <;> trivial
  | succ n ih =>
    intro pending lastOk lastError
    refine Only.perform trivial ?_
    intro i
    cases pending[i]? with
    | none => trivial
    | some ns =>
      refine Only.seq _ (perNameserverLookupIp_only ns) ?_
      intro res _
      cases res with
      | ok response =>
        dsimp only
        split
        · trivial
        · exact ih _ _ _
      | error err =>
        dsimp only
        split
        · split <;> trivial
        · exact ih _ _ _

theorem firstPingLoop_only (n : Nat) :
    ∀ pending pings okTasks errTasks, Only (InGroup group) (fun _ => True)
      (firstPingLoop group name options modes n pending pings okTasks errTasks) := by
  induction n with
  | zero =>
    intro pending pings okTasks errTasks
    unfold firstPingLoop
    split
    · exact chooseIp_only _ _ _
    · refine Only.perform trivial ?_
      intro i
      exact Only.seq _ (multiModePing_only _ modes) fun _ _ => chooseIp_only _ _ _
  | succ n ih =>
    intro pending pings okTasks errTasks
    refine Only.perform trivial ?_
    intro i
    cases pending[i]? with
    | none => exact Only.seq _ (multiModePing_only _ modes) fun _ _ => chooseIp_only _ _ _
    | some ns =>
      refine Only.seq _ (perNameserverLookupIp_only ns) ?_
      intro res _
      cases res with
      | ok lookup =>
        dsimp only
        split
        · trivial
        · exact ih _ _ _ _
      | error err => exact ih _ _ _ _

theorem drainPings_only {onQuery : Nat → PingRace → Async Lookup}
    (hQuery : ∀ i race, Only (InGroup group) (fun _ => True) (onQuery i race)) (n : Nat) :
    ∀ race, Only (InGroup group) (fun _ => True) (drainPings modes onQuery n race) := by
  induction n with
  | zero =>
    intro race
    unfold drainPings
    split
    · exact chooseIp_only _ _ _
    · exact Only.perform trivial fun i => hQuery i race
  | succ n ih =>
    intro race
    refine Only.perform trivial ?_
    intro i
    split
    · exact hQuery i race
    · exact Only.seq _ (multiModePing_only _ modes) fun _ _ => ih _

theorem fastestIpLoop_only (n : Nat) :
    ∀ race, Only (InGroup group) (fun _ => True)
      (fastestIpLoop group name options modes n race) := by
  induction n with
  | zero => exact fun race => drainPings_only (fun _ _ => chooseIp_only _ _ _) _ race
  | succ n ih =>
    intro race
    refine drainPings_only ?_ _ race
    intro i race
    cases race.pending[i]? with
    | none => trivial
    | some ns => exact Only.seq _ (perNameserverLookupIp_only ns) fun _ _ => ih _

/-- Whatever it is answered, a lookup asks no other group. -/
theorem askGroup_only (client : DnsClient) (server : NameServerGroup) (name : Name)
    (options : LookupIpOptions) (isIp : Bool) :
    Only (InGroup server.group) (fun _ => True) (askGroup client server name options isIp) := by
  unfold askGroup
  split
  · unfold lookupIp
    split
    · trivial
    · split
      · exact firstPingLoop_only _ _ _ _ _
      · exact fastestIpLoop_only _ _
      · exact fastestResponseLoop_only _ _ _ _
  · exact groupLoop_only _ _

/-- The answer of a server as the lookup takes it: addresses are filtered. -/
def given (options : LookupIpOptions) (isIp : Bool) (ns : NameServer) (res : Lookup) : Lookup :=
  if isIp then perServer options ns res else res

/-- What a lookup has heard, in the order of arrival. -/
def heard (options : LookupIpOptions) (isIp : Bool) (t : List (Sigma Op.Resp)) : List Lookup :=
  t.flatMap (heardBy (given options isIp))

/-- What a lookup chooses, and how far it waits. -/
theorem lookup_waits {server : NameServerGroup} {name : Name} {isIp : Bool}
    (hServers : server.servers ≠ []) :
    Sat (arrivals name options.lookupOptions (given options isIp))
      (askGroup client server name options isIp) []
      (fun res hs => Chosen options isIp res hs ∧
        Waited client options isIp server.servers.length hs) := by
  have hSome : server.servers.length ≠ 0 := by simpa using hServers
  have hTotal : ([] : List Lookup).length + server.servers.length = server.servers.length :=
    Nat.zero_add _
  cases isIp with
  | false => exact groupLoop_chooses _ _ _ rfl hSome hTotal (by simp)
  | true =>
    show Sat (arrivals name options.lookupOptions (perServer options))
      (lookupIp client server name options) [] _
    unfold lookupIp
    rw [if_neg (by simpa using hServers)]
    unfold Chosen Waited
    split
    all_goals
      rename_i modes hStrategy
      rw [hStrategy]
    · exact firstPingLoop_chooses _ _ [] [] rfl (fun h => absurd h hSome) hTotal
        (by simp [PingsOf]) (by simp [oks])
    · exact fastestIpLoop_chooses _ _ _ rfl (fun h => absurd h hSome) hTotal
        ⟨rfl, rfl, by simp, by simp⟩
    · exact fastestResponseLoop_chooses _ _ [] rfl (fun h => absurd h hSome) hTotal (by simp)
        fun _ => rfl

/-- A lookup in a group with servers chooses a reply heard. -/
theorem lookup_chooses {server : NameServerGroup} {name : Name} {isIp : Bool}
    (hServers : server.servers ≠ []) :
    Sat (arrivals name options.lookupOptions (given options isIp))
      (askGroup client server name options isIp) [] (Chosen options isIp) :=
  Sat.mono (fun _ _ h => h.1) _ (lookup_waits hServers)

/-- The same, along a trace. -/
theorem chosen_of_yields {server : NameServerGroup} {name : Name} {isIp : Bool}
    (hServers : server.servers ≠ []) {t : List (Sigma Op.Resp)}
    (hRun : Prog.Yields (askGroup client server name options isIp) t res)
    (hPossible : ∀ x ∈ t, Possible x) :
    Chosen options isIp res (heard options isIp t) ∧
      Waited client options isIp server.servers.length (heard options isIp t) := by
  have hChosen := Sat.yields (fun hs x => hs ++ heardBy (given options isIp) x) hRun
    (lookup_waits hServers) fun x hx hs => ⟨hPossible x hx, rfl⟩
  rw [← flatMap_eq_foldl] at hChosen
  exact hChosen

/-! ## A choice is among what was heard -/

theorem mem_of_oks {r : DnsResponse} (h : r ∈ oks hs) : .ok r ∈ hs := by
  obtain ⟨x, hx, hEq⟩ := mem_filterMap.mp h
  rw [← eq_ok_of_toOption hEq]
  exact hx

theorem mem_of_errs {e : DnsError} (h : e ∈ errs hs) : .error e ∈ hs := by
  obtain ⟨x, hx, hEq⟩ := mem_filterMap.mp h
  cases x with
  | ok r => exact absurd hEq (by simp [errorOf])
  | error e' => exact Option.some.inj hEq ▸ hx

/-- An optional response, else an optional error, out of those heard. -/
theorem mem_of_okElseError {ok : Option DnsResponse} {err : Option DnsError} {source : Lookup}
    (h : (ok.map Except.ok).or (err.map Except.error) = some source)
    (hOk : ∀ r, ok = some r → r ∈ oks hs) (hErr : ∀ e, err = some e → e ∈ errs hs) :
    source ∈ hs := by
  cases ok with
  | some r =>
    rw [← Option.some.inj h]
    exact mem_of_oks (hOk r rfl)
  | none =>
    cases err with
    | some e =>
      rw [← Option.some.inj h]
      exact mem_of_errs (hErr e rfl)
    | none => cases h

theorem mem_of_responseSource (h : responseSource hs = some res) : res ∈ hs := by
  rcases Option.or_eq_some_iff.mp h with hFirst | ⟨-, hRest⟩
  · exact mem_of_find?_eq_some hFirst
  · exact mem_of_okElseError hRest (fun _ => mem_of_getLast?) (fun _ => mem_of_getLast?)

theorem mem_of_groupSource (h : groupSource hs = some res) : res ∈ hs := by
  rcases Option.or_eq_some_iff.mp h with hFirst | ⟨-, hLast⟩
  · exact mem_of_find?_eq_some hFirst
  · exact mem_of_getLast? hLast

/-- A result passed on, or cut down to the record of one address. -/
inductive PassedOn (source : Lookup) : Lookup → Prop where
  | whole : PassedOn source source
  | cut {ip : IpAddr} {r r' : DnsResponse} (hSource : source = .ok r)
      (hCut : selectRecord ip r = some r') : PassedOn source (.ok r')

/-- What is chosen by address passes on a reply heard. -/
theorem passedOn_of_chosenByAddress (h : ChosenByAddress res hs) :
    ∃ source ∈ hs, PassedOn source res := by
  rcases h with ⟨ip, r, r', hFind, hCut, rfl⟩ | ⟨-, hFirst⟩
  · exact ⟨.ok r, mem_of_oks (mem_of_find?_eq_some hFind), .cut rfl hCut⟩
  · exact ⟨res, mem_of_okElseError hFirst (fun _ => mem_of_head?) (fun _ => mem_of_head?), .whole⟩

/-- What a lookup returns is something it has heard, or the record of one address of it. -/
theorem passedOn_of_chosen {options : LookupIpOptions} {isIp : Bool}
    (h : Chosen options isIp res hs) : ∃ source ∈ hs, PassedOn source res := by
  unfold Chosen at h
  split at h
  · split at h
    · rcases h with ⟨hLast, -⟩ | ⟨hAddress, -⟩
      · exact ⟨res, mem_of_getLast? hLast, .whole⟩
      · exact passedOn_of_chosenByAddress hAddress
    · exact passedOn_of_chosenByAddress h
    · exact ⟨res, mem_of_responseSource h, .whole⟩
  · exact ⟨res, mem_of_groupSource h, .whole⟩

end SmartDns.Ports.LookupChoice
