import Mathlib.Data.List.AList
import SmartDns.Ports.LookupChoice

/-!
# The event loops behind the speed checks

`lookup_ip_first_ping` and `lookup_ip_fastest_ip` put the queries to the servers and
the pings of the addresses they answer into one stream of events. Which event comes
next is not theirs to say. A run is a list of events: a query ends with the result that
was waiting for it, a ping with a result for an address it was given, or with none.

The first ping that ends also ends `lookup_ip_first_ping`. An answer without any
address is pinged as well, and that ping ends at once, so an address that a slower
server has is lost unless another answer with an address has come before.

`Upstream` has the two strategies as programs, which is how the chain calls them. What
the programs return, the event loops return too (`strategies_return`).
-/

namespace SmartDns.Ports.IpStrategies

open Verified DnsMessage DnsLookup Upstream LookupChoice ServerRuns List Option

/-! ## Strategy results -/

inductive IpStrategyResult where
  | DirectResponse (response : DnsResponse)
  | SelectedIp (ip : IpAddr) (okTasks : List DnsResponse) (errTasks : List DnsError)
  | Fallback (okTasks : List DnsResponse) (errTasks : List DnsError)
  | Error (err : DnsError)

/-- `handle_strategy_result`; `none` is its `unreachable!`. -/
def handleStrategyResult : IpStrategyResult → Option Lookup
  | .DirectResponse response => some (.ok response)
  | .SelectedIp ip okTasks _ => (okTasks.findSome? (selectRecord ip)).map .ok
  | .Fallback okTasks errTasks => some (fallback okTasks errTasks)
  | .Error err => some (.error err)

/-- A selected address is in a response, and what is returned is its record. -/
def Selects (ip : IpAddr) (okTasks : List DnsResponse) (errTasks : List DnsError) : Prop :=
  (∃ r ∈ okTasks, ∃ x ∈ r.records, x.rdata.ipAddr = some ip) ∧
    ∃ res x, handleStrategyResult (.SelectedIp ip okTasks errTasks) = some (.ok res) ∧
      res.records = [x] ∧ x.rdata.ipAddr = some ip

theorem selects_of_carries {ip : IpAddr} {okTasks : List DnsResponse} (h : Carries okTasks ip)
    (errTasks : List DnsError) : Selects ip okTasks errTasks := by
  obtain ⟨r, hr, hIp⟩ := h
  refine ⟨⟨r, hr, mem_filterMap.mp hIp⟩, ?_⟩
  have hSome : (okTasks.findSome? (selectRecord ip)).isSome = true := by
    rw [findSome?_isSome_iff]
    exact ⟨r, hr, (selectRecord_isSome ip r).trans (contains_iff_mem.mpr hIp)⟩
  obtain ⟨res, hRes⟩ := isSome_iff_exists.mp hSome
  obtain ⟨r', -, hCut⟩ := exists_of_findSome?_eq_some hRes
  obtain ⟨x, hFind, rfl⟩ := map_eq_some_iff.mp hCut
  have hMatch := find?_some hFind
  exact ⟨_, x, congrArg (Option.map Except.ok) hRes, rfl, beq_iff_eq.mp hMatch⟩

/-! ## The most frequent address -/

/-- The order in which the table of counts is iterated. -/
structure CountOrder where
  apply : List (Sigma fun _ : IpAddr => Nat) → List (Sigma fun _ : IpAddr => Nat)
  perm : ∀ entries, (apply entries).Perm entries

def countIps (ips : List IpAddr) : AList fun _ : IpAddr => Nat :=
  ips.foldl (fun map ip => map.insert ip (((map.lookup ip).map (· + 1)).getD 1)) ∅

/-- `Iterator::max_by_key`: of equal elements the last. -/
def maxByKey {α : Type} (key : α → Nat) (xs : List α) : Option α :=
  xs.foldl (fun best x => if best.all fun b => decide (key b ≤ key x) then some x else best) none

def mostFrequentIp (order : CountOrder) (okTasks : List DnsResponse) : Option IpAddr :=
  (maxByKey (·.2) (order.apply (countIps (okTasks.flatMap (·.ipAddrs))).entries)).map (·.1)

/-- The table counts each address as often as it occurs. -/
theorem lookup_countIps (ips : List IpAddr) (ip : IpAddr) :
    (countIps ips).lookup ip = if ip ∈ ips then some (ips.count ip) else none := by
  induction ips using reverseRecOn with
  | nil => rfl
  | append_singleton ips x ih =>
    have hStep : countIps (ips ++ [x]) =
        (countIps ips).insert x ((((countIps ips).lookup x).map (· + 1)).getD 1) := by
      unfold countIps
      rw [foldl_append]
      rfl
    rw [hStep]
    by_cases hx : ip = x
    · subst hx
      rw [ih]
      by_cases hIn : ip ∈ ips
      · simp [hIn]
      · simp [hIn, count_eq_zero_of_not_mem hIn]
    · rw [AList.lookup_insert_ne hx, ih]
      simp [hx, Ne.symm hx]

/-- The value is one of the best of the list, and absent only if the list is empty. -/
def BestOf {α : Type} (le : α → α → Prop) (xs : List α) : Option α → Prop
  | none => xs = []
  | some b => b ∈ xs ∧ ∀ x ∈ xs, le b x

/-- One more element takes the place of the best, or is no better. -/
theorem BestOf.concat {α : Type} {le : α → α → Prop} {xs : List α} {best : Option α} {x : α}
    (h : BestOf le xs best) (hRefl : ∀ a, le a a) (hTrans : ∀ {a b c}, le a b → le b c → le a c)
    (replace : Bool) (hReplace : ∀ b ∈ best, if replace then le x b else le b x)
    (hNone : best = none → replace = true) :
    BestOf le (xs ++ [x]) (if replace then some x else best) := by
  cases best with
  | none =>
    rw [hNone rfl, show xs = [] from h]
    refine ⟨mem_singleton_self x, ?_⟩
    exact forall_mem_singleton.mpr (hRefl x)
  | some b =>
    have hLe := hReplace b rfl
    obtain ⟨hMem, hAll⟩ := h
    cases replace with
    | true =>
      refine ⟨mem_append_right xs (mem_singleton_self x), ?_⟩
      intro y hy
      rcases mem_append.mp hy with hy | hy
      · exact hTrans hLe (hAll y hy)
      · rw [mem_singleton.mp hy]
        exact hRefl x
    | false =>
      refine ⟨mem_append_left [x] hMem, ?_⟩
      exact forall_mem_append.mpr ⟨hAll, forall_mem_singleton.mpr hLe⟩

/-- The element chosen has the greatest key. -/
theorem maxByKey_best {α : Type} (key : α → Nat) (xs : List α) :
    BestOf (fun b x => key x ≤ key b) xs (maxByKey key xs) := by
  induction xs using reverseRecOn with
  | nil => rfl
  | append_singleton xs x ih =>
    unfold maxByKey at ih ⊢
    rw [foldl_append]
    refine ih.concat ?_ ?_ _ ?_ ?_
    · exact fun a => Nat.le_refl (key a)
    · exact fun hab hbc => Nat.le_trans hbc hab
    · intro b hb
      rw [hb]
      by_cases hLe : key b ≤ key x
      · simp [hLe]
      · simp
        omega
    · intro hNone
      rw [hNone]
      rfl

section MostFrequent

variable {order : CountOrder} {okTasks : List DnsResponse}

/-- The table of counts as it is iterated. -/
def counts (order : CountOrder) (okTasks : List DnsResponse) : List (Sigma fun _ : IpAddr => Nat) :=
  order.apply (countIps (okTasks.flatMap (·.ipAddrs))).entries

theorem mem_counts {ip : IpAddr} {n : Nat} :
    ⟨ip, n⟩ ∈ counts order okTasks ↔ Carries okTasks ip ∧ n = ipCount okTasks ip := by
  have hCarries : Carries okTasks ip ↔ ip ∈ okTasks.flatMap (·.ipAddrs) := mem_flatMap.symm
  rw [counts, (order.perm _).mem_iff, ← AList.mem_lookup_iff, lookup_countIps, hCarries]
  split
  · rename_i hIn
    rw [mem_some_iff, eq_comm]
    exact (and_iff_right hIn).symm
  · rename_i hOut
    exact iff_of_false (by simp) (fun h => hOut h.1)

/-- No address is in more places than the one chosen. -/
theorem mostFrequentIp_spec {ip : IpAddr} (h : mostFrequentIp order okTasks = some ip) :
    Carries okTasks ip ∧ ∀ ip', ipCount okTasks ip' ≤ ipCount okTasks ip := by
  have hBest := maxByKey_best (·.2) (counts order okTasks)
  obtain ⟨⟨_, n⟩, hMax, rfl⟩ := map_eq_some_iff.mp h
  rw [counts, hMax] at hBest
  obtain ⟨hCarries, hCount⟩ := mem_counts.mp hBest.1
  refine ⟨hCarries, ?_⟩
  intro ip'
  by_cases hIp : ip' ∈ okTasks.flatMap (·.ipAddrs)
  · have hLe := hBest.2 ⟨ip', ipCount okTasks ip'⟩ (mem_counts.mpr ⟨mem_flatMap.mp hIp, rfl⟩)
    rw [← hCount]
    exact hLe
  · rw [ipCount, count_eq_zero_of_not_mem hIp]
    exact Nat.zero_le _

/-- No address is most frequent only when there is none. -/
theorem mostFrequentIp_none (h : mostFrequentIp order okTasks = none) :
    ∀ r ∈ okTasks, r.ipAddrs = [] := by
  have hBest := maxByKey_best (·.2) (counts order okTasks)
  rw [counts, map_eq_none_iff.mp h] at hBest
  intro r hr
  apply eq_nil_iff_forall_not_mem.mpr
  intro ip hIp
  have hEntry : ⟨ip, _⟩ ∈ counts order okTasks := mem_counts.mpr ⟨⟨r, hr, hIp⟩, rfl⟩
  rw [show counts order okTasks = [] from hBest] at hEntry
  cases hEntry

end MostFrequent

/-- The end of both loops. -/
def finish (order : CountOrder) (fastest : Option IpAddr) (okTasks : List DnsResponse)
    (errTasks : List DnsError) : IpStrategyResult :=
  match fastest with
  | some ip => .SelectedIp ip okTasks errTasks
  | none =>
    match mostFrequentIp order okTasks with
    | some ip => .SelectedIp ip okTasks errTasks
    | none => .Fallback okTasks errTasks

/-- If an address is selected, it is there to be returned. -/
def Sound (result : IpStrategyResult) : Prop :=
  ∀ ip okTasks errTasks, result = .SelectedIp ip okTasks errTasks → Selects ip okTasks errTasks

/-- What is returned has an address. -/
def Keeps (result : IpStrategyResult) : Prop :=
  ∃ res, handleStrategyResult result = some (.ok res) ∧ res.ipAddrs ≠ []

section Finish

variable (order : CountOrder) {fastest : Option IpAddr} {okTasks : List DnsResponse}
  (errTasks : List DnsError)

/-- What the loops end with, the pings having reported addresses of the responses. -/
theorem finish_cases (hFastest : ∀ ip ∈ fastest, Carries okTasks ip) :
    (∃ ip, finish order fastest okTasks errTasks = .SelectedIp ip okTasks errTasks ∧
      Carries okTasks ip ∧
      (fastest = some ip ∨ fastest = none ∧ ∀ ip', ipCount okTasks ip' ≤ ipCount okTasks ip)) ∨
    (fastest = none ∧ finish order fastest okTasks errTasks = .Fallback okTasks errTasks ∧
      ∀ r ∈ okTasks, r.ipAddrs = []) := by
  unfold finish
  cases fastest with
  | some ip => exact .inl ⟨ip, rfl, hFastest ip rfl, .inl rfl⟩
  | none =>
    cases hFrequent : mostFrequentIp order okTasks with
    | some ip =>
      obtain ⟨hCarries, hMost⟩ := mostFrequentIp_spec hFrequent
      exact .inl ⟨ip, rfl, hCarries, .inr ⟨rfl, hMost⟩⟩
    | none => exact .inr ⟨rfl, rfl, mostFrequentIp_none hFrequent⟩

/-- A result finished with a carried address is sound. -/
theorem sound_finish (hFastest : ∀ ip ∈ fastest, Carries okTasks ip) :
    Sound (finish order fastest okTasks errTasks) := by
  intro ip okTasks' errTasks' h
  rcases finish_cases order errTasks hFastest with ⟨ip', hEq, hCarries, -⟩ | ⟨-, hEq, -⟩
  · rw [hEq] at h
    cases h
    exact selects_of_carries hCarries errTasks
  · rw [hEq] at h
    cases h

theorem keeps_finish (hFastest : ∀ ip ∈ fastest, Carries okTasks ip)
    (hSome : ∃ r ∈ okTasks, r.ipAddrs ≠ []) : Keeps (finish order fastest okTasks errTasks) := by
  rcases finish_cases order errTasks hFastest with ⟨ip, hEq, hCarries, -⟩ | ⟨-, -, hNone⟩
  · obtain ⟨-, res, x, hHandle, hRecords, hIp⟩ := selects_of_carries hCarries errTasks
    refine ⟨res, by rw [hEq, hHandle], ?_⟩
    have hAddrs : res.ipAddrs = [ip] := by
      rw [DnsResponse.ipAddrs, show res.message.answers = [x] from hRecords]
      simp [hIp]
    rw [hAddrs]
    exact cons_ne_nil ip []
  · obtain ⟨r, hr, hAddrs⟩ := hSome
    exact absurd (hNone r hr) hAddrs

end Finish

/-! ## Events -/

/-- A query ends with its result, or a ping with the address it has reached and the time. -/
inductive Event where
  | query (i : Nat)
  | ping (i : Nat) (out : Option (IpAddr × Nat))

section Loops

variable {σ : Type} {step : σ → Event → Option σ} {result : σ → Option IpStrategyResult}
  {ok : σ → Event → Prop} {s₀ : σ} {Good : IpStrategyResult → Prop}

/-- In every order of events the loop comes to an end, and what it ends with is good if each
event meets the condition. -/
structure Settles (step : σ → Event → Option σ) (result : σ → Option IpStrategyResult)
    (ok : σ → Event → Prop) (s₀ : σ) (Good : IpStrategyResult → Prop) : Prop where
  finite : ∃ n, ∀ es s, runTrace step s₀ es = some s → es.length ≤ n
  goesOn : ∀ es s, runTrace step s₀ es = some s → result s = none → ∃ e s', step s e = some s'
  good : ∀ es s r, runTrace step s₀ es = some s → StepsMeet step ok s₀ es → result s = some r →
    Good r

/-- Steps that lose weight end, and the result is good by the invariant. -/
theorem settles (Inv : σ → Prop) {μ : σ → Nat} (hInv : Inv s₀)
    (hStep : ∀ s e s', Inv s → ok s e → step s e = some s' → Inv s')
    (hLess : ∀ s e s', step s e = some s' → μ s' < μ s)
    (hOn : ∀ s, result s = none → ∃ e s', step s e = some s')
    (hGood : ∀ s r, Inv s → result s = some r → Good r) : Settles step result ok s₀ Good where
  finite := by
    refine ⟨μ s₀, ?_⟩
    intro es s hRun
    have hBound := runTrace_length_le step hLess es hRun
    omega
  goesOn _ s _ := hOn s
  good es s r hRun hMeet := hGood s r (runTrace_invariant step hStep es hInv hMeet hRun)

end Loops

/-- The results heard, and those still to come. -/
def Awaits (results hs pending : List Lookup) : Prop := (hs ++ pending).Perm results

/-- More than the events that a result can still cause. -/
def cost : Lookup → Nat
  | .ok lookup => lookup.ipAddrs.length + 2
  | .error _ => 2

section Awaiting

variable {results hs pending : List Lookup} {i : Nat} {res : Lookup}

theorem perm_of_getElem? {α : Type} {xs : List α} {x : α} (h : xs[i]? = some x) :
    (x :: xs.eraseIdx i).Perm xs := by
  obtain ⟨hi, rfl⟩ := List.getElem?_eq_some_iff.mp h
  exact getElem_cons_eraseIdx_perm hi

theorem Awaits.heard (h : Awaits results hs pending) (hRes : pending[i]? = some res) :
    Awaits results (hs ++ [res]) (pending.eraseIdx i) := by
  unfold Awaits at h ⊢
  rw [append_assoc]
  exact ((perm_of_getElem? hRes).append_left hs).trans h

theorem Awaits.oks_perm (h : Awaits results hs []) : (oks hs).Perm (oks results) := by
  have hPerm := List.Perm.filterMap Except.toOption h
  rw [append_nil] at hPerm
  exact hPerm

theorem two_le_cost (res : Lookup) : 2 ≤ cost res := by
  cases res with
  | ok lookup => exact Nat.le_add_left 2 _
  | error err => exact le_rfl

theorem cost_eraseIdx (h : pending[i]? = some res) :
    cost res + ((pending.eraseIdx i).map cost).sum = (pending.map cost).sum :=
  ((perm_of_getElem? h).map cost).sum_eq

end Awaiting

/-! ## The first ping -/

/-- `lookup_ip_first_ping` between two events, or after the event that has ended it. -/
inductive FirstPing where
  | waiting (pending : List Lookup) (pings : List (List IpAddr)) (okTasks : List DnsResponse)
      (errTasks : List DnsError)
  | answered (lookup : DnsResponse)
  | pinged (fastest : Option IpAddr) (okTasks : List DnsResponse) (errTasks : List DnsError)

namespace FirstPing

def start (results : List Lookup) : FirstPing := .waiting results [] [] []

def onQuery (pending : List Lookup) (pings : List (List IpAddr)) (okTasks : List DnsResponse)
    (errTasks : List DnsError) : Lookup → FirstPing
  | .ok lookup =>
    if lookup.ipAddrs.length = 1 then .answered lookup
    else .waiting pending (pings ++ [lookup.ipAddrs]) (okTasks ++ [lookup]) errTasks
  | .error err => .waiting pending pings okTasks (errTasks ++ [err])

def step : FirstPing → Event → Option FirstPing
  | .waiting pending pings okTasks errTasks, .query i =>
    pending[i]?.map (onQuery (pending.eraseIdx i) pings okTasks errTasks)
  | .waiting _ pings okTasks errTasks, .ping i out => do
    let addrs ← pings[i]?
    if out.all (addrs.contains ·.1) then some (.pinged (out.map (·.1)) okTasks errTasks) else none
  | _, _ => none

def result (order : CountOrder) : FirstPing → Option IpStrategyResult
  | .waiting pending pings okTasks errTasks =>
    if pending.isEmpty && pings.isEmpty then some (finish order none okTasks errTasks) else none
  | .answered lookup => some (.DirectResponse lookup)
  | .pinged fastest okTasks errTasks => some (finish order fastest okTasks errTasks)

/-- A ping may end once some response with an address has come. -/
def ripe : FirstPing → Event → Bool
  | .waiting _ _ okTasks _, .ping _ _ => okTasks.any fun r => !r.ipAddrs.isEmpty
  | _, _ => true

def Inv (results : List Lookup) : FirstPing → Prop
  | .waiting pending pings okTasks errTasks =>
    ∃ hs, okTasks = oks hs ∧ errTasks = errs hs ∧ Awaits results hs pending ∧ PingsOf pings okTasks
  | .answered lookup => lookup.ipAddrs ≠ []
  | .pinged fastest okTasks _ => ∀ ip ∈ fastest, Carries okTasks ip

/-- A loop that a ping has ended had a response with an address. -/
def Ripened : FirstPing → Prop
  | .pinged _ okTasks _ => ∃ r ∈ okTasks, r.ipAddrs ≠ []
  | _ => True

def weight : FirstPing → Nat
  | .waiting pending pings _ _ => (pending.map cost).sum + pings.length
  | _ => 0

variable {s s' : FirstPing} {e : Event}

theorem Inv.start (results : List Lookup) : Inv results (start results) :=
  ⟨[], rfl, rfl, .refl _, by simp [PingsOf]⟩

theorem step_cases (h : step s e = some s') :
    ∃ pending pings okTasks errTasks, s = .waiting pending pings okTasks errTasks ∧
      ((∃ i res, e = .query i ∧ pending[i]? = some res ∧
          s' = onQuery (pending.eraseIdx i) pings okTasks errTasks res) ∨
        ∃ i out addrs, e = .ping i out ∧ pings[i]? = some addrs ∧ (∀ o ∈ out, o.1 ∈ addrs) ∧
          s' = .pinged (out.map (·.1)) okTasks errTasks) := by
  cases s with
  | waiting pending pings okTasks errTasks =>
    refine ⟨pending, pings, okTasks, errTasks, rfl, ?_⟩
    cases e with
    | query i =>
      obtain ⟨res, hRes, rfl⟩ := map_eq_some_iff.mp h
      exact .inl ⟨i, res, rfl, hRes, rfl⟩
    | ping i out =>
      obtain ⟨addrs, hAddrs, hEnd⟩ := bind_eq_some_iff.mp h
      obtain ⟨hOut, hEq⟩ := ite_none_right_eq_some.mp hEnd
      refine .inr ⟨i, out, addrs, rfl, hAddrs, ?_, (some.inj hEq).symm⟩
      intro o ho
      rw [mem_def.mp ho] at hOut
      simpa using hOut
  | answered | pinged => cases h

variable {results : List Lookup}

/-- One event keeps the invariant of the first ping. -/
theorem Inv.step (hInv : Inv results s) (h : step s e = some s') : Inv results s' := by
  obtain ⟨pending, pings, okTasks, errTasks, rfl, hCase⟩ := step_cases h
  obtain ⟨hs, rfl, rfl, hAwaits, hPings⟩ := hInv
  rcases hCase with ⟨i, res, -, hRes, rfl⟩ | ⟨i, out, addrs, -, hAddrs, hOut, rfl⟩
  · have hNext := hAwaits.heard hRes
    cases res with
    | error err => exact ⟨_, by simp, by simp, hNext, hPings⟩
    | ok lookup =>
      by_cases hSingle : lookup.ipAddrs.length = 1
      · rw [onQuery, if_pos hSingle]
        exact ne_nil_of_length_eq_add_one hSingle
      · rw [onQuery, if_neg hSingle]
        exact ⟨_, by simp, by simp, hNext, hPings.concat lookup⟩
  · intro ip hIp
    obtain ⟨o, ho, rfl⟩ := map_eq_some_iff.mp hIp
    obtain ⟨r, hr, rfl⟩ := hPings addrs (mem_of_getElem? hAddrs)
    exact ⟨r, hr, hOut o ho⟩

theorem ripened_step (hRipe : ripe s e = true) (h : step s e = some s') : Ripened s' := by
  obtain ⟨pending, pings, okTasks, errTasks, rfl, hCase⟩ := step_cases h
  rcases hCase with ⟨i, res, rfl, -, rfl⟩ | ⟨i, out, addrs, rfl, -, -, rfl⟩
  · unfold onQuery
    split
    · split <;> trivial
    · trivial
  · obtain ⟨r, hr, hAddrs⟩ := any_eq_true.mp hRipe
    exact ⟨r, hr, by simpa using hAddrs⟩

/-- Every event of the first ping gets it nearer its end. -/
theorem weight_step (h : step s e = some s') : weight s' < weight s := by
  obtain ⟨pending, pings, okTasks, errTasks, rfl, hCase⟩ := step_cases h
  rcases hCase with ⟨i, res, -, hRes, rfl⟩ | ⟨i, out, addrs, -, hAddrs, -, rfl⟩
  · have hCost := cost_eraseIdx hRes
    have hTwo := two_le_cost res
    unfold onQuery
    split
    · split
      · show 0 < (pending.map cost).sum + pings.length
        omega
      · show ((pending.eraseIdx i).map cost).sum + (pings ++ [_]).length < _ + pings.length
        rw [length_append, length_singleton]
        omega
    · show ((pending.eraseIdx i).map cost).sum + pings.length < _ + pings.length
      omega
  · have hPos := (List.getElem?_eq_some_iff.mp hAddrs).1
    show 0 < (pending.map cost).sum + pings.length
    omega

variable {order : CountOrder}

/-- The first ping can go on until it has a result. -/
theorem goes_on (h : s.result order = none) : ∃ e s', step s e = some s' := by
  cases s with
  | waiting pending pings okTasks errTasks =>
    cases pending with
    | cons res pending => exact ⟨.query 0, _, rfl⟩
    | nil =>
      cases pings with
      | cons addrs pings => exact ⟨.ping 0 none, _, rfl⟩
      | nil => cases h
  | answered | pinged => cases h

/-- The result of the first ping is sound. -/
theorem Inv.sound {r : IpStrategyResult} (hInv : Inv results s) (h : s.result order = some r) :
    Sound r := by
  cases s with
  | waiting pending pings okTasks errTasks =>
    obtain ⟨-, hEq⟩ := ite_none_right_eq_some.mp h
    rw [← some.inj hEq]
    exact sound_finish order errTasks (by simp)
  | answered lookup =>
    cases h
    exact nofun
  | pinged fastest okTasks errTasks =>
    rw [← some.inj h]
    exact sound_finish order errTasks hInv

/-- A ripened result keeps an address when there is one. -/
theorem Inv.keeps {r : IpStrategyResult} (hInv : Inv results s) (hRipened : Ripened s)
    (hSome : ∃ r ∈ oks results, r.ipAddrs ≠ []) (h : s.result order = some r) : Keeps r := by
  cases s with
  | waiting pending pings okTasks errTasks =>
    obtain ⟨hEmpty, hEq⟩ := ite_none_right_eq_some.mp h
    obtain ⟨hs, rfl, -, hAwaits, -⟩ := hInv
    have hNil : pending = [] := isEmpty_iff.mp (Bool.and_eq_true_iff.mp hEmpty).1
    rw [hNil] at hAwaits
    rw [← some.inj hEq]
    obtain ⟨r, hr, hAddrs⟩ := hSome
    exact keeps_finish order errTasks (by simp) ⟨r, hAwaits.oks_perm.mem_iff.mpr hr, hAddrs⟩
  | answered lookup =>
    cases h
    exact ⟨lookup, rfl, hInv⟩
  | pinged fastest okTasks errTasks =>
    rw [← some.inj h]
    exact keeps_finish order errTasks hInv hRipened

end FirstPing

/-! ## The fastest address -/

/-- `lookup_ip_fastest_ip` between two events, and the results still to come. Of the table
`ip_addr_stats` only the keys matter: they are the addresses `pinged`. -/
structure FastestIp where
  race : PingRace
  results : List Lookup

namespace FastestIp

def start (servers : List Middleware.NameServer) (results : List Lookup) : FastestIp :=
  ⟨⟨servers, [], [], none, [], []⟩, results⟩

def step (s : FastestIp) : Event → Option FastestIp
  | .query i => s.results[i]?.map fun res => ⟨s.race.queryDone i res, s.results.eraseIdx i⟩
  | .ping i out => do
    let ip ← s.race.pings[i]?
    if out.all (·.1 == ip) then some { s with race := s.race.pingDone i out } else none

def result (order : CountOrder) (s : FastestIp) : Option IpStrategyResult :=
  if s.results.isEmpty && s.race.pings.isEmpty then
    some (finish order (s.race.fastest.map (·.1)) s.race.okTasks s.race.errTasks)
  else none

structure Inv (results : List Lookup) (s : FastestIp) : Prop where
  heard : ∃ hs, RaceInv s.race hs ∧ Awaits results hs s.results
  nodup : s.race.pinged.Nodup
  pinged : ∀ ip, ip ∈ s.race.pinged ↔ Carries s.race.okTasks ip

def weight (s : FastestIp) : Nat := (s.results.map cost).sum + s.race.pings.length

variable {s s' : FastestIp} {e : Event} {results : List Lookup}

theorem step_cases (h : step s e = some s') :
    (∃ i res, e = .query i ∧ s.results[i]? = some res ∧
        s' = ⟨s.race.queryDone i res, s.results.eraseIdx i⟩) ∨
      ∃ i out ip, e = .ping i out ∧ s.race.pings[i]? = some ip ∧ (∀ o ∈ out, o.1 = ip) ∧
        s' = { s with race := s.race.pingDone i out } := by
  cases e with
  | query i =>
    obtain ⟨res, hRes, rfl⟩ := map_eq_some_iff.mp h
    exact .inl ⟨i, res, rfl, hRes, rfl⟩
  | ping i out =>
    obtain ⟨ip, hIp, hEnd⟩ := bind_eq_some_iff.mp h
    obtain ⟨hOut, hEq⟩ := ite_none_right_eq_some.mp hEnd
    refine .inr ⟨i, out, ip, rfl, hIp, ?_, (some.inj hEq).symm⟩
    intro o ho
    rw [mem_def.mp ho] at hOut
    simpa using hOut

theorem Inv.start (servers : List Middleware.NameServer) :
    Inv results (start servers results) where
  heard := ⟨[], ⟨rfl, rfl, by simp [FastestIp.start], by simp [FastestIp.start]⟩, .refl _⟩
  nodup := nodup_nil
  pinged ip := by simp [FastestIp.start, Carries]

/-- A response adds the addresses that have not been pinged, each once. -/
theorem pinged_queryDone {race : PingRace} (hNodup : race.pinged.Nodup)
    (hPinged : ∀ ip, ip ∈ race.pinged ↔ Carries race.okTasks ip) (i : Nat) (res : Lookup) :
    (race.queryDone i res).pinged.Nodup ∧
      ∀ ip, ip ∈ (race.queryDone i res).pinged ↔ Carries (race.queryDone i res).okTasks ip := by
  cases res with
  | error err => exact ⟨hNodup, hPinged⟩
  | ok lookup =>
    constructor
    · refine hNodup.append (lookup.ipAddrs.nodup_dedup.filter _) ?_
      intro ip hOld hNew
      simpa [hOld] using (mem_filter.mp hNew).2
    · intro ip
      have hSplit : Carries (race.okTasks ++ [lookup]) ip ↔
          Carries race.okTasks ip ∨ ip ∈ lookup.ipAddrs := by
        simp [Carries]
      refine Iff.trans ?_ hSplit.symm
      show ip ∈ race.pinged ++ _ ↔ _
      rw [← hPinged]
      by_cases hIn : ip ∈ race.pinged
      · simp [hIn]
      · simp [hIn]

/-- One event keeps the invariant of the fastest address. -/
theorem Inv.step (hInv : Inv results s) (h : step s e = some s') : Inv results s' := by
  obtain ⟨hs, hRace, hAwaits⟩ := hInv.heard
  rcases step_cases h with ⟨i, res, -, hRes, rfl⟩ | ⟨i, out, ip, -, hIp, hOut, rfl⟩
  · obtain ⟨hNodup, hPinged⟩ := pinged_queryDone hInv.nodup hInv.pinged i res
    exact ⟨⟨_, hRace.queryDone i res, hAwaits.heard hRes⟩, hNodup, hPinged⟩
  · refine ⟨⟨hs, hRace.pingDone ?_, hAwaits⟩, hInv.nodup, hInv.pinged⟩
    intro o ho
    rw [hIp, hOut o ho]
    exact mem_singleton_self ip

theorem weight_step (h : step s e = some s') : weight s' < weight s := by
  rcases step_cases h with ⟨i, res, -, hRes, rfl⟩ | ⟨i, out, ip, -, hIp, -, rfl⟩
  · have hCost := cost_eraseIdx hRes
    have hPings : (s.race.queryDone i res).pings.length + 2 ≤ s.race.pings.length + cost res := by
      cases res with
      | error err => exact le_rfl
      | ok lookup =>
        have hFresh : (lookup.ipAddrs.dedup.filter fun ip => !s.race.pinged.contains ip).length ≤
            lookup.ipAddrs.length :=
          (length_filter_le _ _).trans (dedup_sublist lookup.ipAddrs).length_le
        show (s.race.pings ++ _).length + 2 ≤ s.race.pings.length + (lookup.ipAddrs.length + 2)
        rw [length_append]
        omega
    unfold weight
    dsimp only
    omega
  · have hLt := (List.getElem?_eq_some_iff.mp hIp).1
    have hPings : (s.race.pingDone i out).pings.length + 1 = s.race.pings.length := by
      show (s.race.pings.eraseIdx i).length + 1 = _
      rw [length_eraseIdx_of_lt hLt]
      omega
    unfold weight
    dsimp only
    omega

theorem goes_on {order : CountOrder} (h : s.result order = none) : ∃ e s', step s e = some s' := by
  obtain ⟨⟨pending, pings, pinged, fastest, okTasks, errTasks⟩, results⟩ := s
  cases results with
  | cons res results => exact ⟨.query 0, _, rfl⟩
  | nil =>
    cases pings with
    | cons ip pings => exact ⟨.ping 0 none, _, rfl⟩
    | nil => cases h

/-- A loop that has ended has heard every result. -/
theorem Inv.ended {order : CountOrder} {r : IpStrategyResult} (hInv : Inv results s)
    (h : s.result order = some r) :
    r = finish order (s.race.fastest.map (·.1)) s.race.okTasks s.race.errTasks ∧
      s.race.okTasks.Perm (oks results) ∧
      s.race.pings = [] ∧ ∀ ip ∈ s.race.fastest.map (·.1), Carries s.race.okTasks ip := by
  obtain ⟨hEmpty, hEq⟩ := ite_none_right_eq_some.mp h
  obtain ⟨hNone, hPings⟩ := Bool.and_eq_true_iff.mp hEmpty
  obtain ⟨hs, hRace, hAwaits⟩ := hInv.heard
  rw [isEmpty_iff.mp hNone] at hAwaits
  rw [hRace.okTasks]
  exact ⟨hRace.okTasks ▸ (some.inj hEq).symm, hAwaits.oks_perm, isEmpty_iff.mp hPings,
    hRace.reported⟩

/-- The pings that have succeeded. -/
def successes (es : List Event) : List (IpAddr × Nat) :=
  es.filterMap fun e =>
    match e with
    | .ping _ out => out
    | .query _ => none

/-- The addresses whose pings end in a run. A ping ends once for each time it was started. -/
def ended : FastestIp → List Event → List IpAddr
  | _, [] => []
  | s, e :: es =>
    (match e with
      | .ping i _ => s.race.pings[i]?.toList
      | .query _ => []) ++ ((step s e).map fun s' => ended s' es).getD []

/-- The pings under way and those that have ended are those of the addresses in the table. -/
theorem ended_run (es : List Event) : ∀ {s s' : FastestIp} (before : List IpAddr),
    (before ++ s.race.pings).Perm s.race.pinged → runTrace step s es = some s' →
      (before ++ ended s es ++ s'.race.pings).Perm s'.race.pinged := by
  induction es with
  | nil =>
    intro s s' before hPerm hRun
    cases hRun
    rw [ended, append_nil]
    exact hPerm
  | cons e es ih =>
    intro s s'' before hPerm hRun
    obtain ⟨s', hFirst, hRest⟩ := runTrace_cons_some step hRun
    unfold ended
    rw [hFirst]
    rcases step_cases hFirst with ⟨i, res, rfl, -, rfl⟩ | ⟨i, out, ip, rfl, hIp, -, rfl⟩
    · refine ih before ?_ hRest
      cases res with
      | error err => exact hPerm
      | ok lookup =>
        show (before ++ (s.race.pings ++ _)).Perm (s.race.pinged ++ _)
        rw [← append_assoc]
        exact hPerm.append_right _
    · have hNext : ((before ++ [ip]) ++ s.race.pings.eraseIdx i).Perm s.race.pinged := by
        rw [append_assoc, singleton_append]
        exact ((perm_of_getElem? hIp).append_left before).trans hPerm
      have hAll := ih (s := { s with race := s.race.pingDone i out }) _ hNext hRest
      simpa [hIp] using hAll

/-- A finished ping leaves the fastest of those seen. -/
theorem best_pingDone {race : PingRace} {outs : List (IpAddr × Nat)}
    (h : BestOf (fun o o' => o.2 ≤ o'.2) outs race.fastest) (i : Nat) (o : IpAddr × Nat) :
    BestOf (fun o o' => o.2 ≤ o'.2) (outs ++ [o]) (race.pingDone i (some o)).fastest := by
  have hReplace : ∀ t ∈ race.fastest,
      if race.fastest.all fun t => decide (o.2 < t.2) then o.2 ≤ t.2 else t.2 ≤ o.2 := by
    intro t ht
    rw [ht]
    by_cases hLess : o.2 < t.2
    · simp [Nat.le_of_lt hLess]
    · simp [Nat.le_of_not_lt hLess]
  have hNone : race.fastest = none → (race.fastest.all fun t => decide (o.2 < t.2)) = true := by
    intro hNone
    rw [hNone]
    rfl
  have hNext := h.concat (fun a => Nat.le_refl a.2) Nat.le_trans _ hReplace hNone
  unfold PingRace.pingDone
  cases hFastest : race.fastest with
  | none =>
    rw [hFastest] at hNext
    exact hNext
  | some t =>
    rw [hFastest] at hNext
    simpa using hNext

/-- No ping that has succeeded was faster than the one remembered. -/
theorem best_run (es : List Event) : ∀ {s s' : FastestIp} {outs : List (IpAddr × Nat)},
    BestOf (fun o o' => o.2 ≤ o'.2) outs s.race.fastest → runTrace step s es = some s' →
      BestOf (fun o o' => o.2 ≤ o'.2) (outs ++ successes es) s'.race.fastest := by
  induction es with
  | nil =>
    intro s s' outs hBest hRun
    cases hRun
    rw [successes, filterMap_nil, append_nil]
    exact hBest
  | cons e es ih =>
    intro s s'' outs hBest hRun
    obtain ⟨s', hFirst, hRest⟩ := runTrace_cons_some step hRun
    rcases step_cases hFirst with ⟨i, res, rfl, -, rfl⟩ | ⟨i, out, ip, rfl, -, -, rfl⟩
    · refine ih (s := ⟨s.race.queryDone i res, _⟩) ?_ hRest
      cases res <;> exact hBest
    · cases out with
      | none => exact ih (s := ⟨s.race.pingDone i none, s.results⟩) hBest hRest
      | some o =>
        have hAll := ih (best_pingDone hBest i o) hRest
        rw [append_assoc] at hAll
        exact hAll

end FastestIp

/-! ## The loops as programs -/

section Programs

open DomainName Middleware RuleTree LookupRules

variable {hs : List Lookup} {name : Name} {lookupOptions : LookupOptions}
  {given : NameServer → Lookup → Lookup} {fastest : Option IpAddr}

theorem maxByKey_concat {α : Type} {key : α → Nat} {xs : List α} {x : α}
    (h : ∀ y ∈ xs, key y ≤ key x) : maxByKey key (xs ++ [x]) = some x := by
  have hBest := maxByKey_best key xs
  unfold maxByKey at hBest ⊢
  rw [foldl_append, foldl_cons, foldl_nil]
  refine if_pos ?_
  rw [Option.all_eq_true]
  intro b hb
  rw [hb] at hBest
  exact decide_eq_true (h b hBest.1)

/-- The order that puts the entry of an address last. -/
def lastOrder (ip : IpAddr) : CountOrder where
  apply entries := (entries.filter fun e => !(e.1 == ip)) ++ entries.filter (·.1 == ip)
  perm entries := perm_append_comm.trans (filter_append_perm (fun e => e.1 == ip) entries)

/-- Any address that occurs most often is the one chosen in some order of the table. -/
theorem mostFrequentIp_lastOrder {ip : IpAddr} {okTasks : List DnsResponse}
    (h : ip ∈ mostFrequentIps okTasks) : mostFrequentIp (lastOrder ip) okTasks = some ip := by
  have hMost : ∀ e ∈ counts (lastOrder ip) okTasks, e.2 ≤ ipCount okTasks ip := by
    rintro ⟨ip', n⟩ he
    obtain ⟨hCarries, rfl⟩ := mem_counts.mp he
    have hAll := (mem_filter.mp h).2
    simp only [List.all_eq_true, decide_eq_true_eq] at hAll
    exact hAll ip' (mem_dedup.mpr (mem_flatMap.mpr hCarries))
  have hEntry : ⟨ip, ipCount okTasks ip⟩ ∈ counts (lastOrder ip) okTasks :=
    mem_counts.mpr ⟨mem_mostFrequentIps h, rfl⟩
  obtain ⟨front, back, hCounts, hBack⟩ : ∃ front back,
      counts (lastOrder ip) okTasks = front ++ back ∧ ∀ e, e ∈ back ↔
        e ∈ counts (lastOrder ip) okTasks ∧ e.1 = ip :=
    ⟨_, _, rfl, fun e => by simp [counts, lastOrder]; tauto⟩
  have hSome : back ≠ [] := ne_nil_of_mem ((hBack _).mpr ⟨hEntry, rfl⟩)
  obtain ⟨hIn, hKey⟩ := (hBack _).mp (getLast_mem hSome)
  have hLast : (back.getLast hSome).2 = ipCount okTasks ip := by
    rw [← hKey]
    exact (mem_counts.mp hIn).2
  show (maxByKey (·.2) (counts (lastOrder ip) okTasks)).map (·.1) = some ip
  rw [hCounts, ← dropLast_append_getLast hSome, ← append_assoc, maxByKey_concat, map_some, hKey]
  intro e he
  rw [hLast]
  refine hMost e ?_
  rw [hCounts]
  exact mem_append.mpr ((mem_append.mp he).imp_right mem_of_mem_dropLast)

/-- A selected address that is carried gives a reply. -/
theorem handle_selectedIp {ip : IpAddr} {okTasks : List DnsResponse} (h : Carries okTasks ip)
    (errTasks : List DnsError) :
    handleStrategyResult (.SelectedIp ip okTasks errTasks) = some (selectedIp ip okTasks) := by
  obtain ⟨-, res, -, hHandle, -⟩ := selects_of_carries h errTasks
  obtain ⟨res', hFound, -⟩ := map_eq_some_iff.mp hHandle
  show (okTasks.findSome? (selectRecord ip)).map Except.ok = _
  rw [selectedIp, hFound]
  rfl

/-- `chooseIp` ends as the event loops do, for some order of the table. -/
theorem chooseIp_finish (hFastest : ∀ ip ∈ fastest, Carries (oks hs) ip) :
    Sat (arrivals name lookupOptions given) (chooseIp fastest (oks hs) (errs hs)) hs
      (fun res _ => ∃ order,
        handleStrategyResult (finish order fastest (oks hs) (errs hs)) = some res) := by
  cases fastest with
  | some ip => exact ⟨⟨id, fun _ => .refl _⟩, handle_selectedIp (hFastest ip rfl) (errs hs)⟩
  | none =>
    unfold chooseIp Upstream.mostFrequentIp
    dsimp only
    split
    · rename_i hNone
      refine ⟨⟨id, fun _ => .refl _⟩, ?_⟩
      rcases finish_cases ⟨id, fun _ => .refl _⟩ (errs hs) hFastest with
        ⟨ip, -, ⟨r, hr, hIp⟩, -⟩ | ⟨-, hEq, -⟩
      · rw [ipAddrs_of_mostFrequentIps hNone r hr] at hIp
        cases hIp
      · rw [hEq]
        rfl
    · refine sat_next ?_
      intro i hi
      have hIp := getElem?_eq_getElem hi
      have hMost := mem_of_getElem? hIp
      rw [hIp]
      refine ⟨lastOrder (mostFrequentIps (oks hs))[i], ?_⟩
      rw [finish, mostFrequentIp_lastOrder hMost]
      exact handle_selectedIp (mem_mostFrequentIps hMost) (errs hs)

/-! Results are made up as they are heard, so a run of a program is matched from its end. -/

section Matching

variable {σ : Type} {step : σ → Event → Option σ}
  {result : CountOrder → σ → Option IpStrategyResult}
  {start start' : List Lookup → σ} {n i : Nat} {res : Lookup} {e : Event}

/-- From `start`, with some `n` results still to come, the event loop can return `res`. -/
def Returns (step : σ → Event → Option σ) (result : CountOrder → σ → Option IpStrategyResult)
    (start : List Lookup → σ) (n : Nat) (res : Lookup) : Prop :=
  ∃ results es s order r, results.length = n ∧ runTrace step (start results) es = some s ∧
    result order s = some r ∧ handleStrategyResult r = some res

theorem Returns.ended (h : ∀ results, results.length = n → ∃ order r,
    result order (start results) = some r ∧ handleStrategyResult r = some res) :
    Returns step result start n res := by
  obtain ⟨order, r, hResult, hHandle⟩ := h (replicate n noConnections) length_replicate
  exact ⟨_, [], _, order, r, length_replicate, rfl, hResult, hHandle⟩

theorem Returns.event (hStep : ∀ results, step (start results) e = some (start' results))
    (h : Returns step result start' n res) : Returns step result start n res := by
  obtain ⟨results, es, s, order, r, hLength, hRun, hEnd⟩ := h
  refine ⟨results, e :: es, s, order, r, hLength, ?_, hEnd⟩
  rw [runTrace, hStep]
  exact hRun

theorem Returns.query (heard : Lookup) (hStep : ∀ results : List Lookup, results[i]? = some heard →
    step (start results) (.query i) = some (start' (results.eraseIdx i))) (hi : i ≤ n)
    (h : Returns step result start' n res) : Returns step result start (n + 1) res := by
  obtain ⟨results, es, s, order, r, rfl, hRun, hEnd⟩ := h
  refine ⟨results.insertIdx i heard, .query i :: es, s, order, r,
    length_insertIdx_of_le_length hi heard, ?_, hEnd⟩
  have hHeard : (results.insertIdx i heard)[i]? = some heard := by
    rw [getElem?_insertIdx_self, if_pos hi]
  rw [runTrace, hStep _ hHeard, eraseIdx_insertIdx_self]
  exact hRun

end Matching

variable {modes : List SpeedCheckMode} {group : ServerGroup} {options : LookupIpOptions}

/-- Waiting for the pings returns what the abstract race does. -/
theorem drainPings_returns {onQuery : Nat → PingRace → Async Lookup} {pending : List NameServer}
    {m : Nat} (hm : pending.length = m)
    (hQuery : ∀ i race, i < m → race.pending = pending → RaceInv race hs →
      Sat (arrivals name lookupOptions given) (onQuery i race) hs
        (fun res _ => Returns FastestIp.step FastestIp.result (.mk race) m res)) (n : Nat) :
    ∀ race, race.pings.length = n → race.pending = pending → RaceInv race hs →
      Sat (arrivals name lookupOptions given) (drainPings modes onQuery n race) hs
        (fun res _ => Returns FastestIp.step FastestIp.result (.mk race) m res) := by
  induction n with
  | zero =>
    intro race hPings hPending hRace
    unfold drainPings
    split
    · rename_i hNil
      rw [hRace.okTasks, hRace.errTasks]
      refine Sat.mono ?_ _ (chooseIp_finish hRace.reported)
      rintro res - ⟨order, hHandle⟩
      refine .ended fun results hLength => ⟨order, _, if_pos ?_, ?_⟩
      · rw [← hm, ← hPending, hNil] at hLength
        simp [eq_nil_of_length_eq_zero hPings, eq_nil_of_length_eq_zero hLength]
      · rw [hRace.okTasks, hRace.errTasks]
        exact hHandle
    · refine sat_next ?_
      intro i hi
      exact hQuery i race (by rwa [hPending, hm] at hi) hPending hRace
  | succ n ih =>
    intro race hPings hPending hRace
    refine sat_next ?_
    intro i hi
    by_cases hServer : i < race.pending.length
    · rw [if_pos hServer]
      exact hQuery i race (by rwa [hPending, hm] at hServer) hPending hRace
    · rw [if_neg hServer]
      refine Sat.seq (sat_multiModePing _ modes hs) ?_
      rintro out hs' ⟨rfl, hOut⟩
      have hj : i - race.pending.length < race.pings.length := by omega
      have hIp := getElem?_eq_getElem hj
      have hRest := ih (race.pingDone _ out) (length_eraseIdx_of_lt hj |>.trans (by omega)) hPending
        (hRace.pingDone hOut)
      refine Sat.mono
        (fun res _ h => .event (e := .ping (i - race.pending.length) out) ?_ h) _ hRest
      intro results
      rw [FastestIp.step, hIp]
      refine if_pos (Option.all_eq_true _ _ |>.mpr ?_)
      intro o ho
      have hIn := hOut o ho
      rw [hIp] at hIn
      exact beq_iff_eq.mpr (mem_singleton.mp hIn)

/-- Every run of `lookup_ip_fastest_ip` is one of its event loop. -/
theorem fastestIpLoop_returns (n : Nat) : ∀ race hs, race.pending.length = n → RaceInv race hs →
    Sat (arrivals name options.lookupOptions (perServer options))
      (fastestIpLoop group name options modes n race) hs
      (fun res _ => Returns FastestIp.step FastestIp.result (.mk race) n res) := by
  induction n with
  | zero =>
    intro race hs hLength hRace
    refine drainPings_returns hLength ?_ _ race rfl rfl hRace
    omega
  | succ n ih =>
    intro race hs hLength hRace
    refine drainPings_returns hLength ?_ _ race rfl rfl hRace
    intro i race' hi hPending hRace'
    rw [hPending, getElem?_eq_getElem (hLength ▸ hi)]
    refine sat_perServer ?_
    intro heard
    have hErased : (race'.queryDone i heard).pending = race'.pending.eraseIdx i := by
      cases heard <;> rfl
    have hRest := ih _ _ (by rw [hErased, hPending, length_eraseIdx_of_lt (hLength ▸ hi)]; omega)
      (hRace'.queryDone i heard)
    refine Sat.mono (fun res _ h => .query heard (i := i) ?_ (by omega) h) _ hRest
    intro results hHeard
    rw [FastestIp.step, hHeard]
    rfl

variable {okTasks : List DnsResponse} {errTasks : List DnsError}

/-- Wait for the ping of some addresses, then choose: the end of the first-ping loop. -/
theorem pingThenChoose_returns {pings : List (List IpAddr)} {j n : Nat}
    (hPings : PingsOf pings (oks hs)) (hj : j < pings.length) :
    Sat (arrivals name lookupOptions given)
      (multiModePing (pings[j]?.getD []) modes >>= fun out =>
        chooseIp (out.map Prod.fst) (oks hs) (errs hs)) hs
      (fun res _ => Returns FirstPing.step FirstPing.result
        (.waiting · pings (oks hs) (errs hs)) n res) := by
  refine Sat.seq (sat_multiModePing _ modes hs) ?_
  rintro out hs' ⟨rfl, hOut⟩
  have hReported : ∀ ip ∈ out.map Prod.fst, Carries (oks hs') ip := by
    intro ip hip
    obtain ⟨o, ho, rfl⟩ := map_eq_some_iff.mp hip
    exact hPings.getD j o.1 (hOut o ho)
  have hAddrs := getElem?_eq_getElem hj
  refine Sat.mono ?_ _ (chooseIp_finish hReported)
  rintro res - ⟨order, hHandle⟩
  have hEnd : Returns FirstPing.step FirstPing.result
      (fun _ => .pinged (out.map Prod.fst) (oks hs') (errs hs')) n res :=
    .ended fun _ _ => ⟨order, _, rfl, hHandle⟩
  refine .event (e := .ping j out) ?_ hEnd
  intro results
  rw [FirstPing.step, hAddrs]
  refine if_pos (Option.all_eq_true _ _ |>.mpr ?_)
  intro o ho
  have hIn := hOut o ho
  rw [hAddrs] at hIn
  exact contains_iff_mem.mpr hIn

/-- Every run of `lookup_ip_first_ping` is one of its event loop. -/
theorem firstPingLoop_returns (n : Nat) : ∀ pending pings hs, pending.length = n →
    PingsOf pings (oks hs) →
    Sat (arrivals name options.lookupOptions (perServer options))
      (firstPingLoop group name options modes n pending pings (oks hs) (errs hs)) hs
      (fun res _ => Returns FirstPing.step FirstPing.result
        (.waiting · pings (oks hs) (errs hs)) n res) := by
  induction n with
  | zero =>
    intro pending pings hs _ hPings
    unfold firstPingLoop
    split
    · refine Sat.mono ?_ _ (chooseIp_finish (by simp))
      rintro res - ⟨order, hHandle⟩
      refine .ended fun results hLength => ⟨order, _, if_pos ?_, hHandle⟩
      simp [eq_nil_of_length_eq_zero hLength]
    · refine sat_next ?_
      intro i hi
      exact pingThenChoose_returns hPings hi
  | succ n ih =>
    intro pending pings hs hLength hPings
    refine sat_next ?_
    intro i hi
    cases hAt : pending[i]? with
    | none =>
      have hOut := getElem?_eq_none_iff.mp hAt
      exact pingThenChoose_returns hPings (by omega)
    | some ns =>
      have hIn := (List.getElem?_eq_some_iff.mp hAt).1
      have hLength' : (pending.eraseIdx i).length = n := by
        rw [length_eraseIdx_of_lt hIn]
        omega
      refine sat_perServer ?_
      intro heard
      -- what is heard decides the state that the rest of the run starts from
      suffices hRest : Sat _ _ _ fun res _ => Returns FirstPing.step FirstPing.result
          (FirstPing.onQuery · pings (oks hs) (errs hs) heard) n res by
        refine Sat.mono (fun res _ h => .query heard (i := i) ?_ (by omega) h) _ hRest
        intro results hHeard
        rw [FirstPing.step, hHeard]
        rfl
      cases heard with
      | ok lookup =>
        by_cases hSingle : lookup.ipAddrs.length = 1
        · dsimp only [FirstPing.onQuery]
          rw [if_pos hSingle]
          refine .ended fun _ _ => ⟨⟨id, fun _ => .refl _⟩, .DirectResponse lookup, ?_, rfl⟩
          rw [if_pos hSingle]
          rfl
        · dsimp only [FirstPing.onQuery]
          simp only [if_neg hSingle]
          have hRest := ih (pending.eraseIdx i) (pings ++ [lookup.ipAddrs]) (hs ++ [.ok lookup])
            hLength' (by rw [oks_concat_ok]; exact hPings.concat lookup)
          rw [oks_concat_ok, errs_concat_ok] at hRest
          exact hRest
      | error err =>
        have hRest := ih (pending.eraseIdx i) pings (hs ++ [.error err]) hLength'
          (by rw [oks_concat_error]; exact hPings)
        rw [oks_concat_error, errs_concat_error] at hRest
        exact hRest

/-- What the two strategies return as programs, their event loops return on some results of the
servers, in some order of events and of the table of counts. -/
theorem strategies_return {servers : List NameServer} {t : List (Sigma Op.Resp)} {res : Lookup}
    (hPossible : ∀ x ∈ t, Possible x) :
    (Prog.Yields (lookupIpFirstPing group name options servers modes) t res →
      Returns FirstPing.step FirstPing.result FirstPing.start servers.length res) ∧
    (Prog.Yields (lookupIpFastestIp group name options servers modes) t res →
      Returns FastestIp.step FastestIp.result (FastestIp.start servers) servers.length res) := by
  constructor
  · intro hRun
    exact Sat.yields (fun hs x => hs ++ heardBy (perServer options) x) hRun
      (firstPingLoop_returns _ servers [] [] rfl (by simp [PingsOf]))
      fun x hx _ => ⟨hPossible x hx, rfl⟩
  · intro hRun
    exact Sat.yields (fun hs x => hs ++ heardBy (perServer options) x) hRun
      (fastestIpLoop_returns _ _ [] rfl ⟨rfl, rfl, by simp, by simp⟩)
      fun x hx _ => ⟨hPossible x hx, rfl⟩

end Programs

section Results

variable (order : CountOrder) (servers : List Middleware.NameServer) (results : List Lookup)

/-- In every order of events both loops end, and an address that they select is in a response
they have kept: the arm for an address that no response has is never met. -/
theorem selected_ip_exists :
    Settles FirstPing.step (FirstPing.result order) (fun _ _ => True) (FirstPing.start results)
        Sound ∧
      Settles FastestIp.step (FastestIp.result order) (fun _ _ => True)
        (FastestIp.start servers results) Sound := by
  constructor
  · refine settles _ (FirstPing.Inv.start results) (fun _ _ _ hInv _ => hInv.step)
      (fun _ _ _ => FirstPing.weight_step) (fun _ => FirstPing.goes_on) ?_
    exact fun s r hInv => hInv.sound
  · refine settles _ (FastestIp.Inv.start servers) (fun _ _ _ hInv _ => hInv.step)
      (fun _ _ _ => FastestIp.weight_step) (fun _ => FastestIp.goes_on) ?_
    intro s r hInv h
    obtain ⟨rfl, -, -, hFastest⟩ := hInv.ended h
    exact sound_finish order _ hFastest

/-- If some server has an address, both loops return one. The first ping must not end before a
response with an address has come. -/
theorem addresses_kept (hSome : ∃ r ∈ oks results, r.ipAddrs ≠ []) :
    Settles FirstPing.step (FirstPing.result order) (fun s e => FirstPing.ripe s e = true)
        (FirstPing.start results) Keeps ∧
      Settles FastestIp.step (FastestIp.result order) (fun _ _ => True)
        (FastestIp.start servers results) Keeps := by
  constructor
  · have hStart : FirstPing.Inv results (.start results) ∧ FirstPing.Ripened (.start results) :=
      ⟨FirstPing.Inv.start results, trivial⟩
    refine settles (fun s => FirstPing.Inv results s ∧ FirstPing.Ripened s) hStart ?_
      (fun _ _ _ => FirstPing.weight_step) (fun _ => FirstPing.goes_on) ?_
    · exact fun s e s' hInv hRipe h => ⟨hInv.1.step h, FirstPing.ripened_step hRipe h⟩
    · exact fun s r hInv h => hInv.1.keeps hInv.2 hSome h
  · refine settles _ (FastestIp.Inv.start servers) (fun _ _ _ hInv _ => hInv.step)
      (fun _ _ _ => FastestIp.weight_step) (fun _ => FastestIp.goes_on) ?_
    intro s r hInv h
    obtain ⟨rfl, hPerm, -, hFastest⟩ := hInv.ended h
    obtain ⟨r, hr, hAddrs⟩ := hSome
    exact keeps_finish order _ hFastest ⟨r, hPerm.mem_iff.mpr hr, hAddrs⟩

/-- In a run to the end, one ping ends for each address of the successful responses. What is
selected is the address of a fastest ping, and a most frequent one if no ping has succeeded. -/
theorem fastest_ip_optimal (es : List Event) {s : FastestIp} {r : IpStrategyResult}
    (hRun : runTrace FastestIp.step (.start servers results) es = some s)
    (hResult : s.result order = some r) :
    ((FastestIp.ended (.start servers results) es).Nodup ∧
        ∀ ip, ip ∈ FastestIp.ended (.start servers results) es ↔ Carries (oks results) ip) ∧
      (FastestIp.successes es ≠ [] → ∃ o ∈ FastestIp.successes es,
        (∀ o' ∈ FastestIp.successes es, o.2 ≤ o'.2) ∧
        r = .SelectedIp o.1 s.race.okTasks s.race.errTasks) ∧
      (FastestIp.successes es = [] → (∃ x ∈ oks results, x.ipAddrs ≠ []) →
        ∃ ip, Carries (oks results) ip ∧
          (∀ ip', ipCount (oks results) ip' ≤ ipCount (oks results) ip) ∧
          r = .SelectedIp ip s.race.okTasks s.race.errTasks) := by
  have hInv := runTrace_always FastestIp.step (fun _ _ _ hInv => FastestIp.Inv.step hInv) es
    (FastestIp.Inv.start servers) hRun
  have hBest : BestOf (fun o o' => o.2 ≤ o'.2) (FastestIp.successes es) s.race.fastest :=
    FastestIp.best_run es (s := .start servers results) rfl hRun
  obtain ⟨rfl, hPerm, hPings, hFastest⟩ := hInv.ended hResult
  have hEnded : (FastestIp.ended (.start servers results) es).Perm s.race.pinged := by
    have hAll := FastestIp.ended_run es (s := .start servers results) [] (.refl _) hRun
    simpa [hPings] using hAll
  have hCarries : ∀ ip, Carries s.race.okTasks ip ↔ Carries (oks results) ip := by
    intro ip
    simp only [Carries, hPerm.mem_iff]
  have hCount : ∀ ip, ipCount s.race.okTasks ip = ipCount (oks results) ip := by
    intro ip
    exact (hPerm.flatMap_right _).count_eq ip
  refine ⟨⟨hEnded.nodup_iff.mpr hInv.nodup, ?_⟩, ?_, ?_⟩
  · intro ip
    rw [hEnded.mem_iff, hInv.pinged ip]
    exact hCarries ip
  · intro hSome
    cases hOut : s.race.fastest with
    | none =>
      rw [hOut] at hBest
      exact absurd hBest hSome
    | some o =>
      rw [hOut] at hBest
      exact ⟨o, hBest.1, hBest.2, rfl⟩
  · rintro hNone ⟨x, hx, hAddrs⟩
    rw [hNone] at hBest
    have hOut : s.race.fastest = none := by
      cases hOut : s.race.fastest with
      | none => rfl
      | some o =>
        rw [hOut] at hBest
        exact absurd hBest.1 not_mem_nil
    rw [hOut] at hFastest ⊢
    rcases finish_cases order s.race.errTasks hFastest with ⟨ip, hEq, hIp, hMost⟩ | ⟨-, -, hNil⟩
    · refine ⟨ip, (hCarries ip).mp hIp, ?_, hEq⟩
      obtain ⟨-, hMost⟩ := hMost.resolve_left nofun
      intro ip'
      rw [← hCount, ← hCount]
      exact hMost ip'
    · exact absurd (hNil x (hPerm.mem_iff.mpr hx)) hAddrs

end Results

/-! ## Two servers -/

def answerWith (addrs : List (BitVec 32)) : Lookup :=
  .ok (DnsResponse.newWithMaxTtl exampleQuery
    (addrs.map fun addr => Record.fromRdata exampleName 300 (.A addr)))

/-- The faster of two servers knows the name but no address of it. -/
def twoAnswers : List Lookup := [answerWith [], answerWith [0x5db8d822#32, 0x5db8d823#32]]

def entryOrder : CountOrder := ⟨id, fun _ => .refl _⟩

/-- The second answer comes before the ping for the first has ended. -/
def inTime : List Event := [.query 0, .query 0, .ping 0 none]

/-- The ping for the first answer ends before the second. -/
def tooEarly : List Event := [.query 0, .ping 0 none]

theorem addresses_kept_inTime : ∃ s r,
    runTrace FirstPing.step (.start twoAnswers) inTime = some s ∧
      s.result entryOrder = some r ∧ Keeps r := by
  have hSettles := (addresses_kept entryOrder [] twoAnswers ⟨_, .tail _ (.head _), by decide⟩).1
  exact ⟨_, _, rfl, rfl, hSettles.good inTime _ _ rfl
    (stepsMeet_of_meets _ (fun _ _ h => h) _ (by decide)) rfl⟩

/-- A ping that ends before the second answer loses its addresses. -/
theorem addresses_lost :
    (∃ r ∈ oks twoAnswers, r.ipAddrs ≠ []) ∧ ∃ s r res,
      runTrace FirstPing.step (.start twoAnswers) tooEarly = some s ∧
        s.result entryOrder = some r ∧ handleStrategyResult r = some (.ok res) ∧
        res.ipAddrs = [] :=
  ⟨⟨_, .tail _ (.head _), by decide⟩, _, _, _, rfl, rfl, rfl, by decide⟩

/-- Both addresses are pinged, and the second is faster. -/
def bothPinged : List Event :=
  [.query 1, .ping 0 (some (.v4 0x5db8d822#32, 5)), .query 0, .ping 0 (some (.v4 0x5db8d823#32, 3))]

theorem fastest_ip_optimal_bothPinged : ∃ s o,
    runTrace FastestIp.step (.start [] twoAnswers) bothPinged = some s ∧
      FastestIp.ended (.start [] twoAnswers) bothPinged =
        [.v4 0x5db8d822#32, .v4 0x5db8d823#32] ∧
      (∀ ip, ip ∈ FastestIp.ended (.start [] twoAnswers) bothPinged ↔
        Carries (oks twoAnswers) ip) ∧
      o ∈ FastestIp.successes bothPinged ∧ (∀ o' ∈ FastestIp.successes bothPinged, o.2 ≤ o'.2) ∧
      s.result entryOrder = some (.SelectedIp o.1 s.race.okTasks s.race.errTasks) := by
  obtain ⟨⟨-, hEnded⟩, hFastest, -⟩ :=
    fastest_ip_optimal entryOrder [] twoAnswers bothPinged rfl rfl
  obtain ⟨o, hIn, hLeast, hEq⟩ := hFastest (by decide)
  exact ⟨_, o, rfl, by decide, hEnded, hIn, hLeast, congrArg some hEq⟩

end SmartDns.Ports.IpStrategies
