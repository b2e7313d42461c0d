import SmartDns.Ports.DnsMessage
import SmartDns.Verified.LastSome

/-!
# The memo of the bootstrap resolver

`BootstrapResolver::lookup` asks its resolver only if `local_lookup` finds
nothing, and remembers what a resolver answers. It remembers it under the
name with the root dot, but looks names up as they are written: a name without
the dot is asked for again and again. A successful answer without records is
remembered like any other, and then returned for good.
-/

namespace SmartDns.Ports.BootstrapMemo

open Verified DomainName DnsMessage

/-- `ip_store`, the last insertion first. -/
abbrev IpStore := List (Query × List Record)

/-- `BootstrapResolver::local_lookup`: the records of the response. -/
def localLookup (store : IpStore) (name : Name) (recordType : RecordType) : Option (List Record) :=
  store.lookup (Query.query name recordType)

variable {E : Type}

/-- `BootstrapResolver::lookup`, where the resolver would answer `reply`. -/
def lookup (store : IpStore) (name : Name) (recordType : RecordType)
    (reply : Except E (List Record)) : Except E (List Record) × IpStore :=
  match localLookup store name recordType with
  | some records => (.ok records, store)
  | none =>
    match reply with
    | .ok records => (.ok records, (Query.query (name.setFqdn true) recordType, records) :: store)
    | .error err => (.error err, store)

/-- A lookup, with the answer of the resolver or with its result. -/
structure Lookup (E : Type) where
  name : Name
  recordType : RecordType
  result : Except E (List Record)

/-- A sequence of lookups: the store they leave, and what each of them returned. -/
def run (lookups : List (Lookup E)) : IpStore × List (Lookup E) :=
  lookups.foldl (fun s l =>
    let r := lookup s.1 l.name l.recordType l.result
    (r.2, s.2 ++ [{ l with result := r.1 }])) ([], [])

/-- The lookup is for the name, in any letter case and with or without the root dot. -/
abbrev Lookup.Asks (name : Name) (recordType : RecordType) (l : Lookup E) : Prop :=
  name.lowerLabels = l.name.lowerLabels ∧ recordType = l.recordType

/-- The records of a success. -/
def Lookup.found (name : Name) (recordType : RecordType) (l : Lookup E) : Option (List Record) :=
  if l.Asks name recordType then l.result.toOption else none

/-- The records of a success with at least one. -/
def Lookup.foundSome (name : Name) (recordType : RecordType) (l : Lookup E) :
    Option (List Record) :=
  (l.found name recordType).filter (· ≠ [])

variable {name : Name} {recordType : RecordType}

/-- The store knows a name with its root dot only, and then by the last success for it. -/
def Remembers (s : IpStore × List (Lookup E)) : Prop :=
  ∀ name recordType, localLookup s.1 name recordType =
    if name.isFqdn then lastSome (Lookup.found name recordType) s.2 else none

theorem localLookup_cons (store : IpStore) (l : Lookup E) (records : List Record) :
    localLookup ((Query.query (l.name.setFqdn true) l.recordType, records) :: store) name recordType
      = if name.isFqdn ∧ l.Asks name recordType then some records
        else localLookup store name recordType := by
  have hKey : (Query.query name recordType == Query.query (l.name.setFqdn true) l.recordType) = true
      ↔ name.isFqdn = true ∧ l.Asks name recordType := by
    rw [Query.beq_iff_key]
    simp only [Query.key, Query.query, Query.mk.injEq, Name.toLowercase, Name.mk.injEq, and_true]
    exact and_right_comm.trans and_comm
  unfold localLookup
  rw [List.lookup_cons]
  split
  · rename_i hSame
    rw [if_pos (hKey.mp hSame)]
  · rename_i hOther
    rw [if_neg (mt hKey.mpr (by simp [hOther]))]

/-- One lookup keeps the store in step with the history. -/
theorem Remembers.step {s : IpStore × List (Lookup E)} (h : Remembers s) (l : Lookup E) :
    Remembers ((lookup s.1 l.name l.recordType l.result).2,
      s.2 ++ [{ l with result := (lookup s.1 l.name l.recordType l.result).1 }]) := by
  intro name recordType
  rw [lastSome_append, lastSome_singleton, Lookup.found]
  by_cases hAsks : l.Asks name recordType
  · rw [if_pos (show Lookup.Asks name recordType { l with result := _ } from hAsks)]
    unfold lookup
    cases hLocal : localLookup s.1 l.name l.recordType with
    | some records =>
      -- a hit returns what the last success for the name has returned
      rw [h, Option.ite_none_right_eq_some] at hLocal
      have hSame : Lookup.found (E := E) name recordType = Lookup.found l.name l.recordType := by
        funext l'
        simp only [Lookup.found, Lookup.Asks, hAsks.1, hAsks.2]
      rw [h, hSame, hLocal.2]
      rfl
    | none =>
      cases l.result with
      | error err => exact h name recordType
      | ok records =>
        rw [localLookup_cons s.1 l, h]
        cases name.isFqdn <;> simp [hAsks, Except.toOption]
  · rw [if_neg (show ¬ Lookup.Asks name recordType { l with result := _ } from hAsks)]
    unfold lookup
    split
    · exact h name recordType
    · split
      · rw [localLookup_cons s.1 l, if_neg (fun hBoth => hAsks hBoth.2)]
        exact h name recordType
      · exact h name recordType

/-- The store agrees with the history after every sequence of lookups. -/
theorem remembers_run (lookups : List (Lookup E)) : Remembers (run lookups) := by
  refine List.foldlRecOn lookups _ (fun name recordType => ?_) fun s h l _ => h.step l
  cases name.isFqdn <;> rfl

/-- For a name with its root dot, and as long as no lookup of it has found an empty answer, the
memo has the last success. -/
theorem localLookup_last_success (lookups : List (Lookup E)) (name : Name) (recordType : RecordType)
    (hFqdn : name.isFqdn = true)
    (hSome : ∀ l ∈ (run lookups).2, l.found name recordType ≠ some []) :
    localLookup (run lookups).1 name recordType
      = lastSome (Lookup.foundSome name recordType) (run lookups).2 := by
  rw [remembers_run lookups, if_pos hFqdn]
  refine lastSome_congr fun l hl => ?_
  unfold Lookup.foundSome
  cases hFound : l.found name recordType with
  | none => rfl
  | some records =>
    have hRecords : records ≠ [] := fun hNil => hSome l hl (hNil ▸ hFound)
    simp [Option.filter, hRecords]

def serverName : Name := Name.ofLabels ["dns", "example", "com"]

def serverAddress : List Record := [Record.fromRdata serverName 300 (.A 0x5db8d822#32)]

/-- A failure, a success without the root dot, an empty answer for another type, and a lookup
that the memo answers. -/
def several : IpStore × List (Lookup Unit) :=
  run [⟨serverName, .A, .error ()⟩, ⟨serverName.setFqdn false, .A, .ok serverAddress⟩,
    ⟨serverName, .AAAA, .ok []⟩, ⟨serverName, .A, .ok []⟩]

theorem localLookup_last_success_several :
    lastSome (Lookup.foundSome serverName .A) several.2 = some serverAddress ∧
      localLookup several.1 serverName .A =
        lastSome (Lookup.foundSome serverName .A) several.2 :=
  ⟨by decide, localLookup_last_success _ serverName .A rfl (by decide)⟩

def once (fqdn : Bool) (records : List Record) : IpStore × List (Lookup Unit) :=
  run [⟨serverName.setFqdn fqdn, .A, .ok records⟩]

/-- Without the root dot a success is not found again; an empty answer is. -/
theorem memo_misses :
    localLookup (once false serverAddress).1 (serverName.setFqdn false) .A = none ∧
      lastSome (Lookup.foundSome (serverName.setFqdn false) .A) (once false serverAddress).2
        = some serverAddress ∧
      localLookup (once true []).1 serverName .A = some [] ∧
      lastSome (Lookup.foundSome serverName .A) (once true []).2 = none := by
  decide

end SmartDns.Ports.BootstrapMemo
