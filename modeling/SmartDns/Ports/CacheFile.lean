import SmartDns.Verified.Bytes
import SmartDns.Ports.CacheStore

/-!
# The cache file

The cache is written to a file and read back when the server starts again. An
entry is written as four tagged fields: the message, the whole seconds it is
still valid, the group that answered and how often it was hit. Entries follow
one another without a length or a separator; that the file can be read at all
rests on every field telling where it ends. How a message is encoded is left to
`MessageCodec`, which only says that a message written whole is read back, and
that no byte more is taken.

Entries that do not fit the encoder are left out of the file, and a file with
anything wrong in it is not loaded at all.

The file holds how long an entry is still valid, not when it expires. Read
back, the time starts to run again at the instant of reading, however long ago
the file was written.
-/

namespace SmartDns.Ports.CacheFile

open Verified Decoder DomainName DnsMessage DnsLookup CacheStore List

/-! ## Fields -/

/-- `Message::emit`, at its place in an entry, and `Message::read`. -/
structure MessageCodec where
  emit : Message → Option (List UInt8)
  read : Decoder Message
  /-- The message is not cut off because the encoder is full. -/
  whole : Message → Bool
  reads : ∀ {m : Message} {bytes : List UInt8}, whole m = true → emit m = some bytes →
    Reads read bytes m

def asBytes (s : String) : List UInt8 := s.toByteArray.data.toList

def fromUtf8 (bytes : List UInt8) : Option String := String.fromUTF8? ⟨bytes.toArray⟩

theorem fromUtf8_asBytes (s : String) : fromUtf8 (asBytes s) = some s :=
  dif_pos s.isValidUTF8

theorem length_asBytes (s : String) : (asBytes s).length = s.utf8ByteSize := rfl

/-- The name of the group, after its length; no name is written as an empty one. -/
def emitGroup : Option String → List UInt8
  | some g => bigEndian 2 (asBytes g).length ++ asBytes g
  | none => bigEndian 2 0

def readGroup : Decoder (Option String) := do
  let nameLen ← uint 2
  if nameLen > 0 then
    let name ← slice nameLen
    pure (fromUtf8 name)
  else pure none

/-- A name that is not empty and whose length fits its field. -/
def Nameable (group : Option String) : Prop := ∀ g, group = some g → g ≠ "" ∧ g.utf8ByteSize ≤ 65535

theorem reads_group {group : Option String} (h : Nameable group) :
    Reads readGroup (emitGroup group) group := by
  cases group with
  | none =>
    have hLength := reads_uint 2 0
    have hBoth := hLength.bind (f := fun n => if n > 0 then do
      let name ← slice n
      pure (fromUtf8 name) else pure none) (by rw [if_neg (by omega)]; exact reads_pure none)
    exact hBoth
  | some g =>
    obtain ⟨hNonempty, hShort⟩ := h g rfl
    have hPos : 0 < (asBytes g).length := by
      exact Nat.pos_of_ne_zero fun hZero => hNonempty (String.utf8ByteSize_eq_zero_iff.mp hZero)
    have hLength := reads_uint 2 (asBytes g).length
    rw [Nat.mod_eq_of_lt (by rw [length_asBytes]; omega)] at hLength
    refine hLength.bind ?_
    rw [if_pos hPos]
    have hName := (reads_slice (asBytes g)).map fromUtf8
    rw [fromUtf8_asBytes] at hName
    exact hName

/-! ## Entries -/

/-- How many bytes a `BinEncoder` takes. -/
def encoderLimit : Nat := 65535

/-- `DnsCacheEntry::emit`, at the instant `now`; `none` if the encoder is full. -/
def emit (codec : MessageCodec) (now : Nat) (e : DnsCacheEntry) : Option (List UInt8) := do
  let message ← codec.emit e.data.message
  let bytes := [bigEndian 1 1, message, bigEndian 1 2, bigEndian 4 (asSecsU32 (e.ttl now)),
    bigEndian 1 3, emitGroup e.data.nameServerGroup, bigEndian 1 4, bigEndian 4 e.hits].flatten
  if bytes.length ≤ encoderLimit then some bytes else none

/-- `DnsCacheEntry::read`: what is read is the entry for every instant it may be read at. -/
def read (codec : MessageCodec) : Decoder (Nat → DnsCacheEntry) := do
  tag 1
  let message ← codec.read
  tag 2
  let ttlSecs ← uint 4
  tag 3
  let groupName ← readGroup
  tag 4
  let hits ← uint 4
  pure fun now =>
    let res := DnsResponse.ofMessage message
    let res :=
      match groupName with
      | some g => res.withNameServerGroup g
      | none => res
    { DnsCacheEntry.new res (now + secs ttlSecs) with hits := hits }

/-- What can be written whole and without losing the name of its group or its hits. -/
structure Persistable (codec : MessageCodec) (now : Nat) (e : DnsCacheEntry) : Prop where
  group : Nameable e.data.nameServerGroup
  hits : e.hits < 2 ^ 32
  whole : codec.whole e.data.message = true
  fits : (emit codec now e).isSome = true

/-- The entry that comes back: no mark, and valid for the whole seconds it had left. -/
def restored (saved loaded : Nat) (e : DnsCacheEntry) : DnsCacheEntry where
  data := { DnsResponse.ofMessage e.data.message with nameServerGroup := e.data.nameServerGroup }
  validUntil := loaded + secs (asSecsU32 (e.ttl saved))
  isInPrefetching := false
  prefetchFailureTime := none
  hits := e.hits

/-- An entry that can be saved is read back from its bytes. -/
theorem reads_entry {codec : MessageCodec} {now : Nat} {e : DnsCacheEntry}
    (h : Persistable codec now e) {bytes : List UInt8} (hEmit : emit codec now e = some bytes) :
    Reads (read codec) bytes fun loaded => restored now loaded e := by
  obtain ⟨message, hMessage, hBytes⟩ := Option.bind_eq_some_iff.mp hEmit
  dsimp only at hBytes
  split at hBytes
  · cases hBytes
    have hTtl := reads_uint 4 (asSecsU32 (e.ttl now))
    have hSmall : asSecsU32 (e.ttl now) < 256 ^ 4 := Nat.mod_lt _ (by decide)
    rw [Nat.mod_eq_of_lt hSmall] at hTtl
    have hHits := reads_uint 4 e.hits
    rw [Nat.mod_eq_of_lt (show e.hits < 256 ^ 4 from h.hits)] at hHits
    have hEntry : (fun loaded => restored now loaded e) = fun loaded =>
        { DnsCacheEntry.new
            (match e.data.nameServerGroup with
              | some g => (DnsResponse.ofMessage e.data.message).withNameServerGroup g
              | none => DnsResponse.ofMessage e.data.message)
            (loaded + secs (asSecsU32 (e.ttl now))) with hits := e.hits } := by
      unfold restored
      cases e.data.nameServerGroup <;> rfl
    rw [hEntry]
    exact (reads_tag (by decide)).bind <| (codec.reads h.whole hMessage).bind <|
      (reads_tag (by decide)).bind <| hTtl.bind <| (reads_tag (by decide)).bind <|
      (reads_group h.group).bind <| (reads_tag (by decide)).bind <| hHits.bind <| reads_pure _
  · cases hBytes

/-- Reading an entry takes its first tag at least. -/
theorem read_consumes (codec : MessageCodec) : Consumes (read codec) := (consumes_tag 1).bind _

/-! ## Files -/

/-- `serialize_many`: the `i`-th entry is written at the instant `clock i`. -/
def serializeMany (codec : MessageCodec) (clock : Nat → Nat) (entries : List DnsCacheEntry) :
    List UInt8 :=
  (entries.mapIdx fun i e => (emit codec (clock i) e).getD []).flatten

/-- `deserialize_many`: the `i`-th entry is read at the instant `clock i`. -/
def deserializeMany (codec : MessageCodec) (clock : Nat → Nat) (data : List UInt8) :
    Option (List DnsCacheEntry) :=
  (many (read codec) (read_consumes codec) data).map fun entries =>
    entries.mapIdx fun i entry => entry (clock i)

/-- `load_from`, given what the file holds if it can be read. -/
def loadFrom (env : CacheEnv) (codec : MessageCodec) (clock : Nat → Nat) (c : DnsCache)
    (file : Option (List UInt8)) : DnsCache :=
  c.load env (file.bind (deserializeMany codec clock))

/-- Every entry can be written, each at its instant. -/
def AllPersistable (codec : MessageCodec) (clock : Nat → Nat) (entries : List DnsCacheEntry) :
    Prop :=
  ∀ i e, entries[i]? = some e → Persistable codec (clock i) e

/-- Entries that can be saved are all read back, in order. -/
theorem deserializeMany_serializeMany {codec : MessageCodec} {saved : Nat → Nat}
    {entries : List DnsCacheEntry} (h : AllPersistable codec saved entries) (loaded : Nat → Nat) :
    deserializeMany codec loaded (serializeMany codec saved entries) =
      some (entries.mapIdx fun i e => restored (saved i) (loaded i) e) := by
  let records : List (List UInt8 × (Nat → DnsCacheEntry)) := entries.mapIdx fun i e =>
    ((emit codec (saved i) e).getD [], fun t => restored (saved i) t e)
  have hReads : ∀ p ∈ records, Reads (read codec) p.1 p.2 := by
    intro p hp
    obtain ⟨i, hi, hEq⟩ := mem_mapIdx.mp hp
    have hEntry := h i entries[i] (getElem?_eq_getElem hi)
    obtain ⟨bytes, hEmit⟩ := Option.isSome_iff_exists.mp hEntry.fits
    rw [← hEq, hEmit]
    exact reads_entry hEntry hEmit
  have hMany := many_flatten (read_consumes codec) records hReads
  have hBytes : records.map Prod.fst =
      entries.mapIdx fun i e => (emit codec (saved i) e).getD [] := by
    apply ext_getElem?
    intro i
    simp only [records, getElem?_map, getElem?_mapIdx, Option.map_map]
    rfl
  have hBack : (records.map Prod.snd).mapIdx (fun i entry => entry (loaded i)) =
      entries.mapIdx fun i e => restored (saved i) (loaded i) e := by
    apply ext_getElem?
    intro i
    simp only [records, getElem?_map, getElem?_mapIdx, Option.map_map]
    rfl
  rw [hBytes] at hMany
  rw [deserializeMany, serializeMany, hMany, Option.map_some, hBack]

/--
For every list of entries that can be written and are valid for less than
`2 ^ 32` seconds: reading what was written ends and returns the entries in
order, with their messages, groups and hits and with the whole seconds that
they had left. And for every file: if reading it fails, the cache is left as it
is.
-/
theorem persistence_round_trip (codec : MessageCodec) (saved loaded : Nat → Nat)
    (entries : List DnsCacheEntry) (hEntries : AllPersistable codec saved entries)
    (hValid : ∀ (i : Nat) (e : DnsCacheEntry), entries[i]? = some e →
      e.ttl (saved i) < secs (2 ^ 32)) :
    (∃ back, deserializeMany codec loaded (serializeMany codec saved entries) = some back ∧
      back.length = entries.length ∧
      ∀ (i : Nat) (e e' : DnsCacheEntry), entries[i]? = some e → back[i]? = some e' →
        e'.data.message = e.data.message ∧
        e'.data.nameServerGroup = e.data.nameServerGroup ∧ e'.hits = e.hits ∧
        e'.ttl (loaded i) = secs (e.ttl (saved i) / 1000000000)) ∧
    ∀ env c data, deserializeMany codec loaded data = none →
      loadFrom env codec loaded c (some data) = c := by
  refine ⟨⟨_, deserializeMany_serializeMany hEntries loaded, length_mapIdx, ?_⟩, ?_⟩
  · intro i e e' he he'
    rw [getElem?_mapIdx, he] at he'
    cases he'
    refine ⟨rfl, rfl, rfl, ?_⟩
    have hShort := hValid i e he
    have hWhole : asSecsU32 (e.ttl (saved i)) = e.ttl (saved i) / 1000000000 := by
      apply Nat.mod_eq_of_lt
      unfold secs at hShort
      omega
    show loaded i + secs (asSecsU32 (e.ttl (saved i))) - loaded i = _
    rw [hWhole, Nat.add_sub_cancel_left]
  · intro env c data hFails
    unfold loadFrom
    rw [Option.bind_some, hFails]
    rfl

/-! ## Two entries in a file -/

/-- A response without records to a question about `example.com`. -/
def savedMessage (queryType : RecordType) : Message :=
  (Message.query 0).toResponse.addQuery (Query.query (Name.ofLabels ["example", "com"]) queryType)

/-- Its bytes: the header of a response with one question, the name, the number of the type and the
class. -/
def wire (typeNumber : UInt8) : List UInt8 :=
  [0, 0, 128, 0, 0, 1, 0, 0, 0, 0, 0, 0, 7, 101, 120, 97, 109, 112, 108, 101, 3, 99, 111, 109, 0,
    0, typeNumber, 0, 1]

/-- The message that bytes stand for. -/
def messageOf (bytes : List UInt8) : Decoder Message :=
  if bytes = wire 1 then pure (savedMessage .A)
  else if bytes = wire 28 then pure (savedMessage .AAAA) else fail

/-- The message format, for the responses about the addresses of `example.com` in both families. -/
def exampleCodec : MessageCodec where
  emit m :=
    if m = savedMessage .A then some (wire 1)
    else if m = savedMessage .AAAA then some (wire 28) else none
  read := slice 29 >>= messageOf
  whole m := decide (m = savedMessage .A ∨ m = savedMessage .AAAA)
  reads {m bytes} hWhole hEmit := by
    by_cases hFirst : m = savedMessage .A
    · rw [if_pos hFirst] at hEmit
      cases hEmit
      rw [hFirst]
      have hRead := (reads_slice (wire 1)).bind (f := messageOf) (reads_pure (savedMessage .A))
      rwa [append_nil] at hRead
    · have hSecond := (of_decide_eq_true hWhole).resolve_left hFirst
      rw [if_neg hFirst, if_pos hSecond] at hEmit
      cases hEmit
      rw [hSecond]
      have hRead := (reads_slice (wire 28)).bind (f := messageOf) (reads_pure (savedMessage .AAAA))
      rwa [append_nil] at hRead

/-- A response from a group, stored until some instant and asked for a number of times. -/
def savedEntry (queryType : RecordType) (group : Option String) (hits validUntil : Nat) :
    DnsCacheEntry :=
  { DnsCacheEntry.new { DnsResponse.ofMessage (savedMessage queryType) with
      nameServerGroup := group } validUntil with hits := hits }

theorem savedEntry_persistable {queryType : RecordType} (h : queryType = .A ∨ queryType = .AAAA)
    {group : Option String} (hGroup : Nameable group) (hShort : (emitGroup group).length ≤ 1000)
    {hits : Nat} (hHits : hits < 2 ^ 32) (validUntil now : Nat) :
    Persistable exampleCodec now (savedEntry queryType group hits validUntil) := by
  have hWhole : exampleCodec.whole (savedMessage queryType) = true :=
    decide_eq_true (h.imp (congrArg _) (congrArg _))
  obtain ⟨number, hWire⟩ : ∃ number, exampleCodec.emit (savedMessage queryType) =
      some (wire number) := by
    rcases h with rfl | rfl
    · exact ⟨1, by decide +kernel⟩
    · exact ⟨28, by decide +kernel⟩
  refine ⟨hGroup, hHits, hWhole, ?_⟩
  have hMessage : exampleCodec.emit (savedEntry queryType group hits validUntil).data.message =
      some (wire number) := hWire
  rw [emit, hMessage, Option.bind_eq_bind, Option.bind_some, if_pos]
  · rfl
  · simp only [flatten_cons, flatten_nil, length_append, length_bigEndian, encoderLimit, wire,
      length_cons, length_nil]
    show 1 + (29 + (1 + (4 + (1 + ((emitGroup group).length + (1 + (4 + 0))))))) ≤ 65535
    omega

/-- A response without a group, stored until some instant. -/
def savedUntil (queryType : RecordType) (validUntil : Nat) : DnsCacheEntry :=
  savedEntry queryType none 0 validUntil

/-- The entry for the IPv4 address alone. -/
theorem single_persistable (validUntil : Nat) (clock : Nat → Nat) :
    AllPersistable exampleCodec clock [savedUntil .A validUntil] := by
  intro i e he
  rw [mem_singleton.mp (mem_of_getElem? he)]
  have hUnnamed : Nameable none := by
    intro g hNone
    cases hNone
  exact savedEntry_persistable (.inl rfl) hUnnamed (by decide) (by decide) _ _

/-- The addresses in both families, from two groups and with hits. -/
def savedPair : List DnsCacheEntry :=
  [savedEntry .A (some "office") 3 (secs 4), savedEntry .AAAA (some "home") 70000 (secs 7 + 5)]

theorem savedPair_persistable (clock : Nat → Nat) :
    AllPersistable exampleCodec clock savedPair := by
  have hNamed : ∀ g : String, g ≠ "" → g.utf8ByteSize ≤ 65535 → Nameable (some g) := by
    intro g hNe hLe g' hSame
    cases hSame
    exact ⟨hNe, hLe⟩
  intro i e he
  have hMem : e ∈ savedPair := mem_of_getElem? he
  simp only [savedPair, mem_cons, not_mem_nil, or_false] at hMem
  rcases hMem with rfl | rfl
  · exact savedEntry_persistable (.inl rfl) (hNamed "office" (by decide) (by decide)) (by decide)
      (by decide) _ _
  · exact savedEntry_persistable (.inr rfl) (hNamed "home" (by decide) (by decide)) (by decide)
      (by decide) _ _

/-- Written at 1 s and read at 9 s, the entries come back in order, with 3 and 6 seconds left. -/
theorem persistence_round_trip_savedPair :
    ∃ first second,
      deserializeMany exampleCodec (fun _ => secs 9)
        (serializeMany exampleCodec (fun _ => secs 1) savedPair) = some [first, second] ∧
      first.data.message = savedMessage .A ∧ first.data.nameServerGroup = some "office" ∧
      first.hits = 3 ∧ first.ttl (secs 9) = secs 3 ∧
      second.data.message = savedMessage .AAAA ∧ second.data.nameServerGroup = some "home" ∧
      second.hits = 70000 ∧ second.ttl (secs 9) = secs 6 := by
  obtain ⟨⟨back, hBack, hLength, hSame⟩, -⟩ := persistence_round_trip exampleCodec
    (fun _ => secs 1) (fun _ => secs 9) savedPair (savedPair_persistable _) (by
      intro i e he
      have hMem : e ∈ savedPair := mem_of_getElem? he
      simp only [savedPair, mem_cons, not_mem_nil, or_false] at hMem
      rcases hMem with rfl | rfl <;> decide)
  obtain ⟨first, second, rfl⟩ := length_eq_two.mp (show back.length = 2 from hLength)
  obtain ⟨hMessage, hGroup, hHits, hTtl⟩ :=
    hSame 0 (savedEntry .A (some "office") 3 (secs 4)) first rfl rfl
  obtain ⟨hMessage', hGroup', hHits', hTtl'⟩ :=
    hSame 1 (savedEntry .AAAA (some "home") 70000 (secs 7 + 5)) second rfl rfl
  refine ⟨first, second, hBack, hMessage, hGroup, hHits, hTtl.trans ?_, hMessage', hGroup', hHits',
    hTtl'.trans ?_⟩
  · decide
  · decide

/-- An entry that is valid for `2 ^ 32` seconds comes back with none left. -/
theorem round_trip_wraps :
    AllPersistable exampleCodec (fun _ => 0) [savedUntil .A (secs (2 ^ 32))] ∧
      ∃ e, deserializeMany exampleCodec (fun _ => 0)
          (serializeMany exampleCodec (fun _ => 0) [savedUntil .A (secs (2 ^ 32))]) = some [e] ∧
        e.ttl 0 = 0 ∧ (savedUntil .A (secs (2 ^ 32))).ttl 0 / 1000000000 = 2 ^ 32 :=
  have hSaved := single_persistable (secs (2 ^ 32)) fun _ => 0
  ⟨hSaved, _, deserializeMany_serializeMany hSaved _, by decide, by decide⟩

/-! ## Deadlines -/

/-- The status that a hit on an entry reports. -/
def ValidAt (e : DnsCacheEntry) (t : Nat) : Prop :=
  ∃ (c : DnsCache) (query : Query), (c.entryReply query t e).2 = .Valid

theorem validAt_iff (e : DnsCacheEntry) (t : Nat) : ValidAt e t ↔ t ≤ e.validUntil := by
  have hStatus : ∀ (c : DnsCache) (query : Query),
      (c.entryReply query t e).2 = .Valid ↔ t ≤ e.validUntil := by
    unfold DnsCache.entryReply DnsCacheEntry.isCurrent
    by_cases ht : t ≤ e.validUntil
    · simp [ht]
    · simp [ht]
  constructor
  · rintro ⟨c, query, hValid⟩
    exact (hStatus c query).mp hValid
  · intro ht
    exact ⟨DnsCache.new 1 0 0 0, Query.default, (hStatus _ _).mpr ht⟩

/--
For every list of entries that can be written, each saved and loaded at some
instant: an entry read back is valid no longer than its deadline exactly if the
whole seconds it had left when it was saved, counted from the instant of
loading, do not go beyond the deadline. So it is if the entry had not expired
and no more time went by than the fraction of a second that was not saved.
-/
theorem validity_kept_iff (codec : MessageCodec) (saved loaded : Nat → Nat)
    (entries : List DnsCacheEntry) (hEntries : AllPersistable codec saved entries) :
    ∃ back, deserializeMany codec loaded (serializeMany codec saved entries) = some back ∧
      ∀ (i : Nat) (e e' : DnsCacheEntry), entries[i]? = some e → back[i]? = some e' →
        ((∀ t, ValidAt e' t → t ≤ e.validUntil) ↔
          loaded i + secs (asSecsU32 (e.validUntil - saved i)) ≤ e.validUntil) ∧
        (saved i ≤ e.validUntil → loaded i ≤ saved i + (e.validUntil - saved i) % secs 1 →
          ∀ t, ValidAt e' t → t ≤ e.validUntil) := by
  refine ⟨_, deserializeMany_serializeMany hEntries loaded, ?_⟩
  intro i e e' he he'
  rw [getElem?_mapIdx, he] at he'
  cases he'
  have hIff : (∀ t, ValidAt (restored (saved i) (loaded i) e) t → t ≤ e.validUntil) ↔
      loaded i + secs (asSecsU32 (e.validUntil - saved i)) ≤ e.validUntil := by
    constructor
    · intro hKept
      exact hKept _ ((validAt_iff _ _).mpr (Nat.le_refl _))
    · intro hDeadline t hValid
      exact Nat.le_trans ((validAt_iff _ _).mp hValid) hDeadline
  refine ⟨hIff, ?_⟩
  intro hFresh hSoon
  apply hIff.mpr
  have hWhole : asSecsU32 (e.validUntil - saved i) ≤ (e.validUntil - saved i) / 1000000000 :=
    Nat.mod_le _ _
  unfold secs at hSoon ⊢
  omega

theorem validity_kept_iff_savedUntil :
    ∃ back, deserializeMany exampleCodec (fun _ => secs 100 + 500)
        (serializeMany exampleCodec (fun _ => secs 100) [savedUntil .A (secs 300 + 500)]) =
          some back ∧
      ∀ (i : Nat) (e e' : DnsCacheEntry), [savedUntil .A (secs 300 + 500)][i]? = some e →
        back[i]? = some e' →
        ((∀ t, ValidAt e' t → t ≤ e.validUntil) ↔
          secs 100 + 500 + secs (asSecsU32 (e.validUntil - secs 100)) ≤ e.validUntil) ∧
        (secs 100 ≤ e.validUntil →
          secs 100 + 500 ≤ secs 100 + (e.validUntil - secs 100) % secs 1 →
          ∀ t, ValidAt e' t → t ≤ e.validUntil) :=
  validity_kept_iff exampleCodec (fun _ => secs 100) (fun _ => secs 100 + 500) _
    (single_persistable _ _)

/--
Saved at 100 s and loaded at 1000 s, an entry with the deadline 300 s is valid
until 1200 s; one with the deadline 50 s, long expired when it was saved, is
valid at the instant it is loaded.
-/
theorem validity_extended :
    (∃ e, deserializeMany exampleCodec (fun _ => secs 1000)
        (serializeMany exampleCodec (fun _ => secs 100) [savedUntil .A (secs 300)]) = some [e] ∧
      ValidAt e (secs 1200)) ∧
    ∃ e, deserializeMany exampleCodec (fun _ => secs 1000)
        (serializeMany exampleCodec (fun _ => secs 100) [savedUntil .A (secs 50)]) = some [e] ∧
      ValidAt e (secs 1000) := by
  refine ⟨⟨_, deserializeMany_serializeMany (single_persistable _ _) _, ?_⟩,
    ⟨_, deserializeMany_serializeMany (single_persistable _ _) _, ?_⟩⟩
  · exact (validAt_iff _ _).mpr (by decide)
  · exact (validAt_iff _ _).mpr (by decide)

end SmartDns.Ports.CacheFile
