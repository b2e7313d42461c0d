import SmartDns.Ports.Upstream

/-!
# Which servers a group has

A server line may name groups, and it may exclude its server from the default group. The
configuration answers which servers a group has by going through the server lines.
The client is built once: it files the servers under the groups they name, and under no group
at all if they are not excluded, makes one connection for each, and from then on finds the
groups by their names. The servers filed under no group are its default group; if there are
none, the bootstrap servers are.

The two agree on every name but those that the client takes for the default group, which
are the empty name and every spelling of `default`. There a server that is excluded from the
default group and names it nevertheless is filed under that name, where it is never looked for.
-/

namespace SmartDns.Ports.UpstreamGroups

open Verified IpNetwork DnsLookup RequestContext Middleware Upstream

/-! ## Server lines -/

/-- A server line. All of it is the key of the tables of the builder, so two lines that differ
anywhere have servers of their own. -/
structure NameServerInfo where
  name : Option String
  /-- The address of the server, and whether there is an IP address in it. -/
  server : String
  hasIp : Bool
  group : List String
  blacklistIp : Bool
  whitelistIp : Bool
  checkEdns : Bool
  excludeDefaultGroup : Bool
  proxy : Option String
  bootstrapDns : Bool
  resolveGroup : Option String
  subnet : Option IpNet
  soMark : Option (BitVec 32)
  interface : Option String
  enabled : Option Bool
  deriving DecidableEq

def getServerGroup (servers : List NameServerInfo) (group : String) : List NameServerInfo :=
  if group = defaultGroup then
    servers.filter fun s => s.group.any (· == defaultGroup) || !s.excludeDefaultGroup
  else servers.filter fun s => s.group.any (· == group)

/-! ## Building the client -/

/-- `server_instances`: the servers made so far, and the lines that none could be made of. -/
abbrev Instances := List (NameServerInfo × Option NameServer)

/-- `server_config_groups`, as the list of its entries. -/
abbrev ConfigGroups := List (Option String × List NameServerInfo)

/-- The order in which hash tables hand out their entries. -/
structure HashOrder where
  groups : ConfigGroups → ConfigGroups
  groups_perm : ∀ table, (groups table).Perm table
  servers : List NameServerInfo → List NameServerInfo
  servers_perm : ∀ set, (servers set).Perm set

section Build

-- `NameServer::new`, with a resolver for its host or without
variable (newServer : NameServerInfo → Bool → Option NameServer)

def makeServer (resolver dedup : Bool) (instances : Instances) (info : NameServerInfo) :
    Option NameServer × Instances :=
  match instances.lookup info with
  | some server => (if dedup then none else server, instances)
  | none => (newServer info resolver, (info, newServer info resolver) :: instances)

def makeServers (resolver dedup : Bool) (instances : Instances) :
    List NameServerInfo → List NameServer × Instances
  | [] => ([], instances)
  | info :: infos =>
    let made := makeServer newServer resolver dedup instances info
    let rest := makeServers resolver dedup made.2 infos
    (made.1.toList ++ rest.1, rest.2)

/-- The lines whose servers look up the hosts of the others. -/
def bootstrapServers (infos : List NameServerInfo) : List NameServerInfo :=
  let chosen := infos.filter fun info => info.bootstrapDns && info.hasIp
  if chosen.isEmpty then infos.filter fun info => info.hasIp && info.proxy.isNone else chosen

/-- The bootstrap servers, those of the system if no line serves. -/
def bootstrap (system : List NameServer) (infos : List NameServerInfo) :
    List NameServer × Instances :=
  if (bootstrapServers infos).isEmpty then (system, [])
  else makeServers newServer false true [] (bootstrapServers infos)

/-- `entry(key).or_default().insert(info)`. -/
def insertInto (key : Option String) (info : NameServerInfo) : ConfigGroups → ConfigGroups
  | [] => [(key, [info])]
  | (old, set) :: rest =>
    if old = key then (old, if info ∈ set then set else set ++ [info]) :: rest
    else (old, set) :: insertInto key info rest

/-- The keys under which a line is filed. -/
def keysOf (info : NameServerInfo) : List (Option String) :=
  info.group.map some ++ if info.excludeDefaultGroup then [] else [none]

def serverConfigGroups (infos : List NameServerInfo) : ConfigGroups :=
  (infos.flatMap fun info => (keysOf info).map fun key => (key, info)).foldl
    (fun table filed => insertInto filed.1 filed.2 table) []

/-- The groups of the client while it is built. -/
structure Groups where
  default : List NameServer
  named : List (String × List NameServer)
  instances : Instances

def buildGroups (order : HashOrder) (groups : Groups) : ConfigGroups → Groups
  | [] => groups
  | (key, set) :: rest =>
    let made := makeServers newServer true false groups.instances (order.servers set)
    match key with
    | some name =>
      buildGroups order ⟨groups.default, (name, made.1) :: groups.named, made.2⟩ rest
    | none => buildGroups order ⟨made.1, groups.named, made.2⟩ rest

/-- `DnsClientBuilder::build`; it panics without a bootstrap server. -/
def build (order : HashOrder) (system : List NameServer) (errorText : ProtoErrorKind → String)
    (infos : List NameServerInfo) : Option DnsClient :=
  let boot := bootstrap newServer system infos
  if boot.1.isEmpty then none
  else
    let groups := buildGroups newServer order ⟨boot.1, [], boot.2⟩
      (order.groups (serverConfigGroups infos))
    some ⟨groups.default, fun name => groups.named.lookup name, errorText⟩

end Build

/-! ## The table of server lines -/

variable {κ β : Type}

theorem insertInto_eq (key : Option String) (info : NameServerInfo) (table : ConfigGroups) :
    insertInto key info table =
      upsert key (fun set => if info ∈ set then set else set ++ [info]) [] table := by
  induction table with
  | nil => rfl
  | cons entry rest ih => simp only [insertInto, upsert, ih, beq_iff_eq]

theorem serverConfigGroups_eq (infos : List NameServerInfo) :
    serverConfigGroups infos =
      tabulate Prod.fst (fun filed set => if filed.2 ∈ set then set else set ++ [filed.2]) []
        (infos.flatMap fun info => (keysOf info).map fun key => (key, info)) := by
  simp only [serverConfigGroups, tabulate, insertInto_eq]

variable {key : Option String} {info : NameServerInfo}

/-- A line is filed under the keys it was inserted with. -/
theorem mem_lookup_tabulate (filed : List (Option String × NameServerInfo)) :
    info ∈ ((tabulate Prod.fst (fun f set => if f.2 ∈ set then set else set ++ [f.2]) []
      filed).lookup key).getD [] ↔ (key, info) ∈ filed := by
  induction filed using List.reverseRecOn with
  | nil => simp [tabulate]
  | append_singleton filed f ih =>
    obtain ⟨key', info'⟩ := f
    rw [tabulate_concat, lookup_upsert]
    by_cases hKey : key = key'
    · subst hKey
      rw [if_pos rfl, Option.getD_some, List.mem_append, ← ih]
      split
      · rename_i hIn
        constructor
        · exact .inl
        · rintro (h | h)
          · exact h
          · simpa [(Prod.mk.inj (List.mem_singleton.mp h)).2] using hIn
      · simp
    · simp [hKey, ih]

/-- There is an entry for every key that something is filed under. -/
theorem lookup_tabulate_isSome {g : Option String × NameServerInfo → List NameServerInfo →
    List NameServerInfo} (filed : List (Option String × NameServerInfo)) :
    ((tabulate Prod.fst g [] filed).lookup key).isSome = true ↔ ∃ info, (key, info) ∈ filed := by
  induction filed using List.reverseRecOn with
  | nil => simp [tabulate]
  | append_singleton filed f ih =>
    rw [tabulate_concat, lookup_upsert]
    by_cases hKey : key = f.1
    · simp only [if_pos hKey, Option.isSome_some, true_iff]
      exact ⟨f.2, by simp [hKey]⟩
    · rw [if_neg hKey, ih]
      refine exists_congr fun info => ?_
      have hOther : (key, info) ≠ f := fun h => hKey (congrArg Prod.fst h)
      simp [hOther]

variable {infos : List NameServerInfo}

/-- A server is filed under exactly the keys its line names. -/
theorem mem_serverConfigGroups : info ∈ ((serverConfigGroups infos).lookup key).getD [] ↔
      info ∈ infos ∧ key ∈ keysOf info := by
  rw [serverConfigGroups_eq, mem_lookup_tabulate]
  simp only [List.mem_flatMap, List.mem_map, Prod.mk.injEq]
  constructor
  · rintro ⟨info', hInfo, key', hKey, rfl, rfl⟩
    exact ⟨hInfo, hKey⟩
  · rintro ⟨hInfo, hKey⟩
    exact ⟨info, hInfo, key, hKey, rfl, rfl⟩

/-- Each group has one entry. -/
theorem nodup_serverConfigGroups (infos : List NameServerInfo) :
    ((serverConfigGroups infos).map Prod.fst).Nodup := by
  rw [serverConfigGroups_eq, ← distinctKeys_iff_nodup]
  exact distinctKeys_tabulate ..

/-- In a table with distinct keys a key finds its own entry. -/
theorem lookup_eq_some_iff_mem [BEq κ] [LawfulBEq κ] {table : List (κ × β)}
    (h : (table.map Prod.fst).Nodup) {key : κ} {value : β} :
    table.lookup key = some value ↔ (key, value) ∈ table := by
  induction table with
  | nil => simp
  | cons entry rest ih =>
    obtain ⟨old, v⟩ := entry
    obtain ⟨hOld, hRest⟩ := List.nodup_cons.mp h
    by_cases hKey : key = old
    · subst hKey
      have hFresh : (key, value) ∉ rest := by
        intro hMem
        exact hOld (List.mem_map.mpr ⟨_, hMem, rfl⟩)
      simp [hFresh, eq_comm]
    · rw [lookup_cons_of_ne hKey, ih hRest]
      simp [hKey]

theorem lookup_perm [BEq κ] [LawfulBEq κ] {table table' : List (κ × β)}
    (h : (table.map Prod.fst).Nodup) (hPerm : table'.Perm table) (key : κ) :
    table'.lookup key = table.lookup key := by
  have h' : (table'.map Prod.fst).Nodup := (hPerm.map Prod.fst).nodup_iff.mpr h
  apply Option.ext
  intro value
  rw [lookup_eq_some_iff_mem h, lookup_eq_some_iff_mem h', hPerm.mem_iff]

/-! ## The servers made -/

section Make

variable {newServer : NameServerInfo → Bool → Option NameServer} {resolver dedup : Bool}

theorem lookup_makeServer (instances : Instances) (info info' : NameServerInfo) :
    (makeServer newServer resolver dedup instances info).2.lookup info' =
      (instances.lookup info').or
        (if info' = info then some (newServer info' resolver) else none) := by
  unfold makeServer
  cases hInfo : instances.lookup info with
  | some server =>
    by_cases hSame : info' = info
    · subst hSame
      simp [hInfo]
    · simp [hSame]
  | none =>
    by_cases hSame : info' = info
    · subst hSame
      simp [hInfo]
    · simp [hSame, lookup_cons_of_ne hSame]

/-- Making the servers of a set keeps those already made. -/
theorem lookup_makeServers (infos : List NameServerInfo) (info : NameServerInfo) :
    ∀ instances : Instances, (makeServers newServer resolver dedup instances infos).2.lookup info =
      (instances.lookup info).or
        (if info ∈ infos then some (newServer info resolver) else none) := by
  induction infos with
  | nil =>
    simp [makeServers]
  | cons head infos ih =>
    intro instances
    rw [makeServers, ih, lookup_makeServer]
    by_cases hHead : info = head
    · simp [hHead]
    · simp [hHead]

/-- Without deduplication every line counts, with the server it has or the one that is made. -/
theorem makeServers_eq (infos : List NameServerInfo) : ∀ instances : Instances,
    (makeServers newServer resolver false instances infos).1 =
      infos.filterMap fun info => (instances.lookup info).getD (newServer info resolver) := by
  induction infos with
  | nil =>
    intro instances
    rfl
  | cons head infos ih =>
    intro instances
    have hHead : (makeServer newServer resolver false instances head).1 =
        (instances.lookup head).getD (newServer head resolver) := by
      unfold makeServer
      cases instances.lookup head <;> rfl
    have hRest : ∀ info,
        ((makeServer newServer resolver false instances head).2.lookup info).getD
          (newServer info resolver) =
        (instances.lookup info).getD (newServer info resolver) := by
      intro info
      rw [lookup_makeServer]
      cases instances.lookup info with
      | some server => rfl
      | none =>
        split <;> rfl
    rw [makeServers, ih, List.filterMap_cons, hHead]
    simp only [hRest]
    cases (instances.lookup head).getD (newServer head resolver) <;> rfl

end Make

/-- The server of a line; those of the bootstrap lines are made without a resolver. -/
def serverOf (newServer : NameServerInfo → Bool → Option NameServer) (infos : List NameServerInfo)
    (info : NameServerInfo) : Option NameServer :=
  newServer info (!decide (info ∈ bootstrapServers infos))

section Groups

variable {newServer : NameServerInfo → Bool → Option NameServer} {order : HashOrder}
  {infos : List NameServerInfo}

/-- The servers made so far are those of their lines, and the bootstrap lines have theirs. -/
structure Sound (newServer : NameServerInfo → Bool → Option NameServer)
    (infos : List NameServerInfo) (instances : Instances) : Prop where
  made : ∀ info server, instances.lookup info = some server → server = serverOf newServer infos info
  boot : ∀ info ∈ bootstrapServers infos, (instances.lookup info).isSome = true

/-- Every instance the bootstrap makes comes from its own line. -/
theorem sound_bootstrap (system : List NameServer) :
    Sound newServer infos (bootstrap newServer system infos).2 := by
  have hLookup : ∀ info, (bootstrap newServer system infos).2.lookup info =
      if info ∈ bootstrapServers infos then some (newServer info false) else none := by
    intro info
    unfold bootstrap
    by_cases hEmpty : (bootstrapServers infos).isEmpty = true
    · simp [List.isEmpty_iff.mp hEmpty]
    · rw [if_neg hEmpty, lookup_makeServers]
      rfl
  refine ⟨?_, ?_⟩
  · intro info server h
    rw [hLookup] at h
    obtain ⟨hBoot, hServer⟩ := Option.ite_none_right_eq_some.mp h
    cases hServer
    simp [serverOf, hBoot]
  · intro info hBoot
    rw [hLookup, if_pos hBoot]
    rfl

theorem Sound.getD {instances : Instances} (h : Sound newServer infos instances)
    (info : NameServerInfo) :
    (instances.lookup info).getD (newServer info true) = serverOf newServer infos info := by
  cases hLookup : instances.lookup info with
  | some server => exact h.made info server hLookup
  | none =>
    have hNot : info ∉ bootstrapServers infos := by
      intro hBoot
      have hSome := h.boot info hBoot
      rw [hLookup] at hSome
      cases hSome
    simp [serverOf, hNot]

/-- Making servers keeps each made from its own line. -/
theorem Sound.makeServers {instances : Instances} (h : Sound newServer infos instances)
    (set : List NameServerInfo) :
    Sound newServer infos (makeServers newServer true false instances set).2 := by
  refine ⟨?_, ?_⟩
  · intro info server hLookup
    rw [lookup_makeServers, Option.or_eq_some_iff] at hLookup
    rcases hLookup with hOld | ⟨hNone, hNew⟩
    · exact h.made info server hOld
    · obtain ⟨-, hServer⟩ := Option.ite_none_right_eq_some.mp hNew
      cases hServer
      rw [← h.getD, hNone]
      rfl
  · intro info hBoot
    rw [lookup_makeServers, Option.isSome_or, h.boot info hBoot]
    rfl

/-- The servers under a key of the table. -/
def Groups.slot (groups : Groups) : Option String → List NameServer
  | none => groups.default
  | some name => (groups.named.lookup name).getD []

/-- What the client has under each key: the servers of the lines filed there, or what it had. -/
theorem slot_buildGroups (key : Option String) (table : ConfigGroups) :
    ∀ groups : Groups, (table.map Prod.fst).Nodup → Sound newServer infos groups.instances →
      (buildGroups newServer order groups table).slot key =
        match table.lookup key with
        | some set => (order.servers set).filterMap (serverOf newServer infos)
        | none => groups.slot key := by
  induction table with
  | nil =>
    intro groups _ _
    rfl
  | cons entry rest ih =>
    intro groups hNodup hSound
    obtain ⟨old, set⟩ := entry
    obtain ⟨hOld, hRest⟩ := List.nodup_cons.mp hNodup
    have hServers : (makeServers newServer true false groups.instances (order.servers set)).1 =
        (order.servers set).filterMap (serverOf newServer infos) := by
      rw [makeServers_eq]
      exact List.filterMap_congr fun info _ => hSound.getD info
    have hNext := hSound.makeServers (order.servers set)
    -- the key of the entry does not occur again, so what is put there stays
    have hLast : ∀ next : Groups, Sound newServer infos next.instances →
        next.slot key = (if key = old then
          (order.servers set).filterMap (serverOf newServer infos) else groups.slot key) →
        (buildGroups newServer order next rest).slot key =
          match (((old, set) :: rest : ConfigGroups)).lookup key with
          | some set => (order.servers set).filterMap (serverOf newServer infos)
          | none => groups.slot key := by
      intro next hSound' hSlot
      rw [ih next hRest hSound']
      by_cases hKey : key = old
      · subst hKey
        have hFresh : rest.lookup key = none := by
          rw [List.lookup_eq_none_iff]
          intro p hp
          exact bne_iff_ne.mpr fun h => hOld (List.mem_map.mpr ⟨p, hp, h.symm⟩)
        simp [hFresh, hSlot]
      · rw [lookup_cons_of_ne hKey, hSlot, if_neg hKey]
    cases old with
    | none =>
      refine hLast _ hNext ?_
      cases key with
      | none => simp [Groups.slot, hServers]
      | some name => simp [Groups.slot]
    | some group =>
      refine hLast _ hNext ?_
      cases key with
      | none => simp [Groups.slot]
      | some name =>
        by_cases hName : name = group
        · simp [Groups.slot, hServers, hName]
        · simp [Groups.slot, hName, lookup_cons_of_ne hName]

variable {system : List NameServer} {server : NameServer}

/-- What the client is built with under a key. -/
theorem slot_build (key : Option String) :
    (buildGroups newServer order
        ⟨(bootstrap newServer system infos).1, [], (bootstrap newServer system infos).2⟩
        (order.groups (serverConfigGroups infos))).slot key =
      match (serverConfigGroups infos).lookup key with
      | some set => (order.servers set).filterMap (serverOf newServer infos)
      | none => if key = none then (bootstrap newServer system infos).1 else [] := by
  have hNodup := nodup_serverConfigGroups infos
  have hPerm := order.groups_perm (serverConfigGroups infos)
  have hNodup' : ((order.groups (serverConfigGroups infos)).map Prod.fst).Nodup :=
    (hPerm.map Prod.fst).nodup_iff.mpr hNodup
  rw [slot_buildGroups key _ _ hNodup' (sound_bootstrap system), lookup_perm hNodup hPerm]
  cases key with
  | none => rfl
  | some name => rfl

/-- The servers that the client has under a key, if lines are filed there. -/
theorem mem_slot_build {key : Option String}
    (h : ((serverConfigGroups infos).lookup key).isSome = true ∨ key ≠ none) :
    server ∈ (buildGroups newServer order
        ⟨(bootstrap newServer system infos).1, [], (bootstrap newServer system infos).2⟩
        (order.groups (serverConfigGroups infos))).slot key ↔
      ∃ info ∈ infos, key ∈ keysOf info ∧ serverOf newServer infos info = some server := by
  have hFiled : ∀ info, info ∈ ((serverConfigGroups infos).lookup key).getD [] ↔
      info ∈ infos ∧ key ∈ keysOf info := fun info => mem_serverConfigGroups
  rw [slot_build]
  cases hLookup : (serverConfigGroups infos).lookup key with
  | some set =>
    rw [hLookup, Option.getD_some] at hFiled
    simp only [List.mem_filterMap, (order.servers_perm set).mem_iff, hFiled, and_assoc]
  | none =>
    rw [hLookup] at h hFiled
    have hNamed : key ≠ none := h.resolve_left (by simp)
    simp only [Option.getD_none, List.not_mem_nil, false_iff, not_and] at hFiled
    simp only [if_neg hNamed, List.not_mem_nil, false_iff]
    rintro ⟨info, hInfo, hKey, -⟩
    exact hFiled info hInfo hKey

/-! ## The default group -/

/-- With deduplication a line counts once, and not if its server exists already. -/
theorem mem_makeServers_dedup {resolver : Bool} (set : List NameServerInfo) :
    ∀ instances : Instances, server ∈ (makeServers newServer resolver true instances set).1 ↔
      ∃ info ∈ set, instances.lookup info = none ∧ newServer info resolver = some server := by
  induction set with
  | nil => simp [makeServers]
  | cons head set ih =>
    intro instances
    rw [makeServers, List.mem_append, ih, Option.mem_toList]
    simp only [lookup_makeServer, Option.or_eq_none_iff, List.mem_cons, exists_eq_or_imp]
    cases hHead : instances.lookup head with
    | some made =>
      have hOther : ∀ info, instances.lookup info = none → info ≠ head := by
        rintro info hNone rfl
        rw [hHead] at hNone
        cases hNone
      simp only [makeServer, hHead, if_true, reduceCtorEq, false_and, false_or]
      refine exists_congr fun info => and_congr_right fun _ => ?_
      constructor
      · rintro ⟨⟨hNone, -⟩, hNew⟩
        exact ⟨hNone, hNew⟩
      · rintro ⟨hNone, hNew⟩
        exact ⟨⟨hNone, if_neg (hOther info hNone)⟩, hNew⟩
    | none =>
      simp only [makeServer, hHead, true_and]
      constructor
      · rintro (hNew | ⟨info, hInfo, ⟨hNone, -⟩, hNew⟩)
        · exact .inl hNew
        · exact .inr ⟨info, hInfo, hNone, hNew⟩
      · rintro (hNew | ⟨info, hInfo, hNone, hNew⟩)
        · exact .inl hNew
        · by_cases hSame : info = head
          · exact .inl (hSame ▸ hNew)
          · exact .inr ⟨info, hInfo, ⟨hNone, if_neg hSame⟩, hNew⟩

theorem mem_of_bootstrapServers {info : NameServerInfo} (h : info ∈ bootstrapServers infos) :
    info ∈ infos := by
  unfold bootstrapServers at h
  dsimp only at h
  split at h <;> exact List.mem_of_mem_filter h

/-- The bootstrap servers are those of their lines. -/
theorem mem_bootstrap (h : bootstrapServers infos ≠ []) :
    server ∈ (bootstrap newServer system infos).1 ↔
      ∃ info ∈ infos, info ∈ bootstrapServers infos ∧
        serverOf newServer infos info = some server := by
  have hNot : ¬(bootstrapServers infos).isEmpty = true := mt List.isEmpty_iff.mp h
  rw [bootstrap, if_neg hNot, mem_makeServers_dedup]
  constructor
  · rintro ⟨info, hBoot, -, hNew⟩
    exact ⟨info, mem_of_bootstrapServers hBoot, hBoot, by simpa [serverOf, hBoot] using hNew⟩
  · rintro ⟨info, -, hBoot, hServer⟩
    exact ⟨info, hBoot, rfl, by simpa [serverOf, hBoot] using hServer⟩

/-- Is a line in the default group by itself? -/
def someIncluded (infos : List NameServerInfo) : Bool :=
  infos.any fun info => !info.excludeDefaultGroup

/-- The lines that the default group of the client is made of: those that are not excluded, or the
bootstrap lines if all are. -/
def DefaultLine (infos : List NameServerInfo) (info : NameServerInfo) : Prop :=
  if someIncluded infos then info.excludeDefaultGroup = false else info ∈ bootstrapServers infos

theorem none_mem_keysOf {info : NameServerInfo} :
    none ∈ keysOf info ↔ info.excludeDefaultGroup = false := by
  cases h : info.excludeDefaultGroup <;> simp [keysOf, h]

/-- There is a default group in the table if a line is in it by itself. -/
theorem lookup_none_isSome (infos : List NameServerInfo) :
    ((serverConfigGroups infos).lookup none).isSome = someIncluded infos := by
  rw [Bool.eq_iff_iff, serverConfigGroups_eq, lookup_tabulate_isSome, someIncluded,
    List.any_eq_true]
  simp only [List.mem_flatMap, List.mem_map, Prod.mk.injEq, Bool.not_eq_true']
  constructor
  · rintro ⟨-, info, hInfo, key, hKey, rfl, rfl⟩
    exact ⟨info, hInfo, none_mem_keysOf.mp hKey⟩
  · rintro ⟨info, hInfo, hIncluded⟩
    exact ⟨info, info, hInfo, none, none_mem_keysOf.mpr hIncluded, rfl, rfl⟩

/-- If all lines are excluded, the default group is left to the bootstrap servers. -/
theorem slot_none_build (h : someIncluded infos = false) :
    (buildGroups newServer order
        ⟨(bootstrap newServer system infos).1, [], (bootstrap newServer system infos).2⟩
        (order.groups (serverConfigGroups infos))).slot none =
      (bootstrap newServer system infos).1 := by
  have hNone : (serverConfigGroups infos).lookup none = none := by
    rw [← Option.not_isSome_iff_eq_none, lookup_none_isSome, h]
    exact Bool.false_ne_true
  rw [slot_build, hNone]
  rfl

/-- The default group of the client has the servers of its lines, if there are any. -/
theorem mem_default_build (h : someIncluded infos = true ∨ bootstrapServers infos ≠ []) :
    server ∈ (buildGroups newServer order
        ⟨(bootstrap newServer system infos).1, [], (bootstrap newServer system infos).2⟩
        (order.groups (serverConfigGroups infos))).slot none ↔
      ∃ info ∈ infos, DefaultLine infos info ∧ serverOf newServer infos info = some server := by
  unfold DefaultLine
  cases hIncluded : someIncluded infos with
  | true =>
    rw [mem_slot_build (.inl ((lookup_none_isSome infos).trans hIncluded))]
    simp only [none_mem_keysOf, if_true]
  | false =>
    rw [hIncluded] at h
    rw [slot_none_build hIncluded, mem_bootstrap (h.resolve_left Bool.false_ne_true)]
    rfl

end Groups

/-! ## Both answers -/

def usedServers (client : DnsClient) (group : String) : List NameServer :=
  ((client.getServerGroup group).map NameServerGroup.servers).getD []

/-- The names that the client takes for the default group. -/
def TakenForDefault (group : String) : Prop := group = "" ∨ eqIgnoreAsciiCase group "default" = true

variable {group : String}

theorem usedServers_named (client : DnsClient) (h : ¬TakenForDefault group) :
    usedServers client group = (client.servers group).getD [] := by
  have hNot : ¬(group = "" ∨ eqIgnoreAsciiCase group "default" = true) := h
  rw [usedServers, DnsClient.getServerGroup, if_neg hNot]
  cases client.servers group <;> rfl

theorem usedServers_default (client : DnsClient) (h : TakenForDefault group) :
    usedServers client group = client.defaultServerGroup.servers := by
  have hDefault : group = "" ∨ eqIgnoreAsciiCase group "default" = true := h
  rw [usedServers, DnsClient.getServerGroup, if_pos hDefault]
  rfl

/-- The lines of a group: in the default group those that are not excluded from it or name it, in
another one those that name it. -/
def Listed (group : String) (info : NameServerInfo) : Prop :=
  if group = defaultGroup then info.excludeDefaultGroup = false ∨ defaultGroup ∈ info.group
  else group ∈ info.group

/-- A group holds exactly the servers that list it. -/
theorem mem_getServerGroup :
    info ∈ getServerGroup infos group ↔ info ∈ infos ∧ Listed group info := by
  unfold getServerGroup Listed
  by_cases hGroup : group = defaultGroup
  · simp [hGroup, or_comm]
  · simp [hGroup]

/-- Every server is an object of its own, those of the system too. -/
structure OwnServers (newServer : NameServerInfo → Bool → Option NameServer)
    (system : List NameServer) (infos : List NameServerInfo) : Prop where
  own : ∀ info ∈ infos, ∀ info' ∈ infos, ∀ server, serverOf newServer infos info = some server →
    serverOf newServer infos info' = some server → info = info'
  system : ∀ server ∈ system, ∀ info ∈ infos, serverOf newServer infos info ≠ some server

/-- A name that the client takes for the default group fits if the default group is not left to
the servers of the system, and if its lines, those without a server aside, are those that the
configuration gives to the name. -/
def GroupFits (newServer : NameServerInfo → Bool → Option NameServer) (infos : List NameServerInfo)
    (group : String) : Prop :=
  TakenForDefault group →
    (someIncluded infos = true ∨ bootstrapServers infos ≠ []) ∧
    ∀ info ∈ infos, (serverOf newServer infos info).isSome = true →
      (DefaultLine infos info ↔ Listed group info)

/-- Of two sets of lines, each server being of one line. -/
theorem forall_server_iff {newServer : NameServerInfo → Bool → Option NameServer}
    {system : List NameServer} (hOwn : OwnServers newServer system infos)
    {P Q : NameServerInfo → Prop} :
    (∀ server, (∃ info ∈ infos, P info ∧ serverOf newServer infos info = some server) ↔
        ∃ info ∈ infos, Q info ∧ serverOf newServer infos info = some server) ↔
      ∀ info ∈ infos, (serverOf newServer infos info).isSome = true → (P info ↔ Q info) := by
  constructor
  · intro h info hInfo hSome
    obtain ⟨server, hServer⟩ := Option.isSome_iff_exists.mp hSome
    constructor
    · intro hP
      obtain ⟨info', hInfo', hQ, hServer'⟩ := (h server).mp ⟨info, hInfo, hP, hServer⟩
      rw [hOwn.own info hInfo info' hInfo' server hServer hServer']
      exact hQ
    · intro hQ
      obtain ⟨info', hInfo', hP, hServer'⟩ := (h server).mpr ⟨info, hInfo, hQ, hServer⟩
      rw [hOwn.own info hInfo info' hInfo' server hServer hServer']
      exact hP
  · intro h server
    refine exists_congr fun info => and_congr_right fun hInfo => and_congr_left fun hServer => ?_
    exact h info hInfo (by rw [hServer]; rfl)

/-- **The servers of a group are those that the configuration gives it**, exactly if the name of
the group fits: in the default group the servers that are not excluded from it or name it, in
another group those that name it. -/
theorem upstream_membership (newServer : NameServerInfo → Bool → Option NameServer)
    (order : HashOrder) (system : List NameServer) (errorText : ProtoErrorKind → String)
    (infos : List NameServerInfo) (client : DnsClient)
    (hBuild : build newServer order system errorText infos = some client)
    (hOwn : OwnServers newServer system infos) (group : String) :
    ((∀ server, server ∈ usedServers client group ↔
        ∃ info ∈ getServerGroup infos group, serverOf newServer infos info = some server) ↔
      GroupFits newServer infos group) ∧
    ∀ info, info ∈ getServerGroup infos group ↔ info ∈ infos ∧
      if group = defaultGroup then info.excludeDefaultGroup = false ∨ defaultGroup ∈ info.group
      else group ∈ info.group := by
  refine ⟨?_, fun info => mem_getServerGroup⟩
  obtain ⟨hBoot, hClient⟩ := Option.ite_none_left_eq_some.mp hBuild
  cases hClient
  simp only [mem_getServerGroup, and_assoc]
  by_cases hDefault : TakenForDefault group
  · rw [usedServers_default _ hDefault]
    by_cases hLines : someIncluded infos = true ∨ bootstrapServers infos ≠ []
    · simp only [GroupFits, hDefault, hLines, true_and, forall_true_left]
      rw [← forall_server_iff hOwn]
      exact forall_congr' fun server => iff_congr (mem_default_build hLines) Iff.rfl
    · -- only the servers of the system are left, and no line is theirs
      obtain ⟨hIncluded, hNone⟩ := not_or.mp hLines
      have hNone := not_not.mp hNone
      have hSystem : (bootstrap newServer system infos).1 = system := by
        rw [bootstrap, hNone]
        rfl
      obtain ⟨server, hServer⟩ := List.exists_mem_of_ne_nil _ (mt List.isEmpty_iff.mpr hBoot)
      refine iff_of_false ?_ fun hFits => hLines (hFits hDefault).1
      intro hSame
      obtain ⟨info, hInfo, -, hLine⟩ := (hSame server).mp (by
        rw [← slot_none_build (Bool.eq_false_of_not_eq_true hIncluded)] at hServer
        exact hServer)
      rw [hSystem] at hServer
      exact hOwn.system server hServer info hInfo hLine
  · have hFits : GroupFits newServer infos group := fun h => absurd h hDefault
    simp only [hFits, iff_true]
    intro server
    have hName : group ≠ defaultGroup := by
      rintro rfl
      exact hDefault (.inr (by decide))
    rw [usedServers_named _ hDefault]
    refine (mem_slot_build (.inr (Option.some_ne_none group))).trans ?_
    refine exists_congr fun info => and_congr_right fun _ => and_congr_left fun _ => ?_
    simp [keysOf, Listed, hName]

/-! ## Two server lines -/

/-- A server of the default group. -/
def openInfo : NameServerInfo where
  name := none
  server := "udp://1.1.1.1"
  hasIp := true
  group := ["office"]
  blacklistIp := false
  whitelistIp := false
  checkEdns := false
  excludeDefaultGroup := false
  proxy := none
  bootstrapDns := false
  resolveGroup := none
  subnet := none
  soMark := none
  interface := none
  enabled := none

/-- A server that is excluded from the default group and names some groups. -/
def excludedInfo (group : List String) : NameServerInfo :=
  { openInfo with
    server := "udp://8.8.8.8"
    group := group
    excludeDefaultGroup := true }

/-- A server for every line, with a number of its own. -/
def numbered (info : NameServerInfo) (_ : Bool) : Option NameServer :=
  some ⟨if info.excludeDefaultGroup then 2 else 1, info.whitelistIp, info.blacklistIp⟩

def inOrder : HashOrder := ⟨id, fun _ => .refl _, id, fun _ => .refl _⟩

def numberedClient (group : List String) : Option DnsClient :=
  build numbered inOrder [] (fun _ => "") [openInfo, excludedInfo group]

theorem ownServers_numbered (group : List String) :
    OwnServers numbered [] [openInfo, excludedInfo group] := by
  refine ⟨?_, by simp⟩
  intro info hInfo info' hInfo' server hServer hServer'
  simp only [List.mem_cons, List.not_mem_nil, or_false] at hInfo hInfo'
  have hSame : serverOf numbered [openInfo, excludedInfo group] info =
      serverOf numbered [openInfo, excludedInfo group] info' := hServer.trans hServer'.symm
  rcases hInfo with rfl | rfl <;> rcases hInfo' with rfl | rfl
  · rfl
  · cases hSame
  · cases hSame
  · rfl

/-- A group of two servers, and the default group with one of them. -/
theorem upstream_membership_office :
    ∃ client, numberedClient ["office"] = some client ∧
      (∀ server, server ∈ usedServers client "office" ↔
        ∃ info ∈ getServerGroup [openInfo, excludedInfo ["office"]] "office",
          serverOf numbered [openInfo, excludedInfo ["office"]] info = some server) ∧
      ∀ server, server ∈ usedServers client defaultGroup ↔
        ∃ info ∈ getServerGroup [openInfo, excludedInfo ["office"]] defaultGroup,
          serverOf numbered [openInfo, excludedInfo ["office"]] info = some server := by
  have hName : ¬TakenForDefault "office" := by
    rw [TakenForDefault]
    decide
  have hAgree := fun group => (upstream_membership numbered inOrder [] (fun _ => "") _ _ rfl
    (ownServers_numbered ["office"]) group).1
  refine ⟨_, rfl, (hAgree "office").mpr fun h => absurd h hName, (hAgree defaultGroup).mpr ?_⟩
  refine fun _ => ⟨.inl rfl, ?_⟩
  intro info hInfo _
  simp only [List.mem_cons, List.not_mem_nil, or_false] at hInfo
  rcases hInfo with rfl | rfl <;>
    simp [DefaultLine, Listed, someIncluded, openInfo, excludedInfo, defaultGroup]

/-- A server that is excluded from the default group and names it is not used, and a group spelled
like the default group is not found. -/
theorem upstream_membership_differs :
    (∃ client, numberedClient ["default"] = some client ∧
      (usedServers client defaultGroup).map NameServer.id = [1] ∧
      getServerGroup [openInfo, excludedInfo ["default"]] defaultGroup =
        [openInfo, excludedInfo ["default"]]) ∧
    ∃ client, numberedClient ["Default"] = some client ∧
      (usedServers client "Default").map NameServer.id = [1] ∧
      getServerGroup [openInfo, excludedInfo ["Default"]] "Default" = [excludedInfo ["Default"]] :=
  ⟨⟨_, rfl, by decide, by decide⟩, ⟨_, rfl, by decide, by decide⟩⟩

end SmartDns.Ports.UpstreamGroups
