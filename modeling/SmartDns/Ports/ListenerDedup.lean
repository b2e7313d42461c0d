import SmartDns.Ports.DnsMessage

/-!
# Duplicated listeners

The last step of `RuntimeConfigBuilder::build` on the `bind` lines walks the
listeners backwards, notes the index of each one whose socket address a later
listener of its class already has, and removes the noted indexes one by one.
Every removal shifts what stands behind it, so the indexes stay right only
because they were noted in descending order (`Noted.removes`).
-/

namespace SmartDns.Ports.ListenerDedup

open DnsMessage

inductive BindAddr where
  | Localhost
  | All
  | V4 (ip : BitVec 32)
  | V6 (ip : BitVec 128)

/-- The variants of `BindAddrConfig`. -/
inductive Transport where
  | Udp | Tcp | Tls | Http | Https | H3 | Quic
  deriving DecidableEq

/-- A listener; `opts` is the device, the server and the certificate options. -/
structure BindAddrConfig (Opts : Type) where
  transport : Transport
  addr : BindAddr
  port : Nat
  opts : Opts

variable {Opts : Type}

namespace BindAddrConfig

/-- `IBindConfig::sock_addr`. -/
def sockAddr (listener : BindAddrConfig Opts) : IpAddr × Nat :=
  match listener.addr with
  | .Localhost => (.v4 0x7f000001#32, listener.port)
  | .All => (.v4 0#32, listener.port)
  | .V4 ip => (.v4 ip, listener.port)
  | .V6 ip => (.v6 ip, listener.port)

/-- The transports whose addresses are kept in `udp_addr`. -/
def isUdp (listener : BindAddrConfig Opts) : Bool :=
  listener.transport ∈ [Transport.Udp, .Quic, .H3]

/-- The two would bind one socket address of one class. -/
abbrev Clash (a b : BindAddrConfig Opts) : Prop := a.isUdp = b.isUdp ∧ a.sockAddr = b.sockAddr

end BindAddrConfig

/-- The variables of the reverse pass. -/
structure Pass where
  udpAddr : List (IpAddr × Nat) := []
  tcpAddr : List (IpAddr × Nat) := []
  removeIdx : List Nat := []

def Pass.visit (pass : Pass) (entry : BindAddrConfig Opts × Nat) : Pass :=
  let addr := entry.1.sockAddr
  if entry.1.isUdp then
    if addr ∈ pass.udpAddr then { pass with removeIdx := pass.removeIdx ++ [entry.2] }
    else { pass with udpAddr := addr :: pass.udpAddr }
  else if addr ∈ pass.tcpAddr then { pass with removeIdx := pass.removeIdx ++ [entry.2] }
  else { pass with tcpAddr := addr :: pass.tcpAddr }

/-- `Vec::remove`, which panics outside the vector. -/
def remove (binds : List (BindAddrConfig Opts)) (idx : Nat) : Option (List (BindAddrConfig Opts)) :=
  if idx < binds.length then some (binds.eraseIdx idx) else none

/-- The dedup block of `RuntimeConfigBuilder::build`. -/
def dedupBinds (binds : List (BindAddrConfig Opts)) : Option (List (BindAddrConfig Opts)) :=
  (binds.zipIdx.reverse.foldl Pass.visit {}).removeIdx.foldlM remove binds

/-- The listeners that no later one clashes with, in their order. -/
def lastBinds (binds : List (BindAddrConfig Opts)) : List (BindAddrConfig Opts) :=
  binds.tails.filterMap fun
    | [] => none
    | l :: later => if ∃ b ∈ later, l.Clash b then none else some l

variable {l : BindAddrConfig Opts} {binds : List (BindAddrConfig Opts)} {pass : Pass} {n : Nat}

theorem lastBinds_cons : lastBinds (l :: binds)
    = if ∃ b ∈ binds, l.Clash b then lastBinds binds else l :: lastBinds binds := by
  simp only [lastBinds, List.tails, List.filterMap_cons]
  split_ifs <;> rfl

theorem mem_of_mem_lastBinds {b : BindAddrConfig Opts} (h : b ∈ lastBinds binds) : b ∈ binds := by
  induction binds with
  | nil => simp [lastBinds] at h
  | cons l binds ih =>
    rw [lastBinds_cons] at h
    split at h
    · exact List.mem_cons_of_mem l (ih h)
    · exact List.mem_cons.mpr ((List.mem_cons.mp h).imp_right ih)

/-- No two of the listeners kept clash. -/
theorem lastBinds_pairwise : (lastBinds binds).Pairwise fun a b => ¬ a.Clash b := by
  induction binds with
  | nil => simp [lastBinds]
  | cons l binds ih =>
    rw [lastBinds_cons]
    split
    · exact ih
    · rename_i hNone
      exact List.pairwise_cons.mpr
        ⟨fun b hb hClash => hNone ⟨b, mem_of_mem_lastBinds hb, hClash⟩, ih⟩

/-- The set of the pass for one class. -/
def Pass.seen (pass : Pass) (isUdp : Bool) : List (IpAddr × Nat) :=
  if isUdp then pass.udpAddr else pass.tcpAddr

theorem Pass.visit_of_mem (h : l.sockAddr ∈ pass.seen l.isUdp) :
    pass.visit (l, n) = { pass with removeIdx := pass.removeIdx ++ [n] } := by
  unfold Pass.seen at h
  unfold Pass.visit
  cases hUdp : l.isUdp <;> simp_all

theorem Pass.visit_of_not_mem (h : l.sockAddr ∉ pass.seen l.isUdp) :
    (pass.visit (l, n)).removeIdx = pass.removeIdx ∧
      ∀ u a, a ∈ (pass.visit (l, n)).seen u
        ↔ l.isUdp = u ∧ l.sockAddr = a ∨ a ∈ pass.seen u := by
  unfold Pass.seen at h
  unfold Pass.visit Pass.seen
  cases hUdp : l.isUdp <;> simp [hUdp] at h ⊢ <;> simp [h, eq_comm]

/-- What the pass has noted of the listeners from index `n` on. -/
structure Noted (binds : List (BindAddrConfig Opts)) (n : Nat) (pass : Pass) : Prop where
  seen : ∀ u a, a ∈ pass.seen u ↔ ∃ b ∈ binds, u = b.isUdp ∧ a = b.sockAddr
  -- the noted indexes are good for the whole vector, whatever stands in front
  removes : ∀ front : List (BindAddrConfig Opts), front.length = n →
    pass.removeIdx.foldlM remove (front ++ binds) = some (front ++ lastBinds binds)

/-- One visit notes the listener or marks it for removal. -/
theorem Noted.visit (h : Noted binds (n + 1) pass) : Noted (l :: binds) n (pass.visit (l, n)) := by
  have hClash : l.sockAddr ∈ pass.seen l.isUdp ↔ ∃ b ∈ binds, l.Clash b := h.seen _ _
  have hRemoves : ∀ front : List (BindAddrConfig Opts), front.length = n →
      pass.removeIdx.foldlM remove (front ++ l :: binds) =
        some (front ++ l :: lastBinds binds) := by
    intro front hLen
    simpa using h.removes (front ++ [l]) (by simp [hLen])
  by_cases hMem : l.sockAddr ∈ pass.seen l.isUdp
  · rw [Pass.visit_of_mem hMem]
    constructor
    · intro u a
      rw [List.exists_mem_cons_iff, ← h.seen u a]
      refine ⟨.inr, fun hSeen => hSeen.elim ?_ id⟩
      rintro ⟨rfl, rfl⟩
      exact hMem
    · intro front hLen
      -- all later removals are done, so index `n` is the listener itself
      rw [List.foldlM_append, hRemoves front hLen, lastBinds_cons, if_pos (hClash.mp hMem)]
      simp [remove, ← hLen, List.eraseIdx_append_of_length_le]
  · obtain ⟨hIdx, hSeen⟩ := Pass.visit_of_not_mem (n := n) hMem
    constructor
    · intro u a
      rw [hSeen, h.seen, List.exists_mem_cons_iff, eq_comm (a := u), eq_comm (a := a)]
    · intro front hLen
      rw [hIdx, hRemoves front hLen, lastBinds_cons, if_neg (mt hClash.mpr hMem)]

theorem noted (binds : List (BindAddrConfig Opts)) (n : Nat) :
    Noted binds n ((binds.zipIdx n).reverse.foldl Pass.visit {}) := by
  induction binds generalizing n with
  | nil => exact ⟨by simp [Pass.seen], fun front _ => rfl⟩
  | cons l binds ih =>
    rw [List.zipIdx_cons, List.reverse_cons, List.foldl_append]
    exact (ih (n + 1)).visit

/-- Of the listeners of one class and address the last one is left, all in their order. -/
theorem dedupBinds_keeps_last (binds : List (BindAddrConfig Opts)) :
    ∃ kept, dedupBinds binds = some kept ∧ kept = lastBinds binds ∧
      kept.Pairwise fun a b => ¬ a.Clash b :=
  ⟨_, (noted binds 0).removes [] rfl, rfl, lastBinds_pairwise⟩

end SmartDns.Ports.ListenerDedup
