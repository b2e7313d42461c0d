import SmartDns.Ports.AddressApi
import SmartDns.Verified.Pool
import Mathlib.Data.List.Permutation

/-!
# Concurrent calls that rewrite the address file

The handlers take no lock. Between the moment a call looks at the file and the moment
it has written its own version, other calls may empty the file and write theirs. A call
that has looked before and writes after another one overwrites what that one has added.

A run is a run of the pool of handlers over one disk. The world also counts how often the
file has been emptied or written, and keeps the calls that have written in that order; a
call remembers the count at which it last looked at the file. If no call empties or writes
the file after somebody else has since it looked, the file is what the calls make of it one
after the other.
-/

namespace SmartDns.Ports.AddressRaces

open Verified ConfigValues ConfigText AddressText AddressApi RuleSources List

/-! ## Runs of concurrent calls -/

/-- How far a call has come with the file. -/
inductive Phase where
  | before
  | found
  | seen (version : Nat) (file : Option (List UInt8))
  | opened (version : Nat) (file : Option (List UInt8))
  | wrote
  | torn
  deriving DecidableEq

/-- The file as the call has seen it. -/
def Phase.file : Phase → Option (List UInt8)
  | .seen _ file => file
  | .opened _ file => file
  | _ => none

/-- A call and how far it has come. -/
structure Progress where
  call : Option Call
  phase : Phase

/-- The disk, how often the file has been changed, and the calls that have written it. -/
structure World where
  disk : Disk
  version : Nat
  written : List Call

abbrev Step (o : FileOp) := Option (o.Resp × World × Progress)

def exec (w : World) (g : Progress) (o : FileOp) (a : Answer) : Step o :=
  let disk := (w.disk.exec a o).2
  match o, (w.disk.exec a o).1 with
  | .fileExists, true => some (true, w, { g with phase := .found })
  | .fileExists, false => some (false, w, { g with phase := .seen w.version none })
  | .read, some bytes => some (some bytes, w, { g with phase := .seen w.version (some bytes) })
  | .read, none => some (none, w, g)
  | .truncate, true =>
    some (true, { w with disk := disk, version := w.version + 1 },
      { g with phase := .opened (w.version + 1) g.phase.file })
  | .truncate, false => some (false, w, g)
  | .write _, true =>
    some (true, { disk := disk, version := w.version + 1, written := w.written ++ g.call.toList },
      { g with phase := .wrote })
  | .write _, false =>
    some (false, { w with disk := disk, version := w.version + 1 }, { g with phase := .torn })
  | .managedDir, r => some (r, { w with disk := disk }, g)
  | .dirExists, r => some (r, { w with disk := disk }, g)
  | .createDir, r => some (r, { w with disk := disk }, g)
  | .reload, r => some (r, { w with disk := disk }, g)

variable (lib : TextLib) (other : ConfigItem → List Char)

/-- A request whose body cannot be read is refused before its handler. -/
def start (request : Request) : Handler :=
  match request.call lib with
  | some call => call.handler lib other
  | none => .done .Failed

def system : System FileOp FileOp.Resp World Progress Request Answer Reply where
  start := start lib other
  ghost request := ⟨request.call lib, .before⟩
  exec := exec

/-- Nobody has changed the file since the call last looked at it or changed it. -/
def Progress.current (g : Progress) (w : World) : Bool :=
  match g.phase with
  | .seen version _ => version == w.version
  | .opened version _ => version == w.version
  | _ => true

/-- Calls change the file only if it is as they know it. -/
def fresh (w : World) (g : Progress) : FileOp → Bool
  | .truncate => g.current w
  | .write _ => g.current w
  | _ => true

/-- What a call makes of the bytes of the file; `none` is an error. -/
def rewriteFile (call : Call) : Option (List UInt8) → Option (List UInt8)
  | none => (call.rewrite lib other none).map encode
  | some bytes => (decode bytes).bind fun text => (call.rewrite lib other (some text)).map encode

/-- Calls one after the other; `none` if one of them fails. -/
def serial : Option (List UInt8) → List Call → Option (Option (List UInt8))
  | file, [] => some file
  | file, call :: calls =>
    (rewriteFile lib other call file).bind fun bytes => serial (some bytes) calls

variable {lib other}

/-! ## What an operation does -/

/-- What a handler owes before an operation, and what it may assume of the answer. -/
def contract (lib : TextLib) (other : ConfigItem → List Char) :
    Contract FileOp FileOp.Resp Progress where
  pre
    | .fileExists, g => g.phase = .before
    | .read, g => g.phase = .found
    | .truncate, g => ∃ version file, g.phase = .seen version file
    | .write bytes, g => ∃ version file call, g.phase = .opened version file ∧ g.call = some call ∧
        rewriteFile lib other call file = some bytes
    | _, _ => True
  post
    | .fileExists, g, r, g' => g'.call = g.call ∧
        if r then g'.phase = .found else ∃ version, g'.phase = .seen version none
    | .read, g, r, g' => g'.call = g.call ∧
        ∀ bytes, r = some bytes → ∃ version, g'.phase = .seen version (some bytes)
    | .truncate, g, r, g' => g'.call = g.call ∧
        (r = true → ∃ version, g'.phase = .opened version g.phase.file)
    | .write _, g, r, g' => g'.call = g.call ∧ (r = true → g'.phase = .wrote)
    | _, g, _, g' => g' = g

/-- All that an operation can do to the file and to what a call knows of it. -/
inductive Effect (lib : TextLib) (other : ConfigItem → List Char) (w : World) (g : Progress)
    (w' : World) (g' : Progress) : Prop where
  | idle (hVersion : w'.version = w.version) (hWritten : w'.written = w.written)
      (hFile : w'.disk.file = w.disk.file) (hSame : g' = g)
  | look (hWorld : w' = w) (hEarly : g.phase = .before ∨ g.phase = .found)
      (hPhase : g'.phase = .found ∨ g'.phase = .seen w.version w.disk.file)
  | empty {file : Option (List UInt8)} (hPhase : g.phase = .seen w.version file)
      (hVersion : w'.version = w.version + 1) (hWritten : w'.written = w.written)
      (hFile : w'.disk.file = some []) (hNext : g'.phase = .opened (w.version + 1) file)
  | write {file : Option (List UInt8)} {call : Call} {bytes : List UInt8}
      (hPhase : g.phase = .opened w.version file) (hCall : g'.call = some call)
      (hBytes : rewriteFile lib other call file = some bytes)
      (hVersion : w'.version = w.version + 1) (hWritten : w'.written = w.written ++ [call])
      (hFile : w'.disk.file = some (overwrite bytes (w.disk.file.getD [])))
      (hNext : g'.phase = .wrote)
  | tear {file : Option (List UInt8)} (hPhase : g.phase = .opened w.version file)
      (hVersion : w'.version = w.version + 1) (hWritten : w'.written = w.written)
      (hNext : g'.phase = .torn)

variable {w : World} {g : Progress}

theorem idle_of_disk {disk : Disk} (hFile : disk.file = w.disk.file) :
    Effect lib other w g { w with disk := disk } g :=
  .idle rfl rfl hFile rfl

/-- Every operation of a handler has one of the effects listed. -/
theorem effect_of_exec {w' : World} {g' : Progress} {o : FileOp} {a : Answer} {r : o.Resp}
    (h : exec w g o a = some (r, w', g')) (hPre : (contract lib other).pre o g)
    (hFresh : fresh w g o = true) :
    (contract lib other).post o g r g' ∧ Effect lib other w g w' g' := by
  cases o with
  | managedDir =>
    cases a <;> cases h <;> exact ⟨rfl, idle_of_disk rfl⟩
  | dirExists =>
    cases h
    exact ⟨rfl, idle_of_disk rfl⟩
  | createDir | reload =>
    cases a <;> cases h <;> exact ⟨rfl, idle_of_disk rfl⟩
  | fileExists =>
    cases hFile : w.disk.file with
    | none =>
      simp only [exec, Disk.exec, hFile] at h
      cases h
      exact ⟨⟨rfl, w.version, rfl⟩, .look rfl (.inl hPre) (.inr (by rw [hFile]))⟩
    | some bytes =>
      simp only [exec, Disk.exec, hFile] at h
      cases h
      exact ⟨⟨rfl, rfl⟩, .look rfl (.inl hPre) (.inl rfl)⟩
  | read =>
    cases hRead : (w.disk.exec a .read).1 with
    | none =>
      simp only [exec, hRead] at h
      cases h
      refine ⟨⟨rfl, ?_⟩, idle_of_disk rfl⟩
      intro bytes hBytes
      cases hBytes
    | some bytes =>
      have hFile : w.disk.file = some bytes := by
        cases a with
        | ok => exact hRead
        | fails n => cases hRead
      simp only [exec, hRead] at h
      cases h
      refine ⟨⟨rfl, ?_⟩, .look rfl (.inr hPre) (.inr (by rw [hFile]))⟩
      intro bytes' hBytes
      exact ⟨w.version, by rw [hBytes]⟩
  | truncate =>
    obtain ⟨version, file, hPhase⟩ := hPre
    have hCurrent : version = w.version := by
      simpa [fresh, Progress.current, hPhase] using hFresh
    subst hCurrent
    cases a with
    | fails n =>
      cases h
      exact ⟨⟨rfl, fun hNo => absurd hNo Bool.false_ne_true⟩, idle_of_disk rfl⟩
    | ok =>
      cases h
      exact ⟨⟨rfl, fun _ => ⟨_, rfl⟩⟩, .empty hPhase rfl rfl rfl (by rw [hPhase]; rfl)⟩
  | write bytes =>
    obtain ⟨version, file, call, hPhase, hCall, hBytes⟩ := hPre
    have hCurrent : version = w.version := by
      simpa [fresh, Progress.current, hPhase] using hFresh
    subst hCurrent
    cases a with
    | fails n =>
      cases h
      exact ⟨⟨rfl, fun hNo => absurd hNo Bool.false_ne_true⟩, .tear hPhase rfl rfl rfl⟩
    | ok =>
      cases h
      exact ⟨⟨rfl, fun _ => rfl⟩, .write hPhase hCall hBytes rfl (by simp [hCall]) rfl rfl⟩

/-! ## What a handler does -/

/-- A call that reports success has written the file. -/
def Reported (call : Option Call) (reply : Reply) (g : Progress) : Prop :=
  reply.succeeded = true → g.phase = .wrote ∧ g.call = call

variable {reply : Reply}

theorem reported_of_refusal {call : Option Call} (h : reply.succeeded = false) :
    Reported call reply g :=
  fun hOk => absurd (h.symm.trans hOk) Bool.false_ne_true

variable {call : Call}

/-- A save reports what it did to the file it has read. -/
theorem save_sat {version : Nat} {file : Option (List UInt8)} {text : List Char}
    (hPhase : g.phase = .seen version file) (hCall : g.call = some call)
    (hBytes : rewriteFile lib other call file = some (encode text)) :
    Sat (contract lib other) (save text reply) g (Reported (some call)) := by
  refine ⟨⟨version, file, hPhase⟩, ?_⟩
  rintro (_ | _) g₁ ⟨hCall₁, hOpened⟩
  · exact reported_of_refusal rfl
  obtain ⟨version₁, hPhase₁⟩ := hOpened rfl
  rw [hPhase] at hPhase₁
  refine ⟨⟨version₁, file, call, hPhase₁, hCall₁.trans hCall, hBytes⟩, ?_⟩
  rintro (_ | _) g₂ ⟨hCall₂, hWrote⟩
  · exact reported_of_refusal rfl
  refine ⟨trivial, ?_⟩
  intro r g₃ hSame _
  rw [hSame]
  exact ⟨hWrote rfl, hCall₂.trans (hCall₁.trans hCall)⟩

/-- From the directory found on, an update reports truthfully. -/
theorem update_sat {f : List Char → Option (List Char)} {refusal : Reply}
    (hPhase : g.phase = .found) (hCall : g.call = some call) (hRefusal : refusal.succeeded = false)
    (hf : ∀ text, call.rewrite lib other (some text) = f text) :
    Sat (contract lib other) (update f reply refusal) g (Reported (some call)) := by
  refine ⟨hPhase, ?_⟩
  rintro bytes g₁ ⟨hCall₁, hSeen⟩
  cases hText : bytes.bind decode with
  | none =>
    simp only [hText]
    exact reported_of_refusal rfl
  | some text =>
    simp only [hText]
    cases hAfter : f text with
    | none => exact reported_of_refusal hRefusal
    | some after =>
      obtain ⟨content, hBytes, hDecode⟩ := Option.bind_eq_some_iff.mp hText
      obtain ⟨version, hPhase₁⟩ := hSeen content hBytes
      refine save_sat hPhase₁ (hCall₁.trans hCall) ?_
      rw [rewriteFile, hDecode, Option.bind_some, hf, hAfter]
      rfl

variable {rule : AddressRule}

theorem createFile_sat (hPhase : g.phase = .before) (hCall : g.call = some (.create rule)) :
    Sat (contract lib other) (createFile lib other rule) g (Reported (some (.create rule))) := by
  refine ⟨hPhase, ?_⟩
  rintro (_ | _) g₁ ⟨hCall₁, hNext⟩
  · obtain ⟨version, hSeen⟩ := hNext
    exact save_sat hSeen (hCall₁.trans hCall) rfl
  · exact update_sat hNext (hCall₁.trans hCall) rfl fun _ => rfl

theorem create_sat (hPhase : g.phase = .before) (hCall : g.call = some (.create rule)) :
    Sat (contract lib other) (AddressApi.create lib other rule) g
      (Reported (some (.create rule))) := by
  refine ⟨trivial, ?_⟩
  rintro (_ | _) _ rfl
  · exact reported_of_refusal rfl
  refine ⟨trivial, ?_⟩
  rintro (_ | _) _ rfl
  · refine ⟨trivial, ?_⟩
    rintro (_ | _) _ rfl
    · exact reported_of_refusal rfl
    · exact createFile_sat hPhase hCall
  · exact createFile_sat hPhase hCall

theorem delete_sat {target : Domain} (hPhase : g.phase = .before)
    (hCall : g.call = some (.delete target)) :
    Sat (contract lib other) (AddressApi.delete lib other target) g
      (Reported (some (.delete target))) := by
  refine ⟨trivial, ?_⟩
  rintro (_ | _) _ rfl
  · exact reported_of_refusal rfl
  refine ⟨trivial, ?_⟩
  rintro (_ | _) _ rfl
  · exact reported_of_refusal rfl
  refine ⟨hPhase, ?_⟩
  rintro (_ | _) g₁ ⟨hCall₁, hNext⟩
  · exact reported_of_refusal rfl
  · exact update_sat hNext (hCall₁.trans hCall) rfl fun _ => rfl

/-- Every handler reports what its call did. -/
theorem start_sat (request : Request) :
    Sat (contract lib other) (start lib other request) ⟨request.call lib, .before⟩
      (Reported (request.call lib)) := by
  unfold start
  cases hCall : request.call lib with
  | none => exact reported_of_refusal rfl
  | some call =>
    cases call with
    | create rule => exact create_sat rfl rfl
    | delete target => exact delete_sat rfl rfl

/-! ## The file and the calls that have written it -/

/-- The calls that have written the file, in the order of the pool. -/
def writers (gs : List Progress) : List (Option Call) :=
  (gs.filter fun g => g.phase = .wrote).map Progress.call

/-- The call has emptied the file and not yet written it. -/
def Progress.holding (g : Progress) : Bool :=
  match g.phase with
  | .opened _ _ => true
  | _ => false

/-- The call will not succeed: its write has failed, or somebody has changed the file since it
emptied it. -/
def Progress.lost (g : Progress) (w : World) : Prop :=
  g.phase = .torn ∨ ∃ version file, g.phase = .opened version file ∧ version < w.version

/-- The file is what the calls that have written make of it, or one call has just emptied it. -/
inductive Consistent (lib : TextLib) (other : ConfigItem → List Char)
    (init : Option (List UInt8)) (w : World) (gs : List Progress) : Prop where
  | settled (hNone : gs.filter Progress.holding = [])
      (hSerial : serial lib other init w.written = some w.disk.file)
      (hSeen : ∀ g ∈ gs, ∀ file, g.phase = .seen w.version file → file = w.disk.file)
  | emptied {g : Progress} {file : Option (List UInt8)} (hOne : gs.filter Progress.holding = [g])
      (hPhase : g.phase = .opened w.version file) (hFile : w.disk.file = some [])
      (hSerial : serial lib other init w.written = some file)

/-- The invariant of a run that has started with the file `init`. -/
structure Serial (lib : TextLib) (other : ConfigItem → List Char) (init : Option (List UInt8))
    (w : World) (gs : List Progress) : Prop where
  stamps : ∀ g ∈ gs, ∀ version file,
    g.phase = .seen version file ∨ g.phase = .opened version file → version ≤ w.version
  log : (w.written.map some).Perm (writers gs)
  state : (∃ g ∈ gs, g.lost w) ∨ Consistent lib other init w gs

theorem serial_append (call : Call) (calls : List Call) : ∀ init,
    serial lib other init (calls ++ [call]) = (serial lib other init calls).bind fun file =>
      (rewriteFile lib other call file).map some := by
  induction calls with
  | nil =>
    intro init
    show (rewriteFile lib other call init).bind _ = (rewriteFile lib other call init).map some
    cases rewriteFile lib other call init <;> rfl
  | cons first calls ih =>
    intro init
    rw [cons_append]
    simp only [serial, ih, Option.bind_assoc]

theorem writers_of_wrote (gs : List Progress) (h : g.phase = .wrote) :
    writers (g :: gs) = g.call :: writers gs := by
  simp [writers, h]

theorem writers_of_ne (gs : List Progress) (h : g.phase ≠ .wrote) :
    writers (g :: gs) = writers gs := by
  simp [writers, h]

variable {gs : List Progress}

theorem writers_perm {gs' : List Progress} (h : gs.Perm gs') : (writers gs).Perm (writers gs') :=
  (h.filter _).map _

theorem filter_of_holding (gs : List Progress) (h : g.holding = true) :
    (g :: gs).filter Progress.holding = g :: gs.filter Progress.holding :=
  filter_cons_of_pos h

theorem filter_of_not_holding (gs : List Progress) (h : g.holding = false) :
    (g :: gs).filter Progress.holding = gs.filter Progress.holding :=
  filter_cons_of_neg (by rw [h]; exact Bool.false_ne_true)

theorem holding_of_phase {phase : Phase} (h : g.phase = phase) :
    g.holding = Progress.holding ⟨none, phase⟩ := by
  rw [Progress.holding, h]
  rfl

theorem Serial.perm {init : Option (List UInt8)} {gs' : List Progress} (hPerm : gs.Perm gs')
    (h : Serial lib other init w gs) : Serial lib other init w gs' where
  stamps g hg := h.stamps g (hPerm.mem_iff.mpr hg)
  log := h.log.trans (writers_perm hPerm)
  state := by
    have hHolding := hPerm.filter Progress.holding
    rcases h.state with ⟨g, hg, hLost⟩ | hState
    · exact .inl ⟨g, hPerm.mem_iff.mp hg, hLost⟩
    right
    cases hState with
    | settled hNone hSerial hSeen =>
      rw [hNone] at hHolding
      exact .settled hHolding.nil_eq.symm hSerial fun g hg => hSeen g (hPerm.mem_iff.mpr hg)
    | emptied hOne hPhase hFile hSerial =>
      rw [hOne] at hHolding
      exact .emptied (singleton_perm.mp hHolding).symm hPhase hFile hSerial

section Steps

variable {init : Option (List UInt8)} {w w' : World} {g g' : Progress} {rest : List Progress}

theorem Effect.version_le (h : Effect lib other w g w' g') : w.version ≤ w'.version := by
  cases h with
  | idle hVersion => omega
  | look hWorld => rw [hWorld]
  | empty | write | tear => omega

theorem Progress.lost.later (h : g.lost w) (hLe : w.version ≤ w'.version) : g.lost w' := by
  rcases h with hTorn | ⟨version, file, hPhase, hLt⟩
  · exact .inl hTorn
  · exact .inr ⟨version, file, hPhase, by omega⟩

/-- A call that is lost stays so. -/
theorem Progress.lost.step (h : g.lost w) (hEffect : Effect lib other w g w' g') : g'.lost w' := by
  have hNot : ∀ file, g.phase ≠ .opened w.version file := by
    intro file hPhase
    rcases h with hTorn | ⟨version, file', hPhase', hLt⟩
    · rw [hPhase] at hTorn
      cases hTorn
    · rw [hPhase] at hPhase'
      cases hPhase'
      omega
  cases hEffect with
  | idle hVersion _ _ hSame =>
    rw [hSame]
    exact h.later hVersion.ge
  | look _ hEarly =>
    rcases h with hTorn | ⟨version, file, hPhase, -⟩ <;> simp_all
  | empty hPhase =>
    rcases h with hTorn | ⟨version, file, hPhase', -⟩ <;> simp_all
  | write hPhase => exact absurd hPhase (hNot _)
  | tear hPhase => exact absurd hPhase (hNot _)

/-- No handler has seen a version later than the file's. -/
theorem stamps_step (h : ∀ u ∈ g :: rest, ∀ version file,
      u.phase = .seen version file ∨ u.phase = .opened version file → version ≤ w.version)
    (hEffect : Effect lib other w g w' g') : ∀ u ∈ g' :: rest, ∀ version file,
      u.phase = .seen version file ∨ u.phase = .opened version file → version ≤ w'.version := by
  intro u hu version file hPhase
  rcases mem_cons.mp hu with rfl | hOld
  · cases hEffect with
    | idle hVersion _ _ hSame =>
      rw [hVersion]
      exact h _ mem_cons_self version file (hSame ▸ hPhase)
    | look hWorld _ hNext => rcases hNext with hNext | hNext <;> simp_all
    | empty | write | tear => simp_all
  · exact (h u (.tail _ hOld) version file hPhase).trans hEffect.version_le

/-- The log holds the calls of the handlers that wrote, each once. -/
theorem log_step (h : (w.written.map some).Perm (writers (g :: rest)))
    (hEffect : Effect lib other w g w' g') :
    (w'.written.map some).Perm (writers (g' :: rest)) := by
  cases hEffect with
  | idle _ hWritten _ hSame =>
    rw [hWritten, hSame]
    exact h
  | look hWorld hEarly hNext =>
    rw [writers_of_ne rest (by rcases hEarly with hg | hg <;> simp [hg])] at h
    rw [hWorld, writers_of_ne rest (by rcases hNext with hg | hg <;> simp [hg])]
    exact h
  | empty hPhase _ hWritten _ hNext =>
    rw [writers_of_ne rest (by simp [hPhase])] at h
    rw [hWritten, writers_of_ne rest (by simp [hNext])]
    exact h
  | write hPhase hCall _ _ hWritten _ hNext =>
    rw [writers_of_ne rest (by simp [hPhase])] at h
    rw [hWritten, writers_of_wrote rest hNext, hCall, map_append]
    exact (perm_append_singleton _ _).trans (h.cons _)
  | tear hPhase _ hWritten hNext =>
    rw [writers_of_ne rest (by simp [hPhase])] at h
    rw [hWritten, writers_of_ne rest (by simp [hNext])]
    exact h

/-- From a file that is what the calls make of it. -/
theorem settled_step (hNone : (g :: rest).filter Progress.holding = [])
    (hSerial : serial lib other init w.written = some w.disk.file)
    (hSeen : ∀ u ∈ g :: rest, ∀ file, u.phase = .seen w.version file → file = w.disk.file)
    (hEffect : Effect lib other w g w' g') : Consistent lib other init w' (g' :: rest) := by
  have hNot : g.holding = false := by
    have hMem := filter_eq_nil_iff.mp hNone g mem_cons_self
    exact Bool.eq_false_iff.mpr hMem
  have hRest : rest.filter Progress.holding = [] := by
    rw [← filter_of_not_holding rest hNot]
    exact hNone
  cases hEffect with
  | idle hVersion hWritten hFile hSame =>
    subst hSame
    refine .settled hNone ?_ ?_
    · rw [hWritten, hFile]
      exact hSerial
    · rw [hVersion, hFile]
      exact hSeen
  | look hWorld _ hNext =>
    subst hWorld
    refine .settled ?_ hSerial ?_
    · have hNot' : g'.holding = false := by
        rcases hNext with hNext | hNext <;> rw [holding_of_phase hNext] <;> rfl
      rw [filter_of_not_holding rest hNot']
      exact hRest
    · intro u hu file hPhase
      rcases mem_cons.mp hu with rfl | hOld
      · rcases hNext with hNext | hNext <;> simp_all
      · exact hSeen u (.tail _ hOld) file hPhase
  | empty hPhase hVersion hWritten hFile hNext =>
    have hOld := hSeen g mem_cons_self _ hPhase
    refine .emptied (g := g') ?_ (by rw [hVersion]; exact hNext) hFile ?_
    · rw [filter_of_holding rest (holding_of_phase hNext), hRest]
    · rw [hWritten, hOld]
      exact hSerial
  | write hPhase => exact absurd (holding_of_phase hPhase) (by rw [hNot]; exact Bool.false_ne_true)
  | tear hPhase => exact absurd (holding_of_phase hPhase) (by rw [hNot]; exact Bool.false_ne_true)

/-- From a file that a call has just emptied. -/
theorem emptied_step {u : Progress} {file : Option (List UInt8)}
    (hStamps : ∀ u ∈ g :: rest, ∀ version file,
      u.phase = .seen version file ∨ u.phase = .opened version file → version ≤ w.version)
    (hOne : (g :: rest).filter Progress.holding = [u]) (hOpened : u.phase = .opened w.version file)
    (hFile : w.disk.file = some []) (hSerial : serial lib other init w.written = some file)
    (hEffect : Effect lib other w g w' g') :
    (∃ u ∈ g' :: rest, u.lost w') ∨ Consistent lib other init w' (g' :: rest) := by
  cases hEffect with
  | idle hVersion hWritten hFile' hSame =>
    subst hSame
    refine .inr (.emptied hOne (by rw [hVersion]; exact hOpened) (hFile'.trans hFile) ?_)
    rw [hWritten]
    exact hSerial
  | look hWorld hEarly hNext =>
    subst hWorld
    have hNot : g.holding = false := by
      rcases hEarly with hEarly | hEarly <;> rw [holding_of_phase hEarly] <;> rfl
    have hNot' : g'.holding = false := by
      rcases hNext with hNext | hNext <;> rw [holding_of_phase hNext] <;> rfl
    refine .inr (.emptied ?_ hOpened hFile hSerial)
    rw [filter_of_not_holding rest hNot', ← filter_of_not_holding rest hNot]
    exact hOne
  | empty hPhase hVersion =>
    -- The other call has emptied the file as well, and will not write it any more.
    rw [filter_of_not_holding rest (holding_of_phase hPhase)] at hOne
    have hMem : u ∈ rest := mem_of_mem_filter (hOne ▸ mem_singleton_self u)
    exact .inl ⟨u, .tail _ hMem, .inr ⟨_, file, hOpened, by omega⟩⟩
  | write hPhase hCall hBytes hVersion hWritten hFile' hNext =>
    rw [filter_of_holding rest (holding_of_phase hPhase)] at hOne
    obtain ⟨hSelf, hRest⟩ := cons.inj hOne
    have hSame := hPhase.symm.trans (hSelf ▸ hOpened)
    cases hSame
    refine .inr (.settled ?_ ?_ ?_)
    · rw [filter_of_not_holding rest (holding_of_phase hNext)]
      exact hRest
    · rw [hWritten, serial_append, hSerial, Option.bind_some, hBytes, hFile', hFile]
      simp [overwrite]
    · intro v hv file' hPhase'
      rcases mem_cons.mp hv with rfl | hOld
      · rw [hNext] at hPhase'
        cases hPhase'
      · have hStamp := hStamps v (.tail _ hOld) _ _ (.inl hPhase')
        omega
  | tear hPhase hVersion _ hNext => exact .inl ⟨g', .head _, .inl hNext⟩

/-- One effect keeps the serial account of the file. -/
theorem Serial.step (h : Serial lib other init w (g :: rest))
    (hEffect : Effect lib other w g w' g') : Serial lib other init w' (g' :: rest) where
  stamps := stamps_step h.stamps hEffect
  log := log_step h.log hEffect
  state := by
    rcases h.state with ⟨u, hu, hLost⟩ | hState
    · left
      rcases mem_cons.mp hu with rfl | hOld
      · exact ⟨g', .head _, hLost.step hEffect⟩
      · exact ⟨u, .tail _ hOld, hLost.later hEffect.version_le⟩
    · cases hState with
      | settled hNone hSerial hSeen => exact .inr (settled_step hNone hSerial hSeen hEffect)
      | emptied hOne hPhase hFile hSerial =>
        exact emptied_step h.stamps hOne hPhase hFile hSerial hEffect

/-- A new call has seen nothing. -/
theorem Serial.spawn (h : Serial lib other init w rest) (call : Option Call) :
    Serial lib other init w (⟨call, .before⟩ :: rest) where
  stamps := by
    intro u hu version file hPhase
    rcases mem_cons.mp hu with rfl | hOld
    · simp at hPhase
    · exact h.stamps u hOld version file hPhase
  log := by
    exact h.log
  state := by
    rcases h.state with ⟨u, hu, hLost⟩ | hState
    · exact .inl ⟨u, .tail _ hu, hLost⟩
    right
    have hSame := filter_of_not_holding (g := ⟨call, .before⟩) rest rfl
    cases hState with
    | settled hNone hSerial hSeen =>
      refine .settled (hSame.trans hNone) hSerial ?_
      intro u hu file hPhase
      rcases mem_cons.mp hu with rfl | hOld
      · cases hPhase
      · exact hSeen u hOld file hPhase
    | emptied hOne hPhase hFile hSerial =>
      exact .emptied (hSame.trans hOne) hPhase hFile hSerial

end Steps

/-- Every run whose handlers find the file as they read it is serial. -/
theorem serial_run {disk : Disk} {es : List (PoolEvent Request Answer)}
    {p : Pool FileOp FileOp.Resp World Progress Request Reply}
    (hFresh : StepsMeet (system lib other).step
      (System.Meets (fun _ => True) fun w g o _ => fresh w g o = true) ⟨⟨disk, 0, []⟩, []⟩ es)
    (hRun : runTrace (system lib other).step ⟨⟨disk, 0, []⟩, []⟩ es = some p) :
    System.PoolInv (contract lib other) (Serial lib other disk.file)
      (fun request => Reported (request.call lib)) p := by
  refine System.symmetric_invariant (fun _ _ _ hPerm h => h.perm hPerm) ?_ ?_ ?_ hFresh hRun
  · intro p request h _
    exact ⟨start_sat request, h.spawn _⟩
  · intro p tid a t o k r w' g' rest _ h hThread hProg hPre hOk hExec
    obtain ⟨hPost, hEffect⟩ := effect_of_exec hExec hPre (hOk t o k hThread hProg)
    exact ⟨hPost, h.step hEffect⟩
  · exact ⟨nofun, .refl _, .inr (.settled rfl rfl fun _ hg =>
      absurd hg not_mem_nil)⟩

/-- When every call has succeeded, all have written, and nobody holds the file. -/
theorem serial_of_done {init : Option (List UInt8)} (h : Serial lib other init w gs)
    (hDone : ∀ g ∈ gs, g.phase = .wrote) :
    (w.written.map some).Perm (gs.map Progress.call) ∧
      serial lib other init w.written = some w.disk.file := by
  have hAll : gs.filter (fun g => g.phase = .wrote) = gs := by
    refine filter_eq_self.mpr ?_
    intro g hg
    exact decide_eq_true (hDone g hg)
  have hLog := h.log
  rw [writers, hAll] at hLog
  refine ⟨hLog, ?_⟩
  rcases h.state with ⟨g, hg, hLost⟩ | hState
  · rcases hLost with hTorn | ⟨version, file, hPhase, -⟩
    · cases hTorn.symm.trans (hDone g hg)
    · cases hPhase.symm.trans (hDone g hg)
  · cases hState with
    | settled _ hSerial => exact hSerial
    | emptied hOne hPhase =>
      have hMem := mem_of_mem_filter (hOne ▸ mem_singleton_self _)
      cases hPhase.symm.trans (hDone _ hMem)

/-! ## What the calls have made of the file -/

/-- Every call along the order finds a text that it rewrites faithfully. -/
def FaithfulOrder (lib : TextLib) (other : ConfigItem → List Char) :
    Option (List UInt8) → List Call → Prop
  | _, [] => True
  | file, call :: calls => Faithful lib call ((file.bind decode).getD []) ∧
      ∀ bytes, rewriteFile lib other call file = some bytes →
        FaithfulOrder lib other (some bytes) calls

/-- A call rewrites the entries of the file as it does a list of entries. -/
theorem rewriteFile_entries {file : Option (List UInt8)} {bytes : List UInt8}
    (h : rewriteFile lib other call file = some bytes)
    (hValid : ∀ rule, call = .create rule → Valid rule.config)
    (hFaithful : Faithful lib call ((file.bind decode).getD [])) :
    lineEntries lib ((decode bytes).getD []) =
      call.apply (lineEntries lib ((file.bind decode).getD [])) := by
  cases file with
  | none =>
    obtain ⟨after, hRewrite, hBytes⟩ := Option.map_eq_some_iff.mp h
    rw [← hBytes, decode_encode]
    exact rewrite_entries hRewrite hValid hFaithful
  | some before =>
    obtain ⟨text, hText, hRest⟩ := Option.bind_eq_some_iff.mp h
    obtain ⟨after, hRewrite, hBytes⟩ := Option.map_eq_some_iff.mp hRest
    rw [Option.bind_some, hText] at hFaithful ⊢
    rw [← hBytes, decode_encode]
    exact rewrite_entries hRewrite hValid hFaithful

variable {order : List Call}

/-- Calls in order rewrite the entries of the file in that order. -/
theorem serial_entries : ∀ {init file : Option (List UInt8)},
    serial lib other init order = some file → FaithfulOrder lib other init order →
    (∀ rule, .create rule ∈ order → Valid rule.config) →
    lineEntries lib ((file.bind decode).getD []) =
      order.foldl (fun entries call => call.apply entries)
        (lineEntries lib ((init.bind decode).getD [])) := by
  induction order with
  | nil =>
    intro init file h _ _
    cases h
    rfl
  | cons call calls ih =>
    intro init file h hFaithful hValid
    obtain ⟨bytes, hBytes, hRest⟩ := Option.bind_eq_some_iff.mp h
    have hFirst := rewriteFile_entries hBytes
      (fun rule hRule => hValid rule (hRule ▸ mem_cons_self)) hFaithful.1
    have hLater := ih hRest (hFaithful.2 bytes hBytes)
      fun rule hRule => hValid rule (mem_cons_of_mem call hRule)
    rw [hLater, Option.bind_some, hFirst]
    rfl

/-- An entry that no call deletes stays. -/
theorem mem_foldl_apply {e : Entry}
    (hKept : ∀ target, .delete target ∈ order → e.isRuleOf target = false) :
    ∀ {entries : List Entry}, e ∈ entries →
      e ∈ order.foldl (fun entries call => call.apply entries) entries := by
  induction order with
  | nil =>
    intro entries h
    exact h
  | cons call calls ih =>
    intro entries h
    refine ih (fun target hMem => hKept target (mem_cons_of_mem call hMem)) ?_
    cases call with
    | create rule => exact mem_append_left _ h
    | delete target =>
      refine mem_filter.mpr ⟨h, ?_⟩
      rw [hKept target mem_cons_self]
      rfl

/-- A created rule stays in the entries when no later call deletes it. -/
theorem mem_foldl_of_create
    (hKept : ∀ target, .delete target ∈ order → (rule.domain == target) = false) :
    ∀ {entries : List Entry}, .create rule ∈ order →
      .rule rule none ∈ order.foldl (fun entries call => call.apply entries) entries := by
  induction order with
  | nil =>
    intro entries h
    cases h
  | cons call calls ih =>
    intro entries h
    have hLater : ∀ target, .delete target ∈ calls → (rule.domain == target) = false :=
      fun target hMem => hKept target (mem_cons_of_mem call hMem)
    rcases mem_cons.mp h with rfl | hMem
    · rw [foldl_cons]
      exact mem_foldl_apply hLater (mem_append_right _ (mem_singleton_self _))
    · exact ih hLater hMem

/-- **Calls that do not write over one another's back are applied one after the other**: if every
call of a run succeeds, the file is what they make of it in the order of their writes. If none of
them meets a text that it does not rewrite faithfully, every rule created is there in the end
unless its domain has been deleted. -/
theorem calls_serialise (lib : TextLib) (other : ConfigItem → List Char) (disk : Disk)
    (es : List (PoolEvent Request Answer))
    (p : Pool FileOp FileOp.Resp World Progress Request Reply)
    (hFresh : StepsMeet (system lib other).step
      (System.Meets (fun _ => True) fun w g o _ => fresh w g o = true) ⟨⟨disk, 0, []⟩, []⟩ es)
    (hRun : runTrace (system lib other).step ⟨⟨disk, 0, []⟩, []⟩ es = some p)
    (hDone : ∀ t ∈ p.threads, ∃ reply, t.prog = .done reply ∧ reply.succeeded = true) :
    ∃ order : List Call,
      (order.map some).Perm (p.threads.map fun t => t.info.call lib) ∧
      serial lib other disk.file order = some p.world.disk.file ∧
      (FaithfulOrder lib other disk.file order → ∀ rule, .create rule ∈ order →
        (∀ target, .delete target ∈ order → (rule.domain == target) = false) →
        .rule rule none ∈ lineEntries lib (p.world.disk.text.getD [])) := by
  have hInv := serial_run hFresh hRun
  have hReported : ∀ t ∈ p.threads, t.ghost.phase = .wrote ∧ t.ghost.call = t.info.call lib := by
    intro t ht
    obtain ⟨reply, hProg, hOk⟩ := hDone t ht
    exact hInv.post_of_done ht hProg hOk
  have hWrote : ∀ g ∈ System.ghosts p, g.phase = .wrote := by
    intro g hg
    obtain ⟨t, ht, rfl⟩ := mem_map.mp hg
    exact (hReported t ht).1
  obtain ⟨hPerm, hSerial⟩ := serial_of_done hInv.shared hWrote
  have hCalls : (System.ghosts p).map Progress.call = p.threads.map fun t => t.info.call lib := by
    rw [System.ghosts, map_map]
    exact map_congr_left fun t ht => (hReported t ht).2
  rw [hCalls] at hPerm
  refine ⟨p.world.written, hPerm, hSerial, ?_⟩
  intro hFaithful rule hCreated hKept
  have hValid : ∀ rule, .create rule ∈ p.world.written → Valid rule.config := by
    intro rule hMem
    obtain ⟨t, -, hCall⟩ := mem_map.mp (hPerm.mem_iff.mp (mem_map_of_mem hMem))
    exact valid_of_call hCall rule rfl
  rw [Disk.text, serial_entries hSerial hFaithful hValid]
  exact mem_foldl_of_create hKept hCreated

/-! ## Two calls -/

/-- The check of a condition on operations along a concrete run. -/
def freshCheck (p : Pool FileOp FileOp.Resp World Progress Request Reply) :
    PoolEvent Request Answer → Bool
  | .spawn _ => true
  | .step tid _ =>
    (p.threads[tid]?).all fun t =>
      match t.prog with
      | .done _ => true
      | .call o _ => fresh p.world t.ghost o

theorem meets_of_freshCheck (p : Pool FileOp FileOp.Resp World Progress Request Reply)
    (e : PoolEvent Request Answer) (h : freshCheck p e = true) :
    System.Meets (fun _ => True) (fun w g o _ => fresh w g o = true) p e := by
  cases e with
  | spawn request => trivial
  | step tid a =>
    intro t o k hThread hProg
    simpa only [freshCheck, hThread, Option.all_some, hProg] using h

/-- The call has finished, and well. -/
def succeeds : Handler → Bool
  | .done reply => reply.succeeded
  | .call _ _ => false

theorem done_of_succeeds {prog : Handler} (h : succeeds prog = true) :
    ∃ reply, prog = .done reply ∧ reply.succeeded = true := by
  cases prog with
  | done reply => exact ⟨reply, rfl, h⟩
  | call o k => cases h

def firstRequest : Request := .create "-.a.b".toList "#".toList

def secondRequest : Request := .create "-.c.d".toList "#4".toList

def stepsOf (tid n : Nat) : List (PoolEvent Request Answer) := List.replicate n (.step tid .ok)

def twoRequests : List (PoolEvent Request Answer) := [.spawn firstRequest, .spawn secondRequest]

/-- The second call looks for the file when the first has written it. -/
def apartRun : List (PoolEvent Request Answer) :=
  twoRequests ++ stepsOf 0 5 ++ stepsOf 1 7 ++ stepsOf 0 1

/-- Both calls look for the file before one of them writes it. -/
def raceRun : List (PoolEvent Request Answer) :=
  twoRequests ++ stepsOf 0 3 ++ stepsOf 1 3 ++ stepsOf 0 3 ++ stepsOf 1 3

theorem calls_serialise_apartRun :
    ∃ p, runTrace (system asciiLib fun _ => []).step ⟨⟨⟨true, none⟩, 0, []⟩, []⟩ apartRun = some p ∧
      ∃ order : List Call,
        (order.map some).Perm (p.threads.map fun t => t.info.call asciiLib) ∧
        serial asciiLib (fun _ => []) none order = some p.world.disk.file := by
  have hRun : ∃ p, runTrace (system asciiLib fun _ => []).step
    ⟨⟨⟨true, none⟩, 0, []⟩, []⟩ apartRun =
      some p ∧ (p.threads.all fun t => succeeds t.prog) = true :=
    (Option.any_eq_true _ _).mp (by decide +kernel)
  obtain ⟨p, hRun, hEnd⟩ := hRun
  have hFresh := stepsMeet_of_meets (system asciiLib fun _ => []).step meets_of_freshCheck apartRun
    (s := ⟨⟨⟨true, none⟩, 0, []⟩, []⟩) (by decide +kernel)
  have hDone : ∀ t ∈ p.threads, ∃ reply, t.prog = .done reply ∧ reply.succeeded = true := by
    intro t ht
    exact done_of_succeeds (all_eq_true.mp hEnd t ht)
  obtain ⟨order, hPerm, hSerial, -⟩ :=
    calls_serialise asciiLib (fun _ => []) ⟨true, none⟩ apartRun p hFresh hRun hDone
  exact ⟨p, hRun, order, hPerm, hSerial⟩

def firstCall : Call := .create (ruleFor 'a' 'b' .SOA)

def secondCall : Call := .create (ruleFor 'c' 'd' .SOAv4)

def secondText : List Char := "address /-.c.d/#4".toList

def raceEnd : Pool FileOp FileOp.Resp World Progress Request Reply :=
  ⟨⟨⟨true, some (encode secondText)⟩, 4, [firstCall, secondCall]⟩,
    [⟨firstRequest, ⟨some firstCall, .wrote⟩, .done .Created⟩,
      ⟨secondRequest, ⟨some secondCall, .wrote⟩, .done .Created⟩]⟩

theorem encode_injective : Function.Injective encode := by
  intro s t h
  have hDecode := congrArg decode h
  rw [decode_encode, decode_encode] at hDecode
  exact Option.some.inj hDecode

/-- Two calls succeed, one of the rules is missing, and no order of the calls explains it. -/
theorem race_loses_rule :
    runTrace (system asciiLib fun _ => []).step ⟨⟨⟨true, none⟩, 0, []⟩, []⟩ raceRun = some raceEnd ∧
      (∀ t ∈ raceEnd.threads, ∃ reply, t.prog = .done reply ∧ reply.succeeded = true) ∧
      (raceEnd.threads.map fun t => t.info.call asciiLib) = [some firstCall, some secondCall] ∧
      lineEntries asciiLib (raceEnd.world.disk.text.getD []) =
        [.rule (ruleFor 'c' 'd' .SOAv4) none] ∧
      ∀ order : List Call, (order.map some).Perm [some firstCall, some secondCall] →
        serial asciiLib (fun _ => []) none order ≠ some raceEnd.world.disk.file := by
  refine ⟨rfl, ?_, rfl, ?_, ?_⟩
  · have hAll : (raceEnd.threads.all fun t => succeeds t.prog) = true := rfl
    intro t ht
    exact done_of_succeeds (all_eq_true.mp hAll t ht)
  · rfl
  · intro order hPerm
    -- either order leaves two lines
    have hBoth : ∀ after : List Char, after.length ≠ secondText.length →
        some (some (encode after)) ≠ some raceEnd.world.disk.file := by
      intro after hLength hEq
      have hText := encode_injective (Option.some.inj (Option.some.inj hEq))
      exact hLength (congrArg length hText)
    rcases perm_pair.mp hPerm with hOrder | hOrder
    · obtain rfl : order = [firstCall, secondCall] :=
        map_injective_iff.mpr (Option.some_injective Call) hOrder
      exact hBoth _ (by decide)
    · obtain rfl : order = [secondCall, firstCall] :=
        map_injective_iff.mpr (Option.some_injective Call) hOrder
      exact hBoth _ (by decide)

end SmartDns.Ports.AddressRaces
