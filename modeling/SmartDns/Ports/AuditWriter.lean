import Mathlib.Data.List.Induction
import Mathlib.Logic.Function.Iterate

/-!
# The writer of the audit file

Records go through a bounded channel to a task that collects ten of them before it writes them.
A record that finds the channel full is dropped by its sender and is not accepted. When the
senders are gone, the task takes what is left in the channel and ends.

It ends without writing what it has collected since it last wrote, so the file lacks the last
records unless a multiple of ten was accepted.
-/

namespace SmartDns.Ports.AuditWriter

open List

variable {R : Type}

/-- The capacity of the channel. -/
def capacity : Nat := 100

def bufSize : Nat := 10

/-- The audit file: its format, whether the head line for a new file is set, and its records. -/
structure AuditFile (R : Type) where
  csv : Bool
  preamble : Bool
  records : List R

/-- `record_audit_to_file`, where every write succeeds. -/
def recordAuditToFile (file : AuditFile R) (records : List R) : AuditFile R :=
  records.foldl (fun file r => { file with records := file.records ++ [r] })
    { file with preamble := file.csv || file.preamble }

/-- The channel, the buffer of the task and the file; `accepted` is what the channel has taken. -/
structure Audit (R : Type) where
  queue : List R
  buf : List R
  file : AuditFile R
  accepted : List R

/-- The task starts with the file it has opened. -/
def Audit.new (csv : Bool) : Audit R := ⟨[], [], ⟨csv, false, []⟩, []⟩

/-- `try_send`. -/
def Audit.send (s : Audit R) (r : R) : Audit R :=
  if s.queue.length < capacity then
    { s with queue := s.queue ++ [r], accepted := s.accepted ++ [r] }
  else s

/-- One turn of the task's loop; with an empty channel it waits. -/
def Audit.recv (s : Audit R) : Audit R :=
  match s.queue with
  | [] => s
  | r :: queue =>
    let buf := s.buf ++ [r]
    if buf.length = bufSize then
      { s with queue, buf := [], file := recordAuditToFile s.file buf }
    else { s with queue, buf }

inductive Event (R : Type) where
  | send (r : R)
  | recv

def Audit.step (s : Audit R) : Event R → Audit R
  | .send r => s.send r
  | .recv => s.recv

def run (csv : Bool) (events : List (Event R)) : Audit R := events.foldl Audit.step (.new csv)

/-- The channel is closed: the task takes what is left in it and ends. -/
def Audit.close (s : Audit R) : Audit R := Audit.recv^[s.queue.length] s

/-- Every accepted record is in the file, in the buffer or in the channel, and the file has been
written ten records at a time. -/
structure Audit.Inv (s : Audit R) : Prop where
  kept : s.file.records ++ s.buf ++ s.queue = s.accepted
  room : s.buf.length < bufSize
  tens : bufSize ∣ s.file.records.length

theorem records_recordAuditToFile (file : AuditFile R) (records : List R) :
    (recordAuditToFile file records).records = file.records ++ records := by
  unfold recordAuditToFile
  induction records using reverseRecOn with
  | nil => exact (append_nil _).symm
  | append_singleton records r ih => rw [foldl_append, foldl_cons, foldl_nil, ih, append_assoc]

variable {s : Audit R}

theorem Audit.Inv.recv (h : s.Inv) : s.recv.Inv ∧ s.recv.queue = s.queue.tail ∧
    s.recv.accepted = s.accepted := by
  unfold Audit.recv
  split
  · rename_i hQueue
    exact ⟨h, by rw [hQueue]; rfl, rfl⟩
  · rename_i r queue hQueue
    have hKept := h.kept
    rw [hQueue] at hKept ⊢
    dsimp only
    split
    · rename_i hFull
      refine ⟨⟨?_, Nat.zero_lt_succ 9, ?_⟩, rfl, rfl⟩
      · rw [records_recordAuditToFile, ← hKept]
        simp
      · rw [records_recordAuditToFile, length_append, hFull]
        exact Nat.dvd_add h.tens (Nat.dvd_refl _)
    · rename_i hRoom
      refine ⟨⟨by rw [← hKept]; simp, ?_, h.tens⟩, rfl, rfl⟩
      have hLess := h.room
      simp only [length_append, length_singleton] at hRoom ⊢
      omega

/-- Every event of the writer keeps its invariant. -/
theorem Audit.Inv.step (h : s.Inv) (e : Event R) : (s.step e).Inv := by
  cases e with
  | recv => exact h.recv.1
  | send r =>
    rw [Audit.step, Audit.send]
    split
    · exact ⟨by rw [← h.kept]; simp, h.room, h.tens⟩
    · exact h

/-- The invariant holds after every sequence of events. -/
theorem inv_run (csv : Bool) (events : List (Event R)) : (run csv events).Inv :=
  foldlRecOn events Audit.step ⟨rfl, Nat.zero_lt_succ 9, Nat.dvd_zero _⟩ fun _ h e _ => h.step e

/-- What is left in the channel is taken, one record after another. -/
theorem Audit.Inv.drain (n : Nat) : ∀ {s : Audit R}, s.Inv → s.queue.length = n →
    (Audit.recv^[n] s).Inv ∧ (Audit.recv^[n] s).queue = [] ∧
      (Audit.recv^[n] s).accepted = s.accepted := by
  induction n with
  | zero => exact fun h hLength => ⟨h, length_eq_zero_iff.mp hLength, rfl⟩
  | succ n ih =>
    intro s h hLength
    obtain ⟨hInv, hQueue, hAccepted⟩ := h.recv
    rw [← hAccepted]
    exact ih hInv (by rw [hQueue, length_tail, hLength, Nat.add_sub_cancel])

/--
**The file lacks the last records**: after any run of senders and task, the closed channel leaves
all accepted records in the file, in their order, if and only if their number is a multiple of ten.
-/
theorem audit_complete_iff (csv : Bool) (events : List (Event R)) :
    (run csv events).close.file.records = (run csv events).accepted ↔
      bufSize ∣ (run csv events).accepted.length := by
  obtain ⟨h, hQueue, hAccepted⟩ := (inv_run csv events).drain _ rfl
  have hKept := h.kept
  rw [hQueue, append_nil, hAccepted] at hKept
  change (Audit.close _).file.records ++ (Audit.close _).buf = _ at hKept
  constructor
  · intro hAll
    rw [← hAll]
    exact h.tens
  · intro hTens
    rw [← hKept, length_append] at hTens
    have hBuf : (Audit.close (run csv events)).buf = [] :=
      length_eq_zero_iff.mp
        (Nat.eq_zero_of_dvd_of_lt ((Nat.dvd_add_right h.tens).mp hTens) h.room)
    rw [← hKept, hBuf, append_nil]

/-- One record is accepted, the senders go, and the file stays empty. -/
theorem lone_record_lost :
    (run false [.send 1]).accepted = [1] ∧ (run false [.send 1]).close.file.records = [] := by
  decide

/-- Only the last records can be missing, and fewer than ten of them. -/
theorem audit_missing (csv : Bool) (events : List (Event R)) :
    ∃ missing : List R, missing.length < bufSize ∧
      (run csv events).close.file.records ++ missing = (run csv events).accepted := by
  obtain ⟨h, hQueue, hAccepted⟩ := (inv_run csv events).drain _ rfl
  refine ⟨_, h.room, ?_⟩
  rw [← hAccepted, ← h.kept, hQueue, append_nil]
  rfl

end SmartDns.Ports.AuditWriter
