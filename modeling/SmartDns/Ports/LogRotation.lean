import SmartDns.Ports.ConfigLoader
import Mathlib.Data.Bool.AllAny
import Mathlib.Data.List.Sort
import Mathlib.Data.List.TakeWhile

/-!
# Rotating a log

A log that is full is copied to a file named after it and the time, next to it.
Then the directory is listed, and of the files that look like the log or its
backups all but the first few are removed. A file looks like one of them if it
has the log's extension and its name starts with the log's stem.

The disk is the set of the files on it. What the file system may refuse is a
parameter, `Faults`: the copy, the listing, an entry of the listing, a removal.

The field `own` of a `World` is not in the source. It holds the backups that
rotations of this log made and that nobody else has written or deleted since.
-/

namespace SmartDns.Ports.LogRotation

open ConfigLoader Path List Option

/-! ## Names with an extension -/

/-- The stem of a file name: what is left without the extension and its dot. -/
def nameStem (name : Component) : Component :=
  match nameExtension name with
  | some ext => name.take (name.length - ext.length - 1)
  | none => name

def fileStem (p : Path) : Option Component := p.fileName.map nameStem

/-- `Path::with_extension`: no dot is written for an empty extension. -/
def withExtension (p : Path) (ext : Component) : Path :=
  match fileStem p with
  | some stem =>
    { p with
      components := p.components.dropLast ++ [if ext.isEmpty then stem else stem ++ 46 :: ext] }
  | none => p

/-- `OsStr::to_str`. -/
def toStr (name : Component) : Option Component :=
  if ByteArray.validateUTF8 ⟨⟨name⟩⟩ then some name else none

variable {name : Component}

variable {ext : Component}

variable {p dir : Path}

/-- The text of a time: digits and dashes. -/
structure Stamp where
  text : Component
  digits : ∀ b ∈ text, b = 45 ∨ (48 ≤ b ∧ b ≤ 57)

theorem Stamp.plain (stamp : Stamp) : 46 ∉ stamp.text := by
  intro hMem
  exact absurd (stamp.digits 46 hMem) (by decide)

/-- The files on a disk. -/
structure Disk where
  files : List Path
  nodup : files.Nodup

namespace Disk

/-- A file is written, new or over an old one. -/
def write (disk : Disk) (p : Path) : Disk := ⟨disk.files.insert p, disk.nodup.insert⟩

/-- A file is removed. -/
def remove (disk : Disk) (p : Path) : Disk := ⟨disk.files.erase p, disk.nodup.erase p⟩

/-- The entries of a directory. -/
def entries (disk : Disk) (dir : Path) : List Path :=
  disk.files.filter fun p => p.parent = some dir

variable {disk : Disk} {p : Path}

theorem mem_write {q : Path} : q ∈ (disk.write p).files ↔ q = p ∨ q ∈ disk.files :=
  mem_insert_iff

theorem mem_of_mem_remove {q : Path} (h : q ∈ (disk.remove p).files) : q ∈ disk.files :=
  mem_of_mem_erase h

/-- The entries of a directory are the files whose parent it is. -/
theorem mem_entries {dir : Path} : p ∈ disk.entries dir ↔ p ∈ disk.files ∧ p.parent = some dir := by
  simp [entries]

end Disk

/-- What the file system refuses during a rotation. -/
structure Faults where
  copy : Bool
  readDir : Bool
  entry : Path → Bool
  remove : Path → Bool

/-- Nothing is refused. -/
def Faults.none : Faults := ⟨false, false, fun _ => false, fun _ => false⟩

/-- `a` comes before `b`: the listing is sorted downwards. -/
def Above (a b : Path) : Prop := b.components ≤ a.components

instance : DecidableRel Above :=
  fun a b => inferInstanceAs (Decidable (b.components ≤ a.components))

instance : Std.Total Above := ⟨fun a b => List.le_total b.components a.components⟩

instance : IsTrans Path Above := ⟨fun _ _ _ hab hbc => List.le_trans hbc hab⟩

/-- A log file, with the number of files to keep. -/
structure MappedFile where
  num : Option Nat
  path : Path

/-- What a rotation did. -/
structure Rotation where
  copied : Option Path
  removed : List Path
  disk : Disk
  ok : Bool

/-- `fs::remove_file` on one file after the other, up to the first failure. -/
def removeEach (faults : Faults) : List Path → Disk → List Path × Disk × Bool
  | [], disk => ([], disk, true)
  | p :: rest, disk =>
    if faults.remove p then ([], disk, false)
    else
      let done := removeEach faults rest (disk.remove p)
      (p :: done.1, done.2)

variable {files : List Path}

/-- The files left are those before without those removed. -/
theorem removeEach_files {faults : Faults} {disk : Disk}
    (h : p ∈ (removeEach faults files disk).2.1.files) :
    p ∈ disk.files ∧ p ∉ (removeEach faults files disk).1 := by
  induction files generalizing disk with
  | nil => exact ⟨h, by simp [removeEach]⟩
  | cons q rest ih =>
    rw [removeEach] at h ⊢
    split at h
    · rename_i hFault
      rw [if_pos hFault]
      exact ⟨h, not_mem_nil⟩
    · rename_i hFault
      rw [if_neg hFault]
      have hLater := ih h
      refine ⟨Disk.mem_of_mem_remove hLater.1, ?_⟩
      intro hMem
      rcases mem_cons.mp hMem with hEq | hRest
      · subst hEq
        exact disk.nodup.not_mem_erase hLater.1
      · exact hLater.2 hRest

namespace MappedFile

/-- Does a directory entry look like the log or one of its backups? -/
def listed (log : MappedFile) (baseName : Component) (p : Path) : Bool :=
  decide (log.path.extension = p.extension) &&
    ((p.fileName.bind toStr).any fun s => baseName.isPrefixOf s)

/-- `MappedFile::mapped_files`; `none` is an error. -/
def mappedFiles (log : MappedFile) (faults : Faults) (disk : Disk) : Option (List Path) :=
  match (fileStem log.path).map toStr, log.path.parent with
  | some (some baseName), some parent =>
    if faults.readDir then none
    else some (((disk.entries parent).filter fun p =>
      !faults.entry p && log.listed baseName p).insertionSort Above)
  | _, _ => some []

/-- Where a rotation at a given time copies the log to. -/
def newPath (log : MappedFile) (stamp : Stamp) : Option Path :=
  match fileStem log.path, log.path.parent with
  | some baseName, some parent =>
    let path := parent.join (.ofName (baseName ++ 45 :: stamp.text))
    match log.path.extension with
    | some ext => some (withExtension path ext)
    | none => some path
  | _, _ => none

/-- The second half of `backup_files`: all files after the first `num` are removed. -/
def prune (log : MappedFile) (faults : Faults) (copied : Option Path) (disk : Disk) : Rotation :=
  match log.mappedFiles faults disk with
  | none => ⟨copied, [], disk, false⟩
  | some files =>
    match log.num with
    | some n =>
      if n ≤ files.length then
        let done := removeEach faults (files.drop n) disk
        ⟨copied, done.1, done.2.1, done.2.2⟩
      else ⟨copied, [], disk, true⟩
    | none => ⟨copied, [], disk, true⟩

/-- `MappedFile::backup_files`; a missing log cannot be copied. -/
def backupFiles (log : MappedFile) (stamp : Stamp) (faults : Faults) (disk : Disk) : Rotation :=
  match log.newPath stamp with
  | some path =>
    if faults.copy || log.path ∉ disk.files then ⟨none, [], disk, false⟩
    else log.prune faults (some path) (disk.write path)
  | none => log.prune faults none disk

/-- The disk with the copy of a rotation on it. -/
def withCopy (log : MappedFile) (stamp : Stamp) (disk : Disk) : Disk :=
  match log.newPath stamp with
  | some path => disk.write path
  | none => disk

/-- Is a file listed, if it can be read? -/
def lists (log : MappedFile) (p : Path) : Bool :=
  match (fileStem log.path).map toStr, log.path.parent with
  | some (some baseName), some parent =>
    decide (p.parent = some parent) && log.listed baseName p
  | _, _ => false

end MappedFile

/-! ## What a rotation does -/

section Rotating

variable {log : MappedFile} {stamp : Stamp} {faults : Faults} {disk : Disk} {copied : Option Path}
variable {p : Path}

theorem MappedFile.prune_copied : (log.prune faults copied disk).copied = copied := by
  rw [MappedFile.prune]
  split
  · rfl
  · split
    · split <;> rfl
    · rfl

theorem MappedFile.mem_prune_disk (hp : p ∈ (log.prune faults copied disk).disk.files) :
    p ∈ disk.files ∧ p ∉ (log.prune faults copied disk).removed := by
  rw [MappedFile.prune] at hp ⊢
  split at hp
  · exact ⟨hp, not_mem_nil⟩
  · split at hp
    · split at hp
      · rename_i hLen
        rw [if_pos hLen]
        exact removeEach_files hp
      · rename_i hLen
        rw [if_neg hLen]
        exact ⟨hp, not_mem_nil⟩
    · exact ⟨hp, not_mem_nil⟩

/-- A rotation gives up before the listing, or it prunes the disk with the copy on it. -/
theorem MappedFile.backupFiles_cases (log : MappedFile) (stamp : Stamp) (faults : Faults)
    (disk : Disk) :
    log.backupFiles stamp faults disk = ⟨none, [], disk, false⟩ ∨
    log.backupFiles stamp faults disk =
      log.prune faults (log.newPath stamp) (log.withCopy stamp disk) := by
  unfold MappedFile.backupFiles MappedFile.withCopy
  cases log.newPath stamp with
  | none => exact .inr rfl
  | some path =>
    dsimp only
    split
    · exact .inl rfl
    · exact .inr rfl

theorem MappedFile.mem_withCopy :
    p ∈ (log.withCopy stamp disk).files ↔ log.newPath stamp = some p ∨ p ∈ disk.files := by
  unfold MappedFile.withCopy
  cases log.newPath stamp with
  | none => simp
  | some path => rw [Disk.mem_write, some.injEq, @eq_comm _ path]

/-- A file left was there or is the copy, and was not removed. -/
theorem MappedFile.mem_backupFiles_disk
    (hp : p ∈ (log.backupFiles stamp faults disk).disk.files) :
    (p ∈ disk.files ∨ (log.backupFiles stamp faults disk).copied = some p) ∧
      p ∉ (log.backupFiles stamp faults disk).removed := by
  rcases log.backupFiles_cases stamp faults disk with hEq | hEq
  · rw [hEq] at hp ⊢
    exact ⟨.inl hp, not_mem_nil⟩
  · rw [hEq] at hp ⊢
    have hKept := MappedFile.mem_prune_disk hp
    rw [MappedFile.prune_copied]
    exact ⟨(MappedFile.mem_withCopy.mp hKept.1).symm, hKept.2⟩

theorem MappedFile.newPath_of_copied (h : (log.backupFiles stamp faults disk).copied = some p) :
    log.newPath stamp = some p := by
  rcases log.backupFiles_cases stamp faults disk with hEq | hEq
  · rw [hEq] at h
    cases h
  · rwa [hEq, MappedFile.prune_copied] at h

/-! ## The place of a file in the listing -/

/-- How many listed files are above a path. -/
def MappedFile.above (log : MappedFile) (disk : Disk) (p : Path) : Nat :=
  disk.files.countP fun q => decide (p.components < q.components) && log.lists q

end Rotating

/-! ## Runs -/

/-- A disk, with those backups of the log on it that rotations made. -/
structure World (log : MappedFile) where
  disk : Disk
  own : List Path
  produced : ∀ p ∈ own, ∃ stamp, log.newPath stamp = some p

/-- What happens on the disk: a rotation of the log, or a file is written or deleted by
someone else, by the writer of this log and by other logs included. -/
inductive Event where
  | rotate (stamp : Stamp) (faults : Faults)
  | write (p : Path)
  | delete (p : Path)

namespace World

variable {log : MappedFile}

/-- The own backups while a rotation prunes: the copy it has just made is one of them. -/
def backups (w : World log) (stamp : Stamp) (faults : Faults) : List Path :=
  (log.backupFiles stamp faults w.disk).copied.toList ++ w.own

theorem backups_produced (w : World log) {stamp : Stamp} {faults : Faults} {p : Path}
    (hp : p ∈ w.backups stamp faults) : ∃ stamp, log.newPath stamp = some p := by
  rcases mem_append.mp hp with hNew | hOld
  · exact ⟨stamp, MappedFile.newPath_of_copied (mem_toList.mp hNew)⟩
  · exact w.produced p hOld

/-- The disk after one event. -/
def step (w : World log) : Event → World log
  | .rotate stamp faults =>
    let done := log.backupFiles stamp faults w.disk
    { disk := done.disk
      own := (w.backups stamp faults).filter (· ∉ done.removed)
      produced := fun _ hp => w.backups_produced (List.mem_of_mem_filter hp) }
  | .write p =>
    { disk := w.disk.write p
      own := w.own.filter (· ≠ p)
      produced := fun q hq => w.produced q (List.mem_of_mem_filter hq) }
  | .delete p =>
    { disk := w.disk.remove p
      own := w.own.filter (· ≠ p)
      produced := fun q hq => w.produced q (List.mem_of_mem_filter hq) }

/-- The disk after a sequence of events. -/
def run (w : World log) (events : List Event) : World log := events.foldl step w

/-- If the log is there to be rotated, every listed file that is not an own backup, the log itself
included, has fewer listed files above it than are kept. -/
def Spares (w : World log) (stamp : Stamp) : Prop :=
  log.path ∈ w.disk.files → ∀ n, log.num = some n →
    ∀ p ∈ (log.withCopy stamp w.disk).files, log.lists p = true →
      p ∉ (log.newPath stamp).toList ++ w.own → log.above (log.withCopy stamp w.disk) p < n

/-- Nothing is listed but the log and its own backups. -/
def Clean (w : World log) : Prop :=
  ∀ p ∈ w.disk.files, log.lists p = true → p = log.path ∨ p ∈ w.own

/-- Nobody else writes a file that would be listed. -/
def Harmless (log : MappedFile) : Event → Prop
  | .write p => log.lists p = true → p = log.path
  | .rotate _ _ | .delete _ => True

/-- A harmless event keeps the directory clean. -/
theorem Clean.step {w : World log} (hClean : w.Clean) {e : Event} (he : Harmless log e) :
    (w.step e).Clean := by
  intro p hp hLists
  cases e with
  | rotate stamp faults =>
    obtain ⟨hFrom, hKept⟩ := MappedFile.mem_backupFiles_disk hp
    have hOwn : p = log.path ∨ p ∈ w.backups stamp faults := by
      rcases hFrom with hOld | hNew
      · rcases hClean p hOld hLists with hLog | hOwn
        · exact .inl hLog
        · exact .inr (mem_append_right _ hOwn)
      · exact .inr (mem_append_left _ (mem_toList.mpr hNew))
    exact hOwn.imp_right fun h => mem_filter.mpr ⟨h, decide_eq_true hKept⟩
  | write q =>
    rcases Disk.mem_write.mp hp with hNew | hOld
    · subst hNew
      exact .inl (he hLists)
    · by_cases hq : p = q
      · subst hq
        exact .inl (he hLists)
      · exact (hClean p hOld hLists).imp_right fun h =>
          mem_filter.mpr ⟨h, decide_eq_true hq⟩
  | delete q =>
    have hNe : p ≠ q := by
      intro hEq
      subst hEq
      exact w.disk.nodup.not_mem_erase hp
    exact (hClean p (Disk.mem_of_mem_remove hp) hLists).imp_right fun h =>
      mem_filter.mpr ⟨h, decide_eq_true hNe⟩

end World

/-! ## The log itself -/

/-- The time of a rotation. -/
def earlier : Stamp := ⟨ascii "20260101-000000000000000", List.all_iff_forall_prop.mp (by decide)⟩

/-- The time of the rotation after it. -/
def later : Stamp := ⟨ascii "20260102-000000000000000", List.all_iff_forall_prop.mp (by decide)⟩

end SmartDns.Ports.LogRotation
