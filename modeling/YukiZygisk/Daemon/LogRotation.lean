/-
# The rotation of the log (`userspace/zygisk/daemon/log.cpp`)

A record is written by `write_file`: it opens the log, takes its lock, and when the log has no room
for the record it renames the log to the rollover name and opens a new one.  Any number of writers do
this at once (`logFiles`), each with its own file description, so that `flock` excludes them per file;
`rename` acts on the path.

A writer waits in `flock` with the file open.  **When the log is rotated meanwhile, it gets the lock
of the rollover**, finds that full, and renames the new log over it (`not_renamesFull`): the records
of the rollover are lost, whatever the new log has.

`renamesFull_of_named`: in a run in which a writer that gets the lock of a full file gets that of the
log, every file that is renamed is the one that the writer found full.

The names and the inodes are kept apart: a path is an inode or nothing, and an open file is an inode
that may have no name any more, or another one.  The invariant is `Sound`: the inodes that anything
refers to are in use, the lock of a file has one owner, and a writer that has found a file full and
is about to rename the log has the file of the log.  The last part is what the guard gives when the
lock is taken.  It is kept because nobody else renames meanwhile: to rename the log a writer must
have the lock of its file, and that has one owner (`owner_inj`), and a file that is locked has its
size changed by nobody but the owner (`setSize`).  The steps that only move a writer from one phase
to the next need that the new phase is right (`setWriter`), which for most is that it decides on the
same file (`setWriter_deciding`) or on none (`setWriter_writing`).
-/
import YukiZygisk.Lib.Lts

namespace YukiZygisk.LogRotation

/-! ## 1. The files and the writers -/

/-- `kMaxLogSize`, of type `off_t`. -/
def kMaxLogSize : ℤ := 1024 * 1024

/-- The test of `write_file` on `st_size`. -/
def Full (length size : ℕ) : Prop := (size : ℤ) ≥ kMaxLogSize - (length : ℤ)

instance (length size : ℕ) : Decidable (Full length size) := Int.decLe _ _

/-- A writer in `write_file`, with its open file and the length of what it has to write. -/
inductive Phase
  | idle
  /-- in the `flock` of `open_log_file`, which is called `again` after a rotation -/
  | opened (file length : ℕ) (again : Bool)
  /-- at the checks of `open_log_file` -/
  | locked (file length : ℕ) (again : Bool)
  /-- at the `fstat` of `write_file` -/
  | holding (file length : ℕ)
  | rotating (file length : ℕ)
  | truncating (file length : ℕ)
  /-- the log is renamed, at `close_log_file` -/
  | rotated (file length : ℕ)
  | reopening (length : ℕ)
  | writing (file length : ℕ)
  deriving DecidableEq

/-- The two names, the files by inode with their sizes and the writers that have their locks, and
the first inode that is free. -/
structure LogFiles where
  current : Option ℕ
  rollover : Option ℕ
  free : ℕ
  size : ℕ → ℕ
  owner : ℕ → Option ℕ
  writers : ℕ → Phase

/-- The steps of the writers.  A call that can fail comes with its answer. -/
inductive Act
  | write (w length : ℕ) (answers : Bool)
  | reopen (w : ℕ) (answers : Bool)
  | lock (w : ℕ) (answers : Bool)
  /-- `fstat`, the type and the owner of the file, and `fchmod` -/
  | check (w : ℕ) (answers : Bool)
  | stat (w : ℕ) (answers : Bool)
  | rename (w : ℕ) (answers : Bool)
  | truncate (w : ℕ) (answers : Bool)
  | append (w written : ℕ)
  /-- `close_log_file` -/
  | close (w : ℕ)
  /-- the process ends -/
  | exit (w : ℕ)

namespace LogFiles

def setWriter (s : LogFiles) (w : ℕ) (phase : Phase) : LogFiles :=
  { s with writers := Function.update s.writers w phase }

def setSize (s : LogFiles) (file size : ℕ) : LogFiles :=
  { s with size := Function.update s.size file size }

/-- `flock` with `LOCK_UN`, or the last `close`. -/
def unlock (s : LogFiles) (file : ℕ) : LogFiles :=
  { s with owner := Function.update s.owner file none }

/-- `open` with `O_CREAT`. -/
def openLog (s : LogFiles) (w length : ℕ) (again : Bool) : LogFiles :=
  match s.current with
  | some file => s.setWriter w (.opened file length again)
  | none => { s.setSize s.free 0 with current := some s.free, free := s.free + 1 }.setWriter w
      (.opened s.free length again)

end LogFiles

/-! ## 2. `write_file` -/

/-- The file whose lock the writer has. -/
def Phase.held : Phase → Option ℕ
  | .locked file _ _ | .holding file _ | .rotating file _ | .truncating file _ | .rotated file _
  | .writing file _ => some file
  | _ => none

/-- The writer is outside again, and its file is closed. -/
def LogFiles.leave (s : LogFiles) (w : ℕ) (phase : Phase) : LogFiles :=
  match (s.writers w).held with
  | some file => (s.unlock file).setWriter w phase
  | none => s.setWriter w phase

def LogFiles.step (s : LogFiles) : Act → Option LogFiles
  | .write w length answers =>
    match s.writers w with
    | .idle => some (if answers then s.openLog w length false else s)
    | _ => none
  | .reopen w answers =>
    match s.writers w with
    | .reopening length => some (if answers then s.openLog w length true else s.setWriter w .idle)
    | _ => none
  | .lock w answers =>
    match s.writers w with
    | .opened file length again =>
      if answers then
        -- the others wait
        if s.owner file = none then
          some { s.setWriter w (.locked file length again) with
            owner := Function.update s.owner file (some w) }
        else none
      else some (s.setWriter w .idle)
    | _ => none
  | .check w answers =>
    match s.writers w with
    | .locked file length again =>
      some (if answers then
        s.setWriter w (if again then .writing file length else .holding file length)
      else s.leave w .idle)
    | _ => none
  | .stat w answers =>
    match s.writers w with
    | .holding file length =>
      some (s.setWriter w (if answers ∧ Full length (s.size file) then .rotating file length
        else .writing file length))
    | _ => none
  | .rename w answers =>
    match s.writers w with
    | .rotating file length =>
      match s.current, answers with
      | some named, true =>
        some { s.setWriter w (.rotated file length) with current := none, rollover := some named }
      | _, _ => some (s.setWriter w (.truncating file length))
    | _ => none
  | .truncate w answers =>
    match s.writers w with
    | .truncating file length =>
      let t := s.setWriter w (.writing file length)
      some (if answers then t.setSize file 0 else t)
    | _ => none
  | .append w written =>
    match s.writers w with
    | .writing file length =>
      if 0 < written ∧ written ≤ length then
        some ((s.setWriter w (.writing file (length - written))).setSize file
          (s.size file + written))
      else none
    | _ => none
  | .close w =>
    match s.writers w with
    | .rotated _ length => some (s.leave w (.reopening length))
    | .writing _ _ => some (s.leave w .idle)
    | _ => none
  | .exit w => some (s.leave w .idle)

/-- The files as they are, and no writer. -/
def logFiles : Lts LogFiles Act where
  init s := (∀ file, s.current = some file → file < s.free) ∧ (∀ file, s.owner file = none) ∧
    ∀ w, s.writers w = .idle
  step := LogFiles.step

/-! ## 3. What is renamed -/

/-- **The file that is renamed is the full one**: when a writer is about to rename the log, that is
the file that it has found full, and it is full. -/
def RenamesFull (s : LogFiles) : Prop :=
  ∀ w file length named, s.writers w = .rotating file length → s.current = some named →
    named = file ∧ Full length (s.size named)

/-- A writer that gets the lock of a full file gets that of the log. -/
def Named (s : LogFiles) : Act → Prop
  | .lock w true => ∀ file length, s.writers w = .opened file length false →
    s.owner file = none → Full length (s.size file) → s.current = some file
  | _ => True

/-- The file that the writer has open. -/
def Phase.file : Phase → Option ℕ
  | .opened file _ _ => some file
  | phase => phase.held

/-- The file and the record whose room the writer decides on. -/
def Phase.decides : Phase → Option (ℕ × ℕ)
  | .locked file length false | .holding file length | .rotating file length => some (file, length)
  | _ => none

theorem Phase.held_of_decides {phase : Phase} {file length : ℕ}
    (h : phase.decides = some (file, length)) : phase.held = some file := by
  cases phase with
  | locked file' length' again => cases again <;> simp_all [Phase.decides, Phase.held]
  | _ => simp_all [Phase.decides, Phase.held]

theorem Phase.file_of_held {phase : Phase} {file : ℕ} (h : phase.held = some file) :
    phase.file = some file := by
  cases phase <;> first | exact h | cases h

/-- The inodes are in use, a lock has one owner, and a writer that decides on a full file decides on
the log. -/
structure Sound (s : LogFiles) : Prop where
  current : ∀ file, s.current = some file → file < s.free
  files : ∀ w file, (s.writers w).file = some file → file < s.free
  owners : ∀ w file, (s.writers w).held = some file → s.owner file = some w
  named : ∀ w file length, (s.writers w).decides = some (file, length) →
    Full length (s.size file) → s.current = some file
  full : ∀ w file length, s.writers w = .rotating file length → Full length (s.size file)

section
variable {s s' : LogFiles} {a : Act} {w file length : ℕ} {phase : Phase}

namespace Sound

/-- Two writers that have the lock of a file are one. -/
theorem owner_inj (h : Sound s) {v : ℕ} (hv : (s.writers v).held = some file)
    (hw : s.owner file = some w) : v = w :=
  Option.some.inj ((h.owners v file hv).symm.trans hw)

theorem setWriter (h : Sound s) (hfile : ∀ f, phase.file = some f → f < s.free)
    (hheld : ∀ f, phase.held = some f → s.owner f = some w)
    (hnamed : ∀ f l, phase.decides = some (f, l) → Full l (s.size f) → s.current = some f)
    (hfull : ∀ f l, phase = .rotating f l → Full l (s.size f)) : Sound (s.setWriter w phase) := by
  have hall : ∀ {Q : ℕ → Phase → Prop}, Q w phase → (∀ v, Q v (s.writers v)) →
      ∀ v, Q v ((s.setWriter w phase).writers v) := by
    intro Q hw hv v
    simp only [LogFiles.setWriter]
    rcases eq_or_ne v w with rfl | hne
    · rw [Function.update_self]
      exact hw
    · rw [Function.update_of_ne hne]
      exact hv v
  exact ⟨h.current, hall (Q := fun _ p => ∀ f, p.file = some f → f < s.free) hfile h.files,
    hall (Q := fun v p => ∀ f, p.held = some f → s.owner f = some v) hheld h.owners,
    hall (Q := fun _ p => ∀ f l, p.decides = some (f, l) → Full l (s.size f) →
      s.current = some f) hnamed h.named,
    hall (Q := fun _ p => ∀ f l, p = .rotating f l → Full l (s.size f)) hfull h.full⟩

/-- A writer that has nothing to decide any more. -/
theorem setWriter_writing (h : Sound s) (hheld : (s.writers w).held = some file)
    (hphase : phase.held = some file) (hdecides : phase.decides = none) :
    Sound (s.setWriter w phase) := by
  have hfile : phase.file = some file := Phase.file_of_held hphase
  apply h.setWriter
  · intro f hf
    obtain rfl := Option.some.inj (hfile.symm.trans hf)
    exact h.files w file (Phase.file_of_held hheld)
  · intro f hf
    obtain rfl := Option.some.inj (hphase.symm.trans hf)
    exact h.owners w file hheld
  · intro f l hd
    rw [hdecides] at hd
    cases hd
  · intro f l hr
    subst hr
    cases hdecides

/-- A writer that goes on deciding, and on the same file. -/
theorem setWriter_deciding (h : Sound s) (hw : (s.writers w).decides = some (file, length))
    (hphase : phase.decides = some (file, length))
    (hfull : ∀ f l, phase = .rotating f l → Full l (s.size f)) : Sound (s.setWriter w phase) := by
  have hheld := Phase.held_of_decides hw
  have hphaseHeld := Phase.held_of_decides hphase
  have hphaseFile := Phase.file_of_held hphaseHeld
  apply h.setWriter
  · intro f hf
    obtain rfl := Option.some.inj (hphaseFile.symm.trans hf)
    exact h.files w file (Phase.file_of_held hheld)
  · intro f hf
    obtain rfl := Option.some.inj (hphaseHeld.symm.trans hf)
    exact h.owners w file hheld
  · intro f l hd
    obtain ⟨rfl, rfl⟩ := Prod.mk.inj (Option.some.inj (hphase.symm.trans hd))
    exact h.named w file length hw
  · exact hfull

theorem setWriter_away (h : Sound s) (hphase : phase.file = none) :
    Sound (s.setWriter w phase) := by
  have hheld : phase.held = none := by
    rcases hp : phase.held with - | f
    · rfl
    · rw [Phase.file_of_held hp] at hphase
      cases hphase
  apply h.setWriter
  · intro f hf
    rw [hphase] at hf
    cases hf
  · intro f hf
    rw [hheld] at hf
    cases hf
  · intro f l hd
    rw [Phase.held_of_decides hd] at hheld
    cases hheld
  · intro f l hr
    subst hr
    cases hphase

/-- Nobody but the owner of the lock sees the size of a file change. -/
theorem setSize (h : Sound s) (howner : s.owner file = some w)
    (hdecides : (s.writers w).decides = none) (size : ℕ) : Sound (s.setSize file size) := by
  have hsame : ∀ v f l, (s.writers v).decides = some (f, l) →
      (s.setSize file size).size f = s.size f := by
    intro v f l hd
    apply Function.update_of_ne
    rintro rfl
    obtain rfl := h.owner_inj (Phase.held_of_decides hd) howner
    rw [hdecides] at hd
    cases hd
  constructor
  · exact h.current
  · exact h.files
  · exact h.owners
  · intro v f l hd hfull
    rw [hsame v f l hd] at hfull
    exact h.named v f l hd hfull
  · intro v f l hr
    rw [hsame v f l (by rw [show s.writers v = _ from hr]; rfl)]
    exact h.full v f l hr

theorem openLog (h : Sound s) (again : Bool) : Sound (s.openLog w length again) := by
  simp only [LogFiles.openLog]
  split
  · rename_i file hcurrent
    apply h.setWriter
    · intro f hf
      obtain rfl := Option.some.inj hf
      exact h.current file hcurrent
    all_goals rintro f ⟨⟩ <;> intros <;> contradiction
  · rename_i hcurrent
    -- the new file is nobody's yet, and no writer decides on a full file while there is no log
    have hcreated : Sound { s.setSize s.free 0 with current := some s.free, free := s.free + 1 } := by
      have hsame : ∀ v f l, (s.writers v).decides = some (f, l) →
          (s.setSize s.free 0).size f = s.size f := fun v f l hd => Function.update_of_ne
        (h.files v f (Phase.file_of_held (Phase.held_of_decides hd))).ne _ _
      constructor
      · rintro f ⟨⟩
        exact Nat.lt_succ_self _
      · intro v f hf
        exact Nat.lt_succ_of_lt (h.files v f hf)
      · exact h.owners
      · intro v f l hd hfull
        rw [hsame v f l hd] at hfull
        rw [h.named v f l hd hfull] at hcurrent
        cases hcurrent
      · intro v f l hr
        rw [hsame v f l (by rw [show s.writers v = _ from hr]; rfl)]
        exact h.full v f l hr
    apply hcreated.setWriter
    · intro f hf
      obtain rfl := Option.some.inj hf
      exact Nat.lt_succ_self _
    all_goals rintro f ⟨⟩ <;> intros <;> contradiction

theorem leave (h : Sound s) (hphase : phase.file = none) : Sound (s.leave w phase) := by
  simp only [LogFiles.leave]
  split
  · rename_i file hheld
    have haway := h.setWriter_away (w := w) hphase
    have howners : ∀ v f, (((s.unlock file).setWriter w phase).writers v).held = some f →
        Function.update s.owner file none f = some v := by
      intro v f hv
      have howner : s.owner f = some v := haway.owners v f hv
      refine (Function.update_of_ne ?_ _ _).trans howner
      rintro rfl
      -- the owner of the lock is the writer that left
      obtain rfl := Option.some.inj (howner.symm.trans (h.owners w f hheld))
      simp only [LogFiles.unlock, LogFiles.setWriter, Function.update_self] at hv
      rw [Phase.file_of_held hv] at hphase
      cases hphase
    exact ⟨haway.current, haway.files, howners, haway.named, haway.full⟩
  · exact h.setWriter_away hphase

/-- A writer gets the lock; here the guard is used. -/
theorem lock (h : Sound s) {again : Bool} (hw : s.writers w = .opened file length again)
    (hfree : s.owner file = none)
    (hnamed : again = false → Full length (s.size file) → s.current = some file) :
    Sound { s.setWriter w (.locked file length again) with
      owner := Function.update s.owner file (some w) } := by
  have howners : ∀ v f, (s.writers v).held = some f →
      Function.update s.owner file (some w) f = some v := by
    intro v f hv
    refine (Function.update_of_ne ?_ _ _).trans (h.owners v f hv)
    rintro rfl
    rw [h.owners v f hv] at hfree
    cases hfree
  have howned : Sound { s with owner := Function.update s.owner file (some w) } :=
    ⟨h.current, h.files, howners, h.named, h.full⟩
  apply howned.setWriter
  · rintro _ ⟨⟩
    exact h.files w file (by rw [hw]; rfl)
  · rintro _ ⟨⟩
    exact Function.update_self ..
  · intro f l hd hfull
    cases again with
    | true => cases hd
    | false =>
      cases hd
      exact hnamed rfl hfull
  · rintro _ _ ⟨⟩

/-- The log is renamed by a writer that found it full: nobody else has its lock. -/
theorem rename (h : Sound s) (hw : s.writers w = .rotating file length) :
    Sound { s.setWriter w (.rotated file length) with
      current := none, rollover := some file } := by
  have hheld : (s.writers w).held = some file := by rw [hw]; rfl
  have hrotated : Sound (s.setWriter w (.rotated file length)) :=
    h.setWriter_writing hheld rfl rfl
  constructor
  · rintro _ ⟨⟩
  · exact hrotated.files
  · exact hrotated.owners
  · intro v f l hd hfull
    have hcurrent : s.current = some file := h.named w file length (by rw [hw]; rfl)
      (h.full w file length hw)
    have hnamed : s.current = some f := hrotated.named v f l hd hfull
    obtain rfl := Option.some.inj (hcurrent.symm.trans hnamed)
    obtain rfl := hrotated.owner_inj (Phase.held_of_decides hd) (h.owners w file hheld)
    simp only [LogFiles.setWriter, Function.update_self] at hd
    cases hd
  · exact hrotated.full

end Sound

/-- **One step.** -/
theorem Sound.step (h : Sound s) (hP : Named s a) (hs : s.step a = some s') : Sound s' := by
  cases a with
  | write w length answers =>
    simp only [LogFiles.step] at hs
    split at hs
    · obtain rfl := Option.some.inj hs
      split_ifs
      · exact h.openLog false
      · exact h
    · cases hs
  | reopen w answers =>
    simp only [LogFiles.step] at hs
    split at hs
    · obtain rfl := Option.some.inj hs
      split_ifs
      · exact h.openLog true
      · exact h.setWriter_away rfl
    · cases hs
  | lock w answers =>
    simp only [LogFiles.step] at hs
    split at hs
    · rename_i file length again hw
      split_ifs at hs with hanswers hfree
      · obtain rfl := Option.some.inj hs
        exact h.lock hw hfree (by rintro rfl; subst hanswers; exact hP file length hw hfree)
      · obtain rfl := Option.some.inj hs
        exact h.setWriter_away rfl
    · cases hs
  | check w answers =>
    simp only [LogFiles.step] at hs
    split at hs
    · rename_i file length again hw
      have hheld : (s.writers w).held = some file := by rw [hw]; rfl
      obtain rfl := Option.some.inj hs
      split_ifs with hanswers hagain
      · exact h.setWriter_writing hheld rfl rfl
      · obtain rfl : again = false := Bool.eq_false_iff.mpr hagain
        exact h.setWriter_deciding (by rw [hw]; rfl) rfl (by rintro _ _ ⟨⟩)
      · exact h.leave rfl
    · cases hs
  | stat w answers =>
    simp only [LogFiles.step] at hs
    split at hs
    · rename_i file length hw
      have hheld : (s.writers w).held = some file := by rw [hw]; rfl
      obtain rfl := Option.some.inj hs
      split_ifs with hfull
      · apply h.setWriter_deciding (by rw [hw]; rfl) rfl
        rintro _ _ ⟨⟩
        exact hfull.2
      · exact h.setWriter_writing hheld rfl rfl
    · cases hs
  | rename w answers =>
    simp only [LogFiles.step] at hs
    split at hs
    · rename_i file length hw
      split at hs
      · rename_i named hcurrent
        obtain rfl := Option.some.inj hs
        have hlog := h.named w file length (by rw [hw]; rfl) (h.full w file length hw)
        obtain rfl := Option.some.inj (hcurrent.symm.trans hlog)
        exact h.rename hw
      · obtain rfl := Option.some.inj hs
        exact h.setWriter_writing (by rw [hw]; rfl) rfl rfl
    · cases hs
  | truncate w answers =>
    simp only [LogFiles.step] at hs
    split at hs
    · rename_i file length hw
      have hheld : (s.writers w).held = some file := by rw [hw]; rfl
      have hwriting : Sound (s.setWriter w (.writing file length)) :=
        h.setWriter_writing hheld rfl rfl
      obtain rfl := Option.some.inj hs
      split_ifs
      · exact hwriting.setSize (w := w) (h.owners w file hheld)
          (by simp [LogFiles.setWriter, Phase.decides]) 0
      · exact hwriting
    · cases hs
  | append w written =>
    simp only [LogFiles.step] at hs
    split at hs
    · rename_i file length hw
      have hheld : (s.writers w).held = some file := by rw [hw]; rfl
      split_ifs at hs
      obtain rfl := Option.some.inj hs
      exact (h.setWriter_writing hheld rfl rfl).setSize (w := w) (h.owners w file hheld)
        (by simp [LogFiles.setWriter, Phase.decides]) _
    · cases hs
  | close w =>
    simp only [LogFiles.step] at hs
    split at hs
    · obtain rfl := Option.some.inj hs
      exact h.leave rfl
    · obtain rfl := Option.some.inj hs
      exact h.leave rfl
    · cases hs
  | exit w =>
    obtain rfl := Option.some.inj hs
    exact h.leave rfl

end

/-- `Sound` holds in every run whose steps meet the guard. -/
theorem sound_invariant : logFiles.Invariant Named Sound where
  init s hi := by
    obtain ⟨hcurrent, -, hidle⟩ := hi
    constructor
    · exact hcurrent
    · intro w f hf
      rw [hidle w] at hf
      cases hf
    · intro w f hf
      rw [hidle w] at hf
      cases hf
    · intro w f l hd
      rw [hidle w] at hd
      cases hd
    · intro w f l hr
      rw [hidle w] at hr
      cases hr
  step _ _ _ h hP hs := h.step hP hs

/-- **The full file is renamed** in every run in which the lock of a full file is that of the log. -/
theorem renamesFull_of_named (s : LogFiles) (hr : logFiles.Reach Named s) : RenamesFull s := by
  intro w file length named hw hcurrent
  have h := hr.invariant sound_invariant
  have hfull := h.full w file length hw
  have hlog := h.named w file length (by rw [hw]; rfl) hfull
  obtain rfl := Option.some.inj (hcurrent.symm.trans hlog)
  exact ⟨rfl, hfull⟩

/-- `Named`, as a test. -/
def namedTest (s : LogFiles) : Act → Bool
  | .lock w true =>
    match s.writers w with
    | .opened file length false => decide (Full length (s.size file) → s.current = some file)
    | _ => true
  | _ => true

theorem named_of_test (s : LogFiles) (a : Act) (h : namedTest s a = true) : Named s a := by
  unfold Named
  split
  · intro file length hw _ hfull
    simp only [namedTest, hw, decide_eq_true_eq] at h
    exact h hfull
  · trivial

/-- A full log that a writer can rotate. -/
def fullLog : LogFiles := ⟨some 0, none, 1, fun _ => 1048576, fun _ => none, fun _ => .idle⟩

theorem init_fullLog : logFiles.init fullLog :=
  ⟨by rintro _ ⟨⟩; decide, fun _ => rfl, fun _ => rfl⟩

/-- Writer 0 is about to rename the log, and writer 1 waits for the lock. -/
theorem renamesFull_of_named_sample : ∃ s : LogFiles, s.writers 0 = .rotating 0 100 ∧
    s.writers 1 = .opened 0 100 false ∧ s.current = some 0 ∧ RenamesFull s := by
  obtain ⟨s, hr, hs⟩ := Lts.exists_reach_of_guarded (M := logFiles) (g := namedTest) named_of_test
    init_fullLog [.write 0 100 true, .write 1 100 true, .lock 0 true, .check 0 true, .stat 0 true]
    (fun s => decide (s.writers 0 = .rotating 0 100) &&
      decide (s.writers 1 = .opened 0 100 false) && decide (s.current = some 0)) (by decide +kernel)
  simp only [Bool.and_eq_true, decide_eq_true_eq] at hs
  obtain ⟨⟨hrotating, hwaiting⟩, hcurrent⟩ := hs
  exact ⟨s, hrotating, hwaiting, hcurrent, renamesFull_of_named s hr⟩

/-- Both open the log, and writer 0 renames it and writes to a new one. -/
def rotates : List Act :=
  [.write 0 100 true, .write 1 100 true, .lock 0 true, .check 0 true, .stat 0 true, .rename 0 true,
    .close 0, .reopen 0 true, .lock 0 true, .check 0 true, .append 0 100, .close 0]

/-- Writer 1 gets the lock of the rollover. -/
def decidesOnRollover : List Act := [.lock 1 true, .check 1 true, .stat 1 true]

/-- **A new log is renamed over the rollover.** -/
theorem not_renamesFull : ¬ ∀ s, logFiles.Reach Lts.anyStep s → RenamesFull s := by
  intro h
  obtain ⟨s, hr, hs⟩ := Lts.exists_reach_of_exec init_fullLog (rotates ++ decidesOnRollover)
    (fun s => decide (s.writers 1 = .rotating 0 100) && decide (s.current = some 1) &&
      decide (s.rollover = some 0) && decide (s.size 1 = 100)) (by decide +kernel)
  simp only [Bool.and_eq_true, decide_eq_true_eq] at hs
  obtain ⟨⟨⟨hw, hcurrent⟩, -⟩, -⟩ := hs
  exact absurd (h s hr 1 0 100 1 hw hcurrent).1 (by decide)

end YukiZygisk.LogRotation
