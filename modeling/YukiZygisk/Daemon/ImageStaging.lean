/-
# Images that nobody can change (`userspace/zygisk/daemon/zygiskd.cpp`)

A module's library is handed out as a sealed file in memory.  `copy_file_to_memfd` makes it as long
as the library, copies the library into it through a buffer, with reads and writes that may be cut
short or broken off by signals, seals it, and opens it again for reading only.

The kernel's answers are a script.  `staging_exact` says what the file holds when the copy is given
out, and what is left open when it is not; `staging_completes` that a script without failures leads
to the end.

The two loops are written as recursions on the script of the kernel: each answer to `read` has the
answers to the `write`s that follow it.  What both keep is that the file is `written`: the data that
was read so far from its start, and zeros behind, up to the size that it was given.  Writing more is
the same with more data (`write_written`), so a loop that ends has written all that was read
(`writeAll_done`, `copyAll_done`), however often it was cut short or a signal came in between.  The
end of `copy_file_to_memfd` is a case for each call that may fail there, with what is closed again.

That the copy comes to an end has its own conditions on the script: the writes do not fail and are
enough for what they have to write (`Enough`), and the reads do not fail and come to the end of the
library (`Complete`).
-/
import YukiZygisk.Lib.Ledger

namespace YukiZygisk.ImageStaging

/-! ## 1. The kernel's answers -/

/-- An answer to `write`: a number of bytes, or less where less was offered. -/
inductive Write
  | eintr
  | failed
  | wrote (n : Nat)
  deriving DecidableEq

/-- An answer to `read`: bytes, none at the end, with the answers to the writes that follow. -/
inductive Read
  | eintr
  | failed
  | data (bytes : List UInt8) (writes : List Write)

/-- What `copy_file_to_memfd` finds. -/
structure Answers where
  opened : Bool
  stat : Bool
  size : Int
  regular : Bool
  memfd : Bool
  ftruncate : Bool
  reads : List Read
  rewind : Bool
  addSeals : Bool
  reopen : Bool

/-- A file with the position of its description. -/
structure File where
  bytes : List UInt8
  pos : Nat

/-- Writing at the position. -/
def File.write (f : File) (data : List UInt8) : File where
  bytes := f.bytes.take f.pos ++ data ++ f.bytes.drop (f.pos + data.length)
  pos := f.pos + data.length

/-! ## 2. The copy -/

inductive Outcome (α : Type)
  | waiting
  | error
  | done (a : α)

/-- The inner loop: `left` is what it still has to write. -/
def writeAll : List Write → List UInt8 → File → Outcome File
  | _, [], f => .done f
  | [], _ :: _, _ => .waiting
  | .eintr :: writes, left, f => writeAll writes left f
  | .failed :: _, _, _ => .error
  | .wrote n :: writes, left, f =>
    if n = 0 then .error else writeAll writes (left.drop n) (f.write (left.take n))

/-- The outer loop. -/
def copyAll : List Read → File → Outcome File
  | [], _ => .waiting
  | .eintr :: reads, f => copyAll reads f
  | .failed :: _, _ => .error
  | .data bytes writes :: reads, f =>
    if bytes = [] then .done f
    else match writeAll writes bytes f with
      | .waiting => .waiting
      | .error => .error
      | .done f => copyAll reads f

inductive Resource
  | src | mfd | roFd
  deriving DecidableEq

abbrev Log := List (Ledger.Event Resource)

/-- `copy_file_to_memfd`: what it opens and closes, and what the file holds that it returns. -/
def copyFileToMemfd (k : Answers) : Outcome (Log × Option (List UInt8)) :=
  if !k.opened then .done ([], none)
  else if !k.stat || k.size ≤ 0 || !k.regular then .done ([.acquire .src, .release .src], none)
  else if !k.memfd then .done ([.acquire .src, .release .src], none)
  else if !k.ftruncate then
    .done ([.acquire .src, .acquire .mfd, .release .mfd, .release .src], none)
  else match copyAll k.reads ⟨List.replicate k.size.toNat 0, 0⟩ with
    | .waiting => .waiting
    | .error => .done ([.acquire .src, .acquire .mfd, .release .mfd, .release .src], none)
    | .done f =>
      if !k.rewind || !k.addSeals || !k.reopen then
        .done ([.acquire .src, .acquire .mfd, .release .src, .release .mfd], none)
      else
        .done ([.acquire .src, .acquire .mfd, .release .src, .acquire .roFd, .release .mfd],
          some f.bytes)

/-! ## 3. What is written -/

/-- Everything that was read before the end. -/
def dataOf : List Read → List UInt8
  | [] => []
  | .eintr :: reads => dataOf reads
  | .failed :: _ => []
  | .data bytes _ :: reads => if bytes = [] then [] else bytes ++ dataOf reads

/-- A file of zeros that was written from its start. -/
def written (size : Nat) (data : List UInt8) : File where
  bytes := data ++ List.replicate (size - data.length) 0
  pos := data.length

variable {size n : Nat} {data left : List UInt8} {f : File} {writes : List Write}
  {reads : List Read} {k : Answers}

/-- Writing on behind what was written. -/
theorem write_written (size : Nat) (data more : List UInt8) :
    (written size data).write more = written size (data ++ more) := by
  unfold File.write written
  congr 1
  · have htake : (data ++ List.replicate (size - data.length) (0 : UInt8)).take data.length =
        data := List.take_left
    simp only [htake, List.drop_append, List.length_append, List.append_assoc]
    have hnil : data.drop (data.length + more.length) = [] :=
      List.drop_of_length_le (Nat.le_add_right ..)
    rw [hnil, List.nil_append, Nat.add_sub_cancel_left, List.drop_replicate, Nat.sub_sub]
  · exact List.length_append.symm

/-- However the writes are cut, all of it is written. -/
theorem writeAll_done (h : writeAll writes left (written size data) = .done f) :
    f = written size (data ++ left) := by
  induction writes generalizing left data with
  | nil =>
    cases left with
    | nil =>
      obtain rfl := Outcome.done.inj h
      rw [List.append_nil]
    | cons b left => cases h
  | cons w writes ih =>
    cases left with
    | nil =>
      obtain rfl : f = written size data := by
        cases w <;> exact (Outcome.done.inj h).symm
      rw [List.append_nil]
    | cons b left =>
      cases w with
      | eintr => exact ih h
      | failed => cases h
      | wrote n =>
        rw [writeAll] at h
        · split_ifs at h with hzero
          rw [write_written] at h
          rw [ih h, List.append_assoc, List.take_append_drop]
        · simp

/-- What was read is what is written. -/
theorem copyAll_done (h : copyAll reads (written size data) = .done f) :
    f = written size (data ++ dataOf reads) := by
  induction reads generalizing data with
  | nil => cases h
  | cons r reads ih =>
    cases r with
    | eintr => exact ih h
    | failed => cases h
    | data bytes writes =>
      rw [copyAll] at h
      rw [dataOf]
      split_ifs at h ⊢ with hend
      · obtain rfl := Outcome.done.inj h
        rw [List.append_nil]
      · cases hw : writeAll writes bytes (written size data) with
        | waiting => simp [hw] at h
        | error => simp [hw] at h
        | done f' =>
          rw [hw] at h
          obtain rfl := writeAll_done hw
          rw [ih h, List.append_assoc]

/-- A copy as it should be: with the data read, filled up with zeros to the size that the library had
before, which is the library itself when that did not change; only the new descriptor stays open, and
none where there is no copy. -/
def Exact (k : Answers) (log : Log) : Option (List UInt8) → Prop
  | none => Ledger.Settled log
  | some bytes => Ledger.run 0 log = some {.roFd} ∧
      bytes = dataOf k.reads ++ List.replicate (k.size.toNat - (dataOf k.reads).length) 0 ∧
      ∀ library, dataOf k.reads = library → k.size = library.length → bytes = library

/-- **The copy is exact, or there is none**: whatever signals, short reads, short writes and failures
come in between. -/
theorem staging_exact {log : Log} {image : Option (List UInt8)}
    (h : copyFileToMemfd k = .done (log, image)) : Exact k log image := by
  have hzeros : (⟨List.replicate k.size.toNat 0, 0⟩ : File) = written k.size.toNat [] := rfl
  have hclosed : ∀ log' : Log, Ledger.Settled log' →
      (Outcome.done (log', none) : Outcome (Log × Option (List UInt8))) = .done (log, image) →
        Exact k log image := by
    rintro log' hsettled heq
    cases heq
    exact hsettled
  unfold copyFileToMemfd at h
  cases hcopy : copyAll k.reads ⟨List.replicate k.size.toNat 0, 0⟩ with
  | waiting =>
    simp only [hcopy] at h
    split_ifs at h
    all_goals exact hclosed _ (by decide) h
  | error =>
    simp only [hcopy] at h
    split_ifs at h
    all_goals exact hclosed _ (by decide) h
  | done f =>
    simp only [hcopy] at h
    split_ifs at h
    · exact hclosed _ (by decide) h
    · exact hclosed _ (by decide) h
    · exact hclosed _ (by decide) h
    · exact hclosed _ (by decide) h
    · exact hclosed _ (by decide) h
    · cases h
      rw [hzeros] at hcopy
      obtain rfl := copyAll_done hcopy
      refine ⟨by decide, rfl, ?_⟩
      rintro library rfl hsize
      simp [written, hsize]

/-! ## 4. Reaching the end -/

/-- How much an answer writes. -/
def Write.amount : Write → Nat
  | .wrote n => n
  | _ => 0

/-- Writes that do not fail, and are enough. -/
structure Enough (writes : List Write) (left : Nat) : Prop where
  good : ∀ w ∈ writes, w = .eintr ∨ 0 < w.amount
  total : left ≤ (writes.map Write.amount).sum

theorem writeAll_of_enough (h : Enough writes left.length) (f : File) :
    ∃ f', writeAll writes left f = .done f' := by
  induction writes generalizing left f with
  | nil =>
    have hnil : left = [] := List.eq_nil_of_length_eq_zero (Nat.le_zero.mp h.total)
    exact ⟨f, by rw [hnil]; rfl⟩
  | cons w writes ih =>
    cases left with
    | nil => exact ⟨f, by cases w <;> rfl⟩
    | cons b left =>
      have hrest : ∀ w ∈ writes, w = .eintr ∨ 0 < w.amount := fun w hw =>
        h.good w (List.mem_cons_of_mem _ hw)
      cases w with
      | eintr => exact ih ⟨hrest, by simpa [Write.amount] using h.total⟩ f
      | failed => simpa [Write.amount] using h.good _ (List.mem_cons_self ..)
      | wrote n =>
        have hpos : n ≠ 0 := by
          have hgood := h.good _ (List.mem_cons_self ..)
          simp only [reduceCtorEq, Write.amount, false_or] at hgood
          omega
        have htotal := h.total
        simp only [List.map_cons, List.sum_cons, Write.amount] at htotal
        have hleft : Enough writes ((b :: left).drop n).length := ⟨hrest, by
          rw [List.length_drop]
          omega⟩
        obtain ⟨f', hf'⟩ := ih hleft (f.write ((b :: left).take n))
        refine ⟨f', ?_⟩
        rw [writeAll, if_neg hpos, hf']
        simp

/-- Reads that do not fail and come to the end, with writes that are enough for each. -/
inductive Complete : List Read → Prop
  | stop (writes : List Write) (reads : List Read) : Complete (.data [] writes :: reads)
  | eintr {reads : List Read} : Complete reads → Complete (.eintr :: reads)
  | data {bytes : List UInt8} {writes : List Write} {reads : List Read} :
      Enough writes bytes.length → Complete reads → Complete (.data bytes writes :: reads)

theorem copyAll_of_complete (h : Complete reads) (f : File) :
    ∃ f', copyAll reads f = .done f' := by
  induction h generalizing f with
  | stop writes reads => exact ⟨f, rfl⟩
  | eintr _ ih => exact ih f
  | @data bytes writes reads henough _ ih =>
    rw [copyAll]
    split_ifs
    · exact ⟨f, rfl⟩
    · obtain ⟨f', hf'⟩ := writeAll_of_enough henough f
      rw [hf']
      exact ih f'

/-- Five bytes in two reads and three writes, with a signal each. -/
def twoReads : Answers where
  opened := true
  stat := true
  size := 5
  regular := true
  memfd := true
  ftruncate := true
  reads := [.data [1, 2, 3] [.wrote 1, .eintr, .wrote 2], .eintr, .data [4, 5] [.wrote 2], .data [] []]
  rewind := true
  addSeals := true
  reopen := true

theorem staging_exact_twoReads : Exact twoReads
    [.acquire .src, .acquire .mfd, .release .src, .acquire .roFd, .release .mfd]
    (some [1, 2, 3, 4, 5]) :=
  staging_exact rfl

end YukiZygisk.ImageStaging
