/-
# Patching kernel text and tables (`host/patch_text.c`)

`yz_patch_text` runs a callback on every online CPU through `stop_machine`.  The CPU that arrives
last patches, through a fixmap slot, and the others spin until it has finished.  The rendezvous is
the one of `Lib/Rendezvous`; this file gives the program that the last CPU carries out, down to the
single byte, and says what the others can see of it.

The page tables of `init_mm` do not change while the CPUs are stopped.  What the copy writes is a
parameter: `copy_to_kernel_nofault` may stop early, and then reports a fault.

Both results are about a patch whose target is mapped and that lies within one page, since the slot
of the fixmap is no longer; the slot of a hook, which is one aligned pointer, is such a target.  The
walk then finds the page (`hphys`), and the program is the straight line of `after_patch`.
`patch_atomic` says what a CPU can see of it, and `patch_completes` that it runs to its end in
whatever order the CPUs run.  All of the patch is in place, and its caches are clean, where the copy
is complete; where it stops early, what it has written stays, and the call reports the fault.

The walk over the page tables adds an offset inside the page to the frame that it finds, whichever
level maps the target, and the address plus a small offset is in the same page
(`physFromVirt_add`).  So the bytes of the patch go to consecutive physical addresses, and writing
them one by one gives what `written` says (`foldl_write`).
-/
import Mathlib
import YukiZygisk.Lib.Rendezvous

namespace YukiZygisk.PatchText

open Rendezvous (Phase State meeting move after)

/-! ## 1. The walk -/

/-- An entry of a page table: the answers of `*_none`, `*_bad` and `*_leaf` (`pte_present` for the
last level), and the physical address in it. -/
structure Entry where
  none : Bool
  bad : Bool
  leaf : Bool
  phys : Nat

/-- The page tables of `init_mm`.  An entry is found by the bits of the address above its level's
shift. -/
structure PageTables where
  pageShift : Nat
  pmdShift : Nat
  pudShift : Nat
  p4dShift : Nat
  pgdShift : Nat
  pgd : Nat → Entry
  p4d : Nat → Entry
  pud : Nat → Entry
  pmd : Nat → Entry
  pte : Nat → Entry
  pmd_le : pageShift ≤ pmdShift
  pud_le : pageShift ≤ pudShift
  p4d_le : pageShift ≤ p4dShift
  pgd_le : pageShift ≤ pgdShift

def PageTables.pageSize (t : PageTables) : Nat := 2 ^ t.pageShift

/-- `yz_phys_from_virt`.  At the upper levels an entry that is bad fails before it can count as a
leaf; at the middle one the leaf comes first. -/
def physFromVirt (t : PageTables) (addr : Nat) : Option Nat :=
  let pgd := t.pgd (addr / 2 ^ t.pgdShift)
  let p4d := t.p4d (addr / 2 ^ t.p4dShift)
  let pud := t.pud (addr / 2 ^ t.pudShift)
  let pmd := t.pmd (addr / 2 ^ t.pmdShift)
  let pte := t.pte (addr / 2 ^ t.pageShift)
  if pgd.none || pgd.bad then .none
  else if p4d.none || p4d.bad then .none
  else if p4d.leaf then some (p4d.phys + addr % 2 ^ t.p4dShift)
  else if pud.none || pud.bad then .none
  else if pud.leaf then some (pud.phys + addr % 2 ^ t.pudShift)
  else if pmd.leaf then some (pmd.phys + addr % 2 ^ t.pmdShift)
  else if pmd.none || pmd.bad then .none
  else if pte.leaf then some (pte.phys + addr % 2 ^ t.pageShift)
  else .none

/-- Inside of a page only the low part of an address moves. -/
theorem div_add_same {shift s addr i : Nat} (hs : s ≤ shift) (h : addr % 2 ^ s + i < 2 ^ s) :
    (addr + i) / 2 ^ shift = addr / 2 ^ shift ∧ (addr + i) % 2 ^ shift = addr % 2 ^ shift + i := by
  -- the bits above the page do not change, whatever the level
  obtain ⟨k, rfl⟩ := Nat.exists_eq_add_of_le hs
  have hpage : (addr + i) / 2 ^ s = addr / 2 ^ s := by
    rw [Nat.add_div (by positivity), Nat.div_eq_of_lt (by omega : i < 2 ^ s),
      Nat.mod_eq_of_lt (by omega : i < 2 ^ s), if_neg (by omega)]
    omega
  have hdiv : (addr + i) / 2 ^ (s + k) = addr / 2 ^ (s + k) := by
    rw [pow_add, ← Nat.div_div_eq_div_mul, ← Nat.div_div_eq_div_mul, hpage]
  constructor
  · exact hdiv
  · have h₁ := Nat.div_add_mod (addr + i) (2 ^ (s + k))
    have h₂ := Nat.div_add_mod addr (2 ^ (s + k))
    rw [hdiv] at h₁
    omega

/-- **A page is mapped in one piece.** -/
theorem physFromVirt_add (t : PageTables) {addr i : Nat}
    (h : addr % t.pageSize + i < t.pageSize) :
    physFromVirt t (addr + i) = (physFromVirt t addr).map (· + i) := by
  obtain ⟨hpte, hpte'⟩ := div_add_same (le_refl t.pageShift) h
  obtain ⟨hpmd, hpmd'⟩ := div_add_same t.pmd_le h
  obtain ⟨hpud, hpud'⟩ := div_add_same t.pud_le h
  obtain ⟨hp4d, hp4d'⟩ := div_add_same t.p4d_le h
  obtain ⟨hpgd, -⟩ := div_add_same t.pgd_le h
  simp only [physFromVirt, hpgd, hp4d, hp4d', hpud, hpud', hpmd, hpmd', hpte, hpte']
  split_ifs <;> simp [Nat.add_assoc]

/-! ## 2. The program of the last CPU -/

/-- What the CPUs share while they are stopped: physical memory, the page behind `FIX_TEXT_POKE0`,
the caches cleaned for the target, and what the patching CPU returns. -/
structure Machine where
  phys : Nat → UInt8
  fixmap : Option Nat
  icache : Bool
  dcache : Bool
  ret : Int

/-- One call: the target, the bytes, the flags, how many bytes the copy writes, and the physical
addresses behind the page of the slot. -/
structure Patch where
  tables : PageTables
  dst : Nat
  src : List UInt8
  flushIcache : Bool
  flushDcache : Bool
  copied : Nat
  behind : Nat → Nat

def enoent : Int := 2
def efault : Int := 14

/-- The physical address at an offset of the slot. -/
def Patch.slot (p : Patch) (page offset : Nat) : Nat :=
  if offset < p.tables.pageSize then page * p.tables.pageSize + offset else p.behind offset

/-- One byte of the copy, through the slot. -/
def Patch.write (p : Patch) (offset : Nat) (b : UInt8) (m : Machine) : Machine :=
  match m.fixmap with
  | some page => { m with phys := Function.update m.phys (p.slot page offset) b }
  | none => m

/-- The bytes that the copy writes. -/
def Patch.bytes (p : Patch) : List UInt8 := p.src.take p.copied

/-- `yz_patch_text_nosync`, step by step. -/
def patchTextNosync (p : Patch) : List (Machine → Machine) :=
  match physFromVirt p.tables p.dst with
  | none => [fun m => { m with ret := -enoent }]
  | some phys =>
    [fun m => { m with fixmap := some (phys / p.tables.pageSize) }] ++
    p.bytes.mapIdx (fun i b => p.write (phys % p.tables.pageSize + i) b) ++
    [fun m => { m with ret := if p.src.length ≤ p.copied then 0 else -efault },
      fun m => { m with fixmap := none },
      fun m =>
        if m.ret = 0 then
          { m with icache := m.icache || p.flushIcache, dcache := m.dcache || p.flushDcache }
        else m]

/-- `yz_patch_text` on `n + 1` online CPUs: `stop_machine` runs the callback on each. -/
def patchText (p : Patch) (n : Nat) (start : Machine) : Lts (State n Machine) (Fin (n + 1)) :=
  meeting (patchTextNosync p) start

/-! ## 3. What it leaves -/

/-- Memory with some bytes written from `base` on. -/
def written (memory : Nat → UInt8) (base : Nat) (bytes : List UInt8) (a : Nat) : UInt8 :=
  if base ≤ a ∧ a < base + bytes.length then bytes.getD (a - base) 0 else memory a

/-- The machine after a patch of the page at `phys`. -/
def patched (p : Patch) (phys : Nat) (m : Machine) : Machine where
  phys := written m.phys phys p.bytes
  fixmap := none
  icache := m.icache || (p.flushIcache && decide (p.src.length ≤ p.copied))
  dcache := m.dcache || (p.flushDcache && decide (p.src.length ≤ p.copied))
  ret := if p.src.length ≤ p.copied then 0 else -efault

variable {p : Patch} {n : Nat} {start : Machine} {s s' : State n Machine} {i : Fin (n + 1)}
  {phys : Nat}

theorem written_concat (memory : Nat → UInt8) (base : Nat) (bytes : List UInt8) (b : UInt8) :
    written memory base (bytes ++ [b]) =
      Function.update (written memory base bytes) (base + bytes.length) b := by
  funext a
  by_cases ha : a = base + bytes.length
  · subst ha
    simp [written]
  · rw [Function.update_of_ne ha]
    unfold written
    by_cases hin : base ≤ a ∧ a < base + bytes.length
    · rw [if_pos hin, if_pos (by simp only [List.length_append, List.length_singleton]; omega)]
      simp only [List.getD_eq_getElem?_getD]
      rw [List.getElem?_append_left (by omega)]
    · rw [if_neg hin, if_neg (by simp only [List.length_append, List.length_singleton]; omega)]

/-- The copy writes through the slot what it writes at the physical address. -/
theorem foldl_write (hpage : phys % p.tables.pageSize + p.src.length ≤ p.tables.pageSize)
    (bytes : List UInt8) (hlen : bytes.length ≤ p.src.length) (m : Machine)
    (hm : m.fixmap = some (phys / p.tables.pageSize)) :
    (bytes.mapIdx fun i b => p.write (phys % p.tables.pageSize + i) b).foldl (fun t f => f t) m =
      { m with phys := written m.phys phys bytes } := by
  induction bytes using List.reverseRecOn with
  | nil =>
    have hsame : written m.phys phys [] = m.phys := by
      funext a
      rw [written, if_neg (by simp)]
    rw [hsame]
    rfl
  | append_singleton bytes b ih =>
    rw [List.length_append, List.length_singleton] at hlen
    rw [List.mapIdx_concat, List.foldl_append, ih (by omega), List.foldl_cons, List.foldl_nil,
      written_concat]
    have hslot : p.slot (phys / p.tables.pageSize) (phys % p.tables.pageSize + bytes.length) =
        phys + bytes.length := by
      rw [Patch.slot, if_pos (by omega), ← Nat.add_assoc, Nat.mul_comm, Nat.div_add_mod]
    simp only [Patch.write, hm, hslot]

/-- **What the program leaves**, carried out to its end. -/
theorem after_patch (hphys : physFromVirt p.tables p.dst = some phys)
    (hpage : phys % p.tables.pageSize + p.src.length ≤ p.tables.pageSize) (m : Machine) :
    after (patchTextNosync p) (patchTextNosync p).length m = patched p phys m := by
  rw [after, List.take_length, patchTextNosync, hphys]
  simp only [List.foldl_append, List.foldl_cons, List.foldl_nil]
  rw [foldl_write hpage p.bytes (List.length_take_le' _ _) _ rfl]
  by_cases hall : p.src.length ≤ p.copied
  · simp [patched, hall]
  · simp [patched, hall, efault]

/-- **A CPU sees the patch undone or done.**  The target is mapped, and the patch lies within one
page.  Whatever the order in which the online CPUs run the callback, one that has not entered it sees
the machine as it was, and one that has left it sees the bytes that the copy wrote, the slot
unmapped and, if those are all, the caches cleaned; while the last CPU patches, every other one
spins. -/
theorem patch_atomic {P : State n Machine → Fin (n + 1) → Prop}
    (h : (patchText p n start).Reach P s) (hphys : physFromVirt p.tables p.dst = some phys)
    (hpage : phys % p.tables.pageSize + p.src.length ≤ p.tables.pageSize) (i : Fin (n + 1)) :
    (s.phase i = .outside → s.shared = start) ∧
    (s.phase i = .done → s.shared = patched p phys start) ∧
    ∀ k, s.phase i = .acting k → ∀ j ≠ i, s.phase j = .waiting := by
  have hmet := h.invariant (Rendezvous.met_invariant P)
  refine ⟨hmet.seen.1, ?_, ?_⟩
  · intro hi
    rw [hmet.seen.2 hi, after_patch hphys hpage]
  · intro k hi j hj
    exact hmet.others_wait hi hj

/-- **Every CPU returns from the rendezvous.**  The target is mapped, and the patch lies within one
page.  No order of steps lasts longer than a bound that
depends on the patch and on the number of CPUs only.  Where no CPU can move, each has left the
callback; the target then holds, at every offset, the bytes that the copy wrote, and the call
reports whether that is all of them. -/
theorem patch_completes (hphys : physFromVirt p.tables p.dst = some phys)
    (hpage : phys % p.tables.pageSize + p.src.length ≤ p.tables.pageSize)
    {as : List (Fin (n + 1))}
    (h : (patchText p n start).exec ⟨0, fun _ => .outside, start⟩ as = some s) :
    as.length ≤ (n + 1) * ((patchTextNosync p).length + 2) ∧
    ((∀ i, (patchText p n start).step s i = none) → (∀ i, s.phase i = .done) ∧
      s.shared.ret = (if p.src.length ≤ p.copied then 0 else -efault) ∧
      ∀ a, s.shared.phys a = written start.phys phys p.bytes a) := by
  have hreach : (patchText p n start).Reach Lts.anyStep s :=
    ⟨_, rfl, Lts.path_of_exec as _ s (fun _ _ _ => trivial) h⟩
  have hmet := hreach.invariant (Rendezvous.met_invariant Lts.anyStep)
  constructor
  · have hlen := Rendezvous.length_exec h
    have hrank : Rendezvous.rank (patchTextNosync p)
        (⟨0, fun _ => .outside, start⟩ : State n Machine) =
          (n + 1) * ((patchTextNosync p).length + 2) := by
      simp [Rendezvous.rank, Phase.rank]
    omega
  · intro hstuck
    have hdone := hmet.moves hstuck
    have hshared := (hmet.seen (i := 0)).2 (hdone 0)
    rw [after_patch hphys hpage] at hshared
    exact ⟨hdone, by rw [hshared]; rfl, fun a => by rw [hshared]; rfl⟩

/-- One page of 4 KiB, mapped one to one by a block entry of 2 MiB. -/
def blockTables : PageTables where
  pageShift := 12
  pmdShift := 21
  pudShift := 30
  p4dShift := 39
  pgdShift := 39
  pgd _ := ⟨false, false, false, 0⟩
  p4d _ := ⟨false, false, false, 0⟩
  pud _ := ⟨false, false, false, 0⟩
  pmd i := ⟨false, true, true, i * 2 ^ 21⟩
  pte _ := ⟨true, false, false, 0⟩
  pmd_le := by decide
  pud_le := by decide
  p4d_le := by decide
  pgd_le := by decide

/-- A pointer of the hook table is replaced. -/
def slotPatch : Patch := ⟨blockTables, 0x201010, [1, 2, 3, 4, 5, 6, 7, 8], false, true, 8, id⟩

/-- A machine at rest. -/
def quiet : Machine := ⟨fun _ => 0, none, false, false, 0⟩

/-- Three CPUs arrive, the second of them last, which patches; then all leave. -/
def threeCpus : List (Fin 3) := [0, 2, 1] ++ List.replicate 13 1 ++ [2, 0]

theorem exists_threeCpus : ∃ s : State 2 Machine,
    (patchText slotPatch 2 quiet).exec ⟨0, fun _ => .outside, quiet⟩ threeCpus = some s :=
  Option.isSome_iff_exists.mp (by decide +kernel)

theorem patch_atomic_slotPatch : ∃ s : State 2 Machine,
    (patchText slotPatch 2 quiet).exec ⟨0, fun _ => .outside, quiet⟩ threeCpus = some s ∧
    (s.phase 0 = .outside → s.shared = quiet) ∧
    (s.phase 0 = .done → s.shared = patched slotPatch 0x201010 quiet) ∧
    ∀ k, s.phase 0 = .acting k → ∀ j ≠ 0, s.phase j = .waiting := by
  obtain ⟨s, h⟩ := exists_threeCpus
  exact ⟨s, h, patch_atomic (P := Lts.anyStep)
    ⟨_, rfl, Lts.path_of_exec threeCpus _ s (fun _ _ _ => trivial) h⟩ rfl (by decide) 0⟩

theorem patch_completes_slotPatch : ∃ s : State 2 Machine,
    threeCpus.length ≤ (2 + 1) * ((patchTextNosync slotPatch).length + 2) ∧
    ((∀ i, (patchText slotPatch 2 quiet).step s i = none) → (∀ i, s.phase i = .done) ∧
      s.shared.ret = 0 ∧
      ∀ a, s.shared.phys a = written quiet.phys 0x201010 slotPatch.bytes a) := by
  obtain ⟨s, h⟩ := exists_threeCpus
  exact ⟨s, patch_completes rfl (by decide) h⟩

end YukiZygisk.PatchText
