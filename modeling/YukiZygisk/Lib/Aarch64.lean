/-
# A part of AArch64

Registers, a stack pointer, a thread pointer, two flags and a memory of bytes, with the
instructions that save, restore, load, add, compare and leave for one common label.

A frame is a list of slots, each a register and its offset from the stack pointer.  Saving and
restoring are done by lists of slots:

* `load_saves`: slots that do not overlap hold what was saved in them;
* `restores_eq`: a restore from such slots gives the registers back, and leaves the others;
* `run_reg`: a run changes only the registers that its instructions have as targets.

A register is named by `Reg`, which says how many bytes it takes in a frame.  Memory is a function
of the address, and a store of `n` bytes is seen by the load of the same bytes (`load_store_self`)
and by no load that does not overlap it (`store_of_le`).  The frame lemmas follow by induction on
the list of slots: a slot behind the head of the list is not touched by what is saved before it,
since the slots are apart, and the address of a slot is its offset from the stack pointer without
wrapping (`toNat_offset_sub`).

What a program does is told in two ways.  `Falls p m Q` says that `Q` holds at the end of a run of
`p` from `m` that is not left for the label; it is built up one instruction at a time (`falls_cons`,
`falls_append`).  And an instruction changes its own targets only (`exec_reg`), from which `run_reg`
follows whether the program falls through or leaves for its label.
-/
import Mathlib

namespace Aarch64

/-! ## 1. Memory -/

/-- A pointer, and what a general register holds. -/
abbrev Word := BitVec 64

/-- A memory of bytes. -/
abbrev Mem := Word → BitVec 8

/-- The `n` bytes at an address, the lowest first. -/
@[irreducible] def Mem.load (mem : Mem) (a : Word) (n : Nat) : BitVec (8 * n) :=
  BitVec.ofFnLE fun i => (mem (a + BitVec.ofNat 64 (i / 8))).getLsbD (i % 8)

/-- Store a value of `n` bytes, the lowest first. -/
def Mem.store {n : Nat} (mem : Mem) (a : Word) (v : BitVec (8 * n)) : Mem := fun b =>
  if (b - a).toNat < n then v.extractLsb' (8 * (b - a).toNat) 8 else mem b

/-- The 8 bytes at an address. -/
@[irreducible] def Mem.word (mem : Mem) (a : Word) : Word := mem.load a 8

variable {mem mem' : Mem} {a b sp : Word} {n k : Nat}

theorem load_congr (h : ∀ i < n, mem' (a + BitVec.ofNat 64 i) = mem (a + BitVec.ofNat 64 i)) :
    mem'.load a n = mem.load a n := by
  rw [Mem.load, Mem.load]
  congr 1
  funext i
  rw [h _ (by omega)]

theorem toNat_add_ofNat_sub (a : Word) {i : Nat} (hi : i < 2 ^ 64) :
    (a + BitVec.ofNat 64 i - a).toNat = i := by
  have : a + BitVec.ofNat 64 i - a = BitVec.ofNat 64 i := by
    rw [BitVec.add_comm, BitVec.add_sub_cancel]
  rw [this, BitVec.toNat_ofNat, Nat.mod_eq_of_lt hi]

/-- What was stored is loaded. -/
theorem load_store_self (v : BitVec (8 * n)) (hn : n ≤ 2 ^ 64) : (mem.store a v).load a n = v := by
  apply BitVec.eq_of_getLsbD_eq
  intro i hi
  have hbyte : i / 8 < n := by omega
  rw [Mem.load, BitVec.getLsbD_ofFnLE, dif_pos hi]
  dsimp only
  rw [Mem.store, toNat_add_ofNat_sub a (by omega), if_pos hbyte, BitVec.getLsbD_extractLsb']
  have hbit : 8 * (i / 8) + i % 8 = i := Nat.div_add_mod i 8
  simp [hbit, Nat.mod_lt]

/-- A store does not change the bytes behind it. -/
theorem store_of_le {v : BitVec (8 * n)} (h : n ≤ (b - a).toNat) : mem.store a v b = mem b :=
  if_neg (Nat.not_lt.2 h)

/-! ## 2. Registers and frames -/

/-- `x0` to `x30`, and `q0` to `q31`. -/
inductive Reg
  | x (i : Fin 31)
  | q (i : Fin 32)
  deriving DecidableEq

/-- The size of a register. -/
@[reducible] def Reg.bytes : Reg → Nat
  | .x _ => 8
  | .q _ => 16

/-- What the registers hold. -/
abbrev Regs := (r : Reg) → BitVec (8 * r.bytes)

/-- A register in a frame, with its offset from the stack pointer. -/
abbrev Slot := Reg × Nat

/-- Where a slot ends. -/
def Slot.stop (s : Slot) : Nat := s.2 + s.1.bytes

/-- Two slots do not overlap. -/
def Slot.Apart (s t : Slot) : Prop := s.stop ≤ t.2 ∨ t.stop ≤ s.2

instance (s t : Slot) : Decidable (s.Apart t) := inferInstanceAs (Decidable (_ ∨ _))

/-- Store the registers of some slots. -/
def saves (sp : Word) (reg : Regs) : List Slot → Mem → Mem
  | [], mem => mem
  | s :: l, mem => saves sp reg l (mem.store (sp + BitVec.ofNat 64 s.2) (reg s.1))

/-- Load the registers of some slots. -/
def restores (sp : Word) (mem : Mem) : List Slot → Regs → Regs
  | [], reg => reg
  | s :: l, reg => restores sp mem l
      (Function.update reg s.1 (mem.load (sp + BitVec.ofNat 64 s.2) s.1.bytes))

/-- The slots hold these registers. -/
def Holds (sp : Word) (mem : Mem) (reg : Regs) (l : List Slot) : Prop :=
  ∀ s ∈ l, mem.load (sp + BitVec.ofNat 64 s.2) s.1.bytes = reg s.1

variable {reg reg' : Regs} {l l' : List Slot} {size : Nat} {r : Reg}

theorem bytes_pos (r : Reg) : 0 < r.bytes := by cases r <;> simp

/-- Two lists of slots are saved one after the other. -/
theorem saves_append : saves sp reg (l ++ l') mem = saves sp reg l' (saves sp reg l mem) := by
  induction l generalizing mem with
  | nil => rfl
  | cons s l ih => exact ih

theorem restores_append : restores sp mem (l ++ l') reg =
    restores sp mem l' (restores sp mem l reg) := by
  induction l generalizing reg with
  | nil => rfl
  | cons s l ih => exact ih

/-- What is saved depends on the registers of the slots only. -/
theorem saves_congr (h : ∀ s ∈ l, reg s.1 = reg' s.1) :
    saves sp reg l mem = saves sp reg' l mem := by
  induction l generalizing mem with
  | nil => rfl
  | cons s l ih =>
    rw [saves, saves, h s List.mem_cons_self]
    exact ih fun t ht => h t (List.mem_cons_of_mem _ ht)

/-- Offsets from one base, as addresses. -/
theorem toNat_offset_sub (sp : Word) {i j : Nat} (hi : i < 2 ^ 64) (hj : j < 2 ^ 64) :
    (sp + BitVec.ofNat 64 i - (sp + BitVec.ofNat 64 j)).toNat = (2 ^ 64 - j + i) % 2 ^ 64 := by
  have hsub : sp + BitVec.ofNat 64 i - (sp + BitVec.ofNat 64 j) =
      BitVec.ofNat 64 i - BitVec.ofNat 64 j := by
    exact add_sub_add_left_eq_sub ..
  rw [hsub, BitVec.toNat_sub, BitVec.toNat_ofNat, BitVec.toNat_ofNat, Nat.mod_eq_of_lt hi,
    Nat.mod_eq_of_lt hj]

/-- What is outside of a frame stays as it is. -/
theorem saves_outside (hl : ∀ s ∈ l, s.stop ≤ size) (hsize : size ≤ 2 ^ 64)
    (ha : size ≤ (a - sp).toNat) : saves sp reg l mem a = mem a := by
  induction l generalizing mem with
  | nil => rfl
  | cons s l ih =>
    have hs : s.2 + s.1.bytes ≤ size := hl s List.mem_cons_self
    rw [saves, ih fun t ht => hl t (List.mem_cons_of_mem _ ht)]
    refine store_of_le ?_
    have hsub : a - (sp + BitVec.ofNat 64 s.2) = a - sp - BitVec.ofNat 64 s.2 := by
      rw [BitVec.sub_sub]
    have hpos := bytes_pos s.1
    have hlt : s.2 < 2 ^ 64 := by omega
    have := (a - sp).isLt
    rw [hsub, BitVec.toNat_sub, BitVec.toNat_ofNat, Nat.mod_eq_of_lt hlt]
    omega

/-- A slot of one frame is not changed by saving slots that are apart from it. -/
theorem load_saves_apart {s : Slot} (hs : s.stop ≤ 2 ^ 64) (hl : ∀ t ∈ l, t.stop ≤ 2 ^ 64)
    (hapart : ∀ t ∈ l, s.Apart t) :
    (saves sp reg l mem).load (sp + BitVec.ofNat 64 s.2) s.1.bytes =
      mem.load (sp + BitVec.ofNat 64 s.2) s.1.bytes := by
  induction l generalizing mem with
  | nil => rfl
  | cons t l ih =>
    rw [saves, ih (fun u hu => hl u (List.mem_cons_of_mem _ hu))
      fun u hu => hapart u (List.mem_cons_of_mem _ hu)]
    refine load_congr fun i hi => store_of_le ?_
    have ht := hl t List.mem_cons_self
    have hst := hapart t List.mem_cons_self
    have hpos := bytes_pos t.1
    simp only [Slot.stop, Slot.Apart] at hs ht hst
    have hadd : sp + BitVec.ofNat 64 s.2 + BitVec.ofNat 64 i = sp + BitVec.ofNat 64 (s.2 + i) := by
      rw [BitVec.add_assoc, ← BitVec.ofNat_add]
    rw [hadd, toNat_offset_sub sp (by omega) (by omega)]
    omega

/-- **Slots that do not overlap hold what was saved in them.** -/
theorem load_saves (hl : ∀ s ∈ l, s.stop ≤ 2 ^ 64) (hapart : l.Pairwise Slot.Apart) :
    Holds sp (saves sp reg l mem) reg l := by
  induction l generalizing mem with
  | nil => exact fun s hs => absurd hs List.not_mem_nil
  | cons s l ih =>
    rw [List.pairwise_cons] at hapart
    have hs := hl s List.mem_cons_self
    have htl : ∀ t ∈ l, t.stop ≤ 2 ^ 64 := fun t ht => hl t (List.mem_cons_of_mem _ ht)
    intro t ht
    rcases List.mem_cons.1 ht with rfl | ht
    · rw [saves, load_saves_apart hs htl hapart.1]
      have hle : t.2 + t.1.bytes ≤ 2 ^ 64 := hs
      exact load_store_self _ (by omega)
    · exact ih htl hapart.2 t ht

/-- What the slots hold outlives a change outside of the frame. -/
theorem Holds.congr (h : Holds sp mem reg l) (hl : ∀ s ∈ l, s.stop ≤ size)
    (hmem : ∀ i < size, mem' (sp + BitVec.ofNat 64 i) = mem (sp + BitVec.ofNat 64 i)) :
    Holds sp mem' reg l := by
  intro s hs
  have hstop : s.2 + s.1.bytes ≤ size := hl s hs
  refine (load_congr fun i hi => ?_).trans (h s hs)
  rw [BitVec.add_assoc, ← BitVec.ofNat_add]
  exact hmem _ (by omega)

/-- **A restore gives the registers back**, and leaves the others. -/
theorem restores_eq (h : Holds sp mem reg l) :
    restores sp mem l reg' r = if r ∈ l.map Prod.fst then reg r else reg' r := by
  induction l generalizing reg' with
  | nil => rfl
  | cons s l ih =>
    have hs := h s List.mem_cons_self
    rw [restores, ih fun t ht => h t (List.mem_cons_of_mem _ ht), hs]
    rw [List.map_cons]
    by_cases hr : r = s.1
    · subst hr
      rw [if_pos List.mem_cons_self, Function.update_self, ite_self]
    · rw [Function.update_of_ne hr]
      simp only [List.mem_cons, hr, false_or]

/-! ## 3. Instructions -/

/-- The state of one processor.  `tpidr` is the thread pointer, `z` and `c` are flags. -/
structure Machine where
  reg : Regs
  sp : Word
  tpidr : Word
  z : Bool
  c : Bool
  mem : Mem

/-- A general register. -/
def Machine.x (m : Machine) (i : Fin 31) : Word := m.reg (.x i)

def Machine.setX (m : Machine) (i : Fin 31) (v : Word) : Machine :=
  { m with reg := Function.update m.reg (.x i) v }

/-- A shifted operand. -/
@[irreducible] def lsl (v : Word) (shift : Nat) : Word := v <<< shift

/-- Compare two values. -/
def Machine.compare (m : Machine) (v w : Word) : Machine := { m with z := v = w, c := w ≤ v }

/-- The instructions, with registers by their numbers.  The branches go to one common label. -/
inductive Instr
  /-- `str` and `stp` to the frame. -/
  | save (slots : List Slot)
  /-- `ldr` and `ldp` from the frame. -/
  | restore (slots : List Slot)
  /-- `sub sp, sp, #n` -/
  | subSp (n : Word)
  /-- `add sp, sp, #n` -/
  | addSp (n : Word)
  /-- `mov d, sp` -/
  | movSp (d : Fin 31)
  /-- `ldr d, [base, #offset]`, also as `ldur` and `ldar` -/
  | ldr (d base : Fin 31) (offset : Word)
  /-- `ldp d, e, [base, #offset]` -/
  | ldp (d e base : Fin 31) (offset : Word)
  /-- `ldr d, [base, index, lsl #shift]` -/
  | ldrScaled (d base index : Fin 31) (shift : Nat)
  /-- `add d, n, k, lsl #shift` -/
  | add (d n k : Fin 31) (shift : Nat)
  /-- `sub d, n, k` -/
  | sub (d n k : Fin 31)
  /-- `adrp d, symbol`: the page of the symbol -/
  | adrp (d : Fin 31) (symbol : Word)
  /-- `add d, n, :lo12:symbol` -/
  | addLo12 (d n : Fin 31) (symbol : Word)
  /-- `mrs d, tpidr_el0` -/
  | mrs (d : Fin 31)
  /-- `cmp n, k` -/
  | cmp (n k : Fin 31)
  /-- `cmp n, #value` -/
  | cmpImm (n : Fin 31) (value : Word)
  /-- `b.ne label` -/
  | bne
  /-- `b.hs label` -/
  | bhs
  /-- `cbz n, label` -/
  | cbz (n : Fin 31)
  deriving DecidableEq

/-- `str r, [sp, #offset]` -/
def str (r : Reg) (offset : Nat) : Instr := .save [(r, offset)]

/-- `stp r, t, [sp, #offset]` -/
def stp (r t : Reg) (offset : Nat) : Instr := .save [(r, offset), (t, offset + r.bytes)]

/-- `ldr r, [sp, #offset]` -/
def ldrSp (r : Reg) (offset : Nat) : Instr := .restore [(r, offset)]

/-- `ldp r, t, [sp, #offset]` -/
def ldpSp (r t : Reg) (offset : Nat) : Instr := .restore [(r, offset), (t, offset + r.bytes)]

/-- What an instruction does when it does not leave. -/
def Instr.exec : Instr → Machine → Machine
  | .save slots, m => { m with mem := saves m.sp m.reg slots m.mem }
  | .restore slots, m => { m with reg := restores m.sp m.mem slots m.reg }
  | .subSp n, m => { m with sp := m.sp - n }
  | .addSp n, m => { m with sp := m.sp + n }
  | .movSp d, m => m.setX d m.sp
  | .ldr d base offset, m => m.setX d (m.mem.word (m.x base + offset))
  | .ldp d e base offset, m =>
    (m.setX d (m.mem.word (m.x base + offset))).setX e (m.mem.word (m.x base + offset + 8))
  | .ldrScaled d base index shift, m =>
    m.setX d (m.mem.word (m.x base + lsl (m.x index) shift))
  | .add d n k shift, m => m.setX d (m.x n + lsl (m.x k) shift)
  | .sub d n k, m => m.setX d (m.x n - m.x k)
  | .adrp d symbol, m => m.setX d (symbol - symbol % 4096)
  | .addLo12 d n symbol, m => m.setX d (m.x n + symbol % 4096)
  | .mrs d, m => m.setX d m.tpidr
  | .cmp n k, m => m.compare (m.x n) (m.x k)
  | .cmpImm n value, m => m.compare (m.x n) value
  | .bne, m => m
  | .bhs, m => m
  | .cbz _, m => m

/-- Whether an instruction leaves for the label. -/
def Instr.taken : Instr → Machine → Bool
  | .bne, m => !m.z
  | .bhs, m => m.c
  | .cbz n, m => m.x n = 0
  | _, _ => false

/-- Run a list of instructions: whether it was left for the label, and the state then. -/
def run : List Instr → Machine → Bool × Machine
  | [], m => (false, m)
  | i :: l, m => if i.taken m then (true, m) else run l (i.exec m)

/-- The registers that an instruction changes. -/
def Instr.targets : Instr → List Reg
  | .restore slots => slots.map Prod.fst
  | .movSp d | .ldr d _ _ | .ldrScaled d _ _ _ | .add d _ _ _ | .sub d _ _ | .adrp d _
  | .addLo12 d _ _ | .mrs d => [.x d]
  | .ldp d e _ _ => [.x d, .x e]
  | _ => []

/-- The slots that an instruction saves. -/
def Instr.saved : Instr → List Slot
  | .save slots => slots
  | _ => []

/-- The slots that an instruction restores. -/
def Instr.restored : Instr → List Slot
  | .restore slots => slots
  | _ => []

/-- Whether an instruction leaves the memory and the stack pointer as they are. -/
def Instr.quiet : Instr → Bool
  | .save _ | .subSp _ | .addSp _ => false
  | _ => true

variable {m m' : Machine} {p p' : List Instr} {i : Instr}

@[simp] theorem x_setX_self (m : Machine) (i : Fin 31) (v : Word) : (m.setX i v).x i = v :=
  Function.update_self ..

@[simp] theorem x_setX_of_ne {i j : Fin 31} (h : j ≠ i) (m : Machine) (v : Word) :
    (m.setX i v).x j = m.x j :=
  Function.update_of_ne (fun h' => h (Reg.x.inj h')) ..

@[simp] theorem lsl_zero (v : Word) : lsl v 0 = v := by
  rw [lsl, BitVec.shiftLeft_zero]

-- These are no proofs by `rfl`: a run would be compared with its result by unfolding both.

@[simp] theorem mem_setX (m : Machine) (i : Fin 31) (v : Word) : (m.setX i v).mem = m.mem := by
  rw [Machine.setX]

@[simp] theorem tpidr_setX (m : Machine) (i : Fin 31) (v : Word) :
    (m.setX i v).tpidr = m.tpidr := by
  rw [Machine.setX]

@[simp] theorem x_compare (m : Machine) (v w : Word) (i : Fin 31) :
    (m.compare v w).x i = m.x i := by
  rw [Machine.compare, Machine.x, Machine.x]

@[simp] theorem mem_compare (m : Machine) (v w : Word) : (m.compare v w).mem = m.mem := by
  rw [Machine.compare]

@[simp] theorem tpidr_compare (m : Machine) (v w : Word) : (m.compare v w).tpidr = m.tpidr := by
  rw [Machine.compare]

@[simp] theorem z_compare (m : Machine) (v w : Word) : (m.compare v w).z = decide (v = w) := by
  rw [Machine.compare]

@[simp] theorem c_compare (m : Machine) (v w : Word) : (m.compare v w).c = decide (w ≤ v) := by
  rw [Machine.compare]

theorem reg_setX {j : Fin 31} {v : Word} (h : r ≠ .x j) : (m.setX j v).reg r = m.reg r :=
  Function.update_of_ne h ..

/-- A program goes on into the next one unless it has left for its label. -/
theorem run_append (p p' : List Instr) (m : Machine) :
    run (p ++ p') m = if (run p m).1 then run p m else run p' (run p m).2 := by
  induction p generalizing m with
  | nil => rfl
  | cons i p ih =>
    rw [List.cons_append, run, run]
    by_cases h : i.taken m = true
    · rw [if_pos h, if_pos h, if_pos rfl]
    · rw [if_neg h, if_neg h, ih]

/-- What holds at the end of a run that is not left for the label. -/
def Falls (p : List Instr) (m : Machine) (Q : Machine → Prop) : Prop :=
  (run p m).1 = false → Q (run p m).2

theorem falls_nil {Q : Machine → Prop} (h : Q m) : Falls [] m Q := fun _ => h

/-- The first instruction is not taken, and the rest goes on from what it leaves. -/
theorem falls_cons {Q : Machine → Prop} (h : i.taken m = false → Falls p (i.exec m) Q) :
    Falls (i :: p) m Q := by
  intro hrun
  rw [run] at hrun ⊢
  split_ifs at hrun ⊢ with ht
  exact h (Bool.not_eq_true _ ▸ ht) hrun

/-- Falling through two programs one after the other. -/
theorem falls_append {Q : Machine → Prop} (h : Falls p m fun m' => Falls p' m' Q) :
    Falls (p ++ p') m Q := by
  intro hrun
  rw [run_append] at hrun ⊢
  cases hp : (run p m).1 with
  | true => rw [if_pos hp, hp] at hrun; cases hrun
  | false =>
    rw [if_neg (by simp [hp])] at hrun ⊢
    exact h hp hrun

/-- An instruction changes its targets only. -/
theorem exec_reg (h : r ∉ i.targets) : (i.exec m).reg r = m.reg r := by
  cases i with
  | restore slots =>
    rw [Instr.targets] at h
    rw [Instr.exec]
    dsimp only
    generalize m.reg = reg
    induction slots generalizing reg with
    | nil => rfl
    | cons s l ih =>
      rw [List.map_cons, List.mem_cons, not_or] at h
      rw [restores, ih h.2, Function.update_of_ne h.1]
  | ldp d e base offset =>
    simp only [Instr.targets, List.mem_cons, List.not_mem_nil, or_false, not_or] at h
    rw [Instr.exec, reg_setX h.2, reg_setX h.1]
  | movSp | ldr | ldrScaled | add | sub | adrp | addLo12 | mrs =>
    simp only [Instr.targets, List.mem_singleton] at h
    exact reg_setX h
  | save | subSp | addSp | cmp | cmpImm | bne | bhs | cbz => rfl

/-- **A run changes the targets of its instructions only.** -/
theorem run_reg (h : r ∉ p.flatMap Instr.targets) : (run p m).2.reg r = m.reg r := by
  induction p generalizing m with
  | nil => rfl
  | cons i p ih =>
    rw [List.flatMap_cons, List.mem_append, not_or] at h
    rw [run]
    split_ifs
    · rfl
    · rw [ih h.2, exec_reg h.1]

/-- A quiet instruction leaves the memory and the stack pointer alone. -/
theorem exec_quiet (h : i.quiet = true) : (i.exec m).mem = m.mem ∧ (i.exec m).sp = m.sp := by
  cases i with
  | save | subSp | addSp => cases h
  | _ => exact ⟨rfl, rfl⟩

theorem run_quiet (h : p.all Instr.quiet = true) :
    (run p m).2.mem = m.mem ∧ (run p m).2.sp = m.sp := by
  induction p generalizing m with
  | nil => exact ⟨rfl, rfl⟩
  | cons i p ih =>
    rw [List.all_cons, Bool.and_eq_true] at h
    rw [run]
    split_ifs
    · exact ⟨rfl, rfl⟩
    · obtain ⟨hmem, hsp⟩ := exec_quiet (m := m) h.1
      rw [← hmem, ← hsp]
      exact ih h.2

/-- No instruction writes the thread pointer. -/
theorem exec_tpidr (i : Instr) (m : Machine) : (i.exec m).tpidr = m.tpidr := by
  cases i <;> rfl

/-- Nothing changes the thread pointer. -/
theorem run_tpidr (p : List Instr) (m : Machine) : (run p m).2.tpidr = m.tpidr := by
  induction p generalizing m with
  | nil => rfl
  | cons i p ih =>
    rw [run]
    split_ifs
    · rfl
    · rw [ih, exec_tpidr]

/-- A run of saves. -/
theorem run_saves (h : ∀ i ∈ p, i = .save i.saved) (m : Machine) :
    run p m = (false, { m with mem := saves m.sp m.reg (p.flatMap Instr.saved) m.mem }) := by
  induction p generalizing m with
  | nil => rfl
  | cons i p ih =>
    rw [List.flatMap_cons, saves_append, run, h i List.mem_cons_self,
      if_neg (by simp [Instr.taken]), ih fun j hj => h j (List.mem_cons_of_mem _ hj)]
    rfl

/-- A run of restores. -/
theorem run_restores (h : ∀ i ∈ p, i = .restore i.restored) (m : Machine) :
    run p m =
      (false, { m with reg := restores m.sp m.mem (p.flatMap Instr.restored) m.reg }) := by
  induction p generalizing m with
  | nil => rfl
  | cons i p ih =>
    rw [List.flatMap_cons, restores_append, run, h i List.mem_cons_self,
      if_neg (by simp [Instr.taken]), ih fun j hj => h j (List.mem_cons_of_mem _ hj)]
    rfl

end Aarch64
