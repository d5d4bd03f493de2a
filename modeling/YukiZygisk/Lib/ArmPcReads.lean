/-
# The ARM instructions that read the program counter

The encodings of A64, T32 and A32 in which an instruction reads the program counter: direct
branches, addresses and literals relative to it, and operands that name it as a register.  Each is a
diagram of the manuals, with the bits that make a register field the program counter fixed.  The
other ways to take it are in lists of their own: a call through a register leaves a return address,
a store may store it, and a table may be branched through.

What instructions do is a parameter: a `Machine` says what one does at an address, and that the
`IT` blocks of T32 are counted as the manuals say.  A copy of some instructions, with a jump behind
it to what followed them, runs as they do when none of them depends on its place and no `IT` block
is open at the end, where it would make the jump conditional (`Machine.runCopy_eq`).  For the
machines in which only instructions of the lists depend on their place, these two conditions are
necessary (`relocates_iff`).

The argument for `relocates_iff` has two directions.  That the conditions are enough is an induction
on the instructions: each has the same effect in both places, because no instruction of the copy
depends on its place, and what leaves the copy leaves it for the same address.  That they are
necessary is shown by one machine, `placeMachine`, which writes down the place of each instruction
that takes the program counter, and whose jump misses inside of a block.  Its runs in place and in
the copy are computed (`placeMachine_run`, `placeMachine_runCopy`); if they agree, no instruction
was written down (`places_ne`) and no block was open.
-/
import YukiZygisk.Lib.Encodings

namespace ArmPcReads

open Encodings

/-! ## 1. A64 -/

def a64 : List Diagram :=
  ["xxx10000xxxxxxxxxxxxxxxxxxxxxxxx".toList, -- ADR, ADRP
    "x00101xxxxxxxxxxxxxxxxxxxxxxxxxx".toList, -- B, BL
    "01010100xxxxxxxxxxxxxxxxxxx0xxxx".toList, -- B.cond
    "x011010xxxxxxxxxxxxxxxxxxxxxxxxx".toList, -- CBZ, CBNZ
    "x011011xxxxxxxxxxxxxxxxxxxxxxxxx".toList, -- TBZ, TBNZ
    "xx011x00xxxxxxxxxxxxxxxxxxxxxxxx".toList] -- LDR, LDRSW, PRFM (literal)

/-! ## 2. T32, in one half-word and in two -/

def t16 : List Diagram :=
  ["10100xxxxxxxxxxx".toList, -- ADR (T1)
    "01001xxxxxxxxxxx".toList, -- LDR (literal, T1)
    "1101xxxxxxxxxxxx".toList, -- B (T1)
    "11100xxxxxxxxxxx".toList, -- B (T2)
    "1011x0x1xxxxxxxx".toList, -- CBZ, CBNZ
    "010001xxx1111xxx".toList, -- ADD, CMP, MOV, BX, BLX with the program counter as Rm
    "0100010x1xxxx111".toList, -- ADD, CMP with it as Rdn
    "010001101xxxx111".toList] -- MOV with it as Rd

/-- The branches and the load of a word. -/
def t32Common : List (Diagram × Diagram) :=
  [("11111000x1011111".toList, "xxxxxxxxxxxxxxxx".toList), -- LDR (literal, T2)
    ("11110xxxxxxxxxxx".toList, "10x0xxxxxxxxxxxx".toList), -- B (T3)
    ("11110xxxxxxxxxxx".toList, "10x1xxxxxxxxxxxx".toList), -- B (T4)
    ("11110xxxxxxxxxxx".toList, "11x1xxxxxxxxxxxx".toList), -- BL
    ("11110xxxxxxxxxxx".toList, "11x0xxxxxxxxxxx0".toList)] -- BLX

/-- The wide addresses, and the literal loads of the other widths. -/
def t32Other : List (Diagram × Diagram) :=
  [("11110x1010101111".toList, "0xxxxxxxxxxxxxxx".toList), -- ADR (T2)
    ("11110x1000001111".toList, "0xxxxxxxxxxxxxxx".toList), -- ADR (T3)
    ("11111000x0011111".toList, "xxxxxxxxxxxxxxxx".toList), -- LDRB (literal)
    ("11111000x0111111".toList, "xxxxxxxxxxxxxxxx".toList), -- LDRH (literal)
    ("11111001x0011111".toList, "xxxxxxxxxxxxxxxx".toList), -- LDRSB (literal)
    ("11111001x0111111".toList, "xxxxxxxxxxxxxxxx".toList), -- LDRSH (literal)
    ("11101001x1011111".toList, "xxxxxxxxxxxxxxxx".toList), -- LDRD (literal)
    ("11101101xx011111".toList, "xxxx101xxxxxxxxx".toList), -- VLDR (literal)
    ("111x1101xxx11111".toList, "xxxxxxxxxxxxxxxx".toList)] -- LDC, LDC2 (literal)

/-! ## 3. A32 -/

/-- `B`, `BL` and `BLX` to an offset; all conditions, and the unconditional form. -/
def a32Branch : Diagram := "xxxx101xxxxxxxxxxxxxxxxxxxxxxxxx".toList

/-- The unconditional encodings, in which the other diagrams mean something else. -/
def a32Unconditional : Diagram := "1111xxxxxxxxxxxxxxxxxxxxxxxxxxxx".toList

/-- `BX` and `BLX` to the program counter. -/
def a32Exchange : List Diagram :=
  ["xxxx0001001011111111111100011111".toList, "xxxx0001001011111111111100111111".toList]

/-- Rn is the program counter. -/
def a32Rn : Diagram := "xxxxxxxxxxxx1111xxxxxxxxxxxxxxxx".toList

/-- The operations of data processing: all but those that compare and do not set the flags, which
encode other instructions. -/
def a32Opcodes : List Diagram := ["0xxxx".toList, "11xxx".toList, "10xx1".toList]

/-- Data processing, loads and stores, with the program counter as Rn. -/
def a32RnReads : List Diagram :=
  (a32Opcodes.flatMap fun opcode =>
    ["xxxx000".toList ++ opcode ++ "1111xxxxxxxxxxx0xxxx".toList, -- Rm, shifted by a constant
      "xxxx000".toList ++ opcode ++ "1111xxxxxxxx0xx1xxxx".toList, -- Rm, shifted by a register
      "xxxx001".toList ++ opcode ++ "1111xxxxxxxxxxxxxxxx".toList]) ++ -- a constant
    ["xxxx000xxxxx1111xxxxxxxx1011xxxx".toList, -- LDRH, STRH
      "xxxx000xxxxx1111xxxxxxxx11x1xxxx".toList, -- LDRD, STRD, LDRSB, LDRSH
      "xxxx010xxxxx1111xxxxxxxxxxxxxxxx".toList, -- LDR, STR, LDRB, STRB
      "xxxx011xxxxx1111xxxxxxxxxxx0xxxx".toList, -- the same with an offset in a register
      "xxxx110xxxxx1111xxxxxxxxxxxxxxxx".toList] -- LDC, STC, VLDR, VSTR

/-- Loads and stores of many registers, with the program counter as Rn. -/
def a32Block : Diagram := "xxxx100xxxxx1111xxxxxxxxxxxxxxxx".toList

/-- Data processing, loads and stores, with the program counter as Rm. -/
def a32RmReads : List Diagram :=
  (a32Opcodes.flatMap fun opcode =>
    ["xxxx000".toList ++ opcode ++ "xxxxxxxxxxxxxxx01111".toList,
      "xxxx000".toList ++ opcode ++ "xxxxxxxxxxxx0xx11111".toList]) ++
    ["xxxx000xx0xxxxxxxxxxxxxx10111111".toList,
      "xxxx000xx0xxxxxxxxxxxxxx11x11111".toList,
      "xxxx011xxxxxxxxxxxxxxxxxxxx01111".toList]

/-! ## 4. Other uses -/

/-- `BLR`, and `BC.cond`. -/
def a64Other : List Diagram :=
  ["1101011x001xxxxxxxxxxxxxxxxxxxxx".toList, "01010100xxxxxxxxxxxxxxxxxxx1xxxx".toList]

/-- `BLX` to a register; and the branches through a table, `TBB` and `TBH`. -/
def t16Other : Diagram := "010001111xxxx000".toList

def t32Table : Diagram × Diagram := ("111010001101xxxx".toList, "11110000000xxxxx".toList)

/-- `BLX` to a register, `STM` and `PUSH` of it, and `STR` of it. -/
def a32Other : List Diagram :=
  ["xxxx000100101111111111110011xxxx".toList,
    "xxxx100xxxx0xxxx1xxxxxxxxxxxxxxx".toList,
    "xxxx010xx0x0xxxx1111xxxxxxxxxxxx".toList,
    "xxxx011xx0x0xxxx1111xxxxxxx0xxxx".toList]

/-! ## 5. Instructions -/

/-- An instruction of one of the encodings. -/
inductive Instr where
  | a64 (w : UInt32)
  | a32 (w : UInt32)
  | t16 (h : UInt16)
  | t32 (first second : UInt16)
  deriving DecidableEq

/-- Whether an instruction reads the program counter, by its encoding. -/
def Instr.ReadsPc : Instr → Prop
  | .a64 w => ∃ p ∈ ArmPcReads.a64, Matches p w.toNat
  | .a32 w => Matches a32Branch w.toNat ∨ ¬ Matches a32Unconditional w.toNat ∧
      ((∃ p ∈ a32Exchange, Matches p w.toNat) ∨ Matches a32Block w.toNat ∨
        (∃ p ∈ a32RnReads, Matches p w.toNat) ∨ ∃ p ∈ a32RmReads, Matches p w.toNat)
  | .t16 h => ∃ p ∈ ArmPcReads.t16, Matches p h.toNat
  | .t32 first second =>
      (∃ p ∈ t32Common, Matches p.1 first.toNat ∧ Matches p.2 second.toNat) ∨
        ∃ p ∈ t32Other, Matches p.1 first.toNat ∧ Matches p.2 second.toNat

/-- Whether it takes the program counter in one of the other ways. -/
def Instr.KeepsPc : Instr → Prop
  | .a64 w => ∃ p ∈ a64Other, Matches p w.toNat
  | .a32 w => ¬ Matches a32Unconditional w.toNat ∧ ∃ p ∈ a32Other, Matches p w.toNat
  | .t16 h => Matches t16Other h.toNat
  | .t32 first second => Matches t32Table.1 first.toNat ∧ Matches t32Table.2 second.toNat

instance : DecidablePred Instr.ReadsPc
  | .a64 _ => inferInstanceAs (Decidable (∃ p ∈ ArmPcReads.a64, _))
  | .a32 _ => inferInstanceAs (Decidable (_ ∨ _ ∧ (_ ∨ _ ∨ _ ∨ _)))
  | .t16 _ => inferInstanceAs (Decidable (∃ p ∈ ArmPcReads.t16, _))
  | .t32 _ _ => inferInstanceAs (Decidable (_ ∨ _))

instance : DecidablePred Instr.KeepsPc
  | .a64 _ => inferInstanceAs (Decidable (∃ p ∈ a64Other, _))
  | .a32 _ => inferInstanceAs (Decidable (_ ∧ ∃ p ∈ a32Other, _))
  | .t16 h => inferInstanceAs (Decidable (Matches t16Other h.toNat))
  | .t32 _ _ => inferInstanceAs (Decidable (_ ∧ _))

def Instr.size : Instr → ℕ
  | .a64 _ | .a32 _ | .t32 _ _ => 4
  | .t16 _ => 2

/-- The bytes of some instructions. -/
def codeSize (l : List Instr) : ℕ := (l.map Instr.size).sum

@[simp] theorem codeSize_nil : codeSize [] = 0 := rfl

@[simp] theorem codeSize_cons (i : Instr) (l : List Instr) :
    codeSize (i :: l) = i.size + codeSize l := by
  simp only [codeSize, List.map_cons, List.sum_cons]

theorem codeSize_even (l : List Instr) : codeSize l % 2 = 0 := by
  induction l with
  | nil => rfl
  | cons i l ih =>
    have hsize : i.size % 2 = 0 := by cases i <;> simp only [Instr.size]
    rw [codeSize_cons]
    omega

/-! ## 6. IT blocks -/

/-- How many of the instructions behind it an `IT` makes conditional: its mask ends with a 1 and the
zeros of those that it does not.  A hint has an empty mask, and other half-words are no `IT`. -/
def itLength (h : UInt16) : ℕ :=
  if h &&& 0xff00 = 0xbf00 then
    if h &&& 1 ≠ 0 then 4
    else if h &&& 2 ≠ 0 then 3
    else if h &&& 4 ≠ 0 then 2
    else if h &&& 8 ≠ 0 then 1
    else 0
  else 0

/-- What is left of a block after an instruction. -/
def Instr.itAfter (left : ℕ) : Instr → ℕ
  | .t16 h => if itLength h = 0 then left - 1 else itLength h
  | _ => left - 1

/-- What is left of the blocks of some instructions behind them. -/
def itLeft (l : List Instr) : ℕ := l.foldl Instr.itAfter 0

/-- There are no `IT` blocks in A32. -/
theorem itLeft_a32 (l : List UInt32) : itLeft (l.map .a32) = 0 := by
  rw [itLeft, List.foldl_map]
  induction l with
  | nil => rfl
  | cons w l ih => exact ih

/-! ## 7. Running at another place -/

/-- What an instruction does: control goes on behind it, or to an address. -/
inductive Outcome (σ : Type*) where
  | next (s : σ)
  | goto (s : σ) (address : ℕ)

/-- A meaning of the instructions.  `effect` is what one does at an address, `jump` what a jump to an
address does, and `left` what is left of the open `IT` block.  By the manuals an `IT` opens a block
and each other instruction takes one off it, and outside of a block a jump jumps. -/
structure Machine (σ : Type*) where
  effect : ℕ → Instr → σ → Outcome σ
  jump : ℕ → σ → σ × ℕ
  left : σ → ℕ
  left_next : ∀ pc i s s', effect pc i s = .next s' → left s' = i.itAfter (left s)
  jump_outside : ∀ dest s, left s = 0 → jump dest s = (s, dest)

namespace Machine

variable {σ : Type*} (M : Machine σ)

/-- An instruction does not do the same everywhere. -/
def DependsOnPlace (i : Instr) : Prop := ∃ pc pc' s, M.effect pc i s ≠ M.effect pc' i s

/-- Run instructions one after the other from an address on: the state, and where control is. -/
def run : ℕ → List Instr → σ → σ × ℕ
  | pc, [], s => (s, pc)
  | pc, i :: l, s =>
    match M.effect pc i s with
    | .next s' => run (pc + i.size) l s'
    | .goto s' address => (s', address)

/-- Run a copy of the instructions at some place, and the jump to `dest` behind it. -/
def runCopy (dest : ℕ) : ℕ → List Instr → σ → σ × ℕ
  | _, [], s => M.jump dest s
  | place, i :: l, s =>
    match M.effect place i s with
    | .next s' => runCopy dest (place + i.size) l s'
    | .goto s' address => (s', address)

variable {M} {l : List Instr} {s : σ}

/-- **A copy does what the instructions do in place**, if each does the same everywhere and no block
is open behind them.  The jump goes to what follows them. -/
theorem runCopy_eq (hfree : ∀ i ∈ l, ¬ M.DependsOnPlace i)
    (hleft : l.foldl Instr.itAfter (M.left s) = 0) (place pc : ℕ) :
    M.runCopy (pc + codeSize l) place l s = M.run pc l s := by
  induction l generalizing s place pc with
  | nil => exact M.jump_outside _ _ hleft
  | cons i l ih =>
    have hsame : M.effect place i s = M.effect pc i s := by
      by_contra hne
      exact hfree i List.mem_cons_self ⟨place, pc, s, hne⟩
    rw [runCopy, run, hsame]
    cases heffect : M.effect pc i s with
    | goto s' address => rfl
    | next s' =>
      have hrest : l.foldl Instr.itAfter (M.left s') = 0 := by
        rw [M.left_next pc i s s' heffect]
        exact hleft
      have htail := ih (fun j hj => hfree j (List.mem_cons_of_mem i hj)) hrest
        (place + i.size) (pc + i.size)
      rw [Nat.add_assoc, ← codeSize_cons] at htail
      exact htail

end Machine

/-- **Some instructions can be run at another place**: for every meaning of them in which only those
of the lists depend on their place, a copy of them does everywhere what they do in place, from every
state outside of an `IT` block. -/
def Relocates (pc : ℕ) (l : List Instr) : Prop :=
  ∀ (σ : Type) (M : Machine σ),
    (∀ i ∈ l, M.DependsOnPlace i → i.ReadsPc ∨ i.KeepsPc) → ∀ place s, M.left s = 0 →
      M.runCopy (pc + codeSize l) place l s = M.run pc l s

/-! ### A machine that shows its places -/

/-- The places of some instructions that take the program counter. -/
def places : ℕ → List Instr → List ℕ
  | _, [] => []
  | pc, i :: l => (if i.ReadsPc ∨ i.KeepsPc then pc else 0) :: places (pc + i.size) l

/-- The machine that writes down where it runs an instruction which takes the program counter, and
whose jump misses inside a block. -/
def placeMachine : Machine (List ℕ × ℕ) where
  effect pc i s :=
    .next (s.1 ++ [if i.ReadsPc ∨ i.KeepsPc then pc else 0], i.itAfter s.2)
  jump dest s := (s, if s.2 = 0 then dest else dest + 1)
  left s := s.2
  left_next pc i s s' h := by
    obtain rfl := Outcome.next.inj h
    rfl
  jump_outside dest s h := by rw [if_pos h]

variable {l : List Instr}

/-- Only the listed instructions depend on their place in this machine. -/
theorem placeMachine_depends {i : Instr} (h : placeMachine.DependsOnPlace i) :
    i.ReadsPc ∨ i.KeepsPc := by
  by_contra hnot
  obtain ⟨pc, pc', s, hne⟩ := h
  refine hne ?_
  simp only [placeMachine, if_neg hnot]

theorem placeMachine_run (pc : ℕ) (l : List Instr) (s : List ℕ × ℕ) :
    placeMachine.run pc l s =
      ((s.1 ++ places pc l, l.foldl Instr.itAfter s.2), pc + codeSize l) := by
  induction l generalizing pc s with
  | nil => simp [Machine.run, places]
  | cons i l ih =>
    have hstep : placeMachine.run pc (i :: l) s = placeMachine.run (pc + i.size) l
        (s.1 ++ [if i.ReadsPc ∨ i.KeepsPc then pc else 0], i.itAfter s.2) := rfl
    rw [hstep, ih, codeSize_cons, places, List.foldl_cons, List.append_assoc,
      List.singleton_append, Nat.add_assoc]

/-- What it writes down in the copy, and where it goes on. -/
theorem placeMachine_runCopy (dest place : ℕ) (l : List Instr) (s : List ℕ × ℕ) :
    placeMachine.runCopy dest place l s =
      ((s.1 ++ places place l, l.foldl Instr.itAfter s.2),
        if l.foldl Instr.itAfter s.2 = 0 then dest else dest + 1) := by
  induction l generalizing place s with
  | nil =>
    rw [places, List.append_nil]
    rfl
  | cons i l ih =>
    have hstep : placeMachine.runCopy dest place (i :: l) s =
        placeMachine.runCopy dest (place + i.size) l
          (s.1 ++ [if i.ReadsPc ∨ i.KeepsPc then place else 0], i.itAfter s.2) := rfl
    rw [hstep, ih, places, List.foldl_cons, List.append_assoc, List.singleton_append]

/-- Instructions that take the program counter are seen at two places. -/
theorem places_ne {pc pc' : ℕ} (hne : pc ≠ pc') (h : places pc l = places pc' l) :
    ∀ i ∈ l, ¬ (i.ReadsPc ∨ i.KeepsPc) := by
  induction l generalizing pc pc' with
  | nil => exact fun i hi => absurd hi List.not_mem_nil
  | cons j l ih =>
    obtain ⟨hhead, htail⟩ := List.cons.inj h
    intro i hi
    rcases List.mem_cons.mp hi with rfl | hi
    · intro htakes
      rw [if_pos htakes, if_pos htakes] at hhead
      exact hne hhead
    · exact ih (by omega) htail i hi

/-- **Instructions can be run at another place exactly when none takes the program counter and no
block is open behind them.** -/
theorem relocates_iff (pc : ℕ) :
    Relocates pc l ↔ (∀ i ∈ l, ¬ i.ReadsPc ∧ ¬ i.KeepsPc) ∧ itLeft l = 0 := by
  constructor
  · intro h
    have hrun := h _ placeMachine (fun i _ => placeMachine_depends) (pc + 1) ([], 0) rfl
    rw [placeMachine_run, placeMachine_runCopy] at hrun
    obtain ⟨hstate, hdest⟩ := Prod.mk.inj hrun
    obtain ⟨hplaces, -⟩ := Prod.mk.inj hstate
    change (if itLeft l = 0 then pc + codeSize l else pc + codeSize l + 1) = _ at hdest
    refine ⟨fun i hi => not_or.mp ?_, ?_⟩
    · exact places_ne (Nat.succ_ne_self pc) hplaces i hi
    · by_contra hleft
      rw [if_neg hleft] at hdest
      omega
  · rintro ⟨hfree, hleft⟩ σ M honly place s hs
    have hclosed : l.foldl Instr.itAfter (M.left s) = 0 := by
      rw [hs]
      exact hleft
    refine Machine.runCopy_eq (fun i hi hdepends => ?_) hclosed place pc
    rcases honly i hi hdepends with h | h
    · exact (hfree i hi).1 h
    · exact (hfree i hi).2 h

end ArmPcReads
