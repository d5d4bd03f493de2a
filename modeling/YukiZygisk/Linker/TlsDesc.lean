/-
# The TLSDESC resolver (`zygisk/core/src/yukilinker_tlsdesc.S`)

The code that the compiler emits around a TLS descriptor expects every register but `x0` to survive
the call.  `yuki_tlsdesc_dynamic_entry` walks the tables of the thread by itself, in five
registers that it saves in a frame of 64 bytes.  At the first check that fails it puts all of them
back and goes to its slow path, which saves whatever a C++ function may change and calls
`yuki_tlsdesc_dynamic_body`.

`dynamicEntry_returns`: with any state of the thread the two paths return the same, the answer of
`yuki_tls_get_addr` minus the thread pointer, and both keep the other registers.

The program is a list of instructions of `Lib/Aarch64`, in the order of the source, and the tables
are described by what must be read where (`BlockFound`, `Represents`).  The walk has a check in
front of each read (`readKey_spec`, `readBlock_spec`), and when it falls through it has found the
block that the model of `Tls.lean` finds (`walk_spec`, `fastPath_of_found`).  Both frames are lists
of slots that are apart, so what was saved is restored (`restores_eq` of the library), and every
register that is not a caller's is neither a target nor changed by the body, by the calling
convention (`Conforms`).  The slow path is entered with the registers as at the start, for the first
frame has been undone (`leave_scratch`).
-/
import Mathlib
import YukiZygisk.Lib.Aarch64
import YukiZygisk.Linker.Tls

namespace YukiZygisk.Linker

open Aarch64 hiding Word

/-! ## 1. The program -/

/-- The frame of the fast path. -/
def saveScratch : List Instr :=
  [.subSp 64, stp (.x 19) (.x 20) 0, stp (.x 21) (.x 22) 16, str (.x 23) 32, str (.x 0) 40]

/-- The state of the thread, from the key data of bionic. -/
def readKey (fastConfig : Word) : List Instr :=
  [.adrp 19 fastConfig, .addLo12 19 19 fastConfig,
   .ldr 20 19 0, .cmpImm 20 1, .bne,
   .ldp 20 21 19 8, .mrs 19, .ldr 22 19 (-8), .cbz 22,
   .add 22 22 20 4, .ldr 20 22 0, .cmp 20 21, .bne,
   .ldr 20 22 8, .cbz 20]

/-- The block of the module, from the state of the thread. -/
def readBlock : List Instr :=
  [.ldr 23 0 8, .ldp 21 22 23 0, .ldr 23 23 16,
   .ldr 0 20 0, .cmp 21 0, .bhs,
   .ldr 20 20 8, .cbz 20,
   .ldrScaled 20 20 21 3, .cbz 20,
   .ldr 0 20 0, .cmp 0 23, .bne,
   .ldr 20 20 8, .cbz 20]

/-- The address, from the thread pointer on. -/
def tlsAddress : List Instr := [.add 0 20 22 0, .sub 0 0 19]

def restoreScratch : List Instr :=
  [ldpSp (.x 21) (.x 22) 16, ldrSp (.x 23) 32, ldpSp (.x 19) (.x 20) 0, .addSp 64]

/-- `.Ldynamic_fallback`. -/
def dynamicFallback : List Instr := ldrSp (.x 0) 40 :: restoreScratch

/-- The frame of `.Ldynamic_slow`. -/
def saveCaller : List Instr :=
  [stp (.x 1) (.x 2) 16, stp (.x 3) (.x 4) 32, stp (.x 5) (.x 6) 48, stp (.x 7) (.x 8) 64,
   stp (.x 9) (.x 10) 80, stp (.x 11) (.x 12) 96, stp (.x 13) (.x 14) 112,
   stp (.x 15) (.x 16) 128, str (.x 17) 144,
   stp (.q 0) (.q 1) 160, stp (.q 2) (.q 3) 192, stp (.q 4) (.q 5) 224, stp (.q 6) (.q 7) 256,
   stp (.q 8) (.q 9) 288, stp (.q 10) (.q 11) 320, stp (.q 12) (.q 13) 352,
   stp (.q 14) (.q 15) 384, stp (.q 16) (.q 17) 416, stp (.q 18) (.q 19) 448,
   stp (.q 20) (.q 21) 480, stp (.q 22) (.q 23) 512, stp (.q 24) (.q 25) 544,
   stp (.q 26) (.q 27) 576, stp (.q 28) (.q 29) 608, stp (.q 30) (.q 31) 640]

def enterSlow : List Instr := [.subSp 672, stp (.x 29) (.x 30) 0, .movSp 29]

def restoreCaller : List Instr :=
  [ldpSp (.q 30) (.q 31) 640, ldpSp (.q 28) (.q 29) 608, ldpSp (.q 26) (.q 27) 576,
   ldpSp (.q 24) (.q 25) 544, ldpSp (.q 22) (.q 23) 512, ldpSp (.q 20) (.q 21) 480,
   ldpSp (.q 18) (.q 19) 448, ldpSp (.q 16) (.q 17) 416, ldpSp (.q 14) (.q 15) 384,
   ldpSp (.q 12) (.q 13) 352, ldpSp (.q 10) (.q 11) 320, ldpSp (.q 8) (.q 9) 288,
   ldpSp (.q 6) (.q 7) 256, ldpSp (.q 4) (.q 5) 224, ldpSp (.q 2) (.q 3) 192,
   ldpSp (.q 0) (.q 1) 160,
   ldrSp (.x 17) 144, ldpSp (.x 15) (.x 16) 128, ldpSp (.x 13) (.x 14) 112,
   ldpSp (.x 11) (.x 12) 96, ldpSp (.x 9) (.x 10) 80, ldpSp (.x 7) (.x 8) 64,
   ldpSp (.x 5) (.x 6) 48, ldpSp (.x 3) (.x 4) 32, ldpSp (.x 1) (.x 2) 16,
   ldpSp (.x 29) (.x 30) 0]

/-- `.Ldynamic_slow`.  `body` is `yuki_tlsdesc_dynamic_body` as it was compiled, and `link` the
address after the `bl`. -/
def dynamicSlow (body : Machine → Machine) (link : Word) (m : Machine) : Machine :=
  (run (restoreCaller ++ [.addSp 672])
    (body ((run (enterSlow ++ saveCaller) m).2.setX 30 link))).2

/-- `yuki_tlsdesc_dynamic_entry`: the state at the `ret`, which goes to `x30`. -/
def yukiTlsdescDynamicEntry (fastConfig : Word) (body : Machine → Machine) (link : Word)
    (m : Machine) : Machine :=
  match run (saveScratch ++ (readKey fastConfig ++ (readBlock ++ tlsAddress))) m with
  | (false, m) => (run restoreScratch m).2
  | (true, m) => dynamicSlow body link (run dynamicFallback m).2

/-! ## 2. The tables in memory -/

/-- `struct TlsDescriptorIndex`. -/
structure TlsDescriptorIndex where
  module : Word
  offset : Word
  generation : Word
  deriving DecidableEq

/-- What `R_AARCH64_TLSDESC` puts in the index of a descriptor of an image. -/
def TlsTemplate.descriptorIndex (template : TlsTemplate) (offset : Word) : TlsDescriptorIndex :=
  ⟨BitVec.ofNat 64 template.moduleId, offset, template.generation⟩

/-- The same memory as `struct TlsIndex`. -/
def TlsDescriptorIndex.tlsIndex (index : TlsDescriptorIndex) : TlsIndex :=
  ⟨index.module, index.offset⟩

/-- `fast_thread_tls_state`, with the thread pointer. -/
def fastThreadTlsStateAt (fastConfig tp : Word) (mem : Mem) : Word :=
  if mem.word fastConfig ≠ 1 then 0
  else if mem.word (tp - 8) = 0 then 0
  else
    let entry := mem.word (tp - 8) + mem.word (fastConfig + 8) <<< 4
    if mem.word entry ≠ mem.word (fastConfig + 16) then 0 else mem.word (entry + 8)

/-- A slot of the table of a thread is the pointer `p`. -/
def BlockAt (mem : Mem) (p : Word) : Option ThreadTlsBlock → Prop
  | none => p = 0
  | some block => p ≠ 0 ∧ mem.word p = block.generation ∧ mem.word (p + 8) = block.storage

/-- The state of a thread is at `p`. -/
structure ThreadAt (mem : Mem) (p : Word) (thread : ThreadTlsState) : Prop where
  capacity : (mem.word p).toNat = thread.blocks.length
  slots : ∀ (i : Nat) (slot : Option ThreadTlsBlock), thread.blocks[i]? = some slot →
    BlockAt mem (mem.word (mem.word (p + 8) + BitVec.ofNat 64 i <<< 3)) slot

/-- The memory has the state of the thread, when `fast_thread_tls_state` sees it, and the
descriptor in `x0` has this index. -/
structure Represents (fastConfig : Word) (m : Machine) (owner : Option ThreadTlsState)
    (seen : Bool) (index : TlsDescriptorIndex) : Prop where
  seen : seen = true ↔ fastThreadTlsStateAt fastConfig m.tpidr m.mem ≠ 0
  thread : fastThreadTlsStateAt fastConfig m.tpidr m.mem ≠ 0 → ∃ thread, owner = some thread ∧
    ThreadAt m.mem (fastThreadTlsStateAt fastConfig m.tpidr m.mem) thread
  module : m.mem.word (m.mem.word (m.x 0 + 8)) = index.module
  offset : m.mem.word (m.mem.word (m.x 0 + 8) + 8) = index.offset
  generation : m.mem.word (m.mem.word (m.x 0 + 8) + 16) = index.generation

/-- The memory without the part of the stack that the resolver may use. -/
def OffStack (sp a : Word) : Prop := 672 ≤ (a - (sp - 672)).toNat

/-- The resolver is called: nothing that it reads is in the free part of the stack, so that the
tables are the same whatever is written there. -/
def Entered (fastConfig : Word) (m : Machine) (owner : Option ThreadTlsState) (seen : Bool)
    (index : TlsDescriptorIndex) : Prop :=
  ∀ mem, (∀ a, OffStack m.sp a → mem a = m.mem a) →
    Represents fastConfig { m with mem } owner seen index

/-! ## 3. The compiled body -/

/-- The procedure call standard: a function keeps `x19` to `x29` and the stack pointer, and its
caller's frame, here of `frame` bytes.  The platform register `x18` is not for compiled code. -/
structure Conforms (body : Machine → Machine) (frame : Nat) : Prop where
  sp : ∀ m, (body m).sp = m.sp
  tpidr : ∀ m, (body m).tpidr = m.tpidr
  saved : ∀ m (i : Fin 31), 18 ≤ i → i ≤ 29 → (body m).reg (.x i) = m.reg (.x i)
  frame : ∀ m, ∀ i < frame,
    (body m).mem (m.sp + BitVec.ofNat 64 i) = m.mem (m.sp + BitVec.ofNat 64 i)

/-- `yuki_tlsdesc_dynamic_body`: the answer of `yuki_tls_get_addr` minus the thread pointer. -/
def Computes (fastConfig : Word) (body : Machine → Machine) (tls : Tls)
    (owner : Option ThreadTlsState) (seen : Bool) (memory : Memory) (index : TlsDescriptorIndex) :
    Prop :=
  ∀ m, Represents fastConfig m owner seen index →
    (body m).x 0 = (yukiTlsGetAddr tls owner seen memory index.tlsIndex).1 - m.tpidr

/-! ## 4. The fast path -/

variable {fastConfig link : Word} {body : Machine → Machine} {m m' : Machine} {mem : Mem}
  {owner : Option ThreadTlsState} {seen : Bool} {index : TlsDescriptorIndex} {tls : Tls}
  {memory : Memory} {r : Reg}

/-- The checks of `readKey` are those of `fast_thread_tls_state`, and one for the null pointer. -/
theorem readKey_spec (fastConfig : Word) (m : Machine) : Falls (readKey fastConfig) m fun m' =>
    m'.x 20 = fastThreadTlsStateAt fastConfig m.tpidr m.mem ∧
      fastThreadTlsStateAt fastConfig m.tpidr m.mem ≠ 0 ∧ m'.x 19 = m.tpidr := by
  have hlo : fastConfig - fastConfig % 4096 + fastConfig % 4096 = fastConfig :=
    BitVec.sub_add_cancel ..
  have hsequence : fastConfig + 8 + 8 = fastConfig + 16 := by
    rw [BitVec.add_assoc]
    rfl
  have hslot : m.tpidr + -8 = m.tpidr - 8 := (sub_eq_add_neg ..).symm
  rw [readKey]
  iterate 15
    refine falls_cons ?_
    intro h
    simp only [Instr.taken, Instr.exec, x_setX_self, x_setX_of_ne, mem_setX, tpidr_setX,
      x_compare, mem_compare, tpidr_compare, z_compare, ne_eq, Fin.isValue, Fin.reduceEq,
      not_false_eq_true, add_zero, hlo, hsequence, hslot, Bool.not_eq_false', decide_eq_true_eq,
      decide_eq_false_iff_not] at h ⊢
  rename_i h1 _ _ _ h2 _ _ _ h3 _
  rw [lsl] at h3 h
  have hstate : fastThreadTlsStateAt fastConfig m.tpidr m.mem =
      m.mem.word (m.mem.word (m.tpidr - 8) + m.mem.word (fastConfig + 8) <<< 4 + 8) := by
    rw [fastThreadTlsStateAt, if_neg (not_not.2 h1), if_neg h2]
    exact if_neg (not_not.2 h3)
  refine falls_nil ⟨?_, hstate ▸ h, by simp⟩
  rw [x_setX_self, hstate, lsl]

/-- The checks of `readBlock`, for the state of a thread at `p` and an index at `index`: the block
of the module is at `block`. -/
structure BlockFound (mem : Mem) (p index block : Word) : Prop where
  entry : block = mem.word (mem.word (p + 8) + mem.word index <<< 3)
  inside : mem.word index < mem.word p
  present : block ≠ 0
  current : mem.word block = mem.word (index + 16)

/-- Reading the block of a thread, with its checks. -/
theorem readBlock_spec (m : Machine) : Falls readBlock m fun m' =>
    ∃ block, BlockFound m.mem (m.x 20) (m.mem.word (m.x 0 + 8)) block ∧
      m'.x 20 = m.mem.word (block + 8) ∧ m'.x 22 = m.mem.word (m.mem.word (m.x 0 + 8) + 8) := by
  rw [readBlock]
  iterate 15
    refine falls_cons ?_
    intro h
    simp only [Instr.taken, Instr.exec, x_setX_self, x_setX_of_ne, mem_setX, x_compare, mem_compare,
      z_compare, c_compare, ne_eq, Fin.isValue, Fin.reduceEq, not_false_eq_true, add_zero,
      Bool.not_eq_false', decide_eq_true_eq, decide_eq_false_iff_not] at h ⊢
  rename_i h1 _ _ _ h2 _ _ h3 _
  rw [lsl] at h2 h3
  refine falls_nil ⟨_, ⟨rfl, BitVec.not_le.1 h1, h2, h3⟩, ?_, by simp⟩
  rw [x_setX_self, lsl]

/-- What the fast path finds, and its answer. -/
theorem walk_spec (fastConfig : Word) (m : Machine) :
    Falls (readKey fastConfig ++ (readBlock ++ tlsAddress)) m fun m' =>
      fastThreadTlsStateAt fastConfig m.tpidr m.mem ≠ 0 ∧
      ∃ block, BlockFound m.mem (fastThreadTlsStateAt fastConfig m.tpidr m.mem)
          (m.mem.word (m.x 0 + 8)) block ∧
        m'.x 0 = m.mem.word (block + 8) + m.mem.word (m.mem.word (m.x 0 + 8) + 8) - m.tpidr := by
  refine falls_append ?_
  intro hkey
  obtain ⟨h20, hne, h19⟩ := readKey_spec fastConfig m hkey
  have hmem : (run (readKey fastConfig) m).2.mem = m.mem := (run_quiet rfl).1
  have hx0 : (run (readKey fastConfig) m).2.x 0 = m.x 0 := run_reg (by simp [readKey, Instr.targets])
  generalize (run (readKey fastConfig) m).2 = m2 at h20 h19 hmem hx0
  refine falls_append ?_
  intro hblock
  obtain ⟨block, hfound, h20', h22⟩ := readBlock_spec m2 hblock
  have h19' : (run readBlock m2).2.x 19 = m2.x 19 := run_reg (by decide)
  generalize (run readBlock m2).2 = m3 at h20' h22 h19'
  rw [hmem, hx0] at hfound h22
  rw [h20] at hfound
  rw [hmem] at h20'
  rw [tlsAddress]
  refine falls_cons fun _ => falls_cons fun _ => falls_nil ⟨hne, block, hfound, ?_⟩
  simp only [Instr.exec, x_setX_self, x_setX_of_ne, ne_eq, Fin.isValue, Fin.reduceEq,
    not_false_eq_true, lsl_zero, h20', h22, h19', h19]

/-- The block that is found is the thread's, and of the active generation: the C++ code takes its
own fast path. -/
theorem fastPath_of_found {s : TlsState} {template : TlsTemplate} {offset block : Word}
    (hs : s.tls.Sound) (ht : template ∈ s.tls.templates)
    (hrep : Represents fastConfig m owner seen (template.descriptorIndex offset))
    (hne : fastThreadTlsStateAt fastConfig m.tpidr m.mem ≠ 0)
    (hfound : BlockFound m.mem (fastThreadTlsStateAt fastConfig m.tpidr m.mem)
      (m.mem.word (m.x 0 + 8)) block) :
    ∃ b, FastPath s.tls owner seen (template.descriptorIndex offset).tlsIndex b ∧
      b.storage = m.mem.word (block + 8) := by
  obtain ⟨thread, howner, hthread⟩ := hrep.thread hne
  obtain ⟨hid, hle, hgen, hactive⟩ := hs.active template ht
  have hbound : maxTlsModuleSlots = 1024 := rfl
  have hmod : (BitVec.ofNat 64 template.moduleId).toNat = template.moduleId := by
    rw [BitVec.toNat_ofNat, Nat.mod_eq_of_lt (by omega)]
  have hmodule : m.mem.word (m.mem.word (m.x 0 + 8)) = BitVec.ofNat 64 template.moduleId :=
    hrep.module
  have hlt : template.moduleId < thread.blocks.length := by
    have hin := BitVec.lt_def.1 hfound.inside
    rwa [hmodule, hmod, hthread.capacity] at hin
  have hslot := hthread.slots template.moduleId _ (List.getElem?_eq_getElem hlt)
  rw [← hmodule, ← hfound.entry] at hslot
  cases hb : thread.blocks[template.moduleId] with
  | none =>
    rw [hb] at hslot
    exact absurd hslot hfound.present
  | some b =>
    rw [hb] at hslot
    obtain ⟨-, hbgen, hstorage⟩ := hslot
    have hcur : b.generation = template.generation :=
      hbgen.symm.trans (hfound.current.trans hrep.generation)
    have hact : activeTlsGeneration s.tls template.moduleId = template.generation := by
      rw [activeTlsGeneration, if_neg (by omega), hactive]
    have hto : (template.descriptorIndex offset).tlsIndex.module.toNat = template.moduleId := hmod
    refine ⟨b, ⟨hrep.seen.2 hne, ⟨thread, howner, ?_⟩, ?_, ?_⟩, hstorage.symm⟩
    · rw [hto, findThreadBlock, List.getElem?_eq_getElem hlt, hb]
      rfl
    · rw [hto, hact]
      exact hgen
    · rw [hto, hact, hcur]

/-! ## 5. The slow path -/

/-- The slots of the frame of the slow path. -/
def callerFrame : List Slot := (stp (.x 29) (.x 30) 0 :: saveCaller).flatMap Instr.saved

theorem stop_callerFrame : ∀ s ∈ callerFrame, s.stop ≤ 672 := by decide

theorem apart_callerFrame : callerFrame.Pairwise Slot.Apart := by decide +kernel

theorem restored_callerFrame : ∀ s ∈ restoreCaller.flatMap Instr.restored, s ∈ callerFrame := by
  decide +kernel

/-- Every register but `x0` is restored or kept by the body. -/
theorem restored_or_saved (hr : r ≠ .x 0) :
    r ∈ (restoreCaller.flatMap Instr.restored).map Prod.fst ∨ ∃ i, r = .x i ∧ 18 ≤ i ∧ i < 29 := by
  cases r with
  | x i =>
    have h : ∀ i : Fin 31, i ≠ 0 →
        Reg.x i ∈ (restoreCaller.flatMap Instr.restored).map Prod.fst ∨ 18 ≤ i ∧ i < 29 := by
      decide
    exact (h i fun h' => hr (h' ▸ rfl)).imp_right fun h' => ⟨i, rfl, h'⟩
  | q i =>
    have h : ∀ i : Fin 32, Reg.q i ∈ (restoreCaller.flatMap Instr.restored).map Prod.fst := by
      decide
    exact .inl (h i)

/-- The state at the call of the body. -/
def slowCall (link : Word) (m : Machine) : Machine :=
  (run (enterSlow ++ saveCaller) m).2.setX 30 link

/-- What the slow path does before its call. -/
theorem slowCall_eq (link : Word) (m : Machine) : slowCall link m =
    Machine.setX { m with
      sp := m.sp - 672
      reg := Function.update m.reg (.x 29) (m.sp - 672)
      mem := saves (m.sp - 672) m.reg callerFrame m.mem } 30 link := by
  have hsaves : ∀ i ∈ saveCaller, i = .save i.saved := by decide
  have henter : run enterSlow m = (false, { m with
      sp := m.sp - 672
      reg := Function.update m.reg (.x 29) (m.sp - 672)
      mem := saves (m.sp - 672) m.reg [(.x 29, 0), (.x 30, 8)] m.mem }) := rfl
  have hframe : callerFrame = [(.x 29, 0), (.x 30, 8)] ++ saveCaller.flatMap Instr.saved := rfl
  rw [slowCall, run_append, henter, if_neg (by simp), run_saves hsaves, hframe, saves_append]
  -- The frame pointer is set after `x29` was saved, and no later slot is for `x29`.
  refine congrArg (fun mem => Machine.setX { m with
    sp := m.sp - 672, reg := Function.update m.reg (.x 29) (m.sp - 672), mem } 30 link) ?_
  refine saves_congr fun s hs => Function.update_of_ne ?_ ..
  have h29 : ∀ s ∈ saveCaller.flatMap Instr.saved, s.1 ≠ .x 29 := by decide
  exact h29 s hs

theorem mem_slowCall {a : Word} (ha : OffStack m.sp a) : (slowCall link m).mem a = m.mem a := by
  rw [slowCall_eq, mem_setX]
  exact saves_outside stop_callerFrame (by decide) ha

theorem reg_slowCall (h29 : r ≠ .x 29) (h30 : r ≠ .x 30) : (slowCall link m).reg r = m.reg r := by
  rw [slowCall_eq, reg_setX h30]
  exact Function.update_of_ne h29 ..

/-- **The slow path** keeps every register but `x0`, which is the body's answer. -/
theorem dynamicSlow_spec (hbody : Conforms body 672) (link : Word) (m : Machine) :
    (dynamicSlow body link m).sp = m.sp ∧
      (∀ r, r ≠ .x 0 → (dynamicSlow body link m).reg r = m.reg r) ∧
      (dynamicSlow body link m).x 0 = (body (slowCall link m)).x 0 := by
  have hsp : (slowCall link m).sp = m.sp - 672 := by rw [slowCall_eq, Machine.setX]
  have hholds : Holds (body (slowCall link m)).sp (body (slowCall link m)).mem m.reg
      (restoreCaller.flatMap Instr.restored) := by
    have hsaved : Holds (slowCall link m).sp (slowCall link m).mem m.reg callerFrame := by
      rw [hsp, slowCall_eq, mem_setX]
      exact load_saves (fun s hs => (stop_callerFrame s hs).trans (by decide)) apart_callerFrame
    rw [hbody.sp]
    have hkept := hsaved.congr stop_callerFrame (hbody.frame (slowCall link m))
    exact fun s hs => hkept s (restored_callerFrame s hs)
  have hrestores : ∀ i ∈ restoreCaller, i = .restore i.restored := by decide
  have hrun : dynamicSlow body link m = { body (slowCall link m) with
      reg := restores (body (slowCall link m)).sp (body (slowCall link m)).mem
        (restoreCaller.flatMap Instr.restored) (body (slowCall link m)).reg
      sp := (body (slowCall link m)).sp + 672 } := by
    rw [dynamicSlow, run_append, ← slowCall, run_restores hrestores, if_neg (by simp)]
    rfl
  rw [hrun]
  refine ⟨?_, ?_, ?_⟩
  · dsimp only
    rw [hbody.sp, hsp, BitVec.sub_add_cancel]
  · intro r hr
    dsimp only
    rw [restores_eq hholds]
    split_ifs with hmem
    · rfl
    · obtain ⟨i, rfl, h1, h2⟩ := (restored_or_saved hr).resolve_left hmem
      rw [hbody.saved _ i h1 h2.le]
      refine reg_slowCall (fun h => ?_) fun h => ?_
      · exact absurd (Reg.x.inj h) h2.ne
      · rw [Reg.x.inj h] at h2
        exact absurd h2 (by decide)
  · have h0 : Reg.x 0 ∉ (restoreCaller.flatMap Instr.restored).map Prod.fst := by decide
    rw [Machine.x, Machine.x]
    dsimp only
    rw [restores_eq hholds, if_neg h0]

/-- The description depends on the memory and the thread pointer. -/
theorem Represents.congr (h : Represents fastConfig m owner seen index) (hmem : m'.mem = m.mem)
    (htp : m'.tpidr = m.tpidr) (hx0 : m'.x 0 = m.x 0) :
    Represents fastConfig m' owner seen index := by
  obtain ⟨h1, h2, h3, h4, h5⟩ := h
  rw [← hmem] at h1 h2 h3 h4 h5
  rw [← htp] at h1 h2
  rw [← hx0] at h3 h4 h5
  exact ⟨h1, h2, h3, h4, h5⟩

theorem Entered.congr (h : Entered fastConfig m owner seen index) (hsp : m'.sp = m.sp)
    (htp : m'.tpidr = m.tpidr) (hx0 : m'.x 0 = m.x 0)
    (hmem : ∀ a, OffStack m.sp a → m'.mem a = m.mem a) :
    Entered fastConfig m' owner seen index := by
  intro mem hagree
  rw [hsp] at hagree
  exact (h mem fun a ha => (hagree a ha).trans (hmem a ha)).congr rfl htp hx0

/-- The answer of the slow path. -/
theorem dynamicSlow_x0 (hbody : Conforms body 672)
    (hcomp : Computes fastConfig body tls owner seen memory index) (link : Word)
    (hin : Entered fastConfig m owner seen index) : (dynamicSlow body link m).x 0 =
      (yukiTlsGetAddr tls owner seen memory index.tlsIndex).1 - m.tpidr := by
  have htp : (slowCall link m).tpidr = m.tpidr := by rw [slowCall_eq, tpidr_setX]
  have hrep : Represents fastConfig (slowCall link m) owner seen index :=
    (hin (slowCall link m).mem fun a ha => mem_slowCall ha).congr rfl htp
      (reg_slowCall (by decide) (by decide))
  rw [(dynamicSlow_spec hbody link m).2.2, hcomp _ hrep, htp]

/-! ## 6. The resolver -/

/-- The slots of the frame of the fast path. -/
def scratchFrame : List Slot := saveScratch.flatMap Instr.saved

/-- The state after the frame of the fast path is made. -/
def scratchSaved (m : Machine) : Machine :=
  { m with sp := m.sp - 64, mem := saves (m.sp - 64) m.reg scratchFrame m.mem }

theorem run_saveScratch (m : Machine) : run saveScratch m = (false, scratchSaved m) := rfl

theorem stop_scratchFrame : ∀ s ∈ scratchFrame, s.stop ≤ 64 := by decide

theorem holds_scratchSaved (m : Machine) :
    Holds (scratchSaved m).sp (scratchSaved m).mem m.reg scratchFrame :=
  load_saves (fun s hs => (stop_scratchFrame s hs).trans (by decide)) (by decide)

theorem mem_scratchSaved {a : Word} (ha : OffStack m.sp a) : (scratchSaved m).mem a = m.mem a := by
  refine saves_outside stop_scratchFrame (by decide) ?_
  rw [OffStack] at ha
  bv_omega

/-- The registers that the fast path works with. -/
def scratch : List Reg := [.x 0, .x 19, .x 20, .x 21, .x 22, .x 23]

/-- The walk changes no other register, no memory and not the stack pointer. -/
theorem walk_frame (fastConfig : Word) (m : Machine) :
    (∀ r, r ∉ scratch →
      (run (readKey fastConfig ++ (readBlock ++ tlsAddress)) m).2.reg r = m.reg r) ∧
    (run (readKey fastConfig ++ (readBlock ++ tlsAddress)) m).2.mem = m.mem ∧
    (run (readKey fastConfig ++ (readBlock ++ tlsAddress)) m).2.sp = m.sp ∧
    (run (readKey fastConfig ++ (readBlock ++ tlsAddress)) m).2.tpidr = m.tpidr := by
  have htargets : ∀ r ∈ (readKey fastConfig ++ (readBlock ++ tlsAddress)).flatMap Instr.targets,
      r ∈ scratch := by
    have h : ∀ r ∈ (readKey 0 ++ (readBlock ++ tlsAddress)).flatMap Instr.targets, r ∈ scratch := by
      decide
    exact h
  obtain ⟨hmem, hsp⟩ := run_quiet (m := m)
    (show (readKey fastConfig ++ (readBlock ++ tlsAddress)).all Instr.quiet = true from rfl)
  exact ⟨fun r hr => run_reg fun h => hr (htargets r h), hmem, hsp, run_tpidr ..⟩

/-- The frame of the fast path is left, with the slots `l` restored. -/
theorem leave_scratch {mw : Machine} {l : List Slot} (hl : ∀ s ∈ l, s ∈ scratchFrame)
    (hholds : Holds mw.sp mw.mem m.reg scratchFrame)
    (hreg : ∀ r, r ∉ scratch → mw.reg r = m.reg r) (hr : r ∉ scratch ∨ r ∈ l.map Prod.fst) :
    restores mw.sp mw.mem l mw.reg r = m.reg r := by
  rw [restores_eq fun s hs => hholds s (hl s hs)]
  split_ifs with hmem
  · rfl
  · exact hreg r (hr.resolve_right hmem)

/-- The slots of `restoreScratch`. -/
def restoredScratch : List Slot := restoreScratch.flatMap Instr.restored

/-- **The resolver returns what `yuki_tls_get_addr` says**, on its fast path as on its slow path,
and keeps every register but `x0`. -/
theorem dynamicEntry_returns {s : TlsState} {template : TlsTemplate}
    (hr : tlsRuns.Reach Lts.anyStep s) (ht : template ∈ s.tls.templates) (offset : Word)
    (hbody : Conforms body 672)
    (hcomp : Computes fastConfig body s.tls owner seen memory (template.descriptorIndex offset))
    (link : Word) (hin : Entered fastConfig m owner seen (template.descriptorIndex offset)) :
    let m' := yukiTlsdescDynamicEntry fastConfig body link m
    m'.x 0 = (yukiTlsGetAddr s.tls owner seen memory
        (template.descriptorIndex offset).tlsIndex).1 - m.tpidr ∧
      m'.x 0 = (dynamicSlow body link m).x 0 ∧
      (∀ r, r ≠ .x 0 → m'.reg r = m.reg r) ∧ m'.sp = m.sp := by
  intro m'
  rw [dynamicSlow_x0 hbody hcomp link hin, ← and_assoc, and_self]
  obtain ⟨hreg, hmem, hsp, htp⟩ := walk_frame fastConfig (scratchSaved m)
  have hspec := walk_spec fastConfig (scratchSaved m)
  have hentry : m' = match run (readKey fastConfig ++ (readBlock ++ tlsAddress))
      (scratchSaved m) with
      | (false, m) => (run restoreScratch m).2
      | (true, m) => dynamicSlow body link (run dynamicFallback m).2 := by
    rw [show m' = yukiTlsdescDynamicEntry fastConfig body link m from rfl,
      yukiTlsdescDynamicEntry, run_append, run_saveScratch, if_neg (by simp)]
  rw [Falls] at hspec
  generalize run (readKey fastConfig ++ (readBlock ++ tlsAddress)) (scratchSaved m) = walked at *
  obtain ⟨left, mw⟩ := walked
  dsimp only at hreg hmem hsp htp hspec hentry
  have hholds : Holds mw.sp mw.mem m.reg scratchFrame := by
    rw [hsp, hmem]
    exact holds_scratchSaved m
  have hspw : mw.sp + 64 = m.sp := by
    rw [hsp]
    exact BitVec.sub_add_cancel ..
  cases left with
  | false =>
    -- No check has failed.
    have hm' : m' = { mw with
        reg := restores mw.sp mw.mem restoredScratch mw.reg, sp := mw.sp + 64 } := hentry
    obtain ⟨hne, block, hfound, hx0⟩ := hspec rfl
    have hrep := hin (scratchSaved m).mem fun a ha => mem_scratchSaved ha
    obtain ⟨b, hfast, hstorage⟩ := fastPath_of_found (sound_of_reach hr) ht hrep hne hfound
    have hoffset : (scratchSaved m).mem.word ((scratchSaved m).mem.word
        ((scratchSaved m).x 0 + 8) + 8) = (template.descriptorIndex offset).tlsIndex.offset :=
      hrep.offset
    have h0 : Reg.x 0 ∉ restoredScratch.map Prod.fst := by decide
    have hl : ∀ s ∈ restoredScratch, s ∈ scratchFrame := by decide
    rw [hm']
    refine ⟨?_, ?_, hspw⟩
    · rw [Machine.x] at hx0 ⊢
      dsimp only
      rw [restores_eq fun s hs => hholds s (hl s hs), if_neg h0, hx0, hfast.getAddr memory,
        hstorage, hoffset]
      rfl
    · intro r hr
      refine leave_scratch hl hholds hreg ?_
      by_cases hs : r ∈ scratch
      · have h : ∀ r ∈ scratch, r ≠ .x 0 → r ∈ restoredScratch.map Prod.fst := by decide
        exact .inr (h r hs hr)
      · exact .inl hs
  | true =>
    -- The state is that of the call, with a written stack.
    obtain ⟨mf, hmf⟩ : ∃ mf : Machine, mf = { mw with
        reg := restores mw.sp mw.mem ((.x 0, 40) :: restoredScratch) mw.reg
        sp := mw.sp + 64 } := ⟨_, rfl⟩
    have hm' : m' = dynamicSlow body link mf := by
      rw [hentry, hmf]
      rfl
    have hregs : ∀ r, mf.reg r = m.reg r := by
      intro r
      rw [hmf]
      refine leave_scratch (by decide) hholds hreg ?_
      by_cases hs : r ∈ scratch
      · have h : ∀ r ∈ scratch, r ∈ (((.x 0, 40) : Slot) :: restoredScratch).map Prod.fst := by
          decide
        exact .inr (h r hs)
      · exact .inl hs
    have hspf : mf.sp = m.sp := by rw [hmf]; exact hspw
    have htpf : mf.tpidr = m.tpidr := by rw [hmf]; exact htp
    have hmemf : ∀ a, OffStack m.sp a → mf.mem a = m.mem a := by
      intro a ha
      rw [hmf, ← mem_scratchSaved ha, ← hmem]
    obtain ⟨h1, h2, -⟩ := dynamicSlow_spec hbody link mf
    rw [hm', dynamicSlow_x0 hbody hcomp link (hin.congr hspf htpf (hregs _) hmemf), htpf, h1, hspf]
    exact ⟨rfl, fun r hr => (h2 r hr).trans (hregs r), rfl⟩

/-! ## 7. One call -/

/-- A memory of zeros but for these words. -/
def wordsAt (l : List (Word × Word)) : Mem :=
  l.foldr (fun w mem => mem.store (n := 8) w.1 w.2) fun _ => 0

/-- The fast path is configured at 256, for the key 5 in its third turn.  The key data at 2048 has the
state of the thread, which is at 12288, with a table at 16384 and one block, at 20480.  The descriptor
is at 40960, and its index at 8192. -/
def sampleMem : Mem := wordsAt
  [(256, 1), (264, 5), (272, 3), (1016, 2048), (2128, 3), (2136, 12288),
    (12288, 8), (12296, 16384), (16392, 20480), (20480, 1), (20488, 4096),
    (40968, 8192), (8192, 1), (8200, 4), (8208, 1)]

def sampleMachine : Machine :=
  Machine.setX ⟨fun _ => 0, 65536, 1024, false, false, sampleMem⟩ 0 40960

/-- The body, where the thread has a block at 4096. -/
def sampleBody (m : Machine) : Machine :=
  m.setX 0 ((yukiTlsGetAddr sampleTls.tls (sampleTls.threads 0) true (.granted 4096) ⟨1, 4⟩).1 -
    m.tpidr)

def sampleTemplate : TlsTemplate := ⟨1, 1, ⟨0, 8, 8⟩, 1⟩

instance (sp a : Word) : Decidable (OffStack sp a) := inferInstanceAs (Decidable (_ ≤ _))

theorem word_sample {mem : Mem} (h : ∀ a, OffStack sampleMachine.sp a → mem a = sampleMem a)
    (a v : Word) (ha : ∀ i < 8, OffStack 65536 (a + BitVec.ofNat 64 i))
    (hv : sampleMem.word a = v) : mem.word a = v := by
  rw [← hv, Mem.word, Mem.word]
  exact load_congr fun i hi => h _ (ha i hi)

/-- The state of the thread is found through the key. -/
theorem state_sample {mem : Mem} (h : ∀ a, OffStack sampleMachine.sp a → mem a = sampleMem a) :
    fastThreadTlsStateAt 256 sampleMachine.tpidr mem = 12288 := by
  have hword := word_sample h
  have hconfig : mem.word 256 = 1 := hword _ _ (by decide) (by decide +kernel)
  have hkey : mem.word (256 + 8) = 5 := hword _ _ (by decide) (by decide +kernel)
  have hturn : mem.word (256 + 16) = 3 := hword _ _ (by decide) (by decide +kernel)
  have hdata : mem.word (sampleMachine.tpidr - 8) = 2048 :=
    hword _ _ (by decide) (by decide +kernel)
  have hentry : mem.word ((2048 : Word) + (5 : Word) <<< 4) = 3 :=
    hword _ _ (by decide) (by decide +kernel)
  have hvalue : mem.word ((2048 : Word) + (5 : Word) <<< 4 + 8) = 12288 :=
    hword _ _ (by decide) (by decide +kernel)
  rw [fastThreadTlsStateAt, hconfig, hdata, hkey, hturn]
  dsimp only
  rw [hentry, hvalue]
  rfl

/-- The table has the thread's one block. -/
theorem thread_sample {mem : Mem} (h : ∀ a, OffStack sampleMachine.sp a → mem a = sampleMem a) :
    ∃ thread, sampleTls.threads 0 = some thread ∧ ThreadAt mem 12288 thread := by
  have hword := word_sample h
  have hcapacity : mem.word 12288 = 8 := hword _ _ (by decide) (by decide +kernel)
  have htable : mem.word (12288 + 8) = 16384 := hword _ _ (by decide) (by decide +kernel)
  refine ⟨⟨[none, some ⟨1, 4096, 1⟩, none, none, none, none, none, none]⟩, by decide +kernel, ?_⟩
  constructor
  · rw [hcapacity]
    rfl
  · intro i slot hi
    have hlt : i < 8 := (List.getElem?_eq_some_iff.mp hi).1
    rw [htable]
    by_cases hone : i = 1
    · subst hone
      obtain rfl : some ⟨1, 4096, 1⟩ = slot := Option.some.inj hi
      have hblock : mem.word ((16384 : Word) + BitVec.ofNat 64 1 <<< 3) = 20480 :=
        hword _ _ (by decide) (by decide +kernel)
      rw [BlockAt, hblock]
      exact ⟨by decide, hword _ _ (by decide) (by decide +kernel),
        hword _ _ (by decide) (by decide +kernel)⟩
    · have hempty : ∀ i < 8, i ≠ 1 →
          [none, some (⟨1, 4096, 1⟩ : ThreadTlsBlock), none, none, none, none, none, none][i]? =
              some none ∧
            sampleMem.word ((16384 : Word) + BitVec.ofNat 64 i <<< 3) = 0 ∧
            ∀ k < 8, OffStack 65536 ((16384 : Word) + BitVec.ofNat 64 i <<< 3 +
              BitVec.ofNat 64 k) := by
        decide +kernel
      obtain ⟨hnone, hzero, hoff⟩ := hempty i hlt hone
      obtain rfl := Option.some.inj (hnone.symm.trans hi)
      exact hword _ _ hoff hzero

theorem entered_sample : Entered 256 sampleMachine (sampleTls.threads 0) true
    (sampleTemplate.descriptorIndex 4) := by
  intro mem h
  have hword := word_sample h
  have hindex : mem.word (40960 + 8) = 8192 := hword _ _ (by decide) (by decide +kernel)
  have hne : fastThreadTlsStateAt 256 sampleMachine.tpidr mem ≠ 0 := by
    rw [state_sample h]
    decide
  refine ⟨iff_of_true rfl hne, fun _ => ?_, ?_, ?_, ?_⟩
  · dsimp only
    rw [state_sample h]
    exact thread_sample h
  · exact (congrArg mem.word hindex).trans (hword _ _ (by decide) (by decide +kernel))
  · exact (congrArg (fun a => mem.word (a + 8)) hindex).trans
      (hword _ _ (by decide) (by decide +kernel))
  · exact (congrArg (fun a => mem.word (a + 16)) hindex).trans
      (hword _ _ (by decide) (by decide +kernel))

theorem conforms_sample : Conforms sampleBody 672 where
  sp _ := rfl
  tpidr _ := rfl
  saved m i h18 _ := by
    refine reg_setX ?_
    intro h
    rw [Reg.x.inj h] at h18
    exact absurd h18 (by decide)
  frame _ _ _ := rfl

/-- No check fails here, so that this is the fast path. -/
theorem dynamicEntry_returns_sample :
    (run (saveScratch ++ (readKey 256 ++ (readBlock ++ tlsAddress))) sampleMachine).1 = false ∧
    let m' := yukiTlsdescDynamicEntry 256 sampleBody 0 sampleMachine
    m'.x 0 = (yukiTlsGetAddr sampleTls.tls (sampleTls.threads 0) true (.granted 4096)
        (sampleTemplate.descriptorIndex 4).tlsIndex).1 - sampleMachine.tpidr ∧
      m'.x 0 = (dynamicSlow sampleBody 0 sampleMachine).x 0 ∧
      (∀ r, r ≠ .x 0 → m'.reg r = sampleMachine.reg r) ∧ m'.sp = sampleMachine.sp := by
  refine ⟨by decide +kernel, dynamicEntry_returns reach_sampleTls (by decide +kernel) 4
    conforms_sample ?_ 0 entered_sample⟩
  intro m _
  exact x_setX_self ..

end YukiZygisk.Linker
