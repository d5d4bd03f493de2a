/-
# The injected stubs (`zp_inject_tw_func` in `kernel/feature/zygote_probe.c`)

The probe redirects the entry point of a process to a stub that calls `dlopen` and `dlsym`, gives
the entry of the library the descriptor of the core and the argument of the early packet, and goes
on to the saved entry.  The 64-bit stub builds its values from immediates that are patched into a
template, the 32-bit stub loads them from literals behind its code.

The addresses are always right.  The descriptor and the argument get one immediate of 16 bits in
the 64-bit stub: it builds them exactly if they are between 0 and 65535 (`stubs_agree_iff`).  The
argument always is (`earlyPacketArg_range`), the descriptor `-1` for none is not
(`not_stubs_agree`).

For the 64-bit stub, the argument runs over the words of the template: patching a word changes its
immediate only (`toNat_patchInsn`), the words at the places of the addresses are four moves to one
register, one for each part (`moves_of_words`), and so the moves build the address
(`moves_addresses`).  The descriptor has a single `MOVZ`, which sets the register to the immediate,
that is to the low 16 bits of the value (`intOf_low`); it is the value if and only if the value is
not negative and has no more bits.  For the 32-bit stub the argument runs over the literals: they
lie behind the code and apart from each other (`literalWords_fit`), so each one is read back as it
was put (`readAt_literal`), and each load in the code addresses its own (`loadLiteral_code`).
-/
import YukiZygisk.Lib.LoadedConstants

namespace YukiZygisk.InjectStubs

open Bytes LoadedConstants

/-! ## 1. The stubs -/

/-- `insn[i]` with another immediate, as in `zp_patch_imm64`. -/
def patchInsn (insn : UInt32) (imm : UInt16) : UInt32 :=
  (insn &&& ~~~((0xffff : UInt32) <<< 5)) ||| (imm.toUInt32 <<< 5)

/-- `zp_patch_imm64` from the word `start` on. -/
def zpPatchImm64 (code : List UInt32) (start : Nat) (val : UInt64) : List UInt32 :=
  (List.range 4).foldl (fun code i =>
    code.set (start + i)
      (patchInsn (code.getD (start + i) 0) (val >>> UInt64.ofNat (16 * i)).toUInt16)) code

/-- `tmpl`: the native-ABI `AT_ENTRY` stub. -/
def tmpl : List UInt32 :=
  [0x10000013, 0xd10103ff, 0xd2800014, 0xf2a00014, 0xf2c00014,
    0xf2e00014, 0xd2800015, 0xf2a00015, 0xf2c00015, 0xf2e00015,
    0xd2800017, 0xf2a00017, 0xf2c00017, 0xf2e00017, 0xf90003f3,
    0xf90007f4, 0xf9000bf7, 0xf9000fe0, 0x5289c430, 0x72aa4830,
    0xb9080270, 0x91300260, 0xd2800041, 0x91280262, 0xaa1403e3,
    0xd63f02a0, 0xf94003f3, 0xf9040660, 0xf90013e0, 0xb94a1e60,
    0xd2800728, 0xd4000001, 0xf94003f3, 0xf94013e0, 0xb40000c0,
    0x91340261, 0xf94007e2, 0xf9400bf7, 0xd63f02e0, 0xb50000a0,
    0xd2800000, 0xd2800728, 0xd4000001, 0x14000005, 0xaa0003f9,
    0xd2800000, 0xd2800001, 0xd63f0320, 0xf9400fe0, 0xf94007f4,
    0x910103ff, 0xaa1403f0, 0xd61f0200]

/-- `compat_tmpl`. -/
def compatTmpl : List UInt8 :=
  [0x2d, 0xe9, 0xf7, 0x43, 0xf8, 0x46, 0xa8, 0xf1, 0x08, 0x08,
    0x11, 0x4c, 0x11, 0x4d, 0x12, 0x4e, 0x08, 0xf6, 0x00, 0x40,
    0x02, 0x21, 0x08, 0xf6, 0x00, 0x22, 0x23, 0x46, 0xa8, 0x47,
    0x81, 0x46, 0x0e, 0x48, 0x06, 0x27, 0x00, 0xdf, 0x48, 0x46,
    0x48, 0xb1, 0x08, 0xf6, 0x00, 0x51, 0x22, 0x46, 0xb0, 0x47,
    0x20, 0xb1, 0x03, 0x46, 0x0a, 0x48, 0x0a, 0x49, 0x98, 0x47,
    0x04, 0xe0, 0x08, 0x48, 0x00, 0x28, 0x01, 0xdb, 0x06, 0x27,
    0x00, 0xdf, 0xa4, 0x46, 0xbd, 0xe8, 0xf7, 0x43, 0x60, 0x47,
    0x00, 0x00, 0x00, 0x00, 0x00, 0x00, 0x00, 0x00, 0x00, 0x00,
    0x00, 0x00, 0x00, 0x00, 0x00, 0x00, 0x00, 0x00, 0x00, 0x00,
    0x00, 0x00, 0x00, 0x00]

/-- What the stubs are patched with; `coreFd` is `stub_core_fd`. -/
structure StubArgs where
  saved : UInt64
  dlopenAddr : UInt64
  dlsymAddr : UInt64
  loaderFd : Int32
  coreFd : Int32
  earlyPacketArg : Int32

/-- `stub_core_fd`. -/
def stubCoreFd (yuki : Bool) (coreFd : Int32) : Int32 := if yuki then coreFd else -1

/-- `early_packet_arg`; nothing if no stub is staged. -/
def earlyPacketArg (earlyNative : Bool) (packetFd : Int32) : Option Int32 :=
  if !earlyNative then some 0
  else if packetFd < 0 ∨ packetFd ≥ 0xffff then none
  else some (packetFd + 1)

namespace StubArgs

variable (a : StubArgs)

/-- `code`. -/
def code : List UInt32 :=
  let code := zpPatchImm64 tmpl 2 a.saved
  let code := zpPatchImm64 code 6 a.dlopenAddr
  let code := zpPatchImm64 code 10 a.dlsymAddr
  let code := code.set 40 ((0xd2800000 : UInt32) ||| ((a.coreFd.toUInt32 &&& 0xffff) <<< 5))
  let code := code.set 45 ((0xd2800000 : UInt32) ||| ((a.coreFd.toUInt32 &&& 0xffff) <<< 5))
  code.set 46 ((0xd2800001 : UInt32) ||| ((a.earlyPacketArg.toUInt32 &&& 0xffff) <<< 5))

/-- `memcpy` of a word into the code. -/
def put (code : List UInt8) (offset : Nat) (value : UInt32) : List UInt8 :=
  code.take offset ++ toBytes 4 value.toNat ++ code.drop (offset + 4)

/-- `compat_code`. -/
def compatCode : List UInt8 :=
  let code := put compatTmpl 0x50 a.saved.toUInt32
  let code := put code 0x54 a.dlopenAddr.toUInt32
  let code := put code 0x58 a.dlsymAddr.toUInt32
  let code := put code 0x5c a.loaderFd.toUInt32
  let code := put code 0x60 a.coreFd.toUInt32
  put code 0x64 a.earlyPacketArg.toUInt32

/-! ## 2. What they are to build -/

/-- The moves from one word of the 64-bit stub to another, run on any registers, leave registers
with a property. -/
def Moves (start n : Nat) (P : Regs → Prop) : Prop :=
  ∀ regs, ∃ regs', exec (((a.code.drop start).take n).map UInt32.toNat) regs = some regs' ∧ P regs'

/-- The 64-bit stub builds the addresses, the descriptor that it closes when there is no entry, and
the two arguments of the entry. -/
structure Materialises : Prop where
  saved : a.Moves 2 4 fun regs => regs 20 = a.saved.toNat
  dlopenAddr : a.Moves 6 4 fun regs => regs 21 = a.dlopenAddr.toNat
  dlsymAddr : a.Moves 10 4 fun regs => regs 23 = a.dlsymAddr.toNat
  closed : a.Moves 40 1 fun regs => intOf (regs 0) = a.coreFd.toInt
  arguments : a.Moves 45 2 fun regs =>
    intOf (regs 0) = a.coreFd.toInt ∧ intOf (regs 1) = a.earlyPacketArg.toInt

/-- The 32-bit stub loads the same: the addresses in 32 bits, and the descriptors and the argument
as they are. -/
structure Literals : Prop where
  saved : loadLiteral a.compatCode 0x0a = some (4, a.saved.toNat % 2 ^ 32)
  dlopenAddr : loadLiteral a.compatCode 0x0c = some (5, a.dlopenAddr.toNat % 2 ^ 32)
  dlsymAddr : loadLiteral a.compatCode 0x0e = some (6, a.dlsymAddr.toNat % 2 ^ 32)
  loaderFd : (loadLiteral a.compatCode 0x20).map (fun l => (l.1, intOf l.2)) =
    some (0, a.loaderFd.toInt)
  coreFd : (loadLiteral a.compatCode 0x36).map (fun l => (l.1, intOf l.2)) =
    some (0, a.coreFd.toInt)
  earlyPacketArg : (loadLiteral a.compatCode 0x38).map (fun l => (l.1, intOf l.2)) =
    some (1, a.earlyPacketArg.toInt)
  closed : (loadLiteral a.compatCode 0x3e).map (fun l => (l.1, intOf l.2)) =
    some (0, a.coreFd.toInt)

end StubArgs

/-! ## 3. The 64-bit stub -/

variable {a : StubArgs}

/-- Patching an instruction is filling in its immediate. -/
theorem toNat_patchInsn (insn : UInt32) (imm : UInt16) :
    (patchInsn insn imm).toNat = patch insn.toNat imm.toNat := by
  have hmask : (~~~((0xffff : UInt32) <<< 5)).toNat = 0xffe0001f := by decide
  have himm : (imm.toUInt32 <<< 5).toNat = imm.toNat * 2 ^ 5 := by
    have hlt := imm.toNat_lt
    rw [UInt32.toNat_shiftLeft, UInt16.toNat_toUInt32, Nat.shiftLeft_eq]
    exact Nat.mod_eq_of_lt (by simp; omega)
  rw [patchInsn, UInt32.toNat_or, UInt32.toNat_and, hmask, himm, patch]

/-- The immediate of a place is the part of the value there. -/
theorem toNat_immediate (val : UInt64) {i : Nat} (hi : i < 4) :
    (val >>> UInt64.ofNat (16 * i)).toUInt16.toNat = part val.toNat i := by
  have hshift : (UInt64.ofNat (16 * i)).toNat = 16 * i := UInt64.toNat_ofNat_of_lt' (by
    simp only [UInt64.size]
    omega)
  have hmod : 16 * i % 64 = 16 * i := Nat.mod_eq_of_lt (by omega)
  rw [UInt64.toNat_toUInt16, UInt64.toNat_shiftRight, hshift, hmod, Nat.shiftRight_eq_div_pow]
  rfl

/-- The first `n` patches change the words from `start` on, each with its own immediate. -/
theorem getElem?_patches (imm : Nat → UInt16) (code : List UInt32) (start n j : Nat) :
    ((List.range n).foldl (fun code i =>
        code.set (start + i) (patchInsn (code.getD (start + i) 0) (imm i))) code)[j]? =
      if start ≤ j ∧ j < start + n then code[j]?.map fun insn => patchInsn insn (imm (j - start))
      else code[j]? := by
  induction n generalizing j with
  | zero =>
    rw [if_neg (by omega)]
    rfl
  | succ n ih =>
    rw [List.range_succ, List.foldl_append, List.foldl_cons, List.foldl_nil]
    generalize (List.range n).foldl (fun code i =>
      code.set (start + i) (patchInsn (code.getD (start + i) 0) (imm i))) code = before at ih ⊢
    have hat : before[start + n]? = code[start + n]? := by
      rw [ih, if_neg (by omega)]
    by_cases hj : start + n = j
    · subst hj
      rw [if_pos (by omega), Nat.add_sub_cancel_left, List.getD_eq_getElem?_getD, hat]
      cases hcode : code[start + n]? with
      | none =>
        rw [List.set_eq_of_length_le (List.getElem?_eq_none_iff.mp (hat.trans hcode)), hat, hcode]
        rfl
      | some insn =>
        obtain ⟨hlt, -⟩ := List.getElem?_eq_some_iff.mp (hat.trans hcode)
        rw [List.getElem?_set_self hlt]
        rfl
    · rw [List.getElem?_set_ne hj, ih]
      by_cases hlt : start ≤ j ∧ j < start + n
      · rw [if_pos hlt, if_pos (by omega)]
      · rw [if_neg hlt, if_neg (by omega)]

/-- An address is filled in over four words. -/
theorem getElem?_zpPatchImm64 (code : List UInt32) (start : Nat) (val : UInt64) (j : Nat) :
    (zpPatchImm64 code start val)[j]? =
      if start ≤ j ∧ j < start + 4 then
        code[j]?.map fun insn => patchInsn insn (val >>> UInt64.ofNat (16 * (j - start))).toUInt16
      else code[j]? :=
  getElem?_patches (fun i => (val >>> UInt64.ofNat (16 * i)).toUInt16) code start 4 j

/-- Four words that move to a register, once they are patched. -/
theorem moves_of_words {start reg : Nat} {val : UInt64}
    (hwords : MovesTo (((tmpl.drop start).take 4).map UInt32.toNat) reg)
    (hcode : ∀ i < 4, a.code[start + i]? =
      tmpl[start + i]?.map fun insn => patchInsn insn (val >>> UInt64.ofNat (16 * i)).toUInt16) :
    a.Moves start 4 fun regs => regs reg = val.toNat := by
  intro regs
  obtain ⟨regs', hexec, hreg, -⟩ := exec_parts hwords val.toNat_lt regs
  refine ⟨regs', ?_, hreg⟩
  rw [← hexec]
  congr 1
  apply List.ext_getElem?
  intro i
  by_cases hi : i < 4
  · have hlen : start + i < tmpl.length := by
      have h := hwords.length
      rw [List.length_map, List.length_take, List.length_drop] at h
      omega
    have hword : tmpl[start + i]? = some tmpl[start + i] := List.getElem?_eq_getElem hlen
    have hgetD : (((tmpl.drop start).take 4).map UInt32.toNat).getD i 0 =
        tmpl[start + i].toNat := by
      rw [List.getD_eq_getElem?_getD, List.getElem?_map, List.getElem?_take_of_lt hi,
        List.getElem?_drop, hword]
      rfl
    rw [List.getElem?_map, List.getElem?_take_of_lt hi, List.getElem?_drop, hcode i hi, hword,
      List.getElem?_map, List.getElem?_range hi]
    simp only [Option.map_some, hgetD, toNat_patchInsn, toNat_immediate val hi]
  · rw [List.getElem?_eq_none (by simp; omega), List.getElem?_eq_none (by simp; omega)]

theorem movesTo_20 : MovesTo (((tmpl.drop 2).take 4).map UInt32.toNat) 20 :=
  ⟨by decide, fun place hplace => ⟨0, by interval_cases place <;> decide⟩⟩

theorem movesTo_21 : MovesTo (((tmpl.drop 6).take 4).map UInt32.toNat) 21 :=
  ⟨by decide, fun place hplace => ⟨0, by interval_cases place <;> decide⟩⟩

theorem movesTo_23 : MovesTo (((tmpl.drop 10).take 4).map UInt32.toNat) 23 :=
  ⟨by decide, fun place hplace => ⟨0, by interval_cases place <;> decide⟩⟩

/-- A move of an `int` into `x0` or `x1`. -/
theorem decode_movz (base value : UInt32) {reg : Nat}
    (hmask : base.toNat &&& 0xffe0001f = base.toNat)
    (hdecode : decode base.toNat = some ⟨false, 0, 0, reg⟩) :
    decode (base ||| ((value &&& 0xffff) <<< 5)).toNat =
      some ⟨false, 0, value.toNat % 2 ^ 16, reg⟩ := by
  have hlow : (value &&& 0xffff).toNat = value.toNat % 2 ^ 16 :=
    Nat.and_two_pow_sub_one_eq_mod _ 16
  have hlt : value.toNat % 2 ^ 16 < 2 ^ 16 := Nat.mod_lt _ (by decide)
  have hword : (base ||| ((value &&& 0xffff) <<< 5)).toNat =
      patch base.toNat (value.toNat % 2 ^ 16) := by
    rw [UInt32.toNat_or, UInt32.toNat_shiftLeft, hlow, patch, hmask, Nat.shiftLeft_eq]
    congr 1
    exact Nat.mod_eq_of_lt (by simp; omega)
  rw [hword, decode_patch hdecode hlt]

/-- The low half of an `int` is the `int` when it is between 0 and 65535. -/
theorem intOf_low (fd : Int32) :
    intOf (fd.toUInt32.toNat % 2 ^ 16) = fd.toInt ↔ 0 ≤ fd.toInt ∧ fd.toInt ≤ 65535 := by
  have hlt : fd.toUInt32.toNat < 2 ^ 32 := fd.toUInt32.toNat_lt
  have hint : fd.toInt = fd.toUInt32.toBitVec.toInt := rfl
  have hnat : fd.toUInt32.toBitVec.toNat = fd.toUInt32.toNat := rfl
  rw [hint, BitVec.toInt_eq_toNat_cond, hnat, intOf, ArmJumps.signExtend]
  omega

/-- A literal holds an `int`. -/
theorem intOf_toUInt32 (fd : Int32) : intOf fd.toUInt32.toNat = fd.toInt := by
  have hlt : fd.toUInt32.toNat < 2 ^ 32 := fd.toUInt32.toNat_lt
  have hint : fd.toInt = fd.toUInt32.toBitVec.toInt := rfl
  have hnat : fd.toUInt32.toBitVec.toNat = fd.toUInt32.toNat := rfl
  rw [hint, BitVec.toInt_eq_toNat_cond, hnat, intOf, ArmJumps.signExtend]
  omega

theorem length_zpPatchImm64 (code : List UInt32) (start : Nat) (val : UInt64) :
    (zpPatchImm64 code start val).length = code.length := by
  simp [zpPatchImm64, List.range_succ]

/-- The moves of descriptors, in front of the two calls that they are for. -/
theorem descriptor_words (a : StubArgs) :
    a.code[40]? = some ((0xd2800000 : UInt32) ||| ((a.coreFd.toUInt32 &&& 0xffff) <<< 5)) ∧
    a.code[45]? = some ((0xd2800000 : UInt32) ||| ((a.coreFd.toUInt32 &&& 0xffff) <<< 5)) ∧
    a.code[46]? =
      some ((0xd2800001 : UInt32) ||| ((a.earlyPacketArg.toUInt32 &&& 0xffff) <<< 5)) := by
  have hlength : (zpPatchImm64 (zpPatchImm64 (zpPatchImm64 tmpl 2 a.saved) 6 a.dlopenAddr) 10
      a.dlsymAddr).length = 53 := by
    rw [length_zpPatchImm64, length_zpPatchImm64, length_zpPatchImm64]
    rfl
  simp only [StubArgs.code]
  refine ⟨?_, ?_, ?_⟩
  · rw [List.getElem?_set_ne (by decide), List.getElem?_set_ne (by decide),
      List.getElem?_set_self (by omega)]
  · rw [List.getElem?_set_ne (by decide),
      List.getElem?_set_self (by simp only [List.length_set]; omega)]
  · rw [List.getElem?_set_self (by simp only [List.length_set]; omega)]

/-- The words from one that is known on. -/
theorem take_drop {words : List UInt32} {start : Nat} {word : UInt32}
    (h : words[start]? = some word) (n : Nat) :
    (words.drop start).take (n + 1) = word :: (words.drop (start + 1)).take n := by
  obtain ⟨hlt, rfl⟩ := List.getElem?_eq_some_iff.mp h
  rw [List.drop_eq_getElem_cons hlt, List.take_succ_cons]

/-- The descriptor that the stub closes. -/
theorem moves_closed (P : Regs → Prop) : a.Moves 40 1 P ↔
    ∀ regs, P (Function.update regs 0 (a.coreFd.toUInt32.toNat % 2 ^ 16)) := by
  have hword : (a.code.drop 40).take 1 =
      [(0xd2800000 : UInt32) ||| ((a.coreFd.toUInt32 &&& 0xffff) <<< 5)] := by
    rw [take_drop (descriptor_words a).1 0, List.take_zero]
  have hdecode := decode_movz 0xd2800000 a.coreFd.toUInt32 (by decide)
    (by decide : decode 0xd2800000 = some ⟨false, 0, 0, 0⟩)
  simp only [StubArgs.Moves, hword, List.map_cons, List.map_nil, exec, hdecode, Move.value,
    Bool.false_eq_true, if_false, Nat.mul_zero, pow_zero, Nat.mul_one, Option.some.injEq,
    exists_eq_left']

/-- The arguments of the entry. -/
theorem moves_arguments (P : Regs → Prop) : a.Moves 45 2 P ↔
    ∀ regs, P (Function.update (Function.update regs 0 (a.coreFd.toUInt32.toNat % 2 ^ 16)) 1
      (a.earlyPacketArg.toUInt32.toNat % 2 ^ 16)) := by
  have hwords : (a.code.drop 45).take 2 =
      [(0xd2800000 : UInt32) ||| ((a.coreFd.toUInt32 &&& 0xffff) <<< 5),
        (0xd2800001 : UInt32) ||| ((a.earlyPacketArg.toUInt32 &&& 0xffff) <<< 5)] := by
    rw [take_drop (descriptor_words a).2.1 1, take_drop (descriptor_words a).2.2 0, List.take_zero]
  have hfd := decode_movz 0xd2800000 a.coreFd.toUInt32 (by decide)
    (by decide : decode 0xd2800000 = some ⟨false, 0, 0, 0⟩)
  have harg := decode_movz 0xd2800001 a.earlyPacketArg.toUInt32 (by decide)
    (by decide : decode 0xd2800001 = some ⟨false, 0, 0, 1⟩)
  simp only [StubArgs.Moves, hwords, List.map_cons, List.map_nil, exec, hfd, harg, Move.value,
    Bool.false_eq_true, if_false, Nat.mul_zero, pow_zero, Nat.mul_one, Option.some.injEq,
    exists_eq_left']

/-- The words of the stub in front of the moves of descriptors. -/
theorem getElem?_code (a : StubArgs) {j : Nat} (hj : j < 40) :
    a.code[j]? = (zpPatchImm64 (zpPatchImm64 (zpPatchImm64 tmpl 2 a.saved) 6 a.dlopenAddr) 10
      a.dlsymAddr)[j]? := by
  simp only [StubArgs.code]
  rw [List.getElem?_set_ne (by omega), List.getElem?_set_ne (by omega),
    List.getElem?_set_ne (by omega)]

/-- The three addresses are always built. -/
theorem moves_addresses (a : StubArgs) :
    (a.Moves 2 4 fun regs => regs 20 = a.saved.toNat) ∧
    (a.Moves 6 4 fun regs => regs 21 = a.dlopenAddr.toNat) ∧
    (a.Moves 10 4 fun regs => regs 23 = a.dlsymAddr.toNat) := by
  refine ⟨moves_of_words movesTo_20 fun i hi => ?_, moves_of_words movesTo_21 fun i hi => ?_,
    moves_of_words movesTo_23 fun i hi => ?_⟩
  · rw [getElem?_code a (by omega), getElem?_zpPatchImm64, if_neg (by omega),
      getElem?_zpPatchImm64, if_neg (by omega), getElem?_zpPatchImm64, if_pos (by omega),
      Nat.add_sub_cancel_left]
  · rw [getElem?_code a (by omega), getElem?_zpPatchImm64, if_neg (by omega),
      getElem?_zpPatchImm64, if_pos (by omega), getElem?_zpPatchImm64, if_neg (by omega),
      Nat.add_sub_cancel_left]
  · rw [getElem?_code a (by omega), getElem?_zpPatchImm64, if_pos (by omega),
      getElem?_zpPatchImm64, if_neg (by omega), getElem?_zpPatchImm64, if_neg (by omega),
      Nat.add_sub_cancel_left]

/-- The 64-bit stub builds its two numbers exactly if they have 16 bits and no sign. -/
theorem materialises_iff : a.Materialises ↔
    (0 ≤ a.coreFd.toInt ∧ a.coreFd.toInt ≤ 65535) ∧
      (0 ≤ a.earlyPacketArg.toInt ∧ a.earlyPacketArg.toInt ≤ 65535) := by
  rw [← intOf_low, ← intOf_low]
  constructor
  · intro h
    have hargs := (moves_arguments _).mp h.arguments fun _ => 0
    rwa [Function.update_self, Function.update_of_ne (by decide), Function.update_self] at hargs
  · intro h
    obtain ⟨hsaved, hdlopen, hdlsym⟩ := moves_addresses a
    refine ⟨hsaved, hdlopen, hdlsym, (moves_closed _).mpr fun regs => ?_,
      (moves_arguments _).mpr fun regs => ?_⟩
    · rw [Function.update_self]
      exact h.1
    · rwa [Function.update_self, Function.update_of_ne (by decide), Function.update_self]

/-! ## 4. The 32-bit stub -/

open StubArgs (put)

theorem length_put (code : List UInt8) {offset : Nat} (value : UInt32)
    (h : offset + 4 ≤ code.length) : (put code offset value).length = code.length := by
  simp only [put, List.length_append, List.length_take, length_toBytes, List.length_drop]
  omega

/-- What is put into the code is read there. -/
theorem readAt_put {code : List UInt8} {offset : Nat} (value : UInt32)
    (h : offset + 4 ≤ code.length) : readAt offset 4 (put code offset value) = value.toNat := by
  have htake : (code.take offset).length = offset := List.length_take_of_le (by omega)
  rw [put, List.append_assoc, readAt_skip (by omega), htake, Nat.sub_self]
  exact readAt_here value.toNat_lt

/-- Elsewhere the code is as it was. -/
theorem readAt_put_of_ne {code : List UInt8} {offset p w : Nat} (value : UInt32)
    (h : offset + 4 ≤ code.length) (hne : p + w ≤ offset ∨ offset + 4 ≤ p) :
    readAt p w (put code offset value) = readAt p w code := by
  have htake : (code.take offset).length = offset := List.length_take_of_le (by omega)
  rw [readAt, readAt]
  congr 1
  rcases hne with hne | hne
  · rw [put, List.append_assoc, List.drop_append_of_le_length (by omega),
      List.take_append_of_le_length (by rw [List.length_drop]; omega), List.drop_take,
      List.take_take, Nat.min_eq_left (by omega)]
  · have hfront : (code.take offset ++ toBytes 4 value.toNat).length = offset + 4 := by
      rw [List.length_append, htake, length_toBytes]
    rw [put, List.drop_append, List.drop_of_length_le (by omega), hfront, List.nil_append,
      List.drop_drop, Nat.add_sub_cancel' hne]

/-- Several words put one after the other. -/
def puts (code : List UInt8) (words : List (Nat × UInt32)) : List UInt8 :=
  words.foldl (fun code word => put code word.1 word.2) code

/-- What lies apart from all literals is read as before. -/
theorem readAt_puts_of_ne {words : List (Nat × UInt32)} {code : List UInt8} {p w : Nat}
    (h : ∀ word ∈ words, word.1 + 4 ≤ code.length)
    (hne : ∀ word ∈ words, p + w ≤ word.1 ∨ word.1 + 4 ≤ p) :
    readAt p w (puts code words) = readAt p w code := by
  induction words generalizing code with
  | nil => rfl
  | cons word words ih =>
    rw [List.forall_mem_cons] at h hne
    have hlen := length_put code word.2 h.1
    rw [puts, List.foldl_cons, ← puts, ih (by rw [hlen]; exact h.2) hne.2,
      readAt_put_of_ne word.2 h.1 hne.1]

/-- A literal is read back when it is apart from the others. -/
theorem readAt_puts {words : List (Nat × UInt32)} {code : List UInt8} {word : Nat × UInt32}
    (h : ∀ word ∈ words, word.1 + 4 ≤ code.length)
    (hapart : words.Pairwise fun v w => v.1 + 4 ≤ w.1) (hword : word ∈ words) :
    readAt word.1 4 (puts code words) = word.2.toNat := by
  induction words generalizing code with
  | nil => cases hword
  | cons first words ih =>
    rw [List.forall_mem_cons] at h
    obtain ⟨hfirst, hwords⟩ := List.pairwise_cons.mp hapart
    have hlen := length_put code first.2 h.1
    have hroom : ∀ v ∈ words, v.1 + 4 ≤ (put code first.1 first.2).length := by
      rw [hlen]
      exact h.2
    rw [puts, List.foldl_cons, ← puts]
    rcases List.mem_cons.mp hword with rfl | hmem
    · rw [readAt_puts_of_ne hroom fun v hv => .inl (hfirst v hv), readAt_put _ h.1]
    · exact ih hroom hwords hmem

/-- The literals and their places. -/
def literalWords (a : StubArgs) : List (Nat × UInt32) :=
  [(0x50, a.saved.toUInt32), (0x54, a.dlopenAddr.toUInt32), (0x58, a.dlsymAddr.toUInt32),
    (0x5c, a.loaderFd.toUInt32), (0x60, a.coreFd.toUInt32), (0x64, a.earlyPacketArg.toUInt32)]

/-- The 32-bit stub is the template with its literals put in. -/
theorem compatCode_eq (a : StubArgs) : a.compatCode = puts compatTmpl (literalWords a) := rfl

/-- The literals lie behind the code, in the template. -/
theorem literalWords_fit (a : StubArgs) :
    ∀ word ∈ literalWords a, 0x50 ≤ word.1 ∧ word.1 + 4 ≤ compatTmpl.length := by
  have hlen : compatTmpl.length = 0x68 := by decide
  intro word hword
  simp only [literalWords, List.mem_cons, List.not_mem_nil, or_false] at hword
  rcases hword with rfl | rfl | rfl | rfl | rfl | rfl <;> omega

/-- A literal is read at its place. -/
theorem readAt_literal {a : StubArgs} {word : Nat × UInt32} (hword : word ∈ literalWords a) :
    readAt word.1 4 a.compatCode = word.2.toNat := by
  rw [compatCode_eq]
  exact readAt_puts (fun w hw => (literalWords_fit a w hw).2) (by simp [literalWords]) hword

/-- In front of the literals is the template. -/
theorem readAt_code (a : StubArgs) {p w : Nat} (h : p + w ≤ 0x50) :
    readAt p w a.compatCode = readAt p w compatTmpl := by
  rw [compatCode_eq]
  exact readAt_puts_of_ne (fun v hv => (literalWords_fit a v hv).2)
    fun v hv => .inl (h.trans (literalWords_fit a v hv).1)

/-- A load of the template brings a literal into a register. -/
theorem loadLiteral_code {a : StubArgs} {pc offset : Nat} (reg : Nat) {value : UInt32}
    (hword : (offset, value) ∈ literalWords a) (hpc : pc + 2 ≤ 0x50)
    (hop : ArmJumps.bits (readAt pc 2 compatTmpl) 11 5 = 0b01001)
    (hreg : ArmJumps.bits (readAt pc 2 compatTmpl) 8 3 = reg)
    (htarget : (pc + 4) / 4 * 4 + ArmJumps.bits (readAt pc 2 compatTmpl) 0 8 * 4 = offset) :
    loadLiteral a.compatCode pc = some (reg, value.toNat) := by
  rw [loadLiteral, readAt_code a hpc, if_pos hop, hreg, htarget, readAt_literal hword]

/-- **The 32-bit stub loads what it is given.** -/
theorem literals (a : StubArgs) : a.Literals := by
  have hsaved : (0x50, a.saved.toUInt32) ∈ literalWords a := by simp [literalWords]
  have hdlopen : (0x54, a.dlopenAddr.toUInt32) ∈ literalWords a := by simp [literalWords]
  have hdlsym : (0x58, a.dlsymAddr.toUInt32) ∈ literalWords a := by simp [literalWords]
  have hloader : (0x5c, a.loaderFd.toUInt32) ∈ literalWords a := by simp [literalWords]
  have hcore : (0x60, a.coreFd.toUInt32) ∈ literalWords a := by simp [literalWords]
  have harg : (0x64, a.earlyPacketArg.toUInt32) ∈ literalWords a := by simp [literalWords]
  constructor
  · exact loadLiteral_code _ hsaved (by decide) (by decide) (by decide) (by decide)
  · exact loadLiteral_code _ hdlopen (by decide) (by decide) (by decide) (by decide)
  · exact loadLiteral_code _ hdlsym (by decide) (by decide) (by decide) (by decide)
  · rw [loadLiteral_code 0 hloader (by decide) (by decide) (by decide) (by decide),
      Option.map_some, intOf_toUInt32]
  · rw [loadLiteral_code 0 hcore (by decide) (by decide) (by decide) (by decide),
      Option.map_some, intOf_toUInt32]
  · rw [loadLiteral_code 1 harg (by decide) (by decide) (by decide) (by decide),
      Option.map_some, intOf_toUInt32]
  · rw [loadLiteral_code 0 hcore (by decide) (by decide) (by decide) (by decide),
      Option.map_some, intOf_toUInt32]

/-! ## 5. When the stubs agree -/

/-- The argument of the early packet has room in an immediate. -/
theorem earlyPacketArg_range {earlyNative : Bool} {packetFd arg : Int32}
    (h : earlyPacketArg earlyNative packetFd = some arg) : 0 ≤ arg.toInt ∧ arg.toInt ≤ 65535 := by
  rw [earlyPacketArg] at h
  split_ifs at h with hearly hbad
  · obtain rfl := Option.some.inj h
    decide
  · obtain rfl := Option.some.inj h
    have hzero : (0 : Int32).toInt = 0 := rfl
    have hone : (1 : Int32).toInt = 1 := rfl
    have hmax : (0xffff : Int32).toInt = 65535 := rfl
    rw [not_or, ge_iff_le, Int32.lt_iff_toInt_lt, Int32.le_iff_toInt_le, hzero, hmax] at hbad
    have hsum : (packetFd + 1).toInt = packetFd.toInt + 1 := by
      rw [Int32.toInt_add, hone, Int.bmod_eq_of_le (by omega) (by omega)]
    omega

/-- **The stubs agree exactly when the descriptor and the argument are between 0 and 65535.** -/
theorem stubs_agree_iff (a : StubArgs) : a.Materialises ∧ a.Literals ↔
    (0 ≤ a.coreFd.toInt ∧ a.coreFd.toInt ≤ 65535) ∧
      (0 ≤ a.earlyPacketArg.toInt ∧ a.earlyPacketArg.toInt ≤ 65535) := by
  rw [← materialises_iff]
  exact and_iff_left (literals a)

/-- A core that is opened directly. -/
def directCore : StubArgs := ⟨0x10000, 0x20000, 0x30000, 5, stubCoreFd false 5, 0⟩

/-- For the descriptor `-1` the 64-bit stub builds 65535. -/
theorem not_stubs_agree : ¬ ∀ a : StubArgs, -1 ≤ a.coreFd.toInt →
    (∃ early packetFd, earlyPacketArg early packetFd = some a.earlyPacketArg) →
      a.Materialises ∧ a.Literals := by
  intro h
  have hagree := h directCore (by decide) ⟨false, 0, rfl⟩
  have hrange := (materialises_iff.mp hagree.1).1.1
  exact absurd hrange (by decide)

end YukiZygisk.InjectStubs
