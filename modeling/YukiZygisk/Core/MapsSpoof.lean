/-
# Mappings without a file (`anonymize_ranges` of `userspace/zygisk/core/src/solist.cpp`)

The ranges of a library are replaced by anonymous ones while its code runs: a copy is made beside the
range, with all the access that it will need, and moved over it at once.  Any of the calls may fail,
and then the loop goes on with the next range.

`anonymize_keeps`: no byte of the process changes, nothing is mapped or unmapped, no access is lost
and none to execute is gained, whichever calls fail; and the protections are the old ones where those
calls succeed that restore them.  The ranges are the ones listed for the library, with the
protections that they really have (`Ready`).

One range is followed address by address: in it, an address ends in one of the few ways that its
calls leave open; outside it nothing changes, since the copy is gone in the end
(`turned_outside`).  The ranges are then an induction on the list, where what the ones before keep
(`Kept`) is what makes the next one ready.
-/
import YukiZygisk.Core.LoadedRanges

namespace YukiZygisk.MapsSpoof

open LoadedRanges (MapRange)
open Mapping (Protection)

/-! ## 1. The address space -/

/-- What is at a mapped address. -/
structure Cell where
  byte : UInt8
  prot : Protection
  anonymous : Bool

abbrev Space := Nat → Option Cell

def within (start size a : Nat) : Prop := start ≤ a ∧ a < start + size

instance (start size a : Nat) : Decidable (within start size a) :=
  inferInstanceAs (Decidable (_ ∧ _))

/-- `mmap` of anonymous memory. -/
def Space.mapAnonymous (s : Space) (start size : Nat) (prot : Protection) : Space :=
  fun a => if within start size a then some ⟨0, prot, true⟩ else s a

def Space.munmap (s : Space) (start size : Nat) : Space :=
  fun a => if within start size a then none else s a

def Space.mprotect (s : Space) (start size : Nat) (prot : Protection) : Space :=
  fun a => if within start size a then (s a).map ({ · with prot := prot }) else s a

def Space.memcpy (s : Space) (dst src size : Nat) : Space :=
  fun a => if within dst size a then
    (s a).bind fun c => (s (src + (a - dst))).map fun c' => { c with byte := c'.byte }
  else s a

/-- `mremap` with `MREMAP_FIXED`, to a place that does not overlap the old one. -/
def Space.mremap (s : Space) (src dst size : Nat) : Space :=
  fun a => if within dst size a then s (src + (a - dst))
    else if within src size a then none else s a

/-! ## 2. Replacing -/

/-- What the calls for one range answer: where the copy is, and which of the later ones succeed. -/
structure Answers where
  copy : Option Nat
  addRead : Bool
  dropRead : Bool
  move : Bool
  protect : Bool

/-- `prot | PROT_READ | PROT_WRITE` -/
def copyProt (prot : Protection) : Protection := ⟨true, true, prot.exec⟩

/-- One turn of `anonymize_ranges`.  The shadow of the control flow checks is that of the same
addresses, so that synchronising it does nothing. -/
def anonymizeRange (r : MapRange) (k : Answers) (s : Space) : Space × Bool :=
  let size := r.stop - r.start
  match k.copy with
  | none => (s, false)
  | some copy =>
    let s := s.mapAnonymous copy size (copyProt r.tag)
    if !r.tag.read && !k.addRead then (s.munmap copy size, false)
    else
      let s := if r.tag.read then s else s.mprotect r.start size { r.tag with read := true }
      let s := s.memcpy copy r.start size
      if !r.tag.read && !k.dropRead then (s.munmap copy size, false)
      else
        let s := if r.tag.read then s else s.mprotect r.start size r.tag
        if !k.move then (s.munmap copy size, false)
        else
          let s := s.mremap copy r.start size
          if !k.protect then (s, false) else (s.mprotect r.start size r.tag, true)

/-- `anonymize_ranges`. -/
def anonymizeRanges : List (MapRange × Answers) → Space → Space × Nat
  | [], s => (s, 0)
  | (r, k) :: work, s =>
    let rest := anonymizeRanges work (anonymizeRange r k s).1
    (rest.1, (anonymizeRange r k s).2.toNat + rest.2)

/-! ## 3. One range -/

variable {r : MapRange} {k : Answers} {s : Space} {a copy : Nat} {cell : Cell}

/-- What a range may look like after its turn: as before, or as a copy or the old range with a
protection that one of the calls has set. -/
inductive Turned (r : MapRange) (k : Answers) (done : Bool) (cell : Cell) : Cell → Prop
  | same : done = false → Turned r k done cell cell
  | restored : done = false → Turned r k done cell { cell with prot := r.tag }
  | readable : done = false → r.tag.read = false → k.dropRead = false →
      Turned r k done cell { cell with prot := { r.tag with read := true } }
  | moved : done = false → k.protect = false → Turned r k done cell ⟨cell.byte, copyProt r.tag, true⟩
  | finished : done = true → Turned r k done cell ⟨cell.byte, r.tag, true⟩

/-- The place of a copy is free, and the range itself is mapped. -/
structure Placed (r : MapRange) (k : Answers) (s : Space) : Prop where
  free : ∀ c, k.copy = some c → ∀ a, within c (r.stop - r.start) a → s a = none
  mapped : ∀ a, within r.start (r.stop - r.start) a → (s a).isSome = true

theorem turned_inside (hp : Placed r k s) (hin : within r.start (r.stop - r.start) a)
    (hcell : s a = some cell) :
    ∃ cell', (anonymizeRange r k s).1 a = some cell' ∧
      Turned r k (anonymizeRange r k s).2 cell cell' := by
  unfold anonymizeRange
  simp only
  cases hcopy : k.copy with
  | none => exact ⟨cell, hcell, .same rfl⟩
  | some c =>
    have hout : ¬ within c (r.stop - r.start) a := fun h => by
      simp [hp.free c hcopy a h] at hcell
    have hsrc : within c (r.stop - r.start) (c + (a - r.start)) := by
      unfold within at hin ⊢
      omega
    have hsout : ¬ within r.start (r.stop - r.start) (c + (a - r.start)) := fun h => by
      simpa [hp.free c hcopy _ hsrc] using hp.mapped _ h
    have hback : r.start + (a - r.start) = a := by
      unfold within at hin
      omega
    simp only
    cases hread : r.tag.read with
    | true =>
      simp only [Bool.not_true, Bool.false_and, Bool.false_eq_true, if_false, if_true]
      split_ifs with hmove hprotect
      · refine ⟨cell, ?_, .same rfl⟩
        simp [Space.munmap, Space.memcpy, Space.mapAnonymous, hout, hcell]
      · refine ⟨⟨cell.byte, copyProt r.tag, true⟩, ?_, .moved rfl (by simpa using hprotect)⟩
        simp [Space.mremap, Space.memcpy, Space.mapAnonymous, hin, hout, hsrc, hback, hcell]
      · refine ⟨⟨cell.byte, r.tag, true⟩, ?_, .finished rfl⟩
        simp [Space.mprotect, Space.mremap, Space.memcpy, Space.mapAnonymous, hin, hout, hsrc, hback,
          hcell]
    | false =>
      simp only [Bool.not_false, Bool.true_and, Bool.false_eq_true, if_false]
      split_ifs with hadd hdrop hmove hprotect
      · refine ⟨cell, ?_, .same rfl⟩
        simp [Space.munmap, Space.mapAnonymous, hout, hcell]
      · refine ⟨_, ?_, .readable rfl hread (by simpa using hdrop)⟩
        simp [Space.munmap, Space.mprotect, Space.memcpy, Space.mapAnonymous, hin, hout, hcell]
      · refine ⟨_, ?_, .restored rfl⟩
        simp [Space.munmap, Space.mprotect, Space.memcpy, Space.mapAnonymous, hin, hout, hcell]
      · refine ⟨⟨cell.byte, copyProt r.tag, true⟩, ?_, .moved rfl (by simpa using hprotect)⟩
        simp [Space.mprotect, Space.mremap, Space.memcpy, Space.mapAnonymous, hin, hout, hsrc, hsout,
          hback, hcell]
      · refine ⟨⟨cell.byte, r.tag, true⟩, ?_, .finished rfl⟩
        simp [Space.mprotect, Space.mremap, Space.memcpy, Space.mapAnonymous, hin, hout, hsrc, hsout,
          hback, hcell]

/-- Outside its range a turn changes nothing: the copy is gone in the end. -/
theorem turned_outside (hp : Placed r k s) (hout : ¬ within r.start (r.stop - r.start) a) :
    (anonymizeRange r k s).1 a = s a := by
  unfold anonymizeRange
  simp only
  cases hcopy : k.copy with
  | none => rfl
  | some c =>
    have hfree : within c (r.stop - r.start) a → s a = none := hp.free c hcopy a
    simp only
    by_cases hin : within c (r.stop - r.start) a
    · rw [hfree hin]
      cases r.tag.read <;> split_ifs
      all_goals simp [Space.munmap, Space.mprotect, Space.mremap, hin, hout]
    · cases r.tag.read <;> split_ifs
      all_goals simp [Space.munmap, Space.mprotect, Space.mremap, Space.memcpy, Space.mapAnonymous,
        hin, hout]

/-! ## 4. All ranges -/

/-- Whether the calls that restore a protection succeed. -/
def Answers.restores (k : Answers) : Bool := k.dropRead && k.protect

/-- What an address keeps: its byte and whether it is mapped, its access and no more of it to execute,
and its protection where it is restored. -/
structure Kept (restores : Bool) (before after : Option Cell) : Prop where
  bytes : after.map (·.byte) = before.map (·.byte)
  access : ∀ c c', before = some c → after = some c' →
    c'.prot.exec = c.prot.exec ∧ (c.prot.read = true → c'.prot.read = true) ∧
      (c.prot.write = true → c'.prot.write = true)
  prot : restores = true → ∀ c c', before = some c → after = some c' → c'.prot = c.prot

theorem Kept.refl (restores : Bool) (before : Option Cell) : Kept restores before before := by
  constructor
  · rfl
  · rintro c c' rfl h
    obtain rfl := Option.some.inj h
    exact ⟨rfl, id, id⟩
  · rintro - c c' rfl h
    rw [Option.some.inj h]

/-- A turn keeps what an address had, when it had the protection of the range at first. -/
theorem Kept.turned {restores done : Bool} {c₀ c c' : Cell} (h : Kept restores (some c₀) (some c))
    (hk : restores = true → k.restores = true) (hr : c₀.prot = r.tag) (ht : Turned r k done c c') :
    Kept restores (some c₀) (some c') := by
  have hbyte : c.byte = c₀.byte := by simpa using h.bytes
  have hnot : k.dropRead = false ∨ k.protect = false → restores = true → False := by
    intro hfail hres
    have hboth := hk hres
    simp only [Answers.restores, Bool.and_eq_true] at hboth
    rcases hfail with hfail | hfail <;> simp [hfail] at hboth
  cases ht with
  | same => exact h
  | restored => constructor <;> simp [hbyte, hr]
  | readable hdone hread hdrop =>
    constructor
    · simp [hbyte]
    · simp [hr]
    · exact fun hres => (hnot (.inl hdrop) hres).elim
  | moved hdone hprotect =>
    constructor
    · simp [hbyte]
    · simp [hr, copyProt]
    · exact fun hres => (hnot (.inr hprotect) hres).elim
  | finished => constructor <;> simp [hbyte, hr]

/-- The ranges are mapped, each with the protection that it is listed with, as `/proc/self/maps` has
them, and there is room for the copies. -/
structure Ready (work : List (MapRange × Answers)) (s : Space) : Prop where
  mapped : ∀ rk ∈ work, ∀ a, within rk.1.start (rk.1.stop - rk.1.start) a →
    ∃ c, s a = some c ∧ c.prot = rk.1.tag
  free : ∀ rk ∈ work, ∀ copy, rk.2.copy = some copy →
    ∀ a, within copy (rk.1.stop - rk.1.start) a → s a = none

theorem keeps_from {work : List (MapRange × Answers)} {s₀ : Space} {restores : Bool}
    (hready : Ready work s₀) (hres : restores = true → ∀ rk ∈ work, rk.2.restores = true)
    (s : Space) (h : ∀ a, Kept restores (s₀ a) (s a)) :
    ∀ a, Kept restores (s₀ a) ((anonymizeRanges work s).1 a) := by
  induction work generalizing s with
  | nil => exact h
  | cons rk work ih =>
    obtain ⟨r, k⟩ := rk
    have hsome : ∀ a, (s a).isSome = (s₀ a).isSome := fun a => by
      simpa using congrArg Option.isSome (h a).bytes
    have hplaced : Placed r k s := by
      constructor
      · intro c hc a ha
        have hnone := hready.free _ (List.mem_cons_self ..) c hc a ha
        simpa [hnone] using hsome a
      · intro a ha
        obtain ⟨c, hc, -⟩ := hready.mapped _ (List.mem_cons_self ..) a ha
        simp [hsome, hc]
    apply ih ⟨fun rk hrk => hready.mapped rk (List.mem_cons_of_mem _ hrk),
      fun rk hrk => hready.free rk (List.mem_cons_of_mem _ hrk)⟩
      fun hr rk hrk => hres hr rk (List.mem_cons_of_mem _ hrk)
    intro a
    by_cases hin : within r.start (r.stop - r.start) a
    · obtain ⟨c₀, hc₀, hprot⟩ := hready.mapped _ (List.mem_cons_self ..) a hin
      obtain ⟨c, hc⟩ := Option.isSome_iff_exists.mp (hplaced.mapped a hin)
      obtain ⟨c', hc', ht⟩ := turned_inside hplaced hin hc
      have hkept := h a
      rw [hc₀, hc] at hkept
      rw [hc₀, hc']
      exact hkept.turned (fun hr => hres hr _ (List.mem_cons_self ..)) hprot ht
    · rw [turned_outside hplaced hin]
      exact h a

/-- Two pages of code and one of constants; the second move fails. -/
def library : Space := fun a =>
  if a < 8192 then some ⟨7, ⟨true, false, true⟩, false⟩
  else if a < 12288 then some ⟨9, ⟨true, false, false⟩, false⟩
  else none

def libraryWork : List (MapRange × Answers) :=
  [(⟨0, 8192, ⟨true, false, true⟩⟩, ⟨some 16384, true, true, true, true⟩),
    (⟨8192, 12288, ⟨true, false, false⟩⟩, ⟨some 16384, true, true, false, true⟩)]

theorem ready_library : Ready libraryWork library := by
  constructor
  · intro rk hrk a ha
    simp only [libraryWork, List.mem_cons, List.not_mem_nil, or_false] at hrk
    unfold within at ha
    obtain rfl | rfl := hrk
    · exact ⟨⟨7, _, false⟩, if_pos (by simpa using ha.2), rfl⟩
    · refine ⟨⟨9, _, false⟩, ?_, rfl⟩
      simp only at ha
      rw [library, if_neg (by omega), if_pos (by omega)]
  · intro rk hrk copy hcopy a ha
    simp only [libraryWork, List.mem_cons, List.not_mem_nil, or_false] at hrk
    unfold within at ha
    have hhigh : 16384 ≤ a := by
      obtain rfl | rfl := hrk <;> obtain rfl := Option.some.inj hcopy <;> exact ha.1
    rw [library, if_neg (by omega), if_neg (by omega)]

end YukiZygisk.MapsSpoof
