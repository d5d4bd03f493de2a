/-
# Hiding from the linker's list (`userspace/zygisk/core/src/solist.cpp`)

`hide_from_solist` walks the linker's list of libraries from its head slot and takes out every node
whose path contains a text.  What is in front of the walk and what is ahead of it are one list all
the time: a node is taken out by writing what is behind it where the walk came from, the head slot
or the last node that stays (`hideLoop_chain`).  So what is read from the slot afterwards is the
nodes that stay, in their order (`hideFromSolist_exact`).

The linker's list is a chain of words in its memory, and the walk keeps a place where it came from.
The invariant of the loop splits the list in two: what stays, which ends at that place, and what is
ahead, whose first node is read there.  Taking a node out and passing over one both keep it
(`SolistIs.unlinkHead`, `SolistIs.unlink`).  The list is finite, so the loop ends at its null, and
the paths of the nodes are not touched.
-/
import YukiZygisk.Lib.Chains

namespace YukiZygisk.Solist

open Chains

/-! ## 1. The linker's memory -/

/-- Words by their addresses; zero is the null pointer. -/
abbrev Memory := ℕ → ℕ

/-- `kMaxWalk`. -/
def kMaxWalk : ℕ := 2000

/-- What `u_init` finds in the linker: the slot of the list's head, and where a node keeps its
link; and `soinfo::get_realpath`. -/
structure Linker where
  headSlot : ℕ
  nextOff : ℕ
  realpath : ℕ → Option (List UInt8)

/-- `strstr` finds the text in a path that is there. -/
def pathContains (path : Option (List UInt8)) (text : List UInt8) : Bool :=
  path.any fun p => decide (text <:+: p)

/-- "linker". -/
def linkerName : List UInt8 := [108, 105, 110, 107, 101, 114]

variable (linker : Linker) (pathSubstr : List UInt8)

/-- `u_next`. -/
def uNext (mem : Memory) (si : ℕ) : ℕ := mem (si + linker.nextOff)

/-- `u_set_next`. -/
def uSetNext (mem : Memory) (si next : ℕ) : Memory :=
  Function.update mem (si + linker.nextOff) next

/-- The test of a node. -/
def hides (si : ℕ) : Bool := pathContains (linker.realpath si) pathSubstr

/-- The loop of `hide_from_solist`. -/
def hideLoop : ℕ → ℕ → ℕ → Memory → ℕ → Memory × ℕ
  | 0, _, _, mem, hidden => (mem, hidden)
  | turns + 1, prev, cur, mem, hidden =>
    if cur = 0 then (mem, hidden)
    else
      let next := uNext linker mem cur
      if hides linker pathSubstr cur then
        let mem :=
          if prev = 0 then Function.update mem linker.headSlot next
          else uSetNext linker mem prev next
        hideLoop turns prev next mem (hidden + 1)
      else hideLoop turns cur next mem hidden

/-- `hide_from_solist`; `none` is a linker that `u_init` does not get to know. -/
def hideFromSolist (found : Option Linker) (pathSubstr : List UInt8) (mem : Memory) :
    Memory × ℕ :=
  match found with
  | none => (mem, 0)
  | some linker =>
    if linker.headSlot = 0 then (mem, 0)
    else
      let head := mem linker.headSlot
      if head = 0 then (mem, 0)
      else if pathContains (linker.realpath head) linkerName then
        hideLoop linker pathSubstr kMaxWalk 0 head mem 0
      else (mem, 0)

/-! ## 2. The list -/

/-- A pointer that may be null. -/
def pointer (word : ℕ) : Option ℕ := if word = 0 then none else some word

/-- The nodes are read from the head slot, one behind the other, and the list ends behind them; no
node is met twice, and the slot is in none of them. -/
structure SolistIs (mem : Memory) (nodes : List ℕ) : Prop where
  chain : Chain (fun si => pointer (uNext linker mem si)) (pointer (mem linker.headSlot)) nodes
  nodup : nodes.Nodup
  apart : ∀ si ∈ nodes, si + linker.nextOff ≠ linker.headSlot

variable {linker pathSubstr} {mem : Memory} {kept rest : List ℕ} {si : ℕ}

theorem pointer_eq_some {word : ℕ} : pointer word = some si ↔ word = si ∧ si ≠ 0 := by
  rw [pointer]
  split_ifs with h
  · simp only [false_iff, not_and, not_not]
    omega
  · rw [Option.some.injEq]
    exact ⟨fun heq => ⟨heq, heq ▸ h⟩, And.left⟩

theorem pointer_eq_none {word : ℕ} : pointer word = none ↔ word = 0 := by
  rw [pointer]
  split_ifs with h <;> simp [h]

/-- The word that a list of nodes is entered by. -/
theorem word_of_pointer {word : ℕ} (h : pointer word = rest.head?) : word = rest.head?.getD 0 := by
  cases rest with
  | nil => exact pointer_eq_none.mp h
  | cons si rest => exact (pointer_eq_some.mp h).1

/-- A node of the list is no null pointer. -/
theorem ne_zero_of_chain {link : ℕ → ℕ} {word : ℕ} {nodes : List ℕ}
    (h : Chain (fun si => pointer (link si)) (pointer word) nodes) (hmem : si ∈ nodes) :
    si ≠ 0 := by
  induction nodes generalizing word with
  | nil => cases hmem
  | cons sj nodes ih =>
    obtain ⟨hhead, hrest⟩ := h
    rcases List.mem_cons.mp hmem with rfl | hmem
    · exact (pointer_eq_some.mp hhead).2
    · exact ih hrest hmem

/-! ## 3. Taking a node out -/

/-- The first node is taken out at the slot. -/
theorem SolistIs.unlinkHead (h : SolistIs linker mem (si :: rest)) :
    SolistIs linker (Function.update mem linker.headSlot (uNext linker mem si)) rest := by
  obtain ⟨⟨hhead, hrest⟩, hnodup, hapart⟩ := h
  have hapart := fun sj hsj => hapart sj (List.mem_cons_of_mem si hsj)
  refine ⟨?_, (List.nodup_cons.mp hnodup).2, hapart⟩
  rw [Function.update_self]
  refine hrest.congr ?_
  intro sj hsj
  simp only [uNext]
  rw [Function.update_of_ne (hapart sj hsj)]

/-- Another one is taken out at the node in front of it. -/
theorem SolistIs.unlink {prev : ℕ} (h : SolistIs linker mem (kept ++ prev :: si :: rest)) :
    SolistIs linker (uSetNext linker mem prev (uNext linker mem si)) (kept ++ prev :: rest) := by
  obtain ⟨hchain, hnodup, hapart⟩ := h
  have hsub : (kept ++ prev :: rest).Sublist (kept ++ prev :: si :: rest) :=
    ((List.sublist_cons_self si rest).cons_cons prev).append_left kept
  have hprev := hapart prev (List.mem_append_right _ List.mem_cons_self)
  have hslot : uSetNext linker mem prev (uNext linker mem si) linker.headSlot =
      mem linker.headSlot := Function.update_of_ne hprev.symm _ _
  refine ⟨?_, hnodup.sublist hsub, fun sj hsj => hapart sj (hsub.mem hsj)⟩
  rw [hslot]
  refine hchain.unlink hnodup ?_ fun sj hne => ?_
  · simp only [uNext, uSetNext]
    rw [Function.update_self]
  · simp only [uNext, uSetNext]
    rw [Function.update_of_ne (by omega)]

/-- **The walk takes out what matches**, wherever it stands in the list. -/
theorem hideLoop_exact (turns : ℕ) (kept rest : List ℕ) (mem : Memory) (hidden : ℕ)
    (h : SolistIs linker mem (kept ++ rest)) (hturns : rest.length ≤ turns) :
    SolistIs linker
      (hideLoop linker pathSubstr turns (kept.getLast?.getD 0) (rest.head?.getD 0) mem hidden).1
      (kept ++ rest.filter fun si => !hides linker pathSubstr si) ∧
    (hideLoop linker pathSubstr turns (kept.getLast?.getD 0) (rest.head?.getD 0) mem hidden).2 =
      hidden + rest.countP (hides linker pathSubstr) := by
  induction turns generalizing kept rest mem hidden with
  | zero =>
    obtain rfl := List.length_eq_zero_iff.mp (Nat.le_zero.mp hturns)
    exact ⟨h, rfl⟩
  | succ turns ih =>
    cases rest with
    | nil => exact ⟨h, rfl⟩
    | cons si rest =>
      have hlength : rest.length ≤ turns := Nat.le_of_succ_le_succ hturns
      have hne : si ≠ 0 := ne_zero_of_chain h.chain (List.mem_append_right _ List.mem_cons_self)
      have hnext : uNext linker mem si = rest.head?.getD 0 := word_of_pointer h.chain.next_eq
      rw [hideLoop, List.head?_cons, Option.getD_some, if_neg hne]
      dsimp only
      by_cases hmatch : hides linker pathSubstr si = true
      · rw [if_pos hmatch, List.filter_cons_of_neg (by simp [hmatch]),
          List.countP_cons_of_pos hmatch, ← Nat.add_assoc, Nat.add_right_comm]
        rcases List.eq_nil_or_concat' kept with rfl | ⟨front, prev, rfl⟩
        · rw [List.getLast?_nil, Option.getD_none, if_pos rfl]
          have hrest := ih [] rest _ (hidden + 1) h.unlinkHead hlength
          rwa [List.getLast?_nil, Option.getD_none, ← hnext] at hrest
        · rw [List.append_assoc, List.singleton_append] at h
          have hprev : prev ≠ 0 :=
            ne_zero_of_chain h.chain (List.mem_append_right _ List.mem_cons_self)
          have hout := h.unlink
          rw [← List.singleton_append, ← List.append_assoc] at hout
          rw [List.getLast?_concat, Option.getD_some, if_neg hprev]
          have hrest := ih (front ++ [prev]) rest _ (hidden + 1) hout hlength
          rwa [List.getLast?_concat, Option.getD_some, ← hnext] at hrest
      · rw [if_neg hmatch, List.filter_cons_of_pos (by simpa using hmatch),
          List.countP_cons_of_neg hmatch]
        rw [← List.singleton_append, ← List.append_assoc] at h
        have hrest := ih (kept ++ [si]) rest mem hidden h hlength
        rw [List.getLast?_concat, Option.getD_some, ← hnext, List.append_assoc,
          List.singleton_append] at hrest
        exact hrest

/-- **What is read from the head slot afterwards is the nodes that do not match**, in their order,
and the list ends behind them. -/
theorem hideFromSolist_exact {nodes : List ℕ} (hslot : linker.headSlot ≠ 0)
    (h : SolistIs linker mem nodes) (hlength : nodes.length ≤ 2000)
    (hhead : ∀ si, nodes.head? = some si → pathContains (linker.realpath si) linkerName = true) :
    SolistIs linker (hideFromSolist (some linker) pathSubstr mem).1
      (nodes.filter fun si => !hides linker pathSubstr si) ∧
    (hideFromSolist (some linker) pathSubstr mem).2 =
      nodes.countP (hides linker pathSubstr) := by
  simp only [hideFromSolist]
  rw [if_neg hslot]
  cases nodes with
  | nil =>
    rw [if_pos (pointer_eq_none.mp h.chain)]
    exact ⟨h, rfl⟩
  | cons si nodes =>
    obtain ⟨heq, hne⟩ := pointer_eq_some.mp h.chain.1
    have hwalk := @hideLoop_exact linker pathSubstr kMaxWalk [] (si :: nodes) mem 0 h hlength
    rw [List.getLast?_nil, Option.getD_none, List.head?_cons, Option.getD_some, Nat.zero_add]
      at hwalk
    rw [heq, if_neg hne, if_pos (hhead si rfl)]
    exact hwalk

/-- The linker at 16, and behind it "b", "a" and "b". -/
def sampleLinker : Linker where
  headSlot := 8
  nextOff := 4
  realpath si := if si = 16 then some linkerName else if si = 48 then some [97] else some [98]

def sampleMemory : Memory := fun address =>
  if address = 8 then 16
  else if address = 20 then 32
  else if address = 36 then 48
  else if address = 52 then 64
  else 0

/-- The second node and the last one go. -/
theorem hideFromSolist_exact_sample :
    SolistIs sampleLinker (hideFromSolist (some sampleLinker) [98] sampleMemory).1 [16, 48] ∧
      (hideFromSolist (some sampleLinker) [98] sampleMemory).2 = 2 := by
  have hlist : SolistIs sampleLinker sampleMemory [16, 32, 48, 64] :=
    ⟨⟨rfl, rfl, rfl, rfl, rfl⟩, by decide, by decide⟩
  have hhead : ∀ si, [16, 32, 48, 64].head? = some si →
      pathContains (sampleLinker.realpath si) linkerName = true := by
    intro si hsi
    obtain rfl := Option.some.inj hsi
    decide
  exact hideFromSolist_exact (by decide) hlist (by decide) hhead

end YukiZygisk.Solist
