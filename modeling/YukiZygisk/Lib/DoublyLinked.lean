/-
# Doubly linked lists

Nodes with a link to the next and one to the previous node, and the two ends.  `Linked` says that
they are the list `l`: its nodes are apart, the ends are right, and the links of a node are the
nodes beside it.  Adding a node at the end and taking a node out from anywhere keep that
(`Linked.append`, `Linked.unlink`), and going from link to link gives the list
(`Linked.walk`), in the other direction too (`Linked.swap`).

The two directions are each other's mirror image: turning the links around turns the list around
(`Linked.swap`), and taking a node out commutes with that (`unlink_swap`).  So what is proved of the
links to the next node holds of the links to the previous one.  `unlink_next` is the main step:
after a node has been taken out, the node before it is followed by the one behind it, and all other
links are as they were.  `Bare` says that the nodes off the list have no links, which adding and
taking out keep as well.
-/
import Mathlib

namespace DoublyLinked

variable {ν : Type*}

structure Links (ν : Type*) where
  next : ν → Option ν
  prev : ν → Option ν
  first : Option ν
  last : Option ν

variable {s : Links ν} {l a b : List ν} {x y : ν}

/-- The links are those of a list. -/
structure Linked (s : Links ν) (l : List ν) : Prop where
  nodup : l.Nodup
  first : s.first = l.head?
  last : s.last = l.getLast?
  next : ∀ a x b, l = a ++ x :: b → s.next x = b.head?
  prev : ∀ a x b, l = a ++ x :: b → s.prev x = a.getLast?

/-- Nothing outside of the list has a link. -/
def Bare (s : Links ν) (l : List ν) : Prop := ∀ x ∉ l, s.next x = none ∧ s.prev x = none

/-! ## 1. Both directions -/

/-- The same links from the other end. -/
def Links.swap (s : Links ν) : Links ν := ⟨s.prev, s.next, s.last, s.first⟩

/-- Links that are turned around are the list that is turned around. -/
theorem Linked.swap (h : Linked s l) : Linked s.swap l.reverse := by
  have hsplit : ∀ a x b, l.reverse = a ++ x :: b → l = b.reverse ++ x :: a.reverse := by
    intro a x b hl
    have := congrArg List.reverse hl
    simpa using this
  refine ⟨List.nodup_reverse.mpr h.nodup, ?_, ?_, ?_, ?_⟩
  · rw [List.head?_reverse]
    exact h.last
  · rw [List.getLast?_reverse]
    exact h.first
  · intro a x b hl
    rw [← List.getLast?_reverse]
    exact h.prev _ _ _ (hsplit a x b hl)
  · intro a x b hl
    rw [← List.head?_reverse]
    exact h.next _ _ _ (hsplit a x b hl)

/-- The nodes from a link on, for so many steps; `none` when there are more. -/
def walk (next : ν → Option ν) : ℕ → Option ν → Option (List ν)
  | _, none => some []
  | 0, some _ => none
  | fuel + 1, some x => (walk next fuel (next x)).map (x :: ·)

/-- Going from link to link gives what is behind a place of the list. -/
theorem walk_suffix (h : Linked s l) : ∀ (b a : List ν) (fuel : ℕ), l = a ++ b →
    b.length ≤ fuel → walk s.next fuel b.head? = some b := by
  intro b
  induction b with
  | nil => intro a fuel _ _; cases fuel <;> rfl
  | cons x b ih =>
    intro a fuel hl hfuel
    cases fuel with
    | zero => exact absurd hfuel (by simp)
    | succ fuel =>
      rw [List.head?_cons, walk, h.next a x b hl,
        ih (a ++ [x]) fuel (by simpa using hl) (Nat.le_of_succ_le_succ hfuel), Option.map_some]

/-- Going from link to link gives the list. -/
theorem Linked.walk (h : Linked s l) {fuel : ℕ} (hfuel : l.length ≤ fuel) :
    walk s.next fuel s.first = some l := by
  rw [h.first]
  exact walk_suffix h l [] fuel rfl hfuel

/-! ## 2. Adding and taking out -/

theorem linked_nil (s : Links ν) : Linked ⟨s.next, s.prev, none, none⟩ [] where
  nodup := List.nodup_nil
  first := rfl
  last := rfl
  next a x b h := absurd h (by simp)
  prev a x b h := absurd h (by simp)

variable [DecidableEq ν]

/-- The links with the one of a node changed, if there is that node. -/
def setAt (links : ν → Option ν) (y v : Option ν) : ν → Option ν :=
  match y with
  | some y => Function.update links y v
  | none => links

/-- Add a node at the end. -/
def Links.append (s : Links ν) (x : ν) : Links ν where
  next := setAt (Function.update s.next x none) s.last (some x)
  prev := Function.update s.prev x s.last
  first := if s.last = none then some x else s.first
  last := some x

/-- Take a node out, and clear its links. -/
def Links.unlink (s : Links ν) (x : ν) : Links ν where
  next := Function.update (setAt s.next (s.prev x) (s.next x)) x none
  prev := Function.update (setAt s.prev (s.next x) (s.prev x)) x none
  first := if s.prev x = none then s.next x else s.first
  last := if s.next x = none then s.prev x else s.last

theorem setAt_of_ne {links : ν → Option ν} {z v : Option ν} (h : z ≠ some y) :
    setAt links z v y = links y := by
  cases z with
  | none => rfl
  | some z => exact Function.update_of_ne (fun hy => h (by rw [hy])) _ _

theorem setAt_self {links : ν → Option ν} {v : Option ν} : setAt links (some y) v y = v :=
  Function.update_self ..

omit [DecidableEq ν] in
theorem Linked.last_mem (h : Linked s l) (hy : s.last = some y) : y ∈ l :=
  List.mem_of_getLast? (h.last ▸ hy)

omit [DecidableEq ν] in
/-- A node is on neither side of itself. -/
theorem not_mem_sides (h : (a ++ x :: b).Nodup) : x ∉ a ∧ x ∉ b := by
  rw [List.nodup_middle, List.nodup_cons, List.mem_append, not_or] at h
  exact h.1

/-- A node that is not on the list is added at the end. -/
theorem Linked.append (h : Linked s l) (hx : x ∉ l) : Linked (s.append x) (l ++ [x]) := by
  have hlast : s.last ≠ some x := fun hy => hx (h.last_mem hy)
  -- A node of the new list is the added one, or one of the old list.
  have hsplit : ∀ a y b, l ++ [x] = a ++ y :: b →
      (a = l ∧ y = x ∧ b = []) ∨ ∃ c, b = c ++ [x] ∧ l = a ++ y :: c := by
    intro a y b hl
    rcases List.eq_nil_or_concat b with rfl | ⟨c, w, rfl⟩
    · obtain ⟨rfl, hxy⟩ := List.append_inj' hl rfl
      exact .inl ⟨rfl, (List.singleton_inj.mp hxy).symm, rfl⟩
    · rw [List.concat_eq_append, ← List.cons_append, ← List.append_assoc] at hl
      obtain ⟨hl, hxw⟩ := List.append_inj' hl rfl
      exact .inr ⟨c, by rw [List.concat_eq_append, hxw], hl⟩
  refine ⟨?_, ?_, ?_, ?_, ?_⟩
  · rw [List.nodup_append_comm, List.singleton_append]
    exact List.nodup_cons.mpr ⟨hx, h.nodup⟩
  · change (if s.last = none then some x else s.first) = (l ++ [x]).head?
    rw [h.last, h.first, List.head?_append]
    cases l with
    | nil => rfl
    | cons z l => rw [if_neg (by simp)]; rfl
  · exact List.getLast?_concat.symm
  · intro a y b hl
    change setAt (Function.update s.next x none) s.last (some x) y = b.head?
    rcases hsplit a y b hl with ⟨rfl, rfl, rfl⟩ | ⟨c, rfl, rfl⟩
    · rw [setAt_of_ne hlast, Function.update_self]
      rfl
    · have hyx : y ≠ x := fun hyx => hx (hyx ▸ List.mem_append_right a List.mem_cons_self)
      cases c with
      | nil => rw [h.last, List.getLast?_concat, setAt_self]; rfl
      | cons z c =>
        have hne : s.last ≠ some y := by
          rw [h.last, List.getLast?_append, List.getLast?_cons_cons]
          intro hy
          rw [Option.or_of_isSome (by simp)] at hy
          exact (not_mem_sides h.nodup).2 (List.mem_of_getLast? hy)
        rw [setAt_of_ne hne, Function.update_of_ne hyx, h.next a y (z :: c) rfl]
        rfl
  · intro a y b hl
    change Function.update s.prev x s.last y = a.getLast?
    rcases hsplit a y b hl with ⟨rfl, rfl, rfl⟩ | ⟨c, rfl, rfl⟩
    · rw [Function.update_self, h.last]
    · have hyx : y ≠ x := fun hyx => hx (hyx ▸ List.mem_append_right a List.mem_cons_self)
      rw [Function.update_of_ne hyx, h.prev a y c rfl]

/-- Taking out does not care for the direction. -/
theorem unlink_swap (s : Links ν) (x : ν) : (s.unlink x).swap = s.swap.unlink x := rfl

/-- The link to the next node when a node is taken out. -/
theorem unlink_next (h : Linked s (a ++ x :: b)) {c d : List ν} (hl : a ++ b = c ++ y :: d) :
    (s.unlink x).next y = d.head? := by
  have hxprev : s.prev x = a.getLast? := h.prev a x b rfl
  have hxnext : s.next x = b.head? := h.next a x b rfl
  have hx := not_mem_sides h.nodup
  have hyx : y ≠ x := by
    rintro rfl
    have : y ∈ a ++ b := hl ▸ List.mem_append_right c List.mem_cons_self
    rcases List.mem_append.mp this with hy | hy
    · exact hx.1 hy
    · exact hx.2 hy
  change Function.update (setAt s.next (s.prev x) (s.next x)) x none y = d.head?
  rw [Function.update_of_ne hyx, hxprev, hxnext]
  rcases List.append_eq_append_iff.mp hl with ⟨e, rfl, hb⟩ | ⟨e, rfl, he⟩
  · -- The node is behind the one that is taken out.
    subst hb
    have hnodup := h.nodup
    have hne : a.getLast? ≠ some y := by
      intro hy
      have hmem := List.mem_of_getLast? hy
      have hdisjoint := List.nodup_append.mp hnodup
      exact hdisjoint.2.2 y hmem y (by simp) rfl
    rw [setAt_of_ne hne]
    exact h.next (a ++ x :: e) y d (by simp)
  · cases e with
    | nil =>
      rw [List.nil_append] at he
      subst he
      have hnodup := h.nodup
      rw [List.append_nil] at hnodup ⊢
      have hne : c.getLast? ≠ some y := by
        intro hy
        exact (List.nodup_append.mp hnodup).2.2 y (List.mem_of_getLast? hy) y (by simp) rfl
      rw [setAt_of_ne hne]
      exact h.next (c ++ [x]) y d (by simp)
    | cons z e =>
      rw [List.cons_append, List.cons.injEq] at he
      obtain ⟨rfl, rfl⟩ := he
      cases e with
      | nil =>
        rw [List.getLast?_concat, setAt_self]
        rfl
      | cons w e =>
        have hnodup := h.nodup
        rw [List.append_assoc, List.cons_append] at hnodup
        have hne : (c ++ y :: w :: e).getLast? ≠ some y := by
          intro hy
          rw [List.getLast?_append, List.getLast?_cons_cons, Option.or_of_isSome (by simp)] at hy
          exact (not_mem_sides hnodup).2
            (List.mem_append_left _ (List.mem_of_getLast? hy))
        rw [setAt_of_ne hne]
        exact h.next c y (w :: e ++ x :: b) (by simp)

theorem Linked.unlink (h : Linked s (a ++ x :: b)) : Linked (s.unlink x) (a ++ b) := by
  have hprev : s.prev x = a.getLast? := h.prev a x b rfl
  have hnext : s.next x = b.head? := h.next a x b rfl
  refine ⟨?_, ?_, ?_, fun c y d hl => unlink_next h hl, ?_⟩
  · have := h.nodup
    rw [List.nodup_middle, List.nodup_cons] at this
    exact this.2
  · change (if s.prev x = none then s.next x else s.first) = (a ++ b).head?
    rw [hprev, hnext, h.first, List.head?_append, List.head?_append]
    cases a with
    | nil => rfl
    | cons z a => rw [if_neg (by simp)]; rfl
  · change (if s.next x = none then s.prev x else s.last) = (a ++ b).getLast?
    rw [hprev, hnext, h.last, List.getLast?_append, List.getLast?_append]
    cases b with
    | nil => simp
    | cons z b => rw [if_neg (by simp), List.getLast?_cons_cons]
  · intro c y d hl
    -- From the other end it is the link to the next node.
    have hswap := h.swap
    rw [List.reverse_append, List.reverse_cons, List.append_assoc, List.singleton_append] at hswap
    have hl' : b.reverse ++ a.reverse = d.reverse ++ y :: c.reverse := by
      have := congrArg List.reverse hl
      simpa using this
    have := unlink_next hswap hl'
    rw [← unlink_swap, List.head?_reverse] at this
    exact this

theorem Bare.append (hb : Bare s l) (h : Linked s l) : Bare (s.append x) (l ++ [x]) := by
  intro y hy
  rw [List.mem_append, List.mem_singleton, not_or] at hy
  obtain ⟨hnext, hprev⟩ := hb y hy.1
  constructor
  · change setAt (Function.update s.next x none) s.last (some x) y = none
    rw [setAt_of_ne fun hlast => hy.1 (h.last_mem hlast), Function.update_of_ne hy.2, hnext]
  · change Function.update s.prev x s.last y = none
    rw [Function.update_of_ne hy.2, hprev]

theorem Bare.unlink (hb : Bare s (a ++ x :: b)) (h : Linked s (a ++ x :: b)) :
    Bare (s.unlink x) (a ++ b) := by
  intro y hy
  rw [List.mem_append, not_or] at hy
  by_cases hyx : y = x
  · subst hyx
    exact ⟨Function.update_self .., Function.update_self ..⟩
  · obtain ⟨hnext, hprev⟩ := hb y (by simp [hy.1, hy.2, hyx])
    constructor
    · change Function.update (setAt s.next (s.prev x) (s.next x)) x none y = none
      have hne : s.prev x ≠ some y := by
        rw [h.prev a x b rfl]
        exact fun h => hy.1 (List.mem_of_getLast? h)
      rw [Function.update_of_ne hyx, setAt_of_ne hne, hnext]
    · change Function.update (setAt s.prev (s.next x) (s.prev x)) x none y = none
      have hne : s.next x ≠ some y := by
        rw [h.next a x b rfl]
        exact fun h => hy.2 (List.mem_of_head? h)
      rw [Function.update_of_ne hyx, setAt_of_ne hne, hprev]

end DoublyLinked
