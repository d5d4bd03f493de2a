/-
# Intrusive lists

Cells that carry their own link, threaded on lists that start at named places.  A cell has one
link, so nothing but the way the lists are used keeps a cell from being on two of them, or on
one of them twice.

`Threads` says that each list ends and that no cell is on them twice.  The edits of such lists
keep it: putting on an unlinked cell (`Threads.push`), taking the first cell (`Threads.pop`),
moving a whole list (`Threads.move`), and clearing the link of a cell, which loses what is
behind it (`Threads.cut`).

One list is `Chain next head l`: from `head`, the links run through `l` and end.  A cell occurs in a
chain once, since from a cell the rest is determined and a chain ends (`not_chain_loop`).  A change
of a link that the chain does not go through leaves it as it is (`Chain.congr`); a change of one
that it goes through cuts it there (`Chain.cut`).

Several lists are a function from places to lists, and `Threads` is `Chain` for each, together with
that no two share a cell.  Its lemmas are the same ones, each with the argument that the other lists
do not go through the cell at hand.
-/
import Mathlib

namespace Chains

variable {α κ : Type*}

/-! ## 1. One list -/

/-- The cells met from `head` on are `l`, and there the list ends. -/
def Chain (next : α → Option α) : Option α → List α → Prop
  | head, [] => head = none
  | head, x :: l => head = some x ∧ Chain next (next x) l

/-- A cell is met from `head` on. -/
inductive Linked (next : α → Option α) : Option α → α → Prop
  | here (x : α) : Linked next (some x) x
  | there {x y : α} : Linked next (next x) y → Linked next (some x) y

variable {next next' : α → Option α} {head : Option α} {l : List α} {x y : α}

/-- What is linked from the head is what is on the list. -/
theorem Chain.linked (h : Chain next head l) : Linked next head x ↔ x ∈ l := by
  induction l generalizing head with
  | nil =>
    obtain rfl : head = none := h
    refine ⟨nofun, nofun⟩
  | cons y l ih =>
    obtain ⟨rfl, hrest⟩ := h
    constructor
    · intro hx
      cases hx with
      | here => exact List.mem_cons_self ..
      | there hx => exact List.mem_cons_of_mem _ ((ih hrest).mp hx)
    · intro hx
      rcases List.mem_cons.mp hx with rfl | hx
      · exact .here x
      · exact .there ((ih hrest).mpr hx)

/-- A list reads the links of its own cells only. -/
theorem Chain.congr (h : Chain next head l) (hnext : ∀ x ∈ l, next' x = next x) :
    Chain next' head l := by
  induction l generalizing head with
  | nil => exact h
  | cons y l ih =>
    obtain ⟨hy, hrest⟩ := h
    refine ⟨hy, ?_⟩
    rw [hnext y (List.mem_cons_self ..)]
    exact ih hrest fun x hx => hnext x (List.mem_cons_of_mem _ hx)

/-- A cell that links to itself starts no list that ends. -/
theorem not_chain_loop (h : next x = some x) : ¬ Chain next (some x) l := by
  induction l with
  | nil => nofun
  | cons y l ih =>
    rintro ⟨hy, hrest⟩
    obtain rfl := Option.some.inj hy
    rw [h] at hrest
    exact ih hrest

/-- What is left of a list when a cell of it loses its link. -/
theorem Chain.cut [DecidableEq α] (h : Chain next head l) (hx : next' x = none)
    (hnext : ∀ y, y ≠ x → next' y = next y) :
    ∃ l', Chain next' head l' ∧ List.Sublist l' l := by
  induction l generalizing head with
  | nil => exact ⟨[], h, .slnil⟩
  | cons y l ih =>
    obtain ⟨hy, hrest⟩ := h
    by_cases hyx : y = x
    · exact ⟨[y], ⟨hy, hyx ▸ hx⟩, List.singleton_sublist.mpr (List.mem_cons_self ..)⟩
    · obtain ⟨l', hl', hsub⟩ := ih hrest
      refine ⟨y :: l', ⟨hy, ?_⟩, hsub.cons_cons y⟩
      rwa [hnext y hyx]

/-- **A cell is taken out behind another one.** -/
theorem Chain.unlink {front back : List α} (h : Chain next head (front ++ x :: y :: back))
    (hnodup : (front ++ x :: y :: back).Nodup) (hx : next' x = next y)
    (hnext : ∀ z, z ≠ x → next' z = next z) : Chain next' head (front ++ x :: back) := by
  induction front generalizing head with
  | nil =>
    obtain ⟨rfl, hy, hrest⟩ := h
    refine ⟨rfl, ?_⟩
    rw [hx]
    have hout : x ∉ back := fun hin =>
      (List.nodup_cons.mp hnodup).1 (List.mem_cons_of_mem _ hin)
    exact hrest.congr fun z hz => hnext z fun heq => hout (heq ▸ hz)
  | cons z front ih =>
    obtain ⟨hz, hrest⟩ := h
    obtain ⟨hout, hnodup⟩ := List.nodup_cons.mp hnodup
    have hne : z ≠ x := fun heq => hout (heq ▸ List.mem_append_right _ List.mem_cons_self)
    refine ⟨hz, ?_⟩
    rw [hnext z hne]
    exact ih hrest hnodup

/-- What is met behind a cell. -/
theorem Chain.next_eq {front back : List α} (h : Chain next head (front ++ x :: back)) :
    next x = back.head? := by
  induction front generalizing head with
  | nil =>
    obtain ⟨rfl, hrest⟩ := h
    cases back with
    | nil => exact hrest
    | cons y back => exact hrest.1
  | cons z front ih => exact ih h.2

/-! ## 2. Lists that share no cell -/

/-- The lists at all places end, and no cell is on them twice. -/
structure Threads (next : α → Option α) (heads : κ → Option α) (q : κ → List α) : Prop where
  chain : ∀ p, Chain next (heads p) (q p)
  nodup : ∀ p, (q p).Nodup
  apart : ∀ p p' x, x ∈ q p → x ∈ q p' → p = p'

/-- A cell is on no list. -/
def Free (q : κ → List α) (x : α) : Prop := ∀ p, x ∉ q p

namespace Threads

variable {heads heads' : κ → Option α} {q : κ → List α} {p p' : κ}

/-- Links of cells on no list may change. -/
theorem congr (h : Threads next heads q) (hnext : ∀ y p, y ∈ q p → next' y = next y)
    (hheads : ∀ p, heads' p = heads p) : Threads next' heads' q :=
  { h with chain := fun p => hheads p ▸ (h.chain p).congr fun y hy => hnext y p hy }

theorem linked (h : Threads next heads q) : Linked next (heads p) x ↔ x ∈ q p :=
  (h.chain p).linked

/-- **A cell loses its link**: what was behind it is on no list any more. -/
theorem cut [DecidableEq α] (h : Threads next heads q) (hx : next' x = none)
    (hnext : ∀ y, y ≠ x → next' y = next y) (hheads : ∀ r, heads' r = heads r) :
    ∃ q', Threads next' heads' q' ∧ ∀ r y, y ∈ q' r → y ∈ q r := by
  have hcut : ∀ r, ∃ l', Chain next' (heads' r) l' ∧ List.Sublist l' (q r) := fun r =>
    hheads r ▸ (h.chain r).cut hx hnext
  choose q' hchain hsub using hcut
  exact ⟨q', { chain := hchain, nodup := fun r => (h.nodup r).sublist (hsub r)
               apart := fun r r' y hy hy' => h.apart r r' y ((hsub r).mem hy) ((hsub r').mem hy') },
    fun r y hy => (hsub r).mem hy⟩

variable [DecidableEq κ]

/-- **A cell on no list is put on one.** -/
theorem push (h : Threads next heads q) (hfree : Free q x) (hx : next' x = heads p)
    (hnext : ∀ y, y ≠ x → next' y = next y) (hp : heads' p = some x)
    (hrest : ∀ r, r ≠ p → heads' r = heads r) :
    Threads next' heads' (Function.update q p (x :: q p)) := by
  have hkeep : ∀ r y, y ∈ q r → next' y = next y := fun r y hy =>
    hnext y fun heq => hfree r (heq ▸ hy)
  refine { chain := fun r => ?_, nodup := fun r => ?_, apart := fun r r' y hy hy' => ?_ }
  · rcases eq_or_ne r p with rfl | hr
    · rw [Function.update_self, hp]
      refine ⟨rfl, ?_⟩
      rw [hx]
      exact (h.chain r).congr (hkeep r)
    · rw [Function.update_of_ne hr, hrest r hr]
      exact (h.chain r).congr (hkeep r)
  · rcases eq_or_ne r p with rfl | hr
    · rw [Function.update_self]
      exact List.nodup_cons.mpr ⟨hfree r, h.nodup r⟩
    · rw [Function.update_of_ne hr]
      exact h.nodup r
  · have hmem : ∀ {r}, y ∈ Function.update q p (x :: q p) r → r = p ∧ y = x ∨ y ∈ q r := by
      intro r hy
      rcases eq_or_ne r p with rfl | hr
      · rw [Function.update_self] at hy
        rcases List.mem_cons.mp hy with rfl | hy
        · exact .inl ⟨rfl, rfl⟩
        · exact .inr hy
      · rw [Function.update_of_ne hr] at hy
        exact .inr hy
    rcases hmem hy with ⟨hr, hyx⟩ | hyq <;> rcases hmem hy' with ⟨hr', hyx'⟩ | hyq'
    · exact hr.trans hr'.symm
    · exact absurd (hyx ▸ hyq') (hfree r')
    · exact absurd (hyx' ▸ hyq) (hfree r)
    · exact h.apart r r' y hyq hyq'

/-- **The first cell of a list is taken off**, whatever becomes of its link. -/
theorem pop (h : Threads next heads q) (next' : α → Option α) (heads' : κ → Option α)
    (hhead : heads p = some x) (hnext : ∀ y, y ≠ x → next' y = next y) (hp : heads' p = next x)
    (hrest : ∀ r, r ≠ p → heads' r = heads r) :
    ∃ l, q p = x :: l ∧ Threads next' heads' (Function.update q p l) := by
  have hchain := h.chain p
  rw [hhead] at hchain
  cases hq : q p with
  | nil =>
    rw [hq] at hchain
    cases hchain
  | cons y l =>
    rw [hq] at hchain
    obtain ⟨hy, htail⟩ := hchain
    obtain rfl := Option.some.inj hy
    have hnodup := h.nodup p
    rw [hq, List.nodup_cons] at hnodup
    have hsub : ∀ {r z}, z ∈ Function.update q p l r → z ∈ q r := by
      intro r z hz
      rcases eq_or_ne r p with rfl | hr
      · rw [Function.update_self] at hz
        rw [hq]
        exact List.mem_cons_of_mem _ hz
      · rwa [Function.update_of_ne hr] at hz
    refine ⟨l, rfl, { chain := fun r => ?_, nodup := fun r => ?_, apart := ?_ }⟩
    · rcases eq_or_ne r p with rfl | hr
      · rw [Function.update_self, hp]
        exact htail.congr fun z hz => hnext z fun heq => hnodup.1 (heq ▸ hz)
      · rw [Function.update_of_ne hr, hrest r hr]
        refine (h.chain r).congr fun z hz => hnext z fun heq => hr ?_
        exact h.apart r p z hz (hq ▸ heq ▸ List.mem_cons_self ..)
    · rcases eq_or_ne r p with rfl | hr
      · rw [Function.update_self]
        exact hnodup.2
      · rw [Function.update_of_ne hr]
        exact h.nodup r
    · exact fun r r' z hz hz' => h.apart r r' z (hsub hz) (hsub hz')

/-- **A whole list is moved to an empty place.** -/
theorem move (h : Threads next heads q) (p p' : κ) (hne : p' ≠ p) (hempty : heads p' = none)
    (hp : heads' p = none) (hp' : heads' p' = heads p)
    (hrest : ∀ r, r ≠ p → r ≠ p' → heads' r = heads r) :
    Threads next heads' (Function.update (Function.update q p []) p' (q p)) := by
  have hmem : ∀ {r x}, x ∈ Function.update (Function.update q p []) p' (q p) r →
      r = p' ∧ x ∈ q p ∨ r ≠ p' ∧ r ≠ p ∧ x ∈ q r := by
    intro r x hx
    rcases eq_or_ne r p' with rfl | hr
    · rw [Function.update_self] at hx
      exact .inl ⟨rfl, hx⟩
    · rw [Function.update_of_ne hr] at hx
      rcases eq_or_ne r p with rfl | hr'
      · rw [Function.update_self] at hx
        cases hx
      · rw [Function.update_of_ne hr'] at hx
        exact .inr ⟨hr, hr', hx⟩
  refine { chain := fun r => ?_, nodup := fun r => ?_, apart := fun r r' x hx hx' => ?_ }
  · rcases eq_or_ne r p' with rfl | hr
    · rw [Function.update_self, hp']
      exact h.chain p
    · rw [Function.update_of_ne hr]
      rcases eq_or_ne r p with rfl | hr'
      · rw [Function.update_self, hp]
        rfl
      · rw [Function.update_of_ne hr', hrest r hr' hr]
        exact h.chain r
  · rcases eq_or_ne r p' with rfl | hr
    · rw [Function.update_self]
      exact h.nodup p
    · rw [Function.update_of_ne hr]
      rcases eq_or_ne r p with rfl | hr'
      · rw [Function.update_self]
        exact List.nodup_nil
      · rw [Function.update_of_ne hr']
        exact h.nodup r
  · rcases hmem hx with ⟨hr, hxq⟩ | ⟨-, hr, hxq⟩ <;>
      rcases hmem hx' with ⟨hr', hxq'⟩ | ⟨-, hr', hxq'⟩
    · exact hr.trans hr'.symm
    · exact absurd (h.apart p r' x hxq hxq').symm hr'
    · exact absurd (h.apart r p x hxq hxq') hr
    · exact h.apart r r' x hxq hxq'

end Threads

end Chains
