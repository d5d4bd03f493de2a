/-
# Stacks by key, from which one takes what a call wants

Items are pushed on the stack of their key, and a call takes the newest item of its key that it
wants, until it finds none.  Every push is in `history`, and every take in `log`, with the call and
the number of pushes so far.

`Sound` is kept by both operations: an item is taken at most once, it is on its stack until it is
taken, and it is taken only when all newer ones that the call wants have been taken.

Every item has a serial number, its place in the history, so that two pushes of one value are two
items.  The stacks hold what has been pushed and not taken, the newest first (`Sound` says so for
each key), and the log has each take with the length of the history at that time.  That newer wanted
items were taken before an older one is then a statement about the log alone, in which later pushes
do not matter, and `Sound.take` proves it from the walk over the stack: what the call passed over,
it did not want (`take_spec`).
-/
import Mathlib

namespace KeyedStacks

variable {κ β τ : Type*}

/-- An item, with the number of its push. -/
structure Item (κ β : Type*) where
  serial : ℕ
  key : κ
  value : β
  deriving DecidableEq

/-- A take: the item, the call, and the number of pushes before it. -/
structure Taken (κ β τ : Type*) where
  item : Item κ β
  call : τ
  time : ℕ

structure Stacks (κ β τ : Type*) where
  history : List (Item κ β)
  pending : κ → List (Item κ β)
  log : List (Taken κ β τ)

/-- The items that were taken, in the order of the takes. -/
def Stacks.taken (s : Stacks κ β τ) : List (Item κ β) := s.log.map Taken.item

def empty : Stacks κ β τ := ⟨[], fun _ => [], []⟩

/-- `keyOf` is the key of a call and `wants` what it wants. -/
structure Sound (keyOf : τ → κ) (wants : τ → β → Bool) (s : Stacks κ β τ) : Prop where
  serials : s.history.map Item.serial = List.range s.history.length
  pending_mem : ∀ k, ∀ i ∈ s.pending k, i ∈ s.history ∧ i.key = k
  newest : ∀ k, (s.pending k).Pairwise fun i j => j.serial < i.serial
  apart : ∀ k, ∀ i ∈ s.pending k, i ∉ s.taken
  kept : ∀ i ∈ s.history, i ∈ s.pending i.key ∨ i ∈ s.taken
  taken_mem : ∀ i ∈ s.taken, i ∈ s.history
  once : s.taken.Nodup
  wanted : ∀ t ∈ s.log, t.item.key = keyOf t.call ∧ wants t.call t.item.value = true
  past : ∀ t ∈ s.log, t.time ≤ s.history.length
  order : ∀ a t b, s.log = a ++ t :: b → ∀ i ∈ s.history, i.key = keyOf t.call →
    wants t.call i.value = true → t.item.serial < i.serial → i.serial < t.time →
    i ∈ a.map Taken.item

variable {keyOf : τ → κ} {wants : τ → β → Bool} {s s' : Stacks κ β τ} {call : τ}

/-- At first nothing is pushed and nothing is taken. -/
theorem sound_empty : Sound keyOf wants (empty : Stacks κ β τ) where
  serials := rfl
  pending_mem k i h := absurd h List.not_mem_nil
  newest k := List.Pairwise.nil
  apart k i h := absurd h List.not_mem_nil
  kept i h := absurd h List.not_mem_nil
  taken_mem i h := absurd h List.not_mem_nil
  once := List.nodup_nil
  wanted t h := absurd h List.not_mem_nil
  past t h := absurd h List.not_mem_nil
  order a t b h := absurd h (by simp [empty])

/-- Serial numbers are places of the history. -/
theorem Sound.serial_lt (h : Sound keyOf wants s) {i : Item κ β} (hi : i ∈ s.history) :
    i.serial < s.history.length := by
  have hmem := List.mem_map_of_mem (f := Item.serial) hi
  rw [h.serials] at hmem
  exact List.mem_range.mp hmem

variable [DecidableEq κ]

/-- Push a value on the stack of a key. -/
def Stacks.push (s : Stacks κ β τ) (k : κ) (v : β) : Stacks κ β τ :=
  let i : Item κ β := ⟨s.history.length, k, v⟩
  { s with
    history := s.history ++ [i]
    pending := Function.update s.pending k (i :: s.pending k) }

theorem pending_push_self (k : κ) (v : β) :
    (s.push k v).pending k = ⟨s.history.length, k, v⟩ :: s.pending k :=
  Function.update_self ..

theorem pending_push_of_ne {k k' : κ} {v : β} (h : k' ≠ k) :
    (s.push k v).pending k' = s.pending k' :=
  Function.update_of_ne h ..

/-- Take the newest item that a call wants. -/
def Stacks.take (keyOf : τ → κ) (wants : τ → β → Bool) (s : Stacks κ β τ) (call : τ) :
    Option (Stacks κ β τ) :=
  let stack := s.pending (keyOf call)
  match stack.find? fun i => wants call i.value with
  | none => none
  | some i => some { s with
      pending := Function.update s.pending (keyOf call) (stack.eraseP fun i => wants call i.value)
      log := s.log ++ [⟨i, call, s.history.length⟩] }

/-- **A push keeps everything.** -/
theorem Sound.push (h : Sound keyOf wants s) (k : κ) (v : β) : Sound keyOf wants (s.push k v) := by
  have hnew : ∀ i ∈ s.history, i.serial ≠ s.history.length := fun i hi => (h.serial_lt hi).ne
  have hpending : ∀ k' i, i ∈ (s.push k v).pending k' →
      i ∈ s.pending k' ∨ (k' = k ∧ i = ⟨s.history.length, k, v⟩) := by
    intro k' i hi
    by_cases hk : k' = k
    · subst hk
      rw [pending_push_self] at hi
      rcases List.mem_cons.mp hi with rfl | hi
      · exact .inr ⟨rfl, rfl⟩
      · exact .inl hi
    · rw [pending_push_of_ne hk] at hi
      exact .inl hi
  have hold : ∀ k' i, i ∈ s.pending k' → i ∈ (s.push k v).pending k' := by
    intro k' i hi
    by_cases hk : k' = k
    · subst hk
      rw [pending_push_self]
      exact List.mem_cons_of_mem _ hi
    · rwa [pending_push_of_ne hk]
  refine ⟨?_, fun k' i hi => ?_, fun k' => ?_, fun k' i hi => ?_, fun i hi => ?_,
    fun i hi => List.mem_append_left _ (h.taken_mem i hi), h.once, h.wanted, fun t ht => ?_,
    fun a t b hsplit i hi hkey hwants hserial htime => ?_⟩
  · change (s.history ++ [_]).map Item.serial = List.range (s.history ++ [_]).length
    rw [List.map_append, h.serials, List.length_append, List.length_singleton, List.range_succ]
    rfl
  · rcases hpending k' i hi with hi | ⟨rfl, rfl⟩
    · exact ⟨List.mem_append_left _ (h.pending_mem k' i hi).1, (h.pending_mem k' i hi).2⟩
    · exact ⟨List.mem_append_right _ (List.mem_singleton.mpr rfl), rfl⟩
  · by_cases hk : k' = k
    · subst hk
      rw [pending_push_self]
      exact List.pairwise_cons.mpr
        ⟨fun i hi => h.serial_lt (h.pending_mem k' i hi).1, h.newest k'⟩
    · rw [pending_push_of_ne hk]
      exact h.newest k'
  · rcases hpending k' i hi with hi | ⟨rfl, rfl⟩
    · exact h.apart k' i hi
    · exact fun hmem => hnew _ (h.taken_mem _ hmem) rfl
  · rcases List.mem_append.mp hi with hi | hi
    · exact (h.kept i hi).imp_left (hold i.key i)
    · obtain rfl := List.mem_singleton.mp hi
      refine .inl ?_
      rw [pending_push_self]
      exact List.mem_cons_self
  · refine (h.past t ht).trans ?_
    change s.history.length ≤ (s.history ++ [_]).length
    rw [List.length_append]
    omega
  · rcases List.mem_append.mp hi with hi | hi
    · exact h.order a t b hsplit i hi hkey hwants hserial htime
    · -- The new item was pushed after every take.
      obtain rfl := List.mem_singleton.mp hi
      have hlog : s.log = a ++ t :: b := hsplit
      have := h.past t (hlog ▸ List.mem_append_right a List.mem_cons_self)
      exact absurd htime (by dsimp only; omega)

/-- A take, by what is above the item on the stack. -/
theorem take_spec (htake : s.take keyOf wants call = some s') :
    ∃ i above below, s.pending (keyOf call) = above ++ i :: below ∧
      (∀ j ∈ above, wants call j.value ≠ true) ∧ wants call i.value = true ∧
      s' = { s with
        pending := Function.update s.pending (keyOf call) (above ++ below)
        log := s.log ++ [⟨i, call, s.history.length⟩] } := by
  rw [Stacks.take] at htake
  split at htake
  · cases htake
  · rename_i i hfind
    obtain ⟨hwants, above, below, hstack, habove⟩ := List.find?_eq_some_iff_append.mp hfind
    obtain rfl := Option.some.inj htake
    have habove' : ∀ j ∈ above, wants call j.value ≠ true := fun j hj => by
      have := habove j hj
      simpa using this
    refine ⟨i, above, below, hstack, habove', hwants, ?_⟩
    have hrest : (i :: below).eraseP (fun i => wants call i.value) = below :=
      List.eraseP_cons_of_pos hwants
    rw [hstack, List.eraseP_append_right _ fun j hj => by simpa using habove j hj, hrest]

/-- When there is nothing to take, the call wants nothing that is on its stack. -/
theorem take_none (htake : s.take keyOf wants call = none) :
    ∀ i ∈ s.pending (keyOf call), wants call i.value ≠ true := by
  rw [Stacks.take] at htake
  split at htake
  · rename_i hfind
    intro i hi
    have := List.find?_eq_none.mp hfind i hi
    simpa using this
  · cases htake

/-- **A take keeps everything.** -/
theorem Sound.take (h : Sound keyOf wants s) (htake : s.take keyOf wants call = some s') :
    Sound keyOf wants s' := by
  obtain ⟨i, above, below, hstack, habove, hwants, rfl⟩ := take_spec htake
  have hi : i ∈ s.pending (keyOf call) := hstack ▸ List.mem_append_right above List.mem_cons_self
  have hnewest := hstack ▸ h.newest (keyOf call)
  have hsub : ∀ k, List.Sublist
      (Function.update s.pending (keyOf call) (above ++ below) k) (s.pending k) := by
    intro k
    by_cases hk : k = keyOf call
    · subst hk
      rw [Function.update_self, hstack]
      exact (List.sublist_cons_self i below).append_left above
    · rw [Function.update_of_ne hk]
  -- Among the newer ones the call wants nothing, so that they have been taken if it wants them.
  have hnewer : ∀ j ∈ s.history, j.key = keyOf call → wants call j.value = true →
      i.serial < j.serial → j ∈ s.taken := by
    intro j hj hkey hwantsj hserial
    refine (h.kept j hj).resolve_left ?_
    intro hpending
    rw [hkey, hstack] at hpending
    rcases List.mem_append.mp hpending with hj | hj
    · exact habove j hj hwantsj
    · rcases List.mem_cons.mp hj with rfl | hj
      · exact lt_irrefl _ hserial
      · have hbelow := (List.pairwise_cons.mp (List.pairwise_append.mp hnewest).2.1).1 j hj
        exact absurd hserial hbelow.not_gt
  refine ⟨h.serials, fun k j hj => h.pending_mem k j ((hsub k).subset hj),
    fun k => (h.newest k).sublist (hsub k), fun k j hj hmem => ?_, fun j hj => ?_, fun j hj => ?_,
    ?_, fun t ht => ?_, fun t ht => ?_, fun a t b hsplit j hj hkey hwantsj hserial htime => ?_⟩
  · rw [Stacks.taken, List.map_append] at hmem
    rcases List.mem_append.mp hmem with hmem | hmem
    · exact h.apart k j ((hsub k).subset hj) hmem
    · obtain rfl : j = i := List.mem_singleton.mp hmem
      have hk : k = keyOf call := by
        rw [← (h.pending_mem k j ((hsub k).subset hj)).2, (h.pending_mem _ j hi).2]
      subst hk
      dsimp only at hj
      rw [Function.update_self] at hj
      have hirrefl : ∀ l : List (Item κ β), l.Pairwise (fun i j => j.serial < i.serial) → l.Nodup :=
        fun l hl => hl.imp fun {i j} hlt hij => by
          subst hij
          exact lt_irrefl _ hlt
      have hnodup := hirrefl _ hnewest
      rw [List.nodup_middle, List.nodup_cons] at hnodup
      exact hnodup.1 hj
  · rcases h.kept j hj with hpending | htaken
    · by_cases hk : j.key = keyOf call
      · rw [hk, hstack] at hpending
        dsimp only
        rw [hk, Function.update_self, Stacks.taken, List.map_append]
        rcases List.mem_append.mp hpending with hj | hj
        · exact .inl (List.mem_append_left _ hj)
        · rcases List.mem_cons.mp hj with rfl | hj
          · exact .inr (List.mem_append_right _ (List.mem_singleton.mpr rfl))
          · exact .inl (List.mem_append_right _ hj)
      · dsimp only
        rw [Function.update_of_ne hk]
        exact .inl hpending
    · rw [Stacks.taken, List.map_append]
      exact .inr (List.mem_append_left _ htaken)
  · rw [Stacks.taken, List.map_append] at hj
    rcases List.mem_append.mp hj with hj | hj
    · exact h.taken_mem j hj
    · obtain rfl : j = i := List.mem_singleton.mp hj
      exact (h.pending_mem _ j hi).1
  · rw [Stacks.taken, List.map_append, List.nodup_append_comm]
    exact List.nodup_cons.mpr ⟨h.apart _ i hi, h.once⟩
  · rcases List.mem_append.mp ht with ht | ht
    · exact h.wanted t ht
    · obtain rfl := List.mem_singleton.mp ht
      exact ⟨(h.pending_mem _ i hi).2, hwants⟩
  · rcases List.mem_append.mp ht with ht | ht
    · exact h.past t ht
    · obtain rfl := List.mem_singleton.mp ht
      exact le_rfl
  · have hsplit : s.log ++ [⟨i, call, s.history.length⟩] = a ++ t :: b := hsplit
    rcases List.eq_nil_or_concat b with rfl | ⟨c, w, rfl⟩
    · obtain ⟨rfl, ht⟩ := List.append_inj' hsplit rfl
      obtain rfl := (List.singleton_inj.mp ht).symm
      exact hnewer j hj hkey hwantsj hserial
    · rw [List.concat_eq_append, ← List.cons_append, ← List.append_assoc] at hsplit
      obtain ⟨hlog, -⟩ := List.append_inj' hsplit rfl
      exact h.order a t c hlog j hj hkey hwantsj hserial htime

end KeyedStacks
