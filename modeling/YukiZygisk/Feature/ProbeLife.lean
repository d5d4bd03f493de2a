/-
# One holder of the machine

Seen from one holder the machine of `ProbePolicy.lean` is the object of `Lib/Lifetime.lean`:
`life` reads it off the state, and every step of the machine is one event of it or none
(`life_step`).  So each holder is in one place in every run (`placed_of_reach`), and past its
cancel it has no work left in every run in which no cancel comes before the schedule
(`still_of_reach`).

`Life` counts what the calls in progress have ahead of them for a holder, so most of the work is
about lists of operations: which ones a call still has (`ahead`), how taking one off or putting
others in front changes that, and that a call which gives up has no operation on a holder left to
lose (`OnFirst`, from `ProbeMoves.lean`).  The lemmas are sorted by `Move`: a plain step is no event
at all (`life_of_plain`), collecting takes a holder off its list (`life_of_collect`), and the
operations on a holder are one phase each (`onHolder_life`).  A holder that is made is born on its
list, and the step that lists it is the one whose schedule may come too late.
-/
import YukiZygisk.Feature.ProbeMoves

namespace YukiZygisk.Probe

open Policy Lifetime Tally

/-- Taking holders off the list changes only whether they are pending. -/
theorem takeOff_getElem? (hs : List Nat) (holders : List PolicyHolder) (h : Nat) :
    (takeOff hs holders)[h]? =
      (holders[h]?).map fun p => if h ∈ hs then { p with pending := false } else p := by
  simp [takeOff, List.getElem?_mapIdx]

theorem takeOff_length (hs : List Nat) (holders : List PolicyHolder) :
    (takeOff hs holders).length = holders.length := by
  simp [takeOff]

theorem getElem?_push_ne {α : Type*} {l : List α} (x : α) {n : Nat} (hne : n ≠ l.length) :
    (l ++ [x])[n]? = l[n]? := by
  rcases Nat.lt_or_ge n l.length with hlt | hge
  · exact List.getElem?_append_left hlt
  · rw [List.getElem?_eq_none hge, List.getElem?_eq_none (by simp; omega)]

theorem count_filter_split (l : List Nat) (f : Nat → Bool) (h : Nat) :
    (l.filter fun n => !f n).count h + (l.filter f).count h = l.count h := by
  cases hf : f h with
  | true =>
    rw [List.count_filter hf, List.count_eq_zero.mpr (by simp [hf]), Nat.zero_add]
  | false =>
    have hin : (l.filter fun n => !f n).count h = l.count h := List.count_filter (by rw [hf]; rfl)
    have hout : (l.filter f).count h = 0 := List.count_eq_zero.mpr (by simp [hf])
    rw [hin, hout, Nat.add_zero]

section Machine

variable [AvtabFns]

/-! ## 1. One holder, read off the state -/

/-- How often a phase of holder `h` is ahead of the calls in progress. -/
def ProbeRun.ahead (s : ProbeRun) (h : Nat) (p : Phase) : Nat :=
  tally (fun c => c.ops.count (.on p h)) s.calls

/-- The entries of `h` on the two lists. -/
def ProbeRun.listed (s : ProbeRun) (h : Nat) : Nat :=
  s.nativePending.count h + s.moduleHolders.count h

def ProbeRun.life (s : ProbeRun) (h : Nat) : Life where
  born := (s.holders[h]?).isSome
  pending := (s.holders[h]?).any (·.pending)
  listed := s.listed h
  ahead := s.ahead h
  work := (s.holders[h]?).elim .idle (·.timeout)
  restores := (s.holders[h]?).elim 0 (·.restores)
  frees := (s.holders[h]?).elim 0 (·.frees)

variable {s s' : ProbeRun} {i h : Nat} {c c' : Call} {p : Phase}

/-- Two states with the same cell, entries and operations ahead show the same holder. -/
theorem life_congr (hh : s'.holders[h]? = s.holders[h]?) (hl : s'.listed h = s.listed h)
    (ha : ∀ p, s'.ahead h p = s.ahead h p) : s'.life h = s.life h := by
  have ha : s'.ahead h = s.ahead h := funext ha
  simp only [ProbeRun.life, hh, hl, ha]

/-- What is ahead moves by what the call gained. -/
theorem ahead_set (hc : s.calls[i]? = some c) (hs : s'.calls = s.calls.set i c') (h : Nat)
    (p : Phase) :
    s'.ahead h p + c.ops.count (.on p h) = s.ahead h p + c'.ops.count (.on p h) := by
  rw [ProbeRun.ahead, hs]
  exact tally_set (fun c => c.ops.count (.on p h)) hc c'

/-- A call that starts brings its operations along. -/
theorem ahead_start (hs : s'.calls = s.calls ++ [c]) (h : Nat) (p : Phase) :
    s'.ahead h p = s.ahead h p + c.ops.count (.on p h) := by
  simp [ProbeRun.ahead, hs]

/-- A call whose head is about a holder has that phase ahead. -/
theorem ahead_pos (hc : s.calls[i]? = some c) (hon : .on p h ∈ c.ops) : 0 < s.ahead h p :=
  lt_of_lt_of_le (List.count_pos_iff.mpr hon)
    (le_tally (fun c => c.ops.count (.on p h)) (List.mem_of_getElem? hc))

/-! ## 2. A step of the machine is a step of each holder, or none -/

variable {a : ProbeAct} {op : Op} {env : OpEnv}

/-- A step on calls without operations on holders, which leaves the holders alone, shows the
same holders. -/
theorem life_of_plain (hc : s.calls[i]? = some c) (hs : s'.calls = s.calls.set i c')
    (hplain : Plain c.ops) (hplain' : Plain c'.ops) (hh : s'.holders = s.holders)
    (hl : s'.listed h = s.listed h) : s'.life h = s.life h := by
  refine life_congr (by rw [hh]) hl ?_
  intro p
  have := ahead_set hc hs h p
  rw [hplain.count, hplain'.count] at this
  omega

/-- What a step shows of holder `h`: nothing, or one event.  Only a cancel of the holder is a
cancel. -/
inductive Seen (s : ProbeRun) (a : ProbeAct) (s' : ProbeRun) (h : Nat) : Prop
  | same : s'.life h = s.life h → Seen s a s' h
  | event (e : Event) : (e = .cancel → ∃ i env c, a = .run i env ∧ Runs s i (.on .cancel h) c) →
      lives.step (s.life h) e = some (s'.life h) → Seen s a s' h

/-- What a collection does to one holder. -/
theorem life_of_collect (hI : Placed (s.life h)) {todo : List Nat}
    (hh : s'.holders[h]? = (takeOff todo s.holders)[h]?)
    (hl : s'.listed h + todo.count h = s.listed h)
    (ha : ∀ p, s'.ahead h p = s.ahead h p + if p = .cancel then todo.count h else 0) :
    Seen s a s' h := by
  rcases Nat.eq_zero_or_pos (todo.count h) with h0 | hpos
  · refine .same ?_
    have hmem : h ∉ todo := List.count_eq_zero.mp h0
    refine life_congr ?_ (by omega) fun p => ?_
    · rw [hh, takeOff_getElem?]
      simp [hmem]
    · rw [ha, h0]
      simp
  · refine .event .collect nofun ?_
    have hmem : h ∈ todo := List.count_pos_iff.mp hpos
    have hplace := hI.place
    have hone := Bool.toNat_le (s.life h).born
    have hlisted : (s.life h).listed = s.listed h := rfl
    have hcell : s'.holders[h]? = (s.holders[h]?).map fun p => { p with pending := false } := by
      rw [hh, takeOff_getElem?]
      simp [hmem]
    have hahead : s'.ahead h = more (s.ahead h) .cancel := by
      funext p
      rw [ha]
      unfold more
      split_ifs <;> omega
    have hne : ¬ (s.life h).listed = 0 := by omega
    have hzero : s'.listed h = 0 := by omega
    simp only [lives, Life.step, if_neg hne]
    simp only [ProbeRun.life, hcell, hahead, hzero]
    cases s.holders[h]? <;> rfl

variable {t : ProbeRun} {call : Option TempAct} {h₀ : Nat} {holder : PolicyHolder} {q : Phase}

/-- An operation on a holder is done, and another one on it may take its place. -/
theorem ahead_on (hruns : Runs s i (.on p h₀) c) {ops : List Op}
    (hs : s'.calls = s.calls.set i { c with ops := ops ++ c.ops }) (h : Nat) (q : Phase) :
    s'.ahead h q + (if p = q ∧ h₀ = h then 1 else 0) =
      s.ahead h q + ops.count (.on q h) := by
  have := ahead_set hruns.call hs h q
  rw [List.count_cons, List.count_append] at this
  simp only [beq_iff_eq, Op.on.injEq] at this
  omega

/-- An operation that is done is no longer ahead. -/
theorem ahead_done (hruns : Runs s i (.on p h₀) c)
    (hs : s'.calls = s.calls.set i { c with ops := [] ++ c.ops }) :
    s'.ahead h₀ = less (s.ahead h₀) p := by
  funext q
  have := ahead_on hruns hs h₀ q
  simp only [and_true, List.count_nil] at this
  unfold less
  split_ifs with hq
  · subst hq
    rw [if_pos rfl] at this
    omega
  · rw [if_neg (Ne.symm hq)] at this
    omega

theorem ahead_next (hruns : Runs s i (.on p h₀) c)
    (hs : s'.calls = s.calls.set i { c with ops := [.on q h₀] ++ c.ops }) :
    s'.ahead h₀ = more (less (s.ahead h₀) p) q := by
  funext r
  have hpos := ahead_pos hruns.call (List.mem_cons_self ..)
  have := ahead_on hruns hs h₀ r
  simp only [and_true, List.count_singleton, beq_iff_eq, Op.on.injEq] at this
  unfold more less
  split_ifs with hr hq hq
  · subst hr; subst hq
    simp only [if_true] at this
    omega
  · subst hr
    rw [if_neg (Ne.symm hq), if_pos rfl] at this
    omega
  · subst hq
    rw [if_pos rfl, if_neg (Ne.symm hr)] at this
    omega
  · rw [if_neg (Ne.symm hq), if_neg (Ne.symm hr)] at this
    omega

/-- The other holders do not see it. -/
theorem ahead_other (hruns : Runs s i (.on p h₀) c) {ops : List Op}
    (hops : ops = [] ∨ ∃ q, ops = [.on q h₀])
    (hs : s'.calls = s.calls.set i { c with ops := ops ++ c.ops }) (hne : h ≠ h₀) (q : Phase) :
    s'.ahead h q = s.ahead h q := by
  have := ahead_on hruns hs h q
  have hcount : ops.count (.on q h) = 0 := by
    rcases hops with rfl | ⟨r, rfl⟩
    · rfl
    · exact List.count_eq_zero.mpr (by simp [hne])
  rw [hcount, if_neg fun hc => hne hc.2.symm] at this
  omega

/-- What an operation on a holder leaves of the other holders. -/
theorem proceedOn_other (hs : t.proceedOn i c call h₀ holder p = some s') (hne : h ≠ h₀) :
    s'.holders[h]? = t.holders[h]? ∧ s'.listed h = t.listed h := by
  have hset : ∀ x : PolicyHolder, (t.holders.set h₀ x)[h]? = t.holders[h]? :=
    fun x => List.getElem?_set_ne (Ne.symm hne)
  have hfilter : ∀ l : List Nat, (l.filter (· ≠ h₀)).count h = l.count h :=
    fun l => List.count_filter (by simpa using hne)
  cases p <;> simp only [ProbeRun.proceedOn] at hs
  case cancel =>
    split_ifs at hs
    obtain rfl := Option.some.inj hs
    exact ⟨hset _, rfl⟩
  case expire =>
    split_ifs at hs
    · obtain rfl := Option.some.inj hs
      exact ⟨hset _, by simp only [ProbeRun.listed, hfilter]⟩
    · obtain rfl := Option.some.inj hs
      exact ⟨hset _, rfl⟩
  all_goals
    obtain rfl := Option.some.inj hs
    exact ⟨hset _, rfl⟩

/-- The event an operation on a holder is; `due` is when its work would be due. -/
def eventOf (due : Nat) : Phase → Event
  | .schedule => .schedule due
  | .cancel => .cancel
  | .restore => .restore
  | .free => .free
  | .expire => .expire
  | .restoreSelf => .restoreSelf
  | .freeSelf => .freeSelf

theorem life_of_cell (hh : s.holders[h]? = some holder) : s.life h =
    ⟨true, holder.pending, s.listed h, s.ahead h, holder.timeout, holder.restores,
      holder.frees⟩ := by
  simp [ProbeRun.life, hh]

/-- An operation on a holder is its event there. -/
theorem onHolder_life {r : TempRun} (hruns : Runs s i (.on p h) c)
    (hh : s.holders[h]? = some holder)
    (hs : { s with run := r }.proceedOn i c call h holder p = some s') :
    lives.step (s.life h) (eventOf (s.jiffies + s.policyTimeout) p) = some (s'.life h) := by
  have hlt : h < s.holders.length := (List.getElem?_eq_some_iff.mp hh).1
  have hset : ∀ x : PolicyHolder, (s.holders.set h x)[h]? = some x :=
    fun x => List.getElem?_set_self hlt
  have hpos : ¬ s.ahead h p = 0 :=
    Nat.pos_iff_ne_zero.mp (ahead_pos hruns.call (List.mem_cons_self ..))
  rw [life_of_cell hh]
  cases p <;> simp only [ProbeRun.proceedOn] at hs
  case schedule =>
    have e := Option.some.inj hs
    have ha : s'.ahead h = _ := ahead_done hruns (congrArg ProbeRun.calls e).symm
    subst e
    rw [life_of_cell (hset _), ha]
    simp only [lives, eventOf, Life.step, if_neg hpos]
    rfl
  case cancel =>
    split_ifs at hs with hw
    have e := Option.some.inj hs
    have ha : s'.ahead h = _ := ahead_next hruns (congrArg ProbeRun.calls e).symm
    subst e
    rw [life_of_cell (hset _), ha]
    simp only [lives, eventOf, Life.step, hpos, hw, or_self, if_false]
    rfl
  case restore =>
    have e := Option.some.inj hs
    have ha : s'.ahead h = _ := ahead_next hruns (congrArg ProbeRun.calls e).symm
    subst e
    rw [life_of_cell (hset _), ha]
    simp only [lives, eventOf, Life.step, if_neg hpos]
    rfl
  case free =>
    have e := Option.some.inj hs
    have ha : s'.ahead h = _ := ahead_done hruns (congrArg ProbeRun.calls e).symm
    subst e
    rw [life_of_cell (hset _), ha]
    simp only [lives, eventOf, Life.step, if_neg hpos]
    rfl
  case expire =>
    split_ifs at hs with hl hp
    · have e := Option.some.inj hs
      have ha : s'.ahead h = _ := ahead_next hruns (congrArg ProbeRun.calls e).symm
      subst e
      rw [life_of_cell (hset _), ha]
      have hnone : ∀ l : List Nat, (l.filter (· ≠ h)).count h = 0 :=
        fun l => List.count_eq_zero.mpr (by simp)
      simp only [lives, eventOf, Life.step, if_neg hpos, hp, if_true, ProbeRun.listed, hnone]
    · have e := Option.some.inj hs
      have ha : s'.ahead h = _ := ahead_done hruns (congrArg ProbeRun.calls e).symm
      subst e
      rw [life_of_cell (hset _), ha]
      have hp : holder.pending = false := by simpa using hp
      simp only [lives, eventOf, Life.step, if_neg hpos, hp, Bool.false_eq_true, if_false]
      rfl
  case restoreSelf =>
    have e := Option.some.inj hs
    have ha : s'.ahead h = _ := ahead_next hruns (congrArg ProbeRun.calls e).symm
    subst e
    rw [life_of_cell (hset _), ha]
    simp only [lives, eventOf, Life.step, if_neg hpos]
    rfl
  case freeSelf =>
    have e := Option.some.inj hs
    have ha : s'.ahead h = _ := ahead_done hruns (congrArg ProbeRun.calls e).symm
    subst e
    rw [life_of_cell (hset _), ha]
    simp only [lives, eventOf, Life.step, if_neg hpos]
    rfl

/-- Entries taken off the native list.  `first` and `new` are what a publication adds about
its own entry. -/
theorem collectNative_life (hI : Placed (s.life h)) (hplain : Plain c.ops)
    (hruns : Runs s i op c) (hop : op.isOn = false) (f : Nat → Bool) (first : List Op)
    (new : List Nat) (state : Option Nat) (hfirst : ∀ p, first.count (.on p h) = 0)
    (hnew : new.count h = 0)
    (hh : s'.holders[h]? = (takeOff (s.nativePending.filter f) s.holders)[h]?)
    (hn : s'.nativePending = s.nativePending.filter (fun n => !f n) ++ new)
    (hm : s'.moduleHolders = s.moduleHolders) {ops : List Op} (hops : Plain ops)
    (hc : s'.calls = s.calls.set i { c with
      state := state, ops := first ++ drain (s.nativePending.filter f) ++ ops }) :
    Seen s a s' h := by
  refine life_of_collect hI hh ?_ fun p => ?_
  · have := count_filter_split s.nativePending f h
    simp only [ProbeRun.listed, hn, hm, List.count_append, hnew]
    omega
  · have := ahead_set hruns.call hc h p
    simp only [List.count_append, hfirst, count_drain, hops.count,
      (plain_cons hop hplain).count] at this
    omega

/-- Holders taken off the module list. -/
theorem collectModule_life (hI : Placed (s.life h)) (hplain : Plain c.ops)
    (hruns : Runs s i op c) (hop : op.isOn = false) (f : Nat → Bool) {last : List Op}
    (hlast : Plain last)
    (hh : s'.holders[h]? = (takeOff (s.moduleHolders.filter f) s.holders)[h]?)
    (hn : s'.nativePending = s.nativePending)
    (hm : s'.moduleHolders = s.moduleHolders.filter fun n => !f n)
    (hc : s'.calls = s.calls.set i { c with
      ops := drain (s.moduleHolders.filter f) ++ last }) :
    Seen s a s' h := by
  refine life_of_collect hI hh ?_ fun p => ?_
  · have := count_filter_split s.moduleHolders f h
    simp only [ProbeRun.listed, hn, hm]
    omega
  · have := ahead_set hruns.call hc h p
    simp only [List.count_append, count_drain, hlast.count,
      (plain_cons hop hplain).count] at this
    omega

/-- A holder that does not exist yet is on no list, and nobody is about to do anything to
it. -/
theorem unborn (hI : Placed (s.life h)) (hh : s.holders[h]? = none) :
    s.listed h = 0 ∧ (∀ p, s.ahead h p = 0) ∧
      s.life h = ⟨false, false, 0, s.ahead h, .idle, 0, 0⟩ := by
  have hlife : s.life h = ⟨false, false, s.listed h, s.ahead h, .idle, 0, 0⟩ := by
    simp [ProbeRun.life, hh]
  rw [hlife] at hI ⊢
  obtain ⟨hplace, -, hrest, hrun, hsch, -, -⟩ := hI
  simp only [Bool.toNat_false, reduceCtorEq, if_false] at hplace hrest hrun hsch
  have hzero : s.listed h = 0 := by omega
  refine ⟨hzero, ?_, by rw [hzero]⟩
  intro p
  cases p <;> omega

/-- A new holder on a list, with its work scheduled at once or still to be scheduled. -/
theorem newborn_life (hI : Placed (s.life h)) (hnone : s.holders[h]? = none) (due : Option Nat)
    (hh : ∃ holder, s'.holders[h]? = some holder ∧ holder.timeout = due.elim .idle .queued ∧
      holder.pending = true ∧ holder.restores = 0 ∧ holder.frees = 0)
    (hl : s'.listed h = s.listed h + 1)
    (ha : ∀ q, s'.ahead h q = s.ahead h q + if due = none ∧ q = .schedule then 1 else 0) :
    lives.step (s.life h) (.list due) = some (s'.life h) := by
  obtain ⟨hzero, hnil, hlife⟩ := unborn hI hnone
  obtain ⟨holder, hh, ht, hp, hr, hf⟩ := hh
  rw [hlife, life_of_cell hh, hl, hzero, ht, hp, hr, hf]
  cases due with
  | none =>
    have hahead : s'.ahead h = more (s.ahead h) .schedule := by
      funext q
      rw [ha]
      simp only [true_and]
      unfold more
      split_ifs <;> omega
    rw [hahead]
    rfl
  | some d =>
    have hahead : s'.ahead h = s.ahead h := by
      funext q
      rw [ha, if_neg nofun, Nat.add_zero]
    rw [hahead]
    rfl

/-- A work that starts has its check ahead. -/
theorem fire_ahead {h₀ : Nat} {x holder : PolicyHolder} (h : Nat) (q : Phase) :
    ((s.setHolder h₀ x).start
        ⟨false, holder.tgid, none, none, none, 0, [.on .expire h₀]⟩).ahead h q =
      s.ahead h q + if q = .expire ∧ h = h₀ then 1 else 0 := by
  have hset : (s.setHolder h₀ x).ahead h q = s.ahead h q := rfl
  rw [ahead_start rfl, hset, List.count_singleton]
  congr 1
  refine if_congr ?_ rfl rfl
  rw [beq_iff_eq, Op.on.injEq]
  exact ⟨fun ⟨hq, hh⟩ => ⟨hq.symm, hh.symm⟩, fun ⟨hq, hh⟩ => ⟨hq.symm, hh.symm⟩⟩

/-- A publication: the older entries of its process are collected, and its own is listed. -/
theorem publish_life (hI : ∀ h, Placed (s.life h)) (hplain : Plain c.ops)
    (hruns : Runs s i op c) (hop : op.isOn = false) (f : Nat → Bool)
    (entry : PolicyHolder) (state : Option Nat) (hentry : entry.timeout = .idle ∧
      entry.pending = true ∧ entry.restores = 0 ∧ entry.frees = 0)
    (hh : s'.holders = takeOff (s.nativePending.filter f) s.holders ++ [entry])
    (hn : s'.nativePending = s.nativePending.filter (fun n => !f n) ++ [s.holders.length])
    (hm : s'.moduleHolders = s.moduleHolders)
    (hc : s'.calls = s.calls.set i { c with
      state := state
      ops := .on .schedule s.holders.length :: drain (s.nativePending.filter f) }) (h : Nat) :
    Seen s a s' h := by
  have hlen := takeOff_length (s.nativePending.filter f) s.holders
  rcases eq_or_ne h s.holders.length with rfl | hne
  · have hnone : s.holders[s.holders.length]? = none := List.getElem?_eq_none le_rfl
    obtain ⟨hzero, hnil, -⟩ := unborn (hI _) hnone
    have hn0 : s.nativePending.count s.holders.length = 0 := by
      simp only [ProbeRun.listed] at hzero
      omega
    have hsplit := count_filter_split s.nativePending f s.holders.length
    have hcell : s'.holders[s.holders.length]? = some entry := by
      rw [hh, ← hlen]
      exact List.getElem?_concat_length
    obtain ⟨ht, hp, hr, hf⟩ := hentry
    refine .event (.list none) nofun (newborn_life (hI _) hnone none
      ⟨entry, hcell, ht, hp, hr, hf⟩ ?_ fun q => ?_)
    · simp only [ProbeRun.listed, hn, hm, List.count_append, List.count_singleton_self]
      omega
    · have hset := ahead_set hruns.call hc s.holders.length q
      simp only [(plain_cons hop hplain).count, List.count_cons, count_drain, beq_iff_eq,
        Op.on.injEq, and_true] at hset
      simp only [true_and]
      split_ifs at hset ⊢ <;> first | omega | simp_all
  · refine collectNative_life (hI h) hplain hruns hop f [.on .schedule s.holders.length]
      [s.holders.length] state (fun p => ?_) ?_ ?_ hn hm (show Plain [] from nofun) ?_
    · exact List.count_eq_zero.mpr (by simp [hne])
    · exact List.count_eq_zero.mpr (by simp [hne])
    · rw [hh]
      exact getElem?_push_ne _ (by rwa [hlen])
    · rw [hc, List.append_nil]
      rfl

/-- A module request that arms a holder: it is listed with its work scheduled. -/
theorem arm_life (hI : ∀ h, Placed (s.life h)) (hplain : Plain c.ops)
    (hruns : Runs s i op c) (hop : op.isOn = false) (holder : PolicyHolder)
    (state : Option Nat) {due : Nat} (hholder : holder.timeout = .queued due ∧
      holder.pending = true ∧ holder.restores = 0 ∧ holder.frees = 0)
    (hh : s'.holders = s.holders ++ [holder]) (hn : s'.nativePending = s.nativePending)
    (hm : s'.moduleHolders = s.moduleHolders ++ [s.holders.length])
    (hc : s'.calls = s.calls.set i { c with state := state, ops := [] }) (h : Nat) :
    Seen s a s' h := by
  have hahead : ∀ q, s'.ahead h q = s.ahead h q := by
    intro q
    have hset := ahead_set hruns.call hc h q
    simp only [(plain_cons hop hplain).count, List.count_nil] at hset
    omega
  rcases eq_or_ne h s.holders.length with rfl | hne
  · have hnone : s.holders[s.holders.length]? = none := List.getElem?_eq_none le_rfl
    have hcell : s'.holders[s.holders.length]? = some holder := by
      rw [hh]
      exact List.getElem?_concat_length
    obtain ⟨ht, hp, hr, hf⟩ := hholder
    refine .event (.list (some due)) nofun (newborn_life (hI _) hnone (some due)
      ⟨holder, hcell, ht, hp, hr, hf⟩ ?_ fun q => ?_)
    · simp only [ProbeRun.listed, hn, hm, List.count_append, List.count_singleton_self]
      omega
    · rw [hahead, if_neg nofun, Nat.add_zero]
  · refine .same (life_congr ?_ ?_ hahead)
    · rw [hh]
      exact getElem?_push_ne _ hne
    · have hcount : [s.holders.length].count h = 0 := List.count_eq_zero.mpr (by simp [hne])
      simp only [ProbeRun.listed, hn, hm, List.count_append, hcount]
      omega

/-- **Every step of the machine is a step of each of its holders, or none.** -/
theorem life_step (hsh : Shaped s) (hI : ∀ h, Placed (s.life h))
    (hs : probe.step s a = some s') (h : Nat) : Seen s a s' h := by
  cases step_move hs with
  | idle => exact .same rfl
  | start _ c _ _ _ _ _ hplain =>
    refine .same (life_congr rfl rfl fun p => ?_)
    rw [ahead_start (c := c) rfl, hplain.count, Nat.add_zero]
    rfl
  | fire h₀ p due hh hdue _ hfree =>
    have hlt : h₀ < s.holders.length := (List.getElem?_eq_some_iff.mp hh).1
    rcases eq_or_ne h h₀ with rfl | hne
    · refine .event .fire nofun ?_
      have hahead : ((s.setHolder h { p with timeout := .running }).start
          ⟨false, p.tgid, none, none, none, 0, [.on .expire h]⟩).ahead h =
          more (s.ahead h) .expire := by
        funext q
        rw [fire_ahead]
        unfold more
        split_ifs <;> simp_all
      rw [life_of_cell hh, life_of_cell (List.getElem?_set_self hlt), hahead]
      simp only [lives, Life.step, hdue, hfree, if_true]
      rfl
    · refine .same (life_congr (List.getElem?_set_ne hne.symm) rfl fun q => ?_)
      rw [fire_ahead, if_neg fun hc => hne hc.2, Nat.add_zero]
  | onHolder i env c p h₀ holder _ hruns hh hp =>
    rcases eq_or_ne h h₀ with rfl | hne
    · refine .event _ (fun he => ⟨i, env, c, rfl, ?_⟩) (onHolder_life hruns hh hp)
      cases p <;> first | exact hruns | cases he
    · obtain ⟨hc, hl⟩ := proceedOn_other hp hne
      obtain ⟨ops, hops, hcalls⟩ := proceedOn_calls hp
      exact .same (life_congr hc hl (ahead_other hruns hops hcalls hne))
  | own i env c c' op _ _ hruns hop hframe hcalls hops =>
    have hp := hsh.plain hruns hop
    exact .same (life_of_plain hruns.call hcalls (plain_cons hop hp) (plain_next hp hops)
      hframe.holders
      (by simp only [ProbeRun.listed, hframe.nativePending, hframe.moduleHolders]))
  | exit i env c hruns =>
    have hp := hsh.plain hruns rfl
    exact .same (life_of_plain hruns.call rfl (plain_cons rfl hp) hp rfl rfl)
  | collectNative i env c hruns =>
    have hp := hsh.plain hruns rfl
    exact collectNative_life (hI h) hp hruns rfl (s.hasTgid c.tgid) [] [] c.state (fun _ => rfl)
      rfl rfl (List.append_nil _).symm rfl hp rfl
  | collectModule i env c hruns =>
    have hp := hsh.plain hruns rfl
    exact collectModule_life (hI h) hp hruns rfl (s.isPendingOf c.tgid) hp rfl rfl rfl rfl
  | collectAll i env c hruns hact =>
    have hp := hsh.plain hruns rfl
    have hlast : Plain [.unregister, .hostExit] := by decide
    have hall : s.moduleHolders.filter (fun _ => true) = s.moduleHolders := List.filter_true _
    have hnone : s.moduleHolders.filter (fun _ => !true) = [] := by simp
    rw [probeExit_eq hact]
    refine collectModule_life (hI h) hp hruns rfl (fun _ => true) hlast ?_ rfl hnone.symm ?_
    · rw [hall]
    · rw [hall]
  | publish i env c hruns hadd hok =>
    have hp := hsh.plain hruns rfl
    rw [publish_eq hadd hok]
    refine publish_life hI hp hruns rfl (s.hasTgid c.tgid)
      ⟨.native, c.tgid, c.state, .idle, true, 0, 0⟩ none ⟨rfl, rfl, rfl, rfl⟩ ?_ ?_ ?_ ?_ h <;> rfl
  | arm i env c hruns hadd hshared =>
    have hp := hsh.plain hruns rfl
    rw [arm_eq hadd hshared]
    refine arm_life hI hp hruns rfl
      ⟨.module, c.tgid, c.state, .queued (s.jiffies + s.policyTimeout), true, 0, 0⟩ none
      ⟨rfl, rfl, rfl, rfl⟩ ?_ ?_ ?_ ?_ h <;> rfl

/-! ## 3. What holds of a holder in every run -/

theorem life_init (hi : probe.init s) (h : Nat) : lives.init (s.life h) := by
  obtain ⟨-, hh, hn, hm, -, hc, -⟩ := hi
  have hahead : s.ahead h = fun _ => 0 := by
    funext p
    simp [ProbeRun.ahead, hc]
  simp [lives, ProbeRun.life, ProbeRun.listed, hh, hn, hm, hahead]

/-- What a step does to a holder keeps it in one place. -/
theorem placed_seen (hI : Placed (s.life h)) (hs : Seen s a s' h) : Placed (s'.life h) := by
  cases hs with
  | same heq => rwa [heq]
  | event e _ hst => exact placed_step hI hst

theorem placed_invariant (P : ProbeRun → ProbeAct → Prop) :
    probe.Invariant P fun s => Shaped s ∧ ∀ h, Placed (s.life h) where
  init s hi := ⟨(shaped_invariant P).init s hi, fun h =>
    (Lifetime.placed_invariant Lts.anyStep).init _ (life_init hi h)⟩
  step _ _ _ hI _ hs :=
    ⟨shaped_step hI.1 hs, fun h => placed_seen (hI.2 h) (life_step hI.1 hI.2 hs h)⟩

/-- **Every holder is in one place**, in every run. -/
theorem placed_of_reach {P : ProbeRun → ProbeAct → Prop} (hr : probe.Reach P s) (h : Nat) :
    Placed (s.life h) :=
  (hr.invariant (placed_invariant P)).2 h

/-- Nobody cancels the work of a holder before it is scheduled. -/
def CancelsScheduled (s : ProbeRun) (a : ProbeAct) : Prop :=
  ∀ i env c h, a = .run i env → Runs s i (.on .cancel h) c → s.ahead h .schedule = 0

/-- The same as a test. -/
def cancelsScheduled (s : ProbeRun) : ProbeAct → Bool
  | .run i _ => (s.calls[i]?).all fun c =>
    match c.ops with
    | .on .cancel h :: _ => decide (s.ahead h .schedule = 0)
    | _ => true
  | _ => true

theorem cancelsScheduled_of_test (h : cancelsScheduled s a = true) : CancelsScheduled s a := by
  rintro i env c h₀ rfl hruns
  simpa [cancelsScheduled, hruns.call] using h

theorem still_invariant {P : ProbeRun → ProbeAct → Prop}
    (hP : ∀ s a, P s a → CancelsScheduled s a) :
    probe.Invariant P fun s => Shaped s ∧ ∀ h, Placed (s.life h) ∧ Still (s.life h) where
  init s hi := ⟨(shaped_invariant P).init s hi, fun h =>
    Lifetime.still_invariant.init _ (life_init hi h)⟩
  step s a s' hI hPa hs := by
    obtain ⟨hsh, hlife⟩ := hI
    have hplaced := fun h => (hlife h).1
    refine ⟨shaped_step hsh hs, ?_⟩
    intro h
    have hseen := life_step hsh hplaced hs h
    refine ⟨placed_seen (hplaced h) hseen, ?_⟩
    cases hseen with
    | same heq =>
      rw [heq]
      exact (hlife h).2
    | event e hcancel hst =>
      refine still_step (hplaced h) (hlife h).2 (fun he => ?_) hst
      obtain ⟨i, env, c, rfl, hruns⟩ := hcancel he
      exact hP s _ hPa i env c h rfl hruns

/-- **A holder past its cancel has no work left**, when no cancel comes too early. -/
theorem still_of_reach {P : ProbeRun → ProbeAct → Prop}
    (hP : ∀ s a, P s a → CancelsScheduled s a) (hr : probe.Reach P s) (h : Nat) :
    Still (s.life h) :=
  ((hr.invariant (still_invariant hP)).2 h).2

end Machine

end YukiZygisk.Probe
