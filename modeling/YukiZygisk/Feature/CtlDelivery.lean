/-
# Which task runs which head

The callback head of a slot is on the list of the task the slot was filled for.  As long as no
handoff takes a slot whose head is still on a list, a head is on one list and once, and what a
task installs was handed over for its pid: `delivers_of_unqueued`.  The second of two handoffs
to one pid breaks this: it puts the head on a list that it is on: `not_delivers`.

A slot is given back by its delivery, or by the free callback of a tracked process.  A handoff
that finds no task to hang the head on, for a pid that nobody tracks, takes its slot for good:
`not_reclaims`.  Without such handoffs every occupied slot comes back: `reclaims_of_settled`.

Both results are about the lists of works, which the kernel threads through the slots.  `Hung q`
says that the lists are `q`: every task's two lists run along the links of the slots and share no
head (`Threads` of the library).  Each operation moves heads between lists in one of four ways: it
puts a head on a list, takes a whole list to run it, takes the first head of what runs, or clears a
slot, which cuts the link of its head.  The lemmas of the second section are these four, and the
guard `Unqueued` is what the first of them needs: a head that is put on a list is on none.

What comes back is an invariant of its own (`Kept`): every occupied slot has its head on a list that
will run (`WillRun`), or its pid is in the orchestrator's table and is that of a task whose free
callback is still to come (`WillFree`).  The second disjunct depends on other components, so it is
followed through the life of tasks and through the table as well.
-/
import YukiZygisk.Feature.CtlHandoff

namespace YukiZygisk.Ctl

open Orch Chains HandoffRun

/-! ## 1. The lists of the tasks -/

namespace HandoffRun

variable {s s' : HandoffRun} {i j t : Nat} {w : Which} {p p' : YzPending} {task task' : Task}
  {q : Nat × Which → List Nat}

/-- The head of a slot is on the list of a task. -/
def Queued (s : HandoffRun) (i : Nat) : Prop := ∃ place, Linked s.next (s.head place) i

/-- The lists of the tasks are `q`, and each slot on the list of a task has files for its pid
only. -/
structure Hung (s : HandoffRun) (q : Nat × Which → List Nat) : Prop where
  threads : Threads s.next s.head q
  owned : ∀ t w i, i ∈ q (t, w) → ∃ task p, s.tasks[t]? = some task ∧ s.pending[i]? = some p ∧
    ∀ f ∈ p.files, f.pid = task.pid

/-- What was installed, was installed in the task it was handed over for. -/
def Installed (s : HandoffRun) : Prop :=
  ∀ t f, (t, f) ∈ s.installed → ∃ task, s.tasks[t]? = some task ∧ f.pid = task.pid

/-- The list of a task begins where the task says. -/
theorem head_of (ht : s.tasks[t]? = some task) : s.head (t, w) = task.head w := by
  simp only [head, ht, Option.bind_some]

theorem next_of (hp : s.pending[i]? = some p) : s.next i = p.next := by
  simp only [next, hp, Option.bind_some]

/-- One slot gets another link. -/
theorem next_set (h : s'.pending = s.pending.set i p') (hp : s.pending[i]? = some p) :
    s'.next i = p'.next ∧ ∀ j, j ≠ i → s'.next j = s.next j := by
  constructor
  · simp only [next, h, List.getElem?_set_self (List.getElem?_eq_some_iff.mp hp).1,
      Option.bind_some]
  · intro j hj
    simp only [next, h, List.getElem?_set_ne (Ne.symm hj)]

/-- A slot that keeps its link changes no list. -/
theorem next_set_same (h : s'.pending = s.pending.set i p') (hp : s.pending[i]? = some p)
    (hnext : p'.next = p.next) (j : Nat) : s'.next j = s.next j := by
  obtain ⟨hself, hother⟩ := next_set h hp
  rcases eq_or_ne j i with rfl | hj
  · rw [hself, hnext, next_of hp]
  · exact hother j hj

/-- One task gets other lists. -/
theorem head_set (h : s'.tasks = s.tasks.set t task') (ht : s.tasks[t]? = some task) :
    (∀ w, s'.head (t, w) = task'.head w) ∧ ∀ u w, u ≠ t → s'.head (u, w) = s.head (u, w) := by
  constructor
  · intro w
    simp only [head, h, List.getElem?_set_self (List.getElem?_eq_some_iff.mp ht).1,
      Option.bind_some]
  · intro u w hu
    simp only [head, h, List.getElem?_set_ne (Ne.symm hu)]

/-- A task that keeps its two places changes no list. -/
theorem head_set_same (h : s'.tasks = s.tasks.set t task') (ht : s.tasks[t]? = some task)
    (hheads : ∀ w, task'.head w = task.head w) (place : Nat × Which) :
    s'.head place = s.head place := by
  obtain ⟨u, w⟩ := place
  obtain ⟨hself, hother⟩ := head_set h ht
  rcases eq_or_ne u t with rfl | hu
  · rw [hself, hheads, head_of ht]
  · exact hother u w hu

/-- Growing older does not touch the works of a task. -/
theorem later_head (h : task.Later task') (w : Which) : task'.head w = task.head w := by
  cases w with
  | works => exact h.works
  | running => exact h.running

/-- A task at index `t` is still there, with its pid. -/
def SameTasks (s s' : HandoffRun) : Prop :=
  ∀ (t : Nat) (task : Task), s.tasks[t]? = some task →
    ∃ task', s'.tasks[t]? = some task' ∧ task'.pid = task.pid

theorem sameTasks_of_eq (h : s'.tasks = s.tasks) : s.SameTasks s' := by
  intro t task ht
  exact ⟨task, h ▸ ht, rfl⟩

theorem sameTasks_set (h : s'.tasks = s.tasks.set t task') (ht : s.tasks[t]? = some task)
    (hpid : task'.pid = task.pid) : s.SameTasks s' := by
  intro u x hu
  rcases eq_or_ne u t with rfl | hne
  · obtain rfl := Option.some.inj (ht.symm.trans hu)
    exact ⟨task', h ▸ List.getElem?_set_self (List.getElem?_eq_some_iff.mp ht).1, hpid⟩
  · refine ⟨x, ?_, rfl⟩
    rw [h, List.getElem?_set_ne (Ne.symm hne)]
    exact hu

/-- Lists that only lost heads, over slots that only lost files. -/
theorem Hung.keep {q' : Nat × Which → List Nat} (h : s.Hung q)
    (hthreads : Threads s'.next s'.head q')
    (hsub : ∀ t w i, i ∈ q' (t, w) → ∃ w', i ∈ q (t, w')) (htasks : s.SameTasks s')
    (hfiles : ∀ place i p, i ∈ q' place → s.pending[i]? = some p →
      ∃ p', s'.pending[i]? = some p' ∧ ∀ f ∈ p'.files, f ∈ p.files) : s'.Hung q' := by
  refine ⟨hthreads, ?_⟩
  intro t w i hi
  obtain ⟨w', hi'⟩ := hsub t w i hi
  obtain ⟨task, p, ht, hp, hown⟩ := h.owned t w' i hi'
  obtain ⟨task', ht', hpid⟩ := htasks t task ht
  obtain ⟨p', hp', hsubset⟩ := hfiles (t, w) i p hi hp
  exact ⟨task', p', ht', hp', fun f hf => (hown f (hsubset f hf)).trans hpid.symm⟩

/-- A step that changes no list and no slot. -/
theorem Hung.quiet (h : s.Hung q) (hpending : s'.pending = s.pending)
    (hheads : ∀ place, s'.head place = s.head place) (htasks : s.SameTasks s') : s'.Hung q := by
  refine h.keep (h.threads.congr (fun i place _ => ?_) hheads) (fun _ w _ hi => ⟨w, hi⟩) htasks
    fun _ i p _ hp => ⟨p, hpending ▸ hp, fun _ => id⟩
  simp only [next, hpending]

/-- A slot on no list may change. -/
theorem Hung.set_free (h : s.Hung q) (hpending : s'.pending = s.pending.set i p')
    (hfree : Free q i) (hheads : ∀ place, s'.head place = s.head place)
    (htasks : s.SameTasks s') : s'.Hung q := by
  have hne : ∀ place j, j ∈ q place → i ≠ j := fun place j hj hij => hfree place (hij ▸ hj)
  refine h.keep (h.threads.congr (fun j place hj => ?_) hheads) (fun _ w _ hi => ⟨w, hi⟩) htasks
    fun place j p hj hp => ⟨p, ?_, fun _ => id⟩
  · simp only [next, hpending, List.getElem?_set_ne (hne place j hj)]
  · rw [hpending, List.getElem?_set_ne (hne place j hj)]
    exact hp

/-- A slot that keeps its link may lose its files. -/
theorem Hung.set_emptied (h : s.Hung q) (hp : s.pending[i]? = some p)
    (hpending : s'.pending = s.pending.set i p') (hnext : p'.next = p.next)
    (hfiles : p'.files = []) (hheads : ∀ place, s'.head place = s.head place)
    (htasks : s.SameTasks s') : s'.Hung q := by
  refine h.keep (h.threads.congr (fun j place _ => next_set_same hpending hp hnext j) hheads)
    (fun _ w _ hi => ⟨w, hi⟩) htasks fun _ j x _ hx => ?_
  rcases eq_or_ne i j with rfl | hij
  · refine ⟨p', ?_, by rw [hfiles]; nofun⟩
    rw [hpending, List.getElem?_set_self (List.getElem?_eq_some_iff.mp hp).1]
  · refine ⟨x, ?_, fun _ => id⟩
    rw [hpending, List.getElem?_set_ne hij]
    exact hx

/-! ## 2. Each operation -/

/-- **A cleared slot** loses what is behind its head. -/
theorem Hung.clear (h : s.Hung q) (hp : s.pending[i]? = some p)
    (hpending : s'.pending = s.pending.set i .zero)
    (hheads : ∀ place, s'.head place = s.head place) (htasks : s.SameTasks s') :
    ∃ q', s'.Hung q' := by
  obtain ⟨hself, hother⟩ := next_set hpending hp
  obtain ⟨q', hq', hsub⟩ := h.threads.cut hself hother hheads
  refine ⟨q', h.keep hq' (fun t w j hj => ⟨w, hsub _ j hj⟩) htasks fun _ j x _ hx => ?_⟩
  rcases eq_or_ne i j with rfl | hij
  · refine ⟨.zero, ?_, nofun⟩
    rw [hpending, List.getElem?_set_self (List.getElem?_eq_some_iff.mp hp).1]
  · refine ⟨x, ?_, fun _ => id⟩
    rw [hpending, List.getElem?_set_ne hij]
    exact hx

/-- **The task work starts** with the list it finds. -/
theorem Hung.run (h : s.Hung q) (ht : s.tasks[t]? = some task) (hrun : task.running = none) :
    { s with tasks := s.tasks.set t { task with works := none, running := task.works } }.Hung
      (Function.update (Function.update q (t, .works) []) (t, .running) (q (t, .works))) := by
  have htasks : { s with
      tasks := s.tasks.set t { task with works := none, running := task.works } }.tasks =
        s.tasks.set t { task with works := none, running := task.works } := rfl
  obtain ⟨hself, hother⟩ := head_set htasks ht
  have hsub : ∀ u w i, i ∈ Function.update (Function.update q (t, .works) []) (t, .running)
      (q (t, .works)) (u, w) → ∃ w', i ∈ q (u, w') := by
    intro u w i hi
    rcases eq_or_ne (u, w) (t, Which.running) with heq | hne
    · rw [heq, Function.update_self] at hi
      exact ⟨.works, (Prod.mk.inj heq).1 ▸ hi⟩
    · rw [Function.update_of_ne hne] at hi
      rcases eq_or_ne (u, w) (t, Which.works) with heq | hne'
      · rw [heq, Function.update_self] at hi
        cases hi
      · rw [Function.update_of_ne hne'] at hi
        exact ⟨w, hi⟩
  refine h.keep (h.threads.move (t, .works) (t, .running) nofun ?_ (hself .works)
    ?_ fun place hw hr => ?_) hsub (sameTasks_set rfl ht rfl) fun _ i p _ hp => ⟨p, hp, fun _ => id⟩
  · rw [head_of ht]
    exact hrun
  · rw [hself, head_of ht]
    rfl
  · obtain ⟨u, w⟩ := place
    refine hother u w ?_
    rintro rfl
    cases w with
    | works => exact hw rfl
    | running => exact hr rfl

/-- **A delivery** takes the first head off the list that its task runs, and installs files for
its task only. -/
theorem Hung.deliver (h : s.Hung q) (ht : s.tasks[t]? = some task) (hi : task.running = some i)
    (hp : s.pending[i]? = some p) (room : FileRef → Bool) :
    (∃ l, q (t, .running) = i :: l ∧
      (s.yzDeliverCb t task i p room).Hung (Function.update q (t, .running) l)) ∧
      ∀ f ∈ p.files, f.pid = task.pid := by
  have hfields : (s.yzDeliverCb t task i p room).pending = s.pending.set i .zero ∧
      (s.yzDeliverCb t task i p room).tasks = s.tasks.set t { task with running := p.next } := by
    unfold yzDeliverCb
    split_ifs <;> exact ⟨rfl, rfl⟩
  obtain ⟨hpending, htasks⟩ := hfields
  obtain ⟨-, hnext⟩ := next_set hpending hp
  obtain ⟨hself, hother⟩ := head_set htasks ht
  obtain ⟨l, hq, hthreads⟩ := h.threads.pop (p := (t, .running)) (x := i)
    (s.yzDeliverCb t task i p room).next (s.yzDeliverCb t task i p room).head
    (by rw [head_of ht]; exact hi) hnext (by rw [hself, next_of hp]; rfl) fun place hne => by
      obtain ⟨u, w⟩ := place
      rcases eq_or_ne u t with rfl | hu
      · cases w with
        | works =>
          rw [hself, head_of ht]
          rfl
        | running => exact absurd rfl hne
      · exact hother u w hu
  have hmem : i ∈ q (t, .running) := hq ▸ List.mem_cons_self ..
  refine ⟨⟨l, hq, h.keep hthreads (fun u w j hj => ⟨w, ?_⟩) (sameTasks_set htasks ht rfl)
    fun _ j x _ hx => ?_⟩, ?_⟩
  · rcases eq_or_ne (u, w) (t, Which.running) with heq | hne
    · rw [heq, Function.update_self] at hj
      rw [heq, hq]
      exact List.mem_cons_of_mem _ hj
    · rwa [Function.update_of_ne hne] at hj
  · rcases eq_or_ne i j with rfl | hij
    · refine ⟨.zero, ?_, nofun⟩
      rw [hpending, List.getElem?_set_self (List.getElem?_eq_some_iff.mp hp).1]
    · refine ⟨x, ?_, fun _ => id⟩
      rw [hpending, List.getElem?_set_ne hij]
      exact hx
  · obtain ⟨task', p', ht', hp', hown⟩ := h.owned t .running i hmem
    obtain rfl := Option.some.inj (ht.symm.trans ht')
    obtain rfl := Option.some.inj (hp.symm.trans hp')
    exact hown

/-- **A slot whose head is on no list is taken** for a task that still runs works. -/
theorem Hung.push (h : s.Hung q) (hp : s.pending[i]? = some p) (ht : s.tasks[t]? = some task)
    (hpending : s'.pending = s.pending.set i p')
    (htasks : s'.tasks = s.tasks.set t { task with works := some i }) (hfree : Free q i)
    (hnext : p'.next = task.works) (hown : ∀ f ∈ p'.files, f.pid = task.pid) :
    s'.Hung (Function.update q (t, .works) (i :: q (t, .works))) := by
  obtain ⟨hn, hother⟩ := next_set hpending hp
  obtain ⟨hself, hrest⟩ := head_set htasks ht
  have hlt := (List.getElem?_eq_some_iff.mp hp).1
  refine ⟨h.threads.push (p := (t, .works)) hfree ?_ hother (hself .works) fun place hne => ?_,
    fun u w j hj => ?_⟩
  · rw [hn, hnext, head_of ht]
    rfl
  · obtain ⟨u, w⟩ := place
    rcases eq_or_ne u t with rfl | hu
    · cases w with
      | works => exact absurd rfl hne
      | running =>
        rw [hself, head_of ht]
        rfl
    · exact hrest u w hu
  · have hnew : (u, w) = (t, Which.works) → j = i → ∃ (x : Task) (y : YzPending),
        s'.tasks[u]? = some x ∧ s'.pending[j]? = some y ∧ ∀ f ∈ y.files, f.pid = x.pid := by
      rintro heq rfl
      obtain ⟨rfl, -⟩ := Prod.mk.inj heq
      refine ⟨{ task with works := some j }, p', ?_, ?_, hown⟩
      · rw [htasks, List.getElem?_set_self (List.getElem?_eq_some_iff.mp ht).1]
      · rw [hpending, List.getElem?_set_self hlt]
    have hold : j ∈ q (u, w) → ∃ (x : Task) (y : YzPending),
        s'.tasks[u]? = some x ∧ s'.pending[j]? = some y ∧ ∀ f ∈ y.files, f.pid = x.pid := by
      intro hj
      obtain ⟨x, y, hx, hy, hxy⟩ := h.owned u w j hj
      obtain ⟨x', hx', hpid⟩ := sameTasks_set htasks ht rfl u x hx
      refine ⟨x', y, hx', ?_, fun f hf => (hxy f hf).trans hpid.symm⟩
      have hij : i ≠ j := fun heq => hfree (u, w) (heq ▸ hj)
      rw [hpending, List.getElem?_set_ne hij]
      exact hy
    rcases eq_or_ne (u, w) (t, Which.works) with heq | hne
    · rw [heq, Function.update_self] at hj
      rcases List.mem_cons.mp hj with hji | hj
      · exact hnew heq hji
      · exact hold (heq ▸ hj)
    · rw [Function.update_of_ne hne] at hj
      exact hold hj

/-! ## 3. Delivery -/

/-- The handoff leaves the slots and the lists alone, or it takes slot `i`. -/
theorem handoff_hung (h : s.Hung q) {cmd : YzHandoffCmd} {fget : Int → Bool}
    {target : Option Nat}
    (htask : ∀ t, target = some t → ∃ x, s.tasks[t]? = some x ∧ x.pid = cmd.pid)
    (hfree : ∀ i, s.chosen cmd fget = some i → Free q i) :
    ((s.yzZygoteCtlHandoff cmd fget target).1.pending = s.pending ∧
      (s.yzZygoteCtlHandoff cmd fget target).1.tasks = s.tasks) ∨
    ∃ i p p', s.chosen cmd fget = some i ∧ s.slotFor cmd.pid = some i ∧
      s.pending[i]? = some p ∧ p'.pid = cmd.pid ∧
      (s.yzZygoteCtlHandoff cmd fget target).1.pending = s.pending.set i p' ∧
      (((s.yzZygoteCtlHandoff cmd fget target).1.tasks = s.tasks ∧
          (s.yzZygoteCtlHandoff cmd fget target).1.Hung q ∧
          ∀ t x, target = some t → s.tasks[t]? = some x → x.gone = true) ∨
        ∃ t x, target = some t ∧ s.tasks[t]? = some x ∧ x.gone = false ∧
          (s.yzZygoteCtlHandoff cmd fget target).1.tasks =
            s.tasks.set t { x with works := some i } ∧
          (s.yzZygoteCtlHandoff cmd fget target).1.Hung
            (Function.update q (t, .works) (i :: q (t, .works)))) := by
  rcases s.handoff_cases cmd fget target with heq | ⟨files, -, heq⟩ |
    ⟨i, files, hfiles, hchosen, hslot, heq⟩
  · exact .inl (by rw [heq]; exact ⟨rfl, rfl⟩)
  · exact .inl (by rw [heq]; exact ⟨rfl, rfl⟩)
  · obtain ⟨p, hp, -⟩ := slotFor_some hslot
    obtain ⟨p', hpid, hf, hcase⟩ := place_cases (s := { s with taken := s.taken ++ files })
      cmd files target hp
    refine .inr ⟨i, p, p', hchosen, hslot, hp, hpid, ?_⟩
    have hown : ∀ f ∈ p'.files, f.pid = cmd.pid := by
      intro f hf'
      rw [hf, hfiles, takes] at hf'
      obtain ⟨k, -, rfl⟩ := List.mem_map.mp hf'
      rfl
    rcases hcase with ⟨hplace, -, hgone⟩ | ⟨t, x, ht, hx, hgone, hnext, hplace⟩
    · rw [heq, hplace]
      exact ⟨rfl, .inl ⟨rfl, h.set_free rfl (hfree i hchosen) (fun _ => rfl) (sameTasks_of_eq rfl),
        hgone⟩⟩
    · rw [heq, hplace]
      refine ⟨rfl, .inr ⟨t, x, ht, hx, hgone, rfl, h.push hp hx rfl rfl (hfree i hchosen) hnext ?_⟩⟩
      obtain ⟨y, hy, hypid⟩ := htask t ht
      obtain rfl := Option.some.inj (hx.symm.trans hy)
      exact fun f hf' => (hown f hf').trans hypid.symm

theorem Hung.queued (h : s.Hung q) : s.Queued i ↔ ∃ place, i ∈ q place :=
  exists_congr fun _ => h.threads.linked

/-- A head that is not queued is on no list. -/
theorem Hung.free (h : s.Hung q) (hi : ¬ s.Queued i) : Free q i :=
  fun place hmem => hi (h.queued.mpr ⟨place, hmem⟩)

theorem hung_init : handoffInit.Hung fun _ => [] :=
  ⟨⟨fun _ => rfl, fun _ => List.nodup_nil, nofun⟩, nofun⟩

/-- A started task has no works. -/
theorem spawn_head {task : Task} (hworks : task.works = none) (hrunning : task.running = none)
    (h : s'.tasks = s.tasks ++ [task]) (place : Nat × Which) : s'.head place = s.head place := by
  obtain ⟨u, w⟩ := place
  simp only [head, h]
  rcases Nat.lt_trichotomy u s.tasks.length with hlt | rfl | hgt
  · rw [List.getElem?_append_left hlt]
  · rw [List.getElem?_concat_length, List.getElem?_eq_none (Nat.le_refl _), Option.bind_some]
    cases w with
    | works => exact hworks
    | running => exact hrunning
  · rw [List.getElem?_eq_none (by rw [List.length_append, List.length_singleton]; omega),
      List.getElem?_eq_none (Nat.le_of_lt hgt)]

theorem sameTasks_append {task : Task} (h : s'.tasks = s.tasks ++ [task]) : s.SameTasks s' := by
  intro u x hu
  refine ⟨x, ?_, rfl⟩
  rw [h, List.getElem?_append_left (List.getElem?_eq_some_iff.mp hu).1]
  exact hu

/-- A handoff installs nothing and tracks nobody. -/
theorem handoff_frame (cmd : YzHandoffCmd) (fget : Int → Bool) (target : Option Nat) :
    (s.yzZygoteCtlHandoff cmd fget target).1.installed = s.installed ∧
      (s.yzZygoteCtlHandoff cmd fget target).1.children = s.children := by
  rcases s.handoff_cases cmd fget target with heq | ⟨files, -, heq⟩ |
    ⟨i, files, -, -, hslot, heq⟩
  · rw [heq]
    exact ⟨rfl, rfl⟩
  · rw [heq]
    exact ⟨rfl, rfl⟩
  · obtain ⟨p, hp, -⟩ := slotFor_some hslot
    obtain ⟨p', -, -, ⟨hplace, -⟩ | ⟨t, x, -, -, -, -, hplace⟩⟩ :=
      place_cases (s := { s with taken := s.taken ++ files }) cmd files target hp <;>
    · rw [heq, hplace]
      exact ⟨rfl, rfl⟩

/-- A delivery installs files of its slot in its task. -/
theorem deliver_installed (t : Nat) (task : Task) (i : Nat) (p : YzPending)
    (room : FileRef → Bool) {u : Nat} {f : FileRef}
    (hf : (u, f) ∈ (s.yzDeliverCb t task i p room).installed) :
    (s.yzDeliverCb t task i p room).tasks = s.tasks.set t { task with running := p.next } ∧
      ((u, f) ∈ s.installed ∨ u = t ∧ f ∈ p.files) := by
  constructor
  · unfold yzDeliverCb
    split_ifs <;> rfl
  cases hexiting : task.exiting with
  | true =>
    simp only [yzDeliverCb, hexiting, if_true] at hf
    exact .inl hf
  | false =>
    simp only [yzDeliverCb, hexiting, Bool.false_eq_true, if_false] at hf
    rcases List.mem_append.mp hf with hf | hf
    · exact .inl hf
    · obtain ⟨g, hg, heq⟩ := List.mem_map.mp hf
      obtain ⟨rfl, rfl⟩ := Prod.mk.inj heq
      exact .inr ⟨rfl, (List.mem_filter.mp hg).1⟩

/-- What was installed stays right while pids do not change. -/
theorem Installed.congr (h : s.Installed) (hinstalled : s'.installed = s.installed)
    (htasks : s.SameTasks s') : s'.Installed := by
  intro t f hf
  obtain ⟨task, ht, hpid⟩ := h t f (hinstalled ▸ hf)
  obtain ⟨task', ht', hpid'⟩ := htasks t task ht
  exact ⟨task', ht', hpid.trans hpid'.symm⟩

end HandoffRun

/-- **A handoff takes no slot whose callback head is still on a list.** -/
def Unqueued (s : HandoffRun) : HandoffAct → Prop
  | .handoff cmd fget _ => ∀ i, s.chosen cmd fget = some i → ¬ s.Queued i
  | _ => True

/-- **Heads and files go to their task.**  The lists of the tasks end and no head is on them
twice, and what a task installed was handed over for its pid. -/
def Delivers (P : HandoffRun → HandoffAct → Prop) : Prop :=
  ∀ s, handoffLts.Reach P s → (∃ q, Threads s.next s.head q) ∧ s.Installed

/-- The invariant, over runs in which no handoff takes a slot whose head is queued. -/
theorem hung_invariant :
    handoffLts.Invariant Unqueued fun s => (∃ q, s.Hung q) ∧ s.Installed where
  init s hi := by
    obtain rfl : s = handoffInit := hi
    exact ⟨⟨_, hung_init⟩, nofun⟩
  step s a s' h hP hs := by
    obtain ⟨⟨q, hq⟩, hown⟩ := h
    cases steps_of_step hs with
    | spawn =>
      exact ⟨⟨q, hq.quiet rfl (spawn_head rfl rfl rfl) (sameTasks_append rfl)⟩,
        hown.congr rfl (sameTasks_append rfl)⟩
    | handoff cmd fget target hexit htask =>
      have hfree : ∀ i, s.chosen cmd fget = some i → Free q i := fun i hi => hq.free (hP i hi)
      have hkept := (handoff_frame (s := s) cmd fget target).1
      rcases handoff_hung hq htask hfree with ⟨hpending, htasks⟩ |
        ⟨i, p, p', -, -, -, -, -, ⟨htasks, hhung, -⟩ | ⟨t, x, -, hx, -, htasks, hhung⟩⟩
      · have hheads : ∀ place, (s.yzZygoteCtlHandoff cmd fget target).1.head place =
            s.head place := fun place => by simp only [head, htasks]
        exact ⟨⟨q, hq.quiet hpending hheads (sameTasks_of_eq htasks)⟩,
          hown.congr hkept (sameTasks_of_eq htasks)⟩
      · exact ⟨⟨q, hhung⟩, hown.congr hkept (sameTasks_of_eq htasks)⟩
      · exact ⟨⟨_, hhung⟩, hown.congr hkept (sameTasks_set htasks hx rfl)⟩
    | run t task ht hgone hrun =>
      exact ⟨⟨_, hq.run ht hrun⟩, hown.congr rfl (sameTasks_set rfl ht rfl)⟩
    | deliver t room task i p ht hi hp =>
      obtain ⟨⟨l, -, hl⟩, hfiles⟩ := hq.deliver ht hi hp room
      refine ⟨⟨_, hl⟩, ?_⟩
      intro u f hf
      obtain ⟨htasks, hinstalled⟩ := deliver_installed t task i p room hf
      have hsame := sameTasks_set htasks ht rfl
      rcases hinstalled with hold | ⟨rfl, hmem⟩
      · obtain ⟨x, hx, hpid⟩ := hown u f hold
        obtain ⟨x', hx', hpid'⟩ := hsame u x hx
        exact ⟨x', hx', hpid.trans hpid'.symm⟩
      · obtain ⟨x', hx', hpid'⟩ := hsame u task ht
        exact ⟨x', hx', (hfiles f hmem).trans hpid'.symm⟩
    | later a t task task' ha ht hlater =>
      exact ⟨⟨q, hq.quiet rfl (head_set_same rfl ht (later_head hlater))
        (sameTasks_set rfl ht hlater.pid)⟩, hown.congr rfl (sameTasks_set rfl ht hlater.pid)⟩
    | free t task ht hfreed =>
      have hsame : s.SameTasks
          { s.zoOnFree task with tasks := s.tasks.set t { task with freed := true } } :=
        sameTasks_set rfl ht rfl
      have htasks : { s.zoOnFree task with
          tasks := s.tasks.set t { task with freed := true } }.tasks =
            s.tasks.set t { task with freed := true } := rfl
      have hheads := head_set_same htasks ht fun w => by cases w <;> rfl
      rcases zoOnFree_cases ht with ⟨heq, -⟩ | ⟨i, p, -, hp, -, heq⟩
      · exact ⟨⟨q, hq.quiet (by rw [heq]) hheads hsame⟩, hown.congr (by rw [heq]) hsame⟩
      · exact ⟨hq.clear hp (by rw [heq]) hheads hsame, hown.congr (by rw [heq]) hsame⟩
    | ctlExit | load | drop =>
      exact ⟨⟨q, hq.quiet rfl (fun _ => rfl) (sameTasks_of_eq rfl)⟩,
        hown.congr rfl (sameTasks_of_eq rfl)⟩
    | leave i j p hexit hnone hp =>
      exact ⟨⟨q, hq.set_emptied hp rfl rfl rfl (fun _ => rfl) (sameTasks_of_eq rfl)⟩,
        hown.congr rfl (sameTasks_of_eq rfl)⟩

/-- **A task installs what was handed over for its pid**, in every run in which no handoff takes a
slot whose head is still on a list. -/
theorem delivers_of_unqueued {P : HandoffRun → HandoffAct → Prop}
    (hP : ∀ s a, P s a → Unqueued s a) : Delivers P := by
  intro s hr
  obtain ⟨⟨q, hq⟩, hown⟩ := (hr.mono hP).invariant hung_invariant
  exact ⟨⟨q, hq.threads⟩, hown⟩

/-- No task has a head on a list: a test of a state. -/
def HandoffRun.idle (s : HandoffRun) : Bool :=
  s.tasks.all fun task => task.works.isNone && task.running.isNone

theorem HandoffRun.not_queued_of_idle {s : HandoffRun} (h : s.idle = true) (i : Nat) :
    ¬ s.Queued i := by
  rintro ⟨⟨t, w⟩, hlinked⟩
  have hhead : s.head (t, w) = none := by
    simp only [head]
    cases ht : s.tasks[t]? with
    | none => rfl
    | some task =>
      have hidle := List.all_eq_true.mp h task (List.mem_of_getElem? ht)
      simp only [Bool.and_eq_true, Option.isNone_iff_eq_none] at hidle
      cases w with
      | works => exact hidle.1
      | running => exact hidle.2
  rw [hhead] at hlinked
  cases hlinked

/-- A handoff is for a task that still runs works and waits until every list is empty, and so
does a free callback: a test of a step. -/
def oneAtATime (s : HandoffRun) : HandoffAct → Bool
  | .handoff _ _ target =>
    s.idle && target.any fun t => s.tasks[t]?.any fun task => !task.gone
  | .free _ => s.idle
  | _ => true

def OneAtATime (s : HandoffRun) (a : HandoffAct) : Prop := oneAtATime s a = true

/-- Two handoffs for one task, the second after the first is delivered. -/
def sampleHandoffs : List HandoffAct :=
  [.spawn 7 true true, .handoff ⟨7, 10001, 0, [3]⟩ (fun _ => true) (some 0), .run 0,
    .deliver 0 fun _ => true, .handoff ⟨7, 10001, 0, [4]⟩ (fun _ => true) (some 0)]

theorem delivers_oneAtATime : ∃ s, handoffLts.Reach OneAtATime s ∧ s.installed.length = 1 ∧
    (∃ q, Threads s.next s.head q) ∧ s.Installed := by
  have hall : Delivers OneAtATime := by
    refine delivers_of_unqueued ?_
    intro s a h
    cases a with
    | handoff cmd fget target =>
      intro i _
      exact HandoffRun.not_queued_of_idle (Bool.and_eq_true_iff.mp h).1 i
    | _ => trivial
  have hrun : ((handoffLts.restrict oneAtATime).exec handoffInit sampleHandoffs).any
      (fun s => decide (s.installed.length = 1)) = true := by
    decide +kernel
  obtain ⟨s, hr, hp⟩ := Lts.exists_reach_of_guarded (M := handoffLts) (P := OneAtATime)
    (fun _ _ => id) rfl _ _ hrun
  exact ⟨s, hr, of_decide_eq_true hp, hall s hr⟩

/-- **The second of two handoffs makes a loop.**  It puts the head of slot 0 in front of itself. -/
theorem not_delivers : ¬ Delivers Lts.anyStep := by
  intro h
  have hrun : (handoffLts.exec handoffInit
      [.spawn 7 true true, .handoff ⟨7, 10001, 0, [3]⟩ (fun _ => true) (some 0),
        .handoff ⟨7, 10001, 0, [4]⟩ (fun _ => true) (some 0)]).any
      (fun s => decide (s.head (0, .works) = some 0 ∧ s.next 0 = some 0)) = true := by
    decide +kernel
  obtain ⟨s, hr, hp⟩ := Lts.exists_reach_of_exec (M := handoffLts) rfl _ _ hrun
  obtain ⟨hhead, hnext⟩ := of_decide_eq_true hp
  obtain ⟨⟨q, hq⟩, -⟩ := h s hr
  exact not_chain_loop hnext (hhead ▸ hq.chain (0, .works))

/-! ## 4. Slots that come back -/

namespace HandoffRun

/-- The head of a slot is on the list of a task that will still run it. -/
def WillRun (s : HandoffRun) (i : Nat) : Prop :=
  ∃ t w task, s.tasks[t]? = some task ∧ task.gone = false ∧ Linked s.next (s.head (t, w)) i

/-- A tracked process has this pid, and its free callback is still to come. -/
def WillFree (s : HandoffRun) (pid : Nat) : Prop :=
  (∃ (t : Nat) (task : Task), s.tasks[t]? = some task ∧ task.pid = pid ∧ task.leader = true ∧
    task.freed = false) ∧ (zoSlotOf s.children pid).isSome

/-- The lists are `q`, no two slots have one pid, and every occupied slot comes back. -/
structure Kept (s : HandoffRun) (q : Nat × Which → List Nat) : Prop where
  hung : s.Hung q
  distinct : Keyed.Distinct (·.pid) s.pending
  back : ∀ i p, s.pending[i]? = some p → p.pid ≠ 0 →
    (∃ t w task, s.tasks[t]? = some task ∧ task.gone = false ∧ i ∈ q (t, w)) ∨ s.WillFree p.pid

variable {s s' : HandoffRun} {i j t : Nat} {w : Which} {p p' : YzPending} {task task' : Task}
  {q q' : Nat × Which → List Nat} {pid : Nat}

/-- A pid that will be freed still will be, if its tasks go on as tasks do. -/
theorem willFree_of (h : s.WillFree pid)
    (htasks : ∀ (t : Nat) (task : Task), s.tasks[t]? = some task → task.pid = pid →
      task.leader = true → task.freed = false → ∃ task', s'.tasks[t]? = some task' ∧
        task'.pid = task.pid ∧ task'.leader = task.leader ∧ task'.freed = task.freed)
    (hchildren : (zoSlotOf s.children pid).isSome → (zoSlotOf s'.children pid).isSome) :
    s'.WillFree pid := by
  obtain ⟨⟨t, task, ht, hpid, hleader, hfreed⟩, htracked⟩ := h
  obtain ⟨task', ht', hpid', hleader', hfreed'⟩ := htasks t task ht hpid hleader hfreed
  exact ⟨⟨t, task', ht', hpid'.trans hpid, hleader'.trans hleader, hfreed'.trans hfreed⟩,
    hchildren htracked⟩

/-- A task changes, but not in what a free callback looks at. -/
theorem willFree_set (h : s.WillFree pid) (ht : s.tasks[t]? = some task)
    (htasks : s'.tasks = s.tasks.set t task') (hpid : task'.pid = task.pid)
    (hleader : task'.leader = task.leader) (hfreed : task'.freed = task.freed)
    (hchildren : s'.children = s.children) : s'.WillFree pid := by
  refine willFree_of h (fun u x hu _ _ _ => ?_) fun hsome => hchildren ▸ hsome
  rcases eq_or_ne u t with rfl | hne
  · obtain rfl := Option.some.inj (ht.symm.trans hu)
    exact ⟨task', htasks ▸ List.getElem?_set_self (List.getElem?_eq_some_iff.mp ht).1, hpid,
      hleader, hfreed⟩
  · refine ⟨x, ?_, rfl, rfl, rfl⟩
    rw [htasks, List.getElem?_set_ne (Ne.symm hne)]
    exact hu

/-- The slots stay, and so does what will bring them back. -/
theorem Kept.keep (h : s.Kept q) (hung : s'.Hung q') (hpending : s'.pending = s.pending)
    (hrun : ∀ t w i task, i ∈ q (t, w) → s.tasks[t]? = some task → task.gone = false →
      ∃ w' task', s'.tasks[t]? = some task' ∧ task'.gone = false ∧ i ∈ q' (t, w'))
    (hfree : ∀ (j : Nat) (d : YzPending), s.pending[j]? = some d → d.pid ≠ 0 →
      s.WillFree d.pid → s'.WillFree d.pid) : s'.Kept q' := by
  refine ⟨hung, hpending ▸ h.distinct, ?_⟩
  intro i p hp hne
  rw [hpending] at hp
  rcases h.back i p hp hne with ⟨t, w, task, ht, hgone, hi⟩ | hwill
  · obtain ⟨w', task', ht', hgone', hi'⟩ := hrun t w i task hi ht hgone
    exact .inl ⟨t, w', task', ht', hgone', hi'⟩
  · exact .inr (hfree i p hp hne hwill)

/-- A slot gets another pid, and has what brings it back; the others keep theirs. -/
theorem Kept.set (h : s.Kept q) (hung : s'.Hung q')
    (hpending : s'.pending = s.pending.set i p')
    (hdistinct : p'.pid = 0 ∨
      ∀ (j : Nat) (d : YzPending), j ≠ i → s.pending[j]? = some d → d.pid ≠ p'.pid)
    (hself : p'.pid ≠ 0 →
      (∃ t w task, s'.tasks[t]? = some task ∧ task.gone = false ∧ i ∈ q' (t, w)) ∨
        s'.WillFree p'.pid)
    (hrun : ∀ t w j task, j ≠ i → j ∈ q (t, w) → s.tasks[t]? = some task → task.gone = false →
      ∃ w' task', s'.tasks[t]? = some task' ∧ task'.gone = false ∧ j ∈ q' (t, w'))
    (hfree : ∀ (j : Nat) (d : YzPending), j ≠ i → s.pending[j]? = some d → d.pid ≠ 0 →
      s.WillFree d.pid → s'.WillFree d.pid) : s'.Kept q' := by
  refine ⟨hung, hpending ▸ h.distinct.set hdistinct, ?_⟩
  intro j d hd hne
  rw [hpending, List.getElem?_set] at hd
  split_ifs at hd with hij hlt
  · obtain rfl := Option.some.inj hd
    exact hij ▸ hself hne
  · have hji : j ≠ i := Ne.symm hij
    rcases h.back j d hd hne with ⟨t, w, task, ht, hgone, hj⟩ | hwill
    · obtain ⟨w', task', ht', hgone', hj'⟩ := hrun t w j task hji hj ht hgone
      exact .inl ⟨t, w', task', ht', hgone', hj'⟩
    · exact .inr (hfree j d hji hd hne hwill)

/-- Changing a task keeps the heads it will run. -/
theorem run_set (ht : s.tasks[t]? = some task) (htasks : s'.tasks = s.tasks.set t task')
    (hgone : task.gone = false → task'.gone = false) {u : Nat} {x : Task}
    (hu : s.tasks[u]? = some x) (hx : x.gone = false) :
    ∃ x', s'.tasks[u]? = some x' ∧ x'.gone = false := by
  rcases eq_or_ne u t with rfl | hne
  · obtain rfl := Option.some.inj (ht.symm.trans hu)
    exact ⟨task', htasks ▸ List.getElem?_set_self (List.getElem?_eq_some_iff.mp ht).1, hgone hx⟩
  · refine ⟨x, ?_, hx⟩
    rw [htasks, List.getElem?_set_ne (Ne.symm hne)]
    exact hu

/-! ### The table of the orchestrator -/

/-- Tracking another child does not lose one that is tracked. -/
theorem tracked_track (hpid : pid ≠ 0) {children : List ZoChild} {k : Nat}
    (h : (zoSlotOf children pid).isSome) : (zoSlotOf (zoTrack children k) pid).isSome := by
  unfold zoTrack
  split
  · exact h
  · split
    · exact h
    · rename_i hk i hi
      obtain ⟨c, hc, hc0⟩ := slotOf_some hi
      exact Keyed.slotOf_isSome_set hc (hc0.trans_ne (Ne.symm hpid)) h

theorem tracked_untrack {children : List ZoChild} {k : Nat} (hne : k ≠ pid)
    (h : (zoSlotOf children pid).isSome) : (zoSlotOf (zoUntrack children k).1 pid).isSome := by
  unfold zoUntrack
  cases hi : zoSlotOf children k with
  | none => exact h
  | some i =>
    obtain ⟨c, hc, hck⟩ := slotOf_some hi
    have hset : children.modify i (fun c => { c with pid := 0 }) =
        children.set i { c with pid := 0 } := by
      rw [List.modify_eq_set_getElem?, hc]
      rfl
    simp only [hset]
    exact Keyed.slotOf_isSome_set hc (hck.trans_ne hne) h

end HandoffRun

/-- **A handoff takes a slot that comes back**: its head is on no list, and it is put on the list
of a task that still runs works, or the pid belongs to a tracked process that is not freed yet.
And no release clears a slot whose head is on a list. -/
def Settled (s : HandoffRun) : HandoffAct → Prop
  | .handoff cmd fget target => ∀ i, s.chosen cmd fget = some i → ¬ s.Queued i ∧
      (cmd.pid = 0 ∨ s.WillFree cmd.pid ∨
        ∃ t task, target = some t ∧ s.tasks[t]? = some task ∧ task.gone = false)
  | .free t => ∀ i, s.releases t = some i → ¬ s.Queued i
  | _ => True

/-- **Every occupied slot comes back**: its head is on the list of a task that will run it, or a
free callback is to come that releases it. -/
def Reclaims (P : HandoffRun → HandoffAct → Prop) : Prop :=
  ∀ s, handoffLts.Reach P s → ∀ i p, s.pending[i]? = some p → p.pid ≠ 0 →
    s.WillRun i ∨ s.WillFree p.pid

namespace HandoffRun

variable {s s' : HandoffRun} {i t : Nat} {p : YzPending} {task task' : Task}
  {q : Nat × Which → List Nat}

/-- A handoff that settles, on its task or with a release to come. -/
theorem handoff_kept (h : s.Kept q) (cmd : YzHandoffCmd) (fget : Int → Bool)
    (target : Option Nat)
    (htask : ∀ t, target = some t → ∃ x, s.tasks[t]? = some x ∧ x.pid = cmd.pid)
    (hP : Settled s (.handoff cmd fget target)) :
    ∃ q', (s.yzZygoteCtlHandoff cmd fget target).1.Kept q' := by
  have hchildren : (s.yzZygoteCtlHandoff cmd fget target).1.children = s.children :=
    (handoff_frame cmd fget target).2
  have hfree : ∀ i, s.chosen cmd fget = some i → Free q i := fun i hi => h.hung.free (hP i hi).1
  rcases handoff_hung h.hung htask hfree with ⟨hpending, htasks⟩ |
    ⟨i, p, p', hchosen, hslot, hp, hpid, hpending, hcase⟩
  · have hheads : ∀ place, (s.yzZygoteCtlHandoff cmd fget target).1.head place =
        s.head place := fun place => by simp only [head, htasks]
    refine ⟨q, h.keep (h.hung.quiet hpending hheads (sameTasks_of_eq htasks)) hpending
      (fun t w i task hi ht hg => ⟨w, task, htasks ▸ ht, hg, hi⟩) fun _ _ _ _ hwill => ?_⟩
    exact willFree_of hwill (fun t task ht _ _ _ => ⟨task, htasks ▸ ht, rfl, rfl, rfl⟩)
      fun hsome => hchildren ▸ hsome
  · -- no other slot has the pid of the handoff
    have hdistinct : p'.pid = 0 ∨ ∀ (j : Nat) (d : YzPending), j ≠ i → s.pending[j]? = some d →
        d.pid ≠ p'.pid := by
      rw [hpid]
      by_cases h0 : cmd.pid = 0
      · exact .inl h0
      refine .inr ?_
      intro j d hj hd hdp
      obtain ⟨x, hx, hown | ⟨-, hnone⟩⟩ := slotFor_some hslot
      · exact hj (h.distinct j i d x hd hx (hdp.trans_ne h0) (hdp.trans hown.symm))
      · exact pendingSlot_none hnone d (List.mem_of_getElem? hd) hdp
    obtain ⟨-, hwhy⟩ := hP i hchosen
    rcases hcase with ⟨htasks, hhung, hgone⟩ | ⟨t, x, -, hx, hg, htasks, hhung⟩
    · have hwill : ∀ pid, s.WillFree pid →
          (s.yzZygoteCtlHandoff cmd fget target).1.WillFree pid := fun pid hwill =>
        willFree_of hwill (fun t task ht _ _ _ => ⟨task, htasks ▸ ht, rfl, rfl, rfl⟩)
          fun hsome => hchildren ▸ hsome
      refine ⟨q, h.set hhung hpending hdistinct (fun hne => ?_)
        (fun t w j task _ hj ht hg => ⟨w, task, htasks ▸ ht, hg, hj⟩)
        fun j d _ _ _ hd => hwill d.pid hd⟩
      rw [hpid] at hne ⊢
      rcases hwhy with h0 | hfree | ⟨t, task, ht, htx, hg⟩
      · exact absurd h0 hne
      · exact .inr (hwill cmd.pid hfree)
      · rw [hgone t task ht htx] at hg
        cases hg
    · refine ⟨_, h.set hhung hpending hdistinct (fun _ => .inl ⟨t, .works, { x with works := some i },
        ?_, hg, ?_⟩) (fun u w j task _ hj hu hgu => ?_) fun j d _ _ _ hd =>
          willFree_set hd hx htasks rfl rfl rfl hchildren⟩
      · rw [htasks, List.getElem?_set_self (List.getElem?_eq_some_iff.mp hx).1]
      · rw [Function.update_self]
        exact List.mem_cons_self ..
      · obtain ⟨task', hu', hgu'⟩ := run_set hx htasks
          (fun h => h) hu hgu
        refine ⟨w, task', hu', hgu', ?_⟩
        rcases eq_or_ne (u, w) (t, Which.works) with heq | hne
        · rw [heq, Function.update_self]
          exact List.mem_cons_of_mem _ (heq ▸ hj)
        · rwa [Function.update_of_ne hne]

theorem run_kept (h : s.Kept q) (ht : s.tasks[t]? = some task) (hgone : task.gone = false)
    (hrun : task.running = none) :
    ∃ q', { s with
      tasks := s.tasks.set t { task with works := none, running := task.works } }.Kept q' := by
  refine ⟨_, h.keep (h.hung.run ht hrun) rfl (fun u w i x hi hu hg => ?_) fun _ _ _ _ hwill =>
    willFree_set hwill ht rfl rfl rfl rfl rfl⟩
  have htasks : { s with
      tasks := s.tasks.set t { task with works := none, running := task.works } }.tasks =
        s.tasks.set t { task with works := none, running := task.works } := rfl
  obtain ⟨x', hu', hg'⟩ := run_set ht htasks (fun _ => hgone) hu hg
  rcases eq_or_ne u t with rfl | hne
  · refine ⟨.running, x', hu', hg', ?_⟩
    rw [Function.update_self]
    cases w with
    | works => exact hi
    | running =>
      -- nothing was being run
      have hchain := h.hung.threads.chain (u, .running)
      rw [head_of ht] at hchain
      have hempty : q (u, .running) = [] := by
        cases hq : q (u, .running) with
        | nil => rfl
        | cons y l =>
          rw [hq] at hchain
          exact absurd (hchain.1.symm.trans hrun) nofun
      rw [hempty] at hi
      cases hi
  · refine ⟨w, x', hu', hg', ?_⟩
    rw [Function.update_of_ne fun heq => hne (Prod.mk.inj heq).1,
      Function.update_of_ne fun heq => hne (Prod.mk.inj heq).1]
    exact hi

theorem deliver_kept (h : s.Kept q) (ht : s.tasks[t]? = some task) (hi : task.running = some i)
    (hp : s.pending[i]? = some p) (room : FileRef → Bool) :
    ∃ q', (s.yzDeliverCb t task i p room).Kept q' := by
  obtain ⟨⟨l, hq, hhung⟩, -⟩ := h.hung.deliver ht hi hp room
  have hfields : (s.yzDeliverCb t task i p room).pending = s.pending.set i .zero ∧
      (s.yzDeliverCb t task i p room).tasks = s.tasks.set t { task with running := p.next } ∧
      (s.yzDeliverCb t task i p room).children = s.children := by
    unfold yzDeliverCb
    split_ifs <;> exact ⟨rfl, rfl, rfl⟩
  obtain ⟨hpending, htasks, hchildren⟩ := hfields
  refine ⟨_, h.set hhung hpending (.inl rfl) (fun hne => absurd rfl hne)
    (fun u w j x hj hmem hu hg => ?_) fun j d _ _ _ hd =>
      willFree_set hd ht htasks rfl rfl rfl hchildren⟩
  obtain ⟨x', hu', hg'⟩ := run_set ht htasks
    (fun h => h) hu hg
  refine ⟨w, x', hu', hg', ?_⟩
  rcases eq_or_ne (u, w) (t, Which.running) with heq | hne
  · rw [heq, Function.update_self]
    rw [heq, hq] at hmem
    exact (List.mem_cons.mp hmem).resolve_left hj
  · rwa [Function.update_of_ne hne]

/-- A task that is past its last work has nothing on its lists. -/
theorem later_kept (h : s.Kept q) (ht : s.tasks[t]? = some task) (hlater : task.Later task')
    (hfreed : task'.freed = task.freed) :
    { s with tasks := s.tasks.set t task' }.Kept q := by
  refine h.keep (h.hung.quiet rfl (head_set_same rfl ht (later_head hlater))
    (sameTasks_set rfl ht hlater.pid)) rfl (fun u w i x hi hu hg => ?_) fun _ _ _ _ hwill =>
      willFree_set hwill ht rfl hlater.pid hlater.leader hfreed rfl
  rcases eq_or_ne u t with rfl | hne
  · obtain rfl := Option.some.inj (ht.symm.trans hu)
    refine ⟨w, task', List.getElem?_set_self (List.getElem?_eq_some_iff.mp ht).1, ?_, hi⟩
    rcases hlater.gone with hg' | hg' | ⟨hworks, hrunning⟩
    · exact hg'
    · rw [hg'] at hg
      cases hg
    · have hlinked := h.hung.threads.linked.mpr hi
      rw [head_of ht] at hlinked
      cases w with
      | works =>
        simp only [Task.head, hworks] at hlinked
        cases hlinked
      | running =>
        simp only [Task.head, hrunning] at hlinked
        cases hlinked
  · refine ⟨w, x, ?_, hg, hi⟩
    exact (List.getElem?_set_ne (Ne.symm hne)).trans hu

/-- Giving a child up says whether it was tracked. -/
theorem untrack_snd (children : List ZoChild) (k : Nat) :
    (zoUntrack children k).2 = (zoSlotOf children k).isSome := by
  unfold zoUntrack
  cases zoSlotOf children k <;> rfl

/-- A free callback leaves what will free another pid. -/
theorem willFree_free {pid : Nat} (h : s.WillFree pid) (ht : s.tasks[t]? = some task)
    (hne : task.leader = true → task.pid ≠ pid)
    (htasks : s'.tasks = s.tasks.set t { task with freed := true })
    (hchildren : s'.children = s.childrenAfter task) : s'.WillFree pid := by
  refine willFree_of h (fun u x hu hx hleader _ => ?_) fun hsome => ?_
  · have hut : u ≠ t := by
      rintro rfl
      obtain rfl := Option.some.inj (ht.symm.trans hu)
      exact hne hleader hx
    refine ⟨x, ?_, rfl, rfl, rfl⟩
    rw [htasks, List.getElem?_set_ne (Ne.symm hut)]
    exact hu
  · rw [hchildren, childrenAfter]
    split_ifs with hleader
    · exact tracked_untrack (hne hleader) hsome
    · exact hsome

/-- The free callback drops what was left for its pid. -/
theorem free_kept (h : s.Kept q) (ht : s.tasks[t]? = some task)
    (hP : Settled s (.free t)) :
    ∃ q', { s.zoOnFree task with tasks := s.tasks.set t { task with freed := true } }.Kept q' := by
  have htasks : { s.zoOnFree task with
      tasks := s.tasks.set t { task with freed := true } }.tasks =
        s.tasks.set t { task with freed := true } := rfl
  have hheads := head_set_same htasks ht fun w => by cases w <;> rfl
  have hsame : s.SameTasks
      { s.zoOnFree task with tasks := s.tasks.set t { task with freed := true } } :=
    sameTasks_set rfl ht rfl
  have hrun : ∀ u w (i : Nat) x, i ∈ q (u, w) → s.tasks[u]? = some x → x.gone = false →
      ∃ w' x', (s.tasks.set t { task with freed := true })[u]? = some x' ∧ x'.gone = false ∧
        i ∈ q (u, w') := by
    intro u w i x hi hu hg
    obtain ⟨x', hu', hg'⟩ := run_set ht htasks (fun h => h) hu hg
    exact ⟨w, x', hu', hg', hi⟩
  rcases zoOnFree_cases ht with ⟨heq, hrel⟩ | ⟨i, p, hrel, hp, hpid, heq⟩
  · refine ⟨q, h.keep (h.hung.quiet (by rw [heq]) hheads hsame) (by rw [heq]) hrun
      fun j d hd hne hwill => ?_⟩
    refine willFree_free hwill ht (fun hleader hdp => ?_) rfl (by rw [heq])
    -- a tracked pid with a slot is released
    have hslot : (yzSlotOf s.pending task.pid).isSome :=
      Keyed.slotOf_isSome.mpr ⟨d, List.mem_of_getElem? hd, hdp.symm⟩
    simp only [releases, ht, Option.bind_some, hleader, untrack_snd, hdp, hwill.2, Bool.and_self,
      if_true] at hrel
    rw [hdp, hrel] at hslot
    cases hslot
  · have hpending : { s.zoOnFree task with
        tasks := s.tasks.set t { task with freed := true } }.pending = s.pending.set i .zero := by
      rw [heq]
    have hunq : Free q i := h.hung.free (hP i hrel)
    refine ⟨q, h.set (h.hung.set_free hpending hunq hheads hsame) hpending (.inl rfl)
      (fun hne => absurd rfl hne) (fun u w j x _ hj hu hg => hrun u w j x hj hu hg)
      fun j d hj hd hne hwill => ?_⟩
    refine willFree_free hwill ht (fun _ hdp => hj ?_) rfl (by rw [heq])
    exact h.distinct j i d p hd hp hne (hdp.symm.trans hpid.symm)

end HandoffRun

/-- Every occupied slot will come back, over the runs in which handoffs settle. -/
theorem kept_invariant : handoffLts.Invariant Settled fun s => ∃ q, s.Kept q where
  init s hi := by
    obtain rfl : s = handoffInit := hi
    have hzero : ∀ (i : Nat) (p : YzPending), handoffInit.pending[i]? = some p → p.pid = 0 := by
      intro i p hp
      rw [List.eq_of_mem_replicate (List.mem_of_getElem? hp)]
      rfl
    exact ⟨_, hung_init, fun i j c d hc _ hne => absurd (hzero i c hc) hne,
      fun i p hp hne => absurd (hzero i p hp) hne⟩
  step s a s' h hP hs := by
    obtain ⟨q, h⟩ := h
    cases steps_of_step hs with
    | spawn pid leader zygote =>
      refine ⟨q, h.keep (h.hung.quiet rfl (spawn_head rfl rfl rfl) (sameTasks_append rfl)) rfl
        (fun t w i task hi ht hg => ⟨w, task, ?_, hg, hi⟩) fun j d _ hne hwill =>
          willFree_of hwill (fun t task ht _ _ _ => ⟨task, ?_, rfl, rfl, rfl⟩) fun hsome => ?_⟩
      · exact (List.getElem?_append_left (List.getElem?_eq_some_iff.mp ht).1).trans ht
      · exact (List.getElem?_append_left (List.getElem?_eq_some_iff.mp ht).1).trans ht
      · change (zoSlotOf (if _ then _ else _) d.pid).isSome
        split_ifs
        · exact tracked_track hne hsome
        · exact hsome
    | handoff cmd fget target _ htask => exact handoff_kept h cmd fget target htask hP
    | run t task ht hgone hrun => exact run_kept h ht hgone hrun
    | deliver t room task i p ht hi hp => exact deliver_kept h ht hi hp room
    | later a t task task' ha ht hlater hfreed => exact ⟨q, later_kept h ht hlater hfreed⟩
    | free t task ht => exact free_kept h ht hP
    | ctlExit | load | drop =>
      exact ⟨q, h.keep (h.hung.quiet rfl (fun _ => rfl) (sameTasks_of_eq rfl)) rfl
        (fun _ w _ task hi ht hg => ⟨w, task, ht, hg, hi⟩) fun _ _ _ _ hwill => hwill⟩
    | leave i j p hexit hnone hp =>
      exact ⟨q, h.set (h.hung.set_emptied hp rfl rfl rfl (fun _ => rfl) (sameTasks_of_eq rfl)) rfl
        (.inl rfl) (fun hne => absurd rfl hne)
        (fun _ w _ task _ hj ht hg => ⟨w, task, ht, hg, hj⟩) fun _ _ _ _ _ hwill => hwill⟩

/-- **Every occupied slot comes back**, in every run in which each handoff finds a task to hang its
head on, or a pid that is tracked. -/
theorem reclaims_of_settled {P : HandoffRun → HandoffAct → Prop}
    (hP : ∀ s a, P s a → Settled s a) : Reclaims P := by
  intro s hr i p hp hne
  obtain ⟨q, h⟩ := (hr.mono hP).invariant kept_invariant
  rcases h.back i p hp hne with ⟨t, w, task, ht, hgone, hi⟩ | hwill
  · exact .inl ⟨t, w, task, ht, hgone, h.hung.threads.linked.mpr hi⟩
  · exact .inr hwill

theorem reclaims_oneAtATime : ∃ s, handoffLts.Reach OneAtATime s ∧
    ∃ p, s.pending[0]? = some p ∧ p.pid = 7 ∧ (s.WillRun 0 ∨ s.WillFree p.pid) := by
  have hall : Reclaims OneAtATime := by
    refine reclaims_of_settled ?_
    intro s a h
    cases a with
    | handoff cmd fget target =>
      obtain ⟨hidle, htarget⟩ := Bool.and_eq_true_iff.mp h
      obtain ⟨t, ht, htask⟩ := (Option.any_eq_true _ _).mp htarget
      obtain ⟨task, htask, hgone⟩ := (Option.any_eq_true _ _).mp htask
      exact fun i _ => ⟨HandoffRun.not_queued_of_idle hidle i,
        .inr (.inr ⟨t, task, ht, htask, by simpa using hgone⟩)⟩
    | free t => exact fun i _ => HandoffRun.not_queued_of_idle h i
    | _ => trivial
  have hrun : ((handoffLts.restrict oneAtATime).exec handoffInit sampleHandoffs).any
      (fun s => (s.pending[0]?).any fun p => decide (p.pid = 7)) = true := by
    decide +kernel
  obtain ⟨s, hr, hp⟩ := Lts.exists_reach_of_guarded (M := handoffLts) (P := OneAtATime)
    (fun _ _ => id) rfl _ _ hrun
  obtain ⟨p, hp, hpid⟩ := (Option.any_eq_true _ _).mp hp
  have hseven : p.pid = 7 := of_decide_eq_true hpid
  exact ⟨s, hr, p, hp, hseven, hall s hr 0 p hp (by rw [hseven]; decide)⟩

/-- **A handoff for a pid that nobody has keeps its slot.** -/
theorem not_reclaims : ¬ Reclaims Lts.anyStep := by
  intro h
  have hrun : (handoffLts.exec handoffInit
      [.handoff ⟨7, 10001, 0, [3]⟩ (fun _ => true) none]).any
      (fun s => (s.pending[0]?).any fun p => decide (p.pid = 7 ∧ s.tasks = [])) = true := by
    decide +kernel
  obtain ⟨s, hr, hp⟩ := Lts.exists_reach_of_exec (M := handoffLts) rfl _ _ hrun
  obtain ⟨p, hp, hbad⟩ := (Option.any_eq_true _ _).mp hp
  obtain ⟨hpid, htasks⟩ := of_decide_eq_true hbad
  have hne : p.pid ≠ 0 := by
    rw [hpid]
    decide
  rcases h s hr 0 p hp hne with ⟨t, w, task, ht, -⟩ | ⟨⟨t, task, ht, -⟩, -⟩
  · rw [htasks] at ht
    cases ht
  · rw [htasks] at ht
    cases ht

end YukiZygisk.Ctl
