/-
# Temporary allowances over whole runs

`PolicyTempOps.lean` says what one operation does.  This file runs the operations in any
order, on any number of records, with any failures: `tempRuns`.

`step_move` is what one step can do, and `grant_step` is what that means for one permission:
seen from one bit of one key, the machine is the counted grant of `Lib/Grants.lean`, and every
step of it is one event there or none.  So what `Lib/Grants.lean` proves of a grant holds of
every permission of the machine (`grant_path`, `grant_reach`).

A record lives in a cell, whose number is its name.  An allow stores a new record, or adds to one
that is named; a restore that succeeds empties its cell.  `Stored` and `Kept` are what such a step
leaves of all other cells, so a tally over the cells moves by one record's worth.  A request that
fails is a step that changes nothing.  `relied` is kept in each cell beside the record: what an
allow required and did not ask for, because it was there.  No operation reads it; it is the number
`needs` of the grant.
-/
import YukiZygisk.Host.PolicyTempOps
import YukiZygisk.Lib.Grants
import YukiZygisk.Lib.Tally

namespace YukiZygisk.Policy

open CountedGrants Tally

/-! ## 1. Records and cells -/

/-- One record a caller holds.  `required` and `relied` are ghosts: the parts its successful
allows required, and the bits of them that were found settled. -/
structure Holder where
  state : FileLoadPolicy
  required : List (PolicyKey × Av)
  relied : List (PolicyKey × Av)

/-- What a cell claims, and what it relies on, of one permission. -/
def cellClaims (k : PolicyKey) (b : Fin 32) : Option Holder → Nat
  | none => 0
  | some h => h.state.claims k b
def cellNeeds (k : PolicyKey) (b : Fin 32) : Option Holder → Nat
  | none => 0
  | some h => asks h.relied k b

/-- A record before anything is done with it. -/
def Holder.fresh : Holder := ⟨.zero, [], []⟩

/-- The cells after a record is handed out or replaced. -/
inductive Stored (cells : List (Option Holder)) (h h' : Holder) : List (Option Holder) → Prop
  | append : h = .fresh → Stored cells h h' (cells ++ [some h'])
  | replace (i : Nat) : cells[i]? = some (some h) → Stored cells h h' (cells.set i (some h'))

variable {cells cells' : List (Option Holder)} {h h' : Holder}

/-- A tally moves by what the record gained. -/
theorem Stored.tally_eq (hs : Stored cells h h' cells') {f : Option Holder → Nat}
    (hf : f (some .fresh) = 0) : tally f cells' + f (some h) = tally f cells + f (some h') := by
  cases hs with
  | append he => simp [he, hf]
  | replace i hi => exact tally_set f hi _

theorem Stored.mem (hs : Stored cells h h' cells') {c : Option Holder} (hc : c ∈ cells') :
    c = some h' ∨ c ∈ cells := by
  cases hs with
  | append _ =>
    rcases List.mem_append.mp hc with hc | hc
    · exact .inr hc
    · exact .inl (List.mem_singleton.mp hc)
  | replace i _ => exact (List.mem_or_eq_of_mem_set hc).symm

/-- The record that is replaced is a fresh one or one of the cells. -/
theorem Stored.old (hs : Stored cells h h' cells') : h = .fresh ∨ some h ∈ cells := by
  cases hs with
  | append he => exact .inl he
  | replace i hi => exact .inr (List.mem_of_getElem? hi)

theorem requiredParts_fit {keys : FileLoadKeys} (hk : keys.Shape) :
    PartsFit (requiredParts keys) := by
  intro p hp _
  simp only [requiredParts, List.mem_cons, List.not_mem_nil, or_false] at hp
  rcases hp with rfl | rfl | rfl
  · exact hk.file_fits
  · exact hk.dir_fits
  · exact hk.tmpfs_fits

theorem partsFit_zero : PartsFit FileLoadPolicy.zero.parts := by
  intro p hp hne
  simp only [FileLoadPolicy.parts, FileLoadPolicy.zero, List.mem_cons, List.not_mem_nil,
    or_false] at hp
  rcases hp with rfl | rfl | rfl | rfl <;> exact absurd rfl hne

/-- Parts that fit ask for nothing on a key that does not. -/
theorem asks_of_not_fits {parts : List (PolicyKey × Av)} (h : PartsFit parts) {k : PolicyKey}
    (hk : ¬ k.Fits) (b : Fin 32) : asks parts k b = 0 := by
  by_contra hne
  obtain ⟨p, hp, rfl, hb⟩ := asks_pos.mp (Nat.pos_of_ne_zero hne)
  refine hk (h p hp ?_)
  intro h0
  rw [h0] at hb
  simp at hb

/-! ## 2. The machine -/

variable [AvtabFns]

/-- The temporary policy and every record handed out; a restored one leaves an empty cell. -/
structure TempRun where
  temp : TempPolicy
  cells : List (Option Holder)

/-- One call of the subsystem.  An execmem request names the record it is made on, or `none`
for a fresh one. -/
inductive TempAct
  | allowFileCurrent (file : Option File) (current : Cred) (env : EditEnv)
  | allowFileCred (file : Option File) (cred : Option Cred) (env : EditEnv)
  | allowExecmemCurrent (target : Option Nat) (current : Cred) (env : EditEnv)
  | allowExecmemCred (target : Option Nat) (cred : Option Cred) (env : EditEnv)
  | restore (i : Nat) (env : EditEnv)
  | prepareRuntime (current : Cred) (env : RuntimeEnv)

/-- The parts a file load over these arguments requires. -/
def fileRequired (t : TempPolicy) (file : Option File) (cred : Option Cred) (includeDir : Bool)
    (access : TmpfsAccess) : List (PolicyKey × Av) :=
  match file, cred with
  | some file, some cred =>
    match yzPolicyBaseGetFileLoadKeys t.base file cred includeDir access with
    | .ok keys => requiredParts keys
    | .error _ => []
  | _, _ => []

/-- The part an execmem request requires. -/
def execmemRequired (t : TempPolicy) (cred : Option Cred) : List (PolicyKey × Av) :=
  match cred with
  | some cred =>
    match yzPolicyBaseGetExecmemKey t.base cred with
    | .ok part => [part]
    | .error _ => []
  | none => []

/-- The requested bits of required parts, and the bits found settled. -/
def requestOf (t : TempPolicy) (parts : List (PolicyKey × Av)) : List (PolicyKey × Av) :=
  parts.map fun p => (p.1, requestAv t p.1 p.2)
def reliedOf (t : TempPolicy) (parts : List (PolicyKey × Av)) : List (PolicyKey × Av) :=
  parts.map fun p => (p.1, p.2 &&& ~~~(requestAv t p.1 p.2))

/-- A file load: a record is handed out on success. -/
def TempRun.allowFile (s : TempRun) (file : Option File) (cred : Option Cred)
    (includeDir : Bool) (access : TmpfsAccess) (env : EditEnv) : TempRun :=
  let required := fileRequired s.temp file cred includeDir access
  match yzHostPolicyAllowFile s.temp file cred includeDir access .zero env with
  | (t, st, .ok ()) =>
    { temp := t, cells := s.cells ++ [some ⟨st, required, reliedOf s.temp required⟩] }
  | (t, _, .error _) => { s with temp := t }

/-- The record an execmem request is made on. -/
def TempRun.target (s : TempRun) : Option Nat → Option Holder
  | none => some ⟨.zero, [], []⟩
  | some i => (s.cells[i]?).join

/-- Store the record back: a fresh one is handed out on success only. -/
def TempRun.store (s : TempRun) (t : TempPolicy) (h : Holder) (ok : Bool) :
    Option Nat → TempRun
  | none => { temp := t, cells := if ok then s.cells ++ [some h] else s.cells }
  | some i => { temp := t, cells := s.cells.set i (some h) }

/-- An execmem request on a record. -/
def TempRun.allowExecmem (s : TempRun) (target : Option Nat) (cred : Option Cred)
    (env : EditEnv) : Option TempRun :=
  match s.target target with
  | none => none
  | some h =>
    let required := execmemRequired s.temp cred
    let relied := if h.state.processAddedAv = 0 then reliedOf s.temp required else []
    match yzHostPolicyAllowExecmem s.temp cred h.state env with
    | (t, st, .ok ()) =>
      some (s.store t ⟨st, h.required ++ required, h.relied ++ relied⟩ true target)
    | (t, st, .error _) => some (s.store t { h with state := st } false target)

def TempRun.step (s : TempRun) : TempAct → Option TempRun
  | .allowFileCurrent file current env => some (s.allowFile file (some current) false .load env)
  | .allowFileCred file cred env => some (s.allowFile file cred true .receive env)
  | .allowExecmemCurrent target current env => s.allowExecmem target (some current) env
  | .allowExecmemCred target cred env => s.allowExecmem target cred env
  | .restore i env =>
    match (s.cells[i]?).join with
    | none => none
    | some h =>
      match yzHostPolicyRestore s.temp h.state env with
      | (t, .ok ()) => some { temp := t, cells := s.cells.set i none }
      | (t, .error _) => some { s with temp := t }
  | .prepareRuntime current env =>
    some { s with temp := { s.temp with
      base := (yzHostPolicyPrepareRuntimeCurrent s.temp.base current env).1 } }

/-- The subsystem on any policy, with an empty table and no record handed out. -/
def tempRuns : Lts TempRun TempAct where
  init s := s.temp.rules = .empty ∧ s.cells = []
  step := TempRun.step

/-- The parts an execmem request plans: none on a record that has the permission already. -/
def TempRun.execmemPlanned (s : TempRun) (target : Option Nat) (cred : Option Cred) :
    List (PolicyKey × Av) :=
  match s.target target with
  | some h => if h.state.processAddedAv = 0 then execmemRequired s.temp cred else []
  | none => []

/-- The parts an action requests of the policy: what it requires that is not settled. -/
def TempRun.requests (s : TempRun) : TempAct → List (PolicyKey × Av)
  | .allowFileCurrent file current _ =>
    requestOf s.temp (fileRequired s.temp file (some current) false .load)
  | .allowFileCred file cred _ => requestOf s.temp (fileRequired s.temp file cred true .receive)
  | .allowExecmemCurrent target current _ =>
    requestOf s.temp (s.execmemPlanned target (some current))
  | .allowExecmemCred target cred _ => requestOf s.temp (s.execmemPlanned target cred)
  | .restore _ _ | .prepareRuntime _ _ => []

/-- The parts that the record an action is made on owns already. -/
def TempRun.held (s : TempRun) : TempAct → List (PolicyKey × Av)
  | .allowExecmemCurrent target _ _ | .allowExecmemCred target _ _ =>
    match s.target target with
    | some h => h.state.parts
    | none => []
  | _ => []

/-! ## 3. What one step can do -/

/-- The machine seen from bit `b` of `k`. -/
def TempRun.grant (s : TempRun) (k : PolicyKey) (b : Fin 32) : Grant where
  allowed := (s.temp.base.direct k).getLsbD b
  refs := s.temp.rules.refs k b
  claims := tally (cellClaims k b) s.cells
  needs := tally (cellNeeds k b) s.cells

/-- What a call that leaves the policy and the table alone does to a record: nothing, or it
notes that an execmem permission the record owns was asked for again. -/
inductive Kept (t : TempPolicy) (h h' : Holder) : Prop
  | failed : (∀ k b, h'.state.claims k b = h.state.claims k b) →
      (PartsFit h.state.parts → PartsFit h'.state.parts) →
      (h'.state.processAddedAv = h.state.processAddedAv) →
      h'.required = h.required → h'.relied = h.relied → Kept t h h'
  | again (c : Cred) (key : PolicyKey) (av : Av) : h'.state = h.state →
      h.state.processAddedAv ≠ 0 → h.state.processType = key.srcType →
      h.state.processClass = key.tclass →
      yzPolicyBaseGetExecmemKey t.base c = .ok (key, av) →
      h'.required = h.required ++ [(key, av)] → h'.relied = h.relied → Kept t h h'

/-- What one step of the machine can do. -/
inductive TempMove (s s' : TempRun) : TempAct → Prop
  /-- the policy and the table stay -/
  | kept (a : TempAct) : s'.temp = s.temp →
      (s'.cells = s.cells ∨ ∃ h h', Stored s.cells h h' s'.cells ∧ Kept s.temp h h') →
      TempMove s s' a
  /-- a record gains the requested parts -/
  | granted (a : TempAct) (h h' : Holder) (required : List (PolicyKey × Av)) :
      Stored s.cells h h' s'.cells → PartsFit required →
      s.requests a = requestOf s.temp required →
      (s.held a = h.state.parts ∨ h = .fresh) →
      Allowed s.temp s'.temp (requestOf s.temp required) →
      (∀ k b, h'.state.claims k b =
        h.state.claims k b + asks (requestOf s.temp required) k b) →
      (PartsFit h.state.parts → PartsFit h'.state.parts) →
      (h'.state.processAddedAv = 0 ∨ ∃ c key av,
        yzPolicyBaseGetExecmemKey s.temp.base c = .ok (key, av) ∧
        h'.state.processAddedAv = requestAv s.temp key av) →
      h'.required = h.required ++ required →
      h'.relied = h.relied ++ reliedOf s.temp required → TempMove s s' a
  /-- a record is restored -/
  | restored (i : Nat) (env : EditEnv) (h : Holder) : s.cells[i]? = some (some h) →
      s'.cells = s.cells.set i none → SameBase s.temp.base s'.temp.base →
      s'.temp.rules = releaseAll s.temp.rules h.state.parts →
      (∀ k : PolicyKey, k.Fits → ∀ b : Fin 32, (s'.temp.base.direct k).getLsbD b =
        ((s.temp.base.direct k).getLsbD b &&
          !decide (0 < h.state.claims k b ∧ s.temp.rules.refs k b ≤ 1))) →
      TempMove s s' (.restore i env)
  /-- the permanent grants are made -/
  | permitted (current : Cred) (env : RuntimeEnv) : s'.cells = s.cells →
      s'.temp.rules = s.temp.rules → SameBase s.temp.base s'.temp.base →
      (∀ k b, (s.temp.base.direct k).getLsbD b = true →
        (s'.temp.base.direct k).getLsbD b = true) →
      TempMove s s' (.prepareRuntime current env)

/-- Every live record has parts the avtab can hold. -/
def CellsFit (s : TempRun) : Prop := ∀ h, some h ∈ s.cells → PartsFit h.state.parts

variable {s s' : TempRun} {a : TempAct}

/-- A file load grants to a fresh record, or leaves everything as it was. -/
theorem allowFile_move {file : Option File} {cred : Option Cred} {includeDir : Bool}
    {access : TmpfsAccess} {env : EditEnv}
    (hs : s.allowFile file cred includeDir access env = s')
    (hreq : s.requests a = requestOf s.temp (fileRequired s.temp file cred includeDir access)) :
    TempMove s s' a := by
  unfold TempRun.allowFile at hs
  simp only at hs
  split at hs
  · rename_i t st hop
    rcases allowFile_spec hop with ⟨hne, -⟩ | ⟨-, f, c, keys, rfl, rfl, hkeys, hall, hfit, hcl, hp⟩
    · exact absurd rfl hne
    · have hrq : fileRequired s.temp (some f) (some c) includeDir access = requiredParts keys := by
        simp only [fileRequired, hkeys]
      rw [hrq] at hs hreq
      subst hs
      refine .granted a .fresh _ (requiredParts keys) (.append rfl)
        (requiredParts_fit (getFileLoadKeys_shape hkeys)) hreq (.inr rfl) hall (fun k b => ?_)
        (fun _ => hfit) (.inl hp) rfl rfl
      rw [hcl k b]
      simp [Holder.fresh, requestOf, requiredParts, requestParts]
  · rename_i t st e hop
    rcases allowFile_spec hop with ⟨-, rfl, -⟩ | ⟨hok, -⟩
    · subst hs
      exact .kept a rfl (.inl rfl)
    · cases hok

/-- Storing a record under its name. -/
theorem target_stored {target : Option Nat} {t : TempPolicy} (ht : s.target target = some h)
    (h' : Holder) : Stored s.cells h h' (s.store t h' true target).cells := by
  cases target with
  | none =>
    obtain rfl := Option.some.inj ht
    exact .append rfl
  | some i => exact .replace i (Option.join_eq_some_iff.mp ht)

/-- An execmem request grants, is noted, or fails. -/
theorem allowExecmem_move {target : Option Nat} {cred : Option Cred} {env : EditEnv}
    (hs : s.allowExecmem target cred env = some s')
    (hreq : s.requests a = requestOf s.temp (s.execmemPlanned target cred))
    (hheld : ∀ h, s.target target = some h → s.held a = h.state.parts) : TempMove s s' a := by
  unfold TempRun.allowExecmem at hs
  cases ht : s.target target with
  | none => rw [ht] at hs; cases hs
  | some h =>
    simp only [ht] at hs
    split at hs
    · rename_i t st hop
      obtain rfl := Option.some.inj hs
      rcases allowExecmem_spec hop with ⟨hne, -⟩ | ⟨-, c, key, av, rfl, hkey, hrest⟩
      · exact absurd rfl hne
      · have hrq : execmemRequired s.temp (some c) = [(key, av)] := by
          simp only [execmemRequired, hkey]
        obtain ⟨hfit, htgt, -⟩ := getExecmemKey_shape hkey
        rcases hrest with ⟨hown, rfl, rfl, hty, hcl⟩ | ⟨hz, hall, rfl⟩
        · refine .kept a (by cases target <;> rfl) (.inr ⟨h, _, target_stored ht _, ?_⟩)
          exact .again c key av rfl hown hty hcl hkey (by rw [hrq])
            (by simp only [if_neg hown, List.append_nil])
        · have hpl : s.execmemPlanned target (some c) = [(key, av)] := by
            simp only [TempRun.execmemPlanned, ht, hz, if_true, hrq]
          rw [hpl] at hreq
          have htemp : ∀ x, (s.store t x true target).temp = t := by
            intro x; cases target <;> rfl
          refine .granted a h _ [(key, av)] (target_stored ht _)
            (fun p hp _ => by obtain rfl := List.mem_singleton.mp hp; exact hfit) hreq
            (.inl (hheld h ht)) (by rw [htemp]; exact hall)
            (claims_withProcess hz htgt _) (fun hpf => partsFit_withProcess hpf htgt fun _ => hfit)
            (.inr ⟨c, key, av, hkey, rfl⟩) (by rw [hrq]) ?_
          simp only [hz, if_true, hrq]
    · rename_i t st e hop
      obtain rfl := Option.some.inj hs
      rcases allowExecmem_spec hop with ⟨-, rfl, hst⟩ | ⟨hok, -⟩
      · refine .kept a (by cases target <;> rfl) ?_
        cases target with
        | none => exact .inl rfl
        | some i =>
          refine .inr ⟨h, _, target_stored (t := s.temp) ht _, ?_⟩
          rcases hst with rfl | ⟨hz, ty, cl, rfl⟩
          · exact .failed (fun _ _ => rfl) id rfl rfl rfl
          · refine .failed (fun k b => ?_) (fun hpf p hp hne => ?_) hz.symm rfl rfl
            · simp [FileLoadPolicy.claims, FileLoadPolicy.parts, FileLoadPolicy.withProcess, hz,
                asks_cons]
            · simp only [FileLoadPolicy.parts, FileLoadPolicy.withProcess, List.mem_cons,
                List.not_mem_nil, or_false] at hp
              rcases hp with rfl | rfl | rfl | rfl
              · exact hpf _ (by simp [FileLoadPolicy.parts]) hne
              · exact hpf _ (by simp [FileLoadPolicy.parts]) hne
              · exact hpf _ (by simp [FileLoadPolicy.parts]) hne
              · exact absurd rfl hne
      · cases hok

/-- **The inversion lemma**: what one step of the machine can do. -/
theorem step_move (hfit : CellsFit s) (hs : tempRuns.step s a = some s') : TempMove s s' a := by
  change s.step a = some s' at hs
  cases a with
  | allowFileCurrent file current env => exact allowFile_move (Option.some.inj hs) rfl
  | allowFileCred file cred env => exact allowFile_move (Option.some.inj hs) rfl
  | allowExecmemCurrent target current env =>
    exact allowExecmem_move hs rfl fun h ht => by simp only [TempRun.held, ht]
  | allowExecmemCred target cred env =>
    exact allowExecmem_move hs rfl fun h ht => by simp only [TempRun.held, ht]
  | restore i env =>
    simp only [TempRun.step] at hs
    cases hc : (s.cells[i]?).join with
    | none => rw [hc] at hs; cases hs
    | some h =>
      have hi := Option.join_eq_some_iff.mp hc
      simp only [hc] at hs
      split at hs
      · rename_i t hop
        obtain rfl := Option.some.inj hs
        rcases restore_spec (hfit h (List.mem_of_getElem? hi)) hop with ⟨hne, -⟩ | ⟨-, hb, hr, hd⟩
        · exact absurd rfl hne
        · exact .restored i env h hi rfl hb hr hd
      · rename_i t e hop
        obtain rfl := Option.some.inj hs
        rcases restore_spec (hfit h (List.mem_of_getElem? hi)) hop with ⟨-, rfl⟩ | ⟨hok, -⟩
        · exact .kept _ rfl (.inl rfl)
        · cases hok
  | prepareRuntime current env =>
    simp only [TempRun.step, Option.some.injEq] at hs
    subst hs
    rcases prepareRuntime_spec (Prod.mk.eta.symm :
      yzHostPolicyPrepareRuntimeCurrent s.temp.base current env = (_, _)) with
      ⟨-, hb⟩ | ⟨-, hb, hmono, -⟩
    · exact .kept _ (by rw [hb]) (.inl rfl)
    · exact .permitted current env rfl rfl hb hmono

/-- The keys of all records fit the table. -/
theorem cellsFit_invariant (P : TempRun → TempAct → Prop) : tempRuns.Invariant P CellsFit where
  init s hs := by
    intro h hmem
    rw [hs.2] at hmem
    cases hmem
  step s a s' hI _ hs := by
    have hold : ∀ h, h = .fresh ∨ some h ∈ s.cells → PartsFit h.state.parts := by
      rintro h (rfl | hmem)
      · exact partsFit_zero
      · exact hI h hmem
    intro x hx
    cases step_move hI hs with
    | kept _ _ hc =>
      rcases hc with hc | ⟨h, h', hst, hk⟩
      · exact hI x (hc ▸ hx)
      · rcases hst.mem hx with heq | hx
        · obtain rfl := Option.some.inj heq
          cases hk with
          | failed _ hpf => exact hpf (hold h hst.old)
          | again _ _ _ he => exact he ▸ hold h hst.old
        · exact hI x hx
    | granted _ h h' _ hst _ _ _ _ _ hpf =>
      rcases hst.mem hx with heq | hx
      · obtain rfl := Option.some.inj heq
        exact hpf (hold h hst.old)
      · exact hI x hx
    | restored i _ _ _ hc =>
      rw [hc] at hx
      rcases List.mem_or_eq_of_mem_set hx with hx | hx
      · exact hI x hx
      · cases hx
    | permitted _ _ hc => exact hI x (hc ▸ hx)

/-! ## 4. Every permission is a counted grant -/

theorem requestOf_fit {t : TempPolicy} {required : List (PolicyKey × Av)}
    (h : PartsFit required) : PartsFit (requestOf t required) := by
  intro p hp hne
  obtain ⟨q, hq, rfl⟩ := List.mem_map.mp hp
  exact h q hq (requestAv_ne_zero hne)

/-- Nothing is counted for a key the avtab cannot hold. -/
theorem refs_of_not_fits (P : TempRun → TempAct → Prop) {k : PolicyKey} (hk : ¬ k.Fits)
    (b : Fin 32) :
    tempRuns.Invariant P fun s => CellsFit s ∧ s.temp.rules.refs k b = 0 where
  init s hi := by
    refine ⟨(cellsFit_invariant P).init s hi, ?_⟩
    rw [hi.1]
    exact refs_of_none (fun i hu => by cases hu) b
  step s a s' hI hP hs := by
    refine ⟨(cellsFit_invariant P).step s a s' hI.1 hP hs, ?_⟩
    have hrefs := hI.2
    cases step_move hI.1 hs with
    | kept _ ht => rwa [ht]
    | granted _ h h' required _ hfit _ _ hall =>
      have hask := asks_of_not_fits (requestOf_fit (t := s.temp) hfit) hk b
      have hadd := refs_addAll s.temp.rules (requestOf s.temp required) k b
      rw [hask, hrefs] at hadd
      rw [hall.rules]
      rcases hadd with h0 | ⟨h0, -⟩ <;> exact h0
    | restored i env h _ _ _ hr =>
      rw [hr, refs_releaseAll, hrefs, Nat.zero_sub]
    | permitted _ _ _ hr => rwa [hr]

/-- The relied bits are the required bits that are settled. -/
theorem asks_relied (t : TempPolicy) (parts : List (PolicyKey × Av)) (k : PolicyKey)
    (b : Fin 32) : asks (reliedOf t parts) k b = if t.Settled k b then asks parts k b else 0 := by
  induction parts with
  | nil => simp [reliedOf, asks]
  | cons p parts ih =>
    have hbit : (p.2 &&& ~~~(requestAv t p.1 p.2)).getLsbD b =
        (p.2.getLsbD b && decide (t.Settled p.1 b)) := by
      rw [BitVec.getLsbD_and, BitVec.getLsbD_not, getLsbD_requestAv]
      cases p.2.getLsbD b <;> simp
    change asks ((p.1, p.2 &&& ~~~(requestAv t p.1 p.2)) :: reliedOf t parts) k b = _
    rw [asks_cons, ih, asks_cons, hbit]
    by_cases hk : p.1 = k
    · subst hk
      by_cases hs : t.Settled p.1 b <;> simp [hs]
    · simp [hk]

/-- **A successful allow is one request of the permission.** -/
theorem allowed_ask {t t' : TempPolicy} {parts : List (PolicyKey × Av)}
    (hall : Allowed t t' (requestOf t parts)) {k : PolicyKey} (hk : k.Fits) (b : Fin 32)
    (c u : Nat) :
    grants.step ⟨(t.base.direct k).getLsbD b, t.rules.refs k b, c, u⟩
        (.ask (asks parts k b) (t'.rules.refs k b)) =
      some ⟨(t'.base.direct k).getLsbD b, t'.rules.refs k b,
        c + asks (requestOf t parts) k b, u + asks (reliedOf t parts) k b⟩ := by
  have hreq : asks (requestOf t parts) k b = if t.Settled k b then 0 else asks parts k b :=
    asks_request t parts k b
  have hrefs := refs_addAll t.rules (requestOf t parts) k b
  have hlt := refs_lt t.rules k b
  rw [← hall.rules] at hrefs
  rw [hall.direct k hk b, asks_relied, grants_step]
  by_cases hset : t.Settled k b
  · have hg : Grant.settled ⟨(t.base.direct k).getLsbD b, t.rules.refs k b, c, u⟩ := hset
    rw [if_pos hset] at hreq
    rw [hreq] at hrefs
    have hr : t'.rules.refs k b = t.rules.refs k b := by omega
    simp only [Grant.step, if_pos hg, hr, hreq, if_pos hset, Nat.add_zero, lt_irrefl, false_and,
      decide_false, Bool.or_false]
  · have hg : ¬ Grant.settled ⟨(t.base.direct k).getLsbD b, t.rules.refs k b, c, u⟩ := hset
    rw [if_neg hset] at hreq
    rw [hreq] at hrefs
    have hle : ¬ t.rules.refs k b + asks parts k b < t'.rules.refs k b := by
      rcases hrefs with hr | hr
      · have := Nat.mod_le (t.rules.refs k b + asks parts k b) 65536
        omega
      · omega
    simp only [Grant.step, if_neg hg, if_neg hle, hreq, if_neg hset, Nat.add_zero]

/-- The event of one permission that a step of the machine is. -/
inductive EventOf (s : TempRun) (a : TempAct) (k : PolicyKey) (b : Fin 32) : Event → Prop
  | ask (t' : TempPolicy) (required : List (PolicyKey × Av)) :
      s.requests a = requestOf s.temp required →
      Allowed s.temp t' (requestOf s.temp required) →
      EventOf s a k b (.ask (asks required k b) (t'.rules.refs k b))
  | leave (h : Holder) : some h ∈ s.cells →
      EventOf s a k b (.leave (h.state.claims k b) (asks h.relied k b))
  | permit (current : Cred) (env : RuntimeEnv) : a = .prepareRuntime current env →
      EventOf s a k b .permit

/-- What a step leaves of a record claims what it claimed. -/
theorem kept_claims (hk : Kept s.temp h h') (k : PolicyKey) (b : Fin 32) :
    h'.state.claims k b = h.state.claims k b ∧ asks h'.relied k b = asks h.relied k b := by
  cases hk with
  | failed hc _ _ _ hr => exact ⟨hc k b, by rw [hr]⟩
  | again _ _ _ he _ _ _ _ _ hr => exact ⟨by rw [he], by rw [hr]⟩

/-- **Every step of the machine is a step of each of its permissions, or none.** -/
theorem grant_step (hfit : CellsFit s) (hs : tempRuns.step s a = some s') {k : PolicyKey}
    (hk : k.Fits) (b : Fin 32) : s'.grant k b = s.grant k b ∨
      ∃ e, EventOf s a k b e ∧ grants.step (s.grant k b) e = some (s'.grant k b) := by
  have hc0 : cellClaims k b (some .fresh) = 0 := claims_zero k b
  have hn0 : cellNeeds k b (some .fresh) = 0 := rfl
  cases step_move hfit hs with
  | kept _ ht hc =>
    left
    have hcl : tally (cellClaims k b) s'.cells = tally (cellClaims k b) s.cells ∧
        tally (cellNeeds k b) s'.cells = tally (cellNeeds k b) s.cells := by
      rcases hc with hc | ⟨h, h', hst, hkept⟩
      · rw [hc]; exact ⟨rfl, rfl⟩
      · obtain ⟨h1, h2⟩ := kept_claims hkept k b
        have e1 := hst.tally_eq hc0
        have e2 := hst.tally_eq hn0
        simp only [cellClaims, cellNeeds, h1, h2] at e1 e2
        exact ⟨by omega, by omega⟩
    simp only [TempRun.grant, ht, hcl.1, hcl.2]
  | granted _ h h' required hst _ hreq _ hall hcl _ _ _ hrel =>
    right
    refine ⟨_, .ask s'.temp required hreq hall, ?_⟩
    have e1 := hst.tally_eq hc0
    have e2 := hst.tally_eq hn0
    simp only [cellClaims, cellNeeds, hcl, hrel, asks_append] at e1 e2
    have := allowed_ask hall hk b (tally (cellClaims k b) s.cells) (tally (cellNeeds k b) s.cells)
    simp only [TempRun.grant]
    rw [this]
    congr 2 <;> omega
  | restored i env h hi hc _ hr hd =>
    right
    refine ⟨_, .leave h (List.mem_of_getElem? hi), ?_⟩
    have e1 := tally_set (cellClaims k b) hi none
    have e2 := tally_set (cellNeeds k b) hi none
    rw [← hc] at e1 e2
    simp only [cellClaims, cellNeeds, Nat.add_zero] at e1 e2
    have hrf := refs_releaseAll s.temp.rules h.state.parts k b
    rw [← hr] at hrf
    have hle : ¬ (tally (cellClaims k b) s.cells < h.state.claims k b ∨
        tally (cellNeeds k b) s.cells < asks h.relied k b) := by omega
    have hiff : (h.state.claims k b = 0 ∨ 1 < s.temp.rules.refs k b) ↔
        ¬ (0 < h.state.claims k b ∧ s.temp.rules.refs k b ≤ 1) := by omega
    simp only [grants_step, Grant.step, TempRun.grant, if_neg hle, hd k hk b, hrf, hiff,
      decide_not]
    congr 2
    · omega
    · omega
  | permitted current env hc hr _ hmono =>
    cases hb : (s'.temp.base.direct k).getLsbD b with
    | false =>
      left
      have hb0 : (s.temp.base.direct k).getLsbD b = false := by
        by_contra hne
        have := hmono k b (by simpa using hne)
        rw [hb] at this
        cases this
      simp only [TempRun.grant, hc, hr, hb, hb0]
    | true =>
      right
      refine ⟨.permit, .permit current env rfl, ?_⟩
      simp only [TempRun.grant, hc, hr, hb]
      rfl

/-- **Runs of the machine are runs of each permission**, with a guard on steps passed on as a
guard on events. -/
theorem grant_path {P : TempRun → TempAct → Prop} {Q : Grant → Event → Prop} {k : PolicyKey}
    (hk : k.Fits) (b : Fin 32)
    (hPQ : ∀ s a e, tempRuns.Reach P s → P s a → EventOf s a k b e → Q (s.grant k b) e)
    (hr : tempRuns.Reach P s) (hp : tempRuns.Path P s s') :
    grants.Path Q (s.grant k b) (s'.grant k b) := by
  refine Lts.Path.simulate (f := fun s => s.grant k b) hr hp ?_
  intro t a t' hrt hP ht
  rcases grant_step (hrt.invariant (cellsFit_invariant P)) ht hk b with heq | ⟨e, he, hst⟩
  · rw [heq]; exact .refl
  · exact .single ⟨e, hPQ t a e hrt hP he, hst⟩

theorem grant_init (hi : tempRuns.init s) (k : PolicyKey) (b : Fin 32) :
    grants.init (s.grant k b) := by
  obtain ⟨hr, hc⟩ := hi
  refine ⟨?_, by simp [TempRun.grant, hc], by simp [TempRun.grant, hc]⟩
  simp only [TempRun.grant, hr]
  exact refs_of_none (fun i hu => by cases hu) b

/-- Reachable machines have reachable permissions. -/
theorem grant_reach {P : TempRun → TempAct → Prop} {Q : Grant → Event → Prop} {k : PolicyKey}
    (hk : k.Fits) (b : Fin 32)
    (hPQ : ∀ s a e, tempRuns.Reach P s → P s a → EventOf s a k b e → Q (s.grant k b) e)
    (hr : tempRuns.Reach P s) : grants.Reach Q (s.grant k b) := by
  obtain ⟨s₀, hi, hp⟩ := hr
  exact ⟨_, grant_init hi k b, grant_path hk b hPQ (.ofInit hi) hp⟩

end YukiZygisk.Policy

namespace YukiZygisk.Policy

/-! ## 5. A policy to run on

A policy of `n` types whose table is one empty chain: zygote is 1, system_server 2, tmpfs 3 and
app 4.  A SID is the type it labels. -/

/-- A symbol table over the given symbols. -/
def symtab {α : Type} (symbols : List (String × α)) : Symtab α :=
  ⟨symbols.length, fun name => symbols.lookup name⟩

def demoTypes : List (String × TypeDatum) :=
  [("zygote", ⟨1, false⟩), ("system_server", ⟨2, false⟩), ("tmpfs", ⟨3, false⟩),
   ("app", ⟨4, false⟩)]

def demoClasses : List (String × ClassDatum) :=
  [("file", ⟨1, symtab [("read", 1), ("write", 2), ("open", 3), ("getattr", 4), ("map", 5),
    ("execute", 6)], none⟩),
   ("dir", ⟨2, symtab [("read", 1), ("open", 2), ("getattr", 3), ("search", 4)], none⟩),
   ("process", ⟨3, symtab [("sigchld", 1), ("execmem", 2)], none⟩),
   ("unix_stream_socket", ⟨4, symtab [("read", 1), ("write", 2), ("connectto", 3),
    ("getopt", 4), ("getattr", 5)], none⟩),
   ("fd", ⟨5, symtab [("use", 1)], none⟩),
   ("fifo_file", ⟨6, symtab [("read", 1), ("write", 2), ("open", 3), ("getattr", 4)], none⟩)]

theorem demoTypes_fit (name : String) (d : TypeDatum) (h : demoTypes.lookup name = some d) :
    d.value < 65536 := by
  simp only [demoTypes, List.lookup] at h
  (repeat' split at h) <;> first | (obtain rfl := Option.some.inj h; decide) | cases h

theorem emptyTable_wf : (Avtab.mk [[]] 0).Wf :=
  ⟨trivial, List.nodup_nil, fun _ _ _ h => absurd h List.not_mem_nil⟩

/-- The policy with `n` types; those past the fourth have no rules of their own to name. -/
def demoDb (n : Nat) (hn : n < 65536) : Policydb :=
  { pTypes := ⟨n, fun name => demoTypes.lookup name⟩
    pClasses := symtab demoClasses
    typeNames := some fun i => some (((demoTypes[i]?).map (·.1)).getD ("vendor_" ++ toString i))
    classNames := some fun i => (demoClasses[i]?).map (·.1)
    teAvtab := ⟨[[]], 0⟩
    len := 4096
    teAvtab_wf := emptyTable_wf
    nprim_fits := hn
    type_fits := demoTypes_fit }

def demoPolicy (n : Nat) (hn : n < 65536) : SelinuxPolicy :=
  { policydb := demoDb n hn
    sidtab := fun sid => if sid ≤ n then some ⟨sid⟩ else none
    context_fits := by
      intro sid c h
      split_ifs at h
      obtain rfl := Option.some.inj h
      simp only
      omega }

/-- The subsystem at load time on that policy. -/
def demoRun (n : Nat) (hn : n < 65536) : TempRun :=
  { temp := { base := ⟨true, true, some (demoPolicy n hn)⟩, rules := .empty }, cells := [] }

theorem demoRun_init (n : Nat) (hn : n < 65536) : tempRuns.init (demoRun n hn) := ⟨rfl, rfl⟩

/-- Nothing fails. -/
def editOk : EditEnv := ⟨.ok (), fun _ => true⟩
def runtimeOk : RuntimeEnv := ⟨.ok (), fun _ => true⟩

def fileOf (type : Nat) : Option File := some ⟨some type⟩
def credOf (type : Nat) : Cred := ⟨some type⟩

end YukiZygisk.Policy
