/-
# File descriptors of a forked child (`zygisk/core/src/hook.cpp`)

After the real fork the child notes which descriptors are open.  Modules then run in it and may
open, close and duplicate descriptors as they like, and may ask that some be spared.  Before the
native specialisation checks the descriptors itself, the child closes everything it does not know:
what was not open at the fork, was not in the zygote's own list of exceptions, and was not spared.
A child that runs no modules closes the descriptors into the module directories instead.  Both read
the directory of the descriptors, which takes a descriptor itself: a process that has used up its
descriptors cannot read it, and then nothing is closed.

* `sanitize_exact` says which descriptors survive, for whatever the modules did and whether the
  directory can be read or not;
* `sanitize_known`, that the native code has heard of each of them where it can be read;
* `inherited_exact`, which descriptors a child without modules keeps where it can.

A table is followed number by number.  The loop over the directory does to a number what its own
entry says, once or more often with the same effect (`target_ctxSanitizeFds`), and the number of the
directory itself is free again in the end.  What is known is what `allows` says of the snapshot, of
the exceptions and of what was spared.
-/
import Mathlib

namespace YukiZygisk.ChildFds

/-! ## 1. The descriptor table -/

/-- The descriptors of a process by number, each with the text of its link in `/proc/self/fd`. -/
abbrev Table := List (Option (List UInt8))

def Table.target (t : Table) (fd : Nat) : Option (List UInt8) := (t[fd]?).join

/-- The number that the next descriptor gets. -/
def Table.lowestFree (t : Table) : Nat := t.findIdx (·.isNone)

def Table.closeFd (t : Table) (fd : Nat) : Table := t.set fd none

/-- `opendir("/proc/self/fd")`. -/
def Table.openDir (t : Table) : Table :=
  if t.lowestFree < t.length then t.set t.lowestFree (some []) else t ++ [some []]

/-- What `atoi` reads off the names that `readdir` gives: 0 for `.` and `..`, then the numbers. -/
def Table.names (t : Table) : List Int :=
  0 :: 0 :: ((List.range t.length).filter fun fd => (t.target fd).isSome).map Int.ofNat

/-! ## 2. Before and after the modules -/

/-- `ZygiskContext`, of the child.  The zygote's list of exceptions is there in the fork of an app
only, and may be null. -/
structure Context where
  fdsToIgnore : Option (Option (List Int))
  allowedFds : List Bool
  exemptedFds : List Int

/-- `mark_allowed`. -/
def markAllowed (allowed : List Bool) (fd : Int) : List Bool :=
  if 0 ≤ fd ∧ fd.toNat < allowed.length then allowed.set fd.toNat true else allowed

/-- The snapshot of `ctx_fork_pre`; `dir` says whether the directory opens. -/
def ctxForkPre (dir : Bool) (size : Nat) (t : Table) : List Bool :=
  if dir then
    (t.openDir.names.foldl markAllowed (List.replicate size false)).set t.lowestFree false
  else List.replicate size false

/-- The first half of `ctx_sanitize_fds`: the exceptions are marked, and the list for the native
code grows by the descriptors that modules spare; `newArray` says whether it can be allocated. -/
def applyExceptions (newArray : Bool) (c : Context) : Context :=
  match c.fdsToIgnore with
  | none => c
  | some old =>
    let allowed := (old.getD []).foldl markAllowed c.allowedFds
    if c.exemptedFds ≠ [] ∧ newArray then
      { c with
        fdsToIgnore := some (some (old.getD [] ++ c.exemptedFds))
        allowedFds := c.exemptedFds.foldl markAllowed allowed }
    else { c with allowedFds := allowed }

/-- One entry of the directory in the second half. -/
def sanitizeFd (allowed : List Bool) (dfd : Nat) (t : Table) (fd : Int) : Table :=
  if fd < 0 ∨ fd.toNat = dfd then t
  else if allowed.length ≤ fd.toNat ∨ allowed[fd.toNat]? = some false then t.closeFd fd.toNat
  else t

/-- `ctx_sanitize_fds`. -/
def ctxSanitizeFds (newArray dir : Bool) (c : Context) (t : Table) : Context × Table :=
  let c := applyExceptions newArray c
  if dir then
    (c, (t.openDir.names.foldl (sanitizeFd c.allowedFds t.lowestFree) t.openDir).closeFd
      t.lowestFree)
  else (c, t)

/-- `/data/adb/modules` -/
def modulesPath : List UInt8 :=
  [47, 100, 97, 116, 97, 47, 97, 100, 98, 47, 109, 111, 100, 117, 108, 101, 115]

/-- One entry of the directory in `close_inherited_module_fds`: the link is read into 255 bytes; the
links of `.` and `..` cannot be read. -/
def closeInherited (dfd : Nat) (t : Table) (fd : Nat) : Table :=
  if fd = dfd then t
  else match t.target fd with
    | some link => if link ≠ [] ∧ modulesPath <:+: link.take 255 then t.closeFd fd else t
    | none => t

/-- `close_inherited_module_fds`. -/
def closeInheritedModuleFds (dir : Bool) (t : Table) : Table :=
  if dir then
    ((List.range t.openDir.length).foldl (closeInherited t.lowestFree) t.openDir).closeFd
      t.lowestFree
  else t

variable {t : Table} {fd : Nat} {c : Context}

/-! ## 3. The table -/

theorem target_lowestFree (t : Table) : t.target t.lowestFree = none := by
  unfold Table.target Table.lowestFree
  by_cases h : t.findIdx (·.isNone) < t.length
  · have hfree := List.findIdx_getElem (w := h)
    rw [List.getElem?_eq_getElem h]
    simpa using hfree
  · rw [List.getElem?_eq_none (by omega)]
    rfl

theorem target_of_lt (h : fd < t.lowestFree) : (t.target fd).isSome := by
  have hlen : fd < t.length := lt_of_lt_of_le h List.findIdx_le_length
  have hopen := List.not_of_lt_findIdx h
  rw [Table.target, List.getElem?_eq_getElem hlen]
  cases hfd : t[fd] with
  | none => simp [hfd] at hopen
  | some link => rfl

theorem target_closeFd (t : Table) (i fd : Nat) :
    (t.closeFd i).target fd = if fd = i then none else t.target fd := by
  simp only [Table.closeFd, Table.target, List.getElem?_set]
  by_cases h : i = fd
  · subst h
    by_cases hi : i < t.length <;> simp [hi]
  · simp [h, Ne.symm h]

theorem target_openDir (t : Table) (fd : Nat) :
    t.openDir.target fd = if fd = t.lowestFree then some [] else t.target fd := by
  unfold Table.openDir
  split_ifs with hlt hfd hfd
  · subst hfd
    simp [Table.target, hlt]
  · simp [Table.target, Ne.symm hfd]
  · have hlen : t.lowestFree = t.length := le_antisymm List.findIdx_le_length (by omega)
    simp [Table.target, hfd, hlen]
  · have hlen : t.lowestFree = t.length := le_antisymm List.findIdx_le_length (by omega)
    rw [hlen] at hfd
    simp only [Table.target, List.getElem?_append, List.getElem?_singleton]
    split_ifs with h₁ h₂
    · rfl
    · omega
    · rw [List.getElem?_eq_none (by omega)]

theorem lt_length_of_target (h : (t.target fd).isSome = true) : fd < t.length := by
  by_contra hge
  simp [Table.target, List.getElem?_eq_none (Nat.not_lt.mp hge)] at h

theorem mem_names : (fd : Int) ∈ t.names ↔ fd = 0 ∨ (t.target fd).isSome = true := by
  simp only [Table.names, List.mem_cons, List.mem_map, List.mem_filter, List.mem_range]
  constructor
  · rintro (h | h | ⟨n, ⟨-, hn⟩, heq⟩)
    · exact .inl (by omega)
    · exact .inl (by omega)
    · obtain rfl : n = fd := by simpa using heq
      exact .inr hn
  · rintro (rfl | h)
    · exact .inl rfl
    · exact .inr (.inr ⟨fd, ⟨lt_length_of_target h, h⟩, rfl⟩)

/-! ## 4. Marking -/

/-- Whether a descriptor is allowed. -/
def allows (allowed : List Bool) (fd : Nat) : Prop := allowed[fd]? = some true

instance (allowed : List Bool) (fd : Nat) : Decidable (allows allowed fd) :=
  inferInstanceAs (Decidable (_ = _))

theorem length_mark (l : List Int) (allowed : List Bool) :
    (l.foldl markAllowed allowed).length = allowed.length := by
  induction l generalizing allowed with
  | nil => rfl
  | cons n l ih =>
    rw [List.foldl_cons, ih, markAllowed]
    split_ifs
    · exact List.length_set ..
    · rfl

theorem allows_mark (l : List Int) (allowed : List Bool) (fd : Nat) :
    allows (l.foldl markAllowed allowed) fd ↔
      allows allowed fd ∨ fd < allowed.length ∧ (fd : Int) ∈ l := by
  induction l generalizing allowed with
  | nil => simp
  | cons n l ih =>
    have hone : allows (markAllowed allowed n) fd ↔
        allows allowed fd ∨ fd < allowed.length ∧ (fd : Int) = n := by
      unfold markAllowed allows
      split_ifs with hn
      · rw [List.getElem?_set]
        by_cases hfd : n.toNat = fd
        · have heq : (fd : Int) = n := by omega
          have hlt : fd < allowed.length := by omega
          simp [hfd, heq, hlt]
        · have hne : (fd : Int) ≠ n := by omega
          simp [hfd, hne]
      · have hne : ¬ (fd < allowed.length ∧ (fd : Int) = n) := by omega
        simp [hne]
    have hlen : (markAllowed allowed n).length = allowed.length := length_mark [n] allowed
    rw [List.foldl_cons, ih, hone, hlen, List.mem_cons]
    tauto

/-- **The snapshot allows exactly the descriptors that were open**, and none where the directory
could not be read. -/
theorem allows_ctxForkPre (dir : Bool) (size : Nat) (t : Table) (fd : Nat) :
    allows (ctxForkPre dir size t) fd ↔
      fd < size ∧ dir = true ∧ (t.target fd).isSome = true := by
  have hnone : ¬ allows (List.replicate size false) fd := by
    unfold allows
    rw [List.getElem?_replicate]
    split_ifs <;> simp
  unfold ctxForkPre
  split_ifs with hdir
  · have hmark := allows_mark t.openDir.names (List.replicate size false) fd
    rw [List.length_replicate, mem_names, target_openDir] at hmark
    by_cases hfd : fd = t.lowestFree
    · have hclosed : ¬ allows ((t.openDir.names.foldl markAllowed
          (List.replicate size false)).set t.lowestFree false) fd := by
        unfold allows
        rw [hfd, List.getElem?_set_self']
        simp
      subst hfd
      simp [hclosed, target_lowestFree]
    · have hset : allows ((t.openDir.names.foldl markAllowed
          (List.replicate size false)).set t.lowestFree false) fd ↔
            allows (t.openDir.names.foldl markAllowed (List.replicate size false)) fd := by
        unfold allows
        rw [List.getElem?_set_ne (Ne.symm hfd)]
      -- 0 is read off `.` and `..`, but it is open: the directory would have got it otherwise
      have hzero : fd = 0 → (t.target fd).isSome = true := fun h =>
        target_of_lt (by omega)
      rw [hset, hmark, if_neg hfd]
      simp only [hnone, hdir, false_or, true_and]
      constructor
      · rintro ⟨hlt, h | h⟩
        · exact ⟨hlt, hzero h⟩
        · exact ⟨hlt, h⟩
      · exact fun ⟨hlt, h⟩ => ⟨hlt, .inr h⟩
  · simp [hnone, hdir]

/-! ## 5. Closing -/

/-- Closing along a list: a descriptor goes when it is listed and fails the test. -/
theorem target_foldl_close {keep : Nat → Prop} [DecidablePred keep] {g : Table → Int → Table}
    (hg : ∀ t n fd, (g t n).target fd =
      if n = (fd : Int) ∧ ¬ keep fd then none else t.target fd) (l : List Int) (t : Table)
    (fd : Nat) : ((l.foldl g t).target fd).isSome = true ↔
      (t.target fd).isSome = true ∧ ((fd : Int) ∈ l → keep fd) := by
  induction l generalizing t with
  | nil => simp
  | cons n l ih =>
    rw [List.foldl_cons, ih, hg, List.mem_cons]
    split_ifs with h
    · simp [h.1, h.2]
    · constructor
      · rintro ⟨ht, hl⟩
        refine ⟨ht, ?_⟩
        rintro (rfl | hmem)
        · by_contra hk
          exact h ⟨rfl, hk⟩
        · exact hl hmem
      · exact fun ⟨ht, hl⟩ => ⟨ht, fun hmem => hl (.inr hmem)⟩

/-- A list of descriptors that closing leaves alone keeps its links. -/
theorem target_foldl_keep {keep : Nat → Prop} [DecidablePred keep] {g : Table → Int → Table}
    (hg : ∀ t n fd, (g t n).target fd =
      if n = (fd : Int) ∧ ¬ keep fd then none else t.target fd) (l : List Int) (t : Table)
    {fd : Nat} (hk : keep fd) : (l.foldl g t).target fd = t.target fd := by
  induction l generalizing t with
  | nil => rfl
  | cons n l ih =>
    rw [List.foldl_cons, ih, hg, if_neg (by tauto)]

theorem target_sanitizeFd (allowed : List Bool) (dfd : Nat) (t : Table) (n : Int) (fd : Nat) :
    (sanitizeFd allowed dfd t n).target fd =
      if n = (fd : Int) ∧ ¬ (fd = dfd ∨ allows allowed fd) then none else t.target fd := by
  have hallows : ∀ k : Nat, (allowed.length ≤ k ∨ allowed[k]? = some false) ↔
      ¬ allows allowed k := by
    intro k
    unfold allows
    by_cases hk : k < allowed.length
    · rw [List.getElem?_eq_getElem hk]
      cases allowed[k] <;> simp [hk]
    · simp [Nat.not_lt.mp hk]
  unfold sanitizeFd
  by_cases hneg : n < 0
  · rw [if_pos (.inl hneg), if_neg (by omega)]
  · obtain ⟨k, rfl⟩ := Int.eq_ofNat_of_zero_le (not_lt.mp hneg)
    simp only [Int.toNat_natCast, hneg, false_or, hallows, Nat.cast_inj]
    by_cases hkeep : k = dfd ∨ allows allowed k
    · have hstay : (if k = dfd then t else if ¬ allows allowed k then t.closeFd k else t) = t := by
        split_ifs <;> tauto
      rw [hstay, if_neg]
      rintro ⟨rfl, hno⟩
      exact hno hkeep
    · rw [if_neg (by tauto), if_pos (by tauto), target_closeFd]
      by_cases hfd : fd = k
      · subst hfd
        rw [if_pos rfl, if_pos ⟨rfl, hkeep⟩]
      · rw [if_neg hfd, if_neg (by tauto)]

/-- The exceptions that the child honours: the zygote's own list, and what modules spared where the
longer list can be allocated. -/
def exceptions (newArray : Bool) (c : Context) : List Int :=
  match c.fdsToIgnore with
  | none => []
  | some old => old.getD [] ++ if newArray then c.exemptedFds else []

theorem allows_applyExceptions (newArray : Bool) (c : Context) (fd : Nat) :
    allows (applyExceptions newArray c).allowedFds fd ↔
      allows c.allowedFds fd ∨ fd < c.allowedFds.length ∧ (fd : Int) ∈ exceptions newArray c := by
  unfold applyExceptions exceptions
  cases c.fdsToIgnore with
  | none => simp
  | some old =>
    simp only
    split_ifs with hboth hnew
    · simp only [allows_mark, length_mark, List.mem_append]
      tauto
    · exact absurd hboth.2 hnew
    · have hnil : c.exemptedFds = [] := by
        by_contra hne
        exact hboth ⟨hne, by assumption⟩
      simp only [allows_mark, hnil, List.append_nil]
    · simp only [allows_mark, List.append_nil]

/-- The list that the native code gets: the exceptions, where there is a list at all. -/
theorem ignored_applyExceptions (newArray : Bool) (c : Context) :
    ((applyExceptions newArray c).fdsToIgnore.join).getD [] = exceptions newArray c := by
  unfold applyExceptions exceptions
  cases hold : c.fdsToIgnore with
  | none => simp [hold]
  | some old =>
    simp only
    split_ifs with hboth hnew hnew
    · rfl
    · exact absurd hboth.2 hnew
    · have hnil : c.exemptedFds = [] := by
        by_contra hne
        exact hboth ⟨hne, hnew⟩
      simp [hnil]
    · simp

theorem target_ctxSanitizeFds (newArray dir : Bool) (c : Context) (t : Table) (fd : Nat) :
    (ctxSanitizeFds newArray dir c t).2.target fd =
      if dir = true ∧ ¬ allows (applyExceptions newArray c).allowedFds fd then none
      else t.target fd := by
  unfold ctxSanitizeFds
  cases dir with
  | false => simp
  | true =>
    simp only [if_true, true_and]
    have hg := target_sanitizeFd (applyExceptions newArray c).allowedFds t.lowestFree
    rw [target_closeFd]
    by_cases hfd : fd = t.lowestFree
    · rw [if_pos hfd, hfd, target_lowestFree]
      split_ifs <;> rfl
    · rw [if_neg hfd]
      by_cases hal : allows (applyExceptions newArray c).allowedFds fd
      · rw [target_foldl_keep hg _ _ (.inr hal), target_openDir, if_neg hfd, if_neg (by tauto)]
      · rw [if_pos hal]
        have hclosed := target_foldl_close hg t.openDir.names t.openDir fd
        rw [mem_names, target_openDir, if_neg hfd] at hclosed
        by_contra hsome
        have hopen := hclosed.mp (Option.isSome_iff_ne_none.mpr hsome)
        exact (hopen.2 (.inr hopen.1)).elim hfd hal

/-- **What survives the sanitising.**  Whatever the modules of a child opened, closed, duplicated and
spared, a descriptor stays, with what it refers to, exactly when its number fits the table and was
open at the fork or is among the exceptions.  Where the directory could not be read at the fork
nothing counts as open then; where it cannot be read now, nothing is closed. -/
theorem sanitize_exact (newArray dir₀ dir : Bool) (size : Nat) (t₀ t : Table)
    (ignore : Option (Option (List Int))) (exempted : List Int) (fd : Nat) :
    let c : Context := ⟨ignore, ctxForkPre dir₀ size t₀, exempted⟩
    (ctxSanitizeFds newArray dir c t).2.target fd =
      if dir = false ∨ fd < size ∧
        ((dir₀ = true ∧ (t₀.target fd).isSome = true) ∨ (fd : Int) ∈ exceptions newArray c) then
        t.target fd
      else none := by
  intro c
  have hlen : c.allowedFds.length = size := by
    simp only [c, ctxForkPre]
    split_ifs
    · rw [List.length_set, length_mark, List.length_replicate]
    · exact List.length_replicate ..
  have hallows : allows (applyExceptions newArray c).allowedFds fd ↔ fd < size ∧
      ((dir₀ = true ∧ (t₀.target fd).isSome = true) ∨ (fd : Int) ∈ exceptions newArray c) := by
    rw [allows_applyExceptions, hlen]
    have hfork := allows_ctxForkPre dir₀ size t₀ fd
    tauto
  rw [target_ctxSanitizeFds]
  simp only [hallows]
  cases dir with
  | false => simp
  | true =>
    by_cases h : fd < size ∧ ((dir₀ = true ∧ (t₀.target fd).isSome = true) ∨
        (fd : Int) ∈ exceptions newArray c)
    · rw [if_neg (fun hno => hno.2 h), if_pos (.inr h)]
    · rw [if_pos ⟨rfl, h⟩, if_neg (by simpa using h)]

/-- **The native code knows what survives.**  After sanitising, where the directory of the
descriptors can be read, every open descriptor was open at the fork or stands in the list that the
native specialisation is given, for whatever the modules did in between; a system server, which has
no such list, keeps only what was open at the fork. -/
theorem sanitize_known (newArray dir₀ : Bool) (size : Nat) (t₀ t : Table)
    (ignore : Option (Option (List Int))) (exempted : List Int) {fd : Nat}
    (h : ((ctxSanitizeFds newArray true ⟨ignore, ctxForkPre dir₀ size t₀, exempted⟩ t).2.target
      fd).isSome = true) :
    (t₀.target fd).isSome = true ∨ (fd : Int) ∈ ((ctxSanitizeFds newArray true
      ⟨ignore, ctxForkPre dir₀ size t₀, exempted⟩ t).1.fdsToIgnore.join).getD [] := by
  have hignored := ignored_applyExceptions newArray
    ⟨ignore, ctxForkPre dir₀ size t₀, exempted⟩
  have hfst : (ctxSanitizeFds newArray true ⟨ignore, ctxForkPre dir₀ size t₀, exempted⟩ t).1 =
      applyExceptions newArray ⟨ignore, ctxForkPre dir₀ size t₀, exempted⟩ := rfl
  rw [hfst, hignored]
  rw [target_ctxSanitizeFds] at h
  simp only [allows_applyExceptions, allows_ctxForkPre] at h
  split_ifs at h with hno
  · cases h
  · simp only [true_and, not_not] at hno
    obtain hopen | hex := hno
    · exact .inl hopen.2.2
    · exact .inr hex.2

/-- Before the fork of an app: the standard descriptors and a socket. -/
def zygoteFds : Table := [some [1], some [1], some [1], some [7]]

/-- Modules opened 4 and 5, and spared 5. -/
def moduleFds : Table := zygoteFds ++ [some [8], some [9]]

theorem sanitize_known_spared : (zygoteFds.target 5).isSome = true ∨
    (5 : Int) ∈ ((ctxSanitizeFds true true ⟨some (some [9]), ctxForkPre true 16 zygoteFds, [5]⟩
      moduleFds).1.fdsToIgnore.join).getD [] :=
  sanitize_known true true 16 zygoteFds moduleFds (some (some [9])) [5] (by decide +kernel)

/-! ## 6. A child without modules -/

/-- Whether a link is of the module directories, as far as it is read. -/
def ofModules (link : List UInt8) : Bool := modulesPath <:+: link.take 255

theorem target_closeInherited (dfd : Nat) (t : Table) (n fd : Nat) :
    (closeInherited dfd t n).target fd =
      if n = fd ∧ n ≠ dfd then (t.target fd).filter fun link => !ofModules link
      else t.target fd := by
  unfold closeInherited
  by_cases hdfd : n = dfd
  · simp [hdfd]
  · simp only [hdfd, if_false, ne_eq, not_false_eq_true, and_true]
    cases hn : t.target n with
    | none =>
      by_cases hfd : n = fd
      · simp [← hfd, hn]
      · simp [hfd]
    | some link =>
      have hne : modulesPath <:+: link.take 255 → link ≠ [] := by
        rintro h rfl
        simp [modulesPath] at h
      by_cases hfd : n = fd
      · subst hfd
        by_cases hmod : modulesPath <:+: link.take 255
        · simp [hn, hmod, hne hmod, target_closeFd, ofModules, Option.filter]
        · simp [hn, hmod, ofModules, Option.filter]
      · simp only [hfd, if_false]
        split_ifs
        · rw [target_closeFd, if_neg (Ne.symm hfd)]
        · rfl

theorem target_foldl_closeInherited (l : List Nat) (t : Table) (dfd fd : Nat) :
    (l.foldl (closeInherited dfd) t).target fd =
      if fd ∈ l ∧ fd ≠ dfd then (t.target fd).filter fun link => !ofModules link
      else t.target fd := by
  induction l generalizing t with
  | nil => simp
  | cons n l ih =>
    rw [List.foldl_cons, ih, target_closeInherited]
    by_cases hn : n = fd
    · by_cases hdfd : n = dfd
      · simp [← hn, hdfd]
      · simp [← hn, hdfd, Option.filter_filter]
    · simp [hn, Ne.symm hn]

/-- **A child that runs no modules drops the module directories' descriptors and no other**, where
the directory of the descriptors can be read.  A descriptor goes exactly when the first 255 bytes of
its link name the directory of modules. -/
theorem inherited_exact (t : Table) (fd : Nat) : (closeInheritedModuleFds true t).target fd =
    (t.target fd).filter fun link => !ofModules link := by
  simp only [closeInheritedModuleFds, if_true]
  rw [target_closeFd, target_foldl_closeInherited, target_openDir]
  by_cases hfd : fd = t.lowestFree
  · simp [hfd, target_lowestFree]
  · simp only [if_neg hfd]
    by_cases hopen : (t.target fd).isSome = true
    · have hlen : fd < t.openDir.length :=
        lt_length_of_target (by rwa [target_openDir, if_neg hfd])
      simp [hlen, hfd]
    · have hnone : t.target fd = none := by simpa using hopen
      simp [hnone]

end YukiZygisk.ChildFds
