/-
# What is asked of the policy (`kernel/host/policy.c`, continued)

Two kinds of request read their keys and vectors off the live policy.

* A TEMPORARY request is about one file and one set of credentials
  (`yzPolicyBaseGetFileLoadKeys`) or about execmem of one domain
  (`yzPolicyBaseGetExecmemKey`).  Granting and taking it back is `PolicyTemp.lean`.
* The PERMANENT grants of `yz_host_policy_prepare_runtime_current` let every domain talk to
  the daemon's domain, and let system_server map executable memory.  Nothing takes them back.
  `AsksRuntime` is what the function asks for, and `prepareRuntime_spec` says that a
  successful call leaves all of it allowed and clears nothing.

The keys of a request are made of type values and class values of the policy, which fit the table's
fields because the symbol tables do (`getFileLoadKeys_shape`); so no two different keys meet in one
rule.  For the permanent grants the function goes over all types of the policy, and what it adds for
one of them it does not take away for another: `Adds` is the relation that only adds, which the loop
keeps (`foldlM_adds`), and at the type in question it adds what is asked for (`foldlM_adds_at`).
-/
import YukiZygisk.Host.Policy

namespace YukiZygisk.Policy

/-! ## 1. Files, credentials and the keys of a temporary request -/

/-- `struct file`: the SID of its inode's security blob, if there is one. -/
structure File where
  isec : Option Nat

/-- `struct cred`: the SID of its security blob, if there is one. -/
structure Cred where
  tsec : Option Nat

def yzFileLoadPerms : List String := ["read", "open", "getattr", "map", "execute"]
def yzDirLoadPerms : List String := ["read", "open", "getattr", "search"]
def yzTmpfsLoadPerms : List String := ["read", "write", "open", "getattr", "map", "execute"]
def yzTmpfsReceivePerms : List String := ["read", "open", "getattr", "map"]
def yzProcessExecmemPerms : List String := ["execmem"]

/-- `enum yz_policy_tmpfs_access`. -/
inductive TmpfsAccess
  | none | load | receive
  deriving DecidableEq

/-- The permissions each access asks of tmpfs files. -/
def TmpfsAccess.perms : TmpfsAccess → Option (List String)
  | .none => Option.none
  | .load => some yzTmpfsLoadPerms
  | .receive => some yzTmpfsReceivePerms

/-- `struct yz_policy_file_load_keys`. -/
structure FileLoadKeys where
  file : PolicyKey
  dir : PolicyKey
  tmpfs : PolicyKey
  fileRequiredAv : Av
  dirRequiredAv : Av
  tmpfsRequiredAv : Av

/-- `struct yz_policy_key key = {}`. -/
def PolicyKey.zero : PolicyKey := ⟨0, 0, 0⟩

theorem fits_zero : PolicyKey.zero.Fits := ⟨by decide, by decide, by decide⟩

variable [AvtabFns]

/-- `yz_policy_sidtab_search`. -/
def yzPolicySidtabSearch (policy : SelinuxPolicy) (sid : Nat) : Option Context :=
  if sid = 0 then none else policy.sidtab sid

theorem sidtabSearch_fits {policy : SelinuxPolicy} {sid : Nat} {c : Context}
    (h : yzPolicySidtabSearch policy sid = some c) : c.type < 65536 := by
  unfold yzPolicySidtabSearch at h
  split_ifs at h
  exact policy.context_fits sid c h

theorem typeValueByName_fits (db : Policydb) (name : String) :
    yzPolicyTypeValueByName db name < 65536 := by
  unfold yzPolicyTypeValueByName
  split
  · exact db.type_fits _ _ ‹_›
  · decide

/-- The directory part of the keys: empty unless it is asked for. -/
def dirKeys (db : Policydb) (includeDir : Bool) (srcType tgtType : Nat) :
    Except Errno (PolicyKey × Av) :=
  if includeDir = false then .ok (.zero, 0)
  else match classByName db "dir" with
    | none => .error .ENOENT
    | some cls => .ok (⟨srcType, tgtType, cls.value⟩, yzPolicyRequiredAv cls yzDirLoadPerms)

/-- The tmpfs part of the keys: empty when the policy has no type of that name. -/
def tmpfsKeys (db : Policydb) (access : TmpfsAccess) (srcType : Nat) :
    Except Errno (PolicyKey × Av) :=
  match access.perms with
  | none => .ok (.zero, 0)
  | some perms =>
    let tmpfsType := yzPolicyTypeValueByName db "tmpfs"
    if tmpfsType = 0 then .ok (.zero, 0)
    else match classByName db "file" with
      | none => .error .ENOENT
      | some cls => .ok (⟨srcType, tmpfsType, cls.value⟩, yzPolicyRequiredAv cls perms)

/-- `yz_policy_base_get_file_load_keys`. -/
def yzPolicyBaseGetFileLoadKeys (base : PolicyBase) (file : File) (cred : Cred)
    (includeDir : Bool) (access : TmpfsAccess) : Except Errno FileLoadKeys :=
  match file.isec with
  | none => .error .EINVAL
  | some tsid =>
    let ssid := cred.tsec.getD 0
    if ssid = 0 ∨ tsid = 0 then .error .EINVAL
    else match base.policy with
      | none => .error .ENOENT
      | some policy =>
        match yzPolicySidtabSearch policy ssid, yzPolicySidtabSearch policy tsid with
        | some scontext, some tcontext =>
          match classByName policy.policydb "file" with
          | none => .error .ENOENT
          | some cls =>
            match dirKeys policy.policydb includeDir scontext.type tcontext.type with
            | .error e => .error e
            | .ok (dir, dirAv) =>
              match tmpfsKeys policy.policydb access scontext.type with
              | .error e => .error e
              | .ok (tmpfs, tmpfsAv) =>
                .ok
                  { file := ⟨scontext.type, tcontext.type, cls.value⟩
                    dir := dir
                    tmpfs := tmpfs
                    fileRequiredAv := yzPolicyRequiredAv cls yzFileLoadPerms
                    dirRequiredAv := dirAv
                    tmpfsRequiredAv := tmpfsAv }
        | _, _ => .error .ENOENT

/-- `yz_policy_base_get_execmem_key`: the key and the required vector. -/
def yzPolicyBaseGetExecmemKey (base : PolicyBase) (cred : Cred) :
    Except Errno (PolicyKey × Av) :=
  let ssid := cred.tsec.getD 0
  if ssid = 0 then .error .EINVAL
  else match base.policy with
    | none => .error .ENOENT
    | some policy =>
      match yzPolicySidtabSearch policy ssid with
      | none => .error .ENOENT
      | some scontext =>
        match classByName policy.policydb "process" with
        | none => .error .ENOENT
        | some cls =>
          .ok (⟨scontext.type, scontext.type, cls.value⟩,
            yzPolicyRequiredAv cls yzProcessExecmemPerms)

theorem dirKeys_fits {db : Policydb} {includeDir : Bool} {s t : Nat} {p : PolicyKey × Av}
    (hs : s < 65536) (ht : t < 65536) (h : dirKeys db includeDir s t = .ok p) : p.1.Fits := by
  unfold dirKeys at h
  split_ifs at h
  · obtain rfl := Except.ok.inj h
    exact fits_zero
  · cases hc : classByName db "dir" with
    | none => rw [hc] at h; cases h
    | some cls =>
      rw [hc] at h
      obtain rfl := Except.ok.inj h
      exact ⟨hs, ht, classByName_fits hc⟩

theorem tmpfsKeys_fits {db : Policydb} {access : TmpfsAccess} {s : Nat} {p : PolicyKey × Av}
    (hs : s < 65536) (h : tmpfsKeys db access s = .ok p) : p.1.Fits := by
  unfold tmpfsKeys at h
  split at h
  · obtain rfl := Except.ok.inj h
    exact fits_zero
  · simp only at h
    split_ifs at h
    · obtain rfl := Except.ok.inj h
      exact fits_zero
    · cases hc : classByName db "file" with
      | none => rw [hc] at h; cases h
      | some cls =>
        rw [hc] at h
        obtain rfl := Except.ok.inj h
        exact ⟨hs, typeValueByName_fits db _, classByName_fits hc⟩

/-- What the keys of a file load have in common: they fit the table, and the directory and
tmpfs keys share the source with the file key unless they are empty. -/
structure FileLoadKeys.Shape (keys : FileLoadKeys) : Prop where
  file_fits : keys.file.Fits
  dir_fits : keys.dir.Fits
  tmpfs_fits : keys.tmpfs.Fits
  dir_types : keys.dirRequiredAv ≠ 0 →
    keys.dir.srcType = keys.file.srcType ∧ keys.dir.tgtType = keys.file.tgtType
  tmpfs_types : keys.tmpfsRequiredAv ≠ 0 →
    keys.tmpfs.srcType = keys.file.srcType ∧ keys.tmpfs.tclass = keys.file.tclass

theorem dirKeys_types {db : Policydb} {includeDir : Bool} {s t : Nat} {p : PolicyKey × Av}
    (h : dirKeys db includeDir s t = .ok p) (hne : p.2 ≠ 0) :
    p.1.srcType = s ∧ p.1.tgtType = t := by
  unfold dirKeys at h
  split_ifs at h
  · obtain rfl := Except.ok.inj h
    exact absurd rfl hne
  · split at h
    · cases h
    · obtain rfl := Except.ok.inj h
      exact ⟨rfl, rfl⟩

theorem tmpfsKeys_types {db : Policydb} {access : TmpfsAccess} {s : Nat} {p : PolicyKey × Av}
    {cls : ClassDatum} (hc : classByName db "file" = some cls)
    (h : tmpfsKeys db access s = .ok p) (hne : p.2 ≠ 0) :
    p.1.srcType = s ∧ p.1.tclass = cls.value := by
  unfold tmpfsKeys at h
  split at h
  · obtain rfl := Except.ok.inj h
    exact absurd rfl hne
  · simp only [hc] at h
    split_ifs at h
    · obtain rfl := Except.ok.inj h
      exact absurd rfl hne
    · obtain rfl := Except.ok.inj h
      exact ⟨rfl, rfl⟩

/-- **The keys of a file load** fit the table, and have the types of the file and of the
credentials. -/
theorem getFileLoadKeys_shape {base : PolicyBase} {file : File} {cred : Cred}
    {includeDir : Bool} {access : TmpfsAccess} {keys : FileLoadKeys}
    (h : yzPolicyBaseGetFileLoadKeys base file cred includeDir access = .ok keys) :
    keys.Shape := by
  unfold yzPolicyBaseGetFileLoadKeys at h
  split at h
  · cases h
  · simp only at h
    split_ifs at h
    split at h
    · cases h
    · split at h
      · rename_i scontext tcontext hs ht
        split at h
        · cases h
        · rename_i cls hc
          split at h
          · cases h
          · rename_i dir dirAv hd
            split at h
            · cases h
            · rename_i tmpfs tmpfsAv htm
              obtain rfl := Except.ok.inj h
              have hsf := sidtabSearch_fits hs
              have htf := sidtabSearch_fits ht
              exact ⟨⟨hsf, htf, classByName_fits hc⟩, dirKeys_fits hsf htf hd,
                tmpfsKeys_fits hsf htm, dirKeys_types hd, tmpfsKeys_types hc htm⟩
      · cases h

/-- The execmem key of a domain is about the domain itself. -/
theorem getExecmemKey_shape {base : PolicyBase} {cred : Cred} {key : PolicyKey} {av : Av}
    (h : yzPolicyBaseGetExecmemKey base cred = .ok (key, av)) :
    key.Fits ∧ key.tgtType = key.srcType ∧ ∃ policy cls, base.policy = some policy ∧
      classByName policy.policydb "process" = some cls ∧ key.tclass = cls.value ∧
      av = yzPolicyRequiredAv cls yzProcessExecmemPerms := by
  unfold yzPolicyBaseGetExecmemKey at h
  simp only at h
  split_ifs at h
  split at h
  · cases h
  · rename_i policy hp
    split at h
    · cases h
    · rename_i scontext hs
      split at h
      · cases h
      · rename_i cls hc
        obtain ⟨rfl, rfl⟩ := Prod.mk.inj (Except.ok.inj h)
        have hsf := sidtabSearch_fits hs
        exact ⟨⟨hsf, hsf, classByName_fits hc⟩, rfl, policy, cls, hp, hc, rfl, rfl⟩

/-! ## 2. The permanent grants -/

def yzRuntimeSocketPerms : List String := ["read", "write", "connectto", "getopt", "getattr"]
def yzRuntimeFdPerms : List String := ["use"]
def yzRuntimeFifoPerms : List String := ["read", "write", "open", "getattr"]
def yzRuntimeMemfdPerms : List String := ["execute", "getattr", "map", "read", "write"]
def yzRuntimeProcessPerms : List String := ["sigchld"]

/-- `struct yz_runtime_policy_class`. -/
structure RuntimePolicyClass where
  name : String
  perms : List String
  isOptional : Bool

/-- `yz_runtime_policy_classes`. -/
def yzRuntimePolicyClasses : List RuntimePolicyClass :=
  [⟨"unix_stream_socket", yzRuntimeSocketPerms, false⟩,
   ⟨"fd", yzRuntimeFdPerms, false⟩,
   ⟨"fifo_file", yzRuntimeFifoPerms, false⟩,
   ⟨"memfd_file", yzRuntimeMemfdPerms, true⟩,
   ⟨"process", yzRuntimeProcessPerms, false⟩]

/-- What the kernel answers during `yz_host_policy_prepare_runtime_current`.  The table edits
only insert, and insert one node a key at most. -/
structure RuntimeEnv where
  dup : Except Errno Unit
  alloc : PolicyKey → Bool

/-- The type of this value has a name and is a type, not an attribute. -/
def isSourceType (db : Policydb) (srcType : Nat) : Bool :=
  match yzPolicyTypeNameByValue db srcType with
  | none => false
  | some name =>
    match db.pTypes.lookup name with
    | none => false
    | some type => !type.isAttribute

/-- One turn of the loop of `yz_policy_allow_all_sources`. -/
def allowSource (targetType : Nat) (cls : ClassDatum) (av : Av) (alloc : PolicyKey → Bool)
    (db : Policydb) (srcType : Nat) : Except Errno Policydb :=
  if isSourceType db srcType = false then .ok db
  else
    let key : PolicyKey := ⟨srcType, targetType, cls.value⟩
    yzPolicyApplyAv db key av true (alloc key)

/-- `yz_policy_allow_all_sources`. -/
def yzPolicyAllowAllSources (db : Policydb) (targetType : Nat) (spec : RuntimePolicyClass)
    (alloc : PolicyKey → Bool) : Except Errno Policydb :=
  match classByName db spec.name with
  | none => if spec.isOptional then .ok db else .error .ENOENT
  | some cls =>
    let av := yzPolicyRequiredAv cls spec.perms
    if av = 0 then if spec.isOptional then .ok db else .error .ENOENT
    else (List.range' 1 db.pTypes.nprim).foldlM (allowSource targetType cls av alloc) db

/-- `yz_policy_allow_named`. -/
def yzPolicyAllowNamed (db : Policydb) (source target className : String)
    (perms : List String) (alloc : PolicyKey → Bool) : Except Errno Policydb :=
  match db.pTypes.lookup source, db.pTypes.lookup target, classByName db className with
  | some sourceType, some targetType, some cls =>
    if sourceType.isAttribute ∨ targetType.isAttribute ∨ 65535 < sourceType.value ∨
        65535 < targetType.value then .error .ENOENT
    else
      let av := yzPolicyRequiredAv cls perms
      if av = 0 then .error .ENOENT
      else
        let key : PolicyKey := ⟨sourceType.value, targetType.value, cls.value⟩
        yzPolicyApplyAv db key av true (alloc key)
  | _, _, _ => .error .ENOENT

/-- The edits of `yz_host_policy_prepare_runtime_current` on the copy. -/
def runtimeEdits (db : Policydb) (targetType : Nat) (alloc : PolicyKey → Bool) :
    Except Errno Policydb := do
  let db ← yzRuntimePolicyClasses.foldlM
    (fun db spec => yzPolicyAllowAllSources db targetType spec alloc) db
  yzPolicyAllowNamed db "system_server" "system_server" "process" yzProcessExecmemPerms alloc

/-- `yz_host_policy_prepare_runtime_current`. -/
def yzHostPolicyPrepareRuntimeCurrent (base : PolicyBase) (current : Cred) (env : RuntimeEnv) :
    PolicyBase × Except Errno Unit :=
  match yzPolicyBaseLock base with
  | .error e => (base, .error e)
  | .ok () =>
    let sid := current.tsec.getD 0
    if sid = 0 then (base, .error .EINVAL)
    else match base.policy with
      | none => (base, .error .ENOENT)
      | some policy =>
        match yzPolicySidtabSearch policy sid with
        | none => (base, .error .ENOENT)
        | some targetContext =>
          match yzPolicyBeginEditLocked base env.dup with
          | .error e => (base, .error e)
          | .ok copy =>
            match runtimeEdits copy.policydb targetContext.type env.alloc with
            | .error e => (base, .error e)
            | .ok db => (yzPolicyCommitEditLocked base copy db, .ok ())

/-- One class of the permanent grants asks for bit `b` of `k`. -/
def AsksAllSources (db : Policydb) (targetType : Nat) (spec : RuntimePolicyClass)
    (k : PolicyKey) (b : Nat) : Prop :=
  ∃ cls, classByName db spec.name = some cls ∧ k.tclass = cls.value ∧ k.tgtType = targetType ∧
    1 ≤ k.srcType ∧ k.srcType ≤ db.pTypes.nprim ∧ isSourceType db k.srcType = true ∧
    (yzPolicyRequiredAv cls spec.perms).getLsbD b = true

/-- The grant to system_server asks for bit `b` of `k`. -/
def AsksSystemServer (db : Policydb) (k : PolicyKey) (b : Nat) : Prop :=
  ∃ type cls, db.pTypes.lookup "system_server" = some type ∧
    classByName db "process" = some cls ∧ k = ⟨type.value, type.value, cls.value⟩ ∧
    (yzPolicyRequiredAv cls yzProcessExecmemPerms).getLsbD b = true

/-- The bits the edits of one call ask for, on a policy with these symbols. -/
def AsksEdits (db : Policydb) (targetType : Nat) (k : PolicyKey) (b : Nat) : Prop :=
  (∃ spec ∈ yzRuntimePolicyClasses, AsksAllSources db targetType spec k b) ∨
    AsksSystemServer db k b

/-- What a call of `yz_host_policy_prepare_runtime_current` by `current` asks for. -/
def AsksRuntime (base : PolicyBase) (current : Cred) (k : PolicyKey) (b : Nat) : Prop :=
  ∃ policy ctx, base.policy = some policy ∧
    yzPolicySidtabSearch policy (current.tsec.getD 0) = some ctx ∧
    AsksEdits policy.policydb ctx.type k b

theorem asksRuntime_fits {base : PolicyBase} {current : Cred} {k : PolicyKey} {b : Nat}
    (h : AsksRuntime base current k b) : k.Fits := by
  obtain ⟨policy, ctx, -, hctx, ⟨spec, -, cls, hc, hcls, htgt, -, hn, -⟩ |
    ⟨type, cls, ht, hc, rfl, -⟩⟩ := h
  · have hlt := policy.policydb.nprim_fits
    exact ⟨by omega, htgt ▸ sidtabSearch_fits hctx, hcls ▸ classByName_fits hc⟩
  · have hty := policy.policydb.type_fits _ _ ht
    exact ⟨hty, hty, classByName_fits hc⟩

/-- An edit that only adds: the symbols stay and no bit is cleared. -/
structure Adds (db db' : Policydb) : Prop where
  same : SameSymbols db db'
  mono : ∀ k b, (db.direct k).getLsbD b = true → (db'.direct k).getLsbD b = true

theorem Adds.refl (db : Policydb) : Adds db db := ⟨.refl _, fun _ _ h => h⟩

theorem Adds.trans {a b c : Policydb} (h : Adds a b) (h' : Adds b c) : Adds a c :=
  ⟨h.same.trans h'.same, fun k i hi => h'.mono k i (h.mono k i hi)⟩

variable {db db' : Policydb} {alloc : PolicyKey → Bool}

/-- An edit that allows only adds. -/
theorem applyAv_adds {key : PolicyKey} {av : Av} {ok : Bool}
    (h : yzPolicyApplyAv db key av true ok = .ok db') :
    Adds db db' ∧ ∀ b, av.getLsbD b = true → (db'.direct key).getLsbD b = true := by
  obtain ⟨hsym, hdir⟩ := applyAv_spec h
  refine ⟨⟨hsym, fun k b hb => ?_⟩, ?_⟩
  · rw [hdir]
    split_ifs
    · rw [getLsbD_editAv, hb, ite_self]
    · exact hb
  · intro b hb
    rw [hdir, if_pos rfl, getLsbD_editAv, if_pos hb]

/-- A fold of adding edits adds, and what every later edit keeps stays. -/
theorem foldlM_adds {ι : Type} {f : Policydb → ι → Except Errno Policydb} {l : List ι}
    (hf : ∀ db i db', f db i = .ok db' → Adds db db') (h : l.foldlM f db = .ok db') :
    Adds db db' := by
  induction l generalizing db with
  | nil =>
    obtain rfl := Except.ok.inj h
    exact .refl _
  | cons i l ih =>
    rw [List.foldlM_cons] at h
    cases hi : f db i with
    | error e => rw [hi] at h; cases h
    | ok db₁ =>
      rw [hi] at h
      exact (hf db i db₁ hi).trans (ih h)

/-- What one turn of an adding fold puts in is there at the end. -/
theorem foldlM_adds_at {ι : Type} {f : Policydb → ι → Except Errno Policydb} {l : List ι}
    (hf : ∀ db i db', f db i = .ok db' → Adds db db') (h : l.foldlM f db = .ok db')
    {i : ι} (hi : i ∈ l) {k : PolicyKey} {b : Nat}
    (hput : ∀ db₁ db₂, SameSymbols db db₁ → f db₁ i = .ok db₂ →
      (db₂.direct k).getLsbD b = true) : (db'.direct k).getLsbD b = true := by
  induction l generalizing db with
  | nil => cases hi
  | cons j l ih =>
    rw [List.foldlM_cons] at h
    cases hj : f db j with
    | error e => rw [hj] at h; cases h
    | ok db₁ =>
      rw [hj] at h
      rcases List.mem_cons.mp hi with rfl | hi
      · exact (foldlM_adds hf h).mono k b (hput db db₁ (.refl _) hj)
      · exact ih h hi fun db₂ db₃ hs => hput db₂ db₃ ((hf db j db₁ hj).same.trans hs)

theorem isSourceType_congr (hs : SameSymbols db db') (n : Nat) :
    isSourceType db' n = isSourceType db n := by
  simp only [isSourceType, yzPolicyTypeNameByValue, hs.types, hs.typeNames]

theorem classByName_congr (hs : SameSymbols db db') (name : String) :
    classByName db' name = classByName db name := by
  simp only [classByName, hs.classes]

/-- One domain of the loop. -/
theorem allowSource_adds {targetType : Nat} {cls : ClassDatum} {av : Av} (db : Policydb)
    (n : Nat) (db' : Policydb) (h : allowSource targetType cls av alloc db n = .ok db') :
    Adds db db' := by
  unfold allowSource at h
  split_ifs at h
  · obtain rfl := Except.ok.inj h
    exact .refl _
  · exact (applyAv_adds h).1

theorem allowAllSources_adds {targetType : Nat} (db : Policydb) (spec : RuntimePolicyClass)
    (db' : Policydb) (h : yzPolicyAllowAllSources db targetType spec alloc = .ok db') :
    Adds db db' := by
  unfold yzPolicyAllowAllSources at h
  split at h
  · split_ifs at h
    obtain rfl := Except.ok.inj h
    exact .refl _
  · simp only at h
    split_ifs at h
    · obtain rfl := Except.ok.inj h
      exact .refl _
    · exact foldlM_adds allowSource_adds h

/-- **Every source the loop visits gets the permissions of the class.** -/
theorem allowAllSources_asks {targetType : Nat} {spec : RuntimePolicyClass} {k : PolicyKey}
    {b : Nat} (h : yzPolicyAllowAllSources db targetType spec alloc = .ok db')
    (ha : AsksAllSources db targetType spec k b) : (db'.direct k).getLsbD b = true := by
  obtain ⟨cls, hc, hcls, htgt, h1, hn, hsrc, hb⟩ := ha
  have hne : yzPolicyRequiredAv cls spec.perms ≠ 0 := by
    intro h0
    rw [h0] at hb
    simp at hb
  simp only [yzPolicyAllowAllSources, hc, if_neg hne] at h
  refine foldlM_adds_at allowSource_adds h
    (List.mem_range'_1.mpr ⟨h1, by omega⟩) fun db₁ db₂ hs h₂ => ?_
  simp only [allowSource, isSourceType_congr hs, hsrc, Bool.true_eq_false, if_false,
    ← hcls, ← htgt] at h₂
  exact (applyAv_adds h₂).2 b hb

theorem allowNamed_adds {source target className : String} {perms : List String}
    (h : yzPolicyAllowNamed db source target className perms alloc = .ok db') :
    Adds db db' := by
  unfold yzPolicyAllowNamed at h
  split at h
  · simp only at h
    split_ifs at h
    exact (applyAv_adds h).1
  · cases h

theorem allowNamed_asks {k : PolicyKey} {b : Nat}
    (h : yzPolicyAllowNamed db "system_server" "system_server" "process"
      yzProcessExecmemPerms alloc = .ok db')
    (ha : AsksSystemServer db k b) : (db'.direct k).getLsbD b = true := by
  obtain ⟨type, cls, ht, hc, rfl, hb⟩ := ha
  simp only [yzPolicyAllowNamed, ht, hc] at h
  split_ifs at h
  exact (applyAv_adds h).2 b hb

/-- All edits of the permanent grants. -/
theorem runtimeEdits_spec {targetType : Nat} (h : runtimeEdits db targetType alloc = .ok db') :
    Adds db db' ∧
      ∀ k b, AsksEdits db targetType k b → (db'.direct k).getLsbD b = true := by
  unfold runtimeEdits at h
  cases hall : yzRuntimePolicyClasses.foldlM
      (fun db spec => yzPolicyAllowAllSources db targetType spec alloc) db with
  | error e => rw [hall] at h; cases h
  | ok db₁ =>
    rw [hall] at h
    have hnamed : yzPolicyAllowNamed db₁ "system_server" "system_server" "process"
      yzProcessExecmemPerms alloc = .ok db' := h
    have hadd₁ := foldlM_adds allowAllSources_adds hall
    have hadd₂ := allowNamed_adds hnamed
    refine ⟨hadd₁.trans hadd₂, ?_⟩
    intro k b hask
    rcases hask with ⟨spec, hspec, cls, hc, hrest⟩ | ⟨type, cls, ht, hc, hk, hb⟩
    · refine hadd₂.mono k b (foldlM_adds_at allowAllSources_adds hall hspec
        fun db₂ db₃ hs h₂ => allowAllSources_asks h₂ ⟨cls, (classByName_congr hs _).trans hc, ?_⟩)
      rw [hs.types, isSourceType_congr hs]
      exact hrest
    · exact allowNamed_asks hnamed ⟨type, cls, by rw [hadd₁.same.types]; exact ht,
        (classByName_congr hadd₁.same _).trans hc, hk, hb⟩

/-- **A successful run of the permanent grants leaves all it asked for allowed and clears
nothing; a failed one changes nothing.** -/
theorem prepareRuntime_spec {base base' : PolicyBase} {current : Cred} {env : RuntimeEnv}
    {r : Except Errno Unit}
    (h : yzHostPolicyPrepareRuntimeCurrent base current env = (base', r)) :
    r ≠ .ok () ∧ base' = base ∨
    r = .ok () ∧ SameBase base base' ∧
      (∀ k b, (base.direct k).getLsbD b = true → (base'.direct k).getLsbD b = true) ∧
      ∀ k b, AsksRuntime base current k b → (base'.direct k).getLsbD b = true := by
  have failed : ∀ e : Errno, (base, Except.error e) = (base', r) →
      r ≠ .ok () ∧ base' = base := by
    intro e he
    obtain ⟨rfl, rfl⟩ := Prod.mk.inj he
    exact ⟨nofun, rfl⟩
  unfold yzHostPolicyPrepareRuntimeCurrent at h
  split at h
  · exact .inl (failed _ h)
  simp only at h
  split_ifs at h
  · exact .inl (failed _ h)
  split at h
  · exact .inl (failed _ h)
  rename_i policy hp
  split at h
  · exact .inl (failed _ h)
  rename_i ctx hctx
  split at h
  · exact .inl (failed _ h)
  rename_i copy hbe
  split at h
  · exact .inl (failed _ h)
  rename_i db' hed
  obtain ⟨hr, hp'⟩ := beginEdit_ok hbe
  obtain rfl : policy = copy := Option.some.inj (hp.symm.trans hp')
  obtain ⟨rfl, rfl⟩ := Prod.mk.inj h
  obtain ⟨hadd, hasks⟩ := runtimeEdits_spec hed
  refine .inr ⟨rfl, commitEdit_sameBase hp hadd.same, fun k b hb => ?_, fun k b hask => ?_⟩
  · rw [direct_of_policy hr hp] at hb
    rw [commitEdit_direct hr]
    exact hadd.mono k b hb
  · obtain ⟨policy', ctx', hpol, hctx', hask⟩ := hask
    obtain rfl : policy = policy' := Option.some.inj (hp.symm.trans hpol)
    obtain rfl : ctx = ctx' := Option.some.inj (hctx.symm.trans hctx')
    rw [commitEdit_direct hr]
    exact hasks k b hask

end YukiZygisk.Policy
