import Ia64.Mmu.Fault

/-! Writes to the protection key registers, and the cache that remembers which register holds a
key. -/

namespace Ia64.Mmu

open Sweep Function State

/-- The bits that a protection key register keeps: valid, the three disables and the key. -/
def State.pkrMask (mmu : State) : Word := 0xf ||| mmu.pkrKeyMask

/-- Invalidate another register that holds a key, and note that something changed. -/
def displacePkr (keyMask key : Word) (pkrNum : Nat) (file : (Nat → Word) × Bool) (i : Nat) :
    (Nat → Word) × Bool :=
  if i != pkrNum && pkrValid (file.1 i) && file.1 i &&& keyMask == key then
    (Function.update file.1 i (file.1 i &&& ~~~(1 : Word)), true)
  else file

/-- A write to a protection key register. -/
def State.pkrWrite (mmu : State) (pkrNum : Nat) (value : Word) : State :=
  let masked := value &&& mmu.pkrMask
  let key := masked &&& mmu.pkrKeyMask
  if 16 ≤ pkrNum then mmu
  else
    let unchanged := (mmu.pkr, mmu.pkr pkrNum != masked)
    let (pkr, changed) :=
      if pkrValid masked then sweep 16 (displacePkr mmu.pkrKeyMask key pkrNum) unchanged
        else unchanged
    let written := { mmu with pkr := Function.update pkr pkrNum masked }
    if changed then
      { written with
        keyCache := fun _ => ⟨0, 0, false⟩
        data := mmu.data.bumpGeneration
        inst := mmu.inst.bumpGeneration }.tlbFlush
    else written

/-- What the registers have to say about an access, given the one that holds its key. -/
def keyVerdict (pkr : Word) (needed : Perm) (isIfetch : Bool) : Excp :=
  if !pkrValid pkr then if isIfetch then .instKeyMiss else .dataKeyMiss
  else if (needed.r && (pkrDisables pkr).r) || (needed.w && (pkrDisables pkr).w) ||
      (needed.x && (pkrDisables pkr).x) then
    .keyPermission
  else .none

/-- Operations on the protection keys. -/
inductive KeyOp where
  | write (pkrNum : Nat) (value : Word)
  | lookup (key : BitVec 32) (needed : Perm) (isIfetch : Bool)
  /-- Everything but the registers and their cache takes other values. -/
  | elsewhere (others : State)

/-- The state after an operation on the protection keys. -/
def State.keyStep (mmu : State) : KeyOp → State
  | .write pkrNum value => mmu.pkrWrite pkrNum value
  | .lookup key needed isIfetch => (mmu.keyExceptionForKey key needed isIfetch).2
  | .elsewhere others =>
    { others with model := mmu.model, pkr := mmu.pkr, keyCache := mmu.keyCache }

/-- Two different valid registers hold different keys. -/
def State.KeysDistinct (mmu : State) : Prop :=
  ∀ i j, i < 16 → j < 16 → pkrValid (mmu.pkr i) → pkrValid (mmu.pkr j) →
    mmu.pkr i &&& mmu.pkrKeyMask = mmu.pkr j &&& mmu.pkrKeyMask → i = j

/-- Every key the cache remembers resolves to what a scan of the registers finds. -/
def State.KeysCached (mmu : State) : Prop :=
  ∀ slot, (mmu.keyCache slot).valid → (mmu.keyCache slot).pkr = mmu.scanPkr (mmu.keyCache slot).key

section Write

variable {mmu : State} {keyMask key masked : Word} {pkrNum : Nat}

/-- What the sweep leaves of a register. -/
def keptPkr (keyMask key : Word) (pkrNum i : Nat) (pkr : Word) : Word :=
  if i != pkrNum && pkrValid pkr && pkr &&& keyMask == key then pkr &&& ~~~(1 : Word) else pkr

theorem sweep_displacePkr (file : (Nat → Word) × Bool) (j : Nat) :
    (sweep 16 (displacePkr keyMask key pkrNum) file).1 j =
      if j < 16 then keptPkr keyMask key pkrNum j (file.1 j) else file.1 j := by
  refine sweep_pointwise (displacePkr keyMask key pkrNum) (fun file i => file.1 i)
    (keptPkr keyMask key pkrNum) ?_ ?_ 16 file j
  · intro current i
    simp only [displacePkr, keptPkr]
    split
    · simp
    · rfl
  · intro current i j apart
    simp only [displacePkr]
    split
    · simp [apart]
    · rfl

theorem sweep_displacePkr_unchanged {file : (Nat → Word) × Bool}
    (quiet : (sweep 16 (displacePkr keyMask key pkrNum) file).2 = false) :
    sweep 16 (displacePkr keyMask key pkrNum) file = file := by
  -- The note is never taken back, so a quiet sweep is quiet at every register.
  refine sweep_invariant (P := fun current => current.2 = false →
    current = file) (fun _ => rfl) ?_ quiet
  intro i below current kept
  simp only [displacePkr]
  split
  · intro absurd
    cases absurd
  · exact kept

theorem keptPkr_valid {i : Nat} {pkr : Word} (apart : i ≠ pkrNum)
    (valid : pkrValid (keptPkr keyMask key pkrNum i pkr)) :
    keptPkr keyMask key pkrNum i pkr = pkr ∧ pkr &&& keyMask ≠ key := by
  unfold keptPkr at valid ⊢
  split at valid
  · simp [pkrValid] at valid
  · rename_i kept
    rw [if_neg kept]
    refine ⟨rfl, fun held => kept ?_⟩
    simp [apart, valid, held]

/-- The registers after a write, one by one. -/
theorem pkrWrite_pkr (mmu : State) (inside : pkrNum < 16) (value : Word) (j : Nat)
    (below : j < 16) :
    (mmu.pkrWrite pkrNum value).pkr j =
      if j = pkrNum then value &&& mmu.pkrMask
      else if pkrValid (value &&& mmu.pkrMask) then
        keptPkr mmu.pkrKeyMask ((value &&& mmu.pkrMask) &&& mmu.pkrKeyMask) pkrNum j (mmu.pkr j)
      else mmu.pkr j := by
  have registers : (mmu.pkrWrite pkrNum value).pkr = update
      (if pkrValid (value &&& mmu.pkrMask) then sweep 16 (displacePkr mmu.pkrKeyMask
          ((value &&& mmu.pkrMask) &&& mmu.pkrKeyMask) pkrNum)
          (mmu.pkr, mmu.pkr pkrNum != value &&& mmu.pkrMask)
        else (mmu.pkr, mmu.pkr pkrNum != value &&& mmu.pkrMask)).1 pkrNum
          (value &&& mmu.pkrMask) := by
    simp only [pkrWrite, show ¬16 ≤ pkrNum by omega, if_false]
    split_ifs <;> rfl
  rw [registers]
  by_cases own : j = pkrNum
  · subst own
    simp
  · rw [update_of_ne own, if_neg own]
    split
    · rw [sweep_displacePkr, if_pos below]
    · rfl

theorem pkrWrite_model (mmu : State) (pkrNum : Nat) (value : Word) :
    (mmu.pkrWrite pkrNum value).model = mmu.model := by
  unfold pkrWrite
  dsimp only
  split_ifs <;> rfl

/-- A write empties the cache or changes nothing. -/
theorem pkrWrite_cache (mmu : State) (pkrNum : Nat) (value : Word) :
    (∀ slot, ((mmu.pkrWrite pkrNum value).keyCache slot).valid = false) ∨
      (mmu.pkrWrite pkrNum value).keyCache = mmu.keyCache ∧
        (mmu.pkrWrite pkrNum value).pkr = mmu.pkr := by
  unfold pkrWrite
  dsimp only
  split_ifs with outside valid changed changed
  · exact Or.inr ⟨rfl, rfl⟩
  · exact Or.inl fun slot => rfl
  · -- Nothing changed: the sweep found nothing and the written value was there before.
    have quiet := sweep_displacePkr_unchanged (eq_false_of_ne_true changed)
    rw [quiet] at changed
    refine Or.inr ⟨rfl, ?_⟩
    rw [quiet]
    have same : mmu.pkr pkrNum = value &&& mmu.pkrMask := by simpa using changed
    simp only [← same, update_eq_self]
  · exact Or.inl fun slot => rfl
  · refine Or.inr ⟨rfl, ?_⟩
    have same : mmu.pkr pkrNum = value &&& mmu.pkrMask := by simpa using changed
    simp only [← same, update_eq_self]

/-- A write keeps the keys of valid registers distinct. -/
theorem pkrWrite_distinct (distinct : mmu.KeysDistinct) (pkrNum : Nat) (value : Word) :
    (mmu.pkrWrite pkrNum value).KeysDistinct := by
  by_cases inside : pkrNum < 16
  case neg =>
    rw [pkrWrite, if_pos (by omega)]
    exact distinct
  have mask : (mmu.pkrWrite pkrNum value).pkrKeyMask = mmu.pkrKeyMask := by
    rw [pkrKeyMask, pkrWrite_model]
    rfl
  -- Another register that is still valid is unchanged, and does not hold the written key.
  have other : ∀ j, j < 16 → j ≠ pkrNum → pkrValid ((mmu.pkrWrite pkrNum value).pkr j) →
      (mmu.pkrWrite pkrNum value).pkr j = mmu.pkr j ∧
        (pkrValid (value &&& mmu.pkrMask) →
          mmu.pkr j &&& mmu.pkrKeyMask ≠ (value &&& mmu.pkrMask) &&& mmu.pkrKeyMask) := by
    intro j below apart valid
    rw [pkrWrite_pkr mmu inside value j below, if_neg apart] at valid ⊢
    split at valid
    · rename_i written
      rw [if_pos written]
      exact ⟨(keptPkr_valid apart valid).1, fun _ => (keptPkr_valid apart valid).2⟩
    · rename_i written
      rw [if_neg written]
      exact ⟨rfl, fun holds => absurd holds written⟩
  have own : (mmu.pkrWrite pkrNum value).pkr pkrNum = value &&& mmu.pkrMask := by
    rw [pkrWrite_pkr mmu inside value pkrNum inside, if_pos rfl]
  intro i j iBelow jBelow iValid jValid sameKey
  rw [mask] at sameKey
  by_cases iOwn : i = pkrNum
  · by_cases jOwn : j = pkrNum
    · rw [iOwn, jOwn]
    · obtain ⟨same, differs⟩ := other j jBelow jOwn jValid
      rw [iOwn, own] at iValid sameKey
      rw [same] at sameKey
      exact absurd sameKey.symm (differs iValid)
  · obtain ⟨iSame, iDiffers⟩ := other i iBelow iOwn iValid
    by_cases jOwn : j = pkrNum
    · rw [jOwn, own] at jValid sameKey
      rw [iSame] at sameKey
      exact absurd sameKey (iDiffers jValid)
    · obtain ⟨jSame, -⟩ := other j jBelow jOwn jValid
      rw [iSame] at iValid sameKey
      rw [jSame] at jValid sameKey
      exact distinct i j iBelow jBelow iValid jValid sameKey

theorem pkrWrite_cached (cached : mmu.KeysCached) (pkrNum : Nat) (value : Word) :
    (mmu.pkrWrite pkrNum value).KeysCached := by
  intro slot valid
  rcases pkrWrite_cache mmu pkrNum value with empty | ⟨cacheSame, registersSame⟩
  · rw [empty slot] at valid
    cases valid
  · have scan : (mmu.pkrWrite pkrNum value).scanPkr = mmu.scanPkr := by
      funext key
      rw [scanPkr, scanPkr, pkrKeyMask, pkrKeyMask, pkrWrite_model, registersSame]
    rw [cacheSame] at valid ⊢
    rw [scan]
    exact cached slot valid

end Write

section Runs

variable {mmu : State}

theorem resolveKey_eq_scanPkr (cached : mmu.KeysCached) (key : BitVec 32) :
    mmu.resolveKey key = mmu.scanPkr key := by
  unfold resolveKey
  dsimp only
  split
  · rename_i hit
    rw [Bool.and_eq_true, beq_iff_eq] at hit
    rw [cached _ hit.1, hit.2]
  · rfl

theorem rememberKey_cached (cached : mmu.KeysCached) (key : BitVec 32) :
    (mmu.rememberKey key).KeysCached := by
  intro slot valid
  have scan : (mmu.rememberKey key).scanPkr = mmu.scanPkr := rfl
  rw [scan]
  by_cases own : slot = keyCacheIndex key
  · subst own
    simp only [rememberKey, update_self]
    exact resolveKey_eq_scanPkr cached key
  · simp only [rememberKey, update_of_ne own] at valid ⊢
    exact cached slot valid

theorem keyStep_kept (op : KeyOp) (distinct : mmu.KeysDistinct) (cached : mmu.KeysCached) :
    (mmu.keyStep op).KeysDistinct ∧ (mmu.keyStep op).KeysCached := by
  cases op with
  | write pkrNum value =>
    exact ⟨pkrWrite_distinct distinct pkrNum value, pkrWrite_cached cached pkrNum value⟩
  | lookup key needed isIfetch => exact ⟨distinct, rememberKey_cached cached key⟩
  | elsewhere others => exact ⟨distinct, cached⟩

theorem keyRun_kept (ops : List KeyOp) (distinct : mmu.KeysDistinct) (cached : mmu.KeysCached) :
    (ops.foldl State.keyStep mmu).KeysDistinct ∧ (ops.foldl State.keyStep mmu).KeysCached := by
  induction ops generalizing mmu with
  | nil => exact ⟨distinct, cached⟩
  | cons op rest ih =>
    obtain ⟨distinct, cached⟩ := keyStep_kept op distinct cached
    exact ih distinct cached

/-- In every run from reset no two valid registers hold the same key, and every key check gives the
verdict of a fresh scan of the registers. -/
theorem keys_never_stale (model : CpuModel) (ops : List KeyOp) :
    let mmu := ops.foldl State.keyStep (State.reset model)
    (∀ i j, i < 16 → j < 16 → pkrValid (mmu.pkr i) = true → pkrValid (mmu.pkr j) = true →
        mmu.pkr i &&& mmu.pkrKeyMask = mmu.pkr j &&& mmu.pkrKeyMask → i = j) ∧
      ∀ key needed isIfetch,
        (mmu.keyExceptionForKey key needed isIfetch).1 =
          keyVerdict (mmu.scanPkr key) needed isIfetch := by
  -- After reset no register is valid and the cache is empty.
  have distinct : (State.reset model).KeysDistinct := by
    intro i j _ _ valid
    exact absurd valid (show ¬pkrValid 0 = true by decide)
  have cached : (State.reset model).KeysCached := by
    intro slot valid
    cases valid
  obtain ⟨distinct, cached⟩ := keyRun_kept ops distinct cached
  refine ⟨distinct, fun key needed isIfetch => ?_⟩
  rw [← resolveKey_eq_scanPkr cached key]
  rfl

end Runs

end Ia64.Mmu
