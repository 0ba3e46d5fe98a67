import Ia64.Mmu.Fill

/-! The protection of a software TLB entry against the faults of the references it serves. -/

namespace Ia64.Mmu

open State

/-- Whether a protection serves a reference without asking again. -/
def Prot.serves (prot : Prot) : Access → Bool
  | .load => prot.read
  | .store => prot.write
  | .fetch => prot.exec

/-- The data references that rights, access bit, dirty bit and PSR.da let through. -/
def servesData (pte : Word) (perm : Perm) (psr : Word) (access : Access) : Bool :=
  perm.allows access && (psrDa psr || pteAccessed pte && (access != .store || pteDirty pte))

variable {access : Access} {mmu : State} {addr : Word} {size mmuIdx : Nat} {probe : Bool}
  {found : Translation}

theorem tlbProtForPtePsr_serves (data : access ≠ .fetch) (pte : Word) (perm : Perm)
    (psr : Word) :
    (tlbProtForPtePsr pte perm false psr).serves access = servesData pte perm psr access := by
  cases access with
  | fetch => exact absurd rfl data
  | load =>
    cases da : psrDa psr <;> cases accessed : pteAccessed pte <;> cases dirty : pteDirty pte <;>
      simp [tlbProtForPtePsr, tlbPermToProt, Prot.serves, servesData, Perm.allows, *]
  | store =>
    cases da : psrDa psr <;> cases accessed : pteAccessed pte <;> cases dirty : pteDirty pte <;>
      simp [tlbProtForPtePsr, tlbPermToProt, Prot.serves, servesData, Perm.allows, *]

/-- Whether the key of a translation stops a data reference. -/
def State.keyStops (mmu : State) (key : BitVec 32) (isRse : Bool) (access : Access) : Prop :=
  mmu.keyCheckEnabled false isRse = true ∧
    (pkrValid (mmu.resolveKey key) = false ∨ (pkrDisables (mmu.resolveKey key)).allows access)

/-- The key check passes iff the key does not stop it. -/
theorem keyException_none_iff (data : access ≠ .fetch) (mmu : State)
    (key : BitVec 32) (isRse : Bool) :
    (mmu.keyExceptionForAccess key access.needed false isRse).1 = .none ↔
      ¬mmu.keyStops key isRse access := by
  unfold keyExceptionForAccess keyStops
  cases checked : mmu.keyCheckEnabled false isRse with
  | false => simp
  | true =>
    cases valid : pkrValid (mmu.resolveKey key) with
    | false => simp [keyExceptionForKey, valid]
    | true =>
      cases access with
      | fetch => exact absurd rfl data
      | load =>
        cases disabled : (pkrDisables (mmu.resolveKey key)).r <;>
          simp [keyExceptionForKey, valid, Access.needed, Perm.allows, disabled]
      | store =>
        cases disabled : (pkrDisables (mmu.resolveKey key)).w <;>
          simp [keyExceptionForKey, valid, Access.needed, Perm.allows, disabled]

theorem pteException_none_iff (data : access ≠ .fetch) (pte : Word) (perm : Perm)
    (psr : Word) :
    pteExceptionForAccessMasked pte perm access.needed false (access == .store) psr
        (fun _ => false) = .none ↔
      ptePresent pte ∧ servesData pte perm psr access := by
  unfold pteExceptionForAccessMasked servesData
  cases present : ptePresent pte with
  | false => simp
  | true =>
    cases access with
    | fetch => exact absurd rfl data
    | load =>
      cases allowed : perm.r with
      | false => simp [Perm.includes, Access.needed, Perm.allows, allowed]
      | true =>
        cases psrDa psr <;> cases pteAccessed pte <;>
          simp [Perm.includes, Access.needed, Perm.allows, allowed]
    | store =>
      cases allowed : perm.w with
      | false => simp [Perm.includes, Access.needed, Perm.allows, allowed]
      | true =>
        cases psrDa psr <;> cases pteAccessed pte <;> cases pteDirty pte <;>
          simp [Perm.includes, Access.needed, Perm.allows, allowed]

theorem keyExceptionForAccess_control (mmu : State) (key : BitVec 32) (needed : Perm)
    (isIfetch isRse : Bool) :
    (mmu.keyExceptionForAccess key needed isIfetch isRse).2.control = mmu.control := by
  unfold keyExceptionForAccess
  split <;> rfl

/-- A data reference raises nothing iff no check stops it. -/
theorem translationException_none_iff (data : access ≠ .fetch) (mmu : State)
    (pte : Word) (key : BitVec 32) (perm : Perm) (isRse : Bool) :
    (mmu.translationExceptionForAccess pte key perm access.needed false
      (access == .store) isRse).1 =
        .none ↔
      ptePresent pte ∧ pteMa pte ≠ maNatPage ∧ ¬mmu.keyStops key isRse access ∧
        servesData pte perm mmu.control.psr access := by
  unfold translationExceptionForAccess translationExceptionForAccessMasked
  rw [← keyException_none_iff data]
  cases present : ptePresent pte with
  | false => simp
  | true =>
    by_cases natPage : pteMa pte = maNatPage
    · simp [natPage]
    · have checks := pteException_none_iff data pte perm mmu.control.psr
      simp only [present, true_and] at checks
      cases keyCheck : (mmu.keyExceptionForAccess key access.needed false isRse).1 <;>
        simp [natPage, keyCheck, keyExceptionForAccess_control, checks]

theorem translationException_control (mmu : State) (pte : Word) (key : BitVec 32)
    (perm needed : Perm) (isIfetch isWrite isRse : Bool) :
    (mmu.translationExceptionForAccess pte key perm needed isIfetch isWrite isRse).2.control =
      mmu.control := by
  unfold translationExceptionForAccess translationExceptionForAccessMasked
  split
  · rfl
  · split
    · rfl
    · simp only
      split <;> exact keyExceptionForAccess_control mmu key needed isIfetch isRse

/-- A data fill succeeds only if nothing is raised. -/
theorem fillFrom_installed {after : State}
    {isRse : Bool} {prot : Prot} (data : access ≠ .fetch)
    (filled : mmu.fillFrom addr size access mmuIdx isRse probe found = (.installed prot, after)) :
    (mmu.translationExceptionForAccess found.pte found.key found.perm access.needed false
        (access == .store) isRse).1 = .none ∧
      prot = tlbProtForPtePsr found.pte found.perm false mmu.control.psr := by
  have notFetch : (access == Access.fetch) = false := by simpa using data
  simp only [fillFrom, notFetch] at filled
  split at filled
  · -- A fault either refuses the probe or raises.
    unfold fillFails at filled
    split at filled <;> simp at filled
  · rename_i noFault
    have quiet :
        (mmu.translationExceptionForAccess found.pte found.key found.perm access.needed false
          (access == .store) isRse).1 = .none := by
      simpa using noFault
    simp only [Prod.mk.injEq, FillOutcome.installed.injEq] at filled
    refine ⟨quiet, ?_⟩
    rw [← filled.1, tlbProtForPte, translationException_control]

theorem tlbFill_modeled {looked : State}
    {rseAccess : Bool} (data : access ≠ .fetch)
    (translated : mmuIdx ≠ mmuPhysIdx) (implemented : mmu.vaIsImplemented addr)
    (modeled : mmu.firmwareIdentityPa addr = none)
    (lookup : mmu.fillLookup addr false rseAccess (mmu.fillLevel mmuIdx rseAccess) =
      (some found, looked)) :
    mmu.tlbFill addr size access mmuIdx rseAccess probe =
      looked.fillFrom addr size access mmuIdx rseAccess probe found := by
  have notFetch : (access == Access.fetch) = false := by simpa using data
  simp [tlbFill, notFetch, translated, implemented, modeled, lookup]

/-- What a data fill caches is safe to serve exactly if the key allows all that the page's bits
allow. -/
theorem tlbFill_sound_iff {mmu looked after : State} {addr : Word} {size mmuIdx : Nat}
    {access : Access} {rseAccess probe : Bool} {found : Translation} {prot : Prot}
    (data : access ≠ .fetch) (translated : mmuIdx ≠ mmuPhysIdx)
    (implemented : mmu.vaIsImplemented addr = true) (modeled : mmu.firmwareIdentityPa addr = none)
    (lookup : mmu.fillLookup addr false rseAccess (mmu.fillLevel mmuIdx rseAccess) =
      (some found, looked))
    (filled : mmu.tlbFill addr size access mmuIdx rseAccess probe = (.installed prot, after)) :
    (∀ later : Access, later ≠ .fetch → prot.serves later = true →
        (looked.translationExceptionForAccess found.pte found.key found.perm later.needed false
          (later == .store) rseAccess).1 = .none) ↔
      (looked.keyCheckEnabled false rseAccess = true → ∀ later : Access, later ≠ .fetch →
        servesData found.pte found.perm looked.control.psr later = true →
        (pkrDisables (looked.resolveKey found.key)).allows later = false) := by
  rw [tlbFill_modeled data translated implemented modeled lookup] at filled
  obtain ⟨quiet, cached⟩ := fillFrom_installed data filled
  obtain ⟨present, notNat, keyPasses, -⟩ :=
    (translationException_none_iff data looked _ _ _ _).mp quiet
  constructor
  · intro sound checked later dataLater serves
    have granted : prot.serves later = true := by
      rw [cached, tlbProtForPtePsr_serves dataLater, serves]
    have later_quiet := sound later dataLater granted
    obtain ⟨-, -, laterPasses, -⟩ :=
      (translationException_none_iff dataLater looked _ _ _ _).mp later_quiet
    cases disabled : (pkrDisables (looked.resolveKey found.key)).allows later with
    | false => rfl
    | true => exact absurd ⟨checked, Or.inr disabled⟩ laterPasses
  · intro keyAllows later dataLater granted
    rw [cached, tlbProtForPtePsr_serves dataLater] at granted
    refine (translationException_none_iff dataLater looked _ _ _ _).mpr ⟨present,
      notNat, ?_, granted⟩
    rintro ⟨checked, missing | disabled⟩
    · -- The reference that filled the page found its key, so every other one finds it as well.
      exact keyPasses ⟨checked, Or.inl missing⟩
    · rw [keyAllows checked later dataLater granted] at disabled
      exact absurd disabled (by decide)

/-- A processor that checks keys, with one writable page and a key register for its key. -/
def keyedProcessor (pkr : Word) : State :=
  let page := { TlbEntry.make 0x4000 0x8000 4096 0x461 ⟨true, true, false⟩ 0 3 with slot := 0 }
  { State.reset .montecito with
    data := { Tlb.reset with entry := fun i => if i = 0 then page else .empty, count := 1 }
    pkr := fun i => if i = 0 then pkr else 0
    control := { (State.reset .montecito).control with psr := 0x28000 } }

/-- What the lookup of that page finds. -/
def keyedTranslation : Translation := ⟨0x8000, ⟨true, true, false⟩, 0x461, 3⟩

/-- A load fills a page whose key disables writes with write protection open. -/
theorem tlbFill_opens_disabled_write :
    ((keyedProcessor 0x303).tlbFill 0x4000 8 .load 1 false false).1 =
      .installed ⟨true, true, false⟩ ∧
      ((keyedProcessor 0x303).fillLookup 0x4000 false false 0).1 = some keyedTranslation ∧
      (((keyedProcessor 0x303).fillLookup 0x4000 false false 0).2.translationExceptionForAccess
        keyedTranslation.pte keyedTranslation.key keyedTranslation.perm
          Access.store.needed false true
        false).1 = .keyPermission := by
  refine ⟨by decide, rfl, by decide⟩

/-- Under a key that disables nothing, the page may be served for loads and stores. -/
theorem tlbFill_sound_without_disable :
    (⟨true, true, false⟩ : Prot).serves .store = true ∧
      (((keyedProcessor 0x301).fillLookup 0x4000 false false 0).2.translationExceptionForAccess
        keyedTranslation.pte keyedTranslation.key keyedTranslation.perm Access.store.needed false
        (Access.store == .store) false).1 = .none := by
  have sound := tlbFill_sound_iff
    (show Access.load ≠ .fetch by decide) (show (1 : Nat) ≠ mmuPhysIdx by decide)
    (show (keyedProcessor 0x301).vaIsImplemented 0x4000 = true by decide)
    (show (keyedProcessor 0x301).firmwareIdentityPa 0x4000 = none by decide)
    (show (keyedProcessor 0x301).fillLookup 0x4000 false false
      ((keyedProcessor 0x301).fillLevel 1 false) =
      (some keyedTranslation, ((keyedProcessor 0x301).fillLookup 0x4000 false false 0).2) from rfl)
    (show (keyedProcessor 0x301).tlbFill 0x4000 8 .load 1 false false =
      (.installed ⟨true, true, false⟩,
        ((keyedProcessor 0x301).tlbFill 0x4000 8 .load 1 false false).2) from rfl)
  refine ⟨rfl, sound.mpr (fun _ later _ _ => ?_) .store (by decide) rfl⟩
  cases later <;> decide

end Ia64.Mmu
