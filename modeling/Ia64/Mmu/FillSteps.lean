import Ia64.Mmu.LookupSteps

/-! References and fills of the software TLB, as elementary changes that keep the books of pending
purges. -/

namespace Ia64.Mmu

open Pages Sweep State

section FirstLevel

@[simp] theorem stamp_entry (l1 : Dtlb1) (slot : Nat) : (l1.stamp slot).entry = l1.entry := by
  simp only [Dtlb1.stamp]
  split <;> rfl

@[simp] theorem Dtlb1.remember_entry (l1 : Dtlb1) (va : Word) (rid : BitVec 32) (slot : Nat) :
    (l1.remember va rid slot).entry = l1.entry := rfl

variable {l1 : Dtlb1} {strict : Prop} {scan : Dtlb1Scan}

theorem sheds_l1 (mmu : State) (entries : l1.entry = mmu.l1.entry) :
    Sheds mmu { mmu with l1 := l1 } :=
  ⟨rfl, fun _ _ => by rw [entries], fun _ _ _ present => present⟩

theorem orderly_copy (mmu : State) (enabled : mmu.dtlb1Enabled) (source : Nat)
    {slot : Nat} (inside : slot < dtlb1Max)
    (entries : l1.entry = Function.update mmu.l1.entry slot (mmu.data.entry source)) :
    Orderly strict mmu { mmu with l1 := l1 } := by
  refine Change.outside (.copy mmu l1 enabled fun i _ => ?_) rfl rfl
  rw [entries]
  by_cases here : i = slot
  · rw [here, Function.update_self]
    exact Or.inr ⟨inside, source, rfl⟩
  · rw [Function.update_of_ne here]
    exact Or.inl rfl

/-- What the scan for a first-level slot keeps. -/
structure ScanKept (strict : Prop) (mmu : State) (scan : Dtlb1Scan) : Prop where
  orderly : Orderly strict mmu scan.mmu
  data : scan.mmu.data = mmu.data
  model : scan.mmu.model = mmu.model
  oldest : scan.oldest < dtlb1Max
  empty : ∀ i, scan.empty = some i → i < dtlb1Max

theorem ScanKept.shed {mmu : State} (kept : ScanKept strict mmu scan)
    {after : State} (sheds : Sheds scan.mmu after) :
    Orderly strict mmu after ∧ after.data = mmu.data ∧ after.model = mmu.model :=
  ⟨kept.orderly.trans sheds.orderly, (sheds.same.tlb true).trans kept.data,
    sheds.same.model.trans kept.model⟩

variable (mmu : State) (enabled : mmu.dtlb1Enabled) (va : Word) (rid : BitVec 32)

include enabled in
/-- One visit of the scan keeps what the scan keeps. -/
theorem dtlb1Scan_visit_kept {source i : Nat} (inside : i < dtlb1Max)
    (kept : ScanKept strict mmu scan) :
    ScanKept strict mmu (Dtlb1Scan.visit va rid (mmu.data.entry source) scan i) := by
  simp only [Dtlb1Scan.visit]
  split
  · exact kept
  · split
    · -- The copy held in this slot is refreshed.
      refine ⟨?_, kept.data, kept.model, kept.oldest, kept.empty⟩
      have stillEnabled : scan.mmu.dtlb1Enabled := by
        rw [dtlb1Enabled, kept.model]
        exact enabled
      refine kept.orderly.trans (orderly_copy scan.mmu stillEnabled source inside ?_)
      rw [kept.data, stamp_entry, Dtlb1.remember_entry]
    · have dropped : Sheds scan.mmu (if (scan.mmu.l1.entry i).matches va rid = true then
          scan.mmu.dtlb1InvalidateSlot i else scan.mmu) := by
        split
        · exact sheds_dtlb1InvalidateSlot scan.mmu i
        · exact .refl _
      obtain ⟨orderly, data, model⟩ := kept.shed dropped
      generalize (if (scan.mmu.l1.entry i).matches va rid = true then scan.mmu.dtlb1InvalidateSlot i
        else scan.mmu) = after at orderly data model
      split_ifs
      · refine ⟨orderly, data, model, kept.oldest, fun k first => ?_⟩
        cases before : scan.empty with
        | some other =>
          refine kept.empty k ?_
          rw [before] at first ⊢
          exact first
        | none =>
          rw [before] at first
          cases first
          exact inside
      · exact ⟨orderly, data, model, inside, kept.empty⟩
      · exact ⟨orderly, data, model, kept.oldest, kept.empty⟩

include enabled in
/-- A copy into the first level makes elementary changes. -/
theorem dtlb1Fill_orderly (source : Nat) :
    Orderly strict mmu (mmu.dtlb1Fill va rid (mmu.data.entry source)) := by
  have scanned : ScanKept strict mmu
      (sweep dtlb1Max (Dtlb1Scan.visit va rid (mmu.data.entry source)) ⟨mmu, none, none,
        uint64Max, 0⟩) :=
    sweep_invariant ⟨.refl mmu, rfl, rfl, show 0 < dtlb1Max by decide,
      fun _ found => absurd found (by simp)⟩
      fun i inside _ kept => dtlb1Scan_visit_kept mmu enabled va rid inside kept
  simp only [dtlb1Fill]
  generalize sweep dtlb1Max (Dtlb1Scan.visit va rid (mmu.data.entry source))
    ⟨mmu, none, none, uint64Max, 0⟩ = scan at scanned
  split
  · exact scanned.orderly
  · have place : scan.empty.getD scan.oldest < dtlb1Max := by
      cases found : scan.empty with
      | none => exact scanned.oldest
      | some i => exact scanned.empty i found
    have dropped : Sheds scan.mmu (if scan.empty.isSome = true then scan.mmu
        else scan.mmu.dtlb1InvalidateSlot (scan.empty.getD scan.oldest)) := by
      split
      · exact .refl _
      · exact sheds_dtlb1InvalidateSlot _ _
    obtain ⟨orderly, data, model⟩ := scanned.shed dropped
    generalize (if scan.empty.isSome = true then scan.mmu
        else scan.mmu.dtlb1InvalidateSlot (scan.empty.getD scan.oldest)) =
          after at orderly data model
    have stillEnabled : after.dtlb1Enabled := by
      rw [dtlb1Enabled, model]
      exact enabled
    refine orderly.trans (orderly_copy after stillEnabled source place ?_)
    rw [data, stamp_entry, Dtlb1.remember_entry]

include enabled in
/-- A touched page is a sequence of elementary changes. -/
theorem dtlb1TouchOne_orderly :
    Orderly strict mmu (mmu.dtlb1TouchOne va) ∧ (mmu.dtlb1TouchOne va).model = mmu.model := by
  have looked := sheds_dtlb1Lookup mmu va (mmu.regionRid va)
  simp only [dtlb1TouchOne]
  generalize mmu.dtlb1Lookup va (mmu.regionRid va) = answer at looked
  obtain ⟨hint, after⟩ := answer
  have start : Orderly strict mmu after := looked.orderly
  have stillEnabled : after.dtlb1Enabled := by
    rw [dtlb1Enabled, looked.same.model]
    exact enabled
  cases hint with
  | some slot => exact ⟨start.trans (sheds_l1 after (stamp_entry _ _)).orderly, looked.same.model⟩
  | none =>
    dsimp only
    split
    · refine ⟨start.trans (sheds_l1 after ?_).orderly, looked.same.model⟩
      rw [stamp_entry, Dtlb1.remember_entry]
    · split
      · rename_i i _
        have filled :
            Orderly strict after (after.dtlb1Fill va (mmu.regionRid va) (after.data.entry i)) :=
          dtlb1Fill_orderly after stillEnabled va (mmu.regionRid va) i
        exact ⟨start.trans filled, (Changes.model filled.changes).trans looked.same.model⟩
      · exact ⟨start, looked.same.model⟩

/-- A data reference is a sequence of elementary changes. -/
theorem dataAccess_orderly {strict : Prop} (mmu : State) (va : Word) (size : Nat)
    (translated : Bool) : Orderly strict mmu (mmu.dataAccess va size translated) := by
  unfold dataAccess
  split
  · exact .refl mmu
  · rename_i active
    have enabled : mmu.dtlb1Enabled := by
      simp only [Bool.or_eq_true, Bool.not_eq_eq_eq_not, Bool.not_true, not_or,
        Bool.not_eq_false] at active
      exact active.1.1
    obtain ⟨first, model⟩ : Orderly strict mmu (mmu.dtlb1TouchOne va) ∧
      (mmu.dtlb1TouchOne va).model = mmu.model := dtlb1TouchOne_orderly mmu enabled va
    dsimp only
    split
    · have stillEnabled : (mmu.dtlb1TouchOne va).dtlb1Enabled := by
        rw [dtlb1Enabled, model]
        exact enabled
      exact first.trans (dtlb1TouchOne_orderly _ stillEnabled _).1
    · exact first

end FirstLevel

/-- A slot of the TLB of a reference leads its address to a physical address. -/
def State.Serves (mmu : State) (addr : Word) (isIfetch : Bool) (pa : Word) : Prop :=
  ∃ i, ((mmu.tlb !isIfetch).entry i).covers addr (mmu.regionRid addr) ∧
    pa = ((mmu.tlb !isIfetch).entry i).physOf addr

variable {isIfetch isWrite isRse : Bool} {mmu : State} {pte : Word} {key : BitVec 32} {perm : Perm}

theorem State.Serves.kept {before after : State} {addr : Word} {pa : Word}
    (serves : before.Serves addr isIfetch pa)
    (entries : (after.tlb !isIfetch).entry = (before.tlb !isIfetch).entry)
    (rr : after.rr = before.rr) : after.Serves addr isIfetch pa := by
  obtain ⟨i, covered, address⟩ := serves
  refine ⟨i, ?_, ?_⟩
  · rw [entries, regionRid, rr]
    exact covered
  · rw [entries]
    exact address

section Page

theorem getLsbD_targetPage (va : Word) (i : Nat) :
    (targetPage va).getLsbD i = (va.getLsbD i && decide (12 ≤ i)) := by
  rw [targetPage, show (0xfff : Word) = pageSize 64 12 - 1 from by decide, BitVec.getLsbD_and,
    BitVec.getLsbD_not, getLsbD_pageSize_sub_one (by decide)]
  by_cases inside : i < 64
  · by_cases low : i < 12
    · simp [inside, low]
    · simp [inside, low, Nat.not_lt.mp low]
  · simp [BitVec.getLsbD_of_ge va i (by omega)]

theorem rrIndex_targetPage (va : Word) : rrIndex (targetPage va) = rrIndex va := by
  unfold rrIndex
  congr 1
  apply BitVec.eq_of_getLsbD_eq
  intro i inside
  rw [BitVec.getLsbD_extractLsb', BitVec.getLsbD_extractLsb', getLsbD_targetPage]
  simp [show 12 ≤ 61 + i by omega]

theorem regionRid_targetPage (mmu : State) (va : Word) :
    mmu.regionRid (targetPage va) = mmu.regionRid va := by
  rw [regionRid, rrIndex_targetPage, regionRid]

theorem covers_targetPage {entry : TlbEntry} (sized : entry.Sized) (va : Word) (rid : BitVec 32) :
    entry.covers (targetPage va) rid = entry.covers va rid := by
  obtain ⟨shift, shape⟩ := sized
  have same : SamePage shift 61 (targetPage va) va := by
    intro i above _
    rw [getLsbD_targetPage]
    have least := shape.1
    simp [show 12 ≤ i by omega]
  rw [Bool.eq_iff_iff, TlbEntry.covers_iff shape, TlbEntry.covers_iff shape]
  constructor
  · rintro ⟨valid, region, page⟩
    exact ⟨valid, region, same.symm.trans page⟩
  · rintro ⟨valid, region, page⟩
    exact ⟨valid, region, same.trans page⟩

theorem physOf_targetPage (entry : TlbEntry) (va : Word) :
    targetPage (entry.physOf (targetPage va)) = targetPage (entry.physOf va) := by
  apply BitVec.eq_of_getLsbD_eq
  intro i _
  rw [getLsbD_targetPage, getLsbD_targetPage]
  by_cases high : 12 ≤ i
  · simp [TlbEntry.physOf, getLsbD_targetPage, high]
  · simp [high]

theorem backed_of_serves {mmu : State} (formed : mmu.WellFormed) {addr : Word}
    {isIfetch : Bool} {pa : Word} (serves : mmu.Serves addr isIfetch pa) {host : HostEntry}
    (side : host.prot.exec = isIfetch) (address : host.physAddr = targetPage pa) :
    mmu.Backed (targetPage addr) host := by
  obtain ⟨i, covered, physical⟩ := serves
  have sized := (formed.tlbs (!isIfetch)).sized i (valid_of_covers covered)
  refine ⟨i, ?_, ?_⟩
  · rw [side, regionRid_targetPage, covers_targetPage sized]
    exact covered
  · rw [side, physOf_targetPage, address, physical]

end Page

/-- A translation that passes passes the page's checks. -/
theorem pteException_of_passes {needed : Perm}
    
    (passes : (mmu.translationExceptionForAccess pte key perm needed isIfetch isWrite isRse).1 =
      .none) :
    pteExceptionForAccessMasked pte perm needed isIfetch isWrite mmu.control.psr (fun _ => false) =
      .none := by
  have kept : (mmu.keyExceptionForAccess key needed isIfetch isRse).2.control = mmu.control := by
    unfold keyExceptionForAccess
    split <;> rfl
  simp only [translationExceptionForAccess, translationExceptionForAccessMasked] at passes
  split_ifs at passes with absent nat failed
  · -- A failed key check is the exception itself.
    simp only [Bool.not_false, Bool.and_true, bne_iff_ne, ne_eq] at failed
    exact absurd passes failed
  · rw [kept] at passes
    exact passes

/-- A translation is installed for its own side. -/
theorem prot_exec_eq {access : Access}
    
    (passes : (mmu.translationExceptionForAccess pte key perm access.needed (access == .fetch)
      isWrite isRse).1 = .none) :
    (tlbProtForPtePsr pte perm (access == .fetch) mmu.control.psr).exec = (access == .fetch) := by
  cases access with
  | load =>
    simp only [tlbProtForPtePsr]
    split_ifs <;> simp_all
  | store =>
    simp only [tlbProtForPtePsr]
    split_ifs <;> simp_all
  | fetch =>
    have page := pteException_of_passes passes
    simp only [pteExceptionForAccessMasked, Access.needed, Perm.includes] at page
    cases executable : perm.x with
    | false =>
      simp only [executable, Bool.not_true, Bool.not_false, Bool.or_self, Bool.true_or,
        Bool.and_false, Bool.and_self, if_true] at page
      split_ifs at page
    | true =>
      -- The right is withdrawn only where the access bit fault would have been raised.
      simp only [tlbProtForPtePsr, tlbPermToProt, executable]
      split_ifs at page ⊢ <;> simp_all

section Fill

variable {mmu : State} (formed : mmu.WellFormed) {strict : Prop}
  (plain : strict → mmu.dtlb1Enabled = false)

include formed plain in
/-- What the search finds serves the address. -/
theorem fillLookup_spec (addr : Word) (isIfetch isRse : Bool) (level : Nat) :
    Orderly strict mmu (mmu.fillLookup addr isIfetch isRse level).2 ∧
      SameRegisters mmu (mmu.fillLookup addr isIfetch isRse level).2 ∧
      ∀ found, (mmu.fillLookup addr isIfetch isRse level).1 = some found → strict →
        (mmu.fillLookup addr isIfetch isRse level).2.Serves addr isIfetch found.pa := by
  have kept : Looks strict mmu (mmu.tlbFindCached addr (mmu.regionRid addr) isIfetch).2 :=
    tlbFindCached_looks mmu addr (mmu.regionRid addr) isIfetch
  have covers : strict → ∀ entry,
      (mmu.tlbFindCached addr (mmu.regionRid addr) isIfetch).1 = some entry →
      ∃ i, (mmu.tlb !isIfetch).entry i = entry ∧ entry.covers addr (mmu.regionRid addr) :=
    fun holds entry found => tlbFindCached_covers mmu addr _ isIfetch (by simp [plain holds])
      (formed.tlbs (!isIfetch)).hints found
  simp only [fillLookup]
  generalize mmu.tlbFindCached addr (mmu.regionRid addr) isIfetch = answer at kept covers
  obtain ⟨hit, after⟩ := answer
  cases hit with
  | some entry =>
    refine ⟨kept.toOrderly, kept.registers, fun found same holds => ?_⟩
    cases same
    obtain ⟨i, stored, covered⟩ := covers holds entry rfl
    refine ⟨i, ?_, ?_⟩
    · rw [kept.entries, regionRid, kept.registers.rr, stored]
      exact covered
    · rw [kept.entries, stored]
  | none =>
    have stillPlain : strict → after.dtlb1Enabled = false := by
      intro holds
      rw [dtlb1Enabled, kept.registers.model]
      exact plain holds
    obtain ⟨walks, registers, serves⟩ :=
      vhptWalkFull_spec (Changes.wellFormed kept.changes formed) stillPlain
      addr (mmu.regionRid addr) isIfetch isRse level
    dsimp only
    generalize after.vhptWalkFull addr (mmu.regionRid addr) isIfetch isRse level = walked
      at walks registers serves
    obtain ⟨result, final⟩ := walked
    have both := kept.registers.trans registers
    cases result with
    | none => exact ⟨kept.toOrderly.trans walks, both, fun found same => absurd same (by simp)⟩
    | some walk =>
      refine ⟨kept.toOrderly.trans walks, both, fun found same _ => ?_⟩
      cases same
      obtain ⟨i, covered, address⟩ := serves walk rfl
      refine ⟨i, ?_, address⟩
      rw [regionRid, both.rr]
      exact covered

theorem fillFails_orderly (mmu : State) (addr : Word) (probe : Bool) (excp : Excp) :
    Orderly strict mmu (mmu.fillFails addr probe excp).2 := by
  unfold fillFails
  split
  · exact .refl mmu
  · unfold fillRaise
    split
    · exact Change.outside (.control rfl) rfl rfl
    · exact .refl mmu

theorem fillMiss_orderly (mmu : State) (addr : Word) (isIfetch isRse : Bool) :
    Orderly strict mmu (mmu.fillMiss addr isIfetch isRse).2 := by
  unfold fillMiss
  cases mmu.vhptWalkerEnabled addr isIfetch isRse with
  | none => exact .refl mmu
  | some config =>
    obtain ⟨size, longFormat⟩ := config
    dsimp only
    generalize (if longFormat = true then mmu.vhptLongHashAddress addr size
      else mmu.vhptShortHashAddress addr size) = entryVa
    have walked : Orderly strict mmu (mmu.vhptEntryPhys entryVa).2 :=
      (vhptEntryPhys_looks mmu entryVa).toOrderly
    generalize mmu.vhptEntryPhys entryVa = answer at walked
    obtain ⟨status, after⟩ := answer
    split
    · exact .refl mmu
    · split
      · exact .refl mmu
      · cases status <;> exact walked

include formed plain in
/-- A fill makes elementary changes. -/
theorem fillFrom_orderly {addr : Word} {access : Access} {found : Translation}
    (serves : strict → mmu.Serves addr (access == .fetch) found.pa) (size mmuIdx : Nat)
    (isRse probe : Bool) :
    Orderly strict mmu (mmu.fillFrom addr size access mmuIdx isRse probe found).2 := by
  obtain ⟨keyCache, remembered⟩ := translationException_state mmu found.pte found.key found.perm
    access.needed (access == .fetch) (access == .store) isRse
  have passes : (mmu.translationExceptionForAccess found.pte found.key found.perm access.needed
      (access == .fetch) (access == .store) isRse).1 = .none →
      (tlbProtForPtePsr found.pte found.perm (access == .fetch) mmu.control.psr).exec =
        (access == .fetch) := prot_exec_eq
  simp only [fillFrom, remembered]
  generalize (mmu.translationExceptionForAccess found.pte found.key found.perm access.needed
    (access == .fetch) (access == .store) isRse).1 = excp at passes
  have checked : Orderly strict mmu { mmu with keyCache := keyCache } :=
    (looks_keys mmu keyCache).toOrderly
  split
  · exact checked.trans (fillFails_orderly _ addr probe excp)
  · rename_i fine
    have side := passes (by simpa using fine)
    have touched : Orderly strict { mmu with keyCache := keyCache }
        (if (!access == .fetch && !probe) = true then
          dataAccess { mmu with keyCache := keyCache } addr size true
        else { mmu with keyCache := keyCache }) := by
      split
      · exact dataAccess_orderly _ addr size true
      · exact .refl _
    refine (checked.trans touched).trans (Change.outside (.install _ mmuIdx (targetPage addr) _
      fun holds _ => ?_) rfl rfl)
    have idle : (if (!access == .fetch && !probe) = true then
          dataAccess { mmu with keyCache := keyCache } addr size true
        else { mmu with keyCache := keyCache }) = ({ mmu with keyCache := keyCache } : State) := by
      split
      · simp [dataAccess, show dtlb1Enabled { mmu with keyCache := keyCache } = false from
          plain holds]
      · rfl
    rw [idle]
    exact backed_of_serves (Changes.wellFormed checked.changes formed)
      ((serves holds).kept rfl rfl) side rfl

include formed plain in
/-- A fill of the software TLB makes elementary changes. -/
theorem tlbFill_orderly
    (window : strict → ∀ va, mmu.control.firmwareContains va = false) (addr : Word) (size : Nat)
    (access : Access) (mmuIdx : Nat) (rseAccess probe : Bool) :
    Orderly strict mmu (mmu.tlbFill addr size access mmuIdx rseAccess probe).2 := by
  unfold tlbFill
  split
  · rename_i physical
    split
    · exact fillFails_orderly mmu addr probe _
    · -- An untranslated page needs no entry behind it.
      refine Change.outside (.install _ mmuIdx (targetPage addr) _ fun _ translated => ?_) rfl rfl
      rw [physical] at translated
      exact absurd translated (by decide)
  · split
    · exact fillFails_orderly mmu addr probe _
    · cases identity : mmu.firmwareIdentityPa addr with
      | some pa =>
        refine Change.outside (.install _ mmuIdx (targetPage addr) _ fun holds _ => ?_) rfl rfl
        simp [firmwareIdentityPa, window holds addr] at identity
      | none =>
        dsimp only
        obtain ⟨looked, registers, serves⟩ := fillLookup_spec formed plain addr (access == .fetch)
          (!(access == .fetch) &&
            rseAccess) (mmu.fillLevel mmuIdx (!(access == .fetch) && rseAccess))
        generalize mmu.fillLookup addr (access == .fetch) (!(access == .fetch) && rseAccess)
          (mmu.fillLevel mmuIdx (!(access == .fetch) && rseAccess)) =
            answer at looked registers serves
        obtain ⟨hit, after⟩ := answer
        have stillPlain : strict → after.dtlb1Enabled = false := by
          intro holds
          rw [dtlb1Enabled, registers.model]
          exact plain holds
        cases hit with
        | some found =>
          exact looked.trans (fillFrom_orderly (Changes.wellFormed looked.changes formed) stillPlain
            (serves found rfl) size mmuIdx _ probe)
        | none =>
          dsimp only
          split
          · exact looked
          · exact (looked.trans (fillMiss_orderly after addr _ _)).trans
              (fillFails_orderly _ addr probe _)

include formed plain in
/-- Translating an address makes elementary changes. -/
theorem dataAddressToPhys_orderly (va : Word) :
    Orderly strict mmu (mmu.dataAddressToPhys va).2 := by
  unfold dataAddressToPhys
  split
  · exact .refl mmu
  · cases mmu.firmwareIdentityPa va with
    | some pa => exact .refl mmu
    | none =>
      dsimp only
      have looked : Looks strict mmu (mmu.tlbFindCached va (mmu.regionRid va) false).2 :=
        tlbFindCached_looks mmu va (mmu.regionRid va) false
      generalize mmu.tlbFindCached va (mmu.regionRid va) false = answer at looked
      obtain ⟨hit, after⟩ := answer
      cases hit with
      | some entry => exact looked.toOrderly
      | none =>
        have stillPlain : strict → after.dtlb1Enabled = false := by
          intro holds
          rw [dtlb1Enabled, looked.registers.model]
          exact plain holds
        obtain ⟨walks, -, -⟩ :=
          vhptWalkFull_spec (Changes.wellFormed looked.changes formed) stillPlain va
          (mmu.regionRid va) false false (psrCpl mmu.control.psr)
        dsimp only
        generalize after.vhptWalkFull va (mmu.regionRid va) false false
          (psrCpl mmu.control.psr) = walked at walks
        obtain ⟨result, final⟩ := walked
        cases result <;> exact looked.toOrderly.trans walks

end Fill

end Ia64.Mmu
