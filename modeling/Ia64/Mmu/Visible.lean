import Ia64.Mmu.Coherence

/-! What a lookup answers right after an insertion. -/

namespace Ia64.Mmu

open Pages Sweep TlbEntry

/-- Without a copy the main TLB answers. -/
theorem tlbFindSlow_main (mmu : State) (va : Word) (rid : BitVec 32) (isIfetch : Bool)
    (uncached : isIfetch = false → ∀ i, (mmu.l1.entry i).matches va rid = false) :
    (mmu.tlbFindSlow va rid isIfetch).1 =
      ((mmu.tlb !isIfetch).scan va rid).map (mmu.tlb !isIfetch).entry := by
  cases first : !isIfetch && mmu.dtlb1Enabled with
  | false => exact tlbFindSlow_plain mmu va rid isIfetch first
  | true =>
    have data : isIfetch = false := by simp_all
    have missing := uncached data
    -- A hint to a slot that does not match is no answer.
    have hint : (mmu.dtlb1Lookup va rid).1 = none := by
      simp only [State.dtlb1Lookup]
      split_ifs with stale unmatched
      · rfl
      · rfl
      · simp [missing] at unmatched
    have shed := sheds_dtlb1Lookup mmu va rid
    have entries : ∀ i, ((mmu.dtlb1Lookup va rid).2.l1.entry i).matches va rid = false := by
      intro i
      by_contra found
      simp only [Bool.not_eq_false] at found
      rw [shed.copies i (valid_of_matches found), missing i] at found
      exact absurd found (by decide)
    simp only [State.tlbFindSlow, first, if_true, hint]
    have none :
        (firstSlot dtlb1Max fun i => ((mmu.dtlb1Lookup va rid).2.l1.entry i).matches va rid) =
        none := firstSlot_eq_none_iff.mpr fun i _ => entries i
    rw [none, ite_self, shed.same.tlb]
    cases (mmu.tlb !isIfetch).scan va rid <;> rfl

/-- A lookup answers every address of a page with the given translation. -/
def State.Answers (mmu : State) (isData : Bool) (entry : TlbEntry) : Prop :=
  ∀ va, (va &&& ~~~(entry.ps - 1)) = entry.va → ∃ found,
    (mmu.tlbFindSlow va entry.rid (!isData)).1 = some found ∧ found.pte = entry.pte ∧
      found.pa = entry.pa ∧ found.ps = entry.ps ∧ found.key = entry.key

/-- No translation register other than that of one slot meets the page of an entry. -/
def State.RegistersElsewhere (mmu : State) (isData : Bool) (entry : TlbEntry)
    (slot : Option Nat) : Prop :=
  ∀ i, slot ≠ some i → ((mmu.tlb isData).entry i).isTr →
    ((mmu.tlb isData).entry i).overlaps (vaPageBase entry.va entry.ps) entry.ps entry.rid = false

theorem vaPageBase_idem (va ps : Word) : vaPageBase (vaPageBase va ps) ps = vaPageBase va ps := by
  rw [vaPageBase, vaPageBase, BitVec.and_assoc, BitVec.and_self]

section Page

variable {before : State} (formed : before.WellFormed) {isData : Bool} {entry : TlbEntry}
  {shift : Nat} (shape : entry.HasShift shift) {va : Word} {slot : Option Nat}

include shape in
theorem overlaps_page {other : TlbEntry} (sized : other.Sized)
    (inside : SamePage shift 61 va entry.va) (covered : other.covers va entry.rid) :
    other.overlaps (vaPageBase entry.va entry.ps) entry.ps entry.rid := by
  obtain ⟨size, otherShape⟩ := sized
  rw [shape.2.2]
  exact overlaps_of_covers otherShape (Nat.lt_trans shape.2.1 (by decide)) covered inside

include formed shape in
/-- After the purge only registers cover the page. -/
theorem afterPurge_covers (elsewhere : before.RegistersElsewhere isData entry slot)
    {j : Nat} (other : slot ≠ some j) (inside : SamePage shift 61 va entry.va) :
    (((before.tlb isData).entry j).afterPurge
      (vaPageBase entry.va entry.ps) entry.ps entry.rid).covers va entry.rid = false := by
  cases meets : ((before.tlb isData).entry j).purgeable
    (vaPageBase entry.va entry.ps) entry.ps entry.rid with
  | true =>
    rw [afterPurge_of_meets meets]
    simp [covers, retired]
  | false =>
    rw [afterPurge_of_apart meets]
    by_contra covered
    simp only [Bool.not_eq_false] at covered
    have overlap :=
      overlaps_page shape ((formed.tlbs isData).sized j (valid_of_covers covered)) inside covered
    have register : ((before.tlb isData).entry j).isTr := by
      simpa [purgeable, overlap] using meets
    exact absurd ((elsewhere j other register).symm.trans overlap) (by decide)

include formed shape in
theorem purged_copy (elsewhere : before.RegistersElsewhere true entry slot) {i : Nat}
    (inside : SamePage shift 61 va entry.va) {copy : TlbEntry}
    (held : copy = (before.dtlb1PurgeRange (vaPageBase entry.va entry.ps) entry.ps entry.rid
      true).l1.entry i) (found : copy.matches va entry.rid) :
    ∃ j, slot = some j ∧ (before.data.entry j).valid ∧ (before.data.entry j).isTr ∧
      copy.equivalent (before.data.entry j) := by
  have valid := valid_of_matches found
  have swept :=
    dtlb1PurgeRange_entry before (vaPageBase entry.va entry.ps) entry.ps entry.rid true i
  rw [← held, vaPageBase_idem] at swept
  -- A dropped entry is invalid, so this one was kept.
  split at swept
  · rw [swept] at valid
    exact absurd valid (by simp)
  · rename_i kept
    rw [← swept] at kept
    obtain ⟨enabled, within, sized, backed⟩ := formed.copies i (swept ▸ valid)
    rw [← swept] at sized backed
    have covered : copy.covers va entry.rid := by
      obtain ⟨size, sizedShape⟩ := sized
      rw [← matches_eq_covers sizedShape]
      exact found
    have overlap := overlaps_page shape sized inside covered
    have register : copy.isTr := by
      by_contra cache
      exact kept ⟨enabled, within, by simp [cache, overlap]⟩
    obtain ⟨j, live, isRegister, alike⟩ := backed register
    refine ⟨j, ?_, live, isRegister, alike⟩
    by_contra other
    have apart := elsewhere j other isRegister
    have meets := (overlaps_of_equivalent alike _ _ _).symm.trans overlap
    exact absurd (apart.symm.trans meets) (by decide)

include shape in
theorem samePage_of_base (base : (va &&& ~~~(entry.ps - 1)) = entry.va) :
    SamePage shift 61 va entry.va := by
  rw [← base, shape.2.2]
  have narrow := shape.2.1
  exact (clearOffset_samePage (by omega) va).symm

end Page

variable {slot shift : Nat} {mmu : State} {isData : Bool} {entry : TlbEntry}

theorem scan_eq_some {tlb : Tlb} {va : Word} {rid : BitVec 32} (used : slot < tlb.count)
    (covered : (tlb.entry slot).covers va rid)
    (least : ∀ j, j < slot → (tlb.entry j).covers va rid = false) : tlb.scan va rid = some slot :=
  firstSlot_eq_some_iff.mpr ⟨used, covered, least⟩

/-- After its insertion a cache entry answers. -/
theorem insertTc_answers (formed : mmu.WellFormed)
    (shape : entry.HasShift shift) (valid : entry.valid)
    (elsewhere : mmu.RegistersElsewhere isData entry none) :
    (mmu.insertTc isData entry).2.Answers isData entry := by
  obtain ⟨slot, inserted, -⟩ := insertTc_spec formed isData entry
  obtain ⟨version, placed⟩ := inserted.placed
  intro va base
  have inside := samePage_of_base shape base
  have uncached : (!isData) = false →
      ∀ i, ((mmu.insertTc isData entry).2.l1.entry i).matches va entry.rid = false := by
    intro data i
    have side : isData := by simpa using data
    subst side
    by_contra found
    simp only [Bool.not_eq_false] at found
    obtain ⟨j, impossible, -⟩ :=
      purged_copy formed shape elsewhere inside (inserted.copies i (valid_of_matches found)) found
    exact absurd impossible (by simp)
  have answer : ((mmu.insertTc isData entry).2.tlb isData).scan va entry.rid = some slot := by
    refine scan_eq_some inserted.used ?_ fun j lower => ?_
    · rw [placed]
      exact (covers_iff (show TlbEntry.HasShift _ shift from shape) va entry.rid).mpr
        ⟨valid, rfl, inside⟩
    · rw [inserted.entries j (by omega)]
      exact afterPurge_covers formed shape elsewhere (by simp) inside
  refine ⟨((mmu.insertTc isData entry).2.tlb isData).entry slot, ?_, ?_⟩
  · rw [tlbFindSlow_main _ va entry.rid (!isData) uncached, Bool.not_not, answer]
    rfl
  · rw [placed]
    exact ⟨rfl, rfl, rfl, rfl⟩

section Replace

variable (formed : mmu.WellFormed) (shape : entry.HasShift shift) (valid : entry.valid)
  (elsewhere : mmu.RegistersElsewhere isData entry (some slot)) {copy : Option Nat} {va : Word}

include formed shape elsewhere in
theorem replaceTr_uncached
    (replaced : Replaced isData slot entry mmu (mmu.replaceTr isData slot entry) copy)
    (uncopied : isData → (mmu.replaceTr isData slot entry).Uncopied ((mmu.tlb isData).entry slot))
    (inside : SamePage shift 61 va entry.va) (data : (!isData) = false) (i : Nat) :
    ((mmu.replaceTr isData slot entry).l1.entry i).matches va entry.rid = false := by
  have side : isData := by simpa using data
  subst side
  by_contra found
  simp only [Bool.not_eq_false] at found
  obtain ⟨j, same, held, register, alike⟩ :=
    purged_copy formed shape elsewhere inside (replaced.copies i (valid_of_matches found)) found
  cases same
  have gone := uncopied rfl held register i
  exact absurd (gone.symm.trans alike) (by decide)

include formed shape elsewhere in
theorem replaceTr_others
    (replaced : Replaced isData slot entry mmu (mmu.replaceTr isData slot entry) copy) {j : Nat}
    (apart : j ≠ slot) (notCopy : copy ≠ some j) (inside : SamePage shift 61 va entry.va) :
    (((mmu.replaceTr isData slot entry).tlb isData).entry j).covers va entry.rid = false := by
  rw [replaced.others j apart notCopy]
  exact afterPurge_covers formed shape elsewhere (by simpa using Ne.symm apart) inside

include formed shape valid elsewhere in
theorem replaceTr_answers
    (replaced : Replaced isData slot entry mmu (mmu.replaceTr isData slot entry) copy)
    (uncopied : isData → (mmu.replaceTr isData slot entry).Uncopied ((mmu.tlb isData).entry slot))
    (harmless : ∀ t, copy = some t → t < slot →
      ((mmu.tlb isData).entry slot).overlaps (vaPageBase entry.va entry.ps) entry.ps entry.rid →
      ((mmu.tlb isData).entry slot).pte = entry.pte ∧ ((mmu.tlb isData).entry slot).pa = entry.pa ∧
        ((mmu.tlb isData).entry slot).ps = entry.ps ∧
          ((mmu.tlb isData).entry slot).key = entry.key) :
    (mmu.replaceTr isData slot entry).Answers isData entry := by
  obtain ⟨version, placed⟩ := replaced.placed
  intro va base
  have inside := samePage_of_base shape base
  have main := tlbFindSlow_main (mmu.replaceTr isData slot entry) va entry.rid (!isData)
    (replaceTr_uncached formed shape elsewhere replaced uncopied inside)
  rw [Bool.not_not] at main
  have covered :
      (((mmu.replaceTr isData slot entry).tlb isData).entry slot).covers va entry.rid := by
    rw [placed]
    exact (covers_iff (show TlbEntry.HasShift _ shift from shape) va entry.rid).mpr
      ⟨valid, rfl, inside⟩
  by_cases shadowed : ∃ t, copy = some t ∧ t < slot ∧
      (((mmu.replaceTr isData slot entry).tlb isData).entry t).covers va entry.rid
  · -- The copy answers, with the same translation.
    obtain ⟨t, same, lower, copyCovers⟩ := shadowed
    obtain ⟨-, used, copyVersion, copied⟩ := replaced.copied t same
    have answer : ((mmu.replaceTr isData slot entry).tlb isData).scan va entry.rid = some t := by
      refine scan_eq_some used copyCovers fun j before => ?_
      refine replaceTr_others formed shape elsewhere replaced (by omega) ?_ inside
      rw [same]
      simpa using by omega
    refine ⟨_, by rw [main, answer]; rfl, ?_⟩
    rw [copied] at copyCovers ⊢
    have oldCovers : ((mmu.tlb isData).entry slot).covers va entry.rid := copyCovers
    exact harmless t same lower (overlaps_page shape
      ((formed.tlbs isData).sized slot (valid_of_covers oldCovers)) inside oldCovers)
  · have answer : ((mmu.replaceTr isData slot entry).tlb isData).scan va entry.rid = some slot := by
      refine scan_eq_some replaced.used covered fun j before => ?_
      by_cases isCopy : copy = some j
      · by_contra copyCovers
        simp only [Bool.not_eq_false] at copyCovers
        exact shadowed ⟨j, isCopy, before, copyCovers⟩
      · exact replaceTr_others formed shape elsewhere replaced (by omega) isCopy inside
    refine ⟨_, by rw [main, answer]; rfl, ?_⟩
    rw [placed]
    exact ⟨rfl, rfl, rfl, rfl⟩

include formed shape elsewhere in
/-- A copy below answers what it shares with the page. -/
theorem copy_answers {t : Nat}
    (replaced : Replaced isData slot entry mmu (mmu.replaceTr isData slot entry) (some t))
    (uncopied : isData → (mmu.replaceTr isData slot entry).Uncopied ((mmu.tlb isData).entry slot))
    (answers : (mmu.replaceTr isData slot entry).Answers isData entry) (lower : t < slot)
    (overlap : ((mmu.tlb isData).entry slot).overlaps
      (vaPageBase entry.va entry.ps) entry.ps entry.rid =
      true) (aligned : (entry.va &&& ~~~(entry.ps - 1)) = entry.va) :
    ((mmu.tlb isData).entry slot).pte = entry.pte ∧ ((mmu.tlb isData).entry slot).pa = entry.pa ∧
      ((mmu.tlb isData).entry slot).ps = entry.ps ∧
        ((mmu.tlb isData).entry slot).key = entry.key := by
  obtain ⟨-, used, copyVersion, copied⟩ := replaced.copied t rfl
  have held : ((mmu.tlb isData).entry slot).valid := by
    simp only [overlaps, Bool.and_eq_true] at overlap
    exact overlap.1.1.2
  obtain ⟨oldShift, oldShape⟩ := (formed.tlbs isData).sized slot held
  have narrow := shape.2.1
  -- Some address of the page is also covered by the old register.
  rw [shape.2.2] at overlap
  obtain ⟨low, lowInside, lowCovered⟩ :=
    exists_covers_of_overlaps oldShape (Nat.lt_trans shape.2.1 (by decide)) overlap
  obtain ⟨va, moved, alike⟩ := exists_moved_into (show shift < 64 by omega) lowInside
  rw [← shape.2.2, aligned] at moved
  have inside := samePage_of_base shape moved
  obtain ⟨oldValid, oldRegion, oldPage⟩ := (covers_iff oldShape low entry.rid).mp lowCovered
  have oldCovers : ((mmu.tlb isData).entry slot).covers va entry.rid :=
    (covers_iff oldShape va entry.rid).mpr
      ⟨oldValid, oldRegion, (alike.mono (Nat.zero_le _)).trans oldPage⟩
  have copyCovers :
      (((mmu.replaceTr isData slot entry).tlb isData).entry t).covers va entry.rid := by
    rw [copied]
    exact oldCovers
  have answer : ((mmu.replaceTr isData slot entry).tlb isData).scan va entry.rid = some t := by
    refine scan_eq_some used copyCovers fun j before => ?_
    exact replaceTr_others formed shape elsewhere replaced (by omega)
      (by simpa using by omega) inside
  have main := tlbFindSlow_main (mmu.replaceTr isData slot entry) va entry.rid (!isData)
    (replaceTr_uncached formed shape elsewhere replaced uncopied inside)
  rw [Bool.not_not, answer, Option.map_some, copied] at main
  obtain ⟨found, same, fields⟩ := answers va moved
  rw [main, Option.some.injEq] at same
  rw [← same] at fields
  exact fields

end Replace

section CopySlot

variable (mmu : State) (isData : Bool) (slot : Nat) (entry : TlbEntry)

/-- A cache entry of the base and RID of the register in a slot, which the insertion does not
purge. -/
def State.SameBase (i : Nat) : Prop :=
  ((mmu.tlb isData).entry i).isTc = true ∧
    ((mmu.tlb isData).entry i).overlaps (vaPageBase entry.va entry.ps) entry.ps entry.rid = false ∧
    ((mmu.tlb isData).entry i).va = ((mmu.tlb isData).entry slot).va ∧
    ((mmu.tlb isData).entry i).rid = ((mmu.tlb isData).entry slot).rid

/-- A slot that is unused, or holds a cache entry that the insertion purges. -/
def State.Vacated (i : Nat) : Prop :=
  ((mmu.tlb isData).entry i).valid = false ∨
    ((mmu.tlb isData).entry i).isTr = false ∧
      ((mmu.tlb isData).entry i).overlaps (vaPageBase entry.va entry.ps) entry.ps entry.rid

/-- The copy of the register in a slot goes to a lower slot: by preference one of the same base,
then an unused one, then the next cache entry in replacement order. -/
def State.CopyGoesBelow : Prop :=
  ∃ t, t < slot ∧
    (mmu.SameBase isData slot entry t ∨
      (∀ i, i < mmu.model.tlbCapacity isData → ¬mmu.SameBase isData slot entry i) ∧
        (mmu.Vacated isData entry t ∨
          (∀ i, i < mmu.model.tlbCapacity isData → ¬mmu.Vacated isData entry i) ∧
            (mmu.tlb isData).replace ≤ t ∧ ((mmu.tlb isData).entry t).isTc))

variable {mmu isData slot entry}

/-- A slot is unused after the purge iff it was vacated. -/
theorem afterPurge_invalid_iff {i : Nat} {left : TlbEntry} (purged : left =
      ((mmu.tlb isData).entry i).afterPurge (vaPageBase entry.va entry.ps) entry.ps entry.rid) :
    (!left.valid) ↔ mmu.Vacated isData entry i := by
  rw [purged, State.Vacated]
  cases meets : ((mmu.tlb isData).entry i).purgeable
    (vaPageBase entry.va entry.ps) entry.ps entry.rid with
  | true =>
    rw [afterPurge_of_meets meets]
    simp only [purgeable, Bool.and_eq_true, Bool.not_eq_eq_eq_not, Bool.not_true] at meets
    simp [retired, meets]
  | false =>
    rw [afterPurge_of_apart meets]
    have kept : ¬(((mmu.tlb isData).entry i).isTr = false ∧
        ((mmu.tlb isData).entry i).overlaps (vaPageBase entry.va entry.ps) entry.ps entry.rid) := by
      rintro ⟨cache, overlap⟩
      simp [purgeable, cache, overlap] at meets
    simp [kept]

theorem afterPurge_sameBase_iff {i : Nat} {left : TlbEntry} (purged : left =
      ((mmu.tlb isData).entry i).afterPurge (vaPageBase entry.va entry.ps) entry.ps entry.rid) :
    (left.isTc && left.va == ((mmu.tlb isData).entry slot).va &&
      left.rid == ((mmu.tlb isData).entry slot).rid) = true ↔ mmu.SameBase isData slot entry i := by
  rw [purged, State.SameBase]
  cases meets : ((mmu.tlb isData).entry i).purgeable
    (vaPageBase entry.va entry.ps) entry.ps entry.rid with
  | true =>
    rw [afterPurge_of_meets meets]
    simp only [purgeable, Bool.and_eq_true, Bool.not_eq_eq_eq_not, Bool.not_true] at meets
    simp [retired, TlbEntry.isTc, meets]
  | false =>
    rw [afterPurge_of_apart meets]
    cases cache : ((mmu.tlb isData).entry i).isTc with
    | false => simp
    | true =>
      have apart : ((mmu.tlb isData).entry i).overlaps (vaPageBase entry.va entry.ps) entry.ps
          entry.rid = false := by
        simp only [TlbEntry.isTc, Bool.and_eq_true, Bool.not_eq_eq_eq_not, Bool.not_true] at cache
        simpa [purgeable, cache.2] using meets
      simp [apart]

theorem afterPurge_of_not_vacated {i : Nat} (kept : ¬mmu.Vacated isData entry i) :
    ((mmu.tlb isData).entry i).afterPurge (vaPageBase entry.va entry.ps) entry.ps entry.rid =
      (mmu.tlb isData).entry i := by
  refine afterPurge_of_apart ?_
  by_contra meets
  simp only [purgeable, Bool.not_eq_false, Bool.and_eq_true, Bool.not_eq_eq_eq_not,
    Bool.not_true] at meets
  exact kept (Or.inr meets)

/-- When the copy goes below, by the table before. -/
theorem copySlot_below_iff (formed : mmu.WellFormed) (inside : slot < mmu.model.tlbCapacity isData)
    {purged : Tlb} {copy : Nat}
    (entries : ∀ j, purged.entry j =
      ((mmu.tlb isData).entry j).afterPurge (vaPageBase entry.va entry.ps) entry.ps entry.rid)
    (replace : purged.replace = (mmu.tlb isData).replace)
    (chosen : (purged.selectTcSlot (mmu.model.tlbCapacity isData) ((mmu.tlb isData).entry slot).va
      ((mmu.tlb isData).entry slot).rid).1 = some copy) :
    copy < slot ↔ mmu.CopyGoesBelow isData slot entry := by
  have room := mmu.model.trCount_lt_tlbCapacity isData
  have based := fun i => @afterPurge_sameBase_iff mmu isData slot entry i _ (entries i)
  have vacated := fun i => afterPurge_invalid_iff (entries i)
  unfold Tlb.selectTcSlot at chosen
  unfold State.CopyGoesBelow
  cases same : firstSlot (mmu.model.tlbCapacity isData) fun i => (purged.entry i).isTc &&
      (purged.entry i).va == ((mmu.tlb isData).entry slot).va &&
      (purged.entry i).rid == ((mmu.tlb isData).entry slot).rid with
  | some i =>
    -- The lowest slot of the same base.
    simp only [same, Option.some.injEq] at chosen
    subst chosen
    obtain ⟨below, own, -⟩ := firstSlot_eq_some_iff.mp same
    rw [firstSlot_lt_iff same]
    simp only [based] at own ⊢
    refine exists_congr fun t => and_congr_right fun _ =>
      ⟨Or.inl, fun either => either.resolve_right ?_⟩
    exact fun without => without.1 i below own
  | none =>
    have noBase : ∀ i, i < mmu.model.tlbCapacity isData → ¬mmu.SameBase isData slot entry i :=
      fun i below =>
      (based i).not.mp (by simp [firstSlot_eq_none_iff.mp same i below])
    simp only [same] at chosen
    cases free : firstSlot (mmu.model.tlbCapacity isData) fun i => !(purged.entry i).valid with
    | some i =>
      -- The lowest vacated slot.
      simp only [free] at chosen
      have chosenSlot : i = copy := Option.some.inj chosen
      subst chosenSlot
      obtain ⟨below, own, -⟩ := firstSlot_eq_some_iff.mp free
      rw [firstSlot_lt_iff free]
      simp only [vacated] at own ⊢
      refine exists_congr fun t => and_congr_right fun lower =>
        ⟨fun here => Or.inr ⟨noBase, Or.inl here⟩, ?_⟩
      rintro (sameBase | ⟨-, here | ⟨none, -⟩⟩)
      · exact absurd sameBase (noBase t (by omega))
      · exact here
      · exact absurd own (none i below)
    | none =>
      -- The table is full, and the search goes up from the replacement pointer.
      have noRoom : ∀ i, i < mmu.model.tlbCapacity isData → ¬mmu.Vacated isData entry i :=
        fun i below =>
        (vacated i).not.mp (by simpa using firstSlot_eq_none_iff.mp free i below)
      simp only [free] at chosen
      have last := noRoom (mmu.model.tlbCapacity isData - 1) (by omega)
      have cache : (purged.entry (mmu.model.tlbCapacity isData - 1)).isTc := by
        rw [entries, afterPurge_of_not_vacated last]
        refine tc_of_beyond formed ?_ (by omega)
        by_contra unused
        exact last (Or.inl (by simpa using unused))
      have pointer := (formed.tlbs isData).replaceBounded
      rw [← replace] at pointer
      obtain ⟨victim, found, above, cached, none⟩ := circularTcVictim_ahead
        (show purged.replace ≤ mmu.model.tlbCapacity isData - 1 by omega)
        (show mmu.model.tlbCapacity isData - 1 < mmu.model.tlbCapacity isData by omega) cache
        (show _ < mmu.model.tlbCapacity isData by omega)
      rw [found] at chosen
      have chosenSlot : victim = copy := Option.some.inj chosen
      subst chosenSlot
      have unpurged : ∀ t, t < slot → purged.entry t = (mmu.tlb isData).entry t := by
        intro t lower
        rw [entries, afterPurge_of_not_vacated (noRoom t (by omega))]
      constructor
      · intro lower
        refine ⟨victim, lower, Or.inr ⟨noBase, Or.inr ⟨noRoom, ?_, ?_⟩⟩⟩
        · rw [← replace]
          exact above
        · rw [← unpurged victim lower]
          exact cached
      · rintro ⟨t, lower, sameBase | ⟨-, unused | ⟨-, after, cacheToo⟩⟩⟩
        · exact absurd sameBase (noBase t (by omega))
        · exact absurd unused (noRoom t (by omega))
        · by_contra higher
          have skipped := none t (by rw [replace]; exact after) (by omega)
          rw [unpurged t lower] at skipped
          exact absurd (skipped.symm.trans cacheToo) (by decide)

end CopySlot

/-- The register in a slot meets the page of a new entry with another translation, and its copy goes
below. -/
def State.Shadowed (mmu : State) (isData : Bool) (slot : Nat) (entry : TlbEntry) : Prop :=
  ((mmu.tlb isData).entry slot).isTr = true ∧
    ((mmu.tlb isData).entry slot).overlaps (vaPageBase entry.va entry.ps) entry.ps entry.rid ∧
    ¬(((mmu.tlb isData).entry slot).pte = entry.pte ∧ ((mmu.tlb isData).entry slot).pa = entry.pa ∧
      ((mmu.tlb isData).entry slot).ps = entry.ps ∧ ((mmu.tlb isData).entry slot).key = entry.key) ∧
    mmu.CopyGoesBelow isData slot entry

theorem replaceTr_answers_iff (formed : mmu.WellFormed)
    (shape : entry.HasShift shift) (valid : entry.valid)
    (aligned : (entry.va &&& ~~~(entry.ps - 1)) = entry.va)
    (inside : slot < mmu.model.trCount isData)
    (elsewhere : mmu.RegistersElsewhere isData entry (some slot)) :
    (mmu.replaceTr isData slot entry).Answers isData entry ↔ ¬mmu.Shadowed isData slot entry := by
  have room := mmu.model.trCount_lt_tlbCapacity isData
  have purged := purgeTcEntries_spec isData entry.ps entry.rid mmu formed entry.va
  cases held : (((mmu.tlb isData).entry slot).valid && ((mmu.tlb isData).entry slot).isTr) with
  | false =>
    -- Nothing is copied.
    have replaced : Replaced isData slot entry mmu (mmu.replaceTr isData slot entry) none :=
      replaceTr_spec_fresh formed held
    have fresh : ∀ start ps rid, ((mmu.tlb isData).entry slot).isTr →
        ((mmu.tlb isData).entry slot).overlaps start ps rid = false := by
      intro start ps rid register
      have unused : ((mmu.tlb isData).entry slot).valid = false := by simpa [register] using held
      simp [overlaps, unused]
    refine ⟨fun _ shadowed => ?_, fun _ => ?_⟩
    · have apart := fresh (vaPageBase entry.va entry.ps) entry.ps entry.rid shadowed.1
      exact absurd (apart.symm.trans shadowed.2.1) (by decide)
    · refine replaceTr_answers formed shape valid elsewhere replaced (fun _ live register => ?_)
        fun t none => absurd none (by simp)
      rw [live, register] at held
      exact absurd held (by decide)
  | true =>
    rw [Bool.and_eq_true] at held
    obtain ⟨copy, replaced, chosen, uncopied⟩ := replaceTr_spec_held formed held.1 held.2
    have below := copySlot_below_iff formed (by omega) purged.entries purged.replace chosen
    refine ⟨fun answers shadowed => ?_, fun clear => ?_⟩
    · exact shadowed.2.2.1 (copy_answers formed shape elsewhere replaced uncopied answers
        (below.mpr shadowed.2.2.2) shadowed.2.1 aligned)
    · refine replaceTr_answers formed shape valid elsewhere replaced uncopied
        fun t same lower overlap => ?_
      by_contra differ
      cases same
      exact clear ⟨held.2, overlap, differ, below.mp lower⟩

theorem newEntry_aligned (mmu : State) (pte : Word) :
    ((mmu.newEntry pte).va &&& ~~~((mmu.newEntry pte).ps - 1)) = (mmu.newEntry pte).va := by
  show (_ &&& _) &&& _ = _ &&& _
  rw [BitVec.and_assoc]
  exact congrArg _ BitVec.and_self

/-- Completed insertions are visible: always for cache entries, for registers unless shadowed. -/
theorem insertion_visible_iff {model : CpuModel} {mmu : State}
    (reachable : Reachable model (fun _ => True) mmu) {pte : Word}
    (effective : ptePresent pte = true → ptePerm pte 0 ≠ .none) (isData : Bool) :
    (∀ after, mmu.itcInsert pte isData = .ok after →
      mmu.RegistersElsewhere isData (mmu.newEntry pte) none →
        after.Answers isData (mmu.newEntry pte)) ∧
    ∀ slotReg after, mmu.itrInsert pte slotReg isData = .ok after →
      mmu.RegistersElsewhere isData (mmu.newEntry pte) (some (slotReg &&& 0xff).toNat) →
      (after.Answers isData (mmu.newEntry pte) ↔
        ¬mmu.Shadowed isData (slotReg &&& 0xff).toNat (mmu.newEntry pte)) := by
  obtain ⟨formed, -⟩ := reachable.wellFormed
  refine ⟨fun after completes elsewhere => ?_, fun slotReg after completes elsewhere => ?_⟩
  · rcases itcInsert_cases with ⟨excp, faults⟩ | ⟨present, useless, -⟩ | ⟨fields, -, inserted⟩
    · rw [completes] at faults
      exact absurd faults (by simp)
    · exact absurd useless (effective present)
    · rw [completes, Except.ok.injEq] at inserted
      rw [inserted]
      exact insertTc_answers formed (newEntry_hasShift fields) rfl elsewhere
  · rcases itrInsert_cases slotReg with ⟨excp, faults⟩ | ⟨present, useless, -⟩ |
      ⟨fields, inside, -, filled⟩
    · rw [completes] at faults
      exact absurd faults (by simp)
    · exact absurd useless (effective present)
    · rw [completes, Except.ok.injEq] at filled
      rw [filled]
      have shape := newEntry_hasShift fields
      have aligned := newEntry_aligned mmu pte
      have valid : (mmu.newEntry pte).valid = true := rfl
      generalize mmu.newEntry pte = entry at shape aligned valid elsewhere
      generalize (slotReg &&& 0xff).toNat = slot at inside elsewhere
      have registerShape : TlbEntry.HasShift { entry with isTr := true, slot := slot } _ := shape
      have visible := replaceTr_answers_iff formed registerShape valid aligned inside elsewhere
      unfold State.Answers State.Shadowed at visible ⊢
      exact visible

theorem registersElsewhere_of_single (formed : mmu.WellFormed)
    (single : ∀ i < mmu.model.trCount isData, ((mmu.tlb isData).entry i).valid →
      ((mmu.tlb isData).entry i).isTr → i = slot) (entry : TlbEntry) :
    mmu.RegistersElsewhere isData entry (some slot) := by
  intro i other register
  cases valid : ((mmu.tlb isData).entry i).valid with
  | false => simp [overlaps, valid]
  | true =>
    have here := single i ((formed.tlbs isData).registers i valid register) valid register
    exact absurd (congrArg some here.symm) other

/-- A unit with a translation register in slot zero and a cache entry for the same page above it. -/
def heldRegister : State :=
  runFrom .montecito [insertionRegisters, .itr 0x10461 0 true, .itc 0x20461 true]

/-- Filling the held slot again removes the cache entry, and the copy of the old translation goes
above. -/
theorem insertion_visible_held :
    ((heldRegister.tlb true).entry 0).pte = 0x10461 ∧
      ((heldRegister.tlb true).entry 1).pte = 0x20461 ∧
      ((heldRegister.tlb true).entry 1).va = (heldRegister.newEntry 0x30461).va ∧
      ∃ after, heldRegister.itrInsert 0x30461 0 true = .ok after ∧
        after.Answers true (heldRegister.newEntry 0x30461) := by
  have reachable : Reachable .montecito (fun _ => True) heldRegister :=
    Reachable.run (.start trivial) ⟨trivial, trivial, trivial, trivial⟩
  have elsewhere : heldRegister.RegistersElsewhere true (heldRegister.newEntry 0x30461) (some 0) :=
    registersElsewhere_of_single (runFrom_wellFormed _ _) (by decide +kernel) _
  obtain ⟨after, completes⟩ : ∃ after, heldRegister.itrInsert 0x30461 0 true = .ok after := by
    have completes : (heldRegister.itrInsert 0x30461 0 true).toOption.isSome = true := by
      decide +kernel
    cases outcome : heldRegister.itrInsert 0x30461 0 true with
    | ok after => exact ⟨after, rfl⟩
    | error fault => rw [outcome] at completes; cases completes
  refine ⟨by decide +kernel, by decide +kernel, by decide +kernel, after, completes, ?_⟩
  refine ((insertion_visible_iff reachable (by decide) true).2 0 after completes elsewhere).mpr ?_
  rintro ⟨-, -, -, t, below, -⟩
  exact absurd below (Nat.not_lt_zero t)

/-- A unit with one translation register, in slot one. -/
def oneRegister : State := runFrom .montecito [insertionRegisters, .itr 0x10461 1 true]

/-- A second insertion into the slot leaves the old translation in slot zero, where the lookup finds
it. -/
theorem insertion_shadowed :
    Reachable .montecito (fun _ => True) oneRegister ∧ oneRegister.RegistersApart ∧
      oneRegister.RegistersElsewhere true (oneRegister.newEntry 0x20461) (some 1) ∧
      ∃ after, oneRegister.itrInsert 0x20461 1 true = .ok after ∧
        ¬after.Answers true (oneRegister.newEntry 0x20461) := by
  have formed : oneRegister.WellFormed := runFrom_wellFormed _ _
  have single : ∀ isData, ∀ i < oneRegister.model.trCount isData,
      ((oneRegister.tlb isData).entry i).valid = true →
      ((oneRegister.tlb isData).entry i).isTr = true → i = 1 := by
    decide +kernel
  refine ⟨Reachable.run (.start trivial) ⟨trivial, trivial, trivial⟩,
    registersApart_of_single formed 1 single, registersElsewhere_of_single formed (single true) _,
    oneRegister.replaceTr true 1 { oneRegister.newEntry 0x20461 with isTr := true, slot := 1 }, ?_,
    fun answers => ?_⟩
  · rcases itrInsert_cases 1 with ⟨excp, faults⟩ | ⟨-, useless, -⟩ | ⟨-, -, -, filled⟩
    · have completes : (oneRegister.itrInsert 0x20461 1 true).toOption.isSome = true := by
        decide +kernel
      rw [faults] at completes
      exact absurd completes (by simp [Except.toOption])
    · exact absurd useless (by decide)
    · rw [show ((1 : Word) &&& 0xff).toNat = 1 from by decide] at filled
      exact filled
  · have answer : ((oneRegister.replaceTr true 1
        { oneRegister.newEntry 0x20461 with isTr := true, slot := 1 }).tlbFindSlow 0x4000
          (oneRegister.newEntry 0x20461).rid (!true)).1.map TlbEntry.pte = some 0x10461 := by
      decide +kernel
    obtain ⟨found, same, pte, -⟩ := answers 0x4000 (by decide +kernel)
    rw [same, Option.map_some, pte] at answer
    exact absurd answer (by decide +kernel)

end Ia64.Mmu
