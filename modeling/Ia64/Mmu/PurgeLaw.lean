import Ia64.Mmu.Holders
import Ia64.Mmu.PendingPurges
import Ia64.Mmu.RemotePurge

/-! Purges that are followed by a serialization: what they take away and what they leave. -/

namespace Ia64.Mmu

open Pages Sweep State TlbEntry

/-- The instructions that purge translations. -/
inductive PurgeKind where
  | ptc (mode : PtcMode)
  | ptr (isData : Bool)
deriving DecidableEq, Repr

namespace PurgeKind

/-- Whether a purge keeps translation registers. -/
def tcOnly : PurgeKind → Bool
  | .ptc _ => true
  | .ptr _ => false

/-- Whether a purge acts on one of the TLBs. -/
def applies : PurgeKind → Bool → Bool
  | .ptc _, _ => true
  | .ptr side, isData => side == isData

variable (kind : PurgeKind) (va ps : Word) (rid : BitVec 32)

/-- The addresses of a region that a purge is for: a page, or everything. -/
def InRange (x : Word) (region : BitVec 32) : Prop :=
  kind = .ptc .everything ∨ region = rid ∧ vaPageBase x ps = vaPageBase va ps

/-- Whether an entry meets the purged range, by the test of the source. -/
def meets (entry : TlbEntry) : Bool :=
  if kind = .ptc .everything then entry.valid else entry.overlaps (vaPageBase va ps) ps rid

/-- The entries a purge is for. -/
def targets (entry : TlbEntry) : Bool :=
  (!kind.tcOnly || !entry.isTr) && kind.meets va ps rid entry

/-- The entries a purge must leave: those off its range, and translation registers if it keeps
them. -/
def Spares (entry : TlbEntry) : Prop :=
  (∀ x region, kind.InRange va ps rid x region → entry.covers x region = false) ∨
    kind.tcOnly ∧ entry.isTr

end PurgeKind

/-- A purge by its instruction. -/
def State.purge (mmu : State) (kind : PurgeKind) (va sizeReg : Word) : Except Excp State :=
  match kind with
  | .ptc mode => mmu.ptcPurge va sizeReg mode
  | .ptr isData => mmu.ptrPurge va sizeReg isData

/-- The addresses of an entry are still found, in an entry that translated them before. -/
def State.StillFinds (before after : State) (isData : Bool) (entry : TlbEntry) : Prop :=
  ∀ x, entry.covers x entry.rid → ∃ found,
    (after.tlbFindCached x entry.rid (!isData)).1 = some found ∧
    before.Holds isData found ∧ found.covers x entry.rid ∧
    -- Where no other translation of the address was around, the contents are the same.
    ((∀ other, before.Holds isData other → other.covers x entry.rid → other.equivalent entry) →
      found.equivalent entry)

section Range

variable {kind : PurgeKind} {va sizeReg : Word} {rid : BitVec 32} {entry : TlbEntry}

/-- The size of the range that an operand of a purge asks for. -/
abbrev rangeSize (sizeReg : Word) : Word := pageSizeFromShift (itirPs sizeReg)

theorem rangeSize_eq (sizeReg : Word) :
    ∃ size, size < 64 ∧ rangeSize sizeReg = pageSize 64 size := by
  have bound : itirPs sizeReg < 64 := BitVec.isLt _
  refine ⟨if itirPs sizeReg < 12 then 12 else itirPs sizeReg, ?_, rfl⟩
  split <;> omega

theorem vaPageBase_eq_iff {size : Nat} (narrow : size < 64) (x y : Word) :
    vaPageBase x (pageSize 64 size) = vaPageBase y (pageSize 64 size) ↔ SamePage size 61 x y := by
  constructor
  · intro same
    exact (vaPageBase_samePage narrow x).symm.trans (same ▸ vaPageBase_samePage narrow y)
  · intro same
    -- Bit by bit: the mask selects what the page is made of.
    apply BitVec.eq_of_getLsbD_eq
    intro i _
    rw [vaPageBase, vaPageBase, BitVec.getLsbD_and, BitVec.getLsbD_and, getLsbD_vaVpnMask narrow]
    by_cases inside : size ≤ i ∧ i < 61
    · rw [same i inside.1 inside.2]
    · simp [inside]

theorem meets_of_covers (sized : entry.Sized) {x : Word} {region : BitVec 32}
    (inside : kind.InRange va (rangeSize sizeReg) rid x region)
    (covered : entry.covers x region) :
    kind.meets va (rangeSize sizeReg) rid entry := by
  obtain ⟨shift, shape⟩ := sized
  obtain ⟨size, narrow, sizeEq⟩ := rangeSize_eq sizeReg
  unfold PurgeKind.meets
  split
  · exact valid_of_covers covered
  · rename_i bounded
    rcases inside with everything | ⟨rfl, same⟩
    · exact absurd everything bounded
    · rw [sizeEq] at same ⊢
      exact overlaps_of_covers shape narrow covered ((vaPageBase_eq_iff narrow x va).mp same)

theorem exists_covers_of_meets (sized : entry.Sized)
    (meets : kind.meets va (rangeSize sizeReg) rid entry) :
    ∃ x region, kind.InRange va (rangeSize sizeReg) rid x region ∧
      entry.covers x region := by
  obtain ⟨shift, shape⟩ := sized
  obtain ⟨size, narrow, sizeEq⟩ := rangeSize_eq sizeReg
  unfold PurgeKind.meets at meets
  split at meets
  · -- An entry covers its own address.
    rename_i everything
    refine ⟨entry.va, entry.rid, Or.inl everything, ?_⟩
    simp [TlbEntry.covers, meets]
  · rw [sizeEq] at meets ⊢
    obtain ⟨x, inside, covered⟩ := exists_covers_of_overlaps shape narrow meets
    exact ⟨x, rid, Or.inr ⟨rfl, (vaPageBase_eq_iff narrow x va).mpr inside⟩, covered⟩

theorem targets_of_spares (sized : entry.Sized)
    (spares : kind.Spares va (rangeSize sizeReg) rid entry) :
    kind.targets va (rangeSize sizeReg) rid entry = false := by
  rcases spares with off | ⟨tcOnly, register⟩
  · have apart : kind.meets va (rangeSize sizeReg) rid entry = false := by
      by_contra meets
      obtain ⟨x, region, inside, covered⟩ := exists_covers_of_meets sized (by simpa using meets)
      exact absurd ((off x region inside).symm.trans covered) (by decide)
    simp [PurgeKind.targets, apart]
  · simp [PurgeKind.targets, tcOnly, register]

theorem meets_of_equivalent {a b : TlbEntry} (ps : Word) (alike : a.equivalent b) :
    kind.meets va ps rid a = kind.meets va ps rid b := by
  have valid : a.valid ∧ b.valid := by
    simp only [TlbEntry.equivalent, Bool.and_eq_true] at alike
    exact ⟨alike.1.1.1.1.1.1.1, alike.1.1.1.1.1.1.2⟩
  unfold PurgeKind.meets
  split
  · rw [valid.1, valid.2]
  · exact overlaps_of_equivalent alike _ ps rid

end Range

/-- What a purge does before it is serialized. -/
structure PurgeMarks (kind : PurgeKind) (va ps : Word) (rid : BitVec 32)
    (before after : State) : Prop where
  tlb : ∀ isData, after.tlb isData =
    if kind.applies isData then (before.tlb isData).markSweep (kind.targets va ps rid)
      else before.tlb isData
  /-- First-level entries the purge is for are gone. -/
  copies : ∀ j, (after.l1.entry j).valid → after.l1.entry j = before.l1.entry j ∧
    (kind.applies true → kind.targets va ps rid (before.l1.entry j) = false)
  /-- First-level entries off the range stay. -/
  kept : ∀ j, kind.meets va ps rid (before.l1.entry j) = false →
    after.l1.entry j = before.l1.entry j
  model : after.model = before.model
  formed : after.WellFormed
  accounted : after.Accounted

section Marks

variable {mmu : State} (formed : mmu.WellFormed) (accounted : mmu.Accounted)

/-- A purge of a range drops the copies it is for. -/
theorem dtlb1PurgeRange_copies (formed : mmu.WellFormed) (va ps : Word) (rid : BitVec 32)
    (tcOnly : Bool) (j : Nat) :
    (((mmu.dtlb1PurgeRange va ps rid tcOnly).l1.entry j).valid →
        (mmu.dtlb1PurgeRange va ps rid tcOnly).l1.entry j = mmu.l1.entry j ∧
        ((!tcOnly || !(mmu.l1.entry j).isTr) &&
          (mmu.l1.entry j).overlaps (vaPageBase va ps) ps rid) = false) ∧
      ((mmu.l1.entry j).overlaps (vaPageBase va ps) ps rid = false →
        (mmu.dtlb1PurgeRange va ps rid tcOnly).l1.entry j = mmu.l1.entry j) := by
  rw [dtlb1PurgeRange_entry]
  refine ⟨fun valid => ?_, fun apart => ?_⟩
  · split at valid
    · exact absurd valid (by simp)
    · rename_i kept
      rw [if_neg kept]
      -- Valid first-level entries are where the loop looks.
      obtain ⟨enabled, inside, -, -⟩ := formed.copies j valid
      exact ⟨rfl, by simpa [enabled, inside] using kept⟩
  · rw [if_neg]
    rintro ⟨-, -, dropped⟩
    rw [apart, Bool.and_false] at dropped
    exact absurd dropped (by decide)

variable {kind : PurgeKind} {va base ps : Word}

theorem targets_eq (bounded : kind ≠ .ptc .everything)
    (same : vaPageBase base ps = vaPageBase va ps) (rid : BitVec 32) : kind.targets va ps rid =
      fun entry => (!kind.tcOnly || !entry.isTr) && entry.overlaps (vaPageBase base ps) ps rid := by
  funext entry
  rw [PurgeKind.targets, PurgeKind.meets, if_neg bounded, same]

include formed accounted in
/-- A purge of a page from both TLBs. -/
theorem ptcMark_marks {mode : PtcMode} (bounded : mode ≠ .everything) (rid : BitVec 32)
    (same : vaPageBase base ps = vaPageBase va ps) :
    PurgeMarks (.ptc mode) va ps rid mmu (mmu.ptcMark base ps rid) := by
  have test : (PurgeKind.ptc mode).targets va ps rid =
      fun entry => (!true || !entry.isTr) && entry.overlaps (vaPageBase base ps) ps rid :=
    targets_eq (by simpa using bounded) same rid
  have copies := dtlb1PurgeRange_copies formed base ps rid true
  have changes : Changes False mmu (mmu.ptcMark base ps rid) := ptcMark_changes mmu base ps rid
  refine ⟨fun isData => ?_, fun j valid => ?_, fun j apart => ?_, Changes.model changes,
    Changes.wellFormed changes formed, accounted.ptcMark base ps rid⟩
  · rw [ptcMark_tlb, test, Tlb.markPendingPurgeEntries_eq]
    exact (if_pos rfl).symm
  · obtain ⟨kept, missed⟩ := (copies j).1 valid
    exact ⟨kept, fun _ => (congrFun test _).trans missed⟩
  · rw [PurgeKind.meets, if_neg (by simpa using bounded), ← same] at apart
    exact (copies j).2 apart

theorem markPendingPurgeAllTcEnv_tlb (mmu : State) (isData : Bool) :
    mmu.markPendingPurgeAllTcEnv.tlb isData = (mmu.tlb isData).markPendingPurgeAllTc := by
  set marked : State := { mmu with data := mmu.data.markPendingPurgeAllTc } with markedDef
  have same := (sheds_dtlb1Empty marked).same
  cases isData
  · exact congrArg Tlb.markPendingPurgeAllTc (same.tlb false)
  · exact same.tlb true

theorem dtlb1Empty_entry (bound : Nat) (mmu : State) (j : Nat) :
    (sweep bound State.dtlb1InvalidateSlot mmu).l1.entry j =
      if j < bound then { mmu.l1.entry j with valid := false } else mmu.l1.entry j := by
  have swept := dtlb1Sweep_entry (fun _ => true) bound mmu j
  simp only [if_true, and_true] at swept
  exact swept

theorem markPendingPurgeAllTcEnv_copy (mmu : State) (j : Nat) :
    mmu.markPendingPurgeAllTcEnv.l1.entry j =
      if mmu.dtlb1Enabled = true ∧ j < dtlb1Max then { mmu.l1.entry j with valid := false }
      else mmu.l1.entry j := by
  set marked : State := { mmu with data := mmu.data.markPendingPurgeAllTc } with markedDef
  have swept := dtlb1Empty_entry dtlb1Max marked j
  show (if marked.dtlb1Enabled then sweep dtlb1Max dtlb1InvalidateSlot marked
    else marked).l1.entry j = _
  rw [show marked.dtlb1Enabled = mmu.dtlb1Enabled from rfl]
  by_cases enabled : mmu.dtlb1Enabled
  · rw [if_pos enabled, swept]
    simp only [enabled, true_and]
    rfl
  · rw [if_neg enabled, if_neg fun both => enabled both.1]

include formed accounted in
/-- A purge of every cache entry. -/
theorem markPendingPurgeAllTcEnv_marks (va ps : Word) (rid : BitVec 32) :
    PurgeMarks (.ptc .everything) va ps rid mmu mmu.markPendingPurgeAllTcEnv := by
  have test : (PurgeKind.ptc .everything).targets va ps rid = TlbEntry.isTc := by
    funext entry
    simp [PurgeKind.targets, PurgeKind.meets, PurgeKind.tcOnly, TlbEntry.isTc, Bool.and_comm]
  have changes : Changes False mmu mmu.markPendingPurgeAllTcEnv :=
    markPendingPurgeAllTcEnv_changes mmu
  refine ⟨fun isData => ?_, fun j valid => ?_, fun j apart => ?_, Changes.model changes,
    Changes.wellFormed changes formed, accounted.markPendingPurgeAllTcEnv⟩
  · rw [test, markPendingPurgeAllTcEnv_tlb]
    exact (if_pos rfl).symm
  · rw [markPendingPurgeAllTcEnv_copy] at valid ⊢
    split at valid
    · exact absurd valid (by simp)
    · -- Without a first level there is no valid entry in it.
      rename_i outside
      obtain ⟨enabled, inside, -, -⟩ := formed.copies j valid
      exact absurd ⟨enabled, inside⟩ outside
  · rw [PurgeKind.meets, if_pos rfl] at apart
    rw [markPendingPurgeAllTcEnv_copy]
    split
    · cases stored : mmu.l1.entry j
      simp_all
    · rfl

include formed accounted in
/-- A purge of a range of one TLB. -/
theorem ptrPurge_marks (isData : Bool) (rid : BitVec 32)
    (same : vaPageBase base ps = vaPageBase va ps) :
    PurgeMarks (.ptr isData) va ps rid mmu
      (if isData then (mmu.setTlb isData ((mmu.tlb isData).markPendingPurgeEntries base ps rid
          false)).dtlb1PurgeRange base ps rid false
        else mmu.setTlb isData ((mmu.tlb isData).markPendingPurgeEntries base ps rid false)) := by
  have test : (PurgeKind.ptr isData).targets va ps rid =
      fun entry => (!false || !entry.isTr) && entry.overlaps (vaPageBase base ps) ps rid :=
    targets_eq (by simp) same rid
  have changes : Changes False mmu _ := ptrMark_changes mmu isData base ps rid
  have marked :
      (mmu.setTlb isData ((mmu.tlb isData).markPendingPurgeEntries base ps rid false)).Accounted :=
    accounted.setTlb ((accounted isData).markPendingPurgeEntries base ps rid false)
  have formedMarked : (mmu.setTlb isData
      ((mmu.tlb isData).markPendingPurgeEntries base ps rid false)).WellFormed := by
    have change : Change False mmu _ :=
      .quiet mmu isData
        ((marked_markPendingPurgeEntries (mmu.tlb isData) base ps rid false).quiet _)
    exact change.wellFormed formed
  refine ⟨fun side => ?_, fun j valid => ?_, fun j apart => ?_, Changes.model changes,
    Changes.wellFormed changes formed, ?_⟩
  · rw [test, ← Tlb.markPendingPurgeEntries_eq]
    rw [((sheds_dtlb1PurgeRange (mmu.setTlb isData
      ((mmu.tlb isData).markPendingPurgeEntries base ps rid false)) base ps rid false).ite
        _).same.tlb side]
    by_cases here : side = isData
    · rw [here, setTlb_tlb, PurgeKind.applies, if_pos (by simp)]
    · rw [PurgeKind.applies, if_neg (by simpa using fun eq => here (Eq.symm eq))]
      rw [show side = !isData by cases side <;> cases isData <;> simp_all, setTlb_tlb_not]
  · cases isData with
    | false => exact ⟨rfl, fun data => absurd data (by decide)⟩
    | true =>
      obtain ⟨kept, missed⟩ := (dtlb1PurgeRange_copies formedMarked base ps rid false j).1 valid
      exact ⟨kept, fun _ => (congrFun test _).trans missed⟩
  · rw [PurgeKind.meets, if_neg (by simp), ← same] at apart
    cases isData with
    | false => rfl
    | true => exact (dtlb1PurgeRange_copies formedMarked base ps rid false j).2 apart
  · exact marked.shed ((sheds_dtlb1PurgeRange _ _ _ _ _).ite _)

include formed accounted in
/-- Every purge that completes marks what it is for. -/
theorem purge_marks {sizeReg : Word} {purged : State}
    (completes : mmu.purge kind va sizeReg = .ok purged) :
    PurgeMarks kind va (rangeSize sizeReg) (mmu.regionRid va) mmu purged := by
  obtain ⟨size, narrow, sizeEq⟩ := rangeSize_eq sizeReg
  -- Clearing the offset of the operand does not change its page.
  have aligned : vaPageBase (va &&& ~~~(rangeSize sizeReg - 1))
      (rangeSize sizeReg) = vaPageBase va (rangeSize sizeReg) := by
    rw [sizeEq, vaPageBase_eq_iff narrow]
    exact clearOffset_samePage narrow va
  cases kind with
  | ptc mode =>
    simp only [State.purge, ptcPurge] at completes
    split_ifs at completes
    cases mode with
    | «local» =>
      cases completes
      exact ptcMark_marks formed accounted (by decide) _ rfl
    | «global» =>
      cases completes
      exact ptcMark_marks formed accounted (by decide) _ aligned
    | globalAlat =>
      cases completes
      exact ptcMark_marks formed accounted (by decide) _ aligned
    | everything =>
      cases completes
      exact markPendingPurgeAllTcEnv_marks formed accounted va _ _
  | ptr isData =>
    simp only [State.purge, ptrPurge] at completes
    split_ifs at completes <;> cases completes
    · rename_i data
      have marks := ptrPurge_marks formed accounted isData (mmu.regionRid va) aligned
      rwa [if_pos data] at marks
    · rename_i inst
      have marks := ptrPurge_marks formed accounted isData (mmu.regionRid va) aligned
      rwa [if_neg inst] at marks

end Marks

section Serialized

variable {mmu : State}

theorem tlbSerialize_entry_accounted (accounted : mmu.Accounted) (isData : Bool) (i : Nat) :
    ((mmu.tlbSerialize true true).tlb isData).entry i =
      if (((mmu.tlb isData).entry i).valid && ((mmu.tlb isData).entry i).pendingPurge) = true then
        ((mmu.tlb isData).entry i).retired
      else (mmu.tlb isData).entry i := by
  rw [tlbSerialize_entry]
  refine if_congr ⟨fun waits => waits.2.2, fun waits => ⟨?_, ?_, waits⟩⟩ rfl rfl
  · have positive := (accounted isData).counts.pos (Bool.and_eq_true_iff.mp waits).2
    omega
  · by_contra beyond
    have unused := (accounted isData).unused i (by omega)
    rw [unused, Bool.false_and] at waits
    exact absurd waits (by decide)

/-- A completion only drops first-level entries. -/
theorem completePendingPurges_copies_valid (isIfetch targeted : Bool) (j : Nat)
    (valid : ((mmu.completePendingPurges isIfetch targeted).l1.entry j).valid) :
    (mmu.completePendingPurges isIfetch targeted).l1.entry j = mmu.l1.entry j := by
  simp only [completePendingPurges, setTlb_l1] at valid ⊢
  refine sweep_invariant (P := fun current : State => (current.l1.entry j).valid = true →
    current.l1.entry j = mmu.l1.entry j) (fun _ => rfl) (fun i _ current kept live => ?_) valid
  simp only [completeVisit] at live ⊢
  split at live
  · rename_i waits
    rw [if_pos waits]
    rw [setTlb_l1] at live ⊢
    have same :=
      (sheds_completeFlush isIfetch targeted current ((current.tlb !isIfetch).entry i)).copies j
        live
    rw [same] at live ⊢
    exact kept live
  · rename_i idle
    rw [if_neg idle]
    exact kept live

/-- A serialization only drops first-level entries. -/
theorem tlbSerialize_copies_valid (j : Nat)
    (valid : ((mmu.tlbSerialize true true).l1.entry j).valid) :
    (mmu.tlbSerialize true true).l1.entry j = mmu.l1.entry j := by
  obtain ⟨targeted, flushes, serialized⟩ := tlbSerialize_eq mmu
  rw [serialized] at valid ⊢
  have side : ∀ (current : State) (isIfetch : Bool),
      ((current.serializeSide isIfetch targeted).l1.entry j).valid →
      (current.serializeSide isIfetch targeted).l1.entry j = current.l1.entry j := by
    intro current isIfetch live
    unfold serializeSide at live ⊢
    split at live
    · rename_i waits
      rw [if_pos waits]
      exact completePendingPurges_copies_valid isIfetch targeted j live
    · rename_i idle
      rw [if_neg idle]
  have inst := side _ true valid
  dsimp only at valid ⊢
  rw [inst] at valid ⊢
  exact side _ false valid

end Serialized

section Law

variable {mmu purged : State} {kind : PurgeKind} {va ps sizeReg : Word} {rid : BitVec 32}
  {isData : Bool} {entry : TlbEntry} {i : Nat}

section

variable (formed : mmu.WellFormed)

include formed

theorem State.Holds.sized (held : mmu.Holds isData entry) (valid : entry.valid) : entry.Sized := by
  rcases held with ⟨i, -, rfl⟩ | ⟨-, -, j, -, rfl⟩
  · exact (formed.tlbs isData).sized i valid
  · obtain ⟨-, -, sized, -⟩ := formed.copies j valid
    exact sized

theorem holds_of_valid (valid : ((mmu.tlb isData).entry i).valid) :
    mmu.Holds isData ((mmu.tlb isData).entry i) :=
  Or.inl ⟨i, (formed.tlbs isData).used valid, rfl⟩

theorem unmarked_entry (marks : PurgeMarks kind va ps rid mmu purged)
    (valid : ((purged.tlb isData).entry i).valid)
    (unmarked : ((purged.tlb isData).entry i).pendingPurge = false) :
    (purged.tlb isData).entry i = (mmu.tlb isData).entry i ∧
      (kind.applies isData →
        kind.targets va ps rid ((mmu.tlb isData).entry i) = false) := by
  rw [marks.tlb] at valid unmarked ⊢
  by_cases applies : kind.applies isData
  · rw [if_pos applies, Tlb.markSweep_entry] at valid unmarked ⊢
    split at unmarked
    · exact absurd unmarked (by simp)
    · rename_i missed
      rw [if_neg missed] at valid ⊢
      refine ⟨rfl, fun _ => ?_⟩
      -- A slot in use is one the loop visits.
      by_contra target
      exact missed ⟨(formed.tlbs isData).used valid, by simpa using target⟩
  · rw [if_neg applies]
    exact ⟨rfl, fun yes => absurd yes applies⟩

theorem holds_before (marks : PurgeMarks kind va ps rid mmu purged)
    (held : (purged.tlbSerialize true true).Holds isData entry)
    (valid : entry.valid) :
    mmu.Holds isData entry ∧ (kind.applies isData →
      kind.targets va ps rid entry = false) := by
  rcases held with ⟨i, -, rfl⟩ | ⟨data, -, j, -, rfl⟩
  · rw [tlbSerialize_entry_accounted marks.accounted] at valid ⊢
    split at valid
    · exact absurd valid (by simp [retired])
    · rename_i waits
      rw [if_neg waits]
      have unmarked : ((purged.tlb isData).entry i).pendingPurge = false := by
        simpa [valid] using waits
      obtain ⟨same, missed⟩ := unmarked_entry formed marks valid unmarked
      rw [same] at valid ⊢
      exact ⟨holds_of_valid formed valid, missed⟩
  · have serialized := tlbSerialize_copies_valid j valid
    rw [serialized] at valid ⊢
    obtain ⟨same, missed⟩ := marks.copies j valid
    rw [same] at valid ⊢
    obtain ⟨enabled, inside, -, -⟩ := formed.copies j valid
    subst data
    exact ⟨Or.inr ⟨rfl, enabled, j, inside, rfl⟩, missed⟩

/-- A spared entry that does not wait stays. -/
theorem spared_entry (marks : PurgeMarks kind va (rangeSize sizeReg) rid mmu purged)
    (valid : ((mmu.tlb isData).entry i).valid)
    (unmarked : ((mmu.tlb isData).entry i).pendingPurge = false)
    (spares : kind.Spares va (rangeSize sizeReg) rid ((mmu.tlb isData).entry i)) :
    ((purged.tlbSerialize true true).tlb isData).entry i = (mmu.tlb isData).entry i := by
  have missed := targets_of_spares ((formed.tlbs isData).sized i valid) spares
  have kept : (purged.tlb isData).entry i = (mmu.tlb isData).entry i := by
    rw [marks.tlb]
    split
    · rw [Tlb.markSweep_entry, if_neg]
      rintro ⟨-, target⟩
      exact absurd (missed.symm.trans target) (by decide)
    · rfl
  rw [tlbSerialize_entry_accounted marks.accounted, kept, if_neg]
  simp [unmarked]

end

theorem PurgeMarks.serialized (marks : PurgeMarks kind va ps rid mmu purged) :
    (purged.tlbSerialize true true).WellFormed := by
  have keeps : Keeps False purged (purged.tlbSerialize true true) :=
    tlbSerialize_keeps marks.formed true true
  exact keeps.formed

/-- What something held covers is still found. -/
theorem stillFinds_of_holds (formed : mmu.WellFormed)
    (marks : PurgeMarks kind va ps rid mmu purged)
    (holder : TlbEntry) (held : (purged.tlbSerialize true true).Holds isData holder)
    (covers : ∀ x, entry.covers x entry.rid → holder.covers x entry.rid) :
    mmu.StillFinds (purged.tlbSerialize true true) isData entry := by
  have shape := marks.serialized
  intro x covered
  cases answer : ((purged.tlbSerialize true true).tlbFindCached x entry.rid (!isData)).1 with
  | none =>
    have missed := (tlbFindCached_spec shape).2 answer holder (by rw [Bool.not_not]; exact held)
    exact absurd ((covers x covered).symm.trans missed) (by decide)
  | some found =>
    obtain ⟨still, foundCovers⟩ := (tlbFindCached_spec shape).1 found answer
    rw [Bool.not_not] at still
    have before := (holds_before formed marks still (valid_of_covers foundCovers)).1
    exact ⟨found, rfl, before, foundCovers, fun alone => alone found before foundCovers⟩

theorem covers_of_equivalent {a b : TlbEntry} (alike : a.equivalent b) (x : Word)
    (region : BitVec 32) : a.covers x region = b.covers x region := by
  simp only [TlbEntry.equivalent, Bool.and_eq_true, beq_iff_eq] at alike
  obtain ⟨⟨⟨⟨⟨⟨⟨validA, validB⟩, base⟩, -⟩, size⟩, -⟩, region⟩, -⟩ := alike
  simp only [TlbEntry.covers, pageMask, validA, validB, base, size, region]

/-- A spared copy is found, or the register it copies. -/
theorem spared_copy (formed : mmu.WellFormed)
    (marks : PurgeMarks kind va (rangeSize sizeReg) rid mmu purged) {j : Nat}
    (valid : (mmu.l1.entry j).valid)
    (settled : ∀ i, (mmu.data.entry i).pendingPurge →
      (mmu.l1.entry j).equivalent (mmu.data.entry i) = false)
    (spares : kind.Spares va (rangeSize sizeReg) rid (mmu.l1.entry j)) :
    mmu.StillFinds (purged.tlbSerialize true true) true (mmu.l1.entry j) := by
  obtain ⟨enabled, inside, sized, backed⟩ := formed.copies j valid
  have shape := marks.serialized
  cases meets : kind.meets va (rangeSize sizeReg) rid (mmu.l1.entry j) with
  | true =>
    -- Only a register may be spared in the range, and its source stays in the main TLB.
    have missed := targets_of_spares sized spares
    simp only [PurgeKind.targets, meets, Bool.and_true, Bool.or_eq_false_iff, Bool.not_eq_eq_eq_not,
      Bool.not_false] at missed
    obtain ⟨i, live, register, alike⟩ := backed missed.2
    have unmarked : (mmu.data.entry i).pendingPurge = false := by
      by_contra waits
      exact absurd ((settled i (by simpa using waits)).symm.trans alike) (by decide)
    have kept : ((purged.tlbSerialize true true).tlb true).entry i = mmu.data.entry i :=
      spared_entry formed marks live unmarked (Or.inr ⟨missed.1, register⟩)
    refine stillFinds_of_holds formed marks (mmu.data.entry i) ?_ fun x covered => ?_
    · have held : (purged.tlbSerialize true true).Holds true
          (((purged.tlbSerialize true true).tlb true).entry i) :=
        holds_of_valid shape (by rw [kept]; exact live)
      rwa [kept] at held
    · rwa [← covers_of_equivalent alike]
  | false =>
    -- The entry stays in the first level: nothing equivalent to it is purged.
    have same := marks.kept j meets
    have unlike : ∀ i, (purged.data.entry i).valid → (purged.data.entry i).pendingPurge →
        (purged.l1.entry j).equivalent (purged.data.entry i) = false := by
      intro i live waits
      rw [same]
      by_contra alike
      simp only [Bool.not_eq_false] at alike
      rw [show purged.data = _ from marks.tlb true] at waits alike
      split at waits
      · rename_i applies
        rw [if_pos applies] at alike
        rw [Tlb.markSweep_entry] at waits alike
        split at waits
        · rename_i target
          rw [if_pos target] at alike
          have touching : kind.meets va (rangeSize sizeReg) rid ((mmu.tlb true).entry i) := by
            have both := target.2
            simp only [PurgeKind.targets, Bool.and_eq_true] at both
            exact both.2
          have alikeBefore : (mmu.l1.entry j).equivalent ((mmu.tlb true).entry i) := alike
          rw [meets_of_equivalent _ alikeBefore, touching] at meets
          exact absurd meets (by decide)
        · rename_i missed
          rw [if_neg missed] at alike
          exact absurd ((settled i waits).symm.trans alike) (by decide)
      · rename_i elsewhere
        rw [if_neg elsewhere] at alike
        exact absurd ((settled i waits).symm.trans alike) (by decide)
    have kept : (purged.tlbSerialize true true).l1.entry j = mmu.l1.entry j :=
      (tlbSerialize_copy fun i _ _ live waits => unlike i live waits).trans same
    refine stillFinds_of_holds formed marks (mmu.l1.entry j) ?_ fun x covered => covered
    have live : ((purged.tlbSerialize true true).l1.entry j).valid := by rw [kept]; exact valid
    obtain ⟨stillEnabled, -, -, -⟩ := shape.copies j live
    exact Or.inr ⟨rfl, stillEnabled, j, inside, kept⟩

/-- A purge and a serialization take away what the purge is for, and leave what it spares and did
not wait. -/
theorem purge_law {model : CpuModel} (reachable : Reachable model (fun _ => True) mmu)
    (completes : mmu.purge kind va sizeReg = .ok purged) :
    let ps := pageSizeFromShift (itirPs sizeReg)
    let after := purged.tlbSerialize true true
    (∀ isData x region, kind.applies isData = true →
      kind.InRange va ps (mmu.regionRid va) x region →
      (∀ entry, after.Holds isData entry → entry.covers x region = true →
          kind.tcOnly = true ∧ entry.isTr = true) ∧
        ∀ entry, (after.tlbFindCached x region (!isData)).1 = some entry →
          kind.tcOnly = true ∧ entry.isTr = true) ∧
      (∀ isData i, ((mmu.tlb isData).entry i).valid = true →
        ((mmu.tlb isData).entry i).pendingPurge = false →
        kind.Spares va ps (mmu.regionRid va) ((mmu.tlb isData).entry i) →
        (after.tlb isData).entry i = (mmu.tlb isData).entry i ∧
          mmu.StillFinds after isData ((mmu.tlb isData).entry i)) ∧
      ∀ j, (mmu.l1.entry j).valid = true →
        (∀ i, (mmu.data.entry i).pendingPurge = true →
          (mmu.l1.entry j).equivalent (mmu.data.entry i) = false) →
        kind.Spares va ps (mmu.regionRid va) (mmu.l1.entry j) →
          mmu.StillFinds after true (mmu.l1.entry j) := by
  intro ps after
  have formed := reachable.wellFormed.1
  have marks := purge_marks formed reachable.accounted completes
  have shape := marks.serialized
  -- An entry that is left in the range can only be a register that the purge keeps.
  have gone : ∀ isData x region, kind.applies isData = true →
      kind.InRange va ps (mmu.regionRid va) x region → ∀ entry, after.Holds isData entry →
      entry.covers x region = true → kind.tcOnly = true ∧ entry.isTr = true := by
    intro isData x region applies inside entry held covered
    have valid := valid_of_covers covered
    have missed := (holds_before formed marks held valid).2 applies
    have meets := meets_of_covers (held.sized shape valid) inside covered
    simpa [PurgeKind.targets, meets] using missed
  refine ⟨fun isData x region applies inside =>
    ⟨gone isData x region applies inside, fun entry found => ?_⟩,
    fun isData i valid unmarked spares => ?_, fun j valid settled spares =>
      spared_copy formed marks valid settled spares⟩
  · obtain ⟨held, covered⟩ := (tlbFindCached_spec shape).1 entry found
    rw [Bool.not_not] at held
    exact gone isData x region applies inside entry held covered
  · have kept := spared_entry formed marks valid unmarked spares
    refine ⟨kept, stillFinds_of_holds formed marks ((mmu.tlb isData).entry i) ?_
      fun x covered => covered⟩
    have held : after.Holds isData ((after.tlb isData).entry i) :=
      holds_of_valid shape (by rw [kept]; exact valid)
    rwa [kept] at held

/-- One cache entry, at 16K. -/
def oneCacheEntry : State := runFrom .montecito [insertionRegisters, .itc 0x20461 true]

/-- After a local purge of its page, the cache entry is not found. -/
theorem purge_law_local :
    ∃ purged, oneCacheEntry.purge (.ptc .local) 0x4000 (12 <<< 2) = .ok purged ∧
      ∀ entry, ((purged.tlbSerialize true true).tlbFindCached 0x4000 0 false).1 = some entry →
        entry.isTr = true := by
  have reachable : Reachable .montecito (fun _ => True) oneCacheEntry :=
    Reachable.run (.start trivial) ⟨trivial, trivial, trivial⟩
  have completes : oneCacheEntry.purge (.ptc .local) 0x4000 (12 <<< 2) =
      .ok (oneCacheEntry.ptcMark 0x4000 (pageSizeFromShift (itirPs (12 <<< 2))) 0) := rfl
  refine ⟨_, completes, fun entry found => ?_⟩
  exact (((purge_law reachable completes).1 true 0x4000 0 rfl (Or.inr ⟨rfl, rfl⟩)).2 entry found).2

/-- One cache entry, at 16K, that waits for the purge of its page. -/
def oneWaitingEntry : State :=
  runFrom .montecito [insertionRegisters, .itc 0x20461 true, .ptc 0x4000 (12 <<< 2) .local]

/-- A purge of another page and its serialization take the waiting entry away as well. -/
theorem purge_takes_waiting :
    Reachable .montecito (fun _ => True) oneWaitingEntry ∧
      ((oneWaitingEntry.tlb true).entry 0).valid = true ∧
      (∀ x region, (PurgeKind.ptc .local).InRange 0x8000 (pageSizeFromShift (itirPs (12 <<< 2)))
        (oneWaitingEntry.regionRid 0x8000) x region →
          ((oneWaitingEntry.tlb true).entry 0).covers x region = false) ∧
      ((oneWaitingEntry.tlb true).entry 0).covers 0x4000 0 = true ∧
      ∃ purged, oneWaitingEntry.purge (.ptc .local) 0x8000 (12 <<< 2) = .ok purged ∧
        ((purged.tlbSerialize true true).tlbFindCached 0x4000 0 false).1.isNone = true := by
  have reachable : Reachable .montecito (fun _ => True) oneWaitingEntry :=
    Reachable.run (.start trivial) ⟨trivial, trivial, trivial, trivial⟩
  have valid : ((oneWaitingEntry.tlb true).entry 0).valid = true := by decide +kernel
  have sized := (reachable.wellFormed.1.tlbs true).sized 0 valid
  refine ⟨reachable, valid, fun x region inside => ?_, by decide +kernel,
    oneWaitingEntry.ptcMark 0x8000 (pageSizeFromShift (itirPs (12 <<< 2))) 0,
      rfl, by decide +kernel⟩
  by_contra covered
  have meets := meets_of_covers sized inside (by simpa using covered)
  have apart : (PurgeKind.ptc .local).meets 0x8000 (pageSizeFromShift (itirPs (12 <<< 2)))
      (oneWaitingEntry.regionRid 0x8000) ((oneWaitingEntry.tlb true).entry 0) = false := by
        decide +kernel
  exact absurd (apart.symm.trans meets) (by decide)

end Law

end Ia64.Mmu
