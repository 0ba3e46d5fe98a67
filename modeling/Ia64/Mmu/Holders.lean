import Ia64.Mmu.Run

/-! Which entries a lookup can answer with, first-level copies included. -/

namespace Ia64.Mmu

open Sweep

/-- An entry that a lookup of one side can answer with. -/
def State.Holds (mmu : State) (isData : Bool) (entry : TlbEntry) : Prop :=
  (∃ i, i < (mmu.tlb isData).count ∧ (mmu.tlb isData).entry i = entry) ∨
    -- Only data lookups of a processor with a first level look there.
    isData = true ∧ mmu.dtlb1Enabled ∧ ∃ j, j < dtlb1Max ∧ mmu.l1.entry j = entry

section Lookup

variable {mmu : State} (formed : mmu.WellFormed) {va : Word} {rid : BitVec 32} {isIfetch : Bool}

theorem dtlb1Lookup_spec (mmu : State) (va : Word) (rid : BitVec 32) :
    (mmu.dtlb1Lookup va rid).2.l1.entry = mmu.l1.entry ∧
      ∀ slot, (mmu.dtlb1Lookup va rid).1 = some slot →
        slot < dtlb1Max ∧ (mmu.l1.entry slot).matches va rid := by
  simp only [State.dtlb1Lookup]
  split_ifs with stale unmatched
  · exact ⟨rfl, fun slot none => absurd none (by simp)⟩
  · exact ⟨rfl, fun slot none => absurd none (by simp)⟩
  · refine ⟨rfl, fun slot found => ?_⟩
    cases found
    simp only [Bool.or_eq_true, decide_eq_true_eq, not_or, Nat.not_le] at stale
    exact ⟨stale.2, by simpa using unmatched⟩

include formed in
theorem covers_of_matches {j : Nat} (found : (mmu.l1.entry j).matches va rid) :
    (mmu.l1.entry j).covers va rid := by
  obtain ⟨-, -, ⟨shift, shape⟩, -⟩ := formed.copies j (valid_of_matches found)
  rwa [TlbEntry.matches_eq_covers shape] at found

/-- Where the first level answers, the full lookup does. -/
theorem tlbFindSlow_first (va : Word) (rid : BitVec 32) (first : (!isIfetch && mmu.dtlb1Enabled)) :
    (∃ j, j < dtlb1Max ∧ (mmu.l1.entry j).matches va rid ∧
        (mmu.tlbFindSlow va rid isIfetch).1 = some (mmu.l1.entry j)) ∨
      (∀ j, j < dtlb1Max → (mmu.l1.entry j).matches va rid = false) ∧
        (mmu.tlbFindSlow va rid isIfetch).1 =
          ((mmu.tlb !isIfetch).scan va rid).map (mmu.tlb !isIfetch).entry := by
  obtain ⟨entries, hinted⟩ := dtlb1Lookup_spec mmu va rid
  have same := (sheds_dtlb1Lookup mmu va rid).same
  have still : (!isIfetch && (mmu.dtlb1Lookup va rid).2.dtlb1Enabled) := by
    rw [State.dtlb1Enabled, same.model]
    exact first
  simp only [State.tlbFindSlow, first, if_true]
  generalize mmu.dtlb1Lookup va rid = answer at entries hinted same still
  obtain ⟨hint, after⟩ := answer
  dsimp only at entries hinted same still ⊢
  rw [still, if_pos rfl]
  cases hint with
  | some slot =>
    obtain ⟨inside, found⟩ := hinted slot rfl
    exact Or.inl ⟨slot, inside, found, by rw [entries]⟩
  | none =>
    -- Without a hint, all slots are asked in turn.
    dsimp only
    cases scanned : firstSlot dtlb1Max fun i => (after.l1.entry i).matches va rid with
    | some slot =>
      obtain ⟨inside, found, -⟩ := firstSlot_eq_some_iff.mp scanned
      rw [entries] at found
      exact Or.inl ⟨slot, inside, found, by rw [entries]⟩
    | none =>
      have missing := firstSlot_eq_none_iff.mp scanned
      rw [entries] at missing
      refine Or.inr ⟨missing, ?_⟩
      rw [same.tlb]
      cases (mmu.tlb !isIfetch).scan va rid <;> rfl

include formed in
theorem tlbFindSlow_spec :
    (∀ entry, (mmu.tlbFindSlow va rid isIfetch).1 = some entry →
        mmu.Holds (!isIfetch) entry ∧ entry.covers va rid) ∧
      ((mmu.tlbFindSlow va rid isIfetch).1 = none →
        ∀ entry, mmu.Holds (!isIfetch) entry → entry.covers va rid = false) := by
  -- The main TLB answers with its first slot that covers the address.
  have main :
      (∀ entry, ((mmu.tlb !isIfetch).scan va rid).map (mmu.tlb !isIfetch).entry = some entry →
        mmu.Holds (!isIfetch) entry ∧ entry.covers va rid) ∧
      (((mmu.tlb !isIfetch).scan va rid).map (mmu.tlb !isIfetch).entry = none →
        ∀ i, i < (mmu.tlb !isIfetch).count →
          ((mmu.tlb !isIfetch).entry i).covers va rid = false) := by
    refine ⟨fun entry found => ?_, fun missed => ?_⟩
    · obtain ⟨slot, scanned, stored⟩ := Option.map_eq_some_iff.mp found
      obtain ⟨inside, covered, -⟩ := firstSlot_eq_some_iff.mp scanned
      rw [stored] at covered
      exact ⟨Or.inl ⟨slot, inside, stored⟩, covered⟩
    · exact firstSlot_eq_none_iff.mp (Option.map_eq_none_iff.mp missed)
  cases first : !isIfetch && mmu.dtlb1Enabled with
  | false =>
    rw [tlbFindSlow_plain mmu va rid isIfetch first]
    refine ⟨main.1, fun missed entry held => ?_⟩
    rcases held with ⟨i, inside, rfl⟩ | ⟨data, enabled, -⟩
    · exact main.2 missed i inside
    · rw [data, enabled] at first
      exact absurd first (by decide)
  | true =>
    obtain ⟨data, enabled⟩ := Bool.and_eq_true_iff.mp first
    rcases tlbFindSlow_first va rid first with ⟨j, inside, found, answer⟩ | ⟨missing, answer⟩
    · rw [answer]
      refine ⟨fun entry same => ?_, fun none => absurd none (by simp)⟩
      cases same
      exact ⟨Or.inr ⟨data, enabled, j, inside, rfl⟩, covers_of_matches formed found⟩
    · rw [answer]
      refine ⟨main.1, fun missed entry held => ?_⟩
      rcases held with ⟨i, inside, rfl⟩ | ⟨-, -, j, inside, rfl⟩
      · exact main.2 missed i inside
      · -- A copy that covered the address would match it.
        by_contra covered
        simp only [Bool.not_eq_false] at covered
        obtain ⟨-, -, ⟨shift, shape⟩, -⟩ := formed.copies j (valid_of_covers covered)
        rw [← TlbEntry.matches_eq_covers shape, missing j inside] at covered
        exact absurd covered (by decide)

include formed in
/-- A lookup finds what is held and covers, if anything. -/
theorem tlbFindCached_spec :
    (∀ entry, (mmu.tlbFindCached va rid isIfetch).1 = some entry →
        mmu.Holds (!isIfetch) entry ∧ entry.covers va rid) ∧
      ((mmu.tlbFindCached va rid isIfetch).1 = none →
        ∀ entry, mmu.Holds (!isIfetch) entry → entry.covers va rid = false) := by
  have sound := (formed.tlbs (!isIfetch)).hints
  -- A hint that hits leads to a used slot of the main TLB.
  have hinted : ∀ hint, (mmu.tlb !isIfetch).HintSound hint →
      (mmu.tlb !isIfetch).hintHits hint va rid → ∀ entry,
      some ((mmu.tlb !isIfetch).entry hint.slot) = some entry →
      mmu.Holds (!isIfetch) entry ∧ entry.covers va rid := by
    intro hint fine hits entry same
    cases same
    refine ⟨Or.inl ⟨hint.slot, ?_, rfl⟩, covers_of_hintHits fine hits⟩
    simp only [Tlb.hintHits, Bool.and_eq_true, decide_eq_true_eq] at hits
    exact hits.1.2
  simp only [State.tlbFindCached]
  split
  · rename_i hits
    exact ⟨hinted _ (sound.1 _) hits, fun none => absurd none (by simp)⟩
  · split
    · rename_i i displaced
      exact ⟨hinted _ (sound.2 i) (firstSlot_eq_some_iff.mp displaced).2.1,
        fun none => absurd none (by simp)⟩
    · exact tlbFindSlow_spec formed

end Lookup

end Ia64.Mmu
