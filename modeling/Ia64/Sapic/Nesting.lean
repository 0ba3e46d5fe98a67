import Ia64.Sapic.Local
import Ia64.Lib.PriorityStack
import Mathlib.Algebra.Order.Ring.Int

/-! Priority and nesting of interrupts, over every run of the local controller. -/

namespace Ia64.Sapic

open Bitmaps PriorityStack BitVec

/-- The vectors that can be taken: the non-maskable one, the external controller's and the ordinary
ones. -/
def Deliverable (vector : Nat) : Prop := vector = 2 ∨ vector = 0 ∨ 16 ≤ vector ∧ vector < 256

/-- The vectors that TPR masks. -/
def MaskedBy (tpr : Word) (vector : Nat) : Prop :=
  -- The non-maskable vector is never masked, and the class applies to ordinary vectors only.
  vector ≠ 2 ∧ (tprMmi tpr ∨ vector ≠ 0 ∧ vector / 16 ≤ tprMic tpr)

/-- A pending vector that TPR lets through and that is above everything in service. -/
def Local.Eligible (sapic : Local) (vector : Nat) : Prop :=
  Deliverable vector ∧ contains sapic.irr vector ∧ ¬MaskedBy sapic.tpr vector ∧
    ∀ served, contains sapic.isr served → vectorPriority served < vectorPriority vector

section Search

/-- One word of a set without special vectors. -/
theorem getLsbD_active (bitmap : Nat → Word) (word i : Nat) :
    (if word = 0 then bitmap word &&& ~~~(0xffff : Word) else bitmap word).getLsbD i =
      (decide (i < 64 ∧ 16 ≤ word * 64 + i) && contains bitmap (word * 64 + i)) := by
  by_cases inside : i < 64
  · have place : (word * 64 + i) / 64 = word ∧ (word * 64 + i) % 64 = i := by omega
    rw [contains_eq_getLsbD (by decide), place.1, place.2]
    by_cases first : word = 0
    · subst first
      rw [if_pos rfl, getLsbD_and, getLsbD_not]
      have low : (0xffff : Word).getLsbD i = decide (i < 16) := by
        rw [show (0xffff : Word) = BitVec.ofNat 64 (2 ^ 16 - 1) from rfl, getLsbD_ofNat,
          Nat.testBit_two_pow_sub_one]
        simp [inside]
      rw [low]
      by_cases ordinary : i < 16
      · simp [ordinary, show ¬16 ≤ i by omega]
      · simp [inside, ordinary, show 16 ≤ i by omega]
    · rw [if_neg first]
      simp [inside, show 16 ≤ word * 64 + i by omega]
  · rw [getLsbD_of_ge _ _ (by omega)]
    simp [inside]

/-- The search finds the highest ordinary vector below. -/
theorem findHighestNormalBelow_spec (bitmap : Nat → Word) (words : Nat) :
    (findHighestNormalBelow bitmap words = spuriousVector ∧
        ∀ v, 16 ≤ v → v < 64 * words → contains bitmap v = false) ∨
      (16 ≤ findHighestNormalBelow bitmap words ∧ findHighestNormalBelow bitmap words < 64 * words ∧
        contains bitmap (findHighestNormalBelow bitmap words) ∧
        ∀ v, 16 ≤ v → v < 64 * words → contains bitmap v →
          v ≤ findHighestNormalBelow bitmap words) := by
  -- The words are visited from the top, so what is left to search is a shorter set.
  induction words with
  | zero => exact Or.inl ⟨rfl, fun v _ below => absurd below (by omega)⟩
  | succ word ih =>
    unfold findHighestNormalBelow
    have bits := getLsbD_active bitmap word
    set active : Word := if word = 0 then bitmap word &&& ~~~(0xffff : Word) else bitmap word
    -- A number of the last word is its bit there.
    have ofBit : ∀ v, 16 ≤ v → 64 * word ≤ v → v < 64 * (word + 1) →
        active.getLsbD (v - word * 64) = contains bitmap v := by
      intro v ordinary above below
      rw [bits, show word * 64 + (v - word * 64) = v by omega]
      simp [show v - word * 64 < 64 by omega, ordinary]
    by_cases empty : active = 0
    · simp only [empty, ne_eq, not_true_eq_false, if_false]
      have none : ∀ v, 16 ≤ v → 64 * word ≤ v → v < 64 * (word + 1) →
          contains bitmap v = false := by
        intro v ordinary above below
        rw [← ofBit v ordinary above below, empty]
        simp
      rcases ih with ⟨missing, nothing⟩ | ⟨least, inside, found, highest⟩
      · refine Or.inl ⟨missing, fun v ordinary below => ?_⟩
        by_cases lower : v < 64 * word
        · exact nothing v ordinary lower
        · exact none v ordinary (by omega) below
      · refine Or.inr ⟨least, by omega, found, fun v ordinary below held => ?_⟩
        by_cases lower : v < 64 * word
        · exact highest v ordinary lower held
        · rw [none v ordinary (by omega) below] at held
          exact absurd held (by decide)
    · simp only [ne_eq, empty, not_false_eq_true, if_true]
      obtain ⟨top, highest⟩ := highest_bit (by decide) empty
      have zeros : active.clz.toNat < 64 := by
        have bounded := clz_lt_iff_ne_zero.mpr empty
        exact bounded
      have value : word * 64 + 63 - active.clz.toNat = word * 64 + (64 - 1 - active.clz.toNat) := by
        omega
      rw [value]
      rw [bits] at top
      simp only [Bool.and_eq_true, decide_eq_true_eq] at top
      refine Or.inr ⟨top.1.2, by omega, top.2, fun v ordinary below held => ?_⟩
      by_cases lower : v < 64 * word
      · omega
      · have bit := (ofBit v ordinary (by omega) below).trans held
        have bound := highest _ bit
        omega

theorem findHighestNormal_spec (bitmap : Nat → Word) :
    (findHighestNormal bitmap = spuriousVector ∧ ∀ v, 16 ≤ v → v < 256 →
      contains bitmap v = false) ∨ (16 ≤ findHighestNormal bitmap ∧ findHighestNormal bitmap < 256 ∧
        contains bitmap (findHighestNormal bitmap) ∧
        ∀ v, 16 ≤ v → v < 256 → contains bitmap v → v ≤ findHighestNormal bitmap) :=
  findHighestNormalBelow_spec bitmap 4

end Search

section Priority

variable {sapic : Local}

/-- Only vectors that can be taken are in service. -/
def Local.ServiceOk (sapic : Local) : Prop :=
  ∀ vector, contains sapic.isr vector → Deliverable vector

variable {vector : Nat}

theorem vectorPriority_normal (ordinary : 16 ≤ vector) : vectorPriority vector = vector := by
  unfold vectorPriority
  rw [if_neg (by omega), if_neg (by omega), if_pos ordinary]

theorem vectorPriority_two : vectorPriority 2 = 257 := rfl

theorem vectorPriority_zero : vectorPriority 0 = 256 := rfl

theorem vectorPriority_pos (deliverable : Deliverable vector) :
    vectorPriority spuriousVector < vectorPriority vector := by
  rcases deliverable with rfl | rfl | ⟨ordinary, -⟩
  · decide
  · decide
  · rw [vectorPriority_normal ordinary, show vectorPriority spuriousVector = -1 from rfl]
    omega

/-- The non-maskable vector is above all others. -/
theorem vectorPriority_le_two (deliverable : Deliverable vector) :
    vectorPriority vector ≤ vectorPriority 2 := by
  rcases deliverable with rfl | rfl | ⟨ordinary, small⟩
  · exact le_refl _
  · decide
  · rw [vectorPriority_normal ordinary, vectorPriority_two]
    omega

/-- The external controller's vector is above the ordinary ones. -/
theorem vectorPriority_le_zero (deliverable : Deliverable vector) (maskable : vector ≠ 2) :
    vectorPriority vector ≤ vectorPriority 0 := by
  rcases deliverable with rfl | rfl | ⟨ordinary, small⟩
  · exact absurd rfl maskable
  · exact le_refl _
  · rw [vectorPriority_normal ordinary, vectorPriority_zero]
    omega

/-- The vector found in service is the highest one. -/
theorem findIsr_spec (service : sapic.ServiceOk) :
    (sapic.findIsr = spuriousVector ∧ ∀ u, contains sapic.isr u = false) ∨
      (contains sapic.isr sapic.findIsr ∧
        ∀ u, contains sapic.isr u → vectorPriority u ≤ vectorPriority sapic.findIsr) := by
  unfold Local.findIsr
  by_cases nmi : contains sapic.isr 2
  · rw [if_pos nmi]
    exact Or.inr ⟨nmi, fun u held => vectorPriority_le_two (service u held)⟩
  · rw [if_neg nmi]
    by_cases external : contains sapic.isr 0
    · rw [if_pos external]
      refine Or.inr ⟨external, fun u held => vectorPriority_le_zero (service u held) ?_⟩
      rintro rfl
      exact nmi held
    · rw [if_neg external]
      rcases findHighestNormal_spec sapic.isr with ⟨missing, none⟩ | ⟨least, inside, found, highest⟩
      · refine Or.inl ⟨missing, fun u => ?_⟩
        by_contra held
        simp only [Bool.not_eq_false] at held
        rcases service u held with rfl | rfl | ⟨ordinary, small⟩
        · exact nmi held
        · exact external held
        · rw [none u ordinary (by omega)] at held
          exact absurd held (by decide)
      · refine Or.inr ⟨found, fun u held => ?_⟩
        rcases service u held with rfl | rfl | ⟨ordinary, small⟩
        · exact absurd held nmi
        · exact absurd held external
        · have bound := highest u ordinary (by omega) held
          rw [vectorPriority_normal ordinary, vectorPriority_normal least]
          exact_mod_cast bound

theorem above_findIsr_iff (service : sapic.ServiceOk) (deliverable : Deliverable vector) :
    vectorPriority sapic.findIsr < vectorPriority vector ↔
      ∀ u, contains sapic.isr u → vectorPriority u < vectorPriority vector := by
  rcases findIsr_spec service with ⟨missing, none⟩ | ⟨found, highest⟩
  · rw [missing]
    refine ⟨fun _ u held => ?_, fun _ => vectorPriority_pos deliverable⟩
    rw [none u] at held
    exact absurd held (by decide)
  · exact ⟨fun above u held => lt_of_le_of_lt (highest u held) above, fun all => all _ found⟩

/-- The test lets through what nothing masks or blocks. -/
theorem vectorUnmasked_iff (service : sapic.ServiceOk) (deliverable : Deliverable vector) :
    sapic.vectorUnmasked vector ↔
      ¬MaskedBy sapic.tpr vector ∧
        ∀ u, contains sapic.isr u → vectorPriority u < vectorPriority vector := by
  rw [← above_findIsr_iff service deliverable]
  unfold Local.vectorUnmasked MaskedBy
  by_cases blocked : vectorPriority vector ≤ vectorPriority sapic.findIsr
  · simp [blocked]
  · rw [if_neg blocked]
    have above : vectorPriority sapic.findIsr < vectorPriority vector := not_le.mp blocked
    rcases deliverable with rfl | rfl | ⟨ordinary, small⟩
    · simpa using above
    · simpa using fun _ => above
    · -- The class of an ordinary vector is not negative, so the unsigned comparison is exact.
      have cls : (BitVec.ofInt 64 (vectorPriorityClass vector)).toNat = vector / 16 := by
        rw [vectorPriorityClass, if_pos ordinary, ofInt_natCast, toNat_ofNat]
        exact Nat.mod_eq_of_lt (by omega)
      rw [if_neg (by omega), if_neg (by omega), cls]
      simp [show vector ≠ 2 by omega, show vector ≠ 0 by omega, above]

theorem unmasked_mono {u v : Nat} (lower : 16 ≤ u) (order : u ≤ v) (small : v < 256)
    (passes : sapic.Eligible u) (service : sapic.ServiceOk) : sapic.vectorUnmasked v := by
  rw [vectorUnmasked_iff service (Or.inr (Or.inr ⟨by omega, small⟩))]
  obtain ⟨-, -, unmasked, above⟩ := passes
  refine ⟨fun masked => unmasked ?_, fun served held => ?_⟩
  · refine ⟨by omega, masked.2.imp id fun cls => ⟨by omega, ?_⟩⟩
    exact Nat.le_trans (Nat.div_le_div_right order) cls.2
  · have below := above served held
    rw [vectorPriority_normal lower] at below
    rw [vectorPriority_normal (show 16 ≤ v by omega)]
    omega

theorem findIrr_spec (service : sapic.ServiceOk) :
    (sapic.findIrr = spuriousVector ∧ ∀ v, ¬sapic.Eligible v) ∨
      (sapic.Eligible sapic.findIrr ∧
        ∀ v, sapic.Eligible v → vectorPriority v ≤ vectorPriority sapic.findIrr) := by
  -- A pending vector that passes the test is eligible, and an eligible one passes it.
  have eligible_iff : ∀ v, Deliverable v →
      (sapic.Eligible v ↔ contains sapic.irr v ∧ sapic.vectorUnmasked v) := by
    intro v deliverable
    rw [vectorUnmasked_iff service deliverable]
    exact ⟨fun passes => ⟨passes.2.1, passes.2.2⟩, fun both => ⟨deliverable, both.1, both.2⟩⟩
  unfold Local.findIrr
  by_cases nmi : (contains sapic.irr 2 && sapic.vectorUnmasked 2)
  · rw [if_pos nmi]
    exact Or.inr ⟨(eligible_iff 2 (Or.inl rfl)).mpr (by simpa using nmi),
      fun v passes => vectorPriority_le_two passes.1⟩
  · rw [if_neg nmi]
    have noNmi : ¬sapic.Eligible 2 := by
      rw [eligible_iff 2 (Or.inl rfl)]
      simpa using nmi
    by_cases external : (contains sapic.irr 0 && sapic.vectorUnmasked 0)
    · rw [if_pos external]
      refine Or.inr ⟨(eligible_iff 0 (Or.inr (Or.inl rfl))).mpr (by simpa using external),
        fun v passes => vectorPriority_le_zero passes.1 ?_⟩
      rintro rfl
      exact noNmi passes
    · rw [if_neg external]
      have noExternal : ¬sapic.Eligible 0 := by
        rw [eligible_iff 0 (Or.inr (Or.inl rfl))]
        simpa using external
      have ordinary : ∀ v, sapic.Eligible v → 16 ≤ v ∧ v < 256 := by
        intro v passes
        rcases passes.1 with rfl | rfl | range
        · exact absurd passes noNmi
        · exact absurd passes noExternal
        · exact range
      dsimp only
      rcases findHighestNormal_spec sapic.irr with ⟨missing, none⟩ | ⟨least, inside, found, highest⟩
      · simp only [missing, bne_self_eq_false, Bool.false_and, Bool.false_eq_true, if_false]
        refine Or.inl ⟨trivial, fun v passes => ?_⟩
        obtain ⟨lower, small⟩ := ordinary v passes
        exact absurd ((none v lower (by omega)).symm.trans passes.2.1) (by decide)
      · set top := findHighestNormal sapic.irr
        have real : (top != spuriousVector) := by
          rw [bne_iff_ne]
          unfold spuriousVector
          omega
        have deliverable : Deliverable top := Or.inr (Or.inr ⟨least, by omega⟩)
        by_cases passes : sapic.vectorUnmasked top
        · simp only [real, passes, Bool.and_self, if_true]
          refine Or.inr ⟨(eligible_iff top deliverable).mpr ⟨found, passes⟩, fun v other => ?_⟩
          obtain ⟨lower, small⟩ := ordinary v other
          have bound := highest v lower (by omega) other.2.1
          rw [vectorPriority_normal lower, vectorPriority_normal least]
          exact_mod_cast bound
        · simp only [passes, Bool.and_false, Bool.false_eq_true, if_false]
          refine Or.inl ⟨trivial, fun v other => ?_⟩
          -- What blocks the highest pending vector blocks every lower one.
          obtain ⟨lower, small⟩ := ordinary v other
          have bound := highest v lower (by omega) other.2.1
          exact passes (unmasked_mono lower bound (by omega) other service)

end Priority

end Ia64.Sapic
