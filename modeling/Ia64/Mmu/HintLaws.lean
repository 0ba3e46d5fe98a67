import Ia64.Mmu.FlushLaws

/-! Marks, the used range and hints: the changes that leave every translation in place. -/

namespace Ia64.Mmu

open Sweep

/-- The TLBs differ in marks of waiting purges only. -/
structure Tlb.Marked (before after : Tlb) : Prop where
  entries : ∀ i, after.entry i = { before.entry i with
    pendingPurge := (after.entry i).pendingPurge }
  count : after.count = before.count
  replace : after.replace = before.replace
  generation : after.generation = before.generation
  micro : after.micro = before.micro
  victim : after.victim = before.victim

theorem Tlb.Marked.refl (tlb : Tlb) : Tlb.Marked tlb tlb := ⟨fun _ => rfl, rfl, rfl, rfl, rfl, rfl⟩

theorem Tlb.Marked.trans {first second third : Tlb} (early : Tlb.Marked first second)
    (late : Tlb.Marked second third) : Tlb.Marked first third where
  entries i := by rw [late.entries i, early.entries i]
  count := late.count.trans early.count
  replace := late.replace.trans early.replace
  generation := late.generation.trans early.generation
  micro := late.micro.trans early.micro
  victim := late.victim.trans early.victim

theorem Tlb.Marked.quiet {before after : Tlb} (marked : Tlb.Marked before after) (capacity : Nat) :
    Tlb.Quiet capacity before after where
  entries := marked.entries
  count := Nat.le_of_eq marked.count
  dropped i above below := by
    rw [marked.count] at above
    omega
  replace inside := by
    rw [marked.replace]
    exact inside
  hints sound :=
    hintsSound_of_entries sound marked.micro marked.victim marked.generation marked.entries

theorem marked_set (tlb : Tlb) (slot : Nat) (mark : Bool) (pending : Nat) :
    Tlb.Marked tlb
      { tlb.set slot { tlb.entry slot with pendingPurge := mark } with pending := pending } where
  entries i := by
    by_cases here : i = slot
    · subst here
      simp [Tlb.set]
    · simp [Tlb.set, here]
  count := rfl
  replace := rfl
  generation := rfl
  micro := rfl
  victim := rfl

theorem marked_markPendingPurge (tlb : Tlb) (slot : Nat) :
    Tlb.Marked tlb (tlb.markPendingPurge slot) := by
  simp only [Tlb.markPendingPurge]
  split
  · exact .refl tlb
  · exact marked_set tlb slot true _

theorem marked_discardPendingPurge (tlb : Tlb) (slot : Nat) :
    Tlb.Marked tlb (tlb.discardPendingPurge slot) := by
  simp only [Tlb.discardPendingPurge]
  split
  · exact marked_set tlb slot false _
  · exact .refl tlb

theorem marked_sweep (test : TlbEntry → Bool) (bound : Nat) (tlb : Tlb) :
    Tlb.Marked tlb
      (sweep bound (fun tlb i => if test (tlb.entry i) then tlb.markPendingPurge i
        else tlb) tlb) := by
  refine sweep_invariant (Tlb.Marked.refl tlb) fun i _ current reached => ?_
  split
  · exact reached.trans (marked_markPendingPurge current i)
  · exact reached

theorem marked_markPendingPurgeEntries (tlb : Tlb) (va ps : Word) (rid : BitVec 32)
    (tcOnly : Bool) : Tlb.Marked tlb (tlb.markPendingPurgeEntries va ps rid tcOnly) :=
  marked_sweep (fun entry => (!tcOnly || !entry.isTr) &&
    entry.overlaps (vaPageBase va ps) ps rid) _ tlb

theorem marked_markPendingPurgeAllTc (tlb : Tlb) : Tlb.Marked tlb tlb.markPendingPurgeAllTc :=
  marked_sweep TlbEntry.isTc _ tlb

theorem trimmedCount_spec (entry : Nat → TlbEntry) (count : Nat) :
    trimmedCount entry count ≤ count ∧
      ∀ i, trimmedCount entry count ≤ i → i < count → (entry i).valid = false := by
  induction count with
  | zero => exact ⟨Nat.le_refl 0, fun i _ below => absurd below (Nat.not_lt_zero i)⟩
  | succ count ih =>
    obtain ⟨shorter, unused⟩ := ih
    unfold trimmedCount
    split
    · rename_i last
      refine ⟨by omega, fun i above below => ?_⟩
      by_cases here : i = count
      · subst here
        simpa using last
      · exact unused i above (by omega)
    · exact ⟨Nat.le_refl _, fun i above below => by omega⟩

theorem quiet_trim (capacity : Nat) (tlb : Tlb) : Tlb.Quiet capacity tlb tlb.trim where
  entries _ := rfl
  count := (trimmedCount_spec tlb.entry tlb.count).1
  dropped := (trimmedCount_spec tlb.entry tlb.count).2
  replace := id
  hints := id

variable {capacity : Nat} {tlb : Tlb} {hint : MicroTlbEntry}

theorem quiet_replace (tlb : Tlb) {next : Nat} (inside : next < capacity) :
    Tlb.Quiet capacity tlb { tlb with replace := next } where
  entries _ := rfl
  count := Nat.le_refl _
  dropped _ above below := absurd below (Nat.not_lt.mpr above)
  replace _ := inside
  hints := id

theorem quiet_hints (tlb : Tlb) {micro victim : Nat → MicroTlbEntry} {victimNext : Nat}
    (hints : tlb.HintsSound → (∀ i, tlb.HintSound (micro i)) ∧ ∀ i, tlb.HintSound (victim i)) :
    Tlb.Quiet capacity tlb { tlb with
      micro := micro, victim := victim, victimNext := victimNext } where
  entries _ := rfl
  count := Nat.le_refl _
  dropped _ above below := absurd below (Nat.not_lt.mpr above)
  replace := id
  hints := hints

theorem hintSound_update {table : Nat → MicroTlbEntry}
    (sound : ∀ i, tlb.HintSound (table i)) (new : tlb.HintSound hint) (index i : Nat) :
    tlb.HintSound (Function.update table index hint i) := by
  by_cases here : i = index
  · rw [here, Function.update_self]
    exact new
  · rw [Function.update_of_ne here]
    exact sound i

/-- A hint to a used slot is quiet to leave. -/
theorem quiet_remember (capacity : Nat) (tlb : Tlb) (va : Word) (rid : BitVec 32) {slot : Nat}
    (valid : (tlb.entry slot).valid) : Tlb.Quiet capacity tlb (tlb.remember va rid slot) := by
  have fresh : tlb.HintSound ⟨(tlb.entry slot).va, (tlb.entry slot).pageMask, (tlb.entry slot).pte,
      (tlb.entry slot).rid, tlb.generation, (tlb.entry slot).microGeneration, slot, true⟩ :=
    fun _ => ⟨Nat.le_refl _, fun _ => ⟨Nat.le_refl _, fun _ => ⟨valid, rfl, rfl, rfl⟩⟩⟩
  unfold Tlb.remember
  by_cases displaces : ((tlb.micro (microTlbIndex va rid)).valid &&
      (tlb.micro (microTlbIndex va rid)).generation == tlb.generation)
  · simp only [displaces, if_true]
    exact quiet_hints tlb fun sound =>
      ⟨hintSound_update sound.1 fresh _, hintSound_update sound.2 (sound.1 _) _⟩
  · simp only [displaces, if_false, Bool.false_eq_true]
    exact quiet_hints tlb fun sound => ⟨hintSound_update sound.1 fresh _, sound.2⟩

theorem quiet_swap (capacity : Nat) (tlb : Tlb) (index i : Nat) :
    Tlb.Quiet capacity tlb
      { tlb with
        micro := Function.update tlb.micro index (tlb.victim i)
        victim := Function.update tlb.victim i (tlb.micro index) } :=
  quiet_hints tlb fun sound =>
    ⟨hintSound_update sound.1 (sound.2 i) index, hintSound_update sound.2 (sound.1 index) i⟩

theorem covers_of_hintHits {va : Word} {rid : BitVec 32}
    (sound : tlb.HintSound hint) (hits : tlb.hintHits hint va rid) :
    (tlb.entry hint.slot).covers va rid := by
  simp only [Tlb.hintHits, Bool.and_eq_true, beq_iff_eq, decide_eq_true_eq] at hits
  obtain ⟨⟨⟨⟨⟨valid, current⟩, region⟩, address⟩, -⟩, version⟩ := hits
  obtain ⟨held, base, mask, owner⟩ := ((sound valid).2 current).2 version
  rw [TlbEntry.covers, held, base, mask, owner, region, address]
  simp

end Ia64.Mmu
