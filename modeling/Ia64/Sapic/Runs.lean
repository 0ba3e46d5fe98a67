import Ia64.Sapic.Nesting

/-! Runs of the local controller: acceptance, retirement and pending vectors. -/

namespace Ia64.Sapic

open Bitmaps PriorityStack Local

/-- The operations on the local controller. -/
inductive Op where
  | raise (vector : BitVec 8)
  | readIvr
  | writeEoi
  | writeTpr (value : Word)
deriving DecidableEq

/-- The controller after an operation. -/
def Local.perform (sapic : Local) : Op → Local
  | .raise vector => sapic.setIrq vector
  | .readIvr => sapic.getIvr.2
  | .writeEoi => sapic.eoi
  | .writeTpr value => sapic.writeTpr value

/-- A controller together with the vectors that reads have returned and no EOI has retired, the
newest first. -/
structure History where
  sapic : Local
  accepted : List Nat

/-- A read that returns a vector accepts it, and an EOI retires the one accepted last. -/
def History.step (history : History) (op : Op) : History where
  sapic := history.sapic.perform op
  accepted :=
    match op with
    | .readIvr =>
      let answer := history.sapic.getIvr.1
      if answer ≠ spuriousVector then answer :: history.accepted else history.accepted
    | .writeEoi => history.accepted.tail
    | .raise _ | .writeTpr _ => history.accepted

/-- The histories of all runs from reset. -/
inductive Reachable : History → Prop
  | start (tpr : Word) (special : Special) : Reachable ⟨.reset tpr special, []⟩
  | step {history : History} (op : Op) : Reachable history → Reachable (history.step op)

/-- Whether a read of IVR in a run returns a vector. -/
def Returned (vector : Nat) : Local → List Op → Prop
  | _, [] => False
  | sapic, op :: ops =>
    (op = .readIvr ∧ sapic.getIvr.1 = vector) ∨ Returned vector (sapic.perform op) ops

section Operations

variable (sapic : Local)

@[simp] theorem updateInterrupt_irr : sapic.updateInterrupt.irr = sapic.irr := rfl

@[simp] theorem updateInterrupt_isr : sapic.updateInterrupt.isr = sapic.isr := rfl

theorem accept_of_found (found : sapic.findIrr ≠ spuriousVector) :
    sapic.accept = (sapic.findIrr, ({ sapic with
      irr := erase sapic.irr sapic.findIrr, isr :=
        insert sapic.isr sapic.findIrr } : Local).updateInterrupt) := by
  simp [accept, bne_iff_ne.mpr found]

theorem accept_of_spurious (missing : sapic.findIrr = spuriousVector) :
    sapic.accept = (spuriousVector, sapic) := by
  simp [accept, missing]

@[simp] theorem getIvr_vector : sapic.getIvr.1 = sapic.findIrr := by
  by_cases found : sapic.findIrr = spuriousVector
  · rw [getIvr, accept_of_spurious sapic found, found]
  · rw [getIvr, accept_of_found sapic found]

theorem getIvr_isr (v : Nat) :
    contains sapic.getIvr.2.isr v =
      (decide (v = sapic.findIrr ∧ sapic.findIrr ≠ spuriousVector) || contains sapic.isr v) := by
  by_cases found : sapic.findIrr = spuriousVector
  · rw [getIvr, accept_of_spurious sapic found]
    simp [found]
  · rw [getIvr, accept_of_found sapic found, updateInterrupt_isr, contains_insert (by decide)]
    simp [found]

theorem eoi_isr (v : Nat) :
    contains sapic.eoi.isr v =
      (!decide (v = sapic.findIsr ∧ sapic.findIsr ≠ spuriousVector) && contains sapic.isr v) := by
  simp only [Local.eoi, updateInterrupt_isr]
  by_cases found : sapic.findIsr = spuriousVector
  · simp [found]
  · rw [if_pos (by simpa using found), contains_erase (by decide)]
    simp [found]

/-- A pending vector leaves only by being returned. -/
theorem pending_perform {op : Op} {v : Nat} (pending : contains sapic.irr v)
    (kept : ¬(op = .readIvr ∧ sapic.getIvr.1 = v)) : contains (sapic.perform op).irr v := by
  cases op with
  | raise vector =>
    simp only [perform, setIrq, updateInterrupt_irr]
    rw [contains_insert (by decide), pending, Bool.or_true]
  | readIvr =>
    have other : sapic.findIrr ≠ v := by simpa using kept
    simp only [perform, getIvr]
    by_cases found : sapic.findIrr = spuriousVector
    · rw [accept_of_spurious sapic found]
      exact pending
    · rw [accept_of_found sapic found, updateInterrupt_irr, contains_erase (by decide), pending]
      simp [Ne.symm other]
  | writeEoi =>
    simp only [perform, Local.eoi, updateInterrupt_irr]
    split <;> exact pending
  | writeTpr value => exact pending

theorem pending_run {ops : List Op} {v : Nat} {sapic : Local} (pending : contains sapic.irr v)
    (kept : ¬Returned v sapic ops) : contains (ops.foldl Local.perform sapic).irr v := by
  -- Each operation either returns the vector or leaves it pending.
  induction ops generalizing sapic with
  | nil => exact pending
  | cons op ops ih =>
    simp only [Returned, not_or] at kept
    exact ih (pending_perform sapic pending kept.1) kept.2

end Operations

/-- What every history satisfies: service is what was accepted, in nested order. -/
structure History.Ordered (history : History) : Prop where
  service : ∀ v, contains history.sapic.isr v ↔ v ∈ history.accepted
  deliverable : ∀ v ∈ history.accepted, Deliverable v
  nested : Nested vectorPriority history.accepted

variable {history : History}

theorem History.Ordered.serviceOk (ordered : history.Ordered) : history.sapic.ServiceOk :=
  fun v held => ordered.deliverable v ((ordered.service v).mp held)

theorem History.Ordered.findIsr_eq (ordered : history.Ordered) :
    (history.accepted = [] ∧ history.sapic.findIsr = spuriousVector) ∨
      ∃ rest, history.accepted = history.sapic.findIsr :: rest := by
  rcases findIsr_spec ordered.serviceOk with ⟨missing, none⟩ | ⟨found, highest⟩
  · refine Or.inl ⟨List.eq_nil_iff_forall_not_mem.mpr fun v member => ?_, missing⟩
    exact absurd ((none v).symm.trans ((ordered.service v).mpr member)) (by decide)
  · refine Or.inr (ordered.nested.head_of_max ((ordered.service _).mp found) fun v member => ?_)
    exact highest v ((ordered.service v).mpr member)

/-- A vector that can be taken is not the spurious one. -/
theorem ne_spuriousVector {v : Nat} (deliverable : Deliverable v) : v ≠ spuriousVector := by
  intro spurious
  have above := vectorPriority_pos deliverable
  rw [spurious] at above
  exact absurd above (lt_irrefl _)

/-- A read returns a vector above all in service. -/
theorem ordered_readIvr (ordered : history.Ordered) : (history.step .readIvr).Ordered := by
  rcases findIrr_spec ordered.serviceOk with ⟨missing, -⟩ | ⟨eligible, -⟩
  · -- Nothing is taken, neither from the controller nor in the history.
    have same : history.step .readIvr = history := by
      simp [History.step, perform, getIvr, accept_of_spurious _ missing]
    rw [same]
    exact ordered
  · have real := ne_spuriousVector eligible.1
    have step : history.step .readIvr =
        ⟨history.sapic.getIvr.2, history.sapic.findIrr :: history.accepted⟩ := by
      simp [History.step, perform, real]
    rw [step]
    refine ⟨fun v => ?_, fun v member => ?_, ordered.nested.push fun v member => ?_⟩
    · rw [getIvr_isr, List.mem_cons, ← ordered.service v]
      simp [real]
    · rcases List.mem_cons.mp member with rfl | old
      · exact eligible.1
      · exact ordered.deliverable v old
    · exact eligible.2.2.2 v ((ordered.service v).mpr member)

/-- An EOI takes exactly the newest vector out of service. -/
theorem eoi_service (ordered : history.Ordered) (v : Nat) :
    contains history.sapic.eoi.isr v ↔ v ∈ history.accepted.tail := by
  rw [eoi_isr, Bool.and_eq_true, ordered.service v]
  rcases ordered.findIsr_eq with ⟨empty, -⟩ | ⟨rest, newest⟩
  · simp [empty]
  · have nested := ordered.nested
    have real :=
      ne_spuriousVector (ordered.deliverable history.sapic.findIsr (by rw [newest]; simp))
    rw [newest] at nested ⊢
    simp only [real, ne_eq, not_false_eq_true, and_true, Bool.not_eq_eq_eq_not, Bool.not_true,
      decide_eq_false_iff_not, List.tail_cons, List.mem_cons]
    constructor
    · rintro ⟨other, same | member⟩
      · exact absurd same other
      · exact member
    · intro member
      -- The newest vector occurs once, so it is none of the rest.
      refine ⟨fun same => ?_, Or.inr member⟩
      rw [same] at member
      exact nested.newest_not_mem member

/-- Every operation keeps the order. -/
theorem ordered_step (ordered : history.Ordered) (op : Op) : (history.step op).Ordered := by
  cases op with
  | readIvr => exact ordered_readIvr ordered
  | writeEoi =>
    refine ⟨eoi_service ordered, fun v member => ?_, List.Pairwise.tail ordered.nested⟩
    exact ordered.deliverable v (List.mem_of_mem_tail member)
  -- Neither a raise nor a write to TPR changes what is in service.
  | raise vector => exact ⟨ordered.service, ordered.deliverable, ordered.nested⟩
  | writeTpr value => exact ⟨ordered.service, ordered.deliverable, ordered.nested⟩

/-- Every run from reset leads to an ordered history. -/
theorem Reachable.ordered (reachable : Reachable history) : history.Ordered := by
  induction reachable with
  | start tpr special =>
    refine ⟨fun v => ?_, fun v member => absurd member (by simp), nested_nil⟩
    simp [Local.reset, contains]
  | step op _ ordered => exact ordered_step ordered op

/-- A read takes its vector from the pending ones. -/
theorem getIvr_irr {sapic : Local} (real : sapic.getIvr.1 ≠ spuriousVector) (v : Nat) :
    contains sapic.getIvr.2.irr v ↔ v ≠ sapic.getIvr.1 ∧ contains sapic.irr v := by
  rw [getIvr_vector] at real ⊢
  rw [getIvr, accept_of_found sapic real, updateInterrupt_irr, contains_erase (by decide)]
  simp

/-- A write to TPR stores its mask bits. -/
theorem writeTpr_masks (sapic : Local) (value : Word) :
    tprMmi (sapic.writeTpr value).tpr = tprMmi value ∧
      tprMic (sapic.writeTpr value).tpr = tprMic value := by
  have kept : (sapic.writeTpr value).tpr = value &&& tprWritableMask := rfl
  rw [kept, tprMic, tprMic, BitVec.and_assoc, show tprWritableMask &&& 0xf0 = 0xf0 by decide]
  simp [tprMmi, tprWritableMask]

/-- Priority and nesting: what reads return, what is in service, what retires and what stays
pending. -/
theorem interrupts_nest (reachable : Reachable history) :
    (history.sapic.getIvr.1 = spuriousVector ∧ (∀ v, ¬history.sapic.Eligible v) ∨
        history.sapic.getIvr.1 ≠ spuriousVector ∧ history.sapic.Eligible history.sapic.getIvr.1 ∧
          ∀ v, history.sapic.Eligible v →
            vectorPriority v ≤ vectorPriority history.sapic.getIvr.1) ∧
      (∀ v, contains history.sapic.isr v = true ↔ v ∈ history.accepted) ∧
      Nested vectorPriority history.accepted ∧
      (∀ v, contains (history.step .writeEoi).sapic.isr v = true ↔ v ∈ history.accepted.tail) ∧
      (history.sapic.getIvr.1 ≠ spuriousVector → ∀ v,
        (contains (history.step .readIvr).sapic.isr v = true ↔
          v = history.sapic.getIvr.1 ∨ contains history.sapic.isr v = true) ∧
        (contains (history.step .readIvr).sapic.irr v = true ↔
          v ≠ history.sapic.getIvr.1 ∧ contains history.sapic.irr v = true)) ∧
      (∀ vector v, contains (history.step (.raise vector)).sapic.irr v = true ↔
        v = vector.toNat ∨ contains history.sapic.irr v = true) ∧
      (∀ value, tprMmi (history.step (.writeTpr value)).sapic.tpr = tprMmi value ∧
        tprMic (history.step (.writeTpr value)).sapic.tpr = tprMic value) ∧
      ∀ v ops, contains history.sapic.irr v = true → ¬Returned v history.sapic ops →
        contains (ops.foldl Local.perform history.sapic).irr v = true := by
  have ordered := reachable.ordered
  refine ⟨?_, ordered.service, ordered.nested, eoi_service ordered,
    fun real v => ⟨?_, getIvr_irr real v⟩,
    fun vector v => ?_, writeTpr_masks history.sapic, fun v ops pending kept =>
      pending_run pending kept⟩
  · rw [getIvr_vector]
    rcases findIrr_spec ordered.serviceOk with ⟨missing, none⟩ | ⟨eligible, highest⟩
    · exact Or.inl ⟨missing, none⟩
    · exact Or.inr ⟨ne_spuriousVector eligible.1, eligible, highest⟩
  · rw [getIvr_vector] at real ⊢
    show contains history.sapic.getIvr.2.isr v = true ↔ _
    rw [getIvr_isr]
    simp [real]
  · show contains (insert history.sapic.irr vector.toNat) v = true ↔ _
    rw [contains_insert (by decide)]
    simp

/-- Two nested interrupts, the second above the first. -/
def nestedTwice : History :=
  [Op.raise 0x30, .readIvr, .raise 0x51, .readIvr].foldl History.step
    ⟨.reset 0 ⟨false, false, false, false, 0, 0⟩, []⟩

/-- The higher of the two retires first. -/
theorem interrupts_nest_twice :
    nestedTwice.accepted = [0x51, 0x30] ∧
      ∀ v, contains (nestedTwice.step .writeEoi).sapic.isr v = true ↔ v = 0x30 := by
  have reachable : Reachable nestedTwice :=
    .step _ (.step _ (.step _ (.step _ (.start 0 ⟨false, false, false, false, 0, 0⟩))))
  have order : nestedTwice.accepted = [0x51, 0x30] := by decide +kernel
  refine ⟨order, fun v => ?_⟩
  rw [(interrupts_nest reachable).2.2.2.1, order]
  simp

end Ia64.Sapic
