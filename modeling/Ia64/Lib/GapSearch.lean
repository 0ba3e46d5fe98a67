import Mathlib.Order.Bounds.Basic
import Mathlib.Tactic.Common

/-! Searches for a gap between intervals that jump past what is in the way instead of stepping. -/

namespace GapSearch

/-- The numbers from a start up to, but not including, a stop. -/
structure Interval where
  start : Nat
  stop : Nat
deriving DecidableEq, Repr

/-- The interval has a number in common with a range. -/
def Interval.Overlaps (interval : Interval) (low high : Nat) : Prop :=
  low < interval.stop ∧ interval.start < high

instance (interval : Interval) (low high : Nat) : Decidable (interval.Overlaps low high) :=
  inferInstanceAs (Decidable (_ ∧ _))

/-- Aligned bases of a range inside the bounds that overlaps none of the intervals. -/
def Fits (blockers : List Interval) (align start stop size : Nat) : Set Nat :=
  {base | align ∣ base ∧ start ≤ base ∧ base + size ≤ stop ∧
    ∀ interval ∈ blockers, ¬interval.Overlaps base (base + size)}

/-- The first end and the last start of the intervals that overlap a range, so far. -/
def meet (low high : Nat) (found : Option (Nat × Nat)) (interval : Interval) : Option (Nat × Nat) :=
  if interval.Overlaps low high then
    match found with
    | none => some (interval.stop, interval.start)
    | some (firstEnd, lastStart) =>
      some (if interval.stop < firstEnd then interval.stop else firstEnd,
        if lastStart < interval.start then interval.start else lastStart)
  else found

/-- What a scan of intervals reports: nothing, or an end and a start of intervals that overlap. -/
def Reports (blockers : List Interval) (low high : Nat) : Option (Nat × Nat) → Prop
  | none => ∀ interval ∈ blockers, ¬interval.Overlaps low high
  | some (firstEnd, lastStart) =>
    (∃ interval ∈ blockers, interval.Overlaps low high ∧ interval.stop = firstEnd) ∧
      ∃ interval ∈ blockers, interval.Overlaps low high ∧ interval.start = lastStart

variable {blockers : List Interval} {low high : Nat} {found : Option (Nat × Nat)}

/-- One more interval is scanned. -/
theorem reports_meet
    (reports : Reports blockers low high found) (interval : Interval) :
    Reports (blockers ++ [interval]) low high (meet low high found interval) := by
  unfold meet
  by_cases overlaps : interval.Overlaps low high
  · -- The interval itself is a witness, or the one found before it still is.
    have here : interval ∈ blockers ++ [interval] := by simp
    have before {other : Interval} (member : other ∈ blockers) : other ∈ blockers ++
        [interval] := by simp [member]
    rw [if_pos overlaps]
    match found, reports with
    | none, _ => exact ⟨⟨interval, here, overlaps, rfl⟩, interval, here, overlaps, rfl⟩
    | some (firstEnd, lastStart),
      ⟨⟨first, firstIn, meetsFirst, ends⟩, last, lastIn, meetsLast, starts⟩ =>
      refine ⟨?_, ?_⟩
      · split_ifs
        · exact ⟨interval, here, overlaps, rfl⟩
        · exact ⟨first, before firstIn, meetsFirst, ends⟩
      · split_ifs
        · exact ⟨interval, here, overlaps, rfl⟩
        · exact ⟨last, before lastIn, meetsLast, starts⟩
  · rw [if_neg overlaps]
    match found, reports with
    | none, clear =>
      intro other member
      rcases List.mem_append.1 member with old | new
      · exact clear other old
      · rw [List.mem_singleton.1 new]
        exact overlaps
    | some _, ⟨⟨first, firstIn, rest⟩, last, lastIn, more⟩ =>
      exact ⟨⟨first, by simp [firstIn], rest⟩, last, by simp [lastIn], more⟩

theorem reports_foldl (intervals : List Interval)
    (reports : Reports blockers low high found) :
    Reports (blockers ++ intervals) low high (intervals.foldl (meet low high) found) := by
  induction intervals generalizing blockers found with
  | nil => simpa using reports
  | cons interval rest ih =>
    have next := ih (reports_meet reports interval)
    simpa using next

/-- A test of a range found an edge of an interval that is in the way, or there is none. -/
def Probed (blockers : List Interval) (edge : Interval → Nat) (low high : Nat) : Option Nat → Prop
  | none => ∀ interval ∈ blockers, ¬interval.Overlaps low high
  | some found => ∃ interval ∈ blockers, interval.Overlaps low high ∧ edge interval = found

theorem Reports.firstEnd
    (reports : Reports blockers low high found) :
    Probed blockers Interval.stop low high (found.map Prod.fst) := by
  cases found with
  | none => exact reports
  | some _ => exact reports.1

theorem Reports.lastStart
    (reports : Reports blockers low high found) :
    Probed blockers Interval.start low high (found.map Prod.snd) := by
  cases found with
  | none => exact reports
  | some _ => exact reports.2

/-- The better one of two edges that were found. -/
def nearer (better : Nat → Nat → Bool) (old new : Option Nat) : Option Nat :=
  match new, old with
  | none, old => old
  | some new, none => some new
  | some new, some old => if better new old then some new else some old

/-- Two tests are one of both lists. -/
theorem Probed.nearer {first second : List Interval} {edge : Interval → Nat} {old new : Option Nat}
    (oldProbed : Probed first edge low high old) (newProbed : Probed second edge low high new)
    (better : Nat → Nat → Bool) :
    Probed (first ++ second) edge low high (nearer better old new) := by
  have left {found : Nat} (probed : Probed first edge low high (some found)) :
      Probed (first ++ second) edge low high (some found) := by
    obtain ⟨interval, member, rest⟩ := probed
    exact ⟨interval, List.mem_append_left _ member, rest⟩
  have right {found : Nat} (probed : Probed second edge low high (some found)) :
      Probed (first ++ second) edge low high (some found) := by
    obtain ⟨interval, member, rest⟩ := probed
    exact ⟨interval, List.mem_append_right _ member, rest⟩
  match old, new with
  | none, none =>
    intro interval member
    exact (List.mem_append.1 member).elim (oldProbed interval) (newProbed interval)
  | some _, none => exact left oldProbed
  | none, some _ => exact right newProbed
  | some _, some _ =>
    unfold GapSearch.nearer
    dsimp only
    split_ifs
    · exact right newProbed
    · exact left oldProbed

/-- The highest of some numbers, or none if there are none. -/
def Highest (bases : Set Nat) : Option Nat → Prop
  | none => bases = ∅
  | some base => IsGreatest bases base

/-- The lowest of some numbers, or none if there are none. -/
def Lowest (bases : Set Nat) : Option Nat → Prop
  | none => bases = ∅
  | some base => IsLeast bases base

section Down

/-- Search for the highest base: after a range that is not free, below the start of what is in the
way. -/
def searchDown (probe : Nat → Nat → Option Nat) (start size align limit : Nat) : Option Nat :=
  if start < limit ∧ size ≤ limit - start then
    let base := (limit - size) / align * align
    if base < start then none
    else
      match probe base (base + size) with
      | none => some base
      | some blocker => if limit ≤ blocker then none else searchDown probe start size align blocker
  else none
termination_by limit

variable {blockers : List Interval} {probe : Nat → Nat → Option Nat} {start size align : Nat}

/-- The search returns the highest base, if there is one. -/
theorem searchDown_spec (positive : 0 < size) (aligned : 0 < align) (limit : Nat)
    (probes : ∀ base, base + size ≤ limit →
      Probed blockers Interval.start base (base + size) (probe base (base + size))) :
    Highest (Fits blockers align start limit size) (searchDown probe start size align limit) := by
  -- The induction is on the limit, which only moves down.
  induction limit using Nat.strong_induction_on with
  | h limit ih =>
    rw [searchDown]
    by_cases room : start < limit ∧ size ≤ limit - start
    swap
    · rw [if_neg room]
      refine Set.eq_empty_iff_forall_notMem.2 ?_
      rintro base ⟨-, low, high, -⟩
      omega
    rw [if_pos room]
    dsimp only
    have lower : (limit - size) / align * align ≤ limit - size := Nat.div_mul_le_self _ _
    have highest {base : Nat} (divides : align ∣ base) (high : base + size ≤ limit) :
        base ≤ (limit - size) / align * align := by
      obtain ⟨count, rfl⟩ := divides
      rw [Nat.mul_comm align count]
      exact Nat.mul_le_mul_right align
        ((Nat.le_div_iff_mul_le aligned).2 (by rw [Nat.mul_comm]; omega))
    have divides : align ∣ (limit - size) / align * align := Nat.dvd_mul_left _ _
    generalize (limit - size) / align * align = base at *
    by_cases below : base < start
    · rw [if_pos below]
      refine Set.eq_empty_iff_forall_notMem.2 ?_
      rintro other ⟨multiple, low, high, -⟩
      have := highest multiple high
      omega
    rw [if_neg below]
    have probed := probes base (by omega)
    cases found : probe base (base + size) with
    | none =>
      rw [found] at probed
      exact ⟨⟨divides, by omega, by omega, probed⟩,
        fun other ⟨multiple, _, high, _⟩ => highest multiple high⟩
    | some blocker =>
      rw [found] at probed
      obtain ⟨interval, member, ⟨ends, begins⟩, rfl⟩ := probed
      dsimp only
      rw [if_neg (by omega)]
      -- A base that reaches above the start of the interval in the way runs into it.
      have same :
          Fits blockers align start limit size = Fits blockers align start interval.start size := by
        ext other
        refine ⟨fun ⟨multiple, low, high, free⟩ => ⟨multiple, low, ?_, free⟩,
          fun ⟨multiple, low, high, free⟩ => ⟨multiple, low, by omega, free⟩⟩
        have := highest multiple high
        by_contra above
        exact free interval member ⟨by omega, by omega⟩
      rw [same]
      exact ih interval.start (by omega) fun base fits => probes base (by omega)

end Down

section Up

/-- Search for the lowest base: after a range that is not free, above the end of what is in the
way. -/
def searchUp (probe : Nat → Nat → Option Nat) {round : Nat → Option Nat}
    (raises : ∀ value next, round value = some next → value ≤ next)
    (size stop base : Nat) : Option Nat :=
  if base + size ≤ stop then
    match probe base (base + size) with
    | none => some base
    | some blocker =>
      -- What is in the way of a range ends above its base, so the search goes on from a higher one.
      if blocker ≤ base then none
      else
        match rounded : round blocker with
        | none => none
        | some next =>
          have := raises blocker next rounded
          searchUp probe raises size stop next
  else none
termination_by stop + 1 - base

/-- A number is rounded up to the next multiple, unless that is out of bounds. -/
def RoundsUp (align stop : Nat) (round : Nat → Option Nat) : Prop :=
  ∀ value, match round value with
    | none => ∀ base, align ∣ base → value ≤ base → stop < base
    | some next => align ∣ next ∧ value ≤ next ∧ ∀ base, align ∣ base → value ≤ base → next ≤ base

variable {blockers : List Interval} {probe : Nat → Nat → Option Nat} {round : Nat → Option Nat}
  {align size stop : Nat}

theorem searchUp_step (raises : ∀ value next, round value = some next → value ≤ next) (base : Nat) :
    searchUp probe raises size stop base =
      if base + size ≤ stop then
        match probe base (base + size) with
        | none => some base
        | some blocker =>
          if blocker ≤ base then none else (round blocker).bind (searchUp probe raises size stop)
      else none := by
  rw [searchUp]
  refine if_congr Iff.rfl ?_ rfl
  cases probe base (base + size) with
  | none => rfl
  | some blocker =>
    refine if_congr Iff.rfl rfl ?_
    -- The source of the next base does not matter, only its value.
    split
    · rename_i rounded
      rw [rounded, Option.bind_none]
    · rename_i next rounded
      exact (congrArg (·.bind (searchUp probe raises size stop)) rounded).symm

/-- The search returns the lowest base, if there is one. -/
theorem searchUp_spec (raises : ∀ value next, round value = some next → value ≤ next)
    (positive : 0 < size) (rounds : RoundsUp align stop round)
    (probes : ∀ base, base + size ≤ stop →
      Probed blockers Interval.stop base (base + size) (probe base (base + size))) {base : Nat}
    (divides : align ∣ base) :
    Lowest (Fits blockers align base stop size) (searchUp probe raises size stop base) := by
  -- The induction is on the room above the base.
  induction room : stop + 1 - base using Nat.strong_induction_on generalizing base with
  | h left ih =>
    rw [searchUp_step]
    by_cases inside : base + size ≤ stop
    swap
    · rw [if_neg inside]
      refine Set.eq_empty_iff_forall_notMem.2 ?_
      rintro other ⟨-, low, high, -⟩
      omega
    rw [if_pos inside]
    have probed := probes base inside
    cases found : probe base (base + size) with
    | none =>
      rw [found] at probed
      exact ⟨⟨divides, Nat.le_refl _, inside, probed⟩, fun other ⟨_, low, _, _⟩ => low⟩
    | some blocker =>
      rw [found] at probed
      obtain ⟨interval, member, ⟨ends, begins⟩, rfl⟩ := probed
      dsimp only
      rw [if_neg (by omega)]
      -- A base below the end of the interval in the way runs into it.
      have above {other : Nat} (fits : other ∈ Fits blockers align base stop size) : interval.stop ≤
          other := by
        obtain ⟨-, low, -, free⟩ := fits
        by_contra below
        exact free interval member ⟨by omega, by omega⟩
      have rounded := rounds interval.stop
      cases aligned : round interval.stop with
      | none =>
        rw [aligned] at rounded
        refine Set.eq_empty_iff_forall_notMem.2 fun other fits => ?_
        have := rounded other fits.1 (above fits)
        have := fits.2.2.1
        omega
      | some next =>
        rw [aligned] at rounded
        obtain ⟨multiple, higher, least⟩ := rounded
        have same : Fits blockers align base stop size = Fits blockers align next stop size := by
          ext other
          refine ⟨fun fits => ⟨fits.1, least other fits.1 (above fits), fits.2.2⟩,
            fun ⟨multiple, low, rest⟩ => ⟨multiple, by omega, rest⟩⟩
        rw [same]
        exact ih (stop + 1 - next) (by omega) multiple rfl

end Up

end GapSearch
