import Mathlib.Algebra.Group.Nat.Defs
import Mathlib.Data.List.Pairwise
import Mathlib.Tactic.Common

/-! The virtual address map of the runtime services, and the conversion of pointers by it. -/

namespace Ia64.Efi.Runtime

/-- Arithmetic on 64-bit words. -/
def word64 (n : Nat) : Nat := n % 2 ^ 64

/-- A memory descriptor, of the firmware's memory map or of the map that the caller supplies. -/
structure Descriptor where
  physicalStart : Nat
  virtualStart : Nat
  numberOfPages : Nat
  attributes : BitVec 64
deriving DecidableEq, Repr

/-- The attribute of memory that runtime services use. -/
def Descriptor.runtime (desc : Descriptor) : Bool := desc.attributes.getLsbD 63

/-- Two descriptors are of the same physical pages. -/
def Descriptor.samePages (desc other : Descriptor) : Bool :=
  desc.physicalStart == other.physicalStart && desc.numberOfPages == other.numberOfPages

/-- Neither the physical nor the virtual range of a descriptor is empty or reaches the end of the
address space. -/
def Descriptor.rangeValid (desc : Descriptor) : Bool :=
  if desc.numberOfPages = 0 ∨ (2 ^ 64 - 1) / 2 ^ 12 < desc.numberOfPages then false
  else
    let size := word64 (desc.numberOfPages * 2 ^ 12)
    desc.physicalStart ≤ 2 ^ 64 - 1 - size && desc.virtualStart ≤ 2 ^ 64 - 1 - size

/-- Whether two ranges overlap. -/
def rangesOverlap (aBase aSize bBase bSize : Nat) : Bool :=
  aSize != 0 && bSize != 0 && aBase < word64 (bBase + bSize) && bBase < word64 (aBase + aSize)

/-- What the services fail with. -/
inductive Status where
  | unsupported
  | invalidParameter
  | noMapping
  | notFound
deriving DecidableEq, Repr

/-- The descriptor of the caller's map for some pages, which may be there at most once. -/
def findPages (pages : Descriptor) : List Descriptor → Option Descriptor → Except Status
    (Option Descriptor)
  | [], found => .ok found
  | desc :: rest, found =>
    if desc.samePages pages then
      if found.isSome then .error .invalidParameter else findPages pages rest (some desc)
    else findPages pages rest found

/-- The entry of the virtual map for a runtime descriptor of the firmware. -/
def runtimeEntry (virtualMap : List Descriptor) (desc : Descriptor) : Except Status Descriptor := do
  match ← findPages desc virtualMap none with
  | none => .error .noMapping
  | some found =>
    if found.virtualStart = 0 ∨ !found.runtime then .error .noMapping
    else if found.physicalStart % 4096 ≠ 0 ∨ found.virtualStart % 4096 ≠ 0
      then .error .invalidParameter
    else if !found.rangeValid then .error .invalidParameter
    else .ok found

/-- The entries for all runtime descriptors of the firmware, of which the table holds 128. -/
def runtimeEntries (virtualMap : List Descriptor) :
    List Descriptor → List Descriptor → Except Status (List Descriptor)
  | [], table => .ok table
  | desc :: rest, table =>
    if !desc.runtime then runtimeEntries virtualMap rest table
    else match runtimeEntry virtualMap desc with
      | .error status => .error status
      | .ok found =>
        if 128 ≤ table.length then .error .invalidParameter
        else runtimeEntries virtualMap rest (table ++ [found])

/-- Every mapped runtime descriptor of the caller is one of the firmware. -/
def callerChecked (memoryMap : List Descriptor) : List Descriptor → Except Status Unit
  | [] => .ok ()
  | desc :: rest =>
    if !desc.runtime || desc.virtualStart == 0 then callerChecked memoryMap rest
    else if !desc.rangeValid then .error .invalidParameter
    else if memoryMap.any fun known =>
      known.runtime && known.samePages desc then callerChecked memoryMap rest
    else .error .notFound

/-- Every entry of the virtual map is aligned and overlaps none in front of it. -/
def tableChecked (before : List Descriptor) : List Descriptor → Except Status Unit
  | [] => .ok ()
  | left :: rest =>
    if left.physicalStart % 0x2000 ≠ 0 ∨ left.virtualStart % 0x2000 ≠ 0
      then .error .invalidParameter
    else if before.any fun right =>
        rangesOverlap left.virtualStart (word64 (left.numberOfPages * 2 ^ 12)) right.virtualStart
          (word64 (right.numberOfPages * 2 ^ 12)) then .error .invalidParameter
    else tableChecked (before ++ [left]) rest

/-- The state of the runtime services. -/
structure State where
  memoryMap : List Descriptor
  bootServicesExited : Bool
  virtualAddressMapInProgress : Bool
  virtualAddressMapApplied : Bool
  virtualAddressMap : List Descriptor

/-- The descriptors of the caller's map, which begins at `virtualMap 0` and has one every
`descriptorSize` bytes. -/
def callerMap (memoryMapSize descriptorSize : Nat) (virtualMap : Nat → Descriptor) :
    List Descriptor :=
  (List.range (memoryMapSize / descriptorSize)).map fun i => virtualMap (i * descriptorSize)

/-- SetVirtualAddressMap up to the moment at which it has checked the map and begins to convert
pointers. -/
def State.setVirtualAddressMap (s : State) (memoryMapSize descriptorSize descriptorVersion : Nat)
    (virtualMap : Nat → Descriptor) : Except Status State := do
  if !s.bootServicesExited || s.virtualAddressMapApplied then throw .unsupported
  if memoryMapSize = 0 ∨ descriptorSize < 40 ∨ descriptorVersion ≠ 1 ∨
    memoryMapSize % descriptorSize ≠ 0 then
    throw .invalidParameter
  let supplied := callerMap memoryMapSize descriptorSize virtualMap
  let table ← runtimeEntries supplied s.memoryMap []
  callerChecked s.memoryMap supplied
  tableChecked [] table
  return { s with virtualAddressMap := table, virtualAddressMapInProgress := true }

/-- Whether an entry of the virtual map is for an address. -/
def Descriptor.converts (desc : Descriptor) (value : Nat) : Bool :=
  desc.rangeValid && desc.physicalStart ≤ value &&
    value < word64 (desc.physicalStart + word64 (desc.numberOfPages * 2 ^ 12))

/-- Convert a pointer: the status, and the pointer afterwards. -/
def State.convertPointerValue (s : State) (value : Nat) : Except Status Unit × Nat :=
  if !s.virtualAddressMapInProgress && !s.virtualAddressMapApplied then (.error .notFound, value)
  else
    match s.virtualAddressMap.find? (·.converts value) with
    | some desc => (.ok (), word64 (desc.virtualStart + (value - desc.physicalStart)))
    | none => (.error .notFound, value)

/-- The size of a descriptor's range. -/
def Descriptor.size (desc : Descriptor) : Nat := desc.numberOfPages * 2 ^ 12

/-- A descriptor's physical range contains an address. -/
def Descriptor.Contains (desc : Descriptor) (value : Nat) : Prop :=
  desc.physicalStart ≤ value ∧ value < desc.physicalStart + desc.size

/-- The physical ranges of two descriptors are disjoint. -/
def Descriptor.DisjointFrom (desc other : Descriptor) : Prop :=
  ∀ value, desc.Contains value → ¬ other.Contains value

section Conversion

variable {s t : State} {supplied memoryMap table : List Descriptor}
  {desc found : Descriptor} {value : Nat}

theorem rangeValid_iff : desc.rangeValid ↔
    desc.numberOfPages ≠ 0 ∧ desc.physicalStart + desc.size < 2 ^ 64 ∧
      desc.virtualStart + desc.size < 2 ^ 64 := by
  rw [Descriptor.rangeValid, Descriptor.size]
  split_ifs with bad
  · simp only [false_iff]
    omega
  · have wrapped : word64 (desc.numberOfPages * 2 ^ 12) = desc.numberOfPages * 2 ^ 12 :=
      Nat.mod_eq_of_lt (by omega)
    simp only [wrapped, Bool.and_eq_true, decide_eq_true_eq]
    omega

theorem findPages_some {result : Option Descriptor}
    (done : findPages desc supplied (some found) = .ok result) :
    result = some found ∧ ∀ other ∈ supplied, other.samePages desc = false := by
  induction supplied with
  | nil => exact ⟨(Except.ok.inj done).symm, by simp⟩
  | cons first rest ih =>
    rw [findPages] at done
    by_cases same : first.samePages desc
    · simp [same] at done
    · rw [if_neg same] at done
      obtain ⟨equal, others⟩ := ih done
      exact ⟨equal, by simpa [same] using others⟩

theorem findPages_spec (done : findPages desc supplied none = .ok (some found)) :
    found ∈ supplied ∧ found.samePages desc ∧ ∀ other ∈ supplied, other.samePages desc →
      other = found := by
  induction supplied with
  | nil => simp [findPages] at done
  | cons first rest ih =>
    rw [findPages] at done
    split_ifs at done with same _
    · obtain ⟨equal, others⟩ := findPages_some done
      obtain rfl := Option.some.inj equal
      refine ⟨List.mem_cons_self, same, fun other member pages => ?_⟩
      rcases List.mem_cons.1 member with rfl | later
      · rfl
      · simp [others other later] at pages
    · obtain ⟨member, pages, others⟩ := ih done
      exact ⟨List.mem_cons_of_mem _ member, pages, by simpa [same] using others⟩

theorem runtimeEntry_spec (done : runtimeEntry supplied desc = .ok found) :
    found ∈ supplied ∧ found.samePages desc ∧
      (∀ other ∈ supplied, other.samePages desc → other = found) ∧ found.rangeValid := by
  rw [runtimeEntry] at done
  cases searched : findPages desc supplied none with
  | error status => simp [searched, bind, Except.bind] at done
  | ok result =>
    cases result with
    | none => simp [searched, bind, Except.bind] at done
    | some only =>
      simp only [searched, bind, Except.bind] at done
      split_ifs at done with unmapped unaligned invalid
      obtain rfl := Except.ok.inj done
      obtain ⟨member, pages, others⟩ := findPages_spec searched
      exact ⟨member, pages, others, by simpa using invalid⟩

/-- The table has the entries of all runtime descriptors. -/
theorem runtimeEntries_spec {result : List Descriptor}
    (done : runtimeEntries supplied memoryMap table = .ok result) :
    (∀ desc ∈ memoryMap, desc.runtime → ∃ found ∈ result, runtimeEntry supplied desc = .ok found) ∧
      (∀ found ∈ table, found ∈ result) ∧
      ∀ found ∈ result, found ∈ table ∨ ∃ desc ∈ memoryMap,
        desc.runtime ∧ runtimeEntry supplied desc = .ok found := by
  induction memoryMap generalizing table with
  | nil =>
    obtain rfl := Except.ok.inj done
    exact ⟨by simp, fun _ member => member, fun _ member => .inl member⟩
  | cons first rest ih =>
    rw [runtimeEntries] at done
    cases runtime : first.runtime with
    | false =>
      obtain ⟨entries, kept, only⟩ := ih (by simpa [runtime] using done)
      refine ⟨by simpa [runtime] using entries, kept, fun found member => ?_⟩
      exact (only found member).imp_right fun ⟨desc, known, rest⟩ =>
        ⟨desc, List.mem_cons_of_mem _ known, rest⟩
    | true =>
      cases entry : runtimeEntry supplied first with
      | error status => simp [runtime, entry] at done
      | ok found =>
        have room : runtimeEntries supplied rest (table ++ [found]) = .ok result := by
          by_cases full : 128 ≤ table.length
          · simp [runtime, entry, full] at done
          · simpa [runtime, entry, full] using done
        obtain ⟨entries, kept, only⟩ := ih room
        have here : found ∈ result := kept found (by simp)
        refine ⟨fun desc member its => ?_, fun old member => kept old (by simp [member]),
          fun old member => ?_⟩
        · rcases List.mem_cons.1 member with rfl | later
          · exact ⟨found, here, entry⟩
          · exact entries desc later its
        · rcases only old member with before | ⟨desc, known, rest⟩
          · rcases List.mem_append.1 before with before | new
            · exact .inl before
            · obtain rfl := List.mem_singleton.1 new
              exact .inr ⟨first, List.mem_cons_self, runtime, entry⟩
          · exact .inr ⟨desc, List.mem_cons_of_mem _ known, rest⟩

/-- The virtual ranges of two entries do not overlap, as far as the check sees. -/
def Apart (left right : Descriptor) : Prop :=
  rangesOverlap left.virtualStart (word64 left.size) right.virtualStart (word64 right.size) = false

/-- The check goes both ways. -/
instance : Std.Symm Apart := ⟨fun left right apart => by
  rw [Apart, rangesOverlap] at apart ⊢
  rw [← apart]
  ac_rfl⟩

/-- So does disjointness. -/
instance : Std.Symm Descriptor.DisjointFrom :=
  ⟨fun _ _ disjoint value right left => disjoint value left right⟩

theorem tableChecked_spec {before : List Descriptor} (done : tableChecked before table = .ok ()) :
    table.Pairwise Apart ∧ ∀ left ∈ table, ∀ right ∈ before, Apart left right := by
  induction table generalizing before with
  | nil => exact ⟨.nil, by simp⟩
  | cons left rest ih =>
    rw [tableChecked] at done
    split_ifs at done with unaligned overlaps
    obtain ⟨pairs, earlier⟩ := ih done
    refine ⟨.cons (fun other member => symm (earlier other member left (by simp))) pairs, ?_⟩
    intro other member right known
    rcases List.mem_cons.1 member with rfl | later
    · simpa [Apart, Descriptor.size] using fun overlap =>
        overlaps (List.any_eq_true.2 ⟨right, known, overlap⟩)
    · exact earlier other later right (by simp [known])

theorem Apart.ne {left right : Descriptor} (apart : Apart left right) (validLeft : left.rangeValid)
    (validRight : right.rangeValid) {a b : Nat} (insideLeft : a < left.size)
    (insideRight : b < right.size) : left.virtualStart + a ≠ right.virtualStart + b := by
  obtain ⟨_, _, endLeft⟩ := rangeValid_iff.1 validLeft
  obtain ⟨_, _, endRight⟩ := rangeValid_iff.1 validRight
  -- Neither sizes nor ends wrap, so the check compares the ranges themselves.
  have wrapped : ∀ n, n < 2 ^ 64 → word64 n = n := fun n small => Nat.mod_eq_of_lt small
  simp only [Apart, rangesOverlap, wrapped left.size (by omega), wrapped right.size (by omega),
    wrapped _ endLeft, wrapped _ endRight, Bool.and_eq_false_iff, bne_eq_false_iff_eq,
      decide_eq_false_iff_not] at apart
  omega

/-- What a checked map is. -/
theorem setVirtualAddressMap_spec {size descriptorSize version : Nat}
    {virtualMap : Nat → Descriptor}
    (checked : s.setVirtualAddressMap size descriptorSize version virtualMap = .ok t) :
    t.virtualAddressMapInProgress ∧
      runtimeEntries (callerMap size descriptorSize virtualMap) s.memoryMap [] =
        .ok t.virtualAddressMap ∧
      tableChecked [] t.virtualAddressMap = .ok () := by
  simp only [State.setVirtualAddressMap, bind, Except.bind, pure, Except.pure, throw, throwThe,
    MonadExceptOf.throw] at checked
  split_ifs at checked
  cases entries : runtimeEntries (callerMap size descriptorSize virtualMap) s.memoryMap [] with
  | error status => simp [entries] at checked
  | ok table =>
    cases caller : callerChecked s.memoryMap (callerMap size descriptorSize virtualMap) with
    | error status => simp [entries, caller] at checked
    | ok _ =>
      cases aligned : tableChecked [] table with
      | error status => simp [entries, caller, aligned] at checked
      | ok _ =>
        simp only [entries, caller, aligned, Except.ok.injEq] at checked
        subst checked
        exact ⟨rfl, rfl, aligned⟩

theorem entry_unique (disjoint : memoryMap.Pairwise Descriptor.DisjointFrom) {other : Descriptor}
    (known : desc ∈ memoryMap) (knownOther : other ∈ memoryMap) (inside : desc.Contains value)
    (insideOther : other.Contains value) : other = desc := by
  by_contra different
  exact disjoint.forall known knownOther (Ne.symm different) value inside insideOther

theorem start_of_samePages (same : found.samePages desc) :
    found.physicalStart = desc.physicalStart := by
  simp_all [Descriptor.samePages]

theorem contains_of_samePages (same : found.samePages desc) :
    found.Contains value ↔ desc.Contains value := by
  simp only [Descriptor.samePages, Bool.and_eq_true, beq_iff_eq] at same
  simp only [Descriptor.Contains, Descriptor.size, same]

theorem converts_iff (valid : desc.rangeValid) : desc.converts value ↔ desc.Contains value := by
  obtain ⟨_, physical, _⟩ := rangeValid_iff.1 valid
  have wrapped : ∀ n, n < 2 ^ 64 → word64 n = n := fun n small => Nat.mod_eq_of_lt small
  rw [Descriptor.converts, ← Descriptor.size, wrapped desc.size (by omega), wrapped _ physical]
  simp [valid, Descriptor.Contains]

/-- Conversion by a checked map: addresses of runtime descriptors go to the virtual range that the
caller supplied for the descriptor, no two of them to one address, and other addresses are not
found. -/
theorem conversion_injective (size descriptorSize version : Nat) (virtualMap : Nat → Descriptor)
    (disjoint : s.memoryMap.Pairwise Descriptor.DisjointFrom)
    (checked : s.setVirtualAddressMap size descriptorSize version virtualMap = .ok t) :
    (∀ desc ∈ s.memoryMap, desc.runtime = true → ∃ found ∈ callerMap size descriptorSize virtualMap,
      found.samePages desc = true ∧
      (∀ other ∈ callerMap size descriptorSize virtualMap, other.samePages desc = true →
        other = found) ∧
      ∀ value, desc.Contains value → found.virtualStart + (value - desc.physicalStart) < 2 ^ 64 ∧
        t.convertPointerValue value = (.ok (), found.virtualStart + (value - desc.physicalStart))) ∧
    (∀ desc ∈ s.memoryMap, ∀ other ∈ s.memoryMap, desc.runtime = true → other.runtime = true →
      ∀ a b, desc.Contains a → other.Contains b →
        (t.convertPointerValue a).2 = (t.convertPointerValue b).2 → a = b) ∧
    ∀ value, (∀ desc ∈ s.memoryMap, desc.runtime = true → ¬ desc.Contains value) →
      t.convertPointerValue value = (.error .notFound, value) := by
  obtain ⟨progress, entries, aligned⟩ := setVirtualAddressMap_spec checked
  obtain ⟨listed, _, only⟩ := runtimeEntries_spec entries
  have pairs := (tableChecked_spec aligned).1
  have origin : ∀ found ∈ t.virtualAddressMap, ∃ desc ∈ s.memoryMap, desc.runtime = true ∧
      runtimeEntry (callerMap size descriptorSize virtualMap) desc = .ok found :=
    fun found member => (only found member).resolve_left (by simp)
  -- The entry that the search finds is the one of the descriptor that contains the address.
  have converts : ∀ desc ∈ s.memoryMap, ∀ found ∈ t.virtualAddressMap,
      runtimeEntry (callerMap size descriptorSize virtualMap) desc = .ok found → ∀ value,
        desc.Contains value →
      found.virtualStart + (value - desc.physicalStart) < 2 ^ 64 ∧
        t.convertPointerValue value = (.ok (),
          found.virtualStart + (value - desc.physicalStart)) := by
    intro desc known found member entry value inside
    obtain ⟨_, same, _, valid⟩ := runtimeEntry_spec entry
    have contains := (contains_of_samePages same).2 inside
    have start := start_of_samePages same
    have bounded : found.virtualStart + (value - desc.physicalStart) < 2 ^ 64 := by
      have ends := (rangeValid_iff.1 valid).2.2
      have below := contains.2
      omega
    refine ⟨bounded, ?_⟩
    cases search : t.virtualAddressMap.find? (·.converts value) with
    | none =>
      have absent := List.find?_eq_none.1 search found member
      exact absurd ((converts_iff valid).2 contains) absent
    | some chosen =>
      obtain ⟨other, knownOther, _, entryOther⟩ := origin chosen (List.mem_of_find?_eq_some search)
      obtain ⟨_, sameOther, _, validOther⟩ := runtimeEntry_spec entryOther
      have taken : chosen.converts value = true := by simpa using List.find?_some search
      have insideOther := (contains_of_samePages sameOther).1 ((converts_iff validOther).1 taken)
      obtain rfl := entry_unique disjoint known knownOther inside insideOther
      obtain rfl : chosen = found := Except.ok.inj (entryOther.symm.trans entry)
      rw [State.convertPointerValue, progress, search]
      simp only [Bool.not_true, Bool.false_and, Bool.false_eq_true, if_false, start]
      rw [word64, Nat.mod_eq_of_lt bounded]
  refine ⟨fun desc known runtime => ?_, ?_, fun value outside => ?_⟩
  · obtain ⟨found, member, entry⟩ := listed desc known runtime
    obtain ⟨given, same, others, _⟩ := runtimeEntry_spec entry
    exact ⟨found, given, same, others, converts desc known found member entry⟩
  · intro desc known other knownOther runtime runtimeOther a b insideA insideB equal
    obtain ⟨found, member, entry⟩ := listed desc known runtime
    obtain ⟨found', member', entry'⟩ := listed other knownOther runtimeOther
    rw [(converts desc known found member entry a insideA).2,
      (converts other knownOther found' member' entry' b insideB).2] at equal
    obtain ⟨_, same, _, valid⟩ := runtimeEntry_spec entry
    obtain ⟨_, same', _, valid'⟩ := runtimeEntry_spec entry'
    obtain ⟨lowA, highA⟩ := (contains_of_samePages same).2 insideA
    obtain ⟨lowB, highB⟩ := (contains_of_samePages same').2 insideB
    rw [← start_of_samePages same, ← start_of_samePages same'] at equal
    by_cases one : found = found'
    · subst one
      omega
    · exact absurd equal ((pairs.forall member member' one).ne valid valid' (by omega) (by omega))
  · have absent : t.virtualAddressMap.find? (·.converts value) = none := by
      rw [List.find?_eq_none]
      intro found member converts
      obtain ⟨desc, known, runtime, entry⟩ := origin found member
      obtain ⟨_, same, _, valid⟩ := runtimeEntry_spec entry
      exact outside desc known runtime
        ((contains_of_samePages same).1 ((converts_iff valid).1 converts))
    rw [State.convertPointerValue, progress, absent]
    rfl

/-- A firmware map with two runtime descriptors and memory between them that is not used at run
time. -/
def twoRuntimeRanges : State where
  memoryMap :=
    [⟨0x2000, 0, 1, 0x8000000000000000⟩, ⟨0x4000, 0, 3, 0⟩, ⟨0x8000, 0, 2, 0x8000000000000000⟩]
  bootServicesExited := true
  virtualAddressMapInProgress := false
  virtualAddressMapApplied := false
  virtualAddressMap := []

/-- A caller's map that moves the first range to where the second one was. -/
def movedRanges (offset : Nat) : Descriptor :=
  if offset = 0 then ⟨0x2000, 0x8000, 1, 0x8000000000000000⟩
    else ⟨0x8000, 0x20000, 2, 0x8000000000000000⟩

/-- Both ranges are moved, and the memory between them is not found. -/
theorem conversion_injective_twoRanges :
    ∃ t, twoRuntimeRanges.setVirtualAddressMap 80 40 1 movedRanges = .ok t ∧
      t.convertPointerValue 0x2010 = (.ok (), 0x8010) ∧
        t.convertPointerValue 0x9ff8 = (.ok (), 0x21ff8) ∧
      t.convertPointerValue 0x4000 = (.error .notFound, 0x4000) := by
  have checked : twoRuntimeRanges.setVirtualAddressMap 80 40 1 movedRanges =
    .ok { twoRuntimeRanges with
      virtualAddressMapInProgress := true, virtualAddressMap :=
        [movedRanges 0, movedRanges 40] } := rfl
  have disjoint : twoRuntimeRanges.memoryMap.Pairwise Descriptor.DisjointFrom := by
    refine .cons (fun other member value inside outside => ?_)
      (.cons (fun other member value inside outside => ?_) (List.pairwise_singleton _ _))
    · simp only [List.mem_cons, List.not_mem_nil, or_false] at member
      rcases member with rfl |
        rfl <;> simp only [Descriptor.Contains, Descriptor.size] at inside outside <;> omega
    · obtain rfl := List.mem_singleton.1 member
      simp only [Descriptor.Contains, Descriptor.size] at inside outside
      omega
  obtain ⟨moves, -, others⟩ := conversion_injective 80 40 1 movedRanges disjoint checked
  obtain ⟨low, -, -, only, first⟩ :=
    moves ⟨0x2000, 0, 1, 0x8000000000000000⟩ (by decide) (by decide)
  obtain rfl := only (movedRanges 0) (by decide) (by decide)
  obtain ⟨high, -, -, only, second⟩ :=
    moves ⟨0x8000, 0, 2, 0x8000000000000000⟩ (by decide) (by decide)
  obtain rfl := only (movedRanges 40) (by decide) (by decide)
  refine ⟨_, checked, (first 0x2010 ⟨by decide, by decide⟩).2,
    (second 0x9ff8 ⟨by decide, by decide⟩).2, others 0x4000 ?_⟩
  simp [twoRuntimeRanges, Descriptor.runtime, Descriptor.Contains, Descriptor.size]

end Conversion

end Ia64.Efi.Runtime
