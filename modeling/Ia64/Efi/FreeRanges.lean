import Ia64.Lib.GapSearch
import Mathlib.Data.Nat.Bitwise

/-! The searches for free memory of the boot services: pages, image bases and gaps in a pool
arena. -/

namespace Ia64.Efi.Memory

open GapSearch

/-- The types of memory. -/
inductive MemoryType where
  | reservedMemoryType
  | loaderCode
  | loaderData
  | bootServicesCode
  | bootServicesData
  | runtimeServicesCode
  | runtimeServicesData
  | conventionalMemory
  | unusableMemory
  | acpiReclaimMemory
  | acpiMemoryNvs
  | memoryMappedIo
  | memoryMappedIoPortSpace
  | palCode
deriving DecidableEq, Repr

/-- The size of a page. -/
def efiPageSize : Nat := 4096

/-- The alignment of pages for the system. -/
def ia64EfiMemoryAlign : Nat := 0x2000

/-- Round up to a multiple of a power of two, if the result is a 64-bit number. -/
def alignUp (value alignment : Nat) : Option Nat :=
  let mask := alignment - 1
  if 2 ^ 64 - 1 - mask < value then none else some ((value + mask) / alignment * alignment)

/-- ACPI memory and memory with the runtime attribute start and end at multiples of the large page
size. -/
def requiresIa64Alignment (type : MemoryType) (attr : BitVec 64) : Bool :=
  type == .acpiReclaimMemory || type == .acpiMemoryNvs || attr.getLsbD 63

/-- A record of allocated pages. -/
structure PageAllocation where
  inUse : Bool
  base : Nat
  pages : Nat
deriving DecidableEq

/-- A record of the pool table. -/
structure PoolRecord where
  inUse : Bool
  type : MemoryType
  base : Nat
  size : Nat
  backingBase : Nat
  backingPages : Nat

/-- A record of an allocated pool block, which lies in its arena in whole units of the pool
alignment. -/
structure PoolAllocation extends PoolRecord where
  inside : backingBase ≤ base ∧ base + size ≤ backingBase + backingPages * 2 ^ 12
  bounded : backingBase + backingPages * 2 ^ 12 < 2 ^ 64
  units : 8 ∣ backingBase ∧ 8 ∣ base ∧ 8 ∣ size

/-- A record of a loaded image. -/
structure LoadedImage where
  inUse : Bool
  imageBase : Nat
  imageSize : Nat
  imageCodeType : MemoryType
deriving DecidableEq

/-- The tables of allocations. -/
structure Allocations where
  pageAllocations : List PageAllocation
  poolAllocations : List PoolAllocation
  loadedImages : List LoadedImage

/-- The alignment of pool memory. -/
def efiPoolAlignment : Nat := 8

/-- The alignment of images. -/
def ia64EfiImageAlign : Nat := 0x10000

/-- The size of a number of pages, if there are any and it is a 64-bit number. -/
def pagesToSize (pages : Nat) : Option Nat :=
  let size := pages * 2 ^ 12 % 2 ^ 64
  if pages = 0 ∨ size / 2 ^ 12 ≠ pages then none else some size

/-- The attribute of a type of memory. -/
def memoryAttribute (type : MemoryType) (attr : BitVec 64) : BitVec 64 :=
  if type = .runtimeServicesCode ∨ type = .runtimeServicesData ∨ type = .palCode
    then attr ||| 1#64 <<< 63 else attr

/-- The granularity of allocations of a type. -/
def memoryTypeAllocationGranularity (type : MemoryType) : Nat :=
  if requiresIa64Alignment type (memoryAttribute type 0) then ia64EfiMemoryAlign else efiPageSize

/-- The size of the allocation of an image, zero if it is not a 64-bit number. -/
def peLoadedImageAllocationSize (imageSize : Nat) (codeType : MemoryType) : Nat :=
  (alignUp imageSize (memoryTypeAllocationGranularity codeType)).getD 0

/-- The range of an allocation of some pages, unless it leaves the address space. -/
def pageRange (inUse : Bool) (base pages : Nat) : Option Interval :=
  match pagesToSize pages with
  | none => none
  | some size => if inUse = false ∨ 2 ^ 64 - 1 - size < base then none else some ⟨base, base + size⟩

/-- The pages of a record. -/
def PageAllocation.range (rec : PageAllocation) : Option Interval :=
  pageRange rec.inUse rec.base rec.pages

/-- The pages of the arena of a record. -/
def PoolAllocation.backingRange (rec : PoolAllocation) : Option Interval :=
  pageRange rec.inUse rec.backingBase rec.backingPages

/-- The block of a record. -/
def PoolAllocation.range (rec : PoolAllocation) : Interval := ⟨rec.base, rec.base + rec.size⟩

/-- The memory of a loaded image. -/
def LoadedImage.range (rec : LoadedImage) : Option Interval :=
  let size := peLoadedImageAllocationSize rec.imageSize rec.imageCodeType
  if rec.inUse = false ∨ size = 0 ∨ 2 ^ 64 - 1 - size < rec.imageBase then none
  else some ⟨rec.imageBase, rec.imageBase + size⟩

section

variable (allocations : Allocations)

/-- The first end and the last start of the page and pool allocations that overlap a range. -/
def findAllocationOverlap (start stop : Nat) : Option (Nat × Nat) :=
  if stop ≤ start then none
  else
    let pages :=
      (allocations.pageAllocations.filterMap PageAllocation.range).foldl (meet start stop) none
    (allocations.poolAllocations.filterMap PoolAllocation.backingRange).foldl
      (meet start stop) pages

/-- The first end and the last start of the loaded images that overlap a range. -/
def peFindLoadedImageOverlap (start stop : Nat) : Option (Nat × Nat) :=
  if stop ≤ start then none
  else (allocations.loadedImages.filterMap LoadedImage.range).foldl (meet start stop) none

/-- Find the highest free range of pages. -/
def findFreePagesBackward (start stop size alignment : Nat) : Option Nat :=
  if size = 0 ∨ stop ≤ start ∨ stop - start < size ∨ alignment = 0 ∨
    alignment &&& (alignment - 1) ≠ 0 then none
  else searchDown (fun low high => (findAllocationOverlap allocations low high).map Prod.snd) start
    size alignment stop

/-- The end of the source of an image, at most the last address. -/
def sourceEnd (sourceBase sourceSize : Nat) : Nat :=
  if 2 ^ 64 - 1 - sourceBase < sourceSize then 2 ^ 64 - 1 else sourceBase + sourceSize

/-- What is in the way of an image: its source, allocations and loaded images, of which the nearest
edge counts. -/
def imageBlocker (sourceBase sourceSize : Nat) (edge : Nat × Nat → Nat)
    (better : Nat → Nat → Bool) (low high : Nat) : Option Nat :=
  let source :=
    if sourceSize ≠ 0 ∧ low < sourceEnd sourceBase sourceSize ∧ sourceBase < high then
      some (edge (sourceEnd sourceBase sourceSize, sourceBase))
    else none
  let blocker := nearer better source ((findAllocationOverlap allocations low high).map edge)
  nearer better blocker ((peFindLoadedImageOverlap allocations low high).map edge)

end

variable {alignment stop start : Nat}

theorem le_of_alignUp (positive : 0 < alignment) (value next : Nat)
    (rounded : alignUp value alignment = some next) : value ≤ next := by
  simp only [alignUp] at rounded
  split_ifs at rounded
  have above := Nat.lt_div_mul_add (a := value + (alignment - 1)) positive
  have same := Option.some.inj rounded
  omega

section

variable (allocations : Allocations)

/-- Find the lowest place for an image. -/
def peFindImageBaseForward (start stop size sourceBase sourceSize : Nat) : Option Nat :=
  if size = 0 ∨ stop ≤ start ∨ stop - start < size then none
  else
    (alignUp start ia64EfiImageAlign).bind
      (searchUp (imageBlocker allocations sourceBase sourceSize Prod.fst fun new old => new < old)
        (le_of_alignUp (show 0 < ia64EfiImageAlign by decide)) size stop)

/-- Find the highest place for an image. -/
def peFindImageBaseBackward (start stop size sourceBase sourceSize : Nat) : Option Nat :=
  if size = 0 ∨ stop ≤ start ∨ stop - start < size then none
  else
    searchDown (imageBlocker allocations sourceBase sourceSize Prod.snd
      fun new old => old < new) start size ia64EfiImageAlign stop

/-- The end of the arena of a record. -/
def poolBackingEnd (rec : PoolAllocation) : Nat :=
  (rec.backingBase + rec.backingPages * 2 ^ 12) % 2 ^ 64

/-- The blocks in use of the arena of a record. -/
def Allocations.blocks (arena : PoolAllocation) : List Interval :=
  (allocations.poolAllocations.filter fun rec => rec.inUse ∧
    rec.backingBase = arena.backingBase).map PoolAllocation.range

/-- The first end of the blocks of an arena that overlap a range. -/
def poolBlocker (arena : PoolAllocation) (low high : Nat) : Option Nat :=
  ((allocations.blocks arena).foldl (meet low high) none).map Prod.fst

/-- Find the lowest gap in an arena. -/
def poolFindGap (arena : PoolAllocation) (size : Nat) : Option Nat :=
  searchUp (poolBlocker allocations arena) (le_of_alignUp (show 0 < efiPoolAlignment by decide))
    size (poolBackingEnd arena) arena.backingBase

/-- The page and pool allocations in use. -/
def Allocations.live : List Interval :=
  allocations.pageAllocations.filterMap PageAllocation.range ++
    allocations.poolAllocations.filterMap PoolAllocation.backingRange

/-- The memory of the loaded images. -/
def Allocations.images : List Interval :=
  allocations.loadedImages.filterMap LoadedImage.range

variable (sourceBase sourceSize : Nat)

/-- The memory that an image is loaded from. -/
def sourceRange : List Interval :=
  if sourceSize = 0 then [] else [⟨sourceBase, sourceBase + sourceSize⟩]

theorem alignUp_rounds (positive : 0 < alignment) (power : alignment ∣ 2 ^ 64)
    (bounded : stop < 2 ^ 64) : RoundsUp alignment stop (fun value => alignUp value alignment) := by
  intro value
  obtain ⟨turns, whole⟩ := power
  simp only [alignUp]
  by_cases large : 2 ^ 64 - 1 - (alignment - 1) < value
  · -- The multiple after the last one below is the end of the address space.
    rw [if_pos large]
    rintro base ⟨count, rfl⟩ high
    have next : alignment * (turns - 1) < alignment * count := by
      rw [Nat.mul_sub, Nat.mul_one, ← whole]
      omega
    have all : alignment * turns ≤ alignment * count :=
      Nat.mul_le_mul_left _ (by have := Nat.lt_of_mul_lt_mul_left next; omega)
    omega
  · rw [if_neg large]
    refine ⟨Nat.dvd_mul_left _ _, ?_, ?_⟩
    · have above := Nat.lt_div_mul_add (a := value + (alignment - 1)) positive
      omega
    · rintro base ⟨count, rfl⟩ high
      rw [Nat.mul_comm alignment count]
      refine Nat.mul_le_mul_right _ (Nat.le_of_lt_succ ((Nat.div_lt_iff_lt_mul positive).2 ?_))
      rw [Nat.succ_mul, Nat.mul_comm count]
      omega

theorem reports_scan (intervals : List Interval) (low high : Nat) :
    Reports intervals low high (intervals.foldl (meet low high) none) := by
  have none : Reports [] low high none := fun interval member => absurd member List.not_mem_nil
  exact reports_foldl intervals none

theorem findAllocationOverlap_reports (proper : start < stop) :
    Reports allocations.live start stop (findAllocationOverlap allocations start stop) := by
  rw [findAllocationOverlap, if_neg (Nat.not_le.2 proper)]
  exact reports_foldl _ (reports_scan _ start stop)

theorem peFindLoadedImageOverlap_reports (proper : start < stop) :
    Reports allocations.images start stop (peFindLoadedImageOverlap allocations start stop) := by
  rw [peFindLoadedImageOverlap, if_neg (Nat.not_le.2 proper)]
  exact reports_scan _ start stop

/-- The memory that an image is loaded from, cut off at the last address. -/
def cutSourceRange : List Interval :=
  if sourceSize = 0 then [] else [⟨sourceBase, sourceEnd sourceBase sourceSize⟩]

/-- What is in the way of an image. -/
theorem imageBlocker_probed {edge : Nat × Nat → Nat}
    {side : Interval → Nat} (better : Nat → Nat → Bool) (same : ∀ interval : Interval,
      edge (interval.stop, interval.start) = side interval)
    (reported : ∀ {blockers low high found}, Reports blockers low high found →
      Probed blockers side low high (found.map edge)) {low high : Nat} (proper : low < high) :
    Probed (cutSourceRange sourceBase sourceSize ++ allocations.live ++ allocations.images) side
      low high (imageBlocker allocations sourceBase sourceSize edge better low high) := by
  refine (Probed.nearer ?_ (reported (findAllocationOverlap_reports allocations proper))
    better).nearer (reported (peFindLoadedImageOverlap_reports allocations proper)) better
  unfold cutSourceRange
  by_cases empty : sourceSize = 0
  · rw [if_pos empty, if_neg (by simp [empty])]
    exact fun interval member => absurd member List.not_mem_nil
  · rw [if_neg empty]
    by_cases overlaps : low < sourceEnd sourceBase sourceSize ∧ sourceBase < high
    · rw [if_pos ⟨empty, overlaps⟩]
      exact ⟨_, List.mem_singleton_self _, overlaps, (same _).symm⟩
    · rw [if_neg fun blocked => overlaps blocked.2]
      intro interval member
      rw [List.mem_singleton.1 member]
      exact overlaps

end

/-- The cut of the source does not matter below 2^64. -/
theorem fits_cutSourceRange {sourceBase sourceSize : Nat} (blockers : List Interval)
    {align size : Nat} (positive : 0 < size) (bounded : stop < 2 ^ 64) :
    Fits (cutSourceRange sourceBase sourceSize ++ blockers) align start stop size =
      Fits (sourceRange sourceBase sourceSize ++ blockers) align start stop size := by
  ext base
  refine and_congr_right fun _ => and_congr_right fun _ => and_congr_right fun inside => ?_
  rw [List.forall_mem_append, List.forall_mem_append]
  refine and_congr_left fun _ => ?_
  unfold cutSourceRange sourceRange
  by_cases empty : sourceSize = 0
  · rw [if_pos empty, if_pos empty]
  · rw [if_neg empty, if_neg empty, List.forall_mem_singleton, List.forall_mem_singleton]
    -- Both ends lie above the base, or neither does.
    have same : base < sourceEnd sourceBase sourceSize ↔ base < sourceBase + sourceSize := by
      unfold sourceEnd
      split_ifs <;> omega
    simp only [Interval.Overlaps, same]

section Searches

variable (allocations : Allocations) (start stop size sourceBase sourceSize : BitVec 64)

/-- The aligned bases of a free range of memory. -/
abbrev pageBases (alignment : Nat) : Set Nat :=
  Fits allocations.live alignment start.toNat stop.toNat size.toNat

/-- The aligned bases of a free place for an image. -/
abbrev imageBases : Set Nat :=
  Fits (sourceRange sourceBase.toNat sourceSize.toNat ++ (allocations.live ++ allocations.images))
    ia64EfiImageAlign start.toNat stop.toNat size.toNat

/-- The aligned bases of a gap in an arena. -/
abbrev gapBases (arena : PoolAllocation) : Set Nat :=
  Fits (allocations.blocks arena) efiPoolAlignment arena.backingBase
    (arena.backingBase + arena.backingPages * 2 ^ 12) size.toNat

variable {start stop size}

variable {blockers : List Interval} {align : Nat}

theorem fits_eq_empty (positive : 0 < size.toNat)
    (close : size.toNat = 0 ∨ stop.toNat ≤ start.toNat ∨ stop.toNat - start.toNat < size.toNat) :
    Fits blockers align start.toNat stop.toNat size.toNat = ∅ := by
  refine Set.eq_empty_iff_forall_notMem.2 ?_
  rintro base ⟨-, low, high, -⟩
  omega

theorem findFreePagesBackward_highest (positive : 0 < size.toNat) (k : Nat) :
    Highest (pageBases allocations start stop size (2 ^ k))
      (findFreePagesBackward allocations start.toNat stop.toNat size.toNat (2 ^ k)) := by
  -- The test for a power of two passes, and the scan reports starts of allocations.
  have power : 2 ^ k &&& (2 ^ k - 1) = 0 := by
    rw [Nat.and_two_pow_sub_one_eq_mod, Nat.mod_self]
  have nonzero : 2 ^ k ≠ 0 := by simp
  unfold findFreePagesBackward
  by_cases close : size.toNat = 0 ∨ stop.toNat ≤ start.toNat ∨ stop.toNat - start.toNat < size.toNat
  · rw [if_pos (by tauto)]
    exact fits_eq_empty positive close
  · rw [if_neg (by tauto)]
    exact searchDown_spec positive (Nat.two_pow_pos k) _ fun base _ =>
      (findAllocationOverlap_reports allocations (by omega)).lastStart

theorem peFindImageBaseBackward_highest (positive : 0 < size.toNat) :
    Highest (imageBases allocations start stop size sourceBase sourceSize)
      (peFindImageBaseBackward allocations start.toNat stop.toNat size.toNat sourceBase.toNat
        sourceSize.toNat) := by
  unfold peFindImageBaseBackward
  by_cases close : size.toNat = 0 ∨ stop.toNat ≤ start.toNat ∨ stop.toNat - start.toNat < size.toNat
  · rw [if_pos close]
    exact fits_eq_empty positive close
  · rw [if_neg close, imageBases, ← fits_cutSourceRange _ positive stop.isLt, ← List.append_assoc]
    exact searchDown_spec positive (by decide) _ fun base _ =>
      imageBlocker_probed allocations _ _ _ (fun _ => rfl) Reports.lastStart (by omega)

/-- The multiples from an address on. -/
theorem fits_alignUp (positive : 0 < align) (power : align ∣ 2 ^ 64)
    {found : Nat → Option Nat} (lowest : ∀ base, align ∣ base →
      Lowest (Fits blockers align base stop.toNat size.toNat) (found base)) :
    Lowest (Fits blockers align start.toNat stop.toNat size.toNat)
      ((alignUp start.toNat align).bind found) := by
  have rounds := alignUp_rounds positive power stop.isLt start.toNat
  dsimp only at rounds
  cases rounded : alignUp start.toNat align with
  | none =>
    rw [rounded] at rounds
    refine Set.eq_empty_iff_forall_notMem.2 ?_
    rintro base ⟨multiple, low, high, -⟩
    have := rounds base multiple low
    omega
  | some next =>
    rw [rounded] at rounds
    obtain ⟨multiple, higher, least⟩ := rounds
    have same : Fits blockers align start.toNat stop.toNat size.toNat =
        Fits blockers align next stop.toNat size.toNat := by
      ext base
      exact ⟨fun ⟨divides, low, rest⟩ => ⟨divides, least base divides low, rest⟩,
        fun ⟨divides, low, rest⟩ => ⟨divides, by omega, rest⟩⟩
    rw [same]
    exact lowest next multiple

theorem peFindImageBaseForward_lowest (positive : 0 < size.toNat) :
    Lowest (imageBases allocations start stop size sourceBase sourceSize)
      (peFindImageBaseForward allocations start.toNat stop.toNat size.toNat sourceBase.toNat
        sourceSize.toNat) := by
  unfold peFindImageBaseForward
  by_cases close : size.toNat = 0 ∨ stop.toNat ≤ start.toNat ∨ stop.toNat - start.toNat < size.toNat
  · rw [if_pos close]
    exact fits_eq_empty positive close
  · rw [if_neg close, imageBases, ← fits_cutSourceRange _ positive stop.isLt, ← List.append_assoc]
    refine fits_alignUp (by decide) (by decide) fun base divides => ?_
    exact searchUp_spec _ positive (alignUp_rounds (by decide) (by decide) stop.isLt)
      (fun base _ =>
        imageBlocker_probed allocations _ _ _ (fun _ => rfl) Reports.firstEnd (by omega)) divides

theorem poolFindGap_lowest (arena : PoolAllocation) (positive : 0 < size.toNat) :
    Lowest (gapBases allocations size arena) (poolFindGap allocations arena size.toNat) := by
  -- The end of the arena is a 64-bit address, so its computation does not wrap.
  have stop : poolBackingEnd arena = arena.backingBase + arena.backingPages * 2 ^ 12 :=
    Nat.mod_eq_of_lt arena.bounded
  unfold poolFindGap
  rw [stop]
  exact searchUp_spec _ positive (alignUp_rounds (by decide) (by decide) arena.bounded)
    (fun base _ => (reports_scan _ _ _).firstEnd) arena.units.1

/-- Every search finds a place whenever there is one: the backward ones the highest, the others the
lowest. -/
theorem searches_complete (arena : PoolAllocation) (k : Nat) (positive : 0 < size.toNat) :
    Highest (pageBases allocations start stop size (2 ^ k))
        (findFreePagesBackward allocations start.toNat stop.toNat size.toNat (2 ^ k)) ∧
      Highest (imageBases allocations start stop size sourceBase sourceSize)
        (peFindImageBaseBackward allocations start.toNat stop.toNat size.toNat sourceBase.toNat
          sourceSize.toNat) ∧
      Lowest (imageBases allocations start stop size sourceBase sourceSize)
        (peFindImageBaseForward allocations start.toNat stop.toNat size.toNat sourceBase.toNat
          sourceSize.toNat) ∧
      Lowest (gapBases allocations size arena) (poolFindGap allocations arena size.toNat) :=
  ⟨findFreePagesBackward_highest allocations positive k,
    peFindImageBaseBackward_highest allocations sourceBase sourceSize positive,
    peFindImageBaseForward_lowest allocations sourceBase sourceSize positive,
    poolFindGap_lowest allocations arena positive⟩

end Searches

section Pool

/-- The zeroed tail of each block. -/
def efiPoolPadding : Nat := 8

/-- The least size of an arena. -/
def efiPoolChunkSize : Nat := 0x10000

/-- The size of the block for a request: whole units, and the tail. -/
def poolBlockSize (size : Nat) : Option Nat :=
  (alignUp (if size = 0 then efiPoolAlignment else size) efiPoolAlignment).bind fun rounded =>
    if 2 ^ 64 - 1 - efiPoolPadding < rounded then none else some (rounded + efiPoolPadding)

/-- The arenas of a type, each by its first record in use. -/
def firstMembers (type : MemoryType) : List PoolAllocation → List Nat → List PoolAllocation
  | [], _ => []
  | rec :: rest, seen =>
    if !rec.inUse then firstMembers type rest seen
    else if rec.type = type ∧ rec.backingBase ∉ seen
      then rec :: firstMembers type rest (rec.backingBase :: seen)
    else firstMembers type rest (rec.backingBase :: seen)

/-- The record that AllocatePool makes: in the first arena of the type that has a gap, or else in a
new arena in one of the ranges of conventional memory, which are searched one after the other. -/
def allocatePool (allocations : Allocations) (ranges : List (BitVec 64 × BitVec 64))
    (type : MemoryType) (size : Nat) : Option PoolRecord :=
  (poolBlockSize size).bind fun block =>
    match (firstMembers type allocations.poolAllocations []).findSome? fun arena =>
        (poolFindGap allocations arena block).map fun memory => (arena, memory) with
    | some (arena, memory) =>
      some ⟨true, type, memory, block, arena.backingBase, arena.backingPages⟩
    | none =>
      let alignment := memoryTypeAllocationGranularity type
      (alignUp (max block efiPoolChunkSize) alignment).bind fun backing =>
        (ranges.findSome? fun range =>
          findFreePagesBackward allocations range.1.toNat range.2.toNat backing alignment).map
            fun base =>
            ⟨true, type, base, block, base, backing / 2 ^ 12⟩

variable {allocations : Allocations} {size : Nat}

theorem alignUp_spec {value alignment next : Nat} (small : alignment ≤ 2 ^ 64)
    (rounded : alignUp value alignment = some next) : alignment ∣ next ∧ next < 2 ^ 64 := by
  simp only [alignUp] at rounded
  split_ifs at rounded
  have below := Nat.div_mul_le_self (value + (alignment - 1)) alignment
  rw [← Option.some.inj rounded]
  exact ⟨Nat.dvd_mul_left _ _, by omega⟩

theorem poolBlockSize_spec {block : Nat} (sized : poolBlockSize size = some block) :
    8 ∣ block ∧ size + efiPoolPadding ≤ block ∧ block < 2 ^ 64 := by
  obtain ⟨rounded, aligned, padded⟩ := Option.bind_eq_some_iff.mp sized
  have above := le_of_alignUp (by decide) _ _ aligned
  have units : 8 ∣ rounded := (alignUp_spec (by decide) aligned).1
  split_ifs at padded with large
  obtain rfl := Option.some.inj padded
  rw [efiPoolPadding] at large ⊢
  refine ⟨Nat.dvd_add units (by decide), ?_, by omega⟩
  split_ifs at above <;> omega

/-- AllocatePool keeps what the searches rely on. -/
theorem allocatePool_spec {ranges : List (BitVec 64 × BitVec 64)} {type : MemoryType}
    {rec : PoolRecord} (allocated : allocatePool allocations ranges type size = some rec) :
    ∃ allocation : PoolAllocation, allocation.toPoolRecord = rec ∧
      size + efiPoolPadding ≤ rec.size := by
  obtain ⟨block, sized, placed⟩ := Option.bind_eq_some_iff.mp allocated
  obtain ⟨units, enough, small⟩ := poolBlockSize_spec sized
  have number : (BitVec.ofNat 64 block).toNat = block := Nat.mod_eq_of_lt small
  rw [efiPoolPadding] at enough
  split at placed
  · -- The gap lies in an arena that is there.
    rename_i arena memory search
    obtain ⟨chosen, -, answer⟩ := List.exists_of_findSome?_eq_some search
    obtain ⟨place, gap, same⟩ := Option.map_eq_some_iff.mp answer
    cases same
    have lowest := @poolFindGap_lowest allocations (BitVec.ofNat 64 block) arena (by omega)
    rw [number, gap] at lowest
    obtain ⟨⟨aligned, low, high, -⟩, -⟩ := lowest
    obtain rfl := Option.some.inj placed
    rw [number] at high
    exact ⟨⟨⟨true, type, memory, block, _, _⟩, ⟨low, high⟩, arena.bounded, arena.units.1, aligned,
      units⟩, rfl, enough⟩
  · -- A new arena is found as pages are, and the block is at its start.
    obtain ⟨backing, rounded, taken⟩ := Option.bind_eq_some_iff.mp placed
    obtain ⟨base, search, rfl⟩ := Option.map_eq_some_iff.mp taken
    obtain ⟨⟨start, stop⟩, -, found⟩ := List.exists_of_findSome?_eq_some search
    obtain ⟨k, pages, few, granularity⟩ : ∃ k,
      12 ≤ k ∧ k ≤ 64 ∧ memoryTypeAllocationGranularity type = 2 ^ k := by
      cases type <;> first | exact ⟨12, by decide, by decide, rfl⟩ |
        exact ⟨13, by decide, by decide, rfl⟩
    rw [granularity] at rounded found
    have above := le_of_alignUp (Nat.two_pow_pos k) _ _ rounded
    obtain ⟨multiple, bounded⟩ := alignUp_spec (Nat.pow_le_pow_right (by decide) few) rounded
    have whole : 2 ^ 12 ∣ backing := (Nat.pow_dvd_pow 2 pages).trans multiple
    have size : (BitVec.ofNat 64 backing).toNat = backing := Nat.mod_eq_of_lt bounded
    have highest :=
      @findFreePagesBackward_highest allocations start stop (BitVec.ofNat 64 backing) (by omega) k
    rw [size, found] at highest
    obtain ⟨⟨aligned, low, high, -⟩, -⟩ := highest
    rw [size] at high
    have below := stop.isLt
    have start : 8 ∣ base :=
      ((by decide : 8 ∣ 2 ^ 12).trans (Nat.pow_dvd_pow 2 pages)).trans aligned
    have pages : backing / 2 ^ 12 * 2 ^ 12 = backing := Nat.div_mul_cancel whole
    refine ⟨⟨⟨true, type, base, block, base, backing / 2 ^ 12⟩, ⟨le_rfl, ?_⟩, ?_, start, start,
      units⟩, rfl, enough⟩
    · dsimp only
      omega
    · dsimp only
      omega

end Pool

/-- An arena of one page with a block at its start. -/
def oneArena : PoolAllocation :=
  ⟨⟨true, .loaderData, 0x200000, 8, 0x200000, 1⟩, by decide, by decide, by decide⟩

/-- An allocated page and an allocated pool block. -/
def pageAndBlock : Allocations := ⟨[⟨true, 0x102000, 1⟩], [oneArena], []⟩

/-- Searches below an allocated page, around the source of an image and behind a block of an
arena. -/
theorem searches_complete_pageAndBlock :
    Highest (pageBases pageAndBlock 0xf0000#64 0x103000#64 0x10#64 (2 ^ 12)) (some 0x101000) ∧
      Highest (imageBases pageAndBlock 0xf0000#64 0x103000#64 0x10#64 0xf0000#64 0x10#64)
        (some 0x100000) ∧
      Lowest (imageBases pageAndBlock 0xf0000#64 0x103000#64 0x10#64 0xf0000#64 0x10#64)
        (some 0x100000) ∧
      Lowest (gapBases pageAndBlock 0x10#64 oneArena) (some 0x200008) := by
  have pages : findFreePagesBackward pageAndBlock 0xf0000 0x103000 0x10 (2 ^ 12) =
      some 0x101000 := by
    decide +kernel
  have down : peFindImageBaseBackward pageAndBlock 0xf0000 0x103000 0x10 0xf0000 0x10 =
      some 0x100000 := by
    decide +kernel
  have up : peFindImageBaseForward pageAndBlock 0xf0000 0x103000 0x10 0xf0000 0x10 =
      some 0x100000 := by
    decide +kernel
  have gap : poolFindGap pageAndBlock oneArena 0x10 = some 0x200008 := by decide +kernel
  rw [← pages, ← gap]
  nth_rewrite 1 [← down]
  rw [← up]
  exact searches_complete pageAndBlock 0xf0000#64 0x10#64 oneArena 12 (by decide)

end Ia64.Efi.Memory
