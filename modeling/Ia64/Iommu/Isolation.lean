import Ia64.Iommu.CacheLaws

/-! Isolation: what a translation returns was read from the page directory since the last purge of
its page. -/

namespace Ia64.Iommu

open Pages Sweep Frontend Function

section Routes

/-- Translation is on and an address lies in the window. -/
structure Frontend.Inside (iommu : Frontend) (window : Window) (iova : Word) : Prop where
  small : iova ≤ physMask
  enabled : (iommu.register .ibase &&& 1 == 0) = false
  shift : decodeTcnfg (iommu.register .tcnfg) = some window.pageShift
  decoded : decodeWindow (iommu.register .ibase)
    (iommu.register .imask) window.pageShift = some window
  inside : window.iovaIsBypass iova false = false

variable {ibase imask iova address index : Word} {shift : Nat} {window : Window} {iommu : Frontend}
  {dvi : Bool}

theorem decodeWindow_spec
    (decoded : decodeWindow ibase imask shift = some window) :
    ∃ block, block < 64 ∧ shift ≤ block ∧ window.base = ibase &&& ~~~(1 : Word) ∧
      window.mask = ~~~(pageSize 64 block - 1) ∧
      window.pdirIndexMask = pageSize 64 (block - shift) - 1 := by
  simp only [decodeWindow] at decoded
  split_ifs at decoded with shape malformed
  cases decoded
  simp only [not_or, Bool.not_eq_false, BitVec.not_lt] at malformed shape
  obtain ⟨block, narrow, size⟩ := exists_shift_of_isPowerOfTwo malformed.2.1
  have larger := malformed.1
  rw [size] at larger
  have within : shift ≤ block := (pageSize_le_iff (by omega) narrow).mp larger
  refine ⟨block, narrow, within, rfl, ?_, ?_⟩
  · rw [← size, BitVec.add_sub_cancel, BitVec.not_not]
  · -- The aperture holds a power of two of pages.
    have pages : pageSize 64 block >>> shift = pageSize 64 (block - shift) := by
      apply BitVec.eq_of_toNat_eq
      rw [BitVec.toNat_ushiftRight, pageSize_toNat narrow, pageSize_toNat (by omega),
        Nat.shiftRight_eq_div_pow, Nat.pow_div within (by decide)]
    rw [size, pages]

theorem decodeWindow_pageShift
    (decoded : decodeWindow ibase imask shift = some window) : window.pageShift = shift := by
  simp only [decodeWindow] at decoded
  split_ifs at decoded
  cases decoded
  rfl

/-- An address is refused, its own, or in the window. -/
theorem route_cases (iommu : Frontend) (iova : Word) (dvi : Bool) :
    (∃ fault, iommu.route iova dvi = .blocked fault) ∨
      (∃ shift, KnownShift shift ∧ iova ≤ physMask ∧
        iommu.route iova dvi = .identity (identityEntry iova shift)) ∨
      ∃ window,
        iommu.Inside window iova ∧ iommu.route iova dvi = iommu.routeInside window iova := by
  simp only [route]
  by_cases wide : physMask < iova
  · exact Or.inl ⟨_, if_pos wide⟩
  rw [if_neg wide]
  have small : iova ≤ physMask := BitVec.not_lt.mp wide
  by_cases off : (dvi || iommu.register .ibase &&& 1 == 0)
  · rw [if_pos off]
    -- Without a valid page size the identity pages are the smallest ones.
    refine Or.inr (Or.inl ⟨(decodeTcnfg (iommu.register .tcnfg)).getD 12, ?_, small, rfl⟩)
    cases decoded : decodeTcnfg (iommu.register .tcnfg) with
    | none => exact Or.inl rfl
    | some shift => exact decodeTcnfg_known decoded
  rw [if_neg off]
  simp only [Bool.or_eq_true, not_or, Bool.not_eq_true] at off
  cases shifted : decodeTcnfg (iommu.register .tcnfg) with
  | none => exact Or.inl ⟨_, rfl⟩
  | some shift =>
    simp only
    cases decoded : decodeWindow (iommu.register .ibase) (iommu.register .imask) shift with
    | none => exact Or.inl ⟨_, rfl⟩
    | some window =>
      have same := decodeWindow_pageShift decoded
      cases bypass : window.iovaIsBypass iova false with
      | true => exact Or.inr (Or.inl ⟨shift, decodeTcnfg_known shifted, small, by simp [bypass]⟩)
      | false =>
        subst same
        exact Or.inr (Or.inr ⟨window, ⟨small, off.2, shifted, decoded, bypass⟩, by simp [bypass]⟩)

theorem routeInside_cases (iommu : Frontend) (window : Window) (iova : Word) :
    (∃ slot, iommu.iotlb.lookupSlot iova = some slot ∧
      iommu.routeInside window iova = .cached slot) ∨
      (∃ fault, iommu.routeInside window iova = .blocked fault) ∨
      ∃ address, iommu.iotlb.lookupSlot iova = none ∧
        iommu.routeInside window iova = .walk window.pageShift address := by
  rw [routeInside]
  cases found : iommu.iotlb.lookupSlot iova with
  | some slot => exact Or.inl ⟨slot, rfl, rfl⟩
  | none =>
    cases (window.pdirIndex iova false).bind (iommu.pdirAddress window) with
    | none => exact Or.inr (Or.inl ⟨_, rfl⟩)
    | some address => exact Or.inr (Or.inr ⟨address, rfl, rfl⟩)

/-- What a route says about its address. -/
theorem route_spec (iommu : Frontend) (iova : Word) (dvi : Bool) :
    match iommu.route iova dvi with
    | .cached slot => ∃ window, iommu.Inside window iova ∧ iommu.iotlb.lookupSlot iova = some slot
    | .walk shift _ =>
      ∃ window, iommu.Inside window iova ∧ window.pageShift = shift ∧ KnownShift shift ∧
        iommu.iotlb.lookupSlot iova = none
    | _ => True := by
  rcases route_cases iommu iova dvi with ⟨fault, route⟩ | ⟨_, -, -, route⟩ | ⟨window, inside, route⟩
  · rw [route]
    trivial
  · rw [route]
    trivial
  · rcases routeInside_cases iommu window iova with ⟨slot, found, answer⟩ | ⟨_, answer⟩ |
      ⟨_, missing, answer⟩
    · rw [route, answer]
      exact ⟨window, inside, found⟩
    · rw [route, answer]
      trivial
    · rw [route, answer]
      exact ⟨window, inside, rfl, decodeTcnfg_known inside.shift, missing⟩

theorem route_cached {slot : Nat}
    (cached : iommu.route iova dvi = .cached slot) :
    ∃ window, iommu.Inside window iova ∧ iommu.iotlb.lookupSlot iova = some slot := by
  have spec := route_spec iommu iova dvi
  rwa [cached] at spec

theorem route_walk
    (walked : iommu.route iova dvi = .walk shift address) :
    ∃ window, iommu.Inside window iova ∧ window.pageShift = shift ∧ KnownShift shift ∧
      iommu.iotlb.lookupSlot iova = none := by
  have spec := route_spec iommu iova dvi
  rwa [walked] at spec

/-- The index counts pages from the base. -/
theorem pdirIndex_toNat
    (inside : iommu.Inside window iova) (indexed : window.pdirIndex iova false = some index) :
    index.toNat =
      (iova.toNat - (iommu.register .ibase &&& ~~~(1 : Word)).toNat) / 2 ^ window.pageShift := by
  obtain ⟨block, narrow, within, base, mask, indexMask⟩ := decodeWindow_spec inside.decoded
  have member : iova &&& window.mask = window.base := by
    have bypass := inside.inside
    simp only [Window.iovaIsBypass, Bool.or_false, Bool.or_eq_false_iff] at bypass
    simpa using bypass.2
  -- The base is the address rounded down to the block, so what is left is below the block's size.
  have rounded : window.base.toNat = iova.toNat / 2 ^ block * 2 ^ block := by
    rw [← member, mask, and_not_offset_toNat narrow]
  have below : window.base ≤ iova := by
    rw [BitVec.le_def, rounded]
    exact Nat.div_mul_le_self _ _
  have offset : iova.toNat - window.base.toNat = iova.toNat % 2 ^ block := by
    rw [rounded, Nat.mod_eq_sub_div_mul]
  have small : (iova.toNat - window.base.toNat) / 2 ^ window.pageShift <
      2 ^ (block - window.pageShift) := by
    rw [Nat.div_lt_iff_lt_mul (Nat.two_pow_pos _), ← Nat.pow_add, Nat.sub_add_cancel within, offset]
    exact Nat.mod_lt _ (Nat.two_pow_pos _)
  rw [Window.pdirIndex] at indexed
  split_ifs at indexed
  rw [← Option.some.inj indexed, indexMask, and_offset_toNat (by omega), BitVec.toNat_ushiftRight,
    BitVec.toNat_sub_of_le below, Nat.shiftRight_eq_div_pow, Nat.mod_eq_of_lt small, base]

theorem pdirAddress_toNat
    (located : iommu.pdirAddress window index = some address) :
    address.toNat = (iommu.register .pdirBase).toNat + 8 * index.toNat := by
  simp only [pdirAddress] at located
  split_ifs at located with misplaced beyond
  simp only [not_or, BitVec.not_lt] at misplaced beyond
  have last : index.toNat ≤ (physMask - 7 - iommu.register .pdirBase).toNat / 8 := by
    have bounded := BitVec.le_def.mp (BitVec.le_trans beyond.2 beyond.1)
    rwa [BitVec.toNat_udiv] at bounded
  have base := BitVec.le_def.mp misplaced.2
  have limit : (physMask - 7).toNat = 0x3fffffffffff8 := by decide
  rw [BitVec.toNat_sub_of_le misplaced.2, limit] at last
  rw [limit] at base
  rw [← Option.some.inj located, BitVec.toNat_add, BitVec.toNat_mul,
    show (8 : Word).toNat = 8 from rfl]
  omega

/-- The page directory is read at the entry of the page. -/
theorem walk_address
    (walked : iommu.route iova dvi = .walk shift address) :
    decodeTcnfg (iommu.register .tcnfg) = some shift ∧
      address.toNat = (iommu.register .pdirBase).toNat +
        8 * ((iova.toNat - (iommu.register .ibase &&& ~~~(1 : Word)).toNat) / 2 ^ shift) := by
  rcases route_cases iommu iova dvi with ⟨_, route⟩ | ⟨_, -, -, route⟩ | ⟨window, inside, route⟩
  · rw [route] at walked
    cases walked
  · rw [route] at walked
    cases walked
  · rw [route, routeInside] at walked
    cases found : iommu.iotlb.lookupSlot iova with
    | some slot => simp [found] at walked
    | none =>
      cases located : (window.pdirIndex iova false).bind (iommu.pdirAddress window) with
      | none => simp [found, located] at walked
      | some entry =>
        simp only [found, located, Route.walk.injEq] at walked
        obtain ⟨index, indexed, placed⟩ := Option.bind_eq_some_iff.mp located
        rw [← walked.1, ← walked.2, pdirAddress_toNat placed, pdirIndex_toNat inside indexed]
        exact ⟨inside.shift, rfl⟩

end Routes

/-- What happens to the front end; page directory memory is given anew for every translation. -/
inductive Op where
  | write (offset value : Word) (byteEnable : BitVec 8)
  | translate (iova : Word) (dvi : Bool) (pdirRead : Word → Option Word)

/-- The front end after an operation; a write to another offset is refused. -/
def Frontend.perform (iommu : Frontend) : Op → Frontend
  | .write offset value byteEnable =>
    match iommu.regWrite offset value byteEnable with
    | some (_, after) => after
    | none => iommu
  | .translate iova dvi pdirRead => (iommu.translateEx iova dvi pdirRead).2

/-- What is worth remembering of a run. -/
inductive Event where
  /-- The page directory was read for an address, at an entry that held a value. -/
  | read (iova pdirAddress pte : Word)
  /-- A purge command was accepted. -/
  | purge (purge : Purge)
deriving DecidableEq, Repr

/-- What an operation adds to the log. -/
def Frontend.events (iommu : Frontend) : Op → List Event
  | .write offset value byteEnable =>
    match iommu.regWrite offset value byteEnable with
    | some (some purge, _) => [.purge purge]
    | _ => []
  | .translate iova dvi pdirRead =>
    match iommu.route iova dvi with
    | .walk _ address =>
      match pdirRead address with
      | some pte => [.read iova address pte]
      | none => []
    | _ => []

/-- A front end with the log of its run, the newest event first. -/
structure History where
  iommu : Frontend
  log : List Event

/-- One operation. -/
def History.step (history : History) (op : Op) : History :=
  ⟨history.iommu.perform op, history.iommu.events op ++ history.log⟩

/-- The histories of all runs from reset. -/
inductive Reachable : History → Prop
  | start (config : Register → Word) : Reachable ⟨.reset config, []⟩
  | step {history : History} (op : Op) : Reachable history → Reachable (history.step op)

/-- A page directory entry that maps the page of an entry where the entry maps it. -/
structure Entry.Reads (entry : Entry) (iova pte : Word) : Prop where
  covers : entry.Covers iova
  usable : pteUsable pte
  target : entry.translatedAddr = (pte &&& physMask) &&& ~~~entry.addrMask

/-- An entry was read from the page directory, and its page has not been purged since. -/
def Backed (log : List Event) (entry : Entry) : Prop :=
  ∃ newer iova address pte older, log = newer ++ .read iova address pte :: older ∧
    entry.Reads iova pte ∧ ∀ purge, .purge purge ∈ newer → ¬entry.Meets purge

section Log

variable {log : List Event} {entry : Entry}

theorem backed_of_read {iova address pte : Word} (reads : entry.Reads iova pte) :
    Backed (.read iova address pte :: log) entry :=
  ⟨[], iova, address, pte, log, rfl, reads, fun _ member => absurd member (List.not_mem_nil)⟩

theorem Backed.append {events : List Event} (backed : Backed log entry)
    (harmless : ∀ purge, .purge purge ∈ events → ¬entry.Meets purge) :
    Backed (events ++ log) entry := by
  obtain ⟨newer, iova, address, pte, older, rfl, reads, since⟩ := backed
  refine ⟨events ++ newer, iova, address, pte, older, by simp, reads, fun purge member => ?_⟩
  rcases List.mem_append.mp member with new | old
  · exact harmless purge new
  · exact since purge old

/-- What serves a purged address was read since. -/
theorem Backed.read_since {newer older : List Event} {purge : Purge} {a : Word}
    (backed : Backed (newer ++ .purge purge :: older) entry) (covered : entry.Covers a)
    (purged : purge.Covers a) :
    ∃ iova address pte, .read iova address pte ∈ newer ∧ entry.Reads iova pte := by
  obtain ⟨since, iova, address, pte, before, split, reads, harmless⟩ := backed
  refine ⟨iova, address, pte, ?_, reads⟩
  -- The read is newer than the purge, or the purge would be among the events since the read.
  rcases List.append_eq_append_iff.mp split with ⟨middle, longer, rest⟩ | ⟨middle, shorter, rest⟩
  · cases middle with
    | nil => simp at rest
    | cons event middle =>
      simp only [List.cons_append, List.cons.injEq] at rest
      exact absurd ⟨a, covered, purged⟩ (harmless purge (by rw [longer, ← rest.1]; simp))
  · cases middle with
    | nil => simp at rest
    | cons event middle =>
      simp only [List.cons_append, List.cons.injEq] at rest
      rw [shorter, ← rest.1]
      simp

end Log

/-- What holds in every history: the cursor is a slot, and slots hold pages read since their last
purge. -/
structure History.Sound (history : History) : Prop where
  cursor : history.iommu.rrNext < slotCount
  paged : ∀ i, i < slotCount → (history.iommu.iotlb.slots i).valid →
    (history.iommu.iotlb.slots i).entry.WellFormed
  backed : ∀ i, i < slotCount → (history.iommu.iotlb.slots i).valid →
    Backed history.log (history.iommu.iotlb.slots i).entry

section Steps

variable {history : History}

variable {slot shift i : Nat} {iova pte : Word}

theorem lookupSlot_spec {iommu : Frontend} {a : Word}
    (paged : ∀ i, i < slotCount → (iommu.iotlb.slots i).valid →
      (iommu.iotlb.slots i).entry.WellFormed)
    (found : iommu.iotlb.lookupSlot a = some slot) :
    slot < slotCount ∧ (iommu.iotlb.slots slot).valid ∧
      (iommu.iotlb.slots slot).entry.Covers a := by
  obtain ⟨inside, answers, -⟩ := firstSlot_eq_some_iff.mp found
  have valid : (iommu.iotlb.slots slot).valid := (Bool.and_eq_true _ _ ▸ answers).1
  exact ⟨inside, (answers_iff (paged slot inside valid)).mp answers⟩

/-- What a translation does and returns. -/
theorem translateEx_cases (sound : history.Sound) (iova : Word) (dvi : Bool)
    (pdirRead : Word → Option Word) :
    ((history.iommu.translateEx iova dvi pdirRead).2 = history.iommu ∧
        ((∃ fault, (history.iommu.translateEx iova dvi pdirRead).1 = .blocked fault) ∨
          (∃ entry, (history.iommu.translateEx iova dvi pdirRead).1 = .identity entry) ∨
          ∃ slot, history.iommu.iotlb.lookupSlot iova = some slot ∧
            (history.iommu.translateEx iova dvi pdirRead).1 =
              .translated (history.iommu.iotlb.slots slot).entry none)) ∨
      ∃ shift address pte, KnownShift shift ∧ iova ≤ physMask ∧ pteUsable pte ∧
        history.iommu.events (.translate iova dvi pdirRead) = [.read iova address pte] ∧
        history.iommu.translateEx iova dvi pdirRead =
          (.translated (pdirEntry iova shift pte)
            (history.iommu.iotlb.slots history.iommu.fillSlot).evicted,
            history.iommu.filled history.iommu.fillSlot (pdirEntry iova shift pte)) := by
  rw [translateEx, events]
  cases route : history.iommu.route iova dvi with
  | blocked fault => exact Or.inl ⟨rfl, Or.inl ⟨fault, rfl⟩⟩
  | identity entry => exact Or.inl ⟨rfl, Or.inr (Or.inl ⟨entry, rfl⟩)⟩
  | cached slot =>
    obtain ⟨_, _, found⟩ := route_cached route
    exact Or.inl ⟨rfl, Or.inr (Or.inr ⟨slot, found, rfl⟩)⟩
  | walk shift address =>
    obtain ⟨window, inside, -, known, -⟩ := route_walk route
    simp only
    cases read : pdirRead address with
    | none => exact Or.inl ⟨rfl, Or.inl ⟨_, rfl⟩⟩
    | some pte =>
      simp only
      cases usable : pteUsable pte with
      | false => exact Or.inl ⟨rfl, Or.inl ⟨_, rfl⟩⟩
      | true =>
        refine Or.inr ⟨shift, address, pte, known, inside.small, usable, rfl, ?_⟩
        rw [if_pos rfl, fill_eq sound.cursor ⟨shift, pdirEntry_paged known inside.small⟩]

theorem pdirEntry_reads (known : KnownShift shift) (small : iova ≤ physMask)
    (usable : pteUsable pte) : (pdirEntry iova shift pte).Reads iova pte :=
  ⟨pdirEntry_covers known small, usable, rfl⟩

variable (iommu : Frontend)

/-- A translation reads the directory at most once. -/
theorem events_translate (iova : Word) (dvi : Bool) (pdirRead : Word → Option Word) :
    iommu.events (.translate iova dvi pdirRead) = [] ∨
      ∃ address pte shift, iommu.events (.translate iova dvi pdirRead) = [.read iova address pte] ∧
        pdirRead address = some pte ∧ decodeTcnfg (iommu.register .tcnfg) = some shift ∧
        address.toNat = (iommu.register .pdirBase).toNat +
          8 * ((iova.toNat - (iommu.register .ibase &&& ~~~(1 : Word)).toNat) / 2 ^ shift) := by
  rw [events]
  cases route : iommu.route iova dvi with
  | walk shift address =>
    simp only
    cases read : pdirRead address with
    | none => exact Or.inl rfl
    | some pte => exact Or.inr ⟨address, pte, shift, rfl, read, walk_address route⟩
  | blocked fault => exact Or.inl rfl
  | identity entry => exact Or.inl rfl
  | cached slot => exact Or.inl rfl

theorem events_translate_no_purge (iova : Word) (dvi : Bool)
    (pdirRead : Word → Option Word) (purge : Purge) :
    .purge purge ∉ iommu.events (.translate iova dvi pdirRead) := by
  rcases events_translate iommu iova dvi pdirRead with quiet | ⟨_, _, _, logged, -⟩
  · simp [quiet]
  · simp [logged]

/-- Filling a slot with what was read keeps soundness. -/
theorem sound_filled (sound : history.Sound) {address : Word} (known : KnownShift shift)
    (small : iova ≤ physMask) (usable : pteUsable pte) :
    History.Sound
      ⟨history.iommu.filled slot (pdirEntry iova shift pte),
        .read iova address pte :: history.log⟩ := by
  have new : ∀ i, i = slot →
      ((history.iommu.filled slot (pdirEntry iova shift pte)).iotlb.slots i).entry =
        pdirEntry iova shift pte := by
    intro i same
    subst same
    simp [filled]
  have old : ∀ i, i ≠ slot → (history.iommu.filled slot (pdirEntry iova shift pte)).iotlb.slots i =
      history.iommu.iotlb.slots i := by
    intro i apart
    simp [filled, apart]
  refine ⟨?_, fun i inside valid => ?_, fun i inside valid => ?_⟩
  · show (if _ then _ else _) < slotCount
    split_ifs
    · exact Nat.mod_lt _ (by decide)
    · exact sound.cursor
  · by_cases same : i = slot
    · simp only [new i same]
      exact ⟨shift, pdirEntry_paged known small⟩
    · simp only [old i same] at valid ⊢
      exact sound.paged i inside valid
  · by_cases same : i = slot
    · simp only [new i same]
      exact backed_of_read (pdirEntry_reads known small usable)
    · simp only [old i same] at valid ⊢
      show Backed ([.read iova address pte] ++ history.log) _
      exact (sound.backed i inside valid).append (by simp)

theorem sound_translate (sound : history.Sound) (iova : Word) (dvi : Bool)
    (pdirRead : Word → Option Word) : (history.step (.translate iova dvi pdirRead)).Sound := by
  rw [History.step, perform]
  rcases translateEx_cases sound iova dvi pdirRead with
    ⟨unchanged, -⟩ | ⟨shift, address, pte, known, small, usable, logged, filled⟩
  · rw [unchanged]
    refine ⟨sound.cursor, sound.paged, fun i inside valid =>
      (sound.backed i inside valid).append ?_⟩
    exact fun purge member => absurd member (events_translate_no_purge _ _ _ _ _)
  · rw [logged, filled]
    exact sound_filled sound known small usable

/-- Only an accepted purge changes the cache. -/
theorem regWrite_cases (offset value : Word) (byteEnable : BitVec 8) :
    (iommu.perform (.write offset value byteEnable)).rrNext = iommu.rrNext ∧
      (((iommu.perform (.write offset value byteEnable)).iotlb = iommu.iotlb ∧
          iommu.events (.write offset value byteEnable) = []) ∨
        ∃ purge, purge.WellFormed ∧ iommu.events (.write offset value byteEnable) = [.purge purge] ∧
          (iommu.perform (.write offset value byteEnable)).iotlb =
            (iommu.iotlb.invalidate purge).2) := by
  simp only [perform, events, regWrite]
  cases regPtr offset with
  | none => exact ⟨rfl, Or.inl ⟨rfl, rfl⟩⟩
  | some reg =>
    simp only
    split_ifs
    · cases decodeTcnfg (update iommu.register reg
        (mergeBytes (iommu.register reg) value byteEnable) .tcnfg) with
      | none => exact ⟨rfl, Or.inl ⟨rfl, rfl⟩⟩
      | some shift =>
        simp only
        cases decoded : decodePcom (update iommu.register reg
          (mergeBytes (iommu.register reg) value byteEnable) .pcom) shift with
        | none => exact ⟨rfl, Or.inl ⟨rfl, rfl⟩⟩
        | some purge => exact ⟨rfl, Or.inr ⟨purge, decodePcom_wellFormed decoded, rfl, rfl⟩⟩
    · exact ⟨rfl, Or.inl ⟨rfl, rfl⟩⟩

/-- Merging a lane replaces the bits of that byte. -/
theorem mergeLane_getLsbD (current value : Word) (lane : Nat) (inside : i < 64) :
    ((current &&& ~~~((0xff : Word) <<< (lane * 8))) |||
        (value &&& (0xff : Word) <<< (lane * 8))).getLsbD i =
      if i / 8 = lane then value.getLsbD i else current.getLsbD i := by
  have byte : ∀ m, (0xff : Word).getLsbD m = decide (m < 8) :=
    fun m => Nat.testBit_two_pow_sub_one 8 m
  have mask : ((0xff : Word) <<< (lane * 8)).getLsbD i = decide (i / 8 = lane) := by
    rw [BitVec.getLsbD_shiftLeft, byte, Bool.eq_iff_iff]
    simp only [inside, decide_true, Bool.true_and, Bool.and_eq_true, Bool.not_eq_eq_eq_not,
      Bool.not_true, decide_eq_false_iff_not, decide_eq_true_eq]
    omega
  rw [BitVec.getLsbD_or, BitVec.getLsbD_and, BitVec.getLsbD_and, BitVec.getLsbD_not, mask]
  by_cases own : i / 8 = lane
  · simp [own]
  · simp [own, inside]

/-- A byte-enabled write replaces the enabled bytes. -/
theorem mergeBytes_getLsbD (oldValue value : Word) (byteEnable : BitVec 8) (inside : i < 64) :
    (mergeBytes oldValue value byteEnable).getLsbD i =
      if byteEnable.getLsbD (i / 8) then value.getLsbD i else oldValue.getLsbD i := by
  have bounded : i / 8 < 8 := by omega
  -- The bit is written by the visit of its own lane and by no other.
  have swept := sweep_pointwise
    (fun (current : Word) lane => if byteEnable.getLsbD lane then
      (current &&& ~~~((0xff : Word) <<< (lane * 8))) ||| (value &&& (0xff : Word) <<< (lane * 8))
      else current)
    (fun current lane => decide (i / 8 = lane) && current.getLsbD i)
    (fun lane bit =>
      if byteEnable.getLsbD lane then decide (i / 8 = lane) && value.getLsbD i else bit)
    (fun current lane => by
      by_cases own : i / 8 = lane <;> split_ifs <;>
        simp only [mergeLane_getLsbD _ _ _ inside, own, if_true, decide_false, Bool.false_and])
    (fun current lane other apart => by
      by_cases own : i / 8 = other
      · have foreign : i / 8 ≠ lane := fun same => apart (own.symm.trans same)
        split_ifs <;> simp only [mergeLane_getLsbD _ _ _ inside, if_neg foreign]
      · simp only [own, decide_false, Bool.false_and]) 8 oldValue (i / 8)
  simpa only [mergeBytes, decide_true, Bool.true_and, if_pos bounded] using swept

theorem perform_command (value : Word) (byteEnable : BitVec 8) :
    (iommu.perform (.write 0x310 value byteEnable)).register .pcom =
      mergeBytes (iommu.register .pcom) value byteEnable := by
  have pcom : regPtr 0x310 = some .pcom := rfl
  simp only [perform, regWrite, pcom, true_and]
  split_ifs
  · cases decodeTcnfg (update iommu.register .pcom
      (mergeBytes (iommu.register .pcom) value byteEnable) .tcnfg) with
    | none => simp
    | some shift =>
      simp only
      cases decodePcom (update iommu.register .pcom
        (mergeBytes (iommu.register .pcom) value byteEnable) .pcom) shift with
      | none => simp
      | some purge => simp
  · simp

/-- Which commands are accepted, and what they purge. -/
theorem events_command (value : Word) (byteEnable : BitVec 8) (purge : Purge) :
    .purge purge ∈ iommu.events (.write 0x310 value byteEnable) ↔
      byteEnable &&& 0x0f ≠ 0 ∧ ∃ shift sizeCode, decodeTcnfg (iommu.register .tcnfg) = some shift ∧
        purge.Commanded (mergeBytes (iommu.register .pcom) value byteEnable) shift sizeCode := by
  have pcom : regPtr 0x310 = some .pcom := rfl
  have other : Register.tcnfg ≠ .pcom := by decide
  simp only [events, regWrite, pcom, true_and, update_self,
    update_of_ne other]
  by_cases issued : byteEnable &&& 0x0f ≠ 0
  · rw [if_pos issued]
    cases decoded : decodeTcnfg (iommu.register .tcnfg) with
    | none => simp
    | some shift =>
      simp only [issued, Option.some.injEq, exists_and_left, exists_eq_left', true_and, ne_eq,
        not_false_eq_true, ← decodePcom_iff (decodeTcnfg_known decoded)]
      cases decodePcom (mergeBytes (iommu.register .pcom) value byteEnable) shift with
      | none => simp
      | some accepted => simp [eq_comm]
  · rw [if_neg issued]
    exact ⟨fun logged => absurd logged List.not_mem_nil, fun commanded => absurd commanded.1 issued⟩

theorem events_other {offset : Word} (other : offset ≠ 0x310) (value : Word)
    (byteEnable : BitVec 8) : iommu.events (.write offset value byteEnable) = [] := by
  simp only [events, regWrite]
  cases found : regPtr offset with
  | none => rfl
  | some reg =>
    have apart : reg ≠ .pcom := by
      rintro rfl
      simp only [regPtr] at found
      split_ifs at found
      all_goals simp_all
    simp [apart]

/-- A register write keeps a history sound. -/
theorem sound_write (sound : history.Sound) (offset value : Word) (byteEnable : BitVec 8) :
    (history.step (.write offset value byteEnable)).Sound := by
  obtain ⟨cursor, effect⟩ := regWrite_cases history.iommu offset value byteEnable
  rcases effect with ⟨cache, quiet⟩ | ⟨purge, wellFormed, logged, cache⟩
  · rw [History.step, quiet]
    refine ⟨cursor ▸ sound.cursor, ?_, ?_⟩
    · rw [cache]
      exact sound.paged
    · rw [cache]
      exact sound.backed
  · obtain ⟨-, slots⟩ := invalidate_of_wellFormed history.iommu.iotlb wellFormed
    -- A slot that is still valid was valid before, and its page is apart from the purged range.
    have kept : ∀ i, i < slotCount →
        ((history.iommu.iotlb.invalidate purge).2.slots i).valid →
        ((history.iommu.iotlb.invalidate purge).2.slots i).entry =
          (history.iommu.iotlb.slots i).entry ∧
          (history.iommu.iotlb.slots i).valid ∧
            ¬(history.iommu.iotlb.slots i).entry.Meets purge := by
      intro i inside valid
      rw [slots i inside] at valid ⊢
      have before : (history.iommu.iotlb.slots i).valid := by
        by_contra empty
        simp [Slot.purged, empty] at valid
      exact ⟨purged_entry _ _, before,
        ((purged_valid_iff wellFormed (sound.paged i inside before)).mp valid).2⟩
    rw [History.step, logged]
    refine ⟨cursor ▸ sound.cursor, fun i inside valid => ?_, fun i inside valid => ?_⟩
    · simp only [cache] at valid ⊢
      obtain ⟨entry, before, -⟩ := kept i inside valid
      rw [entry]
      exact sound.paged i inside before
    · simp only [cache] at valid ⊢
      obtain ⟨entry, before, apart⟩ := kept i inside valid
      rw [entry]
      refine (sound.backed i inside before).append fun other member => ?_
      simp only [List.mem_singleton, Event.purge.injEq] at member
      rwa [member]

theorem Reachable.sound (reachable : Reachable history) : history.Sound := by
  induction reachable with
  | start config =>
    refine ⟨show 0 < slotCount by decide, fun i _ valid => ?_, fun i _ valid => ?_⟩
    · exact absurd valid Bool.false_ne_true
    · exact absurd valid Bool.false_ne_true
  | step op _ sound =>
    cases op with
    | write offset value byteEnable => exact sound_write sound offset value byteEnable
    | translate iova dvi pdirRead => exact sound_translate sound iova dvi pdirRead

theorem translated_spec (sound : history.Sound) {dvi : Bool} {pdirRead : Word → Option Word}
    {entry : Entry} {eviction : Option Purge}
    (translated : (history.iommu.translateEx iova dvi pdirRead).1 = .translated entry eviction) :
    (entry.Covers iova ∧ Backed (history.step (.translate iova dvi pdirRead)).log entry) ∧
      (((history.iommu.translateEx iova dvi pdirRead).2 = history.iommu ∧ eviction = none) ∨
        ∃ slot, slot < slotCount ∧
          (history.iommu.translateEx iova dvi pdirRead).2.iotlb.slots =
            update history.iommu.iotlb.slots slot ⟨entry, true⟩ ∧
          eviction = (history.iommu.iotlb.slots slot).evicted) := by
  rcases translateEx_cases sound iova dvi pdirRead with
    ⟨unchanged, ⟨fault, blocked⟩ | ⟨identity, same⟩ | ⟨slot, found, hit⟩⟩ |
      ⟨shift, address, pte, known, small, usable, logged, filled⟩
  · rw [blocked] at translated
    cases translated
  · rw [same] at translated
    cases translated
  · rw [hit] at translated
    cases translated
    obtain ⟨inside, valid, covers⟩ := lookupSlot_spec sound.paged found
    refine ⟨⟨covers, (sound.backed slot inside valid).append fun purge member => ?_⟩,
      Or.inl ⟨unchanged, rfl⟩⟩
    exact absurd member (events_translate_no_purge _ _ _ _ _)
  · rw [filled] at translated ⊢
    cases translated
    refine ⟨⟨pdirEntry_covers known small, ?_⟩,
      Or.inr ⟨_, (selectFillSlot_eq sound.cursor).1, rfl, rfl⟩⟩
    rw [History.step, logged]
    exact backed_of_read (pdirEntry_reads known small usable)

end Steps

/-- Isolation: answers are backed by the page directory since the last purge, and replacement is
reported; the log records the directory entry of the page and the range of the command. -/
theorem dma_isolated {history : History} (reachable : Reachable history) :
    history.iommu.rrNext < slotCount ∧
      (∀ i, i < slotCount → (history.iommu.iotlb.slots i).valid = true →
        (history.iommu.iotlb.slots i).entry.WellFormed) ∧
      (∀ iova dvi pdirRead, history.iommu.events (.translate iova dvi pdirRead) = [] ∨
        ∃ address pte shift,
          history.iommu.events (.translate iova dvi pdirRead) = [.read iova address pte] ∧
          pdirRead address = some pte ∧ decodeTcnfg (history.iommu.register .tcnfg) = some shift ∧
          address.toNat = (history.iommu.register .pdirBase).toNat +
            8 * ((iova.toNat - (history.iommu.register .ibase &&& ~~~(1 : Word)).toNat) /
              2 ^ shift)) ∧
      (∀ value byteEnable,
        (∀ i, i < 64 →
          ((history.iommu.perform (.write 0x310 value byteEnable)).register .pcom).getLsbD i =
            if byteEnable.getLsbD (i / 8) then value.getLsbD i
            else (history.iommu.register .pcom).getLsbD i) ∧
        ∀ purge, .purge purge ∈ history.iommu.events (.write 0x310 value byteEnable) ↔
          byteEnable &&& 0x0f ≠ 0 ∧ ∃ shift sizeCode,
            decodeTcnfg (history.iommu.register .tcnfg) = some shift ∧ purge.Commanded
              ((history.iommu.perform (.write 0x310 value byteEnable)).register .pcom)
                shift sizeCode) ∧
      (∀ offset value byteEnable, offset ≠ 0x310 →
        history.iommu.events (.write offset value byteEnable) = []) ∧
      ∀ iova dvi pdirRead entry eviction,
        (history.iommu.translateEx iova dvi pdirRead).1 = .translated entry eviction →
        entry.Covers iova ∧ Backed (history.step (.translate iova dvi pdirRead)).log entry ∧
          (∀ newer purge older, (history.step (.translate iova dvi pdirRead)).log =
              newer ++ .purge purge :: older → purge.Covers iova →
            ∃ read address pte, .read read address pte ∈ newer ∧ entry.Reads read pte) ∧
          (((history.iommu.translateEx iova dvi pdirRead).2 = history.iommu ∧ eviction = none) ∨
            ∃ slot, slot < slotCount ∧
              (history.iommu.translateEx iova dvi pdirRead).2.iotlb.slots =
                update history.iommu.iotlb.slots slot ⟨entry, true⟩ ∧
              eviction = (history.iommu.iotlb.slots slot).evicted) := by
  have sound := reachable.sound
  refine ⟨sound.cursor, sound.paged, events_translate history.iommu, fun value byteEnable => ?_,
    fun offset value byteEnable other => events_other history.iommu other value byteEnable,
    fun iova dvi pdirRead entry eviction translated => ?_⟩
  · rw [perform_command]
    exact ⟨fun i inside => mergeBytes_getLsbD _ _ _ inside,
      events_command history.iommu value byteEnable⟩
  · obtain ⟨⟨covers, backed⟩, slots⟩ := translated_spec sound translated
    refine ⟨covers, backed, fun newer purge older split purged => ?_, slots⟩
    rw [split] at backed
    exact backed.read_since covers purged

/-- A window of one megabyte with pages of four kilobytes. -/
def sampleConfig : Register → Word
  | .ibase => 0x40000001
  | .imask => 0xfffffffffff00000
  | .pcom => 0
  | .tcnfg => 0
  | .pdirBase => 0x10000

/-- One page has been read into the cache, purged and read again from a changed page directory. -/
def sampleRefilled : History :=
  ((History.step ⟨.reset sampleConfig, []⟩
    (.translate 0x40005123 false fun _ => some 0x8000000012345000)).step
      (.write 0x310 0x4000500c 0xff)).step
        (.translate 0x40005777 false fun _ => some 0x8000000022222000)

/-- The page answers with what was read after the purge, although the page directory can no longer
be read. -/
theorem dma_isolated_purged :
    sampleRefilled.log = [.read 0x40005777 0x10028 0x8000000022222000, .purge ⟨0x40005000, 0x1000⟩,
        .read 0x40005123 0x10028 0x8000000012345000] ∧
      (sampleRefilled.iommu.translateEx 0x40005fff false fun _ => none).1 =
        .translated ⟨0x40005000, 0x22222000, 0xfff⟩ none ∧
      ∃ read address pte,
        .read read address pte ∈ [Event.read 0x40005777 0x10028 0x8000000022222000] ∧
        (⟨0x40005000, 0x22222000, 0xfff⟩ : Entry).Reads read pte := by
  have reachable : Reachable sampleRefilled := .step _ (.step _ (.step _ (.start sampleConfig)))
  have hit : (sampleRefilled.iommu.translateEx 0x40005fff false fun _ => none).1 =
      .translated ⟨0x40005000, 0x22222000, 0xfff⟩ none := by decide +kernel
  have log : (sampleRefilled.step (.translate 0x40005fff false fun _ => none)).log =
      [.read 0x40005777 0x10028 0x8000000022222000] ++ .purge ⟨0x40005000, 0x1000⟩ ::
        [.read 0x40005123 0x10028 0x8000000012345000] := by decide +kernel
  obtain ⟨-, -, -, -, -, answers⟩ := dma_isolated reachable
  refine ⟨by decide +kernel, hit, (answers _ _ _ _ _ hit).2.2.1 _ _ _ log ?_⟩
  unfold Purge.Covers
  decide

end Ia64.Iommu
