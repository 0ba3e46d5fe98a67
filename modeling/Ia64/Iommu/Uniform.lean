import Ia64.Iommu.Isolation
import Mathlib.Data.BitVec

/-! Uniform answers: when the entry of a translation is right for every address of its page. -/

namespace Ia64.Iommu

open Pages Sweep Frontend

/-- Where an entry sends an address of its page. -/
def Entry.send (entry : Entry) (a : Word) : Word := entry.translatedAddr + (a - entry.iova)

/-- How far an entry moves the addresses of its page. -/
def Entry.displacement (entry : Entry) : Word := entry.translatedAddr - entry.iova

/-- Where a translation sends its address, unless it is refused. -/
def Outcome.sends (outcome : Outcome) (a : Word) : Option Word :=
  match outcome with
  | .blocked _ => none
  | .identity entry => some (entry.send a)
  | .translated entry _ => some (entry.send a)

/-- The result carries an entry. -/
def Outcome.Answers (outcome : Outcome) (entry : Entry) : Prop :=
  outcome = .identity entry ∨ ∃ eviction, outcome = .translated entry eviction

/-- The addresses of a page that a lower slot answers for are moved as far as the page itself. -/
def Frontend.AgreesBelow (iommu : Frontend) (slot : Nat) (entry : Entry) (a : Word) : Prop :=
  ∀ lower, iommu.iotlb.lookupSlot a = some lower → lower < slot →
    (iommu.iotlb.slots lower).entry.displacement = entry.displacement

/-- The state in which an answer is right for its whole page. -/
def Frontend.Consistent (iommu : Frontend) (iova : Word) (pdirRead : Word → Option Word) : Prop :=
  match iommu.route iova false with
  | .cached slot =>
    -- The cached page may reach out of the window, or share addresses with a lower slot.
    ∀ window, iommu.Inside window iova → ∀ a, (iommu.iotlb.slots slot).entry.Covers a →
      if window.iovaIsBypass a false then
        (iommu.iotlb.slots slot).entry.translatedAddr = (iommu.iotlb.slots slot).entry.iova
      else iommu.AgreesBelow slot (iommu.iotlb.slots slot).entry a
  | .walk pageShift address =>
    -- A new page lies in the window, but smaller pages inside it may be cached already.
    ∀ pte, pdirRead address = some pte → ∀ a, (pdirEntry iova pageShift pte).Covers a →
      iommu.AgreesBelow iommu.fillSlot (pdirEntry iova pageShift pte) a
  | _ => True

section Displacements

theorem send_eq (entry : Entry) (a : Word) : entry.send a = a + entry.displacement := by
  rw [Entry.send, Entry.displacement, add_sub_left_comm]

theorem send_eq_iff {first second : Entry} {a : Word} :
    first.send a = second.send a ↔ first.displacement = second.displacement := by
  rw [send_eq, send_eq]
  exact add_right_inj a

theorem identityEntry_displacement (iova : Word) (shift : Nat) :
    (identityEntry iova shift).displacement = 0 := by
  rw [Entry.displacement, identityEntry]
  exact sub_self _

end Displacements

section Windows

variable {ibase imask : Word} {shift : Nat} {window : Window}

theorem iovaIsBypass_congr (decoded : decodeWindow ibase imask shift = some window) {a b : Word}
    (same : a.toNat / 2 ^ shift = b.toNat / 2 ^ shift) (dvi : Bool) :
    window.iovaIsBypass a dvi = window.iovaIsBypass b dvi := by
  obtain ⟨block, narrow, larger, -, mask, -⟩ := decodeWindow_spec decoded
  have quotient : a.toNat / 2 ^ block = b.toNat / 2 ^ block := by
    rw [← Nat.add_sub_of_le larger, Nat.pow_add, ← Nat.div_div_eq_div_mul,
      ← Nat.div_div_eq_div_mul, same]
  have masked : a &&& window.mask = b &&& window.mask := by
    apply BitVec.eq_of_toNat_eq
    rw [mask, and_not_offset_toNat narrow, and_not_offset_toNat narrow, quotient]
  rw [Window.iovaIsBypass, Window.iovaIsBypass, masked]

end Windows

section Answers

variable {iommu after : Frontend} {window : Window} {iova a : Word}

theorem le_physMask_of_small (small : a.toNat < 2 ^ 50) : a ≤ physMask := by
  have limit : physMask.toNat = 2 ^ 50 - 1 := by decide
  rw [BitVec.le_def]
  omega

theorem route_of_inside (inside : iommu.Inside window iova)
    (registers : after.register = iommu.register) (small : a ≤ physMask) :
    after.route a false =
      if window.iovaIsBypass a false then .identity (identityEntry a window.pageShift)
      else after.routeInside window a := by
  have narrow : ¬physMask < a := BitVec.not_lt.mpr small
  simp only [Frontend.route, registers, if_neg narrow, Bool.false_or, inside.enabled,
    Bool.false_eq_true, if_false, inside.shift, inside.decoded]

theorem routeInside_ne_identity {entry : Entry} :
    iommu.routeInside window iova ≠ .identity entry := by
  rcases routeInside_cases iommu window iova with ⟨slot, -, route⟩ | ⟨fault, route⟩ |
    ⟨address, -, route⟩
  all_goals
    rw [route]
    exact fun same => by cases same

/-- The addresses of an identity page agree. -/
theorem route_identity_congr {entry : Entry} (identity : iommu.route iova false = .identity entry)
    (covered : entry.Covers a) :
    ∃ shift, iommu.route a false = .identity (identityEntry a shift) := by
  rcases route_cases iommu iova false with ⟨fault, route⟩ | ⟨shift, known, small, route⟩ |
    ⟨window, inside, route⟩
  · rw [route] at identity
    cases identity
  · rw [route] at identity
    cases identity
    have paged := identityEntry_paged known small
    have narrow : ¬physMask < a :=
      BitVec.not_lt.mpr (le_physMask_of_small (paged.covers_small covered))
    simp only [Frontend.route, if_neg (BitVec.not_lt.mpr small), if_neg narrow] at route ⊢
    split_ifs at route ⊢ with off
    · exact ⟨_, rfl⟩
    · -- The page of the address is outside the window as a whole.
      cases shifted : decodeTcnfg (iommu.register .tcnfg) with
      | none => simp [shifted] at route
      | some pageShift =>
        simp only [shifted] at route ⊢
        cases decoded : decodeWindow (iommu.register .ibase) (iommu.register .imask) pageShift with
        | none => simp [decoded] at route
        | some window =>
          simp only [decoded] at route ⊢
          have bypass : window.iovaIsBypass iova false := by
            by_contra inside
            rw [if_neg inside] at route
            exact routeInside_ne_identity route
          rw [if_pos bypass] at route
          have entryPaged := identityEntry_paged (decodeTcnfg_known shifted) small
          rw [← Route.identity.inj route, entryPaged.covers_iff] at covered
          have page := covered.trans (rounded_div (decodeTcnfg_known shifted).narrow)
          rw [if_pos ((iovaIsBypass_congr decoded page false).trans bypass)]
          exact ⟨pageShift, rfl⟩
  · exact absurd (route.symm.trans identity) routeInside_ne_identity

theorem sends_of_bypass (inside : iommu.Inside window iova)
    (registers : after.register = iommu.register) (small : a ≤ physMask)
    (bypass : window.iovaIsBypass a false) (later : Word → Option Word) :
    (after.translateEx a false later).1.sends a = some a := by
  have route := route_of_inside inside registers small
  rw [if_pos bypass] at route
  simp [translateEx, route, Outcome.sends, send_eq, identityEntry_displacement]

theorem sends_of_cached (inside : iommu.Inside window iova)
    (registers : after.register = iommu.register) (small : a ≤ physMask)
    (bypass : window.iovaIsBypass a false = false) {slot : Nat}
    (found : after.iotlb.lookupSlot a = some slot) (later : Word → Option Word) :
    (after.translateEx a false later).1.sends a = some ((after.iotlb.slots slot).entry.send a) := by
  have route := route_of_inside inside registers small
  rw [bypass, if_neg Bool.false_ne_true, routeInside, found] at route
  simp only [translateEx, route, Outcome.sends]

end Answers

section Lookups

variable {iommu : Frontend}

theorem lookupSlot_of_covers
    (paged : ∀ i, i < slotCount → (iommu.iotlb.slots i).valid →
      (iommu.iotlb.slots i).entry.WellFormed)
    {slot : Nat} {a : Word} (inside : slot < slotCount) (valid : (iommu.iotlb.slots slot).valid)
    (covers : (iommu.iotlb.slots slot).entry.Covers a) :
    ∃ found, found ≤ slot ∧ iommu.iotlb.lookupSlot a = some found := by
  have answers := (answers_iff (paged slot inside valid)).mpr ⟨valid, covers⟩
  cases lookup : iommu.iotlb.lookupSlot a with
  | none =>
    have none := firstSlot_eq_none_iff.mp lookup slot inside
    rw [answers] at none
    cases none
  | some found =>
    refine ⟨found, ?_, rfl⟩
    by_contra later
    have earlier := (firstSlot_eq_some_iff.mp lookup).2.2 slot (by omega)
    rw [answers] at earlier
    cases earlier

theorem lookupSlot_filled_below {slot lower : Nat} {entry : Entry} {a : Word}
    (below : lower < slot) :
    (iommu.filled slot entry).iotlb.lookupSlot a = some lower ↔
      iommu.iotlb.lookupSlot a = some lower := by
  have same : ∀ i, i ≤ lower →
      ((iommu.filled slot entry).iotlb.slots i).answers a = (iommu.iotlb.slots i).answers a := by
    intro i bound
    simp [filled, show i ≠ slot by omega]
  rw [Iotlb.lookupSlot, Iotlb.lookupSlot, firstSlot_eq_some_iff, firstSlot_eq_some_iff,
    same lower (Nat.le_refl _)]
  refine and_congr_right fun _ => and_congr_right fun _ => forall_congr' fun i => ?_
  refine forall_congr' fun before => ?_
  rw [same i (by omega)]

end Lookups

section Uniform

variable {history : History} {iova : Word} {pdirRead : Word → Option Word} {entry : Entry}

/-- What the second translation does with the addresses of an answered page. -/
structure Frontend.Repeats (after : Frontend) (entry : Entry) (consistent : Prop) : Prop where
  /-- No address of the page is refused. -/
  served : ∀ a later, entry.Covers a → (after.translateEx a false later).1.sends a ≠ none
  /-- All of them are sent where the entry says exactly under the condition. -/
  uniform : (∀ a later, entry.Covers a →
    (after.translateEx a false later).1.sends a = some (entry.send a)) ↔ consistent

theorem Frontend.Repeats.of_each {after : Frontend} {page : Entry} {holds : Word → Prop}
    (each : ∀ a later, page.Covers a → (after.translateEx a false later).1.sends a ≠ none ∧
      ((after.translateEx a false later).1.sends a = some (page.send a) ↔ holds a)) :
    after.Repeats page (∀ a, page.Covers a → holds a) := by
  refine ⟨fun a later covers => (each a later covers).1, ?_, ?_⟩
  · exact fun sends a covers => (each a (fun _ => none) covers).2.mp (sends a _ covers)
  · exact fun condition a later covers => (each a later covers).2.mpr (condition a covers)

/-- Identity pages are right everywhere. -/
theorem repeats_identity (identity : history.iommu.route iova false = .identity entry) :
    history.iommu.Repeats entry True := by
  have sends : ∀ a later, entry.Covers a →
      (history.iommu.translateEx a false later).1.sends a = some (entry.send a) := by
    intro a later covered
    obtain ⟨shift, route⟩ := route_identity_congr identity covered
    have still : entry.displacement = 0 := by
      rcases route_cases history.iommu iova false with ⟨_, other⟩ | ⟨known, -, -, other⟩ |
        ⟨window, -, other⟩
      · rw [other] at identity
        cases identity
      · rw [other] at identity
        cases identity
        exact identityEntry_displacement _ _
      · exact absurd (other.symm.trans identity) routeInside_ne_identity
    simp only [translateEx, route, Outcome.sends, send_eq, identityEntry_displacement, still]
  exact ⟨fun a later covered => by simp [sends a later covered], iff_of_true sends trivial⟩

/-- A cached page is right where it is not shadowed. -/
theorem repeats_cached (sound : history.Sound) {slot : Nat} {window : Window}
    (inside : history.iommu.Inside window iova)
    (found : history.iommu.iotlb.lookupSlot iova = some slot) :
    history.iommu.Repeats (history.iommu.iotlb.slots slot).entry
      (∀ a, (history.iommu.iotlb.slots slot).entry.Covers a →
        if window.iovaIsBypass a false then
          (history.iommu.iotlb.slots slot).entry.translatedAddr =
            (history.iommu.iotlb.slots slot).entry.iova
        else history.iommu.AgreesBelow slot (history.iommu.iotlb.slots slot).entry a) := by
  obtain ⟨bound, valid, -⟩ := lookupSlot_spec sound.paged found
  obtain ⟨shift, paged⟩ := sound.paged slot bound valid
  -- Each address is decided by itself: outside the window, or by the slot that answers first.
  refine .of_each fun a later covers => ?_
  have small : a ≤ physMask := le_physMask_of_small (paged.covers_small covers)
  cases bypass : window.iovaIsBypass a false with
  | true =>
    rw [sends_of_bypass inside rfl small bypass later, if_pos rfl, Option.some_inj,
      send_eq, left_eq_add]
    exact ⟨by simp, sub_eq_zero⟩
  | false =>
    obtain ⟨first, below, lookup⟩ := lookupSlot_of_covers sound.paged bound valid covers
    rw [sends_of_cached inside rfl small bypass lookup later, if_neg Bool.false_ne_true,
      Option.some_inj, send_eq_iff]
    refine ⟨by simp, fun same lower lookupLower _ => ?_, fun agrees => ?_⟩
    · rw [lookup, Option.some_inj] at lookupLower
      rwa [← lookupLower]
    · rcases Nat.lt_or_eq_of_le below with lower | rfl
      · exact agrees first lookup lower
      · rfl

/-- A new page is right where no lower slot answers. -/
theorem repeats_filled (sound : history.Sound) {window : Window}
    (inside : history.iommu.Inside window iova) {pte : Word} :
    (history.iommu.filled history.iommu.fillSlot (pdirEntry iova window.pageShift pte)).Repeats
      (pdirEntry iova window.pageShift pte)
      (∀ a, (pdirEntry iova window.pageShift pte).Covers a →
        history.iommu.AgreesBelow history.iommu.fillSlot
          (pdirEntry iova window.pageShift pte) a) := by
  have known := decodeTcnfg_known inside.shift
  have paged : (pdirEntry iova window.pageShift pte).Paged window.pageShift :=
    pdirEntry_paged known inside.small
  obtain ⟨bound, -⟩ := selectFillSlot_eq sound.cursor
  generalize fresh : pdirEntry iova window.pageShift pte = page at paged
  generalize target : history.iommu.fillSlot = slot at bound
  have registers : (history.iommu.filled slot page).register = history.iommu.register := rfl
  have slots : (history.iommu.filled slot page).iotlb.slots slot = ⟨page, true⟩ := by
    simp [filled]
  have others : ∀ i, i ≠ slot →
      (history.iommu.filled slot page).iotlb.slots i = history.iommu.iotlb.slots i := by
    intro i apart
    simp [filled, apart]
  have wellFormed : ∀ i, i < slotCount → ((history.iommu.filled slot page).iotlb.slots i).valid →
      ((history.iommu.filled slot page).iotlb.slots i).entry.WellFormed := by
    intro i below valid
    by_cases same : i = slot
    · rw [same, slots]
      exact ⟨_, paged⟩
    · rw [others i same] at valid ⊢
      exact sound.paged i below valid
  refine .of_each fun a later covers => ?_
  -- The page of the address is the page that was inside the window.
  have quotient : a.toNat / 2 ^ window.pageShift = iova.toNat / 2 ^ window.pageShift := by
    rw [paged.covers_iff.mp covers, ← fresh]
    exact rounded_div known.narrow
  have bypass : window.iovaIsBypass a false = false :=
    (iovaIsBypass_congr inside.decoded quotient false).trans inside.inside
  obtain ⟨first, below, lookup⟩ :=
    lookupSlot_of_covers wellFormed bound (by rw [slots]) (by rwa [slots])
  rw [sends_of_cached inside registers (le_physMask_of_small (paged.covers_small covers)) bypass
    lookup later, Option.some_inj, send_eq_iff]
  refine ⟨by simp, fun same lower lookupLower lowerBelow => ?_, fun agrees => ?_⟩
  · have after : (history.iommu.filled slot page).iotlb.lookupSlot a = some lower :=
      (lookupSlot_filled_below lowerBelow).mpr lookupLower
    rw [lookup, Option.some_inj] at after
    rw [after, others lower (by omega)] at same
    exact same
  · rcases Nat.lt_or_eq_of_le below with lower | rfl
    · rw [others first (by omega)]
      exact agrees first ((lookupSlot_filled_below lower).mp lookup) lower
    · rw [slots]

/-- Answers are never refused on their own page, and are uniform exactly in consistent states. -/
theorem answer_uniform_iff (reachable : Reachable history)
    (answered : (history.iommu.translateEx iova false pdirRead).1.Answers entry) :
    (∀ a later, entry.Covers a →
        ((history.iommu.translateEx iova false pdirRead).2.translateEx a false later).1.sends a ≠
          none) ∧
      ((∀ a later, entry.Covers a →
          ((history.iommu.translateEx iova false pdirRead).2.translateEx a false later).1.sends a =
            some (entry.send a)) ↔
        history.iommu.Consistent iova pdirRead) := by
  have sound := reachable.sound
  rw [translateEx] at answered ⊢
  rw [Frontend.Consistent]
  cases route : history.iommu.route iova false with
  | blocked fault => simp [route, Outcome.Answers] at answered
  | identity identity =>
    simp only [route, Outcome.Answers, Outcome.identity.injEq, reduceCtorEq, exists_false,
      or_false] at answered
    subst answered
    have repeats := repeats_identity route
    exact ⟨repeats.served, repeats.uniform⟩
  | cached slot =>
    obtain ⟨window, inside, found⟩ := route_cached route
    have same : (history.iommu.iotlb.slots slot).entry = entry := by
      simpa [route, Outcome.Answers] using answered
    subst same
    have repeats := repeats_cached sound inside found
    refine ⟨repeats.served,
      repeats.uniform.trans ⟨fun condition other otherInside => ?_, fun all => all window inside⟩⟩
    -- The window is determined by the registers.
    have shift := otherInside.shift
    rw [inside.shift, Option.some_inj] at shift
    have decoded := otherInside.decoded
    rw [← shift, inside.decoded, Option.some_inj] at decoded
    rwa [← decoded]
  | walk shift address =>
    obtain ⟨window, inside, rfl, known, -⟩ := route_walk route
    cases read : pdirRead address with
    | none => simp [route, read, Outcome.Answers] at answered
    | some pte =>
      cases usable : pteUsable pte with
      | false => simp [route, read, usable, Outcome.Answers] at answered
      | true =>
        have paged : (pdirEntry iova window.pageShift pte).WellFormed :=
          ⟨_, pdirEntry_paged known inside.small⟩
        simp only [route, read, usable, if_true, fill_eq sound.cursor paged] at answered ⊢
        have same : pdirEntry iova window.pageShift pte = entry := by
          simpa [Outcome.Answers] using answered
        subst same
        obtain ⟨served, uniform⟩ := repeats_filled sound inside
        refine ⟨served, uniform.trans ⟨fun condition other same => ?_, fun all => all pte rfl⟩⟩
        rwa [← Option.some_inj.mp same]

/-- A page that was just read is right everywhere. -/
theorem answer_uniform_fresh :
    (((Frontend.reset sampleConfig).translateEx 0x40005123 false
      fun _ => some 0x8000000012345000).2.translateEx
      0x40005fff false fun _ => none).1.sends 0x40005fff = some 0x12345fff := by
  have answered : ((Frontend.reset sampleConfig).translateEx 0x40005123 false
      fun _ => some 0x8000000012345000).1 = .translated ⟨0x40005000, 0x12345000,
        0xfff⟩ none := by decide +kernel
  have uniform := (answer_uniform_iff (.start sampleConfig) (Or.inr ⟨none, answered⟩)).2
  have route : (Frontend.reset sampleConfig).route 0x40005123 false = .walk 12 0x10028 := by
    decide +kernel
  have lowest : (Frontend.reset sampleConfig).fillSlot = 0 := by decide +kernel
  have consistent : (Frontend.reset sampleConfig).Consistent 0x40005123 fun _ =>
      some 0x8000000012345000 := by
    simp only [Frontend.Consistent, route]
    intro pte _ a _ lower _ below
    rw [lowest] at below
    exact absurd below (Nat.not_lt_zero lower)
  exact uniform.mpr consistent 0x40005fff _ ⟨by decide +kernel, by decide +kernel⟩

/-- A page of 64 kilobytes is cached; then the window is reduced to one page of four kilobytes. -/
def shrunkWindow : History :=
  [Op.translate 0x40000000 false fun _ => some 0x8000000012340000, .write 0x318 0 0xff,
    .write 0x308 0xfffffffffffff000 0xff].foldl History.step
    ⟨.reset fun reg => if reg = .tcnfg then 3 else sampleConfig reg, []⟩

/-- The answer still covers the old page, but the rest of it is outside the window. -/
theorem answer_leaves_window :
    Reachable shrunkWindow ∧
      (shrunkWindow.iommu.translateEx 0x40000000 false fun _ => none).1 =
        .translated ⟨0x40000000, 0x12340000, 0xffff⟩ none ∧
      ((shrunkWindow.iommu.translateEx 0x40000000 false
        fun _ => none).2.translateEx 0x40001000 false
        fun _ => none).1.sends 0x40001000 = some 0x40001000 ∧
      Entry.Covers ⟨0x40000000, 0x12340000, 0xffff⟩ 0x40001000 ∧
      Entry.send ⟨0x40000000, 0x12340000, 0xffff⟩ 0x40001000 = 0x12341000 := by
  refine ⟨.step _ (.step _ (.step _ (.start _))), by decide +kernel, by decide +kernel,
    ?_, by decide +kernel⟩
  exact ⟨by decide +kernel, by decide +kernel⟩

end Uniform

end Ia64.Iommu
