import Ia64.Lib.Pages

/-! The counted loop that fills memory byte by byte, run a page at a time. -/

namespace Ia64.CloopFill

/-- A 64-bit word. -/
abbrev Word := BitVec 64

/-- A byte. -/
abbrev Byte := BitVec 8

/-- Physical memory. -/
abbrev Memory := Word → Byte

/-- What a store to a page does: write host memory at a frame, take the slow path, or fault. -/
inductive Page where
  | host (frame : Word)
  | slow
  | faulting
deriving DecidableEq, Repr

/-- The machine as the loop sees it: the page of each page number and the effect of slow stores. -/
structure Machine where
  page : Word → Page
  slowStore : Memory → Word → Byte → Memory

/-- The registers that the loop changes, and memory. -/
structure State where
  lc : Word
  base : Word
  memory : Memory

/-- How the loop is left: with the decision of its branch, or by a fault. -/
inductive Exit where
  | branch (taken : Bool)
  | fault
deriving DecidableEq, Repr

/-- The size of a page. -/
def targetPageSize : Nat := 4096

/-- The number of the page of an address. -/
def pageNumber (addr : Word) : Word := addr >>> 12

/-- The offset of an address in its page. -/
def pageOffset (addr : Word) : Nat := (addr &&& (Pages.pageSize 64 12 - 1)).toNat

/-- Set a run of host bytes. -/
def memset (memory : Memory) (start : Word) (value : Byte) (span : Nat) : Memory :=
  (List.range span).foldl (fun memory i =>
    Function.update memory (start + BitVec.ofNat 64 i) value) memory

variable (machine : Machine) (value : Byte)

/-- The batches of the fill: a host page takes as many stores as fit, another page one. -/
def fillLoop (lc : Word) (limit : Nat) : Nat → Nat → State → Option State × State
  -- The fuel is the number of stores left, and every batch makes at least one.
  | 0, _, s => (some s, s)
  | fuel + 1, done, s =>
    if done < limit then
      let addr := s.base
      let span := min (limit - done) (targetPageSize - pageOffset addr)
      -- The branch in front of the store has already been taken when the store faults.
      let s := { s with lc := lc - BitVec.ofNat 64 done - 1, base := addr }
      match machine.page (pageNumber addr) with
      | .faulting => (none, s)
      | .host frame =>
        fillLoop lc limit fuel (done + span)
          ⟨lc - BitVec.ofNat 64 (done + span), addr + BitVec.ofNat 64 span,
            memset s.memory (frame + BitVec.ofNat 64 (pageOffset addr)) value span⟩
      | .slow =>
        fillLoop lc limit fuel (done + 1)
          ⟨lc - BitVec.ofNat 64 (done + 1), addr + 1, machine.slowStore s.memory addr value⟩
    else (some s, s)

/-- The fill that replaces a loop of one-byte stores. -/
def cloopFillSt1 (maxStores : BitVec 32) (s : State) : Exit × State :=
  let lc := s.lc
  let limit := min lc.toNat maxStores.toNat
  if lc = 0 ∨ limit = 0 then (.branch false, s)
  else
    match fillLoop machine value lc limit limit 0 s with
    | (none, s) => (.fault, s)
    | (some s, _) =>
      if limit < lc.toNat then (.branch true, { s with lc := lc - BitVec.ofNat 64 limit - 1 })
      else (.branch false, s)

/-- One iteration of the loop that is replaced: the branch is taken, then the store, then the
increment. -/
def single (s : State) : Option State × State :=
  let s := { s with lc := s.lc - 1 }
  match machine.page (pageNumber s.base) with
  | .faulting => (none, s)
  | .host frame =>
    let next := ⟨s.lc, s.base + 1,
      Function.update s.memory (frame + BitVec.ofNat 64 (pageOffset s.base)) value⟩
    (some next, next)
  | .slow =>
    let next := ⟨s.lc, s.base + 1, machine.slowStore s.memory s.base value⟩
    (some next, next)

/-- Iterations of the loop that is replaced, up to a fault. -/
def singles : Nat → State → Option State × State
  | 0, s => (some s, s)
  | count + 1, s =>
    match single machine value s with
    | (none, s) => (none, s)
    | (some s, _) => singles count s

/-- One decision of the counted branch. -/
def brCloop (s : State) : Exit × State :=
  if s.lc ≠ 0 then (.branch true, { s with lc := s.lc - 1 }) else (.branch false, s)

/-- The loop that is replaced, followed by one decision of its branch. -/
def byteLoop (maxStores : BitVec 32) (s : State) : Exit × State :=
  match singles machine value (min s.lc.toNat maxStores.toNat) s with
  | (none, s) => (.fault, s)
  | (some s, _) => brCloop s

variable {machine : Machine} {value : Byte}

/-- The next addresses lie in the page, up to its end. -/
theorem samePage_add {addr : Word} {i : Nat} (fits : pageOffset addr + i < targetPageSize) :
    pageNumber (addr + BitVec.ofNat 64 i) = pageNumber addr ∧
      pageOffset (addr + BitVec.ofNat 64 i) = pageOffset addr + i := by
  -- The end of a page is at most the end of the address space, so nothing wraps.
  have narrow : (12 : Nat) < 64 := by decide
  have bound := addr.isLt
  unfold pageOffset targetPageSize at *
  rw [Pages.and_offset_toNat narrow] at *
  have unwrapped : (addr + BitVec.ofNat 64 i).toNat = addr.toNat + i := by
    rw [BitVec.toNat_add, BitVec.toNat_ofNat]
    omega
  refine ⟨?_, ?_⟩
  · apply BitVec.eq_of_toNat_eq
    rw [pageNumber, pageNumber, BitVec.toNat_ushiftRight, BitVec.toNat_ushiftRight, unwrapped,
      Nat.shiftRight_eq_div_pow, Nat.shiftRight_eq_div_pow]
    omega
  · rw [Pages.and_offset_toNat narrow, unwrapped]
    omega

theorem pageOffset_lt (addr : Word) : pageOffset addr < targetPageSize := by
  -- It is a remainder.
  unfold pageOffset targetPageSize
  rw [Pages.and_offset_toNat (by decide)]
  exact Nat.mod_lt _ (by decide)

theorem singles_add (first second : Nat) (s : State) :
    singles machine value (first + second) s =
      match singles machine value first s with
      | (none, s) => (none, s)
      | (some s, _) => singles machine value second s := by
  induction first generalizing s with
  | zero => simp [singles]
  | succ first ih =>
    rw [Nat.succ_add]
    simp only [singles]
    -- A fault in the first iteration ends both.
    cases single machine value s with
    | mk reached left =>
      cases reached with
      | none => rfl
      | some next => exact ih next

variable {s next : State} {count : Nat}

/-- Iterations inside a host page set as many bytes. -/
theorem singles_host {frame : Word} (mapped : machine.page (pageNumber s.base) = .host frame)
    {span : Nat} (fits : span ≤ targetPageSize - pageOffset s.base) :
    (singles machine value span s).1 = some ⟨s.lc - BitVec.ofNat 64 span,
      s.base + BitVec.ofNat 64 span,
      memset s.memory (frame + BitVec.ofNat 64 (pageOffset s.base)) value span⟩ := by
  have room := pageOffset_lt s.base
  induction span with
  | zero => simp [singles, memset]
  | succ span ih =>
    -- The last iteration stores the last byte, still in the page.
    rw [singles_add]
    have before := ih (by omega)
    cases reached : singles machine value span s with
    | mk found left =>
      rw [reached] at before
      dsimp only at before
      subst before
      obtain ⟨samePage, offset⟩ :=
        samePage_add (show pageOffset s.base + span < targetPageSize by omega)
      simp only [singles, single, samePage, offset, mapped, memset, List.range_succ,
        List.foldl_append, List.foldl_cons, List.foldl_nil, Option.some.injEq, State.mk.injEq]
      refine ⟨?_, ?_, ?_⟩
      · rw [BitVec.ofNat_add, ← BitVec.sub_sub]
        rfl
      · rw [BitVec.ofNat_add, ← BitVec.add_assoc]
        rfl
      · rw [BitVec.ofNat_add, BitVec.add_assoc]

theorem singles_of_fst (reached : (singles machine value count s).1 = some next) :
    singles machine value count s = (some next, next) := by
  induction count generalizing s with
  | zero =>
    simp only [singles, Option.some.injEq] at reached
    simp [singles, reached]
  | succ count ih =>
    simp only [singles] at reached ⊢
    cases step : single machine value s with
    | mk found left =>
      rw [step] at reached
      cases found with
      | none => cases reached
      | some middle => exact ih reached

/-- The batches make the iterations that are left. -/
theorem fillLoop_eq_singles {lc : Word} {limit fuel done : Nat} (enough : limit ≤ done + fuel)
    (counted : s.lc = lc - BitVec.ofNat 64 done) :
    fillLoop machine value lc limit fuel done s = singles machine value (limit - done) s := by
  induction fuel generalizing done s with
  | zero => simp [fillLoop, show limit - done = 0 by omega, singles]
  | succ fuel ih =>
    unfold fillLoop
    by_cases more : done < limit
    · rw [if_pos more]
      have room := pageOffset_lt s.base
      -- The branch is taken before the store.
      have taken : s.lc - 1 = lc - BitVec.ofNat 64 done - 1 := by rw [counted]
      cases mapped : machine.page (pageNumber s.base) with
      | faulting =>
        rw [show limit - done = (limit - done - 1) + 1 by omega]
        simp only [singles, single, mapped, taken]
      | slow =>
        have rest : limit - done = (limit - (done + 1)) + 1 := by omega
        have next : lc - BitVec.ofNat 64 (done + 1) = s.lc - 1 := by
          rw [counted, BitVec.ofNat_add, ← BitVec.sub_sub]
          rfl
        dsimp only
        rw [ih (by omega) rfl, rest]
        simp only [singles, single, mapped, next]
      | host frame =>
        simp only [mapped]
        have span : 0 < min (limit - done) (targetPageSize - pageOffset s.base) := by omega
        generalize size : min (limit - done) (targetPageSize - pageOffset s.base) = width at span
        have inside : width ≤ targetPageSize - pageOffset s.base := by omega
        have rest : limit - done = width + (limit - (done + width)) := by omega
        have next : lc - BitVec.ofNat 64 (done + width) = s.lc - BitVec.ofNat 64 width := by
          rw [counted, BitVec.ofNat_add, ← BitVec.sub_sub]
        rw [ih (by omega) rfl, rest, singles_add, singles_of_fst (singles_host mapped inside), next]
    · rw [if_neg more]
      simp [show limit - done = 0 by omega, singles]

/-- Iterations count down and advance the address. -/
theorem singles_registers (reached : (singles machine value count s).1 = some next) :
    next.lc = s.lc - BitVec.ofNat 64 count ∧ next.base = s.base + BitVec.ofNat 64 count := by
  induction count generalizing s with
  | zero =>
    simp only [singles, Option.some.injEq] at reached
    simp [← reached]
  | succ count ih =>
    simp only [singles] at reached
    have one : ∀ middle left, single machine value s = (some middle, left) →
        middle.lc = s.lc - 1 ∧ middle.base = s.base + 1 := by
      intro middle left step
      simp only [single] at step
      split at step
      · cases step
      · cases step; exact ⟨rfl, rfl⟩
      · cases step; exact ⟨rfl, rfl⟩
    cases step : single machine value s with
    | mk found left =>
      rw [step] at reached
      cases found with
      | none => cases reached
      | some middle =>
        obtain ⟨lc, base⟩ := one middle left step
        obtain ⟨lcs, bases⟩ := ih reached
        -- The counts add up in either order.
        rw [lcs, bases, lc, base, Nat.add_comm, BitVec.ofNat_add, ← BitVec.sub_sub,
          ← BitVec.add_assoc]
        exact ⟨rfl, rfl⟩

theorem singles_fault {j : Nat} {reached : State} (before : j < count)
    (stored : (singles machine value j s).1 = some reached)
    (faults : machine.page (pageNumber reached.base) = .faulting) :
    singles machine value count s = (none, { reached with lc := reached.lc - 1 }) := by
  -- The iterations are those in front of the fault, the one that faults and the rest.
  rw [show count = j + (count - j - 1 + 1) by omega, singles_add, singles_of_fst stored]
  simp only [singles, single, faults]

/-- The batched fill is the loop of one-byte stores, also when a store faults: then the count is
that of the taken branch in front of the store, and exactly the bytes before it are written. -/
theorem cloopFillSt1_eq_byteLoop (machine : Machine) (value : Byte) {maxStores : BitVec 32}
    (some : 0 < maxStores.toNat) (s : State) :
    cloopFillSt1 machine value maxStores s = byteLoop machine value maxStores s ∧
      ∀ j < min s.lc.toNat maxStores.toNat, ∀ reached,
        (singles machine value j s).1 = .some reached →
        machine.page (pageNumber reached.base) = .faulting →
        cloopFillSt1 machine value maxStores s =
          (.fault, ⟨s.lc - BitVec.ofNat 64 j - 1, s.base + BitVec.ofNat 64 j, reached.memory⟩) := by
  have same : cloopFillSt1 machine value maxStores s = byteLoop machine value maxStores s := by
    unfold cloopFillSt1 byteLoop
    by_cases zero : s.lc = 0
    · -- Without iterations the branch falls through.
      simp [zero, singles, brCloop]
    · have positive : s.lc.toNat ≠ 0 := fun none => zero (BitVec.eq_of_toNat_eq none)
      have entered : ¬(s.lc = 0 ∨ min s.lc.toNat maxStores.toNat = 0) := by
        rintro (none | none)
        · exact zero none
        · omega
      simp only [if_neg entered]
      rw [fillLoop_eq_singles (by omega) (by simp), Nat.sub_zero]
      cases ran : singles machine value (min s.lc.toNat maxStores.toNat) s with
      | mk found left =>
        cases found with
        | none => rfl
        | some next =>
          obtain ⟨lc, -⟩ := singles_registers (congrArg Prod.fst ran)
          -- The count that is left is zero exactly if every iteration was made.
          have left : next.lc.toNat = s.lc.toNat - min s.lc.toNat maxStores.toNat := by
            have wide := s.lc.isLt
            have small : (BitVec.ofNat 64 (min s.lc.toNat maxStores.toNat)).toNat =
                min s.lc.toNat maxStores.toNat := by
              rw [BitVec.toNat_ofNat]
              exact Nat.mod_eq_of_lt (by omega)
            rw [lc, BitVec.toNat_sub_of_le (by rw [BitVec.le_def, small]; omega), small]
          have decides : next.lc ≠ 0 ↔ min s.lc.toNat maxStores.toNat < s.lc.toNat := by
            rw [ne_eq, ← BitVec.toNat_inj, left, show (0 : Word).toNat = 0 from rfl]
            omega
          by_cases more : min s.lc.toNat maxStores.toNat < s.lc.toNat
          · simp only [brCloop, if_pos more, if_pos (decides.mpr more)]
            rw [lc]
          · simp only [brCloop, if_neg more, if_neg (fun taken => more (decides.mp taken))]
  refine ⟨same, fun j before reached stored faults => ?_⟩
  obtain ⟨lc, base⟩ := singles_registers stored
  rw [same, byteLoop, singles_fault before stored faults, lc, base]

/-- A machine whose first page is host memory, whose second takes the slow path and whose third
faults. -/
def threePages : Machine where
  page number := if number = 0 then .host 0x10000 else if number = 1 then .slow else .faulting
  slowStore memory addr value := Function.update memory (0x20000 + addr) value

/-- A fill from the first page that runs into the third. -/
theorem cloopFillSt1_eq_byteLoop_fault :
    cloopFillSt1 threePages 7 8192 ⟨5000, 0xfff, fun _ => 0⟩ =
      byteLoop threePages 7 8192 ⟨5000, 0xfff, fun _ => 0⟩ :=
  (cloopFillSt1_eq_byteLoop threePages 7 (by decide) _).1

end Ia64.CloopFill
