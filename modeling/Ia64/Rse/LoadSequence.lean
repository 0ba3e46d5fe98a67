import Ia64.Rse.AddressLaws

/-! Mandatory load sequences as a number of single loads: what is counted, and when they end. -/

namespace Ia64.Rse

open Interleaving

/-- Index of the word above the next mandatory load, for a frame at the given word. -/
def loadWord (env : Env) (base : Int) : Int :=
  base - (env.clean + env.cleanNat + env.dirty + env.dirtyNat)

/-- The state after a number of mandatory loads, as far as its counters go. -/
structure LoadedBy (count : Nat) (load : Int) (start env : Env) : Prop where
  bsp : env.bsp = start.bsp
  cfm : env.cfm = start.cfm
  clean : env.clean = start.clean
  cleanNat : env.cleanNat = start.cleanNat
  dirty : env.dirty = start.dirty + (rank load - rank (load - count))
  dirtyNat : env.dirtyNat = start.dirtyNat + collections (load - count) load
  invalid : env.invalid = start.invalid - (rank load - rank (load - count))
  bspstore : env.bspstore = start.bspstore - wordBytes count

variable {env : Env} {base : Int}

theorem nextLoad_eq (aligned : env.bsp = wordBytes base) :
    nextLoad env = wordBytes (loadWord env base - 1) := by
  rw [nextLoad, aligned, wordBytes_sub, loadWord]
  congr 1
  omega

/-- One load raises one of the two counts. -/
theorem loadedBy_completeOne (aligned : env.bsp = wordBytes base) :
    LoadedBy 1 (loadWord env base) env (completeOne env) := by
  have next := nextLoad_eq aligned
  have split := rank_sub (loadWord env base - 1) (loadWord env base)
  by_cases collects : (loadWord env base - 1) % 64 = 63
  · have at_collection : atCollection (nextLoad env) := by
      rw [next]
      exact (atCollection_wordBytes _).mpr collects
    -- The block ends here.
    have crossed : collections (loadWord env base - 1) (loadWord env base) = 1 := by
      unfold collections
      omega
    constructor <;>
      simp only [completeOne, loadOne, at_collection, if_true, loadCollectionWord,
        rnatMoveBspstore] <;>
      first | rfl | (push_cast; omega)
  · have at_register : atCollection (nextLoad env) = false := by
      rw [next, Bool.eq_false_iff]
      exact fun found => collects ((atCollection_wordBytes _).mp found)
    have crossed : collections (loadWord env base - 1) (loadWord env base) = 0 := by
      unfold collections
      omega
    constructor <;>
      simp only [completeOne, loadOne, at_register, Bool.false_eq_true, if_false, loadRegister,
        rnatMoveBspstore] <;>
      first | rfl | (push_cast; omega)

theorem LoadedBy.loadWord {count : Nat} {start : Env}
    (loaded : LoadedBy count (loadWord start base) start env) :
    Rse.loadWord env base = Rse.loadWord start base - count := by
  -- Every word is a register or a collection.
  have split := rank_sub (Rse.loadWord start base - count) (Rse.loadWord start base)
  have := loaded.clean
  have := loaded.cleanNat
  have := loaded.dirty
  have := loaded.dirtyNat
  simp only [Rse.loadWord] at *
  omega

/-- Counters after any number of loads. -/
theorem loadedBy_iterate (aligned : env.bsp = wordBytes base) (count : Nat) :
    LoadedBy count (loadWord env base) env (completeOne^[count] env) := by
  induction count with
  | zero => constructor <;> simp [collections, wordBytes]
  | succ count ih =>
    -- One more load follows those counted so far.
    rw [Function.iterate_succ_apply']
    have step := loadedBy_completeOne (ih.bsp.trans aligned)
    rw [ih.loadWord] at step
    have below : loadWord env base - (count : Int) - ((1 : Nat) : Int) =
        loadWord env base - ((count + 1 : Nat) : Int) := by
      push_cast
      omega
    constructor
    · rw [step.bsp, ih.bsp]
    · rw [step.cfm, ih.cfm]
    · rw [step.clean, ih.clean]
    · rw [step.cleanNat, ih.cleanNat]
    · rw [step.dirty, ih.dirty, below]
      omega
    · rw [step.dirtyNat, ih.dirtyNat, below]
      unfold collections
      omega
    · rw [step.invalid, ih.invalid, below]
      omega
    · rw [step.bspstore, ih.bspstore]
      simp only [wordBytes, ← BitVec.ofInt_add, BitVec.sub_sub]
      congr 2
      push_cast
      omega

theorem complete_of_loadBound (start : Env) {load : Int}
    (loaded : LoadedBy (loadBound start) load start env) : incomplete env = false := by
  -- Each block of 64 words holds one collection and 63 registers.
  have dirty := loaded.dirty
  have dirtyNat := loaded.dirtyNat
  simp only [incomplete, Bool.or_eq_false_iff, decide_eq_false_iff_not]
  simp only [loadBound, rank, collections] at dirty dirtyNat
  omega

/-- A load sequence ends with a complete frame. -/
theorem completeFrameLoads_loaded (aligned : env.bsp = wordBytes base) :
    ∃ count ≤ loadBound env, LoadedBy count (loadWord env base) env (completeFrameLoads env) ∧
      incomplete (completeFrameLoads env) = false ∧
      ∀ earlier < count, ∃ before, LoadedBy earlier (loadWord env base) env before ∧
        incomplete before := by
  by_cases due : incomplete env
  · have marked : ({ env with cfle := true } : Env).bsp = wordBytes base := aligned
    obtain ⟨count, within, result, before, after⟩ := Loops.runWhile_eq_iterate incomplete
      completeOne (loadBound env) { env with cfle := true }
    have loaded := loadedBy_iterate marked count
    -- A spent budget completes the frame as well.
    have complete : incomplete (completeOne^[count] { env with cfle := true }) = false := by
      rcases Nat.lt_or_eq_of_le within with short | spent
      · exact after short
      · rw [spent] at loaded ⊢
        exact complete_of_loadBound { env with cfle := true } loaded
    have result' : completeFrameLoads env = { completeOne^[count] { env with cfle := true } with
      cfle := false } := by
      simp [completeFrameLoads, completeFrameLoadsFor, due, result, complete]
    refine ⟨count, within, ?_, ?_, ?_⟩
    · rw [result']
      exact { loaded with }
    · rw [result']
      exact complete
    · intro earlier below
      exact ⟨_, { loadedBy_iterate marked earlier with }, before earlier below⟩
  -- A complete frame loads nothing.
  · have unchanged : completeFrameLoads env = env := by
      simp [completeFrameLoads, completeFrameLoadsFor, due]
    refine ⟨0, Nat.zero_le _, ?_, ?_, by omega⟩
    · rw [unchanged]
      constructor <;> simp [collections, wordBytes]
    · rw [unchanged]
      simpa using due

end Ia64.Rse
