import Ia64.Rse.Frame

/-! Instructions that move the register stack, and the interruption of their memory references. -/

namespace Ia64.Rse

/-- Fields of a packed frame marker. -/
def unpackCfm (marker : Word) : Cfm where
  sof := (marker &&& 0x7f#64).toNat
  sol := ((marker >>> 7) &&& 0x7f#64).toNat
  sor := ((marker >>> 14) &&& 0x0f#64).toNat
  rrbGr := ((marker >>> 18) &&& 0x7f#64).toNat
  rrbFr := ((marker >>> 25) &&& 0x7f#64).toNat
  rrbPr := ((marker >>> 32) &&& 0x3f#64).toNat

/-- The frame-independent part of br.ret: epilog count and privilege level come from AR.PFS. -/
def brRetEnter (env : Env) : Env :=
  let ppl := (env.pfs >>> 62).toNat
  enterFrame
    { env with
      psrCpl := if env.psrCpl < ppl then ppl else env.psrCpl
      ec := (env.pfs >>> 52) &&& 0x3f#64 }
    (unpackCfm env.pfs) (unpackCfm env.pfs).sol

/-- br.ret with a budget of mandatory loads. -/
def brRetFor (budget : Nat) (env : Env) : Env := completeFrameLoadsFor budget (brRetEnter env)

/-- br.ret when no mandatory load is abandoned. -/
def brRet (env : Env) : Env := completeFrameLoads (brRetEnter env)

/-- Latches that know nothing. -/
def detachedLatches : Latches where
  rnat := 0
  rnatAddr := uint64Max
  rnatDefined := 0
  loadRnat := 0
  loadRnatAddr := 0
  loadRnatDefined := 0
  loadRnatValid := false
  writebackRnat := .cleared
  rnatShadow := []
  shadowOverflowLog := []

/-- The register stack after processor reset: one frame of all 96 registers at address zero. -/
def reset (hasCleanPartition : Bool) (mem : Word → Word) : Env where
  hasCleanPartition := hasCleanPartition
  gr := fun _ => 0
  nat := fun _ => false
  grDirty := fun _ => false
  pgr := fun _ => 0
  pgrNat := fun _ => false
  bol := 0
  dirty := 0
  dirtyNat := 0
  clean := 0
  cleanNat := 0
  invalid := 0
  bsp := 0
  bspstore := 0
  latches := detachedLatches
  cfm := { Cfm.zero with sof := 96 }
  pfs := 0
  ec := 0
  rsc := 0
  ifs := 0
  psrCpl := 0
  psrIc := false
  ipsrCpl := 0
  ipsrIc := false
  cfle := false
  mem := mem

end Ia64.Rse
