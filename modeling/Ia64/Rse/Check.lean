import Ia64.Rse.Operation

/-! The consistency conditions that the source asserts after every register stack operation. -/

namespace Ia64.Rse

/-- The address is that of a collection word. -/
def isCollectionAddr (addr : Word) : Bool := collectWord addr = addr

/-- A pair of NaT bits and known mask stays within the 63 NaT bits and marks no unknown bit. -/
def wellMasked (value defined : Word) : Bool :=
  (value ||| defined) &&& ~~~int64Max = 0 && value &&& ~~~defined = 0

/-- Form of one occupied shadow slot. -/
def shadowEntryValid (entry : RnatShadowEntry) : Bool :=
  wellMasked entry.value entry.defined && entry.defined ≠ 0 && isCollectionAddr entry.addr

/-- Form of the shadow table. -/
def shadowValid (shadow : List RnatShadowEntry) : Bool :=
  -- The table is bounded and names each collection once.
  shadow.length ≤ 96 && shadow.all shadowEntryValid && (shadow.map RnatShadowEntry.addr).Nodup

/-- Form of the loadrs image. -/
def writebackValid (image : RnatWritebackImage) : Bool :=
  wellMasked image.value image.defined &&
    if image.valid then image.defined ≠ 0 && isCollectionAddr image.addr
    else image.value = 0 && image.addr = 0 && image.defined = 0

/-- Form of the two latches, the loadrs image and the shadow table. -/
def latchesValid (latches : Latches) : Bool :=
  wellMasked latches.rnat latches.rnatDefined &&
    wellMasked latches.loadRnat latches.loadRnatDefined &&
    (if latches.rnatAddr = uint64Max then latches.rnatDefined = 0
      else isCollectionAddr latches.rnatAddr) &&
    (if latches.loadRnatValid then isCollectionAddr latches.loadRnatAddr
     else latches.loadRnat = 0 && latches.loadRnatAddr = 0 && latches.loadRnatDefined = 0) &&
    writebackValid latches.writebackRnat && shadowValid latches.rnatShadow

/-- The partitions cover the file once and the store pointer follows the dirty one. -/
def partitionsCover (env : Env) : Bool :=
  (env.cfm.sof : Int) + env.dirty + env.clean + env.invalid = 96 &&
    env.bspstore = env.bsp - wordBytes (env.dirty + env.dirtyNat) &&
    0 ≤ env.clean && 0 ≤ env.invalid && env.bol < 96

/-- The collection counts match the backing-store pointers of a complete frame. -/
def collectionsCounted (env : Env) : Bool :=
  let bspload := env.bspstore - wordBytes (env.clean + env.cleanNat)
  -- An incomplete frame is not checked.
  decide (env.dirty < 0) ||
    (env.dirtyNat = collectionsBetween env.bspstore env.bsp &&
      env.cleanNat = collectionsBetween bspload env.bspstore)

/-- Every condition that the source checks after a register stack operation. -/
def check (env : Env) : Bool :=
  partitionsCover env && env.cfm.frameFieldsValid && env.cfm.rrbGrValid &&
    env.cfm.rrbFr < 96 && env.cfm.rrbPr < 48 && latchesValid env.latches &&
    (env.hasCleanPartition || (env.clean = 0 && env.cleanNat = 0)) && collectionsCounted env

end Ia64.Rse
