import Ia64.Alat.Loads
import Ia64.Alat.Misses
import Ia64.Alat.OwnStores
import Ia64.Decode.LongMoves
import Ia64.Efi.Collation
import Ia64.Efi.CopyMem
import Ia64.Efi.DecompressSafety
import Ia64.Efi.DiskIo
import Ia64.Efi.EbcStack
import Ia64.Efi.EventNesting
import Ia64.Efi.FatLookup
import Ia64.Efi.FreeRanges
import Ia64.Efi.PeContainment
import Ia64.Efi.TimeServices
import Ia64.Efi.Udf
import Ia64.Efi.VirtualMap
import Ia64.Fp.Convert
import Ia64.Fp.Deliver
import Ia64.Fp.ExtendedMemory
import Ia64.Fp.Fpswa
import Ia64.Fp.Fused
import Ia64.Fp.MulAdd
import Ia64.Fp.Rotation
import Ia64.Fp.SquareRoot
import Ia64.Iommu.Listeners
import Ia64.Iommu.Uniform
import Ia64.Mmu.Hashing
import Ia64.Mmu.Keys
import Ia64.Mmu.MicroTlb
import Ia64.Mmu.PurgeLaw
import Ia64.Mmu.Visible
import Ia64.Ras.Wakeup
import Ia64.Rse.CloopFill
import Ia64.Rse.FrameMarker
import Ia64.Rse.Migration
import Ia64.Rse.PointerArithmetic
import Ia64.Rse.Rotation
import Ia64.Sapic.Requests
import Ia64.Sapic.Runs
import Ia64.System.Predicates
import Ia64.Timer.Deadline
import Ia64.Timer.Itm
