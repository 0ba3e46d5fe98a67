import Ia64.Lib.CheckedBytes

/-! Reads of a UDF file along its allocation descriptors, with their continuations. -/

namespace Ia64.Efi.Udf

open CheckedBytes

/-- Bytes of a sector. -/
def sectorSize : Nat := 2048

/-- A mounted volume: its partition, and what each sector of the disc reads as. -/
structure Volume where
  partitionReference : Nat
  partitionStart : Nat
  partitionLength : Nat
  sector : Nat → Option (Nat → Byte)

/-- Results of a read. -/
inductive Status where
  | success
  | deviceError
  | volumeCorrupted
  | unsupported
deriving DecidableEq, Repr

/-- Bytes that were read, and how the read ended. -/
abbrev Outcome := List Byte × Status

/-- A read that goes on after some bytes. -/
def Outcome.after (bytes : List Byte) (rest : Outcome) : Outcome := (bytes ++ rest.1, rest.2)

section Descriptors

/-- The file entry's tag. -/
def tagFileEntry : Nat := 261

/-- The extended file entry's tag. -/
def tagExtendedFileEntry : Nat := 266

/-- The allocation extent descriptor's tag. -/
def tagAllocationExtentDescriptor : Nat := 258

/-- A step of the descriptor checksum, for one bit. -/
def crc16Bit (crc : Nat) : Nat :=
  if crc.testBit 15 then (crc <<< 1 ^^^ 0x1021) % 65536 else (crc <<< 1) % 65536

/-- The checksum of some bytes of a descriptor. -/
def crc16 (buf : Nat → Byte) (start len : Nat) : Nat :=
  (List.range len).foldl (fun crc i => crc16Bit^[8] (crc ^^^ (buf (start + i)).toNat <<< 8)) 0

variable (buf : Nat → Byte)

/-- A little-endian number of a sector. -/
def le (count offset : Nat) : Nat := Buffer.load ⟨sectorSize, buf⟩ count offset

/-- The sum of the tag's bytes but the fifth. -/
def tagChecksum : Nat := (((List.range 16).filter (· != 4)).map fun i => (buf i).toNat).sum % 256

/-- Whether a sector starts with a valid tag of the given kind and place. -/
def tagValid (expectedTag expectedLocation : Nat) : Bool :=
  le buf 2 0 == expectedTag && (le buf 2 2 == 2 || le buf 2 2 == 3) && buf 5 == 0#8 &&
    (expectedLocation == 0xffffffff || le buf 4 12 == expectedLocation) &&
      tagChecksum buf == (buf 4).toNat &&
    decide (le buf 2 10 + 16 ≤ sectorSize) && crc16 buf 16 (le buf 2 10) == le buf 2 8

/-- What a file entry says about its file. -/
structure FileMeta where
  icbFlags : Nat
  informationLength : Nat
  allocationOffset : Nat
  allocationLength : Nat

variable (volume : Volume)

/-- The sector of a logical block of a partition. -/
def partitionLba (partition block : Nat) : Option Nat :=
  if partition ≠ volume.partitionReference ∨ volume.partitionLength ≤ block then none
  else some ((volume.partitionStart + block) % 2 ^ 32)

/-- Read a logical block. -/
def readLogical (partition block : Nat) : Option (Nat → Byte) :=
  (partitionLba volume partition block).bind volume.sector

/-- The bytes of consecutive sectors. -/
def readSectors (lba : Nat) : Nat → Option (List Byte)
  | 0 => some []
  | count + 1 => (volume.sector lba).bind fun sec =>
      (readSectors (lba + 1) count).map ((List.range sectorSize).map sec ++ ·)

/-- Read consecutive logical blocks at once. -/
def readLogicals (partition block count : Nat) : Option (List Byte) :=
  if count = 0 then some []
  else if partition ≠ volume.partitionReference ∨ volume.partitionLength ≤ block ∨
      volume.partitionLength - block - 1 < count - 1 then none
  else readSectors volume ((volume.partitionStart + block) % 2 ^ 32) count

/-- Read a logical block that has to hold a descriptor. -/
def readDescriptor (partition block expectedTag : Nat) : Option (Nat → Byte) :=
  (readLogical volume partition block).filter fun buf => tagValid buf expectedTag block

/-- Read a file entry. -/
def parseFileMeta (partition icb : Nat) : Option (FileMeta × (Nat → Byte)) :=
  (readLogical volume partition icb).bind fun desc =>
  let tag := le desc 2 0
  if tag ≠ tagFileEntry ∧ tag ≠ tagExtendedFileEntry ∨ !tagValid desc tag icb then none
  else
    let start := if tag = tagFileEntry then 168 else 208
    let eaLen := le desc 4 start
    let adLen := le desc 4 (start + 4)
    let adOffset := (start + 8 + eaLen) % 2 ^ 32
    if sectorSize < adOffset ∨ sectorSize - adOffset < adLen then none
    else some (⟨le desc 2 34, le desc 8 56, adOffset, adLen⟩, desc)

end Descriptors

section Allocation

/-- Descriptors of eight bytes. -/
def icbAdShort : Nat := 0

/-- Descriptors of sixteen bytes. -/
def icbAdLong : Nat := 1

/-- Descriptors of twenty bytes. -/
def icbAdExtended : Nat := 2

/-- The file itself in place of descriptors. -/
def icbAdInline : Nat := 3

/-- An extent with data. -/
def adTypeRecorded : Nat := 0

/-- An extent with further descriptors. -/
def adTypeContinuation : Nat := 3

/-- An allocation descriptor. -/
structure Ad where
  rawLength : Nat
  logicalBlock : Nat
  partitionRef : Nat
  infoLength : Nat
deriving DecidableEq

/-- What an extent holds. -/
def Ad.extentType (ad : Ad) : Nat := ad.rawLength / 2 ^ 30

/-- Bytes of an extent. -/
def Ad.length (ad : Ad) : Nat := ad.rawLength % 2 ^ 30

/-- Bytes of the file in an extent. -/
def Ad.info (ad : Ad) : Nat := min ad.infoLength ad.length

/-- Bytes of a descriptor. -/
def adSize (adType : Nat) : Nat :=
  if adType = icbAdShort then 8 else if adType = icbAdLong then 16 else 20

/-- The descriptor at a place of a field. -/
def readAd (adType : Nat) (field : Buffer) (defaultPartition pos : Nat) : Except Status Ad :=
  if icbAdExtended < adType then .error .unsupported
  else if field.size - pos < adSize adType then .error .volumeCorrupted
  else
    let rawLength := field.load 4 pos
    if adType = icbAdShort
      then .ok ⟨rawLength, field.load 4 (pos + 4), defaultPartition, rawLength % 2 ^ 30⟩
    else if adType = icbAdLong then
      .ok ⟨rawLength, field.load 4 (pos + 4), field.load 2 (pos + 8), rawLength % 2 ^ 30⟩
    else .ok ⟨rawLength, field.load 4 (pos + 12), field.load 2 (pos + 16), field.load 4 (pos + 8)⟩

variable (volume : Volume)

/-- Read a part of an extent, whole sectors at once where it can; the place in an extent takes
thirty bits. -/
def readExtent (partition block extentOffset want : Nat) : Outcome :=
  if want = 0 then ([], .success)
  else
    let blockDelta := extentOffset / sectorSize
    let blockOff := extentOffset % sectorSize
    let chunk := min (sectorSize - blockOff) want
    if blockOff = 0 ∧ chunk = sectorSize then
      let blocks := want / sectorSize
      match readLogicals volume partition ((block + blockDelta) % 2 ^ 32) blocks with
      | none => ([], .deviceError)
      | some bytes =>
        .after bytes (readExtent partition block (extentOffset + blocks * sectorSize)
          (want - blocks * sectorSize))
    else
      match readLogical volume partition ((block + blockDelta) % 2 ^ 32) with
      | none => ([], .deviceError)
      | some sec =>
        .after ((List.range chunk).map fun i => sec (blockOff + i))
          (readExtent partition block (extentOffset + chunk) (want - chunk))
termination_by want
decreasing_by all_goals simp only [sectorSize] at *; omega

/-- Follow the descriptors of a field; the continuation is given. -/
def walkField (continuation : Nat → Nat → Nat → Nat → Outcome) (field : Buffer)
    (adType defaultPartition : Nat) (pos offset remaining : Nat) : Outcome :=
  if pos < field.size ∧ remaining ≠ 0 then
    match readAd adType field defaultPartition pos with
    | .error status => ([], status)
    | .ok ad =>
      if ad.length = 0 then ([], .success)
      else if ad.extentType = adTypeContinuation
        then continuation ad.partitionRef ad.logicalBlock offset remaining
      else if ad.info ≤ offset then
        walkField continuation field adType defaultPartition (pos + adSize adType)
          (offset - ad.info) remaining
      else
        let chunk := min remaining (ad.info - offset)
        let (bytes, status) :=
          if ad.extentType = adTypeRecorded
            then readExtent volume ad.partitionRef ad.logicalBlock offset chunk
          else (List.replicate chunk 0, .success)
        if status ≠ .success ∨ bytes.length = 0 then (bytes, status)
        else .after bytes
          (walkField continuation field adType defaultPartition (pos + adSize adType) 0
            (remaining - bytes.length))
  else ([], .success)
termination_by field.size - pos
decreasing_by all_goals unfold adSize; split_ifs <;> omega

/-- Read the part of a file that a field describes. -/
def readFileFromAdField (continuation : Nat → Nat → Nat → Nat → Outcome) (field : Buffer)
    (adType defaultPartition offset readSize : Nat) : Outcome :=
  if adType = icbAdInline then
    ((List.range (min readSize (field.size - offset))).map
      fun i => field.byte (offset + i), .success)
  else walkField volume continuation field adType defaultPartition 0 offset readSize

/-- The descriptors of an allocation extent. -/
def extentField (sec : Nat → Byte) : Buffer := ⟨le sec 4 20, fun i => sec (24 + i)⟩

/-- Go on in an allocation extent, while levels are left; its descriptors are taken as short
ones. -/
def readContinuation : Nat → Nat → Nat → Nat → Nat → Outcome
  | 0, _, _, _, _ => ([], .volumeCorrupted)
  | levels + 1, partition, block, offset, readSize =>
    match readDescriptor volume partition block tagAllocationExtentDescriptor with
    | none => ([], .volumeCorrupted)
    | some sec =>
      if sectorSize - 24 < le sec 4 20 then ([], .volumeCorrupted)
      else readFileFromAdField volume (readContinuation levels)
        (extentField sec) icbAdShort partition offset readSize

/-- The descriptors of a file entry. -/
def fileField (info : FileMeta) (desc : Nat → Byte) : Buffer :=
  ⟨info.allocationLength, fun i => desc (info.allocationOffset + i)⟩

/-- Read a part of a file; five levels of continuations are followed. -/
def readFileBytes (partition icb offset readSize : Nat) : Outcome :=
  match parseFileMeta volume partition icb with
  | none => ([], .volumeCorrupted)
  | some (info, desc) =>
    if info.informationLength ≤ offset then ([], .success)
    else readFileFromAdField volume (readContinuation volume 5) (fileField info desc)
      (info.icbFlags % 8) partition offset (min readSize (info.informationLength - offset))

end Allocation

section Contents

/-- A part of a file on the volume. -/
structure Extent where
  recorded : Bool
  partition : Nat
  block : Nat
  length : Nat

variable (volume : Volume)

/-- The byte of an extent at a place. -/
def Extent.byteAt (extent : Extent) (place : Nat) : Byte :=
  ((volume.sector (volume.partitionStart + extent.block + place / sectorSize)).map
    (· (place % sectorSize))).getD 0

/-- The bytes of an extent; zeros if it is not recorded. -/
def Extent.bytes (extent : Extent) : List Byte :=
  if extent.recorded then (List.range extent.length).map (extent.byteAt volume)
  else List.replicate extent.length 0

/-- Whether the sectors of an extent are in the partition and can be read. -/
def Extent.Readable (extent : Extent) : Prop :=
  extent.recorded = true → extent.partition = volume.partitionReference ∧ ∀ place < extent.length,
    extent.block + place / sectorSize < volume.partitionLength ∧
      volume.partitionStart + extent.block + place / sectorSize < 2 ^ 32 ∧
      (volume.sector (volume.partitionStart + extent.block + place / sectorSize)).isSome

/-- The extent that a descriptor describes. -/
def Ad.extent (ad : Ad) : Extent :=
  ⟨ad.extentType = adTypeRecorded, ad.partitionRef, ad.logicalBlock, ad.info⟩

/-- The extents that descriptors of one type list from a place of a field on, over how many
continuations, and how many bytes of the file come before the first one. -/
inductive Lists (adType : Nat) : Buffer → Nat → Nat → Nat → Nat → List Extent → Prop where
  | ends {field : Buffer} {partition pos : Nat} (done : field.size ≤ pos) :
      Lists adType field partition pos 0 0 []
  | terminator {field : Buffer} {partition pos : Nat} {ad : Ad} (inside : pos < field.size)
      (read : readAd adType field partition pos = .ok ad) (empty : ad.length = 0) :
      Lists adType field partition pos 0 0 []
  | extent {field : Buffer} {partition pos levels head : Nat} {ad : Ad} {rest : List Extent}
      (inside : pos < field.size) (read : readAd adType field partition pos = .ok ad)
      (full : ad.length ≠ 0) (plain : ad.extentType ≠ adTypeContinuation)
      (others : Lists adType field partition (pos + adSize adType) levels head rest) :
      Lists adType field partition pos levels (ad.info + head) (ad.extent :: rest)
  | continuation {field : Buffer} {partition pos levels head : Nat} {ad : Ad} {sec : Nat → Byte}
      {rest : List Extent} (inside : pos < field.size)
      (read : readAd adType field partition pos = .ok ad) (full : ad.length ≠ 0)
      (further : ad.extentType = adTypeContinuation)
      (found : readDescriptor volume ad.partitionRef ad.logicalBlock tagAllocationExtentDescriptor =
        some sec)
      (fits : le sec 4 20 ≤ sectorSize - 24)
      (others : Lists adType (extentField sec) ad.partitionRef 0 levels head rest) :
      Lists adType field partition pos (levels + 1) 0 rest

/-- The bytes of some extents one after the other. -/
def contents (extents : List Extent) : List Byte := extents.flatMap (Extent.bytes volume)

variable {volume} {extent : Extent}

variable (volume) in
/-- A file: its entry, and the extents that its descriptors list over at most four continuations. -/
structure File where
  partition : Nat
  icb : Nat
  info : FileMeta
  desc : Nat → Byte
  continuations : Nat
  head : Nat
  extents : List Extent
  parsed : parseFileMeta volume partition icb = some (info, desc)
  typed : info.icbFlags % 8 ≤ icbAdExtended
  listed : Lists volume (info.icbFlags % 8) (fileField info desc) partition 0
    continuations head extents
  few : continuations ≤ 4
  readable : ∀ extent ∈ extents, extent.Readable volume

variable (file : File volume) (offset size : Nat)

/-- Read a part of a file. -/
def File.read : Outcome :=
  readFileBytes volume file.partition file.icb offset size

/-- A part of the bytes of a file's extents, which end with its information length. -/
def File.slice : List Byte :=
  (((contents volume file.extents).take file.info.informationLength).drop offset).take size

/-- Reads that come to no continuation, unless the descriptors are short ones. -/
def File.Covers : Prop :=
  file.info.icbFlags % 8 = icbAdShort ∨ file.continuations = 0 ∨
    file.info.informationLength ≤ offset ∨
    min (offset + size) file.info.informationLength ≤ file.head

theorem File.slice_add (file : File volume) (offset first second : Nat) :
    file.slice offset (first + second) = file.slice offset first ++
      file.slice (offset + first) second := by
  rw [File.slice, File.slice, File.slice, List.take_add, List.drop_drop]

end Contents

section Discs

variable {sectors : List (List Nat)}

end Discs

end Ia64.Efi.Udf
