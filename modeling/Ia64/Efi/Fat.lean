import Mathlib.Data.Nat.Bitwise

/-! FAT volumes: the geometry in a boot sector, the file allocation table, and where the sectors of
a cluster lie. -/

namespace Ia64.Efi.Fat

/-- The bytes of a sector or of a buffer. -/
abbrev Bytes := Nat → BitVec 8

/-- Arithmetic on 32-bit words. -/
def word32 (n : Nat) : Nat := n % 2 ^ 32

@[simp] theorem word32_of_lt {n : Nat} (fits : n < 2 ^ 32) : word32 n = n := Nat.mod_eq_of_lt fits

variable (bytes : Bytes) (pos : Nat)

/-- A little-endian 16-bit field. -/
def le16 : Nat := (bytes pos).toNat + 256 * (bytes (pos + 1)).toNat

/-- A little-endian 32-bit field. -/
def le32 : Nat := le16 bytes pos + 65536 * le16 bytes (pos + 2)

theorem le16_lt : le16 bytes pos < 2 ^ 16 := by
  have low := (bytes pos).isLt
  have high := (bytes (pos + 1)).isLt
  rw [le16]
  omega

theorem le32_lt : le32 bytes pos < 2 ^ 32 := by
  have low := le16_lt bytes pos
  have high := le16_lt bytes (pos + 2)
  rw [le32]
  omega

/-- A block device; a read of some blocks gives their bytes, or fails. -/
structure Disk where
  blockSize : Nat
  mediaPresent : Bool
  lastBlock : Nat
  readBlocks : (lba count : Nat) → Option Bytes

/-- The widths of the entries of a file allocation table. -/
inductive FatType where
  | fat12
  | fat16
  | fat32
deriving DecidableEq, Repr

/-- The type follows from the number of clusters. -/
def FatType.ofClusterCount (count : Nat) : FatType :=
  if count < 4085 then .fat12 else if count < 65525 then .fat16 else .fat32

/-- The least entry that ends a chain. -/
def FatType.eocCluster : FatType → Nat
  | .fat12 => 0x0ff8
  | .fat16 => 0xfff8
  | .fat32 => 0x0ffffff8

/-- The first cluster of the root directory, which has sectors of its own before FAT32. -/
def FatType.rootCluster (fatType : FatType) (sec : Bytes) : Nat :=
  if fatType = .fat32 then le32 sec 44 % 2 ^ 28 else 0

/-- A volume; sectors are counted from its first one. -/
structure Volume where
  lbaOffset : Nat
  secPerCluster : Nat
  reservedSecs : Nat
  numFats : Nat
  rootEntries : Nat
  secsPerFat : Nat
  rootDirSectors : Nat
  rootDirStart : Nat
  dataStart : Nat
  totalSectors : Nat
  clusterCount : Nat
  fatType : FatType
  eocCluster : Nat
  rootCluster : Nat
deriving DecidableEq, Repr

/-- Whether the fields of a boot sector are ones of a volume on a disk. -/
def fieldsValid (sec : Bytes) (lastBlock lbaOffset totalSectors fatSize : Nat) : Bool :=
  let secPerCluster := (sec 13).toNat
  let fats := (sec 16).toNat
  le16 sec 11 == 512 && secPerCluster != 0 && secPerCluster &&& (secPerCluster - 1) == 0 &&
    secPerCluster ≤ 128 &&
    le16 sec 14 != 0 && (fats == 1 || fats == 2) && totalSectors != 0 && fatSize != 0 &&
    lbaOffset + totalSectors - 1 ≤ lastBlock

/-- The volume that a boot sector describes. -/
def volumeOfSector (sec : Bytes) (lastBlock lbaOffset : Nat) : Option Volume :=
  let secPerCluster := (sec 13).toNat
  let reserved := le16 sec 14
  let fats := (sec 16).toNat
  let rootEntries := le16 sec 17
  let totalSmall := le16 sec 19
  let fatSmall := le16 sec 22
  let totalSectors := if totalSmall ≠ 0 then totalSmall else le32 sec 32
  let fatSize := if fatSmall ≠ 0 then fatSmall else le32 sec 36
  let rootDirSectors := (rootEntries * 32 + 511) / 512
  if !fieldsValid sec lastBlock lbaOffset totalSectors fatSize then none
  -- This sum has 64 bits in the source, those below have 32.
  else if totalSectors ≤ reserved + fats * fatSize + rootDirSectors then none
  else
    let rootDirStart := word32 (reserved + word32 (fats * fatSize))
    let dataStart := word32 (rootDirStart + rootDirSectors)
    let clusterCount := (totalSectors - dataStart) / secPerCluster
    let fatType := FatType.ofClusterCount clusterCount
    let rootCluster := fatType.rootCluster sec
    if clusterCount = 0 then none
    else if fatType = .fat32 ∧
        (fatSmall ≠ 0 ∨ rootEntries ≠ 0 ∨ le16 sec 42 ≠ 0 ∨ rootCluster < 2 ∨
          word32 (clusterCount + 2) ≤ rootCluster) then
      none
    else if fatType ≠ .fat32 ∧ (fatSmall = 0 ∨ rootEntries = 0) then none
    else some ⟨lbaOffset, secPerCluster, reserved, fats, rootEntries, fatSize, rootDirSectors,
      rootDirStart, dataStart, totalSectors, clusterCount, fatType, fatType.eocCluster, rootCluster⟩

/-- Read the boot sector of a volume. -/
def volumeInit (disk : Disk) (lbaOffset : Nat) : Option Volume :=
  if disk.blockSize ≠ 512 ∨ !disk.mediaPresent ∨ disk.lastBlock < lbaOffset then none
  else match disk.readBlocks lbaOffset 1 with
    | none => none
    | some sec => volumeOfSector sec disk.lastBlock lbaOffset

section

variable (v : Volume)

/-- Read one sector of a volume. -/
def Volume.read512 (disk : Disk) (lba : Nat) : Option Bytes :=
  if v.totalSectors ≤ lba ∨ 0xffffffff - v.lbaOffset < lba then none
    else disk.readBlocks (v.lbaOffset + lba) 1

/-- Whether a cluster number is one of a data cluster. -/
def Volume.isDataCluster (cluster : Nat) : Bool :=
  2 ≤ cluster && cluster < word32 (v.clusterCount + 2) && cluster < v.eocCluster

/-- Where the entry of a cluster begins in the table, before arithmetic wraps. -/
def FatType.offset (fatType : FatType) (cluster : Nat) : Nat :=
  match fatType with
  | .fat12 => cluster + cluster / 2
  | .fat16 => cluster * 2
  | .fat32 => cluster * 4

/-- The sector in which the entry of a cluster begins. -/
def Volume.entryLba (cluster : Nat) : Nat :=
  word32 (v.reservedSecs + word32 (v.fatType.offset cluster) / 512)

/-- The entry of a cluster, with the sectors that are read for it; all ones if a sector cannot be
read. -/
def Volume.nextClusterLogged (disk : Disk) (cluster : Nat) : Nat × List Nat :=
  if !v.isDataCluster cluster then (0xffffffff, [])
  else
    let lba := v.entryLba cluster
    let pos := word32 (v.fatType.offset cluster) % 512
    match v.read512 disk lba with
    | none => (0xffffffff, [lba])
    | some sec =>
      match v.fatType with
      | .fat12 =>
        -- An entry may begin in the last byte of a sector.
        let (high, sectors) :=
          if pos = 511 then ((v.read512 disk (word32 (lba + 1))).map (· 0), [lba, word32 (lba + 1)])
          else (some (sec (pos + 1)), [lba])
        match high with
        | none => (0xffffffff, sectors)
        | some high =>
          let value := (sec pos).toNat + 256 * high.toNat
          (if cluster % 2 ≠ 0 then value / 16 else value % 4096, sectors)
      | .fat16 => (le16 sec pos, [lba])
      | .fat32 => (le32 sec pos % 2 ^ 28, [lba])

/-- The next cluster of a chain. -/
def Volume.nextCluster (disk : Disk) (cluster : Nat) : Nat :=
  (v.nextClusterLogged disk cluster).1

/-- The sectors that hold the entry of a cluster. -/
def Volume.entrySectors (cluster : Nat) : List Nat :=
  if v.fatType = .fat12 ∧ word32 (v.fatType.offset cluster) % 512 = 511 then
    [v.entryLba cluster, word32 (v.entryLba cluster + 1)]
  else [v.entryLba cluster]

/-- A sector of the data of a cluster. -/
def Volume.clusterLba (cluster s : Nat) : Nat :=
  word32 (v.dataStart + word32 ((cluster - 2) * v.secPerCluster) + s)

end

section Geometry

variable {disk : Disk} {lbaOffset : Nat} {v : Volume} {cluster : Nat}

/-- What an accepted boot sector guarantees. -/
structure Accepted (v : Volume) : Prop where
  secPerCluster_pos : 0 < v.secPerCluster
  reserved_pos : 0 < v.reservedSecs
  reserved_lt : v.reservedSecs < 2 ^ 16
  fat_le_start : v.reservedSecs + v.secsPerFat ≤ v.dataStart
  secsPerFat_pos : 0 < v.secsPerFat
  start_lt_total : v.dataStart < v.totalSectors
  total_lt : v.totalSectors < 2 ^ 32
  clusterCount_pos : 0 < v.clusterCount
  clusterCount_eq : v.clusterCount = (v.totalSectors - v.dataStart) / v.secPerCluster
  fatType_eq : v.fatType = .ofClusterCount v.clusterCount
  eocCluster_eq : v.eocCluster = v.fatType.eocCluster

/-- The checks of a boot sector give these facts. -/
theorem volumeInit_accepted (accepted : volumeInit disk lbaOffset = some v) : Accepted v := by
  simp only [volumeInit] at accepted
  split_ifs at accepted
  cases read : disk.readBlocks lbaOffset 1 with
  | none => simp [read] at accepted
  | some sec =>
    simp only [read, volumeOfSector] at accepted
    have reserved := le16_lt sec 14
    have total : (if le16 sec 19 ≠ 0 then le16 sec 19 else le32 sec 32) < 2 ^ 32 := by
      have small := le16_lt sec 19
      have large := le32_lt sec 32
      split_ifs <;> omega
    generalize (if le16 sec 19 ≠ 0 then le16 sec 19 else le32 sec 32) = totalSectors at *
    generalize (if le16 sec 22 ≠ 0 then le16 sec 22 else le32 sec 36) = fatSize at *
    split_ifs at accepted with invalid crowded empty broken bare
    obtain rfl := Option.some.inj accepted
    simp only [fieldsValid, Bool.not_eq_true', Bool.not_eq_false, Bool.and_eq_true, Bool.or_eq_true,
      bne_iff_ne, beq_iff_eq, decide_eq_true_eq] at invalid
    obtain ⟨⟨⟨⟨⟨⟨⟨⟨_, clustered⟩, _⟩, _⟩, reserve⟩, fats⟩, _⟩, sized⟩, _⟩ := invalid
    have tables : fatSize ≤ (sec 16).toNat * fatSize := Nat.le_mul_of_pos_left _ (by omega)
    -- The 64-bit sum is below the number of sectors, so the 32-bit ones do not wrap.
    generalize (sec 16).toNat * fatSize = tableSectors at *
    have crowded := Nat.lt_of_not_le crowded
    have wrapped : word32 tableSectors = tableSectors := word32_of_lt (by omega)
    have start : word32 (le16 sec 14 + tableSectors) = le16 sec 14 + tableSectors :=
      word32_of_lt (by omega)
    have data : word32 (le16 sec 14 + tableSectors + (le16 sec 17 * 32 + 511) / 512) =
      le16 sec 14 + tableSectors + (le16 sec 17 * 32 + 511) / 512 := word32_of_lt (by omega)
    rw [wrapped, start, data]
    exact ⟨by dsimp only; omega, by dsimp only; omega,
      reserved, by dsimp only; omega, by dsimp only; omega, crowded, total,
      Nat.pos_of_ne_zero (by simpa [wrapped, start, data] using empty), rfl, rfl, rfl⟩

theorem isDataCluster_iff (accepted : Accepted v) :
    v.isDataCluster cluster ↔ 2 ≤ cluster ∧ cluster < v.clusterCount + 2 ∧
      cluster < v.fatType.eocCluster := by
  have count : v.clusterCount ≤ v.totalSectors - v.dataStart :=
    accepted.clusterCount_eq ▸ Nat.div_le_self _ _
  have total := accepted.total_lt
  have start := accepted.fat_le_start
  have reserved := accepted.reserved_pos
  have table := accepted.secsPerFat_pos
  have wrapped : word32 (v.clusterCount + 2) = v.clusterCount + 2 := word32_of_lt (by omega)
  simp [Volume.isDataCluster, wrapped, accepted.eocCluster_eq, and_assoc]

/-- A cluster lies behind the tables, inside the volume. -/
theorem clusterLba_eq (accepted : Accepted v) (data : v.isDataCluster cluster) {s : Nat}
    (inside : s < v.secPerCluster) :
    v.clusterLba cluster s = v.dataStart + (cluster - 2) * v.secPerCluster + s ∧
      v.dataStart + (cluster - 2) * v.secPerCluster + s < v.totalSectors := by
  obtain ⟨low, high, _⟩ := (isDataCluster_iff accepted).1 data
  have start := accepted.start_lt_total
  have total := accepted.total_lt
  -- The clusters in front of this one and the cluster itself are among those that were counted.
  have whole : (cluster - 2 + 1) * v.secPerCluster ≤ v.totalSectors - v.dataStart := by
    calc (cluster - 2 + 1) * v.secPerCluster
        ≤ v.clusterCount * v.secPerCluster := Nat.mul_le_mul_right _ (by omega)
      _ ≤ v.totalSectors - v.dataStart := accepted.clusterCount_eq ▸ Nat.div_mul_le_self _ _
  rw [Nat.succ_mul] at whole
  have product : word32 ((cluster - 2) * v.secPerCluster) = (cluster - 2) * v.secPerCluster :=
    word32_of_lt (by omega)
  exact ⟨by rw [Volume.clusterLba, product]; exact word32_of_lt (by omega), by omega⟩

theorem offset_lt (accepted : Accepted v) (data : v.isDataCluster cluster) :
    v.fatType.offset cluster < 2 ^ 30 ∧
      v.reservedSecs + v.fatType.offset cluster / 512 + 1 < 2 ^ 32 := by
  obtain ⟨_, _, below⟩ := (isDataCluster_iff accepted).1 data
  have reserved := accepted.reserved_lt
  have offset : v.fatType.offset cluster < 2 ^ 30 := by
    cases type : v.fatType <;> simp only [type, FatType.offset,
      FatType.eocCluster] at below ⊢ <;> omega
  omega

/-- The largest data cluster. -/
def Volume.lastCluster (v : Volume) : Nat := min (v.clusterCount + 1) (v.fatType.eocCluster - 1)

/-- The end of the entry of a cluster: those of 12 bits touch two bytes. -/
def FatType.entryEnd (fatType : FatType) (cluster : Nat) : Nat :=
  fatType.offset cluster + if fatType = .fat32 then 4 else 2

/-- When an entry lies in the first table. -/
theorem entrySectors_iff (accepted : Accepted v) (data : v.isDataCluster cluster) :
    (∀ sector ∈ v.entrySectors cluster, v.reservedSecs ≤ sector ∧
      sector < v.reservedSecs + v.secsPerFat) ↔
      v.fatType.entryEnd cluster ≤ 512 * v.secsPerFat := by
  obtain ⟨small, fits⟩ := offset_lt accepted data
  have offset : word32 (v.fatType.offset cluster) = v.fatType.offset cluster :=
    word32_of_lt (by omega)
  have lba : v.entryLba cluster = v.reservedSecs + v.fatType.offset cluster / 512 := by
    rw [Volume.entryLba, offset]
    exact word32_of_lt (by omega)
  have next : word32 (v.entryLba cluster + 1) = v.entryLba cluster + 1 := word32_of_lt (by omega)
  rw [Volume.entrySectors, offset, next, lba, FatType.entryEnd]
  cases type : v.fatType <;> simp only [FatType.offset, reduceCtorEq, false_and, true_and,
    if_false, if_true]
  · split_ifs with crosses <;> simp <;> omega
  · simp
    omega
  · simp
    omega

/-- The sectors read for a cluster are those of its entry. -/
theorem nextClusterLogged_sectors (data : v.isDataCluster cluster) (disk : Disk) :
    (v.nextClusterLogged disk cluster).2 =
      if (v.read512 disk (v.entryLba cluster)).isSome then v.entrySectors cluster
        else [v.entryLba cluster] := by
  simp only [Volume.nextClusterLogged, Volume.entrySectors, data, Bool.not_true,
    Bool.false_eq_true, if_false]
  cases v.read512 disk (v.entryLba cluster) with
  | none => rfl
  | some sec =>
    cases v.fatType with
    | fat12 =>
      by_cases crosses : word32 (FatType.offset .fat12 cluster) % 512 = 511
      · simp only [crosses, if_true, and_self, Option.isSome_some]
        cases v.read512 disk (word32 (v.entryLba cluster + 1)) <;> rfl
      · simp [crosses]
    | fat16 => simp
    | fat32 => simp

/-- The geometry of an accepted volume is consistent exactly if its first table has room for all
clusters. Sectors of data lie inside the volume and no arithmetic wraps in any case. The sectors of
an entry are those that are read for it, whatever the disk holds. -/
theorem geometry_iff (accepted : volumeInit disk lbaOffset = some v) :
    ((∀ cluster, v.isDataCluster cluster = true →
        (∀ sector ∈ v.entrySectors cluster, v.reservedSecs ≤ sector ∧
          sector < v.reservedSecs + v.secsPerFat) ∧
        v.fatType.offset cluster < 2 ^ 32 ∧
          v.reservedSecs + v.fatType.offset cluster / 512 + 1 < 2 ^ 32 ∧
        ∀ s < v.secPerCluster, v.dataStart ≤ v.clusterLba cluster s ∧
          v.clusterLba cluster s < v.totalSectors ∧
          v.dataStart + (cluster - 2) * v.secPerCluster + s < 2 ^ 32) ↔
      v.fatType.entryEnd v.lastCluster ≤ 512 * v.secsPerFat) ∧
    (∀ cluster, v.isDataCluster cluster = true →
      v.fatType.offset cluster < 2 ^ 32 ∧
        v.reservedSecs + v.fatType.offset cluster / 512 + 1 < 2 ^ 32 ∧
      ∀ s < v.secPerCluster, v.dataStart ≤ v.clusterLba cluster s ∧
        v.clusterLba cluster s < v.totalSectors ∧
        v.dataStart + (cluster - 2) * v.secPerCluster + s < 2 ^ 32) ∧
    ∀ cluster, v.isDataCluster cluster = true → ∀ contents : Disk,
      (v.nextClusterLogged contents cluster).2 =
        if (v.read512 contents (v.entryLba cluster)).isSome then v.entrySectors cluster
        else [v.entryLba cluster] := by
  have valid := volumeInit_accepted accepted
  have always : ∀ cluster, v.isDataCluster cluster = true →
      v.fatType.offset cluster < 2 ^ 32 ∧
        v.reservedSecs + v.fatType.offset cluster / 512 + 1 < 2 ^ 32 ∧
      ∀ s < v.secPerCluster, v.dataStart ≤ v.clusterLba cluster s ∧
        v.clusterLba cluster s < v.totalSectors ∧
        v.dataStart + (cluster - 2) * v.secPerCluster + s < 2 ^ 32 := by
    intro cluster data
    obtain ⟨small, fits⟩ := offset_lt valid data
    refine ⟨by omega, fits, fun s inside => ?_⟩
    obtain ⟨equal, below⟩ := clusterLba_eq valid data inside
    have total := valid.total_lt
    omega
  refine ⟨⟨fun consistent => ?_, fun room cluster data => ?_⟩, always,
    fun _ data => nextClusterLogged_sectors data⟩
  · have last : v.isDataCluster v.lastCluster = true := by
      have count := valid.clusterCount_pos
      rw [isDataCluster_iff valid, Volume.lastCluster]
      cases v.fatType <;> simp only [FatType.eocCluster] <;> omega
    exact (entrySectors_iff valid last).1 (consistent _ last).1
  · refine ⟨(entrySectors_iff valid data).2 (Nat.le_trans ?_ room), always cluster data⟩
    -- Entries of smaller clusters end earlier.
    obtain ⟨_, high, below⟩ := (isDataCluster_iff valid).1 data
    have bounded : cluster ≤ v.lastCluster := by
      rw [Volume.lastCluster]
      omega
    simp only [FatType.entryEnd]
    cases v.fatType <;> simp only [FatType.offset] <;> omega

end Geometry

/-- A disk with a volume of one-sector clusters, one table sector and one sector of root directory.
Cluster 2 is its own successor, and every directory entry is a deleted one. -/
def loopedDisk (totalSectors : BitVec 16) : Disk where
  blockSize := 512
  mediaPresent := true
  lastBlock := 0xffff
  readBlocks lba _ := some fun pos =>
    match lba, pos with
    | 0, 12 => 2
    | 0, 13 | 0, 14 | 0, 16 | 0, 22 => 1
    | 0, 17 => 16
    | 0, 19 => totalSectors.setWidth 8
    | 0, 20 => (totalSectors >>> 8).setWidth 8
    | 1, 3 => 2
    | 0, _ | 1, _ => 0
    | _, _ => 0xe5

/-- The volume on that disk. -/
def loopedVolume (totalSectors : Nat) : Volume :=
  ⟨0, 1, 1, 1, 16, 1, 1, 2, 3, totalSectors, totalSectors - 3, .fat12, 0x0ff8, 0⟩

/-- A table of one sector for four hundred clusters: the entry of the last one is in the root
directory. -/
theorem entry_beyond_table :
    volumeInit (loopedDisk 403) 0 = some (loopedVolume 403) ∧
      (loopedVolume 403).isDataCluster 401 = true ∧
      ((loopedVolume 403).nextClusterLogged (loopedDisk 403) 401).2 = [2] ∧
      (loopedVolume 403).reservedSecs + (loopedVolume 403).secsPerFat = 2 := by
  decide +kernel

/-- One cluster fits in the table. -/
theorem geometry_iff_oneCluster :
    volumeInit (loopedDisk 4) 0 = some (loopedVolume 4) ∧
    ((∀ cluster, (loopedVolume 4).isDataCluster cluster = true →
        (∀ sector ∈ (loopedVolume 4).entrySectors cluster, 1 ≤ sector ∧ sector < 2) ∧
        (loopedVolume 4).fatType.offset cluster < 2 ^ 32 ∧
          1 + (loopedVolume 4).fatType.offset cluster / 512 + 1 < 2 ^ 32 ∧
        ∀ s < 1, 3 ≤ (loopedVolume 4).clusterLba cluster s ∧
          (loopedVolume 4).clusterLba cluster s < 4 ∧ 3 + (cluster - 2) * 1 + s < 2 ^ 32) ↔
      (loopedVolume 4).fatType.entryEnd (loopedVolume 4).lastCluster ≤ 512) := by
  have accepted : volumeInit (loopedDisk 4) 0 = some (loopedVolume 4) := by decide +kernel
  exact ⟨accepted, (geometry_iff accepted).1⟩

end Ia64.Efi.Fat
