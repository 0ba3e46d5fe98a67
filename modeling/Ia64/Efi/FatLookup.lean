import Ia64.Efi.Fat
import Mathlib.Data.List.TakeWhile
import Mathlib.Data.Nat.Find
import Mathlib.Logic.Relation
import Mathlib.Order.Interval.Finset.Nat

/-! Looking up and reading files of a FAT volume, and when that ends. -/

namespace Ia64.Efi.Fat

open Function Volume

/-- The characters of a name or of a path, without the zero at its end. -/
abbrev Name := List (BitVec 16)

/-- A character in upper case. -/
def asciiUpper (c : BitVec 8) : BitVec 8 := if 0x61 ≤ c ∧ c ≤ 0x7a then c - 0x20 else c

/-- The low byte of a character in upper case. -/
def upperByte (c : BitVec 16) : BitVec 8 := asciiUpper (c.setWidth 8)

/-- A component of a path is a text, up to case. -/
def componentEqAscii : Name → Bytes → Bool
  | [], ascii => ascii 0 == 0
  | c :: name, ascii => ascii 0 != 0 && upperByte c == asciiUpper (ascii 0) && componentEqAscii name
    fun i => ascii (i + 1)

/-- Compare some positions of a directory entry with a name, which ends at a dot if `dotted`; the
rest of the name. -/
def matchPart (e : Bytes) (dotted : Bool) : List Nat → Name → Option Name
  | [], name => some name
  | pos :: rest, [] => if e pos = 0x20 then matchPart e dotted rest [] else none
  | pos :: rest, c :: name =>
    if dotted && c == 0x2e then if e pos = 0x20 then matchPart e dotted rest (c :: name) else none
    else if e pos = upperByte c then matchPart e dotted rest name else none

/-- A component of a path is the short name of a directory entry. -/
def shortNameMatches (e : Bytes) (name : Name) : Bool :=
  match matchPart e true (List.range 8) name with
  | none => false
  | some rest =>
    let rest := if rest.head? = some 0x2e then rest.tail else rest
    matchPart e false [8, 9, 10] rest == some []

/-- Copy characters of an entry to the long name, up to its end. -/
def lfnCopy (e : Bytes) : List Nat → Nat → Bytes → Bytes
  | [], _, lfn => lfn
  | pos :: rest, index, lfn =>
    if 127 ≤ index then lfn
    else if le16 e pos = 0 ∨ le16 e pos = 0xffff then Function.update lfn index 0
    else lfnCopy e rest (index + 1) (Function.update lfn index (e pos))

/-- Copy a part of a long name. -/
def lfnCopyPart (lfn e : Bytes) : Bytes :=
  let seq := (e 0).toNat % 32
  if seq = 0 then lfn
    else lfnCopy e [1, 3, 5, 7, 9, 14, 16, 18, 20, 22, 24, 28, 30] ((seq - 1) * 13) lfn

/-- A component of a path is the long name. -/
def lfnMatches (lfn : Bytes) (name : Name) : Bool := lfn 0 != 0 && componentEqAscii name lfn

/-- No long name. -/
def noLfn : Bytes := fun _ => 0

/-- What a look at some directory entries gives; a search goes on with the parts of a long name seen
last. -/
inductive Scan where
  | found (entry : Bytes)
  | ended
  | more (lfn : Bytes)

/-- Look at the entries of a sector. -/
def scanEntries (sec : Bytes) (name : Name) : List Nat → Bytes → Scan
  | [], lfn => .more lfn
  | off :: rest, lfn =>
    let e : Bytes := fun i => sec (off + i)
    if e 0 = 0 then .ended
    else if e 0 = 0xe5 then scanEntries sec name rest noLfn
    else if e 11 = 0x0f then scanEntries sec name rest (lfnCopyPart lfn e)
    else if shortNameMatches e name || lfnMatches lfn name then .found e
    else scanEntries sec name rest noLfn

/-- The offsets of the entries in a sector. -/
def entryOffsets : List Nat := (List.range 16).map (32 * ·)

/-- Look at the entries of some sectors. -/
def Volume.scanSectors (v : Volume) (disk : Disk) (name : Name) : List Nat → Bytes → Scan
  | [], lfn => .more lfn
  | lba :: rest, lfn =>
    match v.read512 disk lba with
    | none => .ended
    | some sec =>
      match scanEntries sec name entryOffsets lfn with
      | .more lfn => v.scanSectors disk name rest lfn
      | stop => stop

section

variable (v : Volume) (disk : Disk)

/-- Look at the entries of a cluster. -/
def Volume.scanCluster (name : Name) (cluster : Nat) (lfn : Bytes) : Scan :=
  v.scanSectors disk name ((List.range v.secPerCluster).map (v.clusterLba cluster)) lfn

/-- Follow a chain of clusters, at most `fuel` ones: no result if the loop is still running, or the
entry if there is. -/
def Volume.findInChain (v : Volume) (disk : Disk) (name : Name) :
    Nat → Nat → Bytes → Option (Option Bytes)
  | 0, _, _ => none
  | fuel + 1, cluster, lfn =>
    if v.isDataCluster cluster then
      match v.scanCluster disk name cluster lfn with
      | .found e => some (some e)
      | .ended => some none
      | .more lfn => v.findInChain disk name fuel (v.nextCluster disk cluster) lfn
    else some none

/-- Find a name in a directory. -/
def Volume.findInDir (fuel : Nat) (root : Bool) (dirCluster : Nat) (name : Name) :
    Option (Option Bytes) :=
  if root ∧ v.fatType ≠ .fat32 then
    let count := word32 (v.rootDirStart + v.rootDirSectors) - v.rootDirStart
    match v.scanSectors disk name (List.range' v.rootDirStart count) noLfn with
    | .found e => some (some e)
    | _ => some none
  else v.findInChain disk name fuel (if root then v.rootCluster else dirCluster) noLfn

/-- The cluster in a directory entry. -/
def Volume.entryCluster (v : Volume) (e : Bytes) : Nat :=
  if v.fatType = .fat32 then le16 e 26 + 65536 * le16 e 20 else le16 e 26

/-- Separators of a path. -/
def isSeparator (c : BitVec 16) : Bool := c == 0x5c || c == 0x2f

/-- What a lookup may fail with. -/
inductive Status where
  | notFound
  | invalidParameter
  | deviceError
deriving DecidableEq, Repr

/-- The first component of a path. -/
def component (path : Name) : Name := path.takeWhile (!isSeparator ·)

/-- The path behind the first component. -/
def remainder (path : Name) : Name := (path.dropWhile (!isSeparator ·)).dropWhile isSeparator

theorem remainder_lt {path : Name} (some : component path ≠ []) :
    (remainder path).length < path.length := by
  have parts :=
    congrArg List.length (List.takeWhile_append_dropWhile (p := (!isSeparator ·)) (l := path))
  have shorter :=
    (List.dropWhile_suffix isSeparator (l := path.dropWhile (!isSeparator ·))).length_le
  have positive := List.length_pos_iff.2 some
  rw [List.length_append] at parts
  rw [component] at positive
  rw [remainder]
  omega

/-- Look up a path that begins with a component, each directory with at most `fuel` clusters. -/
def Volume.lookupFrom (v : Volume) (disk : Disk) (fuel : Nat) (root : Bool) (dirCluster : Nat)
    (path : Name) : Option (Except Status Bytes) :=
  if _empty : component path = [] then some (.error .invalidParameter)
  else if component path = [0x2e] then
    if remainder path = [] then some (.error .invalidParameter)
    else v.lookupFrom disk fuel root dirCluster (remainder path)
  else match v.findInDir disk fuel root dirCluster (component path) with
    | none => none
    | some none => some (.error .notFound)
    | some (some e) =>
      if remainder path = [] then some (.ok e)
      else if e 11 &&& 0x10 = 0 then some (.error .notFound)
      else v.lookupFrom disk fuel false (v.entryCluster e) (remainder path)
termination_by path.length
decreasing_by all_goals exact remainder_lt ‹_›

/-- The entry that stands for the root directory. -/
def Volume.rootEntry (v : Volume) : Bytes := fun pos =>
  let size := if v.fatType = .fat32 then 0 else word32 (v.rootDirSectors * 512)
  if pos = 11 then 0x10
  else if pos = 20 ∨ pos = 21 then .ofNat 8 (v.rootCluster / 256 ^ (pos - 18))
  else if pos = 26 ∨ pos = 27 then .ofNat 8 (v.rootCluster / 256 ^ (pos - 26))
  else if 28 ≤ pos ∧ pos < 32 then .ofNat 8 (size / 256 ^ (pos - 28))
  else 0

/-- Where a lookup starts: in an open directory of the volume (whether it is the root, and its first
cluster) if there is one and the path does not begin with a separator, or else in the root
directory. -/
def startOf (base : Option (Bool × Nat)) (path : Name) : Bool × Nat :=
  if (path.head?.map isSeparator).getD false then (true, 0) else base.getD (true, 0)

/-- Look up a path. -/
def Volume.lookupVolume (fuel : Nat) (base : Option (Bool × Nat)) (path : Name) :
    Option (Except Status Bytes) :=
  if path.dropWhile isSeparator = [] then some (.ok v.rootEntry)
  else v.lookupFrom disk fuel (startOf base path).1 (startOf base path).2
    (path.dropWhile isSeparator)

/-- Read some sectors of a volume. -/
def Volume.read512s (lba count : Nat) : Option Bytes :=
  if count = 0 then some noLfn
  else if v.totalSectors ≤ lba ∨ v.totalSectors - lba - 1 < count - 1 ∨
    0xffffffff - v.lbaOffset < lba ∨
      0xffffffff - v.lbaOffset - lba < count - 1 then none
  else disk.readBlocks (v.lbaOffset + lba) count

/-- Put bytes at the end of what was read so far. -/
def append (buffer : Bytes) (done : Nat) (data : Bytes) (size : Nat) : Bytes :=
  fun i => if done ≤ i ∧ i < done + size then data (i - done) else buffer i

/-- Read what is wanted of a cluster: the bytes read so far and the buffer, and whether a read
failed. -/
def Volume.readCluster (v : Volume) (disk : Disk) (want cluster s done : Nat) (buffer : Bytes) :
    Bool × Nat × Bytes :=
  if _inside : s < v.secPerCluster ∧ done < want then
    let lba := v.clusterLba cluster s
    let sectors := min ((want - done) / 512) (v.secPerCluster - s)
    if 0 < sectors then
      match v.read512s disk lba sectors with
      | none => (true, done, buffer)
      | some data =>
        v.readCluster disk want cluster (s + (sectors - 1) + 1) (word32 (done + sectors * 512))
          (append buffer done data (sectors * 512))
    else
      let chunk := min (want - done) 512
      match v.read512 disk lba with
      | none => (true, done, buffer)
      | some data =>
        v.readCluster disk want cluster (s + 1) (word32 (done + chunk))
          (append buffer done data chunk)
  else (false, done, buffer)
termination_by v.secPerCluster - s

/-- Follow the chain of a file, at most `fuel` clusters. -/
def Volume.readChain (v : Volume) (disk : Disk) (want : Nat) :
    Nat → Nat → Nat → Bytes → Option (Except Status Unit × Nat × Bytes)
  | 0, _, _, _ => none
  | fuel + 1, cluster, done, buffer =>
    if done < want ∧ v.isDataCluster cluster then
      match v.readCluster disk want cluster 0 done buffer with
      | (true, done, buffer) => some (.error .deviceError, done, buffer)
      | (false, done, buffer) =>
        v.readChain disk want fuel (if done < want then v.nextCluster disk cluster
          else cluster) done buffer
    else some (if done = want then .ok () else .error .deviceError, done, buffer)

/-- Read the file of a directory entry: the status, the number of bytes read and the buffer. -/
def Volume.readFileEntry (fuel : Nat) (e buffer : Bytes) :
    Option (Except Status Unit × Nat × Bytes) :=
  if e 11 &&& 0x10 ≠ 0 then some (.error .invalidParameter, 0, buffer)
  else v.readChain disk (le32 e 28) fuel (v.entryCluster e) 0 buffer

end

section Directories

/-- A directory: whether it is the root, and its first cluster. -/
abbrev Directory := Bool × Nat

/-- The root directory of FAT12 and FAT16 has sectors of its own. -/
def Volume.fixedRoot (v : Volume) (directory : Directory) : Prop := directory.1 ∧ v.fatType ≠ .fat32

variable (v : Volume) (disk : Disk)

/-- The clusters of a directory, one after the other. -/
def Volume.chain (directory : Directory) (n : Nat) : Nat :=
  (v.nextCluster disk)^[n] (if directory.1 then v.rootCluster else directory.2)

/-- A sector that ends every search: it cannot be read, or one of its entries marks the end of the
directory. -/
def Volume.Closes (lba : Nat) : Prop :=
  ∀ sec, v.read512 disk lba = some sec → ∃ off ∈ entryOffsets, sec off = 0

/-- A chain that comes to its end: to a cluster that is none of data, or to one with a sector that
ends every search. -/
def Volume.Stops (cluster : Nat) : Prop :=
  v.isDataCluster cluster = true → ∃ s < v.secPerCluster, v.Closes disk (v.clusterLba cluster s)

/-- A directory that is searched in as many clusters as the volume has, whatever the name. -/
def Volume.Bounded (directory : Directory) : Prop :=
  v.fixedRoot directory ∨ ∃ n ≤ v.clusterCount, v.Stops disk (v.chain disk directory n)

/-- The sectors of a directory. -/
def Volume.Occupies (directory : Directory) (lba : Nat) : Prop :=
  v.fixedRoot directory ∧ v.rootDirStart ≤ lba ∧ lba < v.rootDirStart + v.rootDirSectors ∨
    ¬v.fixedRoot directory ∧ ∃ n s, s < v.secPerCluster ∧
      v.isDataCluster (v.chain disk directory n) ∧ lba = v.clusterLba (v.chain disk directory n) s

/-- An entry in use at an offset of a sector. -/
def EntryAt (sec : Bytes) (off : Nat) (e : Bytes) : Prop :=
  sec off ≠ 0 ∧ sec off ≠ 0xe5 ∧ e = fun i => sec (off + i)

/-- A directory has an entry for another one. -/
def Volume.Subdirectory (directory below : Directory) : Prop :=
  ∃ lba sec off, v.Occupies disk directory lba ∧ v.read512 disk lba = some sec ∧
    off ∈ entryOffsets ∧
    ∃ e, EntryAt sec off e ∧ e 11 &&& 0x10 ≠ 0 ∧ below = (false, v.entryCluster e)

end Directories

section Searches

variable {disk : Disk} {lbaOffset : Nat} {v : Volume} {name path : Name} {directory : Directory}

/-- What a look at some places says about them: which one holds what was found, and which ones end
every look. -/
def Scan.Tells {α : Type} (places : List α) (holds : α → Bytes → Prop)
    (closes : α → Prop) : Scan → Prop
  | .found e => ∃ place ∈ places, holds place e
  | .ended => ∃ place ∈ places, closes place
  | .more _ => ∀ place ∈ places, ¬closes place

theorem Scan.Tells.cons {α : Type} {first : α} {rest : List α} {holds : α → Bytes → Prop}
    {closes : α → Prop} {scan : Scan} (tells : scan.Tells rest holds closes)
    (opened : ¬closes first) : scan.Tells (first :: rest) holds closes := by
  cases scan with
  | found e => exact tells.imp fun _ here => ⟨List.mem_cons_of_mem _ here.1, here.2⟩
  | ended => exact tells.imp fun _ here => ⟨List.mem_cons_of_mem _ here.1, here.2⟩
  | more later => exact List.forall_mem_cons.mpr ⟨opened, tells⟩

theorem scanEntries_tells (sec : Bytes) (name : Name) (offsets : List Nat) (lfn : Bytes) :
    (scanEntries sec name offsets lfn).Tells offsets (EntryAt sec) (sec · = 0) := by
  induction offsets generalizing lfn with
  | nil => exact fun _ member => absurd member List.not_mem_nil
  | cons off rest ih =>
    simp only [scanEntries, Nat.add_zero]
    split_ifs with mark deleted part named
    · exact ⟨off, List.mem_cons_self, mark⟩
    · exact (ih _).cons mark
    · exact (ih _).cons mark
    · exact ⟨off, List.mem_cons_self, mark, deleted, rfl⟩
    · exact (ih _).cons mark

theorem scanSectors_tells (v : Volume) (disk : Disk) (name : Name) (sectors : List Nat)
    (lfn : Bytes) :
    (v.scanSectors disk name sectors lfn).Tells sectors
      (fun lba e => ∃ sec, v.read512 disk lba = some sec ∧ ∃ off ∈ entryOffsets, EntryAt sec off e)
      (v.Closes disk) := by
  induction sectors generalizing lfn with
  | nil => exact fun _ member => absurd member List.not_mem_nil
  | cons lba rest ih =>
    rw [scanSectors]
    cases read : v.read512 disk lba with
    | none => exact ⟨lba, List.mem_cons_self, fun sec other => by simp [read] at other⟩
    | some sec =>
      have entries := scanEntries_tells sec name entryOffsets lfn
      simp only
      cases scanned : scanEntries sec name entryOffsets lfn with
      | found e =>
        rw [scanned] at entries
        exact ⟨lba, List.mem_cons_self, sec, read, entries⟩
      | ended =>
        rw [scanned] at entries
        exact ⟨lba, List.mem_cons_self,
          fun other same => by rwa [← Option.some.inj (read.symm.trans same)]⟩
      | more next =>
        rw [scanned] at entries
        refine (ih next).cons fun closes => ?_
        obtain ⟨off, member, zero⟩ := closes sec read
        exact entries off member zero

/-- What a look at a cluster says about its sectors. -/
theorem scanCluster_tells (v : Volume) (disk : Disk) (name : Name) (cluster : Nat) (lfn : Bytes) :
    (v.scanCluster disk name cluster lfn).Tells (List.range v.secPerCluster)
      (fun s e => ∃ sec, v.read512 disk (v.clusterLba cluster s) = some sec ∧
        ∃ off ∈ entryOffsets, EntryAt sec off e)
      (fun s => v.Closes disk (v.clusterLba cluster s)) := by
  have sectors :=
    scanSectors_tells v disk name ((List.range v.secPerCluster).map (v.clusterLba cluster)) lfn
  rw [scanCluster]
  cases scanned : v.scanSectors disk name ((List.range v.secPerCluster).map (v.clusterLba cluster))
    lfn
  all_goals
    rw [scanned] at sectors
    simpa [Scan.Tells] using sectors

/-- A chain that stops is searched in so many clusters. -/
theorem findInChain_isSome {n cluster fuel : Nat}
    (stops : v.Stops disk ((v.nextCluster disk)^[n] cluster)) (enough : n < fuel) (lfn : Bytes) :
    (v.findInChain disk name fuel cluster lfn).isSome := by
  induction fuel generalizing n cluster lfn with
  | zero => omega
  | succ fuel ih =>
    rw [findInChain]
    split_ifs with data
    · cases scanned : v.scanCluster disk name cluster lfn with
      | found e => rfl
      | ended => rfl
      | more later =>
        cases n with
        | zero =>
          obtain ⟨s, inside, closes⟩ := stops data
          have sectors := scanCluster_tells v disk name cluster lfn
          rw [scanned] at sectors
          exact absurd closes (sectors s (List.mem_range.mpr inside))
        | succ n =>
          have next : v.Stops disk ((v.nextCluster disk)^[n] (v.nextCluster disk cluster)) := stops
          exact ih next (Nat.lt_of_succ_lt_succ enough) later
    · rfl

theorem findInDir_isSome (bounded : v.Bounded disk directory) :
    (v.findInDir disk (v.clusterCount + 1) directory.1 directory.2 name).isSome := by
  rw [findInDir]
  by_cases fixed : directory.1 ∧ v.fatType ≠ .fat32
  · rw [if_pos fixed]
    dsimp only
    split <;> rfl
  · rw [if_neg fixed]
    obtain ⟨n, few, stops⟩ := bounded.resolve_left fixed
    exact findInChain_isSome stops (Nat.lt_succ_of_le few) noLfn

theorem findInChain_found {fuel cluster : Nat} {lfn e : Bytes}
    (found : v.findInChain disk name fuel cluster lfn = some (some e)) :
    ∃ n, v.isDataCluster ((v.nextCluster disk)^[n] cluster) ∧
      ∃ lfn, v.scanCluster disk name ((v.nextCluster disk)^[n] cluster) lfn = .found e := by
  induction fuel generalizing cluster lfn with
  | zero => simp [findInChain] at found
  | succ fuel ih =>
    rw [findInChain] at found
    split_ifs at found with data
    · cases scanned : v.scanCluster disk name cluster lfn with
      | ended => simp [scanned] at found
      | found entry =>
        simp only [scanned, Option.some.injEq] at found
        exact ⟨0, data, lfn, found ▸ scanned⟩
      | more later =>
        simp only [scanned] at found
        obtain ⟨n, here⟩ := ih found
        exact ⟨n + 1, here⟩
    · simp at found

/-- A directory that is found has an entry. -/
theorem subdirectory_of_found {fuel : Nat} {e : Bytes}
    (found : v.findInDir disk fuel directory.1 directory.2 name = some (some e))
    (isDirectory : e 11 &&& 0x10 ≠ 0) :
    v.Subdirectory disk directory (false, v.entryCluster e) := by
  rw [findInDir] at found
  by_cases fixed : directory.1 ∧ v.fatType ≠ .fat32
  · rw [if_pos fixed] at found
    cases scanned : v.scanSectors disk name (List.range' v.rootDirStart
        (word32 (v.rootDirStart + v.rootDirSectors) - v.rootDirStart)) noLfn with
    | ended => simp [scanned] at found
    | more later => simp [scanned] at found
    | found entry =>
      simp only [scanned, Option.some.injEq] at found
      subst found
      have sectors := scanSectors_tells v disk name (List.range' v.rootDirStart
        (word32 (v.rootDirStart + v.rootDirSectors) - v.rootDirStart)) noLfn
      rw [scanned] at sectors
      obtain ⟨lba, member, sec, read, off, listed, entry⟩ := sectors
      have wraps : word32 (v.rootDirStart + v.rootDirSectors) ≤ v.rootDirStart + v.rootDirSectors :=
        Nat.mod_le _ _
      rw [List.mem_range'_1] at member
      exact ⟨lba, sec, off, .inl ⟨fixed, member.1, by omega⟩, read, listed, _, entry,
        isDirectory, rfl⟩
  · rw [if_neg fixed] at found
    obtain ⟨n, data, lfn, scanned⟩ := findInChain_found found
    have sectors := scanCluster_tells v disk name (v.chain disk directory n) lfn
    rw [show v.scanCluster disk name (v.chain disk directory n) lfn = .found e from scanned]
      at sectors
    obtain ⟨s, member, sec, read, off, listed, entry⟩ := sectors
    exact ⟨_, sec, off, .inr ⟨fixed, n, s, List.mem_range.mp member, data, rfl⟩, read,
      listed, e, entry, isDirectory, rfl⟩

/-- A lookup ends in bounded directories. -/
theorem lookupFrom_isSome
    (bounded : ∀ below, Relation.ReflTransGen (v.Subdirectory disk) directory below →
      v.Bounded disk below) :
    (v.lookupFrom disk (v.clusterCount + 1) directory.1 directory.2 path).isSome := by
  induction length : path.length using Nat.strong_induction_on generalizing directory path with
  | _ length ih =>
    subst length
    rw [lookupFrom]
    by_cases proper : component path = []
    · rw [dif_pos proper]
      rfl
    rw [dif_neg proper]
    have shorter := remainder_lt proper
    by_cases dot : component path = [0x2e]
    · rw [if_pos dot]
      split_ifs
      · rfl
      · exact ih _ shorter bounded rfl
    · obtain ⟨result, found⟩ := Option.isSome_iff_exists.1
        (show (v.findInDir disk _ _ _ (component path)).isSome from findInDir_isSome
          (bounded directory .refl))
      rw [if_neg dot, found]
      cases result with
      | none => rfl
      | some e =>
        dsimp only
        split_ifs with last file
        · rfl
        · rfl
        · -- The next component is looked for in a directory of this one.
          have step := subdirectory_of_found found file
          exact ih _ shorter (fun below reached => bounded below (.head step reached)) rfl

end Searches

section Converse

variable {disk : Disk} {lbaOffset : Nat} {v : Volume} {name : Name} {directory : Directory}

variable {e lfn : Bytes} {positions : List Nat} {fuel : Nat}

theorem matchPart_length {dotted : Bool} {rest : Name}
    (matched : matchPart e dotted positions name = some rest) :
    name.length ≤ rest.length + positions.length := by
  induction positions generalizing name with
  | nil =>
    rw [matchPart, Option.some.injEq] at matched
    simp [matched]
  | cons pos positions ih =>
    cases name with
    | nil => simp
    | cons c name =>
      rw [matchPart] at matched
      rw [List.length_cons, List.length_cons]
      split_ifs at matched
      · have longer := ih matched
        rw [List.length_cons] at longer
        omega
      · have longer := ih matched
        omega

/-- A name of more than twelve characters is no short name. -/
theorem shortNameMatches_of_long (long : 12 < name.length) (e : Bytes) :
    shortNameMatches e name = false := by
  rw [shortNameMatches]
  cases first : matchPart e true (List.range 8) name with
  | none => rfl
  | some rest =>
    have base := matchPart_length first
    rw [List.length_range] at base
    refine Bool.eq_false_iff.mpr fun matched => ?_
    have extension := matchPart_length (beq_iff_eq.mp matched)
    simp only [List.length_nil, List.length_cons] at extension
    split_ifs at extension
    · rw [List.length_tail] at extension
      omega
    · omega

/-- A text without a zero inside a component. -/
theorem componentEqAscii_ne_zero {ascii : Bytes} (same : componentEqAscii name ascii) {i : Nat}
    (inside : i < name.length) : ascii i ≠ 0 := by
  induction name generalizing ascii i with
  | nil => simp at inside
  | cons c name ih =>
    simp only [componentEqAscii, Bool.and_eq_true, bne_iff_ne, ne_eq] at same
    cases i with
    | zero => exact same.1.1
    | succ i => exact ih same.2 (Nat.lt_of_succ_lt_succ inside)

theorem lfnCopy_end {index : Nat} (ended : lfn 127 = 0) :
    lfnCopy e positions index lfn 127 = 0 := by
  induction positions generalizing index lfn with
  | nil => exact ended
  | cons pos positions ih =>
    rw [lfnCopy]
    split_ifs with full
    · exact ended
    · rw [update_of_ne (by omega)]
      exact ended
    · refine ih ?_
      rw [update_of_ne (by omega)]
      exact ended

/-- Nothing was found, and the long name that is carried on keeps its end. -/
def Scan.Carries : Scan → Prop
  | .found _ => False
  | .ended => True
  | .more later => later 127 = 0

theorem scanEntries_of_long (long : 127 < name.length) {sec : Bytes}
    {offsets : List Nat} {lfn : Bytes} (ended : lfn 127 = 0) :
    (scanEntries sec name offsets lfn).Carries := by
  induction offsets generalizing lfn with
  | nil => exact ended
  | cons off rest ih =>
    have unnamed : lfnMatches lfn name = false := by
      refine Bool.eq_false_iff.mpr fun matched => ?_
      rw [lfnMatches, Bool.and_eq_true] at matched
      exact componentEqAscii_ne_zero matched.2 long ended
    simp only [scanEntries, shortNameMatches_of_long (by omega : 12 < name.length),
      unnamed, Bool.or_self, Bool.false_eq_true, if_false]
    split_ifs
    · trivial
    · exact ih rfl
    · refine ih ?_
      rw [lfnCopyPart]
      split_ifs
      · exact ended
      · exact lfnCopy_end ended
    · exact ih rfl

theorem scanSectors_of_long (long : 127 < name.length) {sectors : List Nat} (ended : lfn 127 = 0) :
    (v.scanSectors disk name sectors lfn).Carries := by
  induction sectors generalizing lfn with
  | nil => exact ended
  | cons lba rest ih =>
    rw [scanSectors]
    cases v.read512 disk lba with
    | none => trivial
    | some sec =>
      have entries := @scanEntries_of_long name long sec entryOffsets lfn ended
      simp only
      cases scanned : scanEntries sec name entryOffsets lfn with
      | found e => rwa [scanned] at entries
      | ended => trivial
      | more later =>
        rw [scanned] at entries
        exact ih entries

/-- A search for such a name ends where the chain stops. -/
theorem stops_of_findInChain (long : 127 < name.length) {cluster : Nat} (ended : lfn 127 = 0)
    (done : (v.findInChain disk name fuel cluster lfn).isSome) :
    ∃ n, v.Stops disk ((v.nextCluster disk)^[n] cluster) := by
  induction fuel generalizing cluster lfn with
  | zero => simp [findInChain] at done
  | succ fuel ih =>
    rw [findInChain] at done
    split_ifs at done with data
    · have sectors := scanCluster_tells v disk name cluster lfn
      have carried : (v.scanCluster disk name cluster lfn).Carries := scanSectors_of_long long ended
      cases scanned : v.scanCluster disk name cluster lfn with
      | found e =>
        rw [scanned] at carried
        exact carried.elim
      | ended =>
        rw [scanned] at sectors
        obtain ⟨s, member, closes⟩ := sectors
        exact ⟨0, fun _ => ⟨s, List.mem_range.mp member, closes⟩⟩
      | more later =>
        rw [scanned] at carried done
        obtain ⟨n, stops⟩ := ih carried done
        exact ⟨n + 1, stops⟩
    · exact ⟨0, fun other => absurd other data⟩

theorem exists_iterate_le {α : Type*} {f : α → α} {start : α} {P : α → Prop} (others : Finset α)
    (without : ∀ x, ¬P x → x ∈ others) (comes : ∃ n, P (f^[n] start)) :
    ∃ n ≤ others.card, P (f^[n] start) := by
  classical
  refine ⟨Nat.find comes, ?_, Nat.find_spec comes⟩
  have earlier : ∀ i, i < Nat.find comes → ¬P (f^[i] start) :=
    fun i before => Nat.find_min comes before
  -- From an element that comes back, the property would be met one round earlier.
  have before : ∀ i j, i < j → j < Nat.find comes → f^[i] start ≠ f^[j] start := by
    intro i j less inside same
    refine earlier (Nat.find comes - j + i) (by omega) ?_
    rw [iterate_add_apply, same, ← iterate_add_apply, Nat.sub_add_cancel inside.le]
    exact Nat.find_spec comes
  have different : Set.InjOn (fun i => f^[i] start) (Finset.range (Nat.find comes)) := by
    intro i insideI j insideJ same
    simp only [Finset.coe_range, Set.mem_Iio] at insideI insideJ
    rcases Nat.lt_trichotomy i j with less | rfl | more
    · exact absurd same (before i j less insideJ)
    · rfl
    · exact absurd same.symm (before j i more insideI)
  have inside : ∀ i ∈ Finset.range (Nat.find comes), f^[i] start ∈ others :=
    fun i member => without _ (earlier i (Finset.mem_range.mp member))
  simpa using Finset.card_le_card_of_injOn _ inside different

theorem bounded_of_findInDir (accepted : Accepted v) (long : 127 < name.length)
    (done : (v.findInDir disk fuel directory.1 directory.2 name).isSome) :
    v.Bounded disk directory := by
  rw [findInDir] at done
  by_cases fixed : directory.1 ∧ v.fatType ≠ .fat32
  · exact .inl fixed
  · rw [if_neg fixed] at done
    obtain ⟨n, few, stops⟩ := exists_iterate_le (Finset.Ico 2 (v.clusterCount + 2))
      (fun cluster running => by
        simp only [Volume.Stops, Classical.not_imp] at running
        obtain ⟨low, high, -⟩ := (isDataCluster_iff accepted).mp running.1
        exact Finset.mem_Ico.mpr ⟨low, high⟩)
      (stops_of_findInChain long rfl done)
    rw [Nat.card_Ico, Nat.add_sub_cancel] at few
    exact .inr ⟨n, few, stops⟩

end Converse

section Ends

variable {disk : Disk} {lbaOffset : Nat} {v : Volume} {path : Name}

/-- Reading a cluster reads something or fails. -/
theorem readCluster_done {want cluster s done : Nat} {buffer : Bytes} (bounded : want < 2 ^ 32)
    (le : done ≤ want) :
    (v.readCluster disk want cluster s done buffer).1 = false →
      done ≤ (v.readCluster disk want cluster s done buffer).2.1 ∧
      (v.readCluster disk want cluster s done buffer).2.1 ≤ want ∧
      (s < v.secPerCluster → done < want →
        done < (v.readCluster disk want cluster s done buffer).2.1) := by
  fun_induction readCluster v disk want cluster s done buffer with
  | case1 => simp
  | case2 s done buffer inside lba sectors some data read ih =>
    have room : sectors * 512 ≤ want - done :=
      Nat.le_trans (Nat.mul_le_mul_right _ (Nat.min_le_left _ _)) (Nat.div_mul_le_self _ _)
    rw [word32_of_lt (by omega)] at ih ⊢
    intro ok
    have := ih (by omega) ok
    omega
  | case3 => simp
  | case4 s done buffer inside lba sectors none chunk data read ih =>
    have room : chunk ≤ want - done := Nat.min_le_left _ _
    have some : 0 < chunk := Nat.lt_min.2 ⟨by omega, by omega⟩
    rw [word32_of_lt (by omega)] at ih ⊢
    intro ok
    have := ih (by omega) ok
    omega
  | case5 => simp_all

/-- Reading a file ends. -/
theorem readChain_isSome (accepted : Accepted v) {want done : Nat} (bounded : want < 2 ^ 32)
    (le : done ≤ want) {fuel : Nat} (enough : want - done < fuel) (cluster : Nat) (buffer : Bytes) :
    (v.readChain disk want fuel cluster done buffer).isSome := by
  induction fuel generalizing cluster done buffer with
  | zero => omega
  | succ fuel ih =>
    rw [readChain]
    by_cases continues : done < want ∧ v.isDataCluster cluster
    · rw [if_pos continues]
      have progress := @readCluster_done disk v want cluster 0 done buffer bounded le
      rcases read : v.readCluster disk want cluster 0 done buffer with ⟨failed, reached, filled⟩
      rw [read] at progress
      cases failed with
      | true => rfl
      | false =>
        obtain ⟨_, below, more⟩ := progress rfl
        have later : done < reached := more accepted.secPerCluster_pos continues.1
        have fewer : want - reached < fuel := by omega
        exact ih below fewer _ _
    · rw [if_neg continues]
      rfl

/-- A name that no entry has. -/
def longName : Name := List.replicate 128 0x41

theorem bounded_of_lookupVolume (accepted : Accepted v) {directory : Directory} {fuel : Nat}
    (done : (v.lookupVolume disk fuel (some directory) longName).isSome) :
    v.Bounded disk directory := by
  have first : component longName = longName := by decide
  have text : longName.dropWhile isSeparator = longName := by decide
  have start : startOf (some directory) longName = directory := rfl
  rw [lookupVolume, text, if_neg (by decide), start, lookupFrom, first, dif_neg (by decide),
    if_neg (by decide)] at done
  have searched : (v.findInDir disk fuel directory.1 directory.2 longName).isSome := by
    cases found : v.findInDir disk fuel directory.1 directory.2 longName with
    | none => simp [found] at done
    | some result => rfl
  exact bounded_of_findInDir accepted (by simp [longName]) searched

/-- A lookup ends if the directories that it can come to are bounded. Lookups from everywhere of
every path end only then: a cycle of clusters without a mark of the end is followed for ever.
Reading a file always ends. -/
theorem lookup_ends_iff (accepted : volumeInit disk lbaOffset = some v) :
    (∀ base path,
      (∀ directory, Relation.ReflTransGen (v.Subdirectory disk) (startOf base path) directory →
        v.Bounded disk directory) →
      (v.lookupVolume disk (v.clusterCount + 1) base path).isSome) ∧
    (∀ directory, (∃ fuel, (v.lookupVolume disk fuel (some directory) longName).isSome) →
      v.Bounded disk directory) ∧
    ((∀ base path, ∃ fuel, (v.lookupVolume disk fuel base path).isSome) ↔ ∀ directory,
      v.Bounded disk directory) ∧
    ∀ e buffer, (v.readFileEntry disk (le32 e 28 + 1) e buffer).isSome := by
  have valid := volumeInit_accepted accepted
  have ends : ∀ base path,
      (∀ directory, Relation.ReflTransGen (v.Subdirectory disk) (startOf base path) directory →
        v.Bounded disk directory) →
      (v.lookupVolume disk (v.clusterCount + 1) base path).isSome := by
    intro base path bounded
    rw [lookupVolume]
    split_ifs
    · rfl
    · exact lookupFrom_isSome bounded
  have only : ∀ directory, (∃ fuel, (v.lookupVolume disk fuel (some directory) longName).isSome) →
      v.Bounded disk directory := fun directory ⟨_, done⟩ => bounded_of_lookupVolume valid done
  refine ⟨ends, only, ⟨fun all directory => only directory (all _ _), fun bounded base path => ?_⟩,
    fun e buffer => ?_⟩
  · exact ⟨_, ends base path fun directory _ => bounded directory⟩
  · rw [readFileEntry]
    split_ifs
    · rfl
    · exact readChain_isSome valid (le32_lt e 28) (Nat.zero_le _) (by omega) _ _

/-- A cluster that is its own successor and has only deleted entries: looking up a name there does
not end. -/
theorem lookup_never_ends :
    volumeInit (loopedDisk 4) 0 = some (loopedVolume 4) ∧
      ∀ fuel,
        (loopedVolume 4).lookupVolume (loopedDisk 4) fuel (some (false, 2)) [0x42] = none := by
  have scanned : (loopedVolume 4).scanCluster (loopedDisk 4) [0x42] 2 noLfn = .more noLfn := rfl
  have next : (loopedVolume 4).nextCluster (loopedDisk 4) 2 = 2 := by decide +kernel
  have loops : ∀ fuel, (loopedVolume 4).findInChain (loopedDisk 4) [0x42] fuel 2 noLfn = none := by
    intro fuel
    induction fuel with
    | zero => rfl
    | succ fuel ih =>
      rw [findInChain, if_pos (by decide), scanned]
      simpa only [next] using ih
  refine ⟨by decide +kernel, fun fuel => ?_⟩
  have first : component [0x42] = [0x42] := by decide
  have found : (loopedVolume 4).findInDir (loopedDisk 4) fuel false 2 [0x42] = none := by
    rw [findInDir, if_neg (by decide)]
    exact loops fuel
  have looked : (loopedVolume 4).lookupFrom (loopedDisk 4) fuel false 2 [0x42] = none := by
    rw [lookupFrom, first, dif_neg (by decide), if_neg (by decide), found]
  exact looked

/-- On that disk the root directory has no directories and every lookup there ends; in the directory
of the looped cluster the long name is looked for without end. -/
theorem lookup_ends_iff_looped :
    (∀ path, ((loopedVolume 4).lookupVolume (loopedDisk 4) 2 none path).isSome) ∧
    ¬∃ fuel,
      ((loopedVolume 4).lookupVolume (loopedDisk 4) fuel (some (false, 2)) longName).isSome := by
  have accepted : volumeInit (loopedDisk 4) 0 = some (loopedVolume 4) := by decide +kernel
  obtain ⟨ends, only, -, -⟩ := lookup_ends_iff accepted
  have deleted : ∀ lba, 2 ≤ lba → lba < 4 → (loopedVolume 4).read512 (loopedDisk 4) lba = some
      fun _ => 0xe5 := by
    intro lba low high
    obtain rfl | rfl : lba = 2 ∨ lba = 3 := by omega
    · rfl
    · rfl
  refine ⟨fun path => ends none path fun directory reached => ?_, fun done => ?_⟩
  · -- The root directory has no entries in use, so that no other directory is reached.
    have start : startOf none path = (true, 0) := ite_self _
    rw [start] at reached
    have fixed : (loopedVolume 4).fixedRoot (true, 0) := ⟨rfl, by decide⟩
    rcases reached.cases_head with rfl |
      ⟨below, ⟨lba, sec, off, occupied, read, -, e, ⟨-, used, -⟩, -⟩, -⟩
    · exact .inl fixed
    · rcases occupied with ⟨-, low, high⟩ | ⟨other, -⟩
      · rw [deleted lba low (Nat.lt_succ_of_lt high)] at read
        cases read
        exact absurd rfl used
      · exact absurd fixed other
  · obtain ⟨root, -⟩ | ⟨n, -, stops⟩ := only (false, 2) done
    · cases root
    · have next : (loopedVolume 4).nextCluster (loopedDisk 4) 2 = 2 := by decide +kernel
      have same : (loopedVolume 4).chain (loopedDisk 4) (false, 2) n = 2 := iterate_fixed next n
      rw [same] at stops
      obtain ⟨s, inside, closes⟩ := stops (by decide)
      obtain rfl : s = 0 := Nat.lt_one_iff.mp inside
      obtain ⟨off, -, mark⟩ := closes _ (deleted 3 (by decide) (by decide))
      exact absurd mark (by decide)

end Ends

end Ia64.Efi.Fat
