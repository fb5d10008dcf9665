import SantOS.Fat12.Agreement
import SantOS.Fat12.Listing
import SantOS.Fat12.Mounting

namespace SantOS.Fat12
open ByteMemory

-- Byte i is in uint8_t fat_buffer[512 * 9] and in the sectors_per_fat sectors of the FAT.
def InTable (v : Mount) (i : Nat) : Prop := i < 512*9 ∧ i < v.bootSector.sectorsPerFat*512

instance : Decidable (InTable v i) := inferInstanceAs (Decidable (_ ∧ _))

-- The driver with a check before each use of fat_buffer and before each root directory
-- sector; none when a check fails. The two bytes of an entry are fat_offset and the next.
def getChecked (v : Mount) (m : Memory) (cluster : Nat) : Option Nat :=
  if InTable v (cluster + cluster/2 + 1) then some (getFatEntry m cluster) else none

def setChecked (v : Mount) (m : Memory) (cluster value : Nat) : Option Memory :=
  if InTable v (cluster + cluster/2 + 1) then some (setFatEntry m cluster value) else none

def findFreeFromChecked (v : Mount) (m : Memory) (cluster : Nat) : Nat → Option Nat
  | 0 => some 0
  | left+1 => do
    let entry ← getChecked v m cluster
    if entry = 0 then some cluster else findFreeFromChecked v m (cluster+1) left

def findFreeChecked (v : Mount) (m : Memory) : Option Nat := findFreeFromChecked v m 2 (0xFF0 - 2)

def writeFatFromChecked (s : Driver) (i : Nat) : Nat → Option (Int × Driver)
  | 0 => some (0,s)
  | left+1 =>
    if InTable s.toMount (i*512 + 511) then
      match fdcWriteSectors s (s.fatStartSector + i) 1 s.fatBuffer (i*512) with
      | (r,s) => if r ≠ 0 then some (-1,s) else writeFatFromChecked s (i+1) left
    else none

def writeFatChecked (s : Driver) : Option (Int × Driver) := writeFatFromChecked s 0 s.bootSector.sectorsPerFat

def readFatChecked (s : Driver) : Option (Int × Driver) :=
  if ∀ i < s.bootSector.sectorsPerFat % 2^8, InTable s.toMount (i*512 + 511) then some (readFatTable s) else none

def scanRootChecked (probe : Memory → Nat → Probe) (s : Driver) (sector : Nat) : Nat → Option (Scan × Driver)
  | 0 => some (.missing,s)
  | left+1 =>
    if s.rootDirStartSector + sector < s.dataStartSector then
      match fdcReadSectors s (s.rootDirStartSector + sector) 1 (fun _ => 0) 0 with
      | (r,buffer,s) =>
        if r ≠ 0 then some (.error,s)
        else match scanSector probe buffer 0 16 with
          | (.hit,idx) => some (.found sector idx buffer,s)
          | (.stop,_) => some (.missing,s)
          | (.skip,_) => scanRootChecked probe s (sector+1) left
    else none

def fat12InitChecked (s : Driver) : Option (Int × Driver) :=
  match fdcReadSectors s 0 1 (fun _ => 0) 0 with
  | (r,buffer,s) =>
    if r ≠ 0 then some (-1,s)
    else
      let s := {s with bootSector := bootSectorOf buffer}
      if s.bootSector.bytesPerSector = 0 ∨ s.bootSector.sectorsPerCluster = 0 then some (-1,s)
      else readFatChecked {s with toMount := mounted s.bootSector}

def fat12OpenChecked (s : Driver) (filename : List UInt8) (file : File) : Option (Int × File × Driver) := do
  match ← scanRootChecked (openProbe (name83 filename)) s 0 s.rootSectors with
  | (.found _ idx buffer,s) =>
    some (0,⟨formatFilename buffer (idx*32) file.name,fileSize buffer (idx*32),firstClusterLow buffer (idx*32),
      if attributes buffer (idx*32) &&& 0x10 ≠ 0 then 1 else 0⟩,s)
  | (_,s) => some (-1,file,s)

def fat12UpdateSizeChecked (s : Driver) (filename : List UInt8) (newSize : Nat) : Option (Int × Driver) := do
  match ← scanRootChecked (editProbe (name83 filename)) s 0 s.rootSectors with
  | (.found sector idx buffer,s) =>
    match fdcWriteSectors s (s.rootDirStartSector + sector) 1 (store buffer (idx*32+28) 4 newSize) 0 with
    | (r,s) => some (if r ≠ 0 then (-1,s) else (0,s))
  | (_,s) => some (-1,s)

def fat12CreateChecked (s : Driver) (filename : List UInt8) (file : File) : Option (Int × File × Driver) := do
  match ← scanRootChecked createProbe s 0 s.rootSectors with
  | (.found sector idx buffer,s) =>
    let firstCluster ← findFreeChecked s.toMount s.fatBuffer
    if firstCluster = 0 then some (-1,file,s)
    else
      let fatBuffer ← setChecked s.toMount s.fatBuffer firstCluster 0xFFF
      match ← writeFatChecked {s with fatBuffer := fatBuffer} with
      | (r,s) =>
        if r ≠ 0 then some (-1,file,s)
        else
          match fdcWriteSectors s (s.rootDirStartSector + sector) 1
            (newEntry buffer (idx*32) (name83 filename) firstCluster) 0 with
          | (r,s) =>
            some (if r ≠ 0 then (-1,file,s)
              else (0,⟨blit file.name 0 8 (fun k => (name83 filename).getD k 0),0,firstCluster,0⟩,s))
  | (_,s) => some (-1,file,s)

-- A walk without a result within its rounds is some none.
def freeChainChecked (v : Mount) (m : Memory) (cluster : Nat) : Nat → Option (Option Memory)
  | 0 => some none
  | fuel+1 =>
    if 2 ≤ cluster ∧ cluster < 0xFF8 then do
      let next ← getChecked v m cluster
      let m ← setChecked v m cluster 0
      freeChainChecked v m next fuel
    else some (some m)

def fat12DeleteChecked (s : Driver) (filename : List UInt8) : Option (Option (Int × Driver)) := do
  match ← scanRootChecked (editProbe (name83 filename)) s 0 s.rootSectors with
  | (.found sector idx buffer,s) =>
    match ← freeChainChecked s.toMount s.fatBuffer (firstClusterLow buffer (idx*32)) 0x1000 with
    | none => some none
    | some fatBuffer =>
      match ← writeFatChecked {s with fatBuffer := fatBuffer} with
      | (r,s) =>
        if r ≠ 0 then some (some (-1,s))
        else
          match fdcWriteSectors s (s.rootDirStartSector + sector) 1
            (Function.update buffer (idx*32) 0xE5) 0 with
          | (r,s) => some (if r ≠ 0 then some (-1,s) else some (0,s))
  | (_,s) => some (some (-1,s))

def writeFromChecked (s : Driver) (buffer : Memory) (size bytesWritten cluster : Nat) : Nat → Option (Option (Int × Driver))
  | 0 => some none
  | fuel+1 =>
    if bytesWritten < size ∧ 2 ≤ cluster ∧ cluster < 0xFF8 then
      match writeCluster s buffer size (s.clusterSector cluster) 0 bytesWritten s.bootSector.sectorsPerCluster with
      | (r,bytesWritten,s) =>
        if r ≠ 0 then some (some (-1,s))
        else do
          let nextCluster ← getChecked s.toMount s.fatBuffer cluster
          if bytesWritten < size ∧ (nextCluster ≥ 0xFF8 ∨ nextCluster = 0) then
            let nextCluster ← findFreeChecked s.toMount s.fatBuffer
            if nextCluster = 0 then some (some (-1,s))
            else
              let linked ← setChecked s.toMount s.fatBuffer cluster nextCluster
              let linked ← setChecked s.toMount linked nextCluster 0xFFF
              match ← writeFatChecked {s with fatBuffer := linked} with
              | (r,s) => if r ≠ 0 then some (some (-1,s)) else writeFromChecked s buffer size bytesWritten nextCluster fuel
          else writeFromChecked s buffer size bytesWritten nextCluster fuel
    else some (some (intOf bytesWritten,s))

def fat12WriteChecked (s : Driver) (file : File) (buffer : Memory) (size : Nat) : Option (Option (Int × Driver)) :=
  writeFromChecked s buffer size 0 (file.firstCluster % 2^16) (size+1)

def runFromChecked (v : Mount) (m : Memory) (current next runLen : Nat) : Nat → Option (Nat × Nat)
  | 0 => some (runLen,next)
  | left+1 =>
    if next = current + 1 ∧ next ≥ 2 ∧ next < 0xFF8 ∧ runLen < 250 then do
      let after ← getChecked v m next
      runFromChecked v m next after (runLen+1) left
    else some (runLen,next)

def readFromChecked (s : Driver) (buffer : Memory) (size bytesRead cluster : Nat) :
    Nat → Option (Option (Int × Memory × Driver))
  | 0 => some none
  | fuel+1 =>
    if bytesRead < size ∧ 2 ≤ cluster ∧ cluster < 0xFF8 then do
      let first ← getChecked s.toMount s.fatBuffer cluster
      let (runLen,next) ← runFromChecked s.toMount s.fatBuffer cluster first 1 250
      let bytesRemaining := size - bytesRead
      let neededSectors := (bytesRemaining + 511) % 2^32 / 512
      let runSectors := runLen*s.bootSector.sectorsPerCluster
      let totalSectors := if runSectors > neededSectors then neededSectors else runSectors
      match fdcReadSectors s (s.clusterSector cluster) (totalSectors % 2^8) buffer bytesRead with
      | (r,buffer,s) =>
        if r ≠ 0 then some (some (-1,buffer,s))
        else
          let readAmount := if totalSectors*512 > bytesRemaining then bytesRemaining else totalSectors*512
          readFromChecked s buffer size (bytesRead + readAmount) next fuel
    else some (some (intOf bytesRead,buffer,s))

def fat12ReadChecked (s : Driver) (file : File) (buffer : Memory) (size : Nat) : Option (Option (Int × Memory × Driver)) :=
  let size := if size > file.size then file.size else size
  readFromChecked s buffer size 0 (file.firstCluster % 2^16) (size+1)

def searchChainChecked (probe : Memory → Nat → Probe) (s : Driver) (dirCluster : Nat) :
    Nat → Option (Option (Search × Driver))
  | 0 => some none
  | fuel+1 =>
    if 2 ≤ dirCluster ∧ dirCluster < 0xFF8 then
      match searchCluster probe s (s.clusterSector dirCluster) s.bootSector.sectorsPerCluster with
      | (.further,s) => do
        let next ← getChecked s.toMount s.fatBuffer dirCluster
        searchChainChecked probe s next fuel
      | (result,s) => some (some (result,s))
    else some (some (.ended,s))

def listChainChecked (s : Driver) (cluster : Nat) (printed : List Line) : Nat → Option (Option (Int × List Line × Driver))
  | 0 => some none
  | fuel+1 =>
    if 2 ≤ cluster ∧ cluster < 0xFF8 then
      match listSectors dirListProbe s (s.clusterSector cluster) s.bootSector.sectorsPerCluster with
      | (some r,lines,s) => some (some (r,printed ++ lines,s))
      | (none,lines,s) => do
        let next ← getChecked s.toMount s.fatBuffer cluster
        listChainChecked s next (printed ++ lines) fuel
    else some (some (0,printed,s))

end SantOS.Fat12
