import SantOS.Fat32.Driver

namespace SantOS.Fat16
open ByteMemory Ata
open Fat12 hiding File name83
open Fat32

structure BootSector where
  bytesPerSector : UInt16
  sectorsPerCluster : UInt8
  reservedSectors : UInt16
  numFats : UInt8
  rootEntries : UInt16
  sectorsPerFat : UInt16
  fsType : List UInt8

def bootSectorOf (buffer : Memory) : BootSector where
  bytesPerSector := UInt16.ofNat (load buffer 11 2)
  sectorsPerCluster := buffer 13
  reservedSectors := UInt16.ofNat (load buffer 14 2)
  numFats := buffer 16
  rootEntries := UInt16.ofNat (load buffer 17 2)
  sectorsPerFat := UInt16.ofNat (load buffer 22 2)
  fsType := (List.range 8).map (fun k => buffer (54+k))

-- The static variables of fat16.c; fat_table is never set.
structure Volume where
  bootSector : BootSector
  fatStartSector : UInt32
  rootDirStartSector : UInt32
  dataStartSector : UInt32

def Volume.mount (b : BootSector) : Volume :=
  let root := b.reservedSectors.toUInt32 + b.numFats.toUInt32*b.sectorsPerFat.toUInt32
  let rootDirSectors := (b.rootEntries.toNat*32 + (b.bytesPerSector.toNat - 1))/b.bytesPerSector.toNat
  ⟨b,b.reservedSectors.toUInt32,root,root + UInt32.ofNat rootDirSectors⟩

-- The 16 bits of the first cluster; the high half of the entry is not read.
def handle (m : Memory) (a : Nat) (name : Memory) : File where
  name := formatFilename m a name
  size := UInt32.ofNat (fileSize m a)
  firstCluster := UInt32.ofNat (firstClusterLow m a)
  isDirectory := if attributes m a &&& 0x10 ≠ 0 then 1 else 0

-- The plain char is compared with 0xE5, and any of the four low flags hides an entry.
def listProbe (m : Memory) (a : Nat) : Probe :=
  if m a = 0 then .stop
  else if signed (m a) = 0xE5 then .skip
  else if attributes m a &&& 0x08 ≠ 0 ∨ attributes m a &&& 0x0F ≠ 0 then .skip else .hit

section
variable (ports : Ports σ) (stack : Memory)

-- A boot sector with 0 bytes per sector is divided by: no result.
def fat16Init (v : Volume) (s : σ) : Option (Int × Volume × σ) :=
  match ports.ataReadSectors 0 1 stack s with
  | (r,buffer,s) =>
    if r ≠ 0 then some (-1,v,s)
    else
      let b := bootSectorOf buffer
      if b.fsType.take 3 ≠ [0x46,0x41,0x54] then some (-1,{v with bootSector := b},s)
      else if b.bytesPerSector = 0 then none
      else some (0,.mount b,s)

variable (v : Volume)

def Volume.totalSectors : Nat := (v.bootSector.rootEntries.toNat*32 + 511)/512

def fat16ListRoot (s : σ) : Int × List Line × σ :=
  match printSectors ports stack listProbe v.rootDirStartSector v.totalSectors s with
  | (result,lines,s) => (result.getD 0,listingHeader "Root directory:" ++ lines,s)

def fat16Open (filename : List UInt8) (file : File) (s : σ) : Int × File × σ :=
  match searchSectors ports stack (openProbe (name83 filename)) v.rootDirStartSector v.totalSectors s with
  | (.found idx buffer,s) => (0,handle buffer (idx*32) file.name,s)
  | (_,s) => (-1,file,s)

def Volume.clusterSector (cluster : UInt16) : UInt32 :=
  v.dataStartSector + (cluster.toUInt32 - 2)*v.bootSector.sectorsPerCluster.toUInt32

-- `cluster = 0xFFFF; // End of chain for now` ends the loop behind the first cluster.
def fat16Read (file : File) (buffer : Memory) (size : UInt32) (s : σ) : Int × Memory × σ :=
  let size := if size > file.size then file.size else size
  let cluster := file.firstCluster.toUInt16
  if 0 < size ∧ cluster < 0xFFF8 then
    match readCluster ports stack size.toNat (v.clusterSector cluster) buffer 0 v.bootSector.sectorsPerCluster.toNat s with
    | (r,buffer,bytesRead,s) => if r ≠ 0 then (-1,buffer,s) else (intOf bytesRead,buffer,s)
  else (0,buffer,s)

end

end SantOS.Fat16
