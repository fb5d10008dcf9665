import SantOS.Ata.Driver
import SantOS.Fat12.Listing

namespace SantOS.Fat32
open ByteMemory Ata Fat12

structure BootSector where
  bytesPerSector : UInt16
  sectorsPerCluster : UInt8
  reservedSectors : UInt16
  numFats : UInt8
  sectorsPerFat32 : UInt32
  rootCluster : UInt32
  fsType : List UInt8

def bootSectorOf (buffer : Memory) : BootSector where
  bytesPerSector := UInt16.ofNat (load buffer 11 2)
  sectorsPerCluster := buffer 13
  reservedSectors := UInt16.ofNat (load buffer 14 2)
  numFats := buffer 16
  sectorsPerFat32 := UInt32.ofNat (load buffer 36 4)
  rootCluster := UInt32.ofNat (load buffer 44 4)
  fsType := (List.range 8).map (fun k => buffer (82+k))

structure Volume where
  bootSector : BootSector
  fatStartSector : UInt32
  dataStartSector : UInt32
  rootCluster : UInt32

structure File where
  name : Memory
  size : UInt32
  firstCluster : UInt32
  isDirectory : UInt8

def Volume.mount (b : BootSector) : Volume where
  bootSector := b
  fatStartSector := b.reservedSectors.toUInt32
  dataStartSector := b.reservedSectors.toUInt32 + b.numFats.toUInt32*b.sectorsPerFat32
  rootCluster := b.rootCluster

-- Up to width characters, before NUL and, for the name field, before a dot. The letters are
-- taken as they are.
def takeField (dotted : Bool) : List UInt8 → Nat → List UInt8 × List UInt8
  | [],_ => ([],[])
  | c::rest,0 => ([],c::rest)
  | c::rest,width+1 =>
    if c = 0 ∨ (dotted = true ∧ c = 0x2E) then ([],c::rest)
    else (c::(takeField dotted rest width).1,(takeField dotted rest width).2)

def name83 (filename : List UInt8) : List UInt8 :=
  padded (takeField true filename 8).1 8 ++
    match (takeField true filename 8).2 with
    | 0x2E::rest => padded (takeField false rest 3).1 3
    | _ => padded [] 3

def firstCluster (m : Memory) (a : Nat) : UInt32 :=
  UInt32.ofNat (load m (a+20) 2) <<< 16 ||| UInt32.ofNat (load m (a+26) 2)

def handle (m : Memory) (a : Nat) (name : Memory) : File where
  name := formatFilename m a name
  size := UInt32.ofNat (fileSize m a)
  firstCluster := firstCluster m a
  isDirectory := if attributes m a &&& 0x10 ≠ 0 then 1 else 0

def listProbe (m : Memory) (a : Nat) : Probe :=
  if m a = 0 then .stop
  else if m a = 0xE5 then .skip
  else if attributes m a &&& 0x08 ≠ 0 ∨ attributes m a = 0x0F then .skip else .hit

def inChain (cluster : UInt32) : Bool := 2 ≤ cluster ∧ cluster < 0x0FFFFFF8

section
-- stack is what the local buffers hold before they are read into.
variable (ports : Ports σ) (stack : Memory)

-- On an error the statics that are set stay set.
def fat32Init (v : Volume) (s : σ) : Int × Volume × σ :=
  match ports.ataReadSectors 0 1 stack s with
  | (r,buffer,s) =>
    if r ≠ 0 then (-1,v,s)
    else
      let b := bootSectorOf buffer
      if b.fsType.take 3 ≠ [0x46,0x41,0x54] then (-1,{v with bootSector := b},s)
      else (0,.mount b,s)

def searchSectors (probe : Memory → Nat → Probe) (sector : UInt32) : Nat → σ → Search × σ
  | 0,s => (.further,s)
  | left+1,s =>
    match ports.ataReadSectors sector 1 stack s with
    | (r,buffer,s) =>
      if r ≠ 0 then (.ended,s)
      else match scanSector probe buffer 0 16 with
        | (.hit,idx) => (.found idx buffer,s)
        | (.stop,_) => (.ended,s)
        | (.skip,_) => searchSectors probe (sector+1) left s

def printSectors (probe : Memory → Nat → Probe) (sector : UInt32) : Nat → σ → Option Int × List Line × σ
  | 0,s => (none,[],s)
  | left+1,s =>
    match ports.ataReadSectors sector 1 stack s with
    | (r,buffer,s) =>
      if r ≠ 0 then (some (-1),[],s)
      else match listSector probe buffer 0 16 with
        | (lines,true) => (some 0,lines,s)
        | (lines,false) =>
          match printSectors probe (sector+1) left s with
          | (result,rest,s) => (result,lines ++ rest,s)

variable (v : Volume)

def getFatEntry (cluster : UInt32) (s : σ) : UInt32 × σ :=
  let fatOffset := cluster*4
  match ports.ataReadSectors (v.fatStartSector + fatOffset/512) 1 stack s with
  | (r,buffer,s) =>
    if r ≠ 0 then (0x0FFFFFFF,s)
    else (UInt32.ofNat (load buffer (fatOffset % 512).toNat 4) &&& 0x0FFFFFFF,s)

def Volume.clusterSector (cluster : UInt32) : UInt32 :=
  v.dataStartSector + (cluster - 2)*v.bootSector.sectorsPerCluster.toUInt32

def searchChain (name : List UInt8) (cluster : UInt32) (s : σ) : Nat → Option (Search × σ)
  | 0 => none
  | fuel+1 =>
    if inChain cluster then
      match searchSectors ports stack (editProbe name) (v.clusterSector cluster) v.bootSector.sectorsPerCluster.toNat s with
      | (.further,s) =>
        match getFatEntry ports stack v cluster s with
        | (cluster,s) => searchChain name cluster s fuel
      | (result,s) => some (result,s)
    else some (.ended,s)

-- The loop over the chain has no bound of its own; out of fuel there is no result.
def fat32Open (filename : List UInt8) (file : File) (s : σ) (fuel : Nat) : Option (Int × File × σ) :=
  match searchChain ports stack v (name83 filename) v.rootCluster s fuel with
  | none => none
  | some (.found idx buffer,s) => some (0,handle buffer (idx*32) file.name,s)
  | some (_,s) => some (-1,file,s)

def listChain (cluster : UInt32) (printed : List Line) (s : σ) : Nat → Option (Int × List Line × σ)
  | 0 => none
  | fuel+1 =>
    if inChain cluster then
      match printSectors ports stack listProbe (v.clusterSector cluster) v.bootSector.sectorsPerCluster.toNat s with
      | (some r,lines,s) => some (r,printed ++ lines,s)
      | (none,lines,s) =>
        match getFatEntry ports stack v cluster s with
        | (cluster,s) => listChain cluster (printed ++ lines) s fuel
    else some (0,printed,s)

def fat32ListRoot (s : σ) (fuel : Nat) : Option (Int × List Line × σ) :=
  listChain ports stack v v.rootCluster (listingHeader "Root directory:") s fuel

def readCluster (size : Nat) (sector : UInt32) (buffer : Memory) (bytesRead : Nat) : Nat → σ → Int × Memory × Nat × σ
  | 0,s => (0,buffer,bytesRead,s)
  | left+1,s =>
    if bytesRead < size then
      match ports.ataReadSectors sector 1 stack s with
      | (r,sectorBuffer,s) =>
        if r ≠ 0 then (-1,buffer,bytesRead,s)
        else
          let toCopy := if size - bytesRead > 512 then 512 else size - bytesRead
          readCluster size (sector+1) (blit buffer bytesRead toCopy sectorBuffer) (bytesRead + toCopy) left s
    else (0,buffer,bytesRead,s)

def readChain (size : Nat) (cluster : UInt32) (buffer : Memory) (bytesRead : Nat) (s : σ) : Nat → Option (Int × Memory × σ)
  | 0 => none
  | fuel+1 =>
    if bytesRead < size ∧ inChain cluster then
      match readCluster ports stack size (v.clusterSector cluster) buffer bytesRead v.bootSector.sectorsPerCluster.toNat s with
      | (r,buffer,bytesRead,s) =>
        if r ≠ 0 then some (-1,buffer,s)
        else
          match getFatEntry ports stack v cluster s with
          | (cluster,s) => readChain size cluster buffer bytesRead s fuel
    else some (intOf bytesRead,buffer,s)

def fat32Read (file : File) (buffer : Memory) (size : UInt32) (s : σ) (fuel : Nat) : Option (Int × Memory × σ) :=
  let size := if size > file.size then file.size else size
  readChain ports stack v size.toNat file.firstCluster buffer 0 s fuel

end

end SantOS.Fat32
