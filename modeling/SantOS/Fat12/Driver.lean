import SantOS.Library.ByteMemory

namespace SantOS.Fat12
open ByteMemory

structure BootSector where
  bytesPerSector : Nat
  sectorsPerCluster : Nat
  reservedSectors : Nat
  numFats : Nat
  rootEntries : Nat
  totalSectors16 : Nat
  sectorsPerFat : Nat
  totalSectors32 : Nat

structure Mount where
  bootSector : BootSector
  fatStartSector : Nat
  rootDirStartSector : Nat
  dataStartSector : Nat

-- The static variables of fat12.c over the floppy: byte o of sector lba is disk byte
-- lba*512+o. What lies behind the 4608 bytes of fat_buffer is part of the same memory.
-- faults n says whether the n-th disk command from now fails.
structure Driver extends Mount where
  fatBuffer : Memory
  disk : Memory
  faults : Nat → Bool

def Driver.called (s : Driver) : Driver := {s with faults := fun n => s.faults (n+1)}

abbrev sectorsPerTrack : Nat := 18

-- One command reads up to the end of a track, at least one sector. A failing command
-- copies nothing; what the commands before it copied stays.
def fdcReadFrom (s : Driver) (lba count done : Nat) (buffer : Memory) (offset : Nat) : Nat → Int × Memory × Driver
  | 0 => (0,buffer,s)
  | fuel+1 =>
    if done < count then
      let sector := (lba + done) % sectorsPerTrack + 1
      let n := if sectorsPerTrack - sector + 1 > count - done then count - done else sectorsPerTrack - sector + 1
      if s.faults 0 then (-1,buffer,s.called)
      else
        fdcReadFrom s.called lba count (done + n)
          (blit buffer (offset + done*512) (n*512) (fun i => s.disk ((lba + done)*512 + i))) offset fuel
    else (0,buffer,s)

def fdcReadSectors (s : Driver) (lba count : Nat) (buffer : Memory) (offset : Nat) : Int × Memory × Driver :=
  fdcReadFrom s lba count 0 buffer offset count

-- A failing command changes no sector.
def fdcWriteSectors (s : Driver) (lba count : Nat) (buffer : Memory) (offset : Nat) : Int × Driver :=
  if s.faults 0 then (-1,s.called)
  else (0,{s.called with disk := blit s.disk (lba*512) (count*512) (fun i => buffer (offset+i))})

def getFatEntry (fatBuffer : Memory) (cluster : Nat) : Nat :=
  let fatOffset := cluster + cluster/2
  let entry := load fatBuffer fatOffset 2
  if cluster &&& 1 ≠ 0 then entry >>> 4 else entry &&& 0x0FFF

def setFatEntry (fatBuffer : Memory) (cluster value : Nat) : Memory :=
  let fatOffset := cluster + cluster/2
  let entry := load fatBuffer fatOffset 2
  if cluster &&& 1 ≠ 0 then store fatBuffer fatOffset 2 (entry &&& 0x000F ||| value <<< 4)
  else store fatBuffer fatOffset 2 (entry &&& 0xF000 ||| value &&& 0x0FFF)

def findFreeFrom (fatBuffer : Memory) (cluster : Nat) : Nat → Nat
  | 0 => 0
  | left+1 => if getFatEntry fatBuffer cluster = 0 then cluster else findFreeFrom fatBuffer (cluster+1) left

def findFreeCluster (fatBuffer : Memory) : Nat := findFreeFrom fatBuffer 2 (0xFF0 - 2)

def writeFatFrom (s : Driver) (i : Nat) : Nat → Int × Driver
  | 0 => (0,s)
  | left+1 =>
    match fdcWriteSectors s (s.fatStartSector + i) 1 s.fatBuffer (i*512) with
    | (r,s) => if r ≠ 0 then (-1,s) else writeFatFrom s (i+1) left

def writeFatTable (s : Driver) : Int × Driver := writeFatFrom s 0 s.bootSector.sectorsPerFat

def upper (c : UInt8) : UInt8 := if 0x61 ≤ c ∧ c ≤ 0x7A then c - 32 else c

-- Up to width characters, before NUL and, for the name field, before a dot. A filename
-- is the list of its characters; its end reads as NUL.
def takeField (dotted : Bool) : List UInt8 → Nat → List UInt8 × List UInt8
  | [],_ => ([],[])
  | c::rest,0 => ([],c::rest)
  | c::rest,width+1 =>
    if c = 0 ∨ (dotted = true ∧ c = 0x2E) then ([],c::rest)
    else (upper c::(takeField dotted rest width).1,(takeField dotted rest width).2)

def padded (field : List UInt8) (width : Nat) : List UInt8 := field ++ List.replicate (width - field.length) 0x20

-- The 8.3 conversion that open, create, delete, updateSize and find_entry each repeat:
-- char name[8] and ext[3], one behind the other.
def name83 (filename : List UInt8) : List UInt8 :=
  padded (takeField true filename 8).1 8 ++
    match (takeField true filename 8).2 with
    | 0x2E::rest => padded (takeField false rest 3).1 3
    | _ => padded [] 3

def entryName (m : Memory) (a : Nat) : List UInt8 := (List.range 11).map (fun k => m (a+k))
def attributes (m : Memory) (a : Nat) : UInt8 := m (a+11)
def firstClusterLow (m : Memory) (a : Nat) : Nat := load m (a+26) 2
def fileSize (m : Memory) (a : Nat) : Nat := load m (a+28) 4

-- A plain char is signed.
def signed (b : UInt8) : Int := if b.toNat < 128 then b.toNat else b.toNat - 256

inductive Probe where
  | stop
  | skip
  | hit
deriving DecidableEq

-- fat12_open and fat12_find_entry compare the plain char with 0xE5.
def openProbe (name : List UInt8) (m : Memory) (a : Nat) : Probe :=
  if m a = 0 then .stop
  else if signed (m a) = 0xE5 then .skip
  else if entryName m a = name then .hit else .skip

-- fat12_update_size and fat12_delete compare it as uint8_t.
def editProbe (name : List UInt8) (m : Memory) (a : Nat) : Probe :=
  if m a = 0 then .stop
  else if m a = 0xE5 then .skip
  else if entryName m a = name then .hit else .skip

def createProbe (m : Memory) (a : Nat) : Probe := if m a = 0 ∨ m a = 0xE5 then .hit else .skip

def scanSector (probe : Memory → Nat → Probe) (buffer : Memory) (idx : Nat) : Nat → Probe × Nat
  | 0 => (.skip,idx)
  | left+1 =>
    match probe buffer (idx*32) with
    | .skip => scanSector probe buffer (idx+1) left
    | found => (found,idx)

inductive Scan where
  | error
  | missing
  | found (sector idx : Nat) (buffer : Memory)

def scanRoot (probe : Memory → Nat → Probe) (s : Driver) (sector : Nat) : Nat → Scan × Driver
  | 0 => (.missing,s)
  | left+1 =>
    match fdcReadSectors s (s.rootDirStartSector + sector) 1 (fun _ => 0) 0 with
    | (r,buffer,s) =>
      if r ≠ 0 then (.error,s)
      else match scanSector probe buffer 0 16 with
        | (.hit,idx) => (.found sector idx buffer,s)
        | (.stop,_) => (.missing,s)
        | (.skip,_) => scanRoot probe s (sector+1) left

def Mount.rootSectors (v : Mount) : Nat := (v.bootSector.rootEntries*32 + 511)/512

structure File where
  name : Memory
  size : Nat
  firstCluster : Nat
  isDirectory : Nat

-- A local handle before open or create fills it; its contents are not read.
def File.fresh : File := ⟨fun _ => 0,0,0,0⟩

def formatField (m : Memory) (a : Nat) (output : Memory) (j : Nat) : Nat → Memory × Nat
  | 0 => (output,j)
  | left+1 =>
    if m a = 0x20 then (output,j)
    else formatField m (a+1) (Function.update output j (m a)) (j+1) left

def formatFilename (m : Memory) (a : Nat) (output : Memory) : Memory :=
  let (output,j) := formatField m a output 0 8
  if m (a+8) ≠ 0x20 then
    let (output,j) := formatField m (a+8) (Function.update output j 0x2E) (j+1) 3
    Function.update output j 0
  else Function.update output j 0

def fat12Open (s : Driver) (filename : List UInt8) (file : File) : Int × File × Driver :=
  match scanRoot (openProbe (name83 filename)) s 0 s.rootSectors with
  | (.found _ idx buffer,s) =>
    (0,⟨formatFilename buffer (idx*32) file.name,fileSize buffer (idx*32),firstClusterLow buffer (idx*32),
      if attributes buffer (idx*32) &&& 0x10 ≠ 0 then 1 else 0⟩,s)
  | (_,s) => (-1,file,s)

def fat12UpdateSize (s : Driver) (filename : List UInt8) (newSize : Nat) : Int × Driver :=
  match scanRoot (editProbe (name83 filename)) s 0 s.rootSectors with
  | (.found sector idx buffer,s) =>
    match fdcWriteSectors s (s.rootDirStartSector + sector) 1 (store buffer (idx*32+28) 4 newSize) 0 with
    | (r,s) => if r ≠ 0 then (-1,s) else (0,s)
  | (_,s) => (-1,s)

-- The fields fat12_create sets; the time stamps of the old slot stay.
def newEntry (m : Memory) (a : Nat) (name : List UInt8) (firstCluster : Nat) : Memory :=
  let m := blit m a 11 (fun k => name.getD k 0)
  let m := Function.update m (a+11) 0x20
  let m := Function.update m (a+12) 0
  let m := store m (a+20) 2 0
  let m := store m (a+26) 2 firstCluster
  store m (a+28) 4 0

def fat12Create (s : Driver) (filename : List UInt8) (file : File) : Int × File × Driver :=
  match scanRoot createProbe s 0 s.rootSectors with
  | (.found sector idx buffer,s) =>
    let firstCluster := findFreeCluster s.fatBuffer
    if firstCluster = 0 then (-1,file,s)
    else
      match writeFatTable {s with fatBuffer := setFatEntry s.fatBuffer firstCluster 0xFFF} with
      | (r,s) =>
        if r ≠ 0 then (-1,file,s)
        else
          match fdcWriteSectors s (s.rootDirStartSector + sector) 1
            (newEntry buffer (idx*32) (name83 filename) firstCluster) 0 with
          | (r,s) =>
            if r ≠ 0 then (-1,file,s)
            else (0,⟨blit file.name 0 8 (fun k => (name83 filename).getD k 0),0,firstCluster,0⟩,s)
  | (_,s) => (-1,file,s)

-- The chain walk of fat12_delete. A cluster it frees reads 0 afterwards, so it ends;
-- the fuel is more than there are clusters.
def freeChain (fatBuffer : Memory) (cluster : Nat) : Nat → Option Memory
  | 0 => none
  | fuel+1 =>
    if 2 ≤ cluster ∧ cluster < 0xFF8 then
      freeChain (setFatEntry fatBuffer cluster 0) (getFatEntry fatBuffer cluster) fuel
    else some fatBuffer

def fat12Delete (s : Driver) (filename : List UInt8) : Option (Int × Driver) :=
  match scanRoot (editProbe (name83 filename)) s 0 s.rootSectors with
  | (.found sector idx buffer,s) =>
    match freeChain s.fatBuffer (firstClusterLow buffer (idx*32)) 0x1000 with
    | none => none
    | some fatBuffer =>
      match writeFatTable {s with fatBuffer := fatBuffer} with
      | (r,s) =>
        if r ≠ 0 then some (-1,s)
        else
          match fdcWriteSectors s (s.rootDirStartSector + sector) 1
            (Function.update buffer (idx*32) 0xE5) 0 with
          | (r,s) => if r ≠ 0 then some (-1,s) else some (0,s)
  | (_,s) => some (-1,s)

def Mount.clusterSector (v : Mount) (cluster : Nat) : Nat :=
  v.dataStartSector + (cluster - 2)*v.bootSector.sectorsPerCluster

-- uint32_t returned as int.
def intOf (v : Nat) : Int := if v < 2^31 then v else v - 2^32

-- The sectors of one cluster; the last one is padded with zeros.
def writeCluster (s : Driver) (buffer : Memory) (size sector i bytesWritten : Nat) : Nat → Int × Nat × Driver
  | 0 => (0,bytesWritten,s)
  | left+1 =>
    if bytesWritten < size then
      let toWrite := if size - bytesWritten > 512 then 512 else size - bytesWritten
      match fdcWriteSectors s (sector + i) 1 (fun j => if j < toWrite then buffer (bytesWritten + j) else 0) 0 with
      | (r,s) =>
        if r ≠ 0 then (-1,bytesWritten + toWrite,s)
        else writeCluster s buffer size sector (i+1) (bytesWritten + toWrite) left
    else (0,bytesWritten,s)

-- Every round writes at least one byte, so size+1 rounds are enough.
def writeFrom (s : Driver) (buffer : Memory) (size bytesWritten cluster : Nat) : Nat → Option (Int × Driver)
  | 0 => none
  | fuel+1 =>
    if bytesWritten < size ∧ 2 ≤ cluster ∧ cluster < 0xFF8 then
      match writeCluster s buffer size (s.clusterSector cluster) 0 bytesWritten s.bootSector.sectorsPerCluster with
      | (r,bytesWritten,s) =>
        if r ≠ 0 then some (-1,s)
        else
          let nextCluster := getFatEntry s.fatBuffer cluster
          if bytesWritten < size ∧ (nextCluster ≥ 0xFF8 ∨ nextCluster = 0) then
            let nextCluster := findFreeCluster s.fatBuffer
            if nextCluster = 0 then some (-1,s)
            else
              let linked := setFatEntry (setFatEntry s.fatBuffer cluster nextCluster) nextCluster 0xFFF
              match writeFatTable {s with fatBuffer := linked} with
              | (r,s) => if r ≠ 0 then some (-1,s) else writeFrom s buffer size bytesWritten nextCluster fuel
          else writeFrom s buffer size bytesWritten nextCluster fuel
    else some (intOf bytesWritten,s)

def fat12Write (s : Driver) (file : File) (buffer : Memory) (size : Nat) : Option (Int × Driver) :=
  writeFrom s buffer size 0 (file.firstCluster % 2^16) (size+1)

-- The run of consecutive clusters behind current, at most 250 long.
def runFrom (fatBuffer : Memory) (current next runLen : Nat) : Nat → Nat × Nat
  | 0 => (runLen,next)
  | left+1 =>
    if next = current + 1 ∧ next ≥ 2 ∧ next < 0xFF8 ∧ runLen < 250 then
      runFrom fatBuffer next (getFatEntry fatBuffer next) (runLen+1) left
    else (runLen,next)

def readFrom (s : Driver) (buffer : Memory) (size bytesRead cluster : Nat) : Nat → Option (Int × Memory × Driver)
  | 0 => none
  | fuel+1 =>
    if bytesRead < size ∧ 2 ≤ cluster ∧ cluster < 0xFF8 then
      let (runLen,next) := runFrom s.fatBuffer cluster (getFatEntry s.fatBuffer cluster) 1 250
      let bytesRemaining := size - bytesRead
      let neededSectors := (bytesRemaining + 511) % 2^32 / 512
      let runSectors := runLen*s.bootSector.sectorsPerCluster
      let totalSectors := if runSectors > neededSectors then neededSectors else runSectors
      match fdcReadSectors s (s.clusterSector cluster) (totalSectors % 2^8) buffer bytesRead with
      | (r,buffer,s) =>
        if r ≠ 0 then some (-1,buffer,s)
        else
          let readAmount := if totalSectors*512 > bytesRemaining then bytesRemaining else totalSectors*512
          readFrom s buffer size (bytesRead + readAmount) next fuel
    else some (intOf bytesRead,buffer,s)

def fat12Read (s : Driver) (file : File) (buffer : Memory) (size : Nat) : Option (Int × Memory × Driver) :=
  let size := if size > file.size then file.size else size
  readFrom s buffer size 0 (file.firstCluster % 2^16) (size+1)

inductive Search where
  | ended
  | further
  | found (idx : Nat) (buffer : Memory)

def searchCluster (probe : Memory → Nat → Probe) (s : Driver) (sector : Nat) : Nat → Search × Driver
  | 0 => (.further,s)
  | left+1 =>
    match fdcReadSectors s sector 1 (fun _ => 0) 0 with
    | (r,buffer,s) =>
      if r ≠ 0 then (.ended,s)
      else match scanSector probe buffer 0 16 with
        | (.hit,idx) => (.found idx buffer,s)
        | (.stop,_) => (.ended,s)
        | (.skip,_) => searchCluster probe s (sector+1) left

-- A chain of clusters is shorter than the fuel; a cyclic one has no end.
def searchChain (probe : Memory → Nat → Probe) (s : Driver) (dirCluster : Nat) : Nat → Option (Search × Driver)
  | 0 => none
  | fuel+1 =>
    if 2 ≤ dirCluster ∧ dirCluster < 0xFF8 then
      match searchCluster probe s (s.clusterSector dirCluster) s.bootSector.sectorsPerCluster with
      | (.further,s) => searchChain probe s (getFatEntry s.fatBuffer dirCluster) fuel
      | (result,s) => some (result,s)
    else some (.ended,s)

-- The first cluster and whether it is a directory; without an entry, 0 and the value false
-- that the caller passed.
def fat12FindEntry (s : Driver) (dirCluster : Nat) (name : List UInt8) : Option (Nat × Bool × Driver) :=
  if dirCluster = 0 then
    match scanRoot (openProbe (name83 name)) s 0 s.rootSectors with
    | (.found _ idx buffer,s) => some (firstClusterLow buffer (idx*32),attributes buffer (idx*32) &&& 0x10 ≠ 0,s)
    | (_,s) => some (0,false,s)
  else match searchChain (openProbe (name83 name)) s dirCluster 0x1000 with
    | none => none
    | some (.found idx buffer,s) => some (firstClusterLow buffer (idx*32),attributes buffer (idx*32) &&& 0x10 ≠ 0,s)
    | some (_,s) => some (0,false,s)

def syscallReadFile (s : Driver) (fname : List UInt8) (buf : Memory) (arg3 : Nat) : Option (Int × Memory × Driver) :=
  let bufSize := arg3 % 2^32
  match fat12Open s fname .fresh with
  | (r,file,s) =>
    if r ≠ 0 then some (-1,buf,s)
    else
      match fat12Read s file buf (if file.size < bufSize then file.size else bufSize) with
      | none => none
      | some (bytes,buf,s) => some (if bytes ≥ 0 then bytes else -1,buf,s)

def syscallCreateFile (s : Driver) (fname : List UInt8) : Int × Driver :=
  match fat12Create s fname .fresh with
  | (r,_,s) => (r,s)

def writeAndUpdate (s : Driver) (fname : List UInt8) (file : File) (buf : Memory) (size : Nat) : Option (Int × Driver) :=
  match fat12Write s file buf size with
  | none => none
  | some (bytes,s) =>
    if bytes > 0 then
      match fat12UpdateSize s fname (bytes.toNat % 2^32) with
      | (r,s) => if r ≠ 0 then some (0,s) else some (bytes,s)
    else some (0,s)

def syscallWriteFile (s : Driver) (fname : List UInt8) (buf : Memory) (arg3 : Nat) : Option (Int × Driver) :=
  let size := arg3 % 2^32
  match fat12Open s fname .fresh with
  | (r,file,s) =>
    if r ≠ 0 then
      match fat12Create s fname file with
      | (r,file,s) => if r ≠ 0 then some (0,s) else writeAndUpdate s fname file buf size
    else writeAndUpdate s fname file buf size

end SantOS.Fat12
