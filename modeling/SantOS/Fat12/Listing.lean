import SantOS.Fat12.Driver
import SantOS.Library.CStrings

namespace SantOS.Fat12
open ByteMemory CStrings

inductive Column where
  | text (word : Str)
  | number (n : Int)
deriving DecidableEq

inductive Line where
  | text (line : Str)
  | columns (name : Str) (second : Column)
deriving DecidableEq

def listingHeader (title : String) : List Line :=
  [.text (bytes title),.columns (bytes "Name") (.text (bytes "Size")),.text (bytes "------------------------")]

def entryText (m : Memory) (a : Nat) : Str := ((List.range 13).map (formatFilename m a (fun _ => 0))).takeWhile (· ≠ 0)

def entryLine (m : Memory) (a : Nat) : Line :=
  .columns (entryText m a) (if attributes m a &&& 0x10 ≠ 0 then .text (bytes "<DIR>") else .number (intOf (fileSize m a)))

-- fat12_list_root compares the plain char with 0xE5; a hit is printed.
def rootListProbe (m : Memory) (a : Nat) : Probe :=
  if m a = 0 then .stop
  else if signed (m a) = 0xE5 then .skip
  else if attributes m a &&& 0x08 ≠ 0 ∨ attributes m a = 0x0F then .skip else .hit

-- fat12_list_dir also passes over names that start with a dot.
def dirListProbe (m : Memory) (a : Nat) : Probe :=
  match rootListProbe m a with
  | .hit => if m a = 0x2E then .skip else .hit
  | other => other

def listSector (probe : Memory → Nat → Probe) (buffer : Memory) (idx : Nat) : Nat → List Line × Bool
  | 0 => ([],false)
  | left+1 =>
    match probe buffer (idx*32) with
    | .stop => ([],true)
    | .skip => listSector probe buffer (idx+1) left
    | .hit => (entryLine buffer (idx*32)::(listSector probe buffer (idx+1) left).1,(listSector probe buffer (idx+1) left).2)

-- left sectors from the given one; without an end mark or an error there is no return value.
def listSectors (probe : Memory → Nat → Probe) (s : Driver) (sector : Nat) : Nat → Option Int × List Line × Driver
  | 0 => (none,[],s)
  | left+1 =>
    match fdcReadSectors s sector 1 (fun _ => 0) 0 with
    | (r,buffer,s) =>
      if r ≠ 0 then (some (-1),[],s)
      else match listSector probe buffer 0 16 with
        | (lines,true) => (some 0,lines,s)
        | (lines,false) =>
          match listSectors probe s (sector+1) left with
          | (result,rest,s) => (result,lines ++ rest,s)

def fat12ListRoot (s : Driver) : Int × List Line × Driver :=
  match listSectors rootListProbe s s.rootDirStartSector s.rootSectors with
  | (result,lines,s) => (result.getD 0,listingHeader "Root directory:" ++ lines,s)

-- The clusters of a directory; a cyclic chain may have no end.
def listChain (s : Driver) (cluster : Nat) (printed : List Line) : Nat → Option (Int × List Line × Driver)
  | 0 => none
  | fuel+1 =>
    if 2 ≤ cluster ∧ cluster < 0xFF8 then
      match listSectors dirListProbe s (s.clusterSector cluster) s.bootSector.sectorsPerCluster with
      | (some r,lines,s) => some (r,printed ++ lines,s)
      | (none,lines,s) => listChain s (getFatEntry s.fatBuffer cluster) (printed ++ lines) fuel
    else some (0,printed,s)

def fat12ListDir (s : Driver) (cluster fuel : Nat) : Option (Int × List Line × Driver) :=
  if cluster = 0 then some (fat12ListRoot s) else listChain s cluster (listingHeader "Directory contents:") fuel

end SantOS.Fat12
