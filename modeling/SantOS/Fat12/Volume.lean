import SantOS.Library.LinkedPaths
import SantOS.Fat12.Table

namespace SantOS.Fat12
open ByteMemory LinkedPaths

-- Byte addresses of the regions. They are irreducible so that arithmetic takes them as
-- they stand.
@[irreducible] def Mount.fatByte (v : Mount) : Nat := v.fatStartSector*512
@[irreducible] def Mount.rootByte (v : Mount) : Nat := v.rootDirStartSector*512
@[irreducible] def Mount.clusterBytes (v : Mount) : Nat := v.bootSector.sectorsPerCluster*512
@[irreducible] def Mount.dataByte (v : Mount) (c : Nat) : Nat := v.clusterSector c*512

def Mount.totalSectors (v : Mount) : Nat :=
  if v.bootSector.totalSectors16 ≠ 0 then v.bootSector.totalSectors16 else v.bootSector.totalSectors32

def Mount.InVolume (v : Mount) (c : Nat) : Prop :=
  2 ≤ c ∧ v.clusterSector c + v.bootSector.sectorsPerCluster ≤ v.totalSectors

-- A mounted FAT12 volume: the regions follow each other as fat12_init places them, the
-- FAT fits fat_buffer and has an entry for every cluster of the volume.
structure Geometry (v : Mount) : Prop where
  sector : v.bootSector.bytesPerSector = 512
  cluster : 0 < v.bootSector.sectorsPerCluster
  fats : 0 < v.bootSector.numFats
  buffered : v.bootSector.sectorsPerFat ≤ 9
  table : v.fatStartSector = v.bootSector.reservedSectors
  root : v.rootDirStartSector = v.fatStartSector + v.bootSector.numFats*v.bootSector.sectorsPerFat
  data : v.dataStartSector = v.rootDirStartSector + v.rootSectors
  covered : ∀ c, v.InVolume c → c + c/2 + 2 ≤ v.bootSector.sectorsPerFat*512

theorem Geometry.in_volume_lt (shape : Geometry v) (member : v.InVolume c) : c < 0xFF0 := by
  have room := shape.covered c member
  have fits := shape.buffered
  omega

theorem Mount.InVolume.below {v : Mount} (member : v.InVolume c) (low : 2 ≤ d) (le : d ≤ c) : v.InVolume d := by
  refine ⟨low,Nat.le_trans ?_ member.2⟩
  have step : (d-2)*v.bootSector.sectorsPerCluster ≤ (c-2)*v.bootSector.sectorsPerCluster :=
    Nat.mul_le_mul_right _ (by omega)
  unfold Mount.clusterSector
  omega

theorem Mount.data_apart (v : Mount) {c d : Nat} (two : 2 ≤ c) (before : c < d) :
    v.dataByte c + v.clusterBytes ≤ v.dataByte d := by
  have step : ((c-2)+1)*v.bootSector.sectorsPerCluster ≤ (d-2)*v.bootSector.sectorsPerCluster :=
    Nat.mul_le_mul_right _ (by omega)
  rw [Nat.add_mul,Nat.one_mul] at step
  unfold Mount.dataByte Mount.clusterBytes Mount.clusterSector
  rw [← Nat.add_mul]
  exact Nat.mul_le_mul_right _ (by omega)

theorem Geometry.root_before_data (shape : Geometry v) (c : Nat) : v.rootByte + v.rootSectors*512 ≤ v.dataByte c := by
  have data := shape.data
  unfold Mount.rootByte Mount.dataByte Mount.clusterSector
  rw [← Nat.add_mul]
  exact Nat.mul_le_mul_right _ (by omega)

theorem Geometry.fat_before_root (shape : Geometry v) :
    v.fatByte + v.bootSector.sectorsPerFat*512 ≤ v.rootByte := by
  have one : 1*v.bootSector.sectorsPerFat ≤ v.bootSector.numFats*v.bootSector.sectorsPerFat :=
    Nat.mul_le_mul_right _ shape.fats
  have root := shape.root
  unfold Mount.fatByte Mount.rootByte
  rw [← Nat.add_mul]
  exact Nat.mul_le_mul_right _ (by omega)

def Mount.rootSlots (v : Mount) : List Nat := (List.range (16*v.rootSectors)).map (fun k => v.rootByte + 32*k)
def Mount.clusterSlots (v : Mount) (c : Nat) : List Nat :=
  (List.range (16*v.bootSector.sectorsPerCluster)).map (fun k => v.dataByte c + 32*k)
def Mount.chainSlots (v : Mount) (cs : List Nat) : List Nat := cs.flatMap v.clusterSlots

theorem Mount.mem_rootSlots {v : Mount} : a ∈ v.rootSlots ↔ ∃ k < 16*v.rootSectors, a = v.rootByte + 32*k := by
  simp only [Mount.rootSlots,List.mem_map,List.mem_range]
  constructor
  · rintro ⟨k,bound,rfl⟩; exact ⟨k,bound,rfl⟩
  · rintro ⟨k,bound,rfl⟩; exact ⟨k,bound,rfl⟩

theorem Mount.chain_slot_inside {v : Mount} (member : a ∈ v.chainSlots cs) :
    ∃ c ∈ cs, v.dataByte c ≤ a ∧ a + 32 ≤ v.dataByte c + v.clusterBytes := by
  obtain ⟨c,inside,slot⟩ := List.mem_flatMap.mp member
  simp only [Mount.clusterSlots,List.mem_map,List.mem_range] at slot
  obtain ⟨k,bound,rfl⟩ := slot
  refine ⟨c,inside,by omega,?_⟩
  unfold Mount.clusterBytes
  omega

-- Directory entries by their first byte: in use, with "." and ".." and the volume
-- label and long-name entries left out.
def dotName : List UInt8 := 0x2E::List.replicate 10 0x20
def dotdotName : List UInt8 := 0x2E::0x2E::List.replicate 9 0x20

def Live (m : Memory) (a : Nat) : Prop := m a ≠ 0 ∧ m a ≠ 0xE5

structure Owns (m : Memory) (a : Nat) : Prop where
  live : Live m a
  plain : attributes m a &&& 0x08 = 0
  proper : entryName m a ≠ dotName ∧ entryName m a ≠ dotdotName

def IsDirectory (m : Memory) (a : Nat) : Prop := attributes m a &&& 0x10 ≠ 0

theorem entryName_congr {m m' : Memory} {a : Nat} (same : ∀ i < 12, m' (a+i) = m (a+i)) :
    entryName m' a = entryName m a := by
  apply List.map_congr_left
  intro k member
  exact same k (Nat.lt_trans (List.mem_range.mp member) (by decide))

theorem firstCluster_congr {m m' : Memory} {a : Nat} (same : ∀ i < 32, m' (a+i) = m (a+i)) :
    firstClusterLow m' a = firstClusterLow m a := by
  apply load_congr
  intro i bound
  rw [Nat.add_assoc]; exact same (26+i) (by omega)

theorem attributes_congr {m m' : Memory} {a : Nat} (same : ∀ i < 32, m' (a+i) = m (a+i)) :
    attributes m' a = attributes m a := same 11 (by decide)

theorem first_byte_congr {m m' : Memory} {a : Nat} (same : ∀ i < 32, m' (a+i) = m (a+i)) : m' a = m a :=
  same 0 (by decide)

theorem Owns.congr_head {m m' : Memory} {a : Nat} (owns : Owns m a) (same : ∀ i < 12, m' (a+i) = m (a+i)) : Owns m' a := by
  have first : m' a = m a := same 0 (by decide)
  have flags : attributes m' a = attributes m a := same 11 (by decide)
  refine ⟨?_,?_,?_⟩
  · rw [Live,first]; exact owns.live
  · rw [flags]; exact owns.plain
  · rw [entryName_congr same]; exact owns.proper

theorem Owns.congr {m m' : Memory} {a : Nat} (owns : Owns m a) (same : ∀ i < 32, m' (a+i) = m (a+i)) : Owns m' a :=
  owns.congr_head (fun i bound => same i (by omega))

def Driver.fat (s : Driver) (c : Nat) : Nat := getFatEntry s.fatBuffer c

-- The cluster chain of an entry; an entry with first_cluster 0 has the empty chain.
def EntryChain (s : Driver) (a : Nat) (cs : List Nat) : Prop :=
  (firstClusterLow s.disk a = 0 ∧ cs = []) ∨
  (firstClusterLow s.disk a ≠ 0 ∧ cs ≠ [] ∧ Path s.fat (0xFF8 ≤ ·) (firstClusterLow s.disk a) cs)

theorem EntryChain.unique (one : EntryChain s a cs) (two : EntryChain s a ds) : cs = ds := by
  rcases one with ⟨zero,rfl⟩ | ⟨first,_,path⟩
  · rcases two with ⟨_,rfl⟩ | ⟨other,_,_⟩
    · rfl
    · exact absurd zero other
  · rcases two with ⟨zero,_⟩ | ⟨_,_,other⟩
    · exact absurd zero first
    · exact path.unique other

theorem EntryChain.nonzero (chain : EntryChain s a cs) (member : c ∈ cs) (two : ∀ d ∈ cs, 2 ≤ d) : s.fat c ≠ 0 := by
  rcases chain with ⟨_,rfl⟩ | ⟨_,_,path⟩
  · cases member
  · obtain ⟨pre,post,rfl⟩ := List.append_of_mem member
    have behind : Path s.fat (0xFF8 ≤ ·) (s.fat c) post := path.suffix.tail
    cases post with
    | nil =>
      have done := Path.nil_iff.mp behind
      omega
    | cons d post =>
      have link : d = s.fat c := behind.head
      have low := two d (by simp)
      omega

theorem EntryChain.congr (chain : EntryChain s a cs) (first : firstClusterLow t.disk a = firstClusterLow s.disk a)
    (same : ∀ c ∈ cs, t.fat c = s.fat c) : EntryChain t a cs := by
  rw [EntryChain,first]
  rcases chain with empty | ⟨nonzero,nonempty,path⟩
  · exact .inl empty
  · exact .inr ⟨nonzero,nonempty,path.congr same⟩

inductive Directory (s : Driver) : List Nat → Prop where
  | root : Directory s s.rootSlots
  | sub (parent : Directory s slots) (member : a ∈ slots) (owns : Owns s.disk a) (dir : IsDirectory s.disk a)
      (chain : EntryChain s a cs) : Directory s (s.chainSlots cs)

def Entry (s : Driver) (a : Nat) : Prop := ∃ slots, Directory s slots ∧ a ∈ slots
def Owner (s : Driver) (a : Nat) : Prop := Entry s a ∧ Owns s.disk a

-- Every regular-file and directory entry has a finite chain of clusters of the volume,
-- and no cluster lies in two chains.
structure Sound (s : Driver) : Prop where
  chained : ∀ a, Owner s a → ∃ cs, EntryChain s a cs
  inside : ∀ a cs, Owner s a → EntryChain s a cs → ∀ c ∈ cs, 2 ≤ c
  apart : ∀ a b cs ds, Owner s a → Owner s b → a ≠ b → EntryChain s a cs → EntryChain s b ds → cs.Disjoint ds

end SantOS.Fat12
