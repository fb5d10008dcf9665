import SantOS.Fat16.Driver
import SantOS.Fat32.Reads

namespace SantOS.Fat16
open ByteMemory Ata
open Fat12 hiding File name83
open Fat32

-- The chain of a file as the FAT has it, and the bytes along it. The driver does not read the FAT.
def Volume.link (v : Volume) (disk : Memory) (cluster : UInt16) : UInt16 :=
  UInt16.ofNat (load disk (v.fatStartSector.toNat*512 + cluster.toNat*2) 2)

def Volume.width (v : Volume) : Nat := v.bootSector.sectorsPerCluster.toNat

def Volume.place (v : Volume) (cluster : UInt16) (i : Nat) : Nat := lba28 (v.clusterSector cluster + UInt32.ofNat i)

def Volume.fileBytes (v : Volume) (disk : Memory) (first : UInt16) : Memory := fun x =>
  disk (v.place ((v.link disk)^[x/512/v.width] first) (x/512 % v.width)*512 + x % 512)

-- Of the first cluster the sectors before sector k are needed and read; k is behind the cluster, or sector
-- k is not needed, or the drive does not have it.
structure Volume.ReadTo (v : Volume) (capacity size : Nat) (cluster : UInt16) (k : Nat) : Prop where
  le : k ≤ v.width
  before : ∀ i < k, 512*i < size ∧ v.place cluster i < capacity
  stop : k < v.width → ¬ (512*k < size ∧ v.place cluster k < capacity)

section
variable {σ : Type} {ports : Ports σ} {view : σ → Drive} {s : σ} {capacity : Nat} {disk stack buffer : Memory} {v : Volume}
variable {size k : Nat} {cluster : UInt16}

theorem firstCluster_bytes (v : Volume) (disk : Memory) (cluster : UInt16) {i j : Nat} (small : i < v.width)
    (inside : j < 512) :
    disk (v.place cluster i*512 + j) = v.fileBytes disk cluster (512*i + j) := by
  have sector : (512*i + j)/512 = i := by omega
  have rest : (512*i + j) % 512 = j := by omega
  rw [Volume.fileBytes,sector,rest,Nat.div_eq_of_lt small,Nat.mod_eq_of_lt small]
  rfl

theorem read_to (v : Volume) (capacity size : Nat) (cluster : UInt16) : ∃ k, v.ReadTo capacity size cluster k := by
  have last : ∃ k, ¬ (k < v.width ∧ 512*k < size ∧ v.place cluster k < capacity) :=
    ⟨v.width,fun both => absurd both.1 (Nat.lt_irrefl _)⟩
  classical
  have earlier : ∀ i < Nat.find last, i < v.width ∧ 512*i < size ∧ v.place cluster i < capacity :=
    fun i less => not_not.mp (Nat.find_min last less)
  refine ⟨Nat.find last,?_,fun i less => (earlier i less).2,fun small both => Nat.find_spec last ⟨small,both⟩⟩
  by_contra large
  exact absurd (earlier v.width (by omega)).1 (Nat.lt_irrefl _)

theorem read_first (stack buffer : Memory) (serves : Serves ports view) (rests : Rests (view s) capacity disk)
    (read : v.ReadTo capacity size cluster k) :
    ∃ r t, Rests (view t) capacity disk ∧ (r = if k < v.width ∧ 512*k < size then -1 else 0) ∧
      readCluster ports stack size (v.clusterSector cluster) buffer 0 v.width s =
        (r,filled buffer (v.fileBytes disk cluster) size k,min size (512*k),t) := by
  obtain ⟨left,count⟩ := Nat.exists_eq_add_of_le read.le
  have holds : ∀ i < k, ∀ j < 512, disk (lba28 (v.clusterSector cluster + UInt32.ofNat i)*512 + j) =
      v.fileBytes disk cluster (512*(0+i) + j) := by
    intro i less j inside
    rw [Nat.zero_add]
    exact firstCluster_bytes v disk cluster (Nat.lt_of_lt_of_le less read.le) inside
  have passed : ∀ i < k, 512*(0+i) < size ∧ lba28 (v.clusterSector cluster + UInt32.ofNat i) < capacity := by
    intro i less
    rw [Nat.zero_add]
    exact read.before i less
  have nothing : filled buffer (v.fileBytes disk cluster) size 0 = buffer := by
    rw [filled,Nat.mul_zero,Nat.min_zero,blit_nothing]
  obtain ⟨t,kept,ran⟩ := read_some stack buffer (v.fileBytes disk cluster) (v.clusterSector cluster) left serves rests holds passed
  rw [nothing,Nat.mul_zero,Nat.min_zero,Nat.zero_add] at ran
  rw [count,ran]
  by_cases more : 512*k < size
  · cases left with
    | zero => exact ⟨0,t,kept,(if_neg (fun both => Nat.lt_irrefl k both.1)).symm,rfl⟩
    | succ left =>
      have behind : k < v.width := by omega
      obtain ⟨u,after,fails⟩ := read_fails stack buffer (v.fileBytes disk cluster) left serves kept more
        (fun inside => read.stop behind ⟨more,inside⟩)
      refine ⟨-1,u,after,?_,fails⟩
      rw [if_pos ⟨by omega,more⟩]
  · exact ⟨0,t,kept,(if_neg (fun both => more both.2)).symm,
      read_none ports stack buffer (v.fileBytes disk cluster) (v.clusterSector cluster + UInt32.ofNat k) left t more⟩

end

-- What fat16_read stores and returns, over any drive: the needed bytes of the first cluster. It returns as
-- many bytes as it is asked for only when they all lie in that cluster.
theorem fat16_read_exact (ports : Ports σ) (view : σ → Drive) (serves : Serves ports view) (s : σ) (capacity : Nat)
    (disk : Memory)
    (rests : Rests (view s) capacity disk) (stack : Memory) (v : Volume) (file : File) (buffer : Memory) (size : UInt32) :
    (0 < min size.toNat file.size.toNat ∧ file.firstCluster.toUInt16 < 0xFFF8 →
      ∃ k t, v.ReadTo capacity (min size.toNat file.size.toNat) file.firstCluster.toUInt16 k ∧ Rests (view t) capacity disk ∧
        fat16Read ports stack v file buffer size s =
          (if k < v.width ∧ 512*k < min size.toNat file.size.toNat then -1 else intOf (min (min size.toNat file.size.toNat) (512*k)),
            filled buffer (v.fileBytes disk file.firstCluster.toUInt16) (min size.toNat file.size.toNat) k,t)) ∧
    (¬ (0 < min size.toNat file.size.toNat ∧ file.firstCluster.toUInt16 < 0xFFF8) →
      fat16Read ports stack v file buffer size s = (0,buffer,s)) ∧
    (min size.toNat file.size.toNat < 2^31 → (fat16Read ports stack v file buffer size s).1 = min size.toNat file.size.toNat →
      min size.toNat file.size.toNat ≤ 512*v.width) := by
  have asked := asked_size size file.size
  have someAsked : 0 < (if size > file.size then file.size else size) ↔ 0 < min size.toNat file.size.toNat := by
    rw [UInt32.lt_iff_toNat_lt,asked]
    rfl
  have going : 0 < min size.toNat file.size.toNat ∧ file.firstCluster.toUInt16 < 0xFFF8 →
      ∃ k t, v.ReadTo capacity (min size.toNat file.size.toNat) file.firstCluster.toUInt16 k ∧ Rests (view t) capacity disk ∧
        fat16Read ports stack v file buffer size s =
          (if k < v.width ∧ 512*k < min size.toNat file.size.toNat then -1 else intOf (min (min size.toNat file.size.toNat) (512*k)),
            filled buffer (v.fileBytes disk file.firstCluster.toUInt16) (min size.toNat file.size.toNat) k,t) := by
    intro both
    obtain ⟨k,read⟩ := read_to v capacity (min size.toNat file.size.toNat) file.firstCluster.toUInt16
    obtain ⟨r,t,after,value,ran⟩ := read_first stack buffer serves rests read
    refine ⟨k,t,read,after,?_⟩
    rw [fat16Read,if_pos ⟨someAsked.mpr both.1,both.2⟩,asked]
    rw [Volume.width] at ran
    rw [ran]
    by_cases failed : k < v.width ∧ 512*k < min size.toNat file.size.toNat
    · rw [if_pos failed] at value
      subst value
      rw [if_pos failed]
      rfl
    · rw [if_neg failed] at value
      subst value
      rw [if_neg failed]
      rfl
  have still : ¬ (0 < min size.toNat file.size.toNat ∧ file.firstCluster.toUInt16 < 0xFFF8) →
      fat16Read ports stack v file buffer size s = (0,buffer,s) := by
    intro nothing
    rw [fat16Read,if_neg (fun both => nothing ⟨someAsked.mp both.1,both.2⟩)]
  refine ⟨going,still,fun small whole => ?_⟩
  by_cases both : 0 < min size.toNat file.size.toNat ∧ file.firstCluster.toUInt16 < 0xFFF8
  · obtain ⟨k,t,read,_,ran⟩ := going both
    rw [ran] at whole
    dsimp only at whole
    split at whole
    · omega
    · have fits : k ≤ v.width := read.le
      rw [intOf,if_pos (by omega)] at whole
      omega
  · rw [still both] at whole
    dsimp only at whole
    omega

theorem fat16_read_exact_long_file : ∃ out t, fat16Read Drive.ports (fun _ => 0) ⟨⟨512,1,1,1,16,1,[]⟩,1,2,3⟩ ⟨fun _ => 0,600,2,0⟩ (fun _ => 0) 1000
    smallDrive = (512,out,t) ∧ out 511 = 0x42 ∧ out 512 = 0 := by
  obtain ⟨k,t,read,_,ran⟩ := (fat16_read_exact Drive.ports id Drive.serves smallDrive 4 smallDisk small_rests (fun _ => 0)
    ⟨⟨512,1,1,1,16,1,[]⟩,1,2,3⟩ ⟨fun _ => 0,600,2,0⟩ (fun _ => 0) 1000).1 (by decide)
  have one : k = 1 := by
    rcases k with _ | _ | k
    · exact absurd ⟨by decide,by decide⟩ (read.stop (by decide))
    · rfl
    · have le : k + 1 + 1 ≤ 1 := read.le
      omega
  subst one
  exact ⟨_,t,ran,by decide,by decide⟩

end SantOS.Fat16
