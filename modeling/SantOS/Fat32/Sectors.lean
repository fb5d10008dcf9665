import SantOS.Ata.Transfers
import SantOS.Fat32.Driver
import SantOS.Library.BlockChains

namespace SantOS.Fat32
open ByteMemory Ata Fat12 BlockChains

-- A drive takes 28 bits of an address.
def lba28 (lba : UInt32) : Nat := lba.toNat % 2^28

section
variable {σ : Type} {ports : Ports σ} {view : σ → Drive} {s : σ} {capacity : Nat} {disk stack : Memory} {v : Volume}

theorem read_sector (serves : Serves ports view) (rests : Rests (view s) capacity disk) (lba : UInt32) (buffer : Memory) :
    ∃ t, Rests (view t) capacity disk ∧ ports.ataReadSectors lba 1 buffer s =
      if lba28 lba < capacity then (0,blit buffer 0 512 (fun j => disk (lba28 lba*512 + j)),t) else (-1,buffer,t) := by
  obtain ⟨answer,after⟩ := serves.call rests (.read lba 1 buffer)
  have one : (1 : UInt8) ≠ 0 := by decide
  simp only [SectorCall.means,if_neg one] at answer after
  refine ⟨(SectorCall.run ports s (.read lba 1 buffer)).2,after,?_⟩
  have split : ports.ataReadSectors lba 1 buffer s =
      ((SectorCall.run ports s (.read lba 1 buffer)).1.1,(SectorCall.run ports s (.read lba 1 buffer)).1.2,
        (SectorCall.run ports s (.read lba 1 buffer)).2) := rfl
  have count : (1 : UInt8).toNat = 1 := rfl
  rw [split,answer,count,lba28]
  by_cases inside : lba.toNat % 2^28 < capacity
  · have least : min 1 (capacity - lba.toNat % 2^28) = 1 := by omega
    rw [if_pos inside,least,if_pos (by omega),Nat.one_mul]
  · have least : min 1 (capacity - lba.toNat % 2^28) = 0 := by omega
    rw [if_neg inside,least,if_neg (by omega),Nat.zero_mul,blit_nothing]

theorem bootSector_read (serves : Serves ports view) (rests : Rests (view s) capacity disk) (some_ : 0 < capacity)
    (readyNow : ready (ports.inb ataPrimaryStatus s).1 = true)
    (shows : ∀ u, ¬ (view u).phase.Transfers → (ports.inb ataPrimaryStatus u).1 ≠ 0x00) (stack : Memory) :
    ∃ t u w, ports.ataDetect s = (1,t) ∧ ports.ataInit t = (0,u) ∧ Rests (view w) capacity disk ∧
      ports.ataReadSectors 0 1 stack u = (0,blit stack 0 512 disk,w) := by
  obtain ⟨t,u,detected,setUp,same⟩ := serves.detects rests.phase readyNow shows
  have still : Rests (view u) capacity disk := by
    rw [same]
    exact ⟨rests.phase,rests.capacity,rests.disk⟩
  obtain ⟨w,after,read⟩ := read_sector serves still 0 stack
  have first : lba28 0 = 0 := rfl
  rw [first,if_pos some_] at read
  simp only [Nat.zero_mul,Nat.zero_add] at read
  exact ⟨t,u,w,detected,setUp,after,read⟩

theorem boot_byte (disk stack : Memory) (inside : i < 512) : blit stack 0 512 disk i = disk i := by
  have copied := blit_inside stack disk (a := 0) inside
  rwa [Nat.zero_add] at copied

theorem boot_word (disk stack : Memory) (inside : a + n ≤ 512) : load (blit stack 0 512 disk) a n = load disk a n :=
  load_congr (fun i byte => boot_byte disk stack (by omega))

theorem bootSector_copied (disk stack : Memory) : bootSectorOf (blit stack 0 512 disk) = bootSectorOf disk := by
  have label : (List.range 8).map (fun k => blit stack 0 512 disk (82+k)) = (List.range 8).map (fun k => disk (82+k)) :=
    List.map_congr_left (fun k inside => boot_byte disk stack (by rw [List.mem_range] at inside; omega))
  unfold bootSectorOf
  rw [boot_word _ _ (by decide),boot_word _ _ (by decide),boot_word _ _ (by decide),boot_word _ _ (by decide),
    boot_byte _ _ (by decide),boot_byte _ _ (by decide),label]

-- A drive with a FAT boot sector is mounted by it, and then all that follows about a volume
-- is about this one.
theorem fat32Init_mounts (serves : Serves ports view) (rests : Rests (view s) capacity disk) (some_ : 0 < capacity)
    (readyNow : ready (ports.inb ataPrimaryStatus s).1 = true)
    (shows : ∀ u, ¬ (view u).phase.Transfers → (ports.inb ataPrimaryStatus u).1 ≠ 0x00) (stack : Memory) (v : Volume) :
    ∃ t u w, ports.ataDetect s = (1,t) ∧ ports.ataInit t = (0,u) ∧ Rests (view w) capacity disk ∧
      fat32Init ports stack v u =
        if (bootSectorOf disk).fsType.take 3 = [0x46,0x41,0x54] then (0,.mount (bootSectorOf disk),w)
        else (-1,{v with bootSector := bootSectorOf disk},w) := by
  obtain ⟨t,u,w,detected,setUp,after,read⟩ := bootSector_read serves rests some_ readyNow shows stack
  refine ⟨t,u,w,detected,setUp,after,?_⟩
  rw [fat32Init,read]
  dsimp only
  rw [if_neg (by decide),bootSector_copied,ite_not]

-- The cluster that get_fat_entry finds behind a cluster: what it cannot read ends the chain.
def Volume.link (v : Volume) (capacity : Nat) (disk : Memory) (cluster : UInt32) : UInt32 :=
  let sector := lba28 (v.fatStartSector + cluster*4/512)
  if sector < capacity then UInt32.ofNat (load disk (sector*512 + (cluster*4 % 512).toNat) 4) &&& 0x0FFFFFFF else 0x0FFFFFFF

theorem getFatEntry_spec (stack : Memory) (serves : Serves ports view) (rests : Rests (view s) capacity disk)
    (cluster : UInt32) :
    ∃ t, Rests (view t) capacity disk ∧ getFatEntry ports stack v cluster s = (v.link capacity disk cluster,t) := by
  obtain ⟨t,after,ran⟩ := read_sector serves rests (v.fatStartSector + cluster*4/512) stack
  refine ⟨t,after,?_⟩
  rw [getFatEntry,ran,Volume.link]
  by_cases inside : lba28 (v.fatStartSector + cluster*4/512) < capacity
  · have offset : (cluster*4 % 512).toNat + 4 ≤ 512 := by
      rw [UInt32.toNat_mod,UInt32.toNat_mul]
      have four : (4 : UInt32).toNat = 4 := rfl
      have size : (512 : UInt32).toNat = 512 := rfl
      rw [four,size]
      omega
    have entry : load (blit stack 0 512 (fun j => disk (lba28 (v.fatStartSector + cluster*4/512)*512 + j))) (cluster*4 % 512).toNat 4 =
        load disk (lba28 (v.fatStartSector + cluster*4/512)*512 + (cluster*4 % 512).toNat) 4 := by
      apply load_congr
      intro i small
      have place := blit_inside stack (fun j => disk (lba28 (v.fatStartSector + cluster*4/512)*512 + j)) (a := 0) (n := 512)
        (i := (cluster*4 % 512).toNat + i) (by omega)
      rw [Nat.zero_add] at place
      rw [place,Nat.add_assoc]
    simp only [inside,if_true,entry]
    rfl
  · simp only [inside,if_false]
    rfl

end

def Volume.width (v : Volume) : Nat := v.bootSector.sectorsPerCluster.toNat

def Volume.place (v : Volume) (cluster : UInt32) (i : Nat) : Nat := lba28 (v.clusterSector cluster + UInt32.ofNat i)

def Volume.sectorAt (v : Volume) (capacity : Nat) (disk : Memory) (first : UInt32) (k : Nat) : Nat :=
  v.place (blockAt (v.link capacity disk) v.width first k) (k % v.width)

def Volume.Chained (v : Volume) (capacity : Nat) (disk : Memory) (first : UInt32) (k : Nat) : Prop :=
  On (v.link capacity disk) (fun c => inChain c = true) v.width first k

instance (v : Volume) (capacity : Nat) (disk : Memory) (first : UInt32) (k : Nat) : Decidable (v.Chained capacity disk first k) :=
  inferInstanceAs (Decidable (∀ r ≤ k/v.width, inChain ((v.link capacity disk)^[r] first) = true))

def Volume.Readable (v : Volume) (capacity : Nat) (disk : Memory) (first : UInt32) (k : Nat) : Prop :=
  v.Chained capacity disk first k ∧ v.sectorAt capacity disk first k < capacity

instance (v : Volume) (capacity : Nat) (disk : Memory) (first : UInt32) (k : Nat) : Decidable (v.Readable capacity disk first k) :=
  inferInstanceAs (Decidable (_ ∧ _))

theorem next_sector (lba : UInt32) (i : Nat) : lba + UInt32.ofNat i + 1 = lba + UInt32.ofNat (i+1) := by
  rw [UInt32.add_assoc,UInt32.ofNat_add]
  rfl

theorem sectorAt_cluster {v : Volume} {capacity : Nat} {disk : Memory} {first : UInt32} (r : Nat) {i : Nat}
    (small : i < v.width) :
    v.sectorAt capacity disk first (r*v.width + i) = v.place ((v.link capacity disk)^[r] first) i := by
  have rounds : (r*v.width + i)/v.width = r := by
    rw [Nat.add_comm,Nat.add_mul_div_right i r (Nat.zero_lt_of_lt small),Nat.div_eq_of_lt small,Nat.zero_add]
  have rest : (r*v.width + i) % v.width = i := by
    rw [Nat.mul_add_mod_self_right,Nat.mod_eq_of_lt small]
  rw [Volume.sectorAt,blockAt,rounds,rest]

def smallVolume : Volume := .mount ⟨512,1,1,1,1,2,[0x46,0x41,0x54]⟩

def smallDisk : Memory := fun x =>
  if x = 520 ∨ x = 524 then 0xF8
  else if x = 523 ∨ x = 527 then 0x0F
  else if 520 ≤ x ∧ x < 528 then 0xFF
  else if x = 1024 then 0x41
  else if 1024 ≤ x ∧ x < 1036 then 0x20
  else if x = 1050 then 3
  else if x = 1052 then 5
  else if 1536 ≤ x then 0x42
  else 0

def smallDrive : Drive := ⟨smallDisk,4,0,0,0,0,0,.idle⟩

theorem small_rests : Rests (id smallDrive) 4 smallDisk := ⟨id,rfl,rfl⟩

end SantOS.Fat32
