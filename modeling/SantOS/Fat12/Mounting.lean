import SantOS.Fat12.WellFormed

namespace SantOS.Fat12
open ByteMemory

-- The fields of fat12_boot_sector_t at their offsets in the packed structure.
def bootSectorOf (buffer : Memory) : BootSector where
  bytesPerSector := load buffer 11 2
  sectorsPerCluster := load buffer 13 1
  reservedSectors := load buffer 14 2
  numFats := load buffer 16 1
  rootEntries := load buffer 17 2
  totalSectors16 := load buffer 19 2
  sectorsPerFat := load buffer 22 2
  totalSectors32 := load buffer 32 4

def mounted (b : BootSector) : Mount :=
  let fatStartSector := b.reservedSectors
  let rootDirStartSector := fatStartSector + b.numFats*b.sectorsPerFat
  let rootDirSectors := (b.rootEntries*32 + (b.bytesPerSector - 1))/b.bytesPerSector
  ⟨b,fatStartSector,rootDirStartSector,rootDirStartSector + rootDirSectors⟩

-- "Read FAT table into memory": the number of sectors is passed as a uint8_t count.
def readFatTable (s : Driver) : Int × Driver :=
  match fdcReadSectors s s.fatStartSector (s.bootSector.sectorsPerFat % 2^8) s.fatBuffer 0 with
  | (r,fatBuffer,s) => if r ≠ 0 then (-1,{s with fatBuffer := fatBuffer}) else (0,{s with fatBuffer := fatBuffer})

def fat12Init (s : Driver) : Int × Driver :=
  match fdcReadSectors s 0 1 (fun _ => 0) 0 with
  | (r,buffer,s) =>
    if r ≠ 0 then (-1,s)
    else
      let s := {s with bootSector := bootSectorOf buffer}
      if s.bootSector.bytesPerSector = 0 ∨ s.bootSector.sectorsPerCluster = 0 then (-1,s)
      else readFatTable {s with toMount := mounted s.bootSector}

def Accepted (v : Mount) : Prop := ∃ s t, fat12Init s = (0,t) ∧ t.toMount = v

-- What acceptance says: the fields have the widths of their types, the two checked ones are
-- not 0, and the regions follow each other.
structure Layout (v : Mount) : Prop where
  bytes : 0 < v.bootSector.bytesPerSector
  cluster : 0 < v.bootSector.sectorsPerCluster
  clusterByte : v.bootSector.sectorsPerCluster < 2^8
  fatsByte : v.bootSector.numFats < 2^8
  entriesWord : v.bootSector.rootEntries < 2^16
  fatWord : v.bootSector.sectorsPerFat < 2^16
  table : v.fatStartSector = v.bootSector.reservedSectors
  root : v.rootDirStartSector = v.fatStartSector + v.bootSector.numFats*v.bootSector.sectorsPerFat
  data : v.dataStartSector = v.rootDirStartSector +
    (v.bootSector.rootEntries*32 + (v.bootSector.bytesPerSector - 1))/v.bootSector.bytesPerSector

theorem Layout.root_before_data (layout : Layout v) : v.rootDirStartSector ≤ v.dataStartSector := by
  rw [layout.data]
  exact Nat.le_add_right _ _

theorem Layout.copy_before_root (layout : Layout v) (copies : k < v.bootSector.numFats) :
    v.fatStartSector + k*v.bootSector.sectorsPerFat + v.bootSector.sectorsPerFat ≤ v.rootDirStartSector := by
  have count : (k+1)*v.bootSector.sectorsPerFat ≤ v.bootSector.numFats*v.bootSector.sectorsPerFat :=
    Nat.mul_le_mul_right _ copies
  rw [Nat.add_mul,Nat.one_mul] at count
  have root := layout.root
  omega

theorem mounted_layout (buffer : Memory) (bytes : (bootSectorOf buffer).bytesPerSector ≠ 0)
    (cluster : (bootSectorOf buffer).sectorsPerCluster ≠ 0) : Layout (mounted (bootSectorOf buffer)) :=
  ⟨Nat.pos_of_ne_zero bytes,Nat.pos_of_ne_zero cluster,load_lt buffer 13 1,load_lt buffer 16 1,load_lt buffer 17 2,
    load_lt buffer 22 2,rfl,rfl,rfl⟩

theorem fdc_read_after (s : Driver) (lba count : Nat) (buffer : Memory) (offset : Nat) :
    ∃ r out j, fdcReadSectors s lba count buffer offset = (r,out,s.after j) := by
  have tracks : ∀ fuel done s buffer, ∃ r out j, fdcReadFrom s lba count done buffer offset fuel = (r,out,Driver.after s j) := by
    intro fuel
    induction fuel with
    | zero => exact fun done s buffer => ⟨0,buffer,0,rfl⟩
    | succ fuel ih =>
      intro done s buffer
      by_cases more : done < count
      · obtain ⟨n,_,_,_,ran⟩ := fdc_read_step s lba buffer offset fuel more
        rw [ran]
        split
        · exact ⟨-1,buffer,1,rfl⟩
        · obtain ⟨r,out,j,later⟩ := ih (done + n) (s.after 1) _
          rw [later,Driver.after_after]
          exact ⟨r,out,1+j,rfl⟩
      · rw [fdcReadFrom,if_neg more]
        exact ⟨0,buffer,0,rfl⟩
  exact tracks count 0 s buffer

structure Initialised (s t : Driver) (b : BootSector) : Prop where
  read : ∃ buffer, (∀ i < 512, buffer i = s.disk i) ∧ b = bootSectorOf buffer
  valid : b.bytesPerSector ≠ 0 ∧ b.sectorsPerCluster ≠ 0
  mount : t.toMount = mounted b
  disk : t.disk = s.disk
  -- with no fault the FAT sectors are in fat_buffer, up to 255 of them
  loaded : s.Clear → t.faults = s.faults ∧
    ∀ i < b.sectorsPerFat % 2^8*512, t.fatBuffer i = s.disk (b.reservedSectors*512 + i)

theorem readFatTable_spec (ran : readFatTable s = (0,t)) : t.toMount = s.toMount ∧ t.disk = s.disk ∧
    (s.Clear → t.faults = s.faults ∧ ∀ i < s.bootSector.sectorsPerFat % 2^8*512,
      t.fatBuffer i = s.disk (s.fatStartSector*512 + i)) := by
  unfold readFatTable at ran
  obtain ⟨r,out,j,loaded⟩ := fdc_read_after s s.fatStartSector (s.bootSector.sectorsPerFat % 2^8) s.fatBuffer 0
  rw [loaded] at ran
  dsimp only at ran
  split at ran
  · cases ran
  · cases ran
    refine ⟨rfl,rfl,fun clear => ?_⟩
    rw [read_sectors_clear clear] at loaded
    have same : s = s.after j := congrArg (fun t => t.2.2) loaded
    have table := congrArg (fun t => t.2.1) loaded
    dsimp only at table
    refine ⟨(congrArg Driver.faults same.symm : (s.after j).faults = s.faults),fun i bound => ?_⟩
    have inside := blit_inside s.fatBuffer (fun i => s.disk (s.fatStartSector*512 + i)) (a := 0) bound
    rw [table,Nat.zero_add] at inside
    exact inside

theorem init_spec (ran : fat12Init s = (0,t)) : ∃ b, Initialised s t b := by
  unfold fat12Init at ran
  cases state : s.faults 0 with
  | true =>
    rw [read_fault state] at ran
    cases ran
  | false =>
    obtain ⟨buffer,boot,copied⟩ := read_sector state 0
    rw [boot] at ran
    dsimp only at ran
    rw [if_neg (by decide)] at ran
    by_cases invalid : (bootSectorOf buffer).bytesPerSector = 0 ∨ (bootSectorOf buffer).sectorsPerCluster = 0
    · rw [if_pos invalid] at ran
      cases ran
    rw [if_neg invalid] at ran
    obtain ⟨mount,disk,loaded⟩ := readFatTable_spec ran
    refine ⟨bootSectorOf buffer,⟨buffer,?_,rfl⟩,not_or.mp invalid,mount,disk,?_⟩
    · intro i bound
      rw [copied i bound,Nat.zero_mul,Nat.zero_add]
    · intro clear
      obtain ⟨faults,table⟩ := loaded (fun n => clear (n+1))
      refine ⟨?_,table⟩
      rw [faults]
      exact (congrArg Driver.faults (clear.after_eq 1) : (s.after 1).faults = s.faults)

theorem Accepted.layout (accepted : Accepted v) : Layout v := by
  obtain ⟨s,t,ran,rfl⟩ := accepted
  obtain ⟨b,init⟩ := init_spec ran
  obtain ⟨buffer,_,rfl⟩ := init.read
  rw [init.mount]
  exact mounted_layout buffer init.valid.1 init.valid.2

def formatted : Memory := fun i =>
  [0,0,0,0,0,0,0,0,0,0,0,0,2,1,1,0,2,0xE0,0,0x40,0x0B,0xF0,9,0].getD i 0

theorem floppy_accepted : Accepted floppy :=
  ⟨⟨floppy,fun _ => 0,formatted,fun _ => false⟩,_,rfl,rfl⟩

def unmounted : Driver := ⟨floppy,fun _ => 0,formatted,fun _ => false⟩

end SantOS.Fat12
