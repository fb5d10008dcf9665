import SantOS.Fat12.Mounting
import SantOS.Fat12.Histories

namespace SantOS.Fat12
open ByteMemory Runs

def Mount.copyByte (v : Mount) (k i : Nat) : Nat := (v.fatStartSector + k*v.bootSector.sectorsPerFat)*512 + i

-- The file calls, with whatever handle and data they are given. A write or delete that
-- does not come back leaves no state.
inductive FileCall where
  | create (f : List UInt8) (file : File)
  | write (file : File) (buffer : Memory) (size : Nat)
  | delete (f : List UInt8)

inductive FileCalled (s : Driver) : FileCall → Driver → Prop where
  | create (f : List UInt8) (file h : File) (r : Int) (t : Driver) (ran : fat12Create s f file = (r,h,t)) : FileCalled s (.create f file) t
  | write (file : File) (buffer : Memory) (size : Nat) (r : Int) (t : Driver) (ran : fat12Write s file buffer size = some (r,t)) :
      FileCalled s (.write file buffer size) t
  | delete (f : List UInt8) (r : Int) (t : Driver) (ran : fat12Delete s f = some (r,t)) : FileCalled s (.delete f) t

theorem file_called_create (s : Driver) (f : List UInt8) (file : File) :
    FileCalled s (.create f file) (fat12Create s f file).2.2 :=
  .create f file _ _ _ rfl

structure Aside (s t : Driver) : Prop where
  mount : t.toMount = s.toMount
  table : t.fatBuffer = s.fatBuffer
  clear : t.Clear
  below : ∀ x < s.rootByte, t.disk x = s.disk x

theorem sector_aside {s : Driver} (clear : s.Clear) (above : s.rootDirStartSector ≤ lba) (buffer : Memory) (offset : Nat) :
    ∃ t, fdcWriteSectors s lba 1 buffer offset = (0,t) ∧ Aside s t := by
  refine ⟨_,write_clear (clear 0) lba 1 offset buffer,rfl,rfl,clear.after,?_⟩
  intro x less
  show blit s.disk (lba*512) (1*512) (fun i => buffer (offset+i)) x = s.disk x
  have start : s.rootByte ≤ lba*512 := by
    unfold Mount.rootByte
    exact Nat.mul_le_mul_right 512 above
  exact sector_blit_outside _ _ (.inl (by omega))

theorem cluster_aside {s : Driver} (clear : s.Clear) (above : s.rootDirStartSector ≤ sector) (buffer : Memory)
    (le : w ≤ size) (left : Nat) :
    ∃ w' t, writeCluster s buffer size sector 0 w left = (0,w',t) ∧ w' ≤ size ∧ Aside s t := by
  have wrote := writeCluster_spec s buffer size sector 0 w left le
  generalize writeCluster s buffer size sector 0 w left = outcome at wrote
  obtain ⟨r,w',t⟩ := outcome
  have result := wrote.result
  rcases result with ⟨_,unclear⟩ | ⟨zero,count,_⟩
  · exact absurd clear unclear
  · refine ⟨w',t,?_,?_,wrote.mount,wrote.table,clear.shift wrote.faults,?_⟩
    · exact congrArg (fun r => (r,w',t)) zero
    · have count : w' = min size (w + 512*left) := count
      omega
    · intro x less
      refine wrote.outside x (.inl (Nat.lt_of_lt_of_le less ?_))
      unfold Mount.rootByte
      omega

-- The first FAT copy is the table in memory and the others are those of v.
structure Mirrored (v s : Driver) : Prop where
  mount : s.toMount = v.toMount
  clear : s.Clear
  synced : Synced s
  others : ∀ x, v.fatByte + v.bootSector.sectorsPerFat*512 ≤ x → x < v.rootByte → s.disk x = v.disk x

section
variable {v s t : Driver}

theorem Mirrored.aside (mirrored : Mirrored v s) (first : v.fatByte + v.bootSector.sectorsPerFat*512 ≤ v.rootByte)
    (aside : Aside s t) :
    Mirrored v t := by
  have mount := aside.mount.trans mirrored.mount
  have below := aside.below
  rw [mirrored.mount] at below
  refine ⟨mount,aside.clear,?_,?_⟩
  · intro i bound
    have inside : i < v.bootSector.sectorsPerFat*512 := by rwa [mount] at bound
    have before := mirrored.synced i (by rw [mirrored.mount]; exact inside)
    rw [mirrored.mount] at before
    rw [mount,aside.table,below _ (by omega)]
    exact before
  · intro x low high
    exact (below x high).trans (mirrored.others x low high)

theorem Mirrored.flush (mirrored : Mirrored v s) (m : Memory) :
    ∃ t, writeFatTable {s with fatBuffer := m} = (0,t) ∧ Mirrored v t := by
  have written := writeFatTable_spec {s with fatBuffer := m}
  generalize writeFatTable {s with fatBuffer := m} = outcome at written
  obtain ⟨r,t⟩ := outcome
  have mount : t.toMount = v.toMount := written.mount.trans mirrored.mount
  have outside := written.outside
  rcases written.result with ⟨rfl,_,shift,copied⟩ | ⟨_,n,_,fault,_⟩
  · refine ⟨t,rfl,mount,?_,?_,?_⟩
    · exact mirrored.clear.shift ⟨_,shift⟩
    · intro i bound
      have table : t.fatBuffer = m := written.buffer
      have inside : i < s.bootSector.sectorsPerFat*512 := by rwa [mount,← mirrored.mount] at bound
      have atI := copied i (Nat.zero_le _) (by show i < 512*(0 + s.bootSector.sectorsPerFat); omega)
      rw [mount,table,← mirrored.mount]
      exact atI
    · intro x low high
      refine (outside x (.inr ?_)).trans (mirrored.others x low high)
      have start : ({s with fatBuffer := m} : Driver).toMount = v.toMount := mirrored.mount
      rw [start]
      omega
  · cases fault.symm.trans (mirrored.clear n)

theorem scan_clear {probe : Memory → Nat → Probe} (here : Local probe) (clear : s.Clear) :
    (∃ sector idx buffer, scanRoot probe s 0 s.rootSectors = (.found sector idx buffer,s)) ∨
      scanRoot probe s 0 s.rootSectors = (.missing,s) := by
  have scanned := scanRoot_spec here s s.rootSectors
  generalize scanRoot probe s 0 s.rootSectors = outcome at scanned
  cases scanned with
  | found k buffer =>
    rw [clear.after_eq]
    exact .inl ⟨_,_,buffer,rfl⟩
  | missing j =>
    rw [clear.after_eq]
    exact .inr rfl
  | error j lt fault => cases fault.symm.trans (clear j)

theorem Mirrored.create (mirrored : Mirrored v s) (first : v.fatByte + v.bootSector.sectorsPerFat*512 ≤ v.rootByte)
    (f : List UInt8) (file : File) : Mirrored v (fat12Create s f file).2.2 := by
  rw [fat12Create]
  rcases scan_clear createProbe_local mirrored.clear with ⟨sector,idx,buffer,ran⟩ | ran
  · rw [ran]
    dsimp only
    split
    · exact mirrored
    · obtain ⟨u,flushed,next⟩ := mirrored.flush (setFatEntry s.fatBuffer (findFreeCluster s.fatBuffer) 0xFFF)
      rw [flushed]
      dsimp only
      rw [if_neg (by decide)]
      obtain ⟨t,wrote,aside⟩ := sector_aside next.clear (Nat.le_add_right u.rootDirStartSector sector)
        (newEntry buffer (idx*32) (name83 f) (findFreeCluster s.fatBuffer)) 0
      rw [wrote]
      exact next.aside first aside
  · rw [ran]
    exact mirrored

theorem Mirrored.delete (mirrored : Mirrored v s) (first : v.fatByte + v.bootSector.sectorsPerFat*512 ≤ v.rootByte)
    (ran : fat12Delete s f = some (r,t)) : Mirrored v t := by
  rw [fat12Delete] at ran
  rcases scan_clear (editProbe_local (name83 f)) mirrored.clear with ⟨sector,idx,buffer,found⟩ | missing
  · rw [found] at ran
    dsimp only at ran
    split at ran
    · cases ran
    · rename_i freed _
      obtain ⟨u,flushed,next⟩ := mirrored.flush freed
      rw [flushed] at ran
      dsimp only at ran
      rw [if_neg (by decide)] at ran
      obtain ⟨w,wrote,aside⟩ := sector_aside next.clear (Nat.le_add_right u.rootDirStartSector sector)
        (Function.update buffer (idx*32) 0xE5) 0
      rw [wrote] at ran
      cases ran
      exact next.aside first aside
  · rw [missing] at ran
    cases ran
    exact mirrored

theorem Mirrored.writeFrom (mirrored : Mirrored v s) (layout : Layout v.toMount)
    (first : v.fatByte + v.bootSector.sectorsPerFat*512 ≤ v.rootByte) (le : w ≤ size)
    (ran : writeFrom s buffer size w c fuel = some (r,t)) : Mirrored v t := by
  have stored : ∀ u b c, b ≤ size → Mirrored v u →
      Mirrored v (writeCluster u buffer size (u.clusterSector c) 0 b u.bootSector.sectorsPerCluster).2.2 := by
    intro u b c le before
    have above : u.rootDirStartSector ≤ u.clusterSector c := by
      have data := layout.root_before_data
      rw [before.mount]
      unfold Mount.clusterSector
      omega
    obtain ⟨w',x,wrote,_,aside⟩ := cluster_aside before.clear above buffer le u.bootSector.sectorsPerCluster
    rw [wrote]
    exact before.aside first aside
  refine writeFrom_preserves (Mirrored v) stored ?_ le (fun _ => mirrored) (fun _ => stored s w c le mirrored) ran
  intro u c before _ _
  obtain ⟨x,flushed,linked⟩ := before.flush (setFatEntry (setFatEntry u.fatBuffer c (findFreeCluster u.fatBuffer))
    (findFreeCluster u.fatBuffer) 0xFFF)
  rw [flushed]
  exact linked

theorem Mirrored.called (mirrored : Mirrored v s) (layout : Layout v.toMount)
    (first : v.fatByte + v.bootSector.sectorsPerFat*512 ≤ v.rootByte) (call : FileCalled s op t) : Mirrored v t := by
  cases call with
  | create f file h r t ran =>
    have created := mirrored.create first f file
    rw [ran] at created
    exact created
  | write file buffer size r t ran => exact mirrored.writeFrom layout first (Nat.zero_le size) ran
  | delete f r t ran => exact mirrored.delete first ran

end

-- The driver keeps the first FAT copy on the disk equal to the one in memory and leaves the
-- other copies as they were. fat_buffer takes 9 sectors.
theorem first_copy_kept (clear : s.Clear) (accepted : fat12Init s = (0,v)) (buffered : v.bootSector.sectorsPerFat ≤ 9)
    (history : Run FileCalled v calls t) :
    ∀ k < v.bootSector.numFats, ∀ i < v.bootSector.sectorsPerFat*512,
      t.disk (v.copyByte k i) = if k = 0 then t.fatBuffer i else s.disk (v.copyByte k i) := by
  intro k copies i bound
  have layout : Layout v.toMount := Accepted.layout ⟨s,v,accepted,rfl⟩
  obtain ⟨b,init⟩ := init_spec accepted
  obtain ⟨faults,loaded⟩ := init.loaded clear
  have fields : v.bootSector = b := congrArg Mount.bootSector init.mount
  have start : v.fatByte = b.reservedSectors*512 := by rw [init.mount,Mount.fatByte]; rfl
  have first : v.fatByte + v.bootSector.sectorsPerFat*512 ≤ v.rootByte := by
    have room := layout.copy_before_root (Nat.zero_lt_of_lt copies)
    unfold Mount.fatByte Mount.rootByte
    omega
  have mirrored : Mirrored v v := by
    refine ⟨rfl,fun n => (congrFun faults n).trans (clear n),?_,fun _ _ _ => rfl⟩
    intro j inside
    rw [start,init.disk]
    rw [fields] at inside buffered
    exact (loaded j (by rw [Nat.mod_eq_of_lt (by omega)]; exact inside)).symm
  have kept : Mirrored v t := history.invariant (fun _ _ _ before call => before.called layout first call) mirrored
  have place : v.copyByte k i = v.fatByte + k*v.bootSector.sectorsPerFat*512 + i := by
    unfold Mount.copyByte Mount.fatByte
    rw [Nat.add_mul]
  rw [place]
  by_cases zero : k = 0
  · have synced := kept.synced i (by rw [kept.mount]; exact bound)
    rw [kept.mount] at synced
    rw [if_pos zero,zero,Nat.zero_mul,Nat.zero_mul,Nat.add_zero]
    exact synced
  · have behind : 1*v.bootSector.sectorsPerFat ≤ k*v.bootSector.sectorsPerFat :=
      Nat.mul_le_mul_right _ (Nat.pos_of_ne_zero zero)
    have below : v.fatByte + k*v.bootSector.sectorsPerFat*512 + v.bootSector.sectorsPerFat*512 ≤ v.rootByte := by
      have room := layout.copy_before_root copies
      unfold Mount.fatByte Mount.rootByte
      omega
    rw [if_neg zero,kept.others _ (by omega) (by omega),init.disk]

theorem formatted_behind (far : 512 ≤ a) : formatted a = 0 := by
  unfold formatted
  exact List.getD_eq_default _ _ (Nat.le_trans (by decide) far)

theorem second_copy_stale : (∀ i < 9*512, unmounted.disk (floppy.copyByte 0 i) = unmounted.disk (floppy.copyByte 1 i)) ∧
    Run FileCalled (fat12Init unmounted).2 [.create [0x41] .fresh] (fat12Create (fat12Init unmounted).2 [0x41] .fresh).2.2 ∧
    (fat12Create (fat12Init unmounted).2 [0x41] .fresh).2.2.disk (floppy.copyByte 1 3) ≠
      (fat12Create (fat12Init unmounted).2 [0x41] .fresh).2.2.fatBuffer 3 := by
  refine ⟨?_,.single (file_called_create _ _ _),by decide +kernel⟩
  have behind : ∀ a, 512 ≤ a → unmounted.disk a = 0 := fun a far => formatted_behind far
  intro i bound
  have place : ∀ k, floppy.copyByte k i = (1 + k*9)*512 + i := fun k => rfl
  rw [behind _ (by rw [place]; omega),behind _ (by rw [place]; omega)]

theorem first_copy_kept_one_file :
    (fat12Create (fat12Init unmounted).2 [0x41] .fresh).2.2.disk (floppy.copyByte 0 3) =
      (fat12Create (fat12Init unmounted).2 [0x41] .fresh).2.2.fatBuffer 3 ∧
    (fat12Create (fat12Init unmounted).2 [0x41] .fresh).2.2.disk (floppy.copyByte 1 3) = unmounted.disk (floppy.copyByte 1 3) := by
  have result : (fat12Init unmounted).1 = 0 := by decide +kernel
  have accepted : fat12Init unmounted = (0,(fat12Init unmounted).2) := Prod.ext result rfl
  have buffered : (fat12Init unmounted).2.bootSector.sectorsPerFat ≤ 9 := by decide +kernel
  have kept := first_copy_kept (s := unmounted) (fun _ => rfl) accepted buffered (.single (file_called_create _ [0x41] .fresh))
  have fats : (fat12Init unmounted).2.bootSector.numFats = 2 := by decide +kernel
  have sectors : (fat12Init unmounted).2.bootSector.sectorsPerFat = 9 := by decide +kernel
  have start : (fat12Init unmounted).2.fatStartSector = 1 := by decide +kernel
  have place : ∀ k i, (fat12Init unmounted).2.copyByte k i = floppy.copyByte k i := by
    intro k i
    rw [Mount.copyByte,sectors,start]
    rfl
  have both : ∀ k < 2, (fat12Create (fat12Init unmounted).2 [0x41] .fresh).2.2.disk (floppy.copyByte k 3) =
      if k = 0 then (fat12Create (fat12Init unmounted).2 [0x41] .fresh).2.2.fatBuffer 3 else unmounted.disk (floppy.copyByte k 3) := by
    intro k copies
    rw [← place]
    exact kept k (by rw [fats]; exact copies) 3 (by rw [sectors]; decide)
  exact ⟨both 0 (by decide),both 1 (by decide)⟩

end SantOS.Fat12
