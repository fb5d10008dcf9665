import SantOS.Fat12.Lookups

namespace SantOS.Fat12
open ByteMemory

theorem write_fault {s : Driver} (fault : s.faults 0 = true) (lba count offset : Nat) (buffer : Memory) :
    fdcWriteSectors s lba count buffer offset = (-1,s.after 1) := by
  rw [fdcWriteSectors,if_pos fault,called_eq]

theorem write_clear {s : Driver} (clear : s.faults 0 = false) (lba count offset : Nat) (buffer : Memory) :
    fdcWriteSectors s lba count buffer offset =
      (0,{s.after 1 with disk := blit s.disk (lba*512) (count*512) (fun i => buffer (offset+i))}) := by
  rw [fdcWriteSectors,if_neg (by rw [clear]; decide),called_eq]

theorem sector_blit_outside (m source : Memory) {lba x : Nat} (outside : x < lba*512 ∨ lba*512 + 512 ≤ x) :
    blit m (lba*512) (1*512) source x = m x := blit_outside m source (by omega)

theorem sector_blit_inside (m source : Memory) {lba i : Nat} (inside : i < 512) :
    blit m (lba*512) (1*512) source (lba*512 + i) = source i := blit_inside m source (by omega)

theorem after_faults (s : Driver) (j n : Nat) : (s.after j).faults n = s.faults (n+j) := rfl

def Driver.Clear (s : Driver) : Prop := ∀ n, s.faults n = false

theorem Driver.Clear.shift {s t : Driver} (clear : s.Clear) (faults : ∃ j, t.faults = (s.after j).faults) : t.Clear := by
  obtain ⟨j,same⟩ := faults
  intro n
  rw [same]
  exact clear (n+j)

theorem Driver.Clear.after {s : Driver} (clear : s.Clear) : (s.after j).Clear := fun n => clear (n+j)

theorem Driver.Clear.after_eq {s : Driver} (clear : s.Clear) (j : Nat) : s.after j = s := by
  have same : (fun n => s.faults (n+j)) = s.faults := by
    funext n
    rw [clear,clear]
  rw [Driver.after,same]

theorem read_tracks_clear {s : Driver} (clear : s.Clear) (lba : Nat) (buffer : Memory) (offset : Nat)
    (enough : count ≤ done + fuel) :
    fdcReadFrom s lba count done buffer offset fuel =
      (0,blit buffer (offset + done*512) ((count - done)*512) (fun i => s.disk ((lba + done)*512 + i)),s) := by
  induction fuel generalizing done buffer with
  | zero =>
    have finished : count - done = 0 := Nat.sub_eq_zero_of_le enough
    rw [fdcReadFrom,finished,Nat.zero_mul,blit_nothing]
  | succ fuel ih =>
    by_cases more : done < count
    · obtain ⟨n,positive,within,_,ran⟩ := fdc_read_step s lba buffer offset fuel more
      rw [ran,if_neg (by rw [clear]; decide),clear.after_eq,ih _ (by omega)]
      rw [blit_append buffer (by omega) (by omega : (count - done)*512 = n*512 + (count - (done + n))*512)]
      intro i
      exact congrArg s.disk (by omega)
    · rw [fdcReadFrom,if_neg more,Nat.sub_eq_zero_of_le (Nat.le_of_not_lt more),Nat.zero_mul,blit_nothing]

theorem read_sectors_clear {s : Driver} (clear : s.Clear) (lba count : Nat) (buffer : Memory) (offset : Nat) :
    fdcReadSectors s lba count buffer offset = (0,blit buffer offset (count*512) (fun i => s.disk (lba*512 + i)),s) := by
  have ran := read_tracks_clear clear lba buffer offset (show count ≤ 0 + count from Nat.le_of_eq (Nat.zero_add count).symm)
  rw [Nat.zero_mul,Nat.add_zero,Nat.add_zero,Nat.sub_zero] at ran
  exact ran

theorem shift_trans {s t u : Driver} (one : ∃ j, t.faults = (s.after j).faults) (two : ∃ j, u.faults = (t.after j).faults) :
    ∃ j, u.faults = (s.after j).faults := by
  obtain ⟨i,first⟩ := one
  obtain ⟨j,second⟩ := two
  refine ⟨j+i,?_⟩
  funext n
  rw [second,after_faults,first,after_faults,after_faults,Nat.add_assoc]

structure FatWritten (s : Driver) (i left : Nat) (r : Int) (t : Driver) : Prop where
  mount : t.toMount = s.toMount
  buffer : t.fatBuffer = s.fatBuffer
  outside : ∀ x, (x < s.fatByte + 512*i ∨ s.fatByte + 512*(i+left) ≤ x) → t.disk x = s.disk x
  result : (r = 0 ∧ (∀ n < left, s.faults n = false) ∧ t.faults = (s.after left).faults ∧
      ∀ x, 512*i ≤ x → x < 512*(i+left) → t.disk (s.fatByte + x) = s.fatBuffer x) ∨
    (r = -1 ∧ ∃ n < left, s.faults n = true ∧ (∀ m < n, s.faults m = false) ∧ t.faults = (s.after (n+1)).faults)

structure SectorStored (s : Driver) (i : Nat) (u : Driver) : Prop where
  mount : u.toMount = s.toMount
  buffer : u.fatBuffer = s.fatBuffer
  faults : u.faults = (s.after 1).faults
  away : ∀ x, (x < s.fatByte + 512*i ∨ s.fatByte + 512*(i+1) ≤ x) → u.disk x = s.disk x
  here : ∀ x < 512, u.disk (s.fatByte + 512*i + x) = s.fatBuffer (512*i + x)

set_option maxRecDepth 2000 in
theorem sector_stored (s : Driver) (i : Nat) :
    SectorStored s i {s.after 1 with disk := blit s.disk ((s.fatStartSector + i)*512) (1*512) (fun o => s.fatBuffer (i*512+o))} := by
  have first : (s.fatStartSector + i)*512 = s.fatByte + 512*i := by unfold Mount.fatByte; omega
  refine ⟨rfl,rfl,rfl,?_,?_⟩
  · intro x outside
    exact sector_blit_outside s.disk (fun o => s.fatBuffer (i*512+o)) (by rw [first]; omega)
  · intro x bound
    rw [← first,Nat.mul_comm 512 i]
    exact sector_blit_inside s.disk (fun o => s.fatBuffer (i*512+o)) bound

set_option maxRecDepth 2000 in
theorem SectorStored.cons {s u : Driver} (stored : SectorStored s i u) (state : s.faults 0 = false)
    (rest : FatWritten u (i+1) left r t) : FatWritten s i (left+1) r t := by
  have start : u.fatByte = s.fatByte := congrArg Mount.fatByte stored.mount
  have faults := stored.faults
  refine ⟨rest.mount.trans stored.mount,rest.buffer.trans stored.buffer,?_,?_⟩
  · intro x outside
    rw [rest.outside x (by rw [start]; omega),stored.away x (by omega)]
  · rcases rest.result with ⟨zero,clear,shift,copied⟩ | ⟨failed,n,bound,fault,clear,shift⟩
    · refine .inl ⟨zero,?_,?_,?_⟩
      · intro n bound
        cases n with
        | zero => exact state
        | succ n =>
          have later := clear n (by omega)
          rw [faults] at later
          exact later
      · rw [shift]
        funext n
        simp only [after_faults,faults]
        rw [Nat.add_assoc]
      · intro x low high
        by_cases now : x < 512*(i+1)
        · rw [rest.outside _ (by rw [start]; omega)]
          have atX := stored.here (x - 512*i) (by omega)
          rw [Nat.add_assoc,Nat.add_sub_of_le low] at atX
          exact atX
        · have later := copied x (by omega) (by omega)
          rw [start,stored.buffer] at later
          exact later
    · refine .inr ⟨failed,n+1,by omega,?_,?_,?_⟩
      · rw [faults] at fault
        exact fault
      · intro m bound
        cases m with
        | zero => exact state
        | succ m =>
          have earlier := clear m (by omega)
          rw [faults] at earlier
          exact earlier
      · rw [shift]
        funext m
        simp only [after_faults,faults]
        rw [Nat.add_assoc]

theorem writeFatFrom_spec (s : Driver) (i left : Nat) :
    FatWritten s i left (writeFatFrom s i left).1 (writeFatFrom s i left).2 := by
  induction left generalizing s i with
  | zero => exact ⟨rfl,rfl,fun _ _ => rfl,.inl ⟨rfl,fun n bound => by omega,rfl,fun x low high => by omega⟩⟩
  | succ left ih =>
    rw [writeFatFrom]
    cases state : s.faults 0 with
    | true =>
      rw [write_fault state]
      refine ⟨rfl,rfl,fun _ _ => rfl,.inr ⟨rfl,0,Nat.succ_pos _,state,fun m bound => by omega,rfl⟩⟩
    | false =>
      rw [write_clear state]
      exact (sector_stored s i).cons state (ih _ (i+1))

theorem writeFatTable_spec (s : Driver) :
    FatWritten s 0 s.bootSector.sectorsPerFat (writeFatTable s).1 (writeFatTable s).2 := writeFatFrom_spec s 0 _

theorem FatWritten.above (written : FatWritten s 0 s.bootSector.sectorsPerFat r t) (shape : Geometry s.toMount)
    (low : s.rootByte ≤ x) : t.disk x = s.disk x := by
  have before := shape.fat_before_root
  exact written.outside x (.inr (by omega))

-- The first FAT on the disk is the one in memory.
def Synced (s : Driver) : Prop :=
  ∀ i < s.bootSector.sectorsPerFat*512, s.disk (s.fatByte + i) = s.fatBuffer i

structure TableSaved (s : Driver) (m : Memory) (r : Int) (v : Driver) : Prop where
  mount : v.toMount = s.toMount
  table : v.fatBuffer = m
  disk : ∀ x, s.rootByte ≤ x → v.disk x = s.disk x
  result : (r = 0 ∧ Synced v ∧ (∀ n < s.bootSector.sectorsPerFat, s.faults n = false) ∧
      v.faults = (s.after s.bootSector.sectorsPerFat).faults) ∨
    (r = -1 ∧ ∃ n < s.bootSector.sectorsPerFat, s.faults n = true ∧ v.faults = (s.after (n+1)).faults)

theorem save_table {s : Driver} (shape : Geometry s.toMount) (m : Memory) :
    TableSaved s m (writeFatTable {s with fatBuffer := m}).1 (writeFatTable {s with fatBuffer := m}).2 := by
  have written := writeFatTable_spec {s with fatBuffer := m}
  generalize writeFatTable {s with fatBuffer := m} = outcome at written
  obtain ⟨r,v⟩ := outcome
  have mount : v.toMount = s.toMount := written.mount
  have table : v.fatBuffer = m := written.buffer
  have image := written.result
  have disk : ∀ x, s.rootByte ≤ x → v.disk x = s.disk x := fun x low => written.above shape low
  clear written
  refine ⟨mount,table,disk,?_⟩
  rcases image with ⟨zero,clear,shift,copied⟩ | ⟨failed,n,bound,fault,_,shift⟩
  · refine .inl ⟨zero,?_,clear,shift⟩
    intro i bound
    have inside : i < s.bootSector.sectorsPerFat*512 := by rw [← mount]; exact bound
    have atI := copied i (Nat.zero_le _) (show i < 512*(0 + s.bootSector.sectorsPerFat) by omega)
    rw [mount,table]
    exact atI
  · exact .inr ⟨failed,n,bound,fault,shift⟩

theorem write_slot {s : Driver} {buffer edited : Memory} {k : Nat} (clear : s.faults 0 = false)
    (copied : ∀ i < 512, buffer i = s.disk (s.rootByte + k/16*512 + i))
    (kept : ∀ i < 512, (i < k%16*32 ∨ k%16*32 + 32 ≤ i) → edited i = buffer i) :
    ∃ d, fdcWriteSectors s (s.rootDirStartSector + k/16) 1 edited 0 = (0,{s.after 1 with disk := d}) ∧
      (∀ x, (x < s.slot k ∨ s.slot k + 32 ≤ x) → d x = s.disk x) ∧
      ∀ i < 32, d (s.slot k + i) = edited (k%16*32 + i) := by
  have place : s.slot k = s.rootByte + k/16*512 + k%16*32 := by unfold Mount.slot; omega
  have sector : (s.rootDirStartSector + k/16)*512 = s.rootByte + k/16*512 := by unfold Mount.rootByte; omega
  have inside : ∀ i < 512, blit s.disk ((s.rootDirStartSector + k/16)*512) (1*512) (fun i => edited (0+i))
      (s.rootByte + k/16*512 + i) = edited i := by
    intro i bound
    rw [← sector,sector_blit_inside _ _ bound,Nat.zero_add]
  refine ⟨_,write_clear clear _ _ _ _,?_,?_⟩
  · intro x outside
    by_cases within : s.rootByte + k/16*512 ≤ x ∧ x < s.rootByte + k/16*512 + 512
    · have atX := inside (x - (s.rootByte + k/16*512)) (by omega)
      have same := copied (x - (s.rootByte + k/16*512)) (by omega)
      rw [Nat.add_sub_of_le within.1] at atX same
      rw [atX,kept _ (by omega) (by omega),same]
    · exact sector_blit_outside _ _ (by rw [sector]; omega)
  · intro i bound
    rw [place,Nat.add_assoc]
    exact inside _ (by omega)

-- A slot edited after a table was saved: the sector was read in s, the write happens in v.
inductive SlotEdited (s v : Driver) (k : Nat) (edited : Memory) : Int × Driver → Prop where
  | done (t : Driver) (mount : t.toMount = v.toMount) (table : t.fatBuffer = v.fatBuffer)
      (outside : ∀ x, s.rootByte ≤ x → (x < s.slot k ∨ s.slot k + 32 ≤ x) → t.disk x = s.disk x)
      (entry : ∀ i < 32, t.disk (s.slot k + i) = edited (k%16*32 + i)) (synced : Synced v → Synced t)
      (clear : v.faults 0 = false) (faults : t.faults = (v.after 1).faults) : SlotEdited s v k edited (0,t)
  | error (fault : v.faults 0 = true) : SlotEdited s v k edited (-1,v.after 1)

theorem edit_slot {s v : Driver} {buffer edited : Memory} {k : Nat} (shape : Geometry s.toMount)
    (mount : v.toMount = s.toMount) (disk : ∀ x, s.rootByte ≤ x → v.disk x = s.disk x)
    (copied : ∀ i < 512, buffer i = s.disk (s.rootByte + k/16*512 + i))
    (kept : ∀ i < 512, (i < k%16*32 ∨ k%16*32 + 32 ≤ i) → edited i = buffer i) :
    SlotEdited s v k edited (fdcWriteSectors v (v.rootDirStartSector + k/16) 1 edited 0) := by
  cases state : v.faults 0 with
  | true =>
    rw [write_fault state]
    exact .error state
  | false =>
    have now : ∀ i < 512, buffer i = v.disk (v.rootByte + k/16*512 + i) := by
      intro i bound
      rw [mount,disk _ (by omega)]
      exact copied i bound
    obtain ⟨d,ran,outside,entry⟩ := write_slot state now kept
    rw [mount] at outside entry
    rw [ran]
    have low : s.rootByte ≤ s.slot k := by unfold Mount.slot; omega
    refine .done _ rfl rfl ?_ entry ?_ state rfl
    · intro x high away
      exact (outside x away).trans (disk x high)
    · intro synced i bound
      have under := shape.fat_before_root
      have inside : i < s.bootSector.sectorsPerFat*512 := by rw [← mount]; exact bound
      refine (outside (v.fatByte + i) (.inl ?_)).trans (synced i bound)
      rw [mount]
      omega

theorem minus_one : (-1 : Int) ≠ 0 := by decide

inductive Opened (s : Driver) (f : List UInt8) (file : File) : Int × File × Driver → Prop where
  | found (k : Nat) (h : File) (resolves : Resolves s (name83 f) k) (clear : ∀ i ≤ k/16, s.faults i = false)
      (size : h.size = fileSize s.disk (s.slot k)) (first : h.firstCluster = firstClusterLow s.disk (s.slot k)) :
      Opened s f file (0,h,s.after (k/16+1))
  | missing (j : Nat) (le : j ≤ s.rootSectors) (absent : ∀ k, ¬ Resolves s (name83 f) k) :
      Opened s f file (-1,file,s.after j)
  | error (j : Nat) (lt : j < s.rootSectors) (fault : s.faults j = true)
      (late : ∀ k, Resolves s (name83 f) k → j ≤ k/16) : Opened s f file (-1,file,s.after (j+1))

theorem copied_entry {s : Driver} {buffer : Memory} {k : Nat}
    (copied : ∀ i < 512, buffer i = s.disk (s.rootByte + k/16*512 + i)) :
    ∀ i < 32, buffer (k%16*32 + i) = s.disk (s.slot k + i) := by
  intro i bound
  have place : s.rootByte + k/16*512 + (k%16*32 + i) = s.slot k + i := by unfold Mount.slot; omega
  rw [copied _ (by omega),place]

theorem fileSize_shift {m m' : Memory} {a a' : Nat} (same : ∀ i < 32, m (a+i) = m' (a'+i)) :
    fileSize m a = fileSize m' a' := by
  apply load_congr
  intro i bound
  rw [Nat.add_assoc,Nat.add_assoc]
  exact same (28+i) (by omega)

theorem firstCluster_shift {m m' : Memory} {a a' : Nat} (same : ∀ i < 32, m (a+i) = m' (a'+i)) :
    firstClusterLow m a = firstClusterLow m' a' := by
  apply load_congr
  intro i bound
  rw [Nat.add_assoc,Nat.add_assoc]
  exact same (26+i) (by omega)

theorem not_resolves {s : Driver} {name : List UInt8}
    (unmatched : ∀ k < 16*s.rootSectors, editProbe name s.disk (s.slot k) = .hit →
      ∃ i < k, editProbe name s.disk (s.slot i) = .stop) (k : Nat) : ¬ Resolves s name k := by
  intro resolves
  obtain ⟨i,before,stop⟩ := unmatched k resolves.inside resolves.hit
  rw [resolves.before i before] at stop
  cases stop

theorem resolves_late {s : Driver} {name : List UInt8} (before : ∀ k < 16*j, editProbe name s.disk (s.slot k) = .skip)
    (resolves : Resolves s name k) : j ≤ k/16 := by
  by_contra early
  have skipped := before k (by omega)
  rw [resolves.hit] at skipped
  cases skipped

theorem open_spec {s : Driver} (undeleted : Undeleted s f) (file : File) : Opened s f file (fat12Open s f file) := by
  have scanned := scanRoot_spec (openProbe_local (name83 f)) s s.rootSectors
  rw [fat12Open]
  generalize scanRoot (openProbe (name83 f)) s 0 s.rootSectors = outcome at scanned
  cases scanned with
  | found k buffer inside hit before copied clear =>
    obtain ⟨nonzero,same⟩ := openProbe_hit.mp hit
    have unmarked : ∀ j < k, s.disk (s.slot j) ≠ 0 := by
      intro j less zero
      have skipped := before j less
      rw [openProbe_stop.mpr zero] at skipped
      cases skipped
    have live : Live s.disk (s.slot k) := ⟨nonzero,undeleted k inside unmarked same⟩
    have resolves : Resolves s (name83 f) k :=
      ⟨inside,editProbe_hit.mpr ⟨live,same⟩,fun j less => editProbe_skip (before j less)⟩
    exact .found k _ resolves clear (fileSize_shift (copied_entry copied)) (firstCluster_shift (copied_entry copied))
  | missing j le clear unmatched =>
    refine .missing j le (not_resolves ?_)
    intro k inside hit
    obtain ⟨live,same⟩ := editProbe_hit.mp hit
    obtain ⟨i,less,stop⟩ := unmatched k inside (openProbe_hit.mpr ⟨live.1,same⟩)
    exact ⟨i,less,editProbe_stop.mpr (openProbe_stop.mp stop)⟩
  | error j lt fault before =>
    exact .error j lt fault (fun k => resolves_late (fun i bound => editProbe_skip (before i bound)))

inductive Resized (s : Driver) (f : List UInt8) (newSize : Nat) : Int × Driver → Prop where
  | done (k : Nat) (t : Driver) (resolves : Resolves s (name83 f) k) (mount : t.toMount = s.toMount)
      (table : t.fatBuffer = s.fatBuffer)
      (outside : ∀ x, s.rootByte ≤ x → (x < s.slot k + 28 ∨ s.slot k + 32 ≤ x) → t.disk x = s.disk x)
      (size : fileSize t.disk (s.slot k) = newSize % 2^32) (synced : Synced s → Synced t)
      (faults : t.faults = (s.after (k/16+2)).faults) : Resized s f newSize (0,t)
  | missing (j : Nat) (absent : ∀ k, ¬ Resolves s (name83 f) k) : Resized s f newSize (-1,s.after j)
  | error (n j : Nat) (fault : s.faults n = true) : Resized s f newSize (-1,s.after j)

theorem updateSize_spec {s : Driver} (shape : Geometry s.toMount) (f : List UInt8) (newSize : Nat) :
    Resized s f newSize (fat12UpdateSize s f newSize) := by
  have scanned := scanRoot_spec (editProbe_local (name83 f)) s s.rootSectors
  rw [fat12UpdateSize]
  generalize scanRoot (editProbe (name83 f)) s 0 s.rootSectors = outcome at scanned
  cases scanned with
  | missing j le clear unmatched => exact .missing j (not_resolves unmatched)
  | error j lt fault before => exact .error _ _ fault
  | found k buffer inside hit before copied clear =>
    have kept : ∀ i < 512, (i < k%16*32 ∨ k%16*32 + 32 ≤ i) → store buffer (k%16*32+28) 4 newSize i = buffer i :=
      fun i _ outside => store_outside _ (by omega)
    have edited := edit_slot (v := s.after (k/16+1)) shape rfl (fun _ _ => rfl) copied kept
    dsimp only
    generalize fdcWriteSectors (s.after (k/16+1)) _ _ _ _ = outcome at edited ⊢
    cases edited with
    | error fault =>
      rw [if_pos minus_one,Driver.after_after]
      exact .error (0+(k/16+1)) _ fault
    | done t mount table outside entry synced clear faults =>
      rw [Driver.after_after] at faults
      refine .done k t ⟨inside,hit,before⟩ mount table ?_ ?_ synced faults
      · intro x low away
        by_cases slot : s.slot k ≤ x ∧ x < s.slot k + 32
        · have atX := entry (x - s.slot k) (by omega)
          have beforeX := copied_entry copied (x - s.slot k) (by omega)
          rw [Nat.add_sub_of_le slot.1] at atX beforeX
          rw [atX,store_outside _ (by omega),beforeX]
        · exact outside x low (by omega)
      · rw [fileSize_shift entry]
        exact load_store_same _ _ _ _

end SantOS.Fat12
