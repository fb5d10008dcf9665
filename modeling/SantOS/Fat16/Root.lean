import SantOS.Fat16.Driver
import SantOS.Fat32.Listings

namespace SantOS.Fat16
open ByteMemory Ata
open Fat12 hiding File name83
open Fat32

theorem bootSector_copied (disk stack : Memory) : Fat16.bootSectorOf (blit stack 0 512 disk) = Fat16.bootSectorOf disk := by
  have label : (List.range 8).map (fun k => blit stack 0 512 disk (54+k)) = (List.range 8).map (fun k => disk (54+k)) :=
    List.map_congr_left (fun k inside => boot_byte disk stack (by rw [List.mem_range] at inside; omega))
  unfold Fat16.bootSectorOf
  rw [boot_word _ _ (by decide),boot_word _ _ (by decide),boot_word _ _ (by decide),boot_word _ _ (by decide),
    boot_byte _ _ (by decide),boot_byte _ _ (by decide),label]

-- A drive with a FAT boot sector is mounted by it, unless that has 0 bytes per sector.
theorem fat16Init_mounts {σ : Type} {ports : Ports σ} {view : σ → Drive} {s : σ} {capacity : Nat} {disk : Memory}
    (serves : Serves ports view) (rests : Rests (view s) capacity disk) (some_ : 0 < capacity)
    (readyNow : ready (ports.inb ataPrimaryStatus s).1 = true)
    (shows : ∀ u, ¬ (view u).phase.Transfers → (ports.inb ataPrimaryStatus u).1 ≠ 0x00) (stack : Memory) (v : Fat16.Volume) :
    ∃ t u w, ports.ataDetect s = (1,t) ∧ ports.ataInit t = (0,u) ∧ Rests (view w) capacity disk ∧
      fat16Init ports stack v u =
        if (Fat16.bootSectorOf disk).fsType.take 3 ≠ [0x46,0x41,0x54] then some (-1,{v with bootSector := Fat16.bootSectorOf disk},w)
        else if (Fat16.bootSectorOf disk).bytesPerSector = 0 then none
        else some (0,.mount (Fat16.bootSectorOf disk),w) := by
  obtain ⟨t,u,w,detected,setUp,after,read⟩ := bootSector_read serves rests some_ readyNow shows stack
  refine ⟨t,u,w,detected,setUp,after,?_⟩
  rw [fat16Init,read]
  dsimp only
  rw [if_neg (by decide),Fat16.bootSector_copied]

def seenSlots (sector : UInt32) (k : Nat) : List Nat :=
  (List.range k).flatMap (fun i => sectorSlots (lba28 (sector + UInt32.ofNat i)) 1)

-- Of left sectors the drive has the first k, and either these are all or it does not have the next one.
structure OnDrive (capacity : Nat) (sector : UInt32) (left k : Nat) : Prop where
  le : k ≤ left
  there : ∀ i < k, lba28 (sector + UInt32.ofNat i) < capacity
  ends : k = left ∨ ¬ lba28 (sector + UInt32.ofNat k) < capacity

section
variable {capacity left k : Nat} {sector : UInt32} {disk : Memory} {probe : Memory → Nat → Probe} {xs ys : List Nat} {r : Search}

theorem next_place (sector : UInt32) (i : Nat) : sector + 1 + UInt32.ofNat i = sector + UInt32.ofNat (i+1) := by
  rw [UInt32.add_assoc,UInt32.add_comm 1,← UInt32.add_assoc,next_sector]

theorem OnDrive.next (there : OnDrive capacity sector (left+1) (k+1)) : OnDrive capacity (sector+1) left k where
  le := Nat.le_of_succ_le_succ there.le
  there := by
    intro i less
    rw [next_place]
    exact there.there (i+1) (Nat.succ_lt_succ less)
  ends := by
    rw [next_place]
    exact there.ends.imp Nat.succ.inj id

theorem OnDrive.first (there : OnDrive capacity sector left (k+1)) : lba28 sector < capacity := by
  have here := there.there 0 (Nat.succ_pos k)
  rwa [show sector + UInt32.ofNat 0 = sector from UInt32.add_zero sector] at here

theorem on_drive (capacity : Nat) (sector : UInt32) (left : Nat) : ∃ k, OnDrive capacity sector left k := by
  induction left generalizing sector with
  | zero => exact ⟨0,Nat.le_refl 0,fun i less => absurd less (Nat.not_lt_zero i),.inl rfl⟩
  | succ left ih =>
    by_cases here : lba28 sector < capacity
    · obtain ⟨k,rest⟩ := ih (sector+1)
      refine ⟨k+1,Nat.succ_le_succ rest.le,fun i less => ?_,?_⟩
      · cases i with
        | zero => rwa [show sector + UInt32.ofNat 0 = sector from UInt32.add_zero sector]
        | succ i =>
          rw [← next_place]
          exact rest.there i (Nat.lt_of_succ_lt_succ less)
      · rw [← next_place]
        exact rest.ends.imp (congrArg Nat.succ) id
    · refine ⟨0,Nat.zero_le _,fun i less => absurd less (Nat.not_lt_zero i),.inr ?_⟩
      rwa [show sector + UInt32.ofNat 0 = sector from UInt32.add_zero sector]

theorem seenSlots_succ (sector : UInt32) (k : Nat) :
    seenSlots sector (k+1) = sectorSlots (lba28 sector) 1 ++ seenSlots (sector+1) k := by
  have start : sector + UInt32.ofNat 0 = sector := UInt32.add_zero sector
  simp only [seenSlots,List.range_succ_eq_map,List.flatMap_cons,List.flatMap_map,start,next_place]

theorem answers_behind (all : ∀ a ∈ xs, skipped probe disk a = true) (answers : Answers probe disk ys r) :
    Answers probe disk (xs ++ ys) r := by
  have none : xs.find? (fun a => !skipped probe disk a) = none :=
    List.find?_eq_none.mpr (fun a member => by simp [all a member])
  have same : (xs ++ ys).find? (fun a => !skipped probe disk a) = ys.find? (fun a => !skipped probe disk a) := by
    rw [List.find?_append,none]
    rfl
  cases answers with
  | found a idx buffer first hit copied => exact .found a idx buffer (same.trans first) hit copied
  | ended missing => exact .ended (fun a found => missing a (same.symm.trans found))

theorem answers_within (someOther : ¬ ∀ a ∈ xs, skipped probe disk a = true) (answers : Answers probe disk xs r) :
    Answers probe disk (xs ++ ys) r := by
  have comes : xs.find? (fun a => !skipped probe disk a) ≠ none := by
    intro none
    exact someOther (fun a member => by simpa using List.find?_eq_none.mp none a member)
  obtain ⟨b,first⟩ := Option.ne_none_iff_exists'.mp comes
  have same : (xs ++ ys).find? (fun a => !skipped probe disk a) = xs.find? (fun a => !skipped probe disk a) := by
    rw [List.find?_append,first]
    rfl
  cases answers with
  | found a idx buffer first hit copied => exact .found a idx buffer (same.trans first) hit copied
  | ended missing => exact .ended (fun a found => missing a (same.symm.trans found))

theorem printedFor_marked (lists : ListProbe probe) (marked : ¬ ∀ a ∈ xs, disk a ≠ 0) :
    printedFor probe disk (xs ++ ys) = printedFor probe disk xs := by
  have ended : (rows probe disk xs).2 = true := by
    rw [rows_marked (lists.ends disk)]
    by_contra none
    exact marked (fun a member zero => none ⟨a,member,zero⟩)
  rw [printedFor,rows_append,if_pos ended]
  rfl

theorem handle_copied {m m' : Memory} {a a' : Nat} (copied : ∀ i < 32, m (a+i) = m' (a'+i)) (output : Memory) :
    handle m a output = handle m' a' output := by
  have text : formatFilename m a output = formatFilename m' a' output := formatFilename_local output m m' a a' copied
  have flags : attributes m a = attributes m' a' := copied 11 (by decide)
  rw [handle,handle,text,flags,fileSize_shift copied,firstCluster_shift copied]

end

section
variable {σ : Type} {ports : Ports σ} {view : σ → Drive} {s : σ} {capacity left k : Nat} {disk stack : Memory}
variable {probe : Memory → Nat → Probe} {sector : UInt32}

theorem search_run (here : Local probe) (stack : Memory) (serves : Serves ports view) (rests : Rests (view s) capacity disk)
    (there : OnDrive capacity sector left k) :
    ∃ r t, Rests (view t) capacity disk ∧ searchSectors ports stack probe sector left s = (r,t) ∧
      (Answers probe disk (seenSlots sector k) r ∨ r = .further ∧ ∀ a ∈ seenSlots sector k, skipped probe disk a = true) := by
  induction left generalizing sector k s with
  | zero =>
    obtain rfl := Nat.le_zero.mp there.le
    exact ⟨.further,s,rests,rfl,.inr ⟨rfl,fun a member => by cases member⟩⟩
  | succ left ih =>
    cases k with
    | zero =>
      have outside : ¬ lba28 sector < capacity := by
        have ends := there.ends.resolve_left (Nat.succ_ne_zero left).symm
        rwa [show sector + UInt32.ofNat 0 = sector from UInt32.add_zero sector] at ends
      obtain ⟨r,t,after,ran,answers⟩ := search_ends here sector stack left serves rests (fun both => outside both.1)
      rw [if_neg outside] at answers
      exact ⟨r,t,after,ran,.inl answers⟩
    | succ k =>
      rw [seenSlots_succ]
      by_cases all : ∀ a ∈ sectorSlots (lba28 sector) 1, skipped probe disk a = true
      · obtain ⟨t,kept,one⟩ := search_one here stack left serves rests there.first all
        obtain ⟨r,u,after,ran,answers⟩ := ih kept there.next
        refine ⟨r,u,after,one.trans ran,answers.imp (answers_behind all) (fun further => ⟨further.1,?_⟩)⟩
        exact List.forall_mem_append.mpr ⟨all,further.2⟩
      · obtain ⟨r,t,after,ran,answers⟩ := search_ends here sector stack left serves rests (fun both => all both.2)
        rw [if_pos there.first] at answers
        exact ⟨r,t,after,ran,.inl (answers_within all answers)⟩

theorem print_run (lists : ListProbe probe) (stack : Memory) (serves : Serves ports view)
    (rests : Rests (view s) capacity disk)
    (there : OnDrive capacity sector left k) :
    ∃ r t, Rests (view t) capacity disk ∧ printSectors ports stack probe sector left s = (r,printedFor probe disk (seenSlots sector k),t) ∧
      r.getD 0 = if k < left ∧ ∀ a ∈ seenSlots sector k, disk a ≠ 0 then -1 else 0 := by
  induction left generalizing sector k s with
  | zero =>
    obtain rfl := Nat.le_zero.mp there.le
    exact ⟨none,s,rests,rfl,rfl⟩
  | succ left ih =>
    cases k with
    | zero =>
      have outside : ¬ lba28 sector < capacity := by
        have ends := there.ends.resolve_left (Nat.succ_ne_zero left).symm
        rwa [show sector + UInt32.ofNat 0 = sector from UInt32.add_zero sector] at ends
      obtain ⟨t,after,ran⟩ := list_ends lists sector stack left serves rests (fun both => outside both.1)
      rw [if_neg outside,if_neg outside] at ran
      refine ⟨some (-1),t,after,ran,?_⟩
      have empty : 0 < left + 1 ∧ ∀ a ∈ seenSlots sector 0, disk a ≠ 0 := ⟨Nat.succ_pos left,fun a member => by cases member⟩
      rw [if_pos empty]
      rfl
    | succ k =>
      rw [seenSlots_succ]
      by_cases unmarked : ∀ a ∈ sectorSlots (lba28 sector) 1, disk a ≠ 0
      · obtain ⟨t,kept,one⟩ := list_one lists stack left serves rests there.first unmarked
        obtain ⟨r,u,after,ran,value⟩ := ih kept there.next
        rw [one,ran,printedFor_append lists unmarked]
        refine ⟨r,u,after,rfl,value.trans ?_⟩
        have same : (k < left ∧ ∀ a ∈ seenSlots (sector+1) k, disk a ≠ 0) ↔
            (k + 1 < left + 1 ∧ ∀ a ∈ sectorSlots (lba28 sector) 1 ++ seenSlots (sector+1) k, disk a ≠ 0) := by
          rw [List.forall_mem_append,Nat.succ_lt_succ_iff]
          exact and_congr_right' ⟨fun rest => ⟨unmarked,rest⟩,And.right⟩
        simp only [same]
      · obtain ⟨t,after,ran⟩ := list_ends lists sector stack left serves rests (fun both => unmarked both.2)
        rw [if_pos there.first,if_pos there.first] at ran
        have marked : ¬ (k + 1 < left + 1 ∧ ∀ a ∈ sectorSlots (lba28 sector) 1 ++ seenSlots (sector+1) k, disk a ≠ 0) :=
          fun both => unmarked (List.forall_mem_append.mp both.2).1
        rw [if_neg marked,printedFor_marked lists unmarked]
        exact ⟨some 0,t,after,ran,rfl⟩

end

def Shown (m : Memory) (a : Nat) : Prop := attributes m a &&& 0x0F = 0

instance : DecidablePred (Shown m) := fun _ => inferInstanceAs (Decidable (_ = _))

theorem listProbe_stop {m : Memory} (a : Nat) : listProbe m a = .stop ↔ m a = 0 := by
  rw [listProbe]
  by_cases zero : m a = 0
  · simp [zero]
  · simp only [zero,if_false,iff_false]
    split
    · decide
    · split <;> decide

theorem listProbe_hit {m : Memory} {a : Nat} (nonzero : m a ≠ 0) : listProbe m a = .hit ↔ Shown m a := by
  have flags : ∀ b : UInt8, b &&& 0x0F = 0 → b &&& 0x08 = 0 := by
    intro b low
    have narrow : b &&& 0x08 = (b &&& 0x0F) &&& 0x08 := by
      rw [UInt8.and_assoc]
      rfl
    rw [narrow,low]
    rfl
  rw [listProbe,if_neg nonzero,if_neg (signed_ne _),Shown]
  by_cases low : attributes m a &&& 0x0F = 0
  · simp [low,flags _ low]
  · simp [low]

theorem listProbe_lists : ListProbe listProbe where
  here := by
    intro m m' a a' same
    have first : m a = m' a' := same 0 (by decide)
    have flags : attributes m a = attributes m' a' := same 11 (by decide)
    rw [listProbe,listProbe,first,flags]
  ends := fun m a => listProbe_stop a

-- What fat16_open finds and fat16_list_root prints, over any drive: they look at the slots of the root
-- directory sectors that the drive has. A deleted entry is printed, and opened under its own first byte; an
-- entry with one of the four low flags is not printed.
theorem fat16_root_exact (ports : Ports σ) (view : σ → Drive) (serves : Serves ports view) (s : σ) (capacity : Nat)
    (disk : Memory)
    (rests : Rests (view s) capacity disk) (stack : Memory) (v : Volume) (filename : List UInt8) (file : File) :
    ∃ k, OnDrive capacity v.rootDirStartSector v.totalSectors k ∧
      (∃ t, Rests (view t) capacity disk ∧ fat16Open ports stack v filename file s =
        ((opened handle (openProbe (name83 filename)) disk (seenSlots v.rootDirStartSector k) file).1,
          (opened handle (openProbe (name83 filename)) disk (seenSlots v.rootDirStartSector k) file).2,t)) ∧
      ∃ t, Rests (view t) capacity disk ∧ fat16ListRoot ports stack v s =
        (if k < v.totalSectors ∧ ∀ a ∈ seenSlots v.rootDirStartSector k, disk a ≠ 0 then -1 else 0,
          listingHeader "Root directory:" ++ entryLines disk (Shown disk) (seenSlots v.rootDirStartSector k),t) := by
  obtain ⟨k,there⟩ := on_drive capacity v.rootDirStartSector v.totalSectors
  refine ⟨k,there,?_,?_⟩
  · obtain ⟨r,t,after,ran,answers⟩ := search_run (openProbe_local (name83 filename)) stack serves rests there
    refine ⟨t,after,?_⟩
    rw [fat16Open,ran]
    rcases answers with answers | ⟨rfl,all⟩
    · cases answers with
      | found a idx buffer first hit copied =>
        rw [opened_found first hit handle,← handle_copied copied]
      | ended missing =>
        rw [opened_missing missing handle]
    · have missing : (seenSlots v.rootDirStartSector k).find? (fun a => !skipped (openProbe (name83 filename)) disk a) = none :=
        List.find?_eq_none.mpr (fun a member => by simp [all a member])
      rw [opened,missing]
  · obtain ⟨r,t,after,ran,value⟩ := print_run listProbe_lists stack serves rests there
    refine ⟨t,after,?_⟩
    rw [fat16ListRoot,ran,← value,printedFor_entries listProbe_lists (fun a nonzero => listProbe_hit nonzero)]

theorem fat16_root_exact_small_file : ∃ h t lines u,
    fat16Open Drive.ports (fun _ => 0) ⟨⟨512,1,1,1,16,1,[]⟩,1,2,3⟩ [0x41] ⟨fun _ => 0,0,0,0⟩ smallDrive = (0,h,t) ∧ h.size = 5 ∧
    fat16ListRoot Drive.ports (fun _ => 0) ⟨⟨512,1,1,1,16,1,[]⟩,1,2,3⟩ smallDrive = (0,lines,u) ∧ lines.length = 4 := by
  obtain ⟨k,there,⟨t,_,opens⟩,u,_,lists⟩ := fat16_root_exact Drive.ports id Drive.serves smallDrive 4 smallDisk small_rests (fun _ => 0)
    ⟨⟨512,1,1,1,16,1,[]⟩,1,2,3⟩ [0x41] ⟨fun _ => 0,0,0,0⟩
  have one : k = 1 := by
    rcases k with _ | _ | k
    · exact absurd (there.ends.resolve_left (by decide)) (by decide)
    · rfl
    · have le : k + 1 + 1 ≤ 1 := there.le
      omega
  subst one
  have found : opened handle (openProbe (name83 [0x41])) smallDisk (seenSlots 2 1) ⟨fun _ => 0,0,0,0⟩ =
      (0,handle smallDisk 1024 (fun _ => 0)) := opened_found (by decide) (by decide) handle _
  rw [found] at opens
  rw [if_neg (fun both => absurd both.1 (by decide))] at lists
  exact ⟨_,t,_,u,opens,by decide,lists,by decide⟩

end SantOS.Fat16
