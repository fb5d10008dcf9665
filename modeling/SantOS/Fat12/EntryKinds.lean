import SantOS.Fat12.Agreement
import SantOS.Fat12.ClusterRuns
import SantOS.Fat12.Mounting

namespace SantOS.Fat12
open ByteMemory

-- A directory or a volume label; the parts of a long name carry the label flag too.
def Special (m : Memory) (a : Nat) : Prop := attributes m a &&& 0x18 ≠ 0

def Refused (s : Driver) (failure : Int) (result : Option (Int × Driver)) : Prop :=
  ∃ t, result = some (failure,t) ∧ t.fatBuffer = s.fatBuffer ∧ t.disk = s.disk

def Claimed (s t : Driver) : Prop := ∃ d, s.fat d = 0 ∧ t.fat d ≠ 0

-- The FAT is unchanged and the byte at the start of a sector has a value, or a free cluster
-- was taken.
structure Overwritten (s : Driver) (p : Nat) (v : UInt8) (t : Driver) : Prop where
  clear : t.Clear
  either : Claimed s t ∨ (t.fatBuffer = s.fatBuffer ∧ t.disk p = v)

section
variable {s t u : Driver}

theorem link_nonzero (m : Memory) (c : Nat) (two : 2 ≤ n) (small : n < 0xFF0) (used : getFatEntry m d ≠ 0 ∨ d = n) :
    getFatEntry (setFatEntry (setFatEntry m c n) n 0xFFF) d ≠ 0 := by
  by_cases last : d = n
  · rw [last,get_set_same]
    decide
  · rw [get_set_other _ _ last]
    by_cases here : d = c
    · rw [here,get_set_same]
      omega
    · rw [get_set_other _ _ here]
      exact used.resolve_right last

theorem cluster_keeps_mark (whole : p % 512 = 0) (held : s.disk p = v) :
    (writeCluster s (fun _ => v) size sector i b left).2.2.disk p = v := by
  induction left generalizing s i b with
  | zero => exact held
  | succ left ih =>
    rw [writeCluster]
    split
    · rename_i more
      dsimp only
      cases state : s.faults 0 with
      | true =>
        rw [write_fault state]
        exact held
      | false =>
        rw [write_clear state]
        dsimp only
        rw [if_neg (by decide)]
        refine ih ?_
        dsimp only
        by_cases here : p = (sector + i)*512 + 0
        · have amount : 0 < if size - b > 512 then 512 else size - b := by
            split <;> omega
          rw [here,sector_blit_inside _ _ (by decide)]
          exact if_pos amount
        · rw [sector_blit_outside _ _ (by omega)]
          exact held
    · exact held

theorem Overwritten.cluster (overwritten : Overwritten s p v u) (whole : p % 512 = 0) (le : b ≤ size) :
    Overwritten s p v (writeCluster u (fun _ => v) size sector 0 b left).2.2 := by
  have wrote := writeCluster_spec u (fun _ => v) size sector 0 b left le
  refine ⟨overwritten.clear.shift wrote.faults,?_⟩
  rcases overwritten.either with ⟨d,free,used⟩ | ⟨table,held⟩
  · refine .inl ⟨d,free,?_⟩
    unfold Driver.fat
    rw [wrote.table]
    exact used
  · exact .inr ⟨wrote.table.trans table,cluster_keeps_mark whole held⟩

theorem Overwritten.link (overwritten : Overwritten s p v u) (c : Nat) (available : findFreeCluster u.fatBuffer ≠ 0) :
    Overwritten s p v (writeFatTable {u with
      fatBuffer := setFatEntry (setFatEntry u.fatBuffer c (findFreeCluster u.fatBuffer)) (findFreeCluster u.fatBuffer) 0xFFF}).2 := by
  obtain ⟨two,small,free⟩ := found_free rfl available
  have nonzero := fun d => link_nonzero (d := d) u.fatBuffer c two small
  generalize setFatEntry (setFatEntry u.fatBuffer c (findFreeCluster u.fatBuffer)) (findFreeCluster u.fatBuffer) 0xFFF = m at nonzero
  have written := writeFatTable_spec {u with fatBuffer := m}
  generalize (writeFatTable {u with fatBuffer := m}).2 = w at written
  refine ⟨?_,.inl ?_⟩
  · rcases written.result with ⟨_,_,faults,_⟩ | ⟨_,n,_,fault,_⟩
    · exact overwritten.clear.shift ⟨_,faults⟩
    · cases fault.symm.trans (overwritten.clear n)
  · rcases overwritten.either with ⟨d,before,used⟩ | ⟨table,_⟩
    · refine ⟨d,before,?_⟩
      unfold Driver.fat
      rw [written.buffer]
      exact nonzero d (.inl used)
    · refine ⟨findFreeCluster u.fatBuffer,?_,?_⟩
      · unfold Driver.fat
        rw [← table]
        exact free
      · unfold Driver.fat
        rw [written.buffer]
        exact nonzero _ (.inr rfl)

theorem first_sector_stored (clear : s.Clear) (cluster : 0 < s.bootSector.sectorsPerCluster) (data : 0 < size) :
    Overwritten s (512*s.clusterSector c) v
      (writeCluster s (fun _ => v) size (s.clusterSector c) 0 0 s.bootSector.sectorsPerCluster).2.2 := by
  have wrote := writeCluster_spec s (fun _ => v) size (s.clusterSector c) 0 0 s.bootSector.sectorsPerCluster (Nat.zero_le size)
  refine ⟨clear.shift wrote.faults,.inr ⟨wrote.table,?_⟩⟩
  rcases wrote.result with ⟨_,unclear⟩ | ⟨_,_,copied⟩
  · exact absurd clear unclear
  · exact copied 0 (by omega) (by omega)

theorem write_overwrites (clear : s.Clear) (cluster : 0 < s.bootSector.sectorsPerCluster) (data : 0 < size)
    (ran : writeFrom s (fun _ => v) size 0 c fuel = some (r,t)) (two : 2 ≤ c) (small : c < 0xFF8) :
    Overwritten s (512*s.clusterSector c) v t := by
  have whole : 512*s.clusterSector c % 512 = 0 := Nat.mul_mod_right 512 _
  refine writeFrom_preserves (Overwritten s (512*s.clusterSector c) v) ?_ ?_ (Nat.zero_le size) ?_ ?_ ran
  · exact fun u b d le overwritten => overwritten.cluster whole le
  · exact fun u d overwritten _ available => overwritten.link d available
  · exact fun ended => absurd ⟨data,two,small⟩ ended
  · exact fun _ => first_sector_stored clear cluster data

theorem Overwritten.changed (overwritten : Overwritten s p v t) (other : v ≠ s.disk p) :
    ¬ (t.fatBuffer = s.fatBuffer ∧ t.disk = s.disk) := by
  rintro ⟨table,disk⟩
  rcases overwritten.either with ⟨d,free,used⟩ | ⟨_,held⟩
  · unfold Driver.fat at used
    rw [table] at used
    exact used free
  · exact other (held.symm.trans (congrFun disk p))

end

section
variable {s : Driver} {f : List UInt8} {k : Nat}

theorem syscall_write_opened (taken : openSlot s f = some k) (buf : Memory) (arg3 : Nat) : ∃ file,
    syscallWriteFile s f buf arg3 = writeAndUpdate (s.after (k/16+1)) f file buf (arg3 % 2^32) ∧
      fat12Write (s.after (k/16+1)) file buf (arg3 % 2^32) =
        writeFrom (s.after (k/16+1)) buf (arg3 % 2^32) 0 (firstClusterLow s.disk (s.slot k)) (arg3 % 2^32 + 1) := by
  obtain ⟨file,opened,_,first⟩ := open_takes taken .fresh
  have word : firstClusterLow s.disk (s.slot k) % 2^16 = firstClusterLow s.disk (s.slot k) := Nat.mod_eq_of_lt (load_lt _ _ 2)
  refine ⟨file,?_,?_⟩
  · unfold syscallWriteFile
    rw [opened]
    rfl
  · unfold fat12Write
    rw [first,word]

theorem write_refused (taken : openSlot s f = some k) (nothing : Ends (firstClusterLow s.disk (s.slot k)) ∨ arg3 % 2^32 = 0)
    (buf : Memory) : Refused s 0 (syscallWriteFile s f buf arg3) := by
  obtain ⟨file,ran,wrote⟩ := syscall_write_opened taken buf arg3
  have ended : ¬ (0 < arg3 % 2^32 ∧ 2 ≤ firstClusterLow s.disk (s.slot k) ∧ firstClusterLow s.disk (s.slot k) < 0xFF8) := by
    rintro ⟨data,running⟩
    rcases nothing with ends | noneLeft
    · exact not_ends.mpr running ends
    · omega
  rw [writeFrom,if_neg ended] at wrote
  rw [ran,writeAndUpdate,wrote]
  exact ⟨_,rfl,rfl,rfl⟩

theorem write_not_refused (clear : s.Clear) (cluster : 0 < s.bootSector.sectorsPerCluster) (taken : openSlot s f = some k)
    (running : ¬ Ends (firstClusterLow s.disk (s.slot k))) (data : 0 < arg3 % 2^32) :
    ∃ buf, ¬ Refused s 0 (syscallWriteFile s f buf arg3) := by
  obtain ⟨two,small⟩ := not_ends.mp running
  generalize place : 512*s.clusterSector (firstClusterLow s.disk (s.slot k)) = p
  refine ⟨fun _ => s.disk p + 1,?_⟩
  rintro ⟨t,ran,table,disk⟩
  obtain ⟨file,syscall,wrote⟩ := syscall_write_opened taken (fun _ => s.disk p + 1) arg3
  rw [clear.after_eq] at syscall wrote
  rw [syscall,writeAndUpdate,wrote] at ran
  cases written : writeFrom s (fun _ => s.disk p + 1) (arg3 % 2^32) 0 (firstClusterLow s.disk (s.slot k)) (arg3 % 2^32 + 1) with
  | none =>
    rw [written] at ran
    cases ran
  | some result =>
    obtain ⟨bytes,u⟩ := result
    have overwritten := write_overwrites clear cluster data written two small
    rw [place] at overwritten
    have changed := overwritten.changed (by simp)
    rw [written] at ran
    dsimp only at ran
    split at ran
    · rename_i positive
      cases updated : updateSlot u f with
      | some j =>
        obtain ⟨w,sized,_⟩ := update_takes overwritten.clear updated (bytes.toNat % 2^32)
        rw [sized] at ran
        cases ran
        exact absurd positive (by decide)
      | none =>
        obtain ⟨j,failed⟩ := update_nothing updated (bytes.toNat % 2^32)
        rw [failed] at ran
        cases ran
        exact changed ⟨table,disk⟩
    · cases ran
      exact changed ⟨table,disk⟩

theorem delete_not_refused (clear : s.Clear) (taken : deleteSlot s f = some k) : ¬ Refused s (-1) (fat12Delete s f) := by
  rintro ⟨t,ran,_⟩
  obtain ⟨buffer,found,_⟩ := scan_taken (editProbe_local _) taken
  rw [fat12Delete,found,clear.after_eq] at ran
  dsimp only at ran
  split at ran
  · cases ran
  · rename_i freed _
    have written := writeFatTable_spec {s with fatBuffer := freed}
    generalize writeFatTable {s with fatBuffer := freed} = outcome at written ran
    obtain ⟨r,u⟩ := outcome
    rcases written.result with ⟨zero,_,faults,_⟩ | ⟨_,n,_,fault,_⟩
    · have clearU : u.Clear := clear.shift ⟨_,faults⟩
      dsimp only at zero ran
      rw [zero,if_neg (by decide),write_clear (clearU 0)] at ran
      cases ran
    · cases fault.symm.trans (clear n)

end

-- With any data and any errors behind the lookup, a write to a name that resolves to a
-- directory or label fails and changes nothing; likewise a delete.
def WritesRefused (s : Driver) (f : List UInt8) (arg3 : Nat) : Prop :=
  ∀ faults buf k, openSlot {s with faults := faults} f = some k → Special s.disk (s.slot k) →
    Refused {s with faults := faults} 0 (syscallWriteFile {s with faults := faults} f buf arg3)

def DeletesRefused (s : Driver) (f : List UInt8) : Prop :=
  ∀ faults k, deleteSlot {s with faults := faults} f = some k → Special s.disk (s.slot k) →
    Refused {s with faults := faults} (-1) (fat12Delete {s with faults := faults} f)

theorem kinds_respected_iff {s : Driver} (accepted : Accepted s.toMount) (f : List UInt8) (arg3 : Nat) :
    (WritesRefused s f arg3 ↔ ∀ k, openSlot {s with faults := fun _ => false} f = some k → Special s.disk (s.slot k) →
      Ends (firstClusterLow s.disk (s.slot k)) ∨ arg3 % 2^32 = 0) ∧
    (DeletesRefused s f ↔ ∀ k, deleteSlot {s with faults := fun _ => false} f = some k → ¬ Special s.disk (s.slot k)) := by
  refine ⟨⟨?_,?_⟩,?_,?_⟩
  · intro refused k taken special
    by_contra goes
    obtain ⟨running,data⟩ := not_or.mp goes
    obtain ⟨buf,stored⟩ := write_not_refused (s := {s with faults := fun _ => false})
      (fun _ => rfl) accepted.layout.cluster taken running (Nat.pos_of_ne_zero data)
    exact stored (refused (fun _ => false) buf k taken special)
  · exact fun nothing faults buf k taken special => write_refused taken (nothing k (slot_without_faults (openProbe_local _) taken) special) buf
  · exact fun refused k taken special => delete_not_refused (s := {s with faults := fun _ => false})
      (fun _ => rfl) taken (refused (fun _ => false) k taken special)
  · exact fun regular faults k taken special => absurd special (regular k (slot_without_faults (editProbe_local _) taken))

def oneEntry (flags cluster : UInt8) : Driver :=
  {blank with
    fatBuffer := setFatEntry (fun _ => 0) 2 0xFFF
    disk := fun x =>
      if x < 19*512 then 0
      else [0x44,0x20,0x20,0x20,0x20,0x20,0x20,0x20,0x20,0x20,0x20,flags,0,0,0,0,0,0,0,0,0,0,0,0,0,0,cluster].getD (x - 19*512) 0}

-- The directory D: a write reports one byte and stores it in the directory's cluster, and a
-- delete reports success and frees that cluster.
theorem directory_overwritten : Accepted (oneEntry 0x10 2).toMount ∧ ¬ WritesRefused (oneEntry 0x10 2) [0x44] 1 ∧
    ¬ DeletesRefused (oneEntry 0x10 2) [0x44] := by
  have special : Special (oneEntry 0x10 2).disk ((oneEntry 0x10 2).slot 0) := by
    unfold Special
    decide +kernel
  refine ⟨floppy_accepted,fun refused => ?_,fun refused => ?_⟩
  · have found : openSlot (oneEntry 0x10 2) [0x44] = some 0 := by decide +kernel
    obtain ⟨t,ran,_⟩ := refused (fun _ => false) (fun _ => 1) 0 found special
    have code : (syscallWriteFile (oneEntry 0x10 2) [0x44] (fun _ => 1) 1).map (fun x => (x.1,x.2.disk (33*512))) = some (1,1) := by
      decide +kernel
    cases code.symm.trans (congrArg (Option.map (fun x : Int × Driver => (x.1,x.2.disk (33*512)))) ran)
  · have found : deleteSlot (oneEntry 0x10 2) [0x44] = some 0 := by decide +kernel
    obtain ⟨t,ran,_⟩ := refused (fun _ => false) 0 found special
    have code : (fat12Delete (oneEntry 0x10 2) [0x44]).map (fun x => (x.1,x.2.fat 2)) = some (0,0) := by decide +kernel
    cases code.symm.trans (congrArg (Option.map (fun x : Int × Driver => (x.1,x.2.fat 2))) ran)

theorem kinds_respected_iff_label : WritesRefused (oneEntry 0x08 0) [0x44] 1 := by
  refine (kinds_respected_iff floppy_accepted [0x44] 1).1.mpr (fun k taken _ => .inl ?_)
  have found : openSlot {oneEntry 0x08 0 with faults := fun _ => false} [0x44] = some 0 := by decide +kernel
  rw [found] at taken
  cases taken
  have cluster : firstClusterLow (oneEntry 0x08 0).disk ((oneEntry 0x08 0).slot 0) = 0 := by decide +kernel
  exact .inl (cluster.trans_lt Nat.zero_lt_two)

end SantOS.Fat12
