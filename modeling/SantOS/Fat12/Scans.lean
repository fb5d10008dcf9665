import SantOS.Fat12.RootEdit

namespace SantOS.Fat12
open ByteMemory

-- The driver after j disk calls that changed nothing.
def Driver.after (s : Driver) (j : Nat) : Driver := {s with faults := fun n => s.faults (n+j)}

theorem Driver.after_after (s : Driver) (i j : Nat) : (s.after i).after j = s.after (i+j) := by
  have shift : (fun n => s.faults (n + j + i)) = fun n => s.faults (n + (i+j)) := by
    funext n
    rw [Nat.add_assoc,Nat.add_comm j i]
  rw [Driver.after,Driver.after,Driver.after]
  exact congrArg (fun f => ({s with faults := f} : Driver)) shift

theorem called_eq (s : Driver) : s.called = s.after 1 := rfl

theorem fdc_read_step (s : Driver) (lba : Nat) (buffer : Memory) (offset fuel : Nat) (more : done < count) :
    ∃ n, 0 < n ∧ done + n ≤ count ∧ (lba + done) % 18 + n ≤ 18 ∧
      fdcReadFrom s lba count done buffer offset (fuel+1) =
        if s.faults 0 then (-1,buffer,s.after 1)
        else fdcReadFrom (s.after 1) lba count (done + n)
          (blit buffer (offset + done*512) (n*512) (fun i => s.disk ((lba + done)*512 + i))) offset fuel := by
  have inside : (lba + done) % 18 < 18 := Nat.mod_lt _ (by decide)
  refine ⟨if 18 - ((lba + done) % 18 + 1) + 1 > count - done then count - done else 18 - ((lba + done) % 18 + 1) + 1,?_,?_,?_,?_⟩
  · split <;> omega
  · split <;> omega
  · split <;> omega
  · rw [fdcReadFrom,if_pos more,called_eq]

theorem read_fault {s : Driver} (fault : s.faults 0 = true) (lba offset : Nat) (buffer : Memory) :
    fdcReadSectors s lba 1 buffer offset = (-1,buffer,s.after 1) := by
  obtain ⟨n,_,_,_,ran⟩ := fdc_read_step s lba buffer offset 0 (by decide : 0 < 1)
  rw [fdcReadSectors,ran,if_pos fault]

theorem read_clear {s : Driver} (clear : s.faults 0 = false) (lba offset : Nat) (buffer : Memory) :
    fdcReadSectors s lba 1 buffer offset = (0,blit buffer offset (1*512) (fun i => s.disk (lba*512+i)),s.after 1) := by
  obtain ⟨n,positive,within,_,ran⟩ := fdc_read_step s lba buffer offset 0 (by decide : 0 < 1)
  have one : n = 1 := by omega
  rw [fdcReadSectors,ran,if_neg (by rw [clear]; decide),one]
  simp only [Nat.zero_mul,Nat.add_zero]
  rfl

-- A probe looks at the name of its entry only.
def Local (probe : Memory → Nat → Probe) : Prop :=
  ∀ m m' a a', (∀ i < 11, m (a+i) = m' (a'+i)) → probe m a = probe m' a'

theorem entryName_shift {m m' : Memory} {a a' : Nat} (same : ∀ i < 11, m (a+i) = m' (a'+i)) :
    entryName m a = entryName m' a' := by
  apply List.map_congr_left
  intro k member
  exact same k (List.mem_range.mp member)

theorem openProbe_local (name : List UInt8) : Local (openProbe name) := by
  intro m m' a a' same
  have first : m a = m' a' := same 0 (by decide)
  rw [openProbe,openProbe,first,entryName_shift same]

theorem editProbe_local (name : List UInt8) : Local (editProbe name) := by
  intro m m' a a' same
  have first : m a = m' a' := same 0 (by decide)
  rw [editProbe,editProbe,first,entryName_shift same]

theorem createProbe_local : Local createProbe := by
  intro m m' a a' same
  have first : m a = m' a' := same 0 (by decide)
  rw [createProbe,createProbe,first]

theorem scanSector_spec (probe : Memory → Nat → Probe) (m : Memory) (idx left : Nat) :
    ((scanSector probe m idx left).1 = .skip ∧ ∀ i, idx ≤ i → i < idx + left → probe m (i*32) = .skip) ∨
    ∃ j, scanSector probe m idx left = (probe m (j*32),j) ∧ probe m (j*32) ≠ .skip ∧ idx ≤ j ∧ j < idx + left ∧
      ∀ i, idx ≤ i → i < j → probe m (i*32) = .skip := by
  induction left generalizing idx with
  | zero => exact .inl ⟨rfl,fun i low high => by omega⟩
  | succ left ih =>
    rw [scanSector]
    cases here : probe m (idx*32) with
    | stop => exact .inr ⟨idx,by rw [here],by rw [here]; decide,Nat.le_refl _,by omega,fun i low high => by omega⟩
    | hit => exact .inr ⟨idx,by rw [here],by rw [here]; decide,Nat.le_refl _,by omega,fun i low high => by omega⟩
    | skip =>
      have extend : ∀ {bound i}, (∀ i, idx + 1 ≤ i → i < bound → probe m (i*32) = .skip) → idx ≤ i → i < bound →
          probe m (i*32) = .skip := by
        intro bound i later low high
        by_cases first : i = idx
        · rw [first]; exact here
        · exact later i (by omega) high
      rcases ih (idx+1) with ⟨none,skips⟩ | ⟨j,found,other,low,high,skips⟩
      · exact .inl ⟨none,fun i low high => extend skips low (by omega)⟩
      · exact .inr ⟨j,found,other,by omega,by omega,fun i low high => extend skips low high⟩

@[irreducible] def Mount.slot (v : Mount) (k : Nat) : Nat := v.rootByte + 32*k

theorem Mount.slot_mem {v : Mount} (inside : k < 16*v.rootSectors) : v.slot k ∈ v.rootSlots :=
  Mount.mem_rootSlots.mpr ⟨k,inside,by rw [Mount.slot]⟩

theorem Mount.slots_below {v : Mount} {m : Memory} (unmarked : ∀ j < k, m (v.slot j) ≠ 0) :
    ∀ a ∈ v.rootSlots, a < v.slot k → m a ≠ 0 := by
  intro a member less
  obtain ⟨j,_,rfl⟩ := Mount.mem_rootSlots.mp member
  have earlier : j < k := by
    unfold Mount.slot at less
    omega
  have nonzero := unmarked j earlier
  unfold Mount.slot at nonzero
  exact nonzero

inductive Scanned (probe : Memory → Nat → Probe) (s : Driver) (n : Nat) : Scan × Driver → Prop where
  | found (k : Nat) (buffer : Memory) (inside : k < 16*n) (hit : probe s.disk (s.slot k) = .hit)
      (before : ∀ j < k, probe s.disk (s.slot j) = .skip)
      (copied : ∀ i < 512, buffer i = s.disk (s.rootByte + k/16*512 + i))
      (clear : ∀ i ≤ k/16, s.faults i = false) :
      Scanned probe s n (.found (k/16) (k%16) buffer,s.after (k/16 + 1))
  | missing (j : Nat) (le : j ≤ n) (clear : ∀ i < j, s.faults i = false)
      (unmatched : ∀ k < 16*n, probe s.disk (s.slot k) = .hit → ∃ i < k, probe s.disk (s.slot i) = .stop) :
      Scanned probe s n (.missing,s.after j)
  | error (j : Nat) (lt : j < n) (fault : s.faults j = true)
      (before : ∀ k < 16*j, probe s.disk (s.slot k) = .skip) : Scanned probe s n (.error,s.after (j+1))

theorem sector_slot (v : Mount) (sector i : Nat) : v.slot (16*sector + i) = (v.rootDirStartSector + sector)*512 + i*32 := by
  unfold Mount.slot Mount.rootByte
  omega

-- One sector is read into a fresh buffer, and probing its entries there is probing them on
-- the disk.
theorem read_sector {s : Driver} (clear : s.faults 0 = false) (lba : Nat) :
    ∃ buffer, fdcReadSectors s lba 1 (fun _ => 0) 0 = (0,buffer,s.after 1) ∧ ∀ i < 512, buffer i = s.disk (lba*512 + i) := by
  rw [read_clear clear]
  refine ⟨_,rfl,?_⟩
  intro i bound
  have copy := blit_inside (fun _ => 0) (fun i => s.disk (lba*512 + i)) (a := 0) (n := 1*512) (i := i) (by omega)
  rw [Nat.zero_add] at copy
  exact copy

theorem probe_copied {buffer disk : Memory} (here : Local probe) (bytes : ∀ i < 512, buffer i = disk (lba*512 + i))
    (bound : i < 16) :
    probe buffer (i*32) = probe disk (lba*512 + i*32) := by
  refine here _ _ _ _ ?_
  intro o small
  rw [bytes (i*32+o) (by omega),Nat.add_assoc]

theorem read_root_sector {s : Driver} (clear : s.faults sector = false) :
    ∃ buffer, fdcReadSectors (s.after sector) (s.rootDirStartSector + sector) 1 (fun _ => 0) 0 =
        (0,buffer,s.after (sector+1)) ∧
      ∀ i < 512, buffer i = s.disk ((s.rootDirStartSector + sector)*512 + i) := by
  have first : (s.after sector).faults 0 = s.faults sector := by simp [Driver.after]
  rw [← Driver.after_after]
  exact read_sector (first.trans clear) _

theorem probe_sector {s : Driver} {buffer : Memory} (here : Local probe)
    (bytes : ∀ i < 512, buffer i = s.disk ((s.rootDirStartSector + sector)*512 + i)) (bound : i < 16) :
    probe buffer (i*32) = probe s.disk (s.slot (16*sector + i)) := by
  rw [sector_slot]
  exact probe_copied here bytes bound

theorem skipped_before {s : Driver} {buffer : Memory} (here : Local probe)
    (bytes : ∀ i < 512, buffer i = s.disk ((s.rootDirStartSector + sector)*512 + i))
    (before : ∀ k < 16*sector, probe s.disk (s.slot k) = .skip) (inside : j ≤ 16)
    (skips : ∀ i, 0 ≤ i → i < j → probe buffer (i*32) = .skip) :
    ∀ k < 16*sector + j, probe s.disk (s.slot k) = .skip := by
  intro k bound
  by_cases old : k < 16*sector
  · exact before k old
  · have atK := probe_sector here bytes (by omega : k - 16*sector < 16)
    rw [Nat.add_sub_of_le (by omega : 16*sector ≤ k)] at atK
    rw [← atK]
    exact skips _ (Nat.zero_le _) (by omega)

theorem scanRoot_from {probe : Memory → Nat → Probe} (here : Local probe) (s : Driver) (sector left : Nat)
    (clear : ∀ i < sector, s.faults i = false)
    (before : ∀ k < 16*sector, probe s.disk (s.slot k) = .skip) :
    Scanned probe s (sector + left) (scanRoot probe (s.after sector) sector left) := by
  induction left generalizing sector with
  | zero =>
    refine .missing sector (by omega) clear ?_
    intro k inside hit
    rw [before k (by omega)] at hit
    cases hit
  | succ left ih =>
    rw [scanRoot]
    cases state : s.faults sector with
    | true =>
      have first : (s.after sector).faults 0 = s.faults sector := by simp [Driver.after]
      rw [read_fault (first.trans state)]
      simp only [Driver.after_after]
      exact .error sector (by omega) state before
    | false =>
      obtain ⟨buffer,ran,bytes⟩ := read_root_sector state
      have start : (s.after sector).rootDirStartSector = s.rootDirStartSector := rfl
      rw [start,ran]
      simp only [ne_eq,not_true_eq_false,if_false]
      have clearNext : ∀ i < sector + 1, s.faults i = false := by
        intro i bound
        by_cases last : i = sector
        · rw [last]; exact state
        · exact clear i (by omega)
      rcases scanSector_spec probe buffer 0 16 with ⟨skipped,skips⟩ | ⟨j,found,other,_,inside,skips⟩
      · obtain ⟨idx,result⟩ : ∃ idx, scanSector probe buffer 0 16 = (.skip,idx) := ⟨_,Prod.ext skipped rfl⟩
        have past := skipped_before here bytes before (Nat.le_refl _) skips
        have more := ih (sector+1) clearNext (fun k bound => past k (by omega))
        rw [show sector + (left+1) = sector + 1 + left by omega]
        simp only [result]
        exact more
      · have earlier := skipped_before here bytes before (by omega) skips
        have atJ := probe_sector here bytes (by omega : j < 16)
        cases outcome : probe buffer (j*32) with
        | skip => exact absurd outcome other
        | stop =>
          rw [outcome] at found atJ
          simp only [found]
          refine .missing (sector+1) (by omega) clearNext ?_
          intro k bound hit
          by_cases late : 16*sector + j < k
          · exact ⟨_,late,atJ.symm⟩
          · by_cases same : k = 16*sector + j
            · rw [same,← atJ] at hit
              cases hit
            · rw [earlier k (by omega)] at hit
              cases hit
        | hit =>
          rw [outcome] at found atJ
          simp only [found]
          have row : (16*sector + j)/16 = sector := by omega
          have column : (16*sector + j) % 16 = j := by omega
          have result : Scanned probe s (sector + (left+1))
              (.found ((16*sector + j)/16) ((16*sector + j) % 16) buffer,s.after ((16*sector + j)/16 + 1)) := by
            refine .found (16*sector + j) buffer (by omega) atJ.symm earlier ?_ ?_
            · intro i bound
              have place : (s.rootDirStartSector + sector)*512 + i = s.rootByte + sector*512 + i := by
                unfold Mount.rootByte
                omega
              rw [row,bytes i bound,place]
            · rw [row]
              exact fun i bound => clearNext i (by omega)
          rw [row,column] at result
          exact result

theorem scanRoot_spec {probe : Memory → Nat → Probe} (here : Local probe) (s : Driver) (n : Nat) :
    Scanned probe s n (scanRoot probe s 0 n) := by
  have scanned := scanRoot_from here s 0 n (fun i bound => absurd bound (Nat.not_lt_zero _))
    (fun k bound => absurd bound (Nat.not_lt_zero _))
  rw [Nat.zero_add] at scanned
  exact scanned

end SantOS.Fat12
