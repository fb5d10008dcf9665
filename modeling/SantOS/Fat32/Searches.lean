import SantOS.Fat12.ListedEntries
import SantOS.Fat32.Sectors

namespace SantOS.Fat32
open ByteMemory Ata Fat12 BlockChains

def Through (capacity : Nat) (through : Nat → Prop) (sector : UInt32) (i : Nat) : Prop :=
  lba28 (sector + UInt32.ofNat i) < capacity ∧ ∀ a ∈ sectorSlots (lba28 (sector + UInt32.ofNat i)) 1, through a

def skipped (probe : Memory → Nat → Probe) (disk : Memory) (a : Nat) : Bool := probe disk a = .skip

inductive Answers (probe : Memory → Nat → Probe) (disk : Memory) (slots : List Nat) : Search → Prop where
  | found (a idx : Nat) (buffer : Memory) (first : slots.find? (fun a => !skipped probe disk a) = some a)
      (hit : probe disk a = .hit) (copied : ∀ i < 32, buffer (idx*32 + i) = disk (a + i)) :
      Answers probe disk slots (.found idx buffer)
  | ended (missing : ∀ a, slots.find? (fun a => !skipped probe disk a) = some a → probe disk a ≠ .hit) :
      Answers probe disk slots .ended

section
variable {probe : Memory → Nat → Probe} {disk buffer : Memory} {sector : Nat}

theorem scan_slots (here : Local probe) (copied : ∀ i < 512, buffer i = disk (sector*512 + i)) :
    ((scanSector probe buffer 0 16).1 = .skip ∧ ∀ a ∈ sectorSlots sector 1, skipped probe disk a = true) ∨
    ∃ idx, scanSector probe buffer 0 16 = (probe disk (sector*512 + 32*idx),idx) ∧
      probe disk (sector*512 + 32*idx) ≠ .skip ∧ idx < 16 ∧
      (sectorSlots sector 1).find? (fun a => !skipped probe disk a) = some (sector*512 + 32*idx) := by
  have same : ∀ idx < 16, probe buffer (idx*32) = probe disk (sector*512 + 32*idx) := by
    intro idx small
    refine here _ _ _ _ (fun i bound => ?_)
    rw [copied _ (by omega),Nat.mul_comm idx 32,Nat.add_assoc]
  rcases scanSector_spec probe buffer 0 16 with ⟨none,all⟩ | ⟨idx,found,other,_,small,before⟩
  · refine .inl ⟨none,?_⟩
    intro a member
    obtain ⟨k,inside,rfl⟩ := List.mem_map.mp member
    have bound : k < 16 := List.mem_range.mp inside
    rw [skipped,← same k bound,all k (Nat.zero_le k) (by omega)]
    rfl
  · rw [same idx (by omega)] at found other
    refine .inr ⟨idx,found,other,by omega,?_⟩
    have range : (List.range 16).find? (fun k => !skipped probe disk (sector*512 + 32*k)) = some idx := by
      rw [List.find?_range_eq_some]
      refine ⟨by simp [skipped,other],List.mem_range.mpr (by omega),fun j less => ?_⟩
      have passed := before j (Nat.zero_le j) less
      rw [same j (by omega)] at passed
      simp [skipped,passed]
    rw [sectorSlots,List.find?_map,Function.comp_def,Nat.mul_one,range]
    rfl

end

section
variable {σ : Type} {ports : Ports σ} {view : σ → Drive} {s : σ} {capacity : Nat} {disk stack : Memory} {v : Volume}
variable {probe : Memory → Nat → Probe} {sector : UInt32} {m : Nat}

theorem sector_copied (disk stack : Memory) (sector : Nat) :
    ∀ i < 512, blit stack 0 512 (fun j => disk (sector*512 + j)) i = disk (sector*512 + i) := by
  intro i small
  have place := blit_inside stack (fun j => disk (sector*512 + j)) (a := 0) small
  rwa [Nat.zero_add] at place

theorem search_one (here : Local probe) (stack : Memory) (left : Nat) (serves : Serves ports view)
    (rests : Rests (view s) capacity disk)
    (inside : lba28 sector < capacity) (through : ∀ a ∈ sectorSlots (lba28 sector) 1, skipped probe disk a = true) :
    ∃ t, Rests (view t) capacity disk ∧
      searchSectors ports stack probe sector (left+1) s = searchSectors ports stack probe (sector+1) left t := by
  obtain ⟨t,after,ran⟩ := read_sector serves rests sector stack
  refine ⟨t,after,?_⟩
  rw [searchSectors,ran,if_pos inside]
  simp only [ne_eq,not_true_eq_false,if_false]
  rcases scan_slots here (sector_copied disk stack (lba28 sector)) with ⟨none,_⟩ | ⟨idx,_,other,small,_⟩
  · generalize scanSector probe (blit stack 0 512 (fun j => disk (lba28 sector*512 + j))) 0 16 = outcome at none ⊢
    obtain ⟨probe,idx⟩ := outcome
    obtain rfl : probe = .skip := none
    rfl
  · have member : lba28 sector*512 + 32*idx ∈ sectorSlots (lba28 sector) 1 :=
      List.mem_map.mpr ⟨idx,List.mem_range.mpr small,rfl⟩
    have passed := through _ member
    exact absurd (by simpa [skipped] using passed) other

theorem search_ends (here : Local probe) (sector : UInt32) (stack : Memory) (left : Nat) (serves : Serves ports view)
    (rests : Rests (view s) capacity disk)
    (notOver : ¬ (lba28 sector < capacity ∧ ∀ a ∈ sectorSlots (lba28 sector) 1, skipped probe disk a = true)) :
    ∃ r t, Rests (view t) capacity disk ∧ searchSectors ports stack probe sector (left+1) s = (r,t) ∧
      Answers probe disk (if lba28 sector < capacity then sectorSlots (lba28 sector) 1 else []) r := by
  obtain ⟨t,after,ran⟩ := read_sector serves rests sector stack
  by_cases inside : lba28 sector < capacity
  · rw [searchSectors,ran,if_pos inside,if_pos inside]
    simp only [ne_eq,not_true_eq_false,if_false]
    have copied := sector_copied disk stack (lba28 sector)
    rcases scan_slots here copied with ⟨_,all⟩ | ⟨idx,found,other,small,first⟩
    · exact absurd ⟨inside,all⟩ notOver
    · rw [found]
      cases probed : probe disk (lba28 sector*512 + 32*idx) with
      | skip => exact absurd probed other
      | stop =>
        refine ⟨.ended,t,after,rfl,.ended (fun a same => ?_)⟩
        obtain rfl := Option.some.inj (first.symm.trans same)
        rw [probed]
        decide
      | hit =>
        refine ⟨.found idx _,t,after,rfl,.found _ idx _ first probed (fun i bound => ?_)⟩
        rw [copied _ (by omega),Nat.mul_comm idx 32,Nat.add_assoc]
  · rw [searchSectors,ran,if_neg inside,if_neg inside]
    exact ⟨.ended,t,after,rfl,.ended (fun a found => by cases found)⟩

theorem search_some (here : Local probe) (stack : Memory) (left : Nat) (serves : Serves ports view)
    (rests : Rests (view s) capacity disk)
    (passed : ∀ i < m, Through capacity (fun a => skipped probe disk a = true) sector i) :
    ∃ t, Rests (view t) capacity disk ∧ searchSectors ports stack probe sector (m+left) s =
      searchSectors ports stack probe (sector + UInt32.ofNat m) left t := by
  induction m generalizing left with
  | zero =>
    refine ⟨s,rests,?_⟩
    rw [Nat.zero_add]
    exact congrArg (fun sector => searchSectors ports stack probe sector left s) (UInt32.add_zero _).symm
  | succ m ih =>
    obtain ⟨t,kept,before⟩ := ih (left+1) (fun i less => passed i (by omega))
    obtain ⟨inside,through⟩ := passed m (Nat.lt_succ_self m)
    obtain ⟨u,after,one⟩ := search_one here stack left serves kept inside through
    refine ⟨u,after,?_⟩
    have order : m + 1 + left = m + (left + 1) := by omega
    rw [order,before,one,next_sector]

theorem searcher (stack : Memory) (v : Volume) (capacity : Nat) (disk : Memory) (name : List UInt8)
    (serves : Serves ports view) :
    Walker (v.link capacity disk) (fun c => inChain c = true) v.width
      (fun c i _ => Through capacity (fun a => skipped (editProbe name) disk a = true) (v.clusterSector c) i)
      (fun c s fuel => searchChain ports stack v name c s fuel) (fun _ _ s => Rests (view s) capacity disk)
      (fun c i _ r => Rests (view r.2) capacity disk ∧
        Answers (editProbe name) disk (if inChain c = true ∧ v.place c i < capacity then sectorSlots (v.place c i) 1 else []) r.1) where
  zero := fun _ _ => rfl
  ended := by
    intro c s b rests outside
    refine ⟨(.ended,s),⟨rests,.ended (fun a found => ?_)⟩,fun fuel => by rw [searchChain,if_neg outside]⟩
    rw [if_neg (fun both => outside both.1)] at found
    cases found
  stops := by
    intro c s b i rests inside small others last
    obtain ⟨left,rest⟩ := Nat.exists_eq_add_of_lt small
    have enough : v.bootSector.sectorsPerCluster.toNat = i + (left+1) := by rw [← Nat.add_assoc]; exact rest
    obtain ⟨t,kept,ran⟩ := search_some (editProbe_local name) stack (left+1) serves rests others
    obtain ⟨r,u,after,ends,answers⟩ := search_ends (editProbe_local name) (v.clusterSector c + UInt32.ofNat i) stack left serves kept last
    refine ⟨(r,u),⟨after,?_⟩,fun fuel => ?_⟩
    · simp only [inside,true_and]
      exact answers
    · rw [searchChain,if_pos inside,enough,ran,ends]
      cases answers with
      | found => rfl
      | ended => rfl
  goesOn := by
    intro c s b rests inside all
    obtain ⟨t,kept,ran⟩ := search_some (editProbe_local name) stack 0 serves rests all
    obtain ⟨u,after,next⟩ := getFatEntry_spec stack (v := v) serves kept c
    refine ⟨u,after,fun fuel => ?_⟩
    have whole : v.bootSector.sectorsPerCluster.toNat = v.width + 0 := rfl
    rw [searchChain,if_pos inside,whole,ran,searchSectors]
    dsimp only
    rw [next]

end

def Volume.slots (v : Volume) (capacity : Nat) (disk : Memory) (first : UInt32) (n : Nat) : List Nat :=
  (List.range n).flatMap (fun k => sectorSlots (v.sectorAt capacity disk first k) 1)

def Volume.PassedOver (v : Volume) (capacity : Nat) (disk : Memory) (first : UInt32) (through : Nat → Prop)
    (k : Nat) : Prop :=
  v.Readable capacity disk first k ∧ ∀ a ∈ sectorSlots (v.sectorAt capacity disk first k) 1, through a

-- Sector k is the first that is not passed over, and these slots are looked at.
structure Volume.EndsAt (v : Volume) (capacity : Nat) (disk : Memory) (first : UInt32) (through : Nat → Prop)
    (k : Nat) (seen : List Nat) : Prop where
  before : ∀ j < k, v.PassedOver capacity disk first through j
  stop : ¬ v.PassedOver capacity disk first through k
  seen : seen = v.slots capacity disk first (if v.Readable capacity disk first k then k+1 else k)

def opened (handle : Memory → Nat → Memory → File) (probe : Memory → Nat → Probe) (disk : Memory) (slots : List Nat)
    (file : File) :
    Int × File :=
  match slots.find? (fun a => !skipped probe disk a) with
  | some a => if probe disk a = .hit then (0,handle disk a file.name) else (-1,file)
  | none => (-1,file)

section
variable {σ : Type} {ports : Ports σ} {view : σ → Drive} {s : σ} {capacity : Nat} {disk stack : Memory} {v : Volume}
variable {probe : Memory → Nat → Probe} {first : UInt32} {through : Nat → Prop} {k : Nat} {seen : List Nat}

theorem passes_iff (v : Volume) (capacity : Nat) (disk : Memory) (first : UInt32) (through : Nat → Prop) (k : Nat) :
    BlockChains.Passes (v.link capacity disk) (fun c => inChain c = true) v.width
        (fun c i _ => Through capacity through (v.clusterSector c) i) first 0 k ↔
      v.PassedOver capacity disk first through k :=
  and_assoc.symm

theorem Volume.EndsAt.readable (ends : v.EndsAt capacity disk first through k seen) (positive : 0 < v.width) :
    v.Readable capacity disk first k ↔ inChain (blockAt (v.link capacity disk) v.width first k) = true ∧
      v.place (blockAt (v.link capacity disk) v.width first k) (k % v.width) < capacity :=
  and_congr_left' (on_block positive (fun j less => (ends.before j less).1.1))

theorem Volume.EndsAt.last (ends : v.EndsAt capacity disk first (fun a => skipped probe disk a = true) k seen) :
    seen.find? (fun a => !skipped probe disk a) =
      (if v.Readable capacity disk first k then sectorSlots (v.sectorAt capacity disk first k) 1 else []).find?
        (fun a => !skipped probe disk a) := by
  have earlier : (v.slots capacity disk first k).find? (fun a => !skipped probe disk a) = none := by
    refine List.find?_eq_none.mpr (fun a member => ?_)
    obtain ⟨j,inside,here⟩ := List.mem_flatMap.mp member
    have passed := (ends.before j (List.mem_range.mp inside)).2 a here
    simp [passed]
  rw [ends.seen]
  by_cases readable : v.Readable capacity disk first k
  · rw [if_pos readable,if_pos readable,Volume.slots,List.range_succ,List.flatMap_append,List.find?_append]
    rw [Volume.slots] at earlier
    simp [earlier]
  · rw [if_neg readable,if_neg readable,earlier]
    rfl

theorem handle_copied {m m' : Memory} {a a' : Nat} (copied : ∀ i < 32, m (a+i) = m' (a'+i)) (output : Memory) :
    handle m a output = handle m' a' output := by
  have text : formatFilename m a output = formatFilename m' a' output := formatFilename_local output m m' a a' copied
  have flags : attributes m a = attributes m' a' := copied 11 (by decide)
  have high : load m (a+20) 2 = load m' (a'+20) 2 := by
    refine load_congr (fun i small => ?_)
    rw [Nat.add_assoc,Nat.add_assoc]
    exact copied (20+i) (by omega)
  have low : load m (a+26) 2 = load m' (a'+26) 2 := firstCluster_shift copied
  rw [handle,handle,text,flags,fileSize_shift copied,firstCluster,firstCluster,high,low]

theorem opened_found {slots : List Nat} {a : Nat} (found : slots.find? (fun a => !skipped probe disk a) = some a)
    (hit : probe disk a = .hit) (handle : Memory → Nat → Memory → File) (file : File) :
    opened handle probe disk slots file = (0,handle disk a file.name) := by
  rw [opened,found]
  exact if_pos hit

theorem opened_missing {slots : List Nat} (missing : ∀ a, slots.find? (fun a => !skipped probe disk a) = some a → probe disk a ≠ .hit)
    (handle : Memory → Nat → Memory → File) (file : File) : opened handle probe disk slots file = (-1,file) := by
  rw [opened]
  cases found : slots.find? (fun a => !skipped probe disk a) with
  | none => rfl
  | some a => exact if_neg (missing a found)

end

theorem searchChain_hollow {ports : Ports σ} {stack : Memory} {v : Volume} {name : List UInt8} {s t : σ}
    (empty : v.width = 0)
    (ran : searchChain ports stack v name cluster s fuel = some (r,t)) : r = .ended := by
  induction fuel generalizing cluster s with
  | zero => cases ran
  | succ fuel ih =>
    have none_ : v.bootSector.sectorsPerCluster.toNat = 0 := empty
    rw [searchChain,none_,searchSectors] at ran
    split at ran
    · exact ih ran
    · cases ran
      rfl

-- What fat32_open finds, over any drive: the slots along the chain of the root directory, up to the first
-- sector that holds a hit or an end mark, that the drive does not have or that is behind the chain. Where
-- there is no such sector it does not return.
theorem fat32_open_exact (ports : Ports σ) (view : σ → Drive) (serves : Serves ports view) (s : σ) (capacity : Nat)
    (disk : Memory)
    (rests : Rests (view s) capacity disk) (stack : Memory) (v : Volume) (filename : List UInt8) (file : File) :
    (0 < v.width →
      (∀ k seen, v.EndsAt capacity disk v.rootCluster (fun a => skipped (editProbe (name83 filename)) disk a = true) k seen →
        ∃ t, Rests (view t) capacity disk ∧ ∀ fuel > k + 1, fat32Open ports stack v filename file s fuel =
          some ((opened handle (editProbe (name83 filename)) disk seen file).1,(opened handle (editProbe (name83 filename)) disk seen file).2,t)) ∧
      ((∀ k, v.PassedOver capacity disk v.rootCluster (fun a => skipped (editProbe (name83 filename)) disk a = true) k) →
        ∀ fuel, fat32Open ports stack v filename file s fuel = none)) ∧
    (v.width = 0 → ((∃ fuel, fat32Open ports stack v filename file s fuel ≠ none) ↔
        ∃ r, ¬ inChain ((v.link capacity disk)^[r] v.rootCluster) = true) ∧
      ∀ fuel r after t, fat32Open ports stack v filename file s fuel = some (r,after,t) → r = -1 ∧ after = file) := by
  have walker := searcher stack v capacity disk (name83 filename) serves
  have returns : ∀ fuel, fat32Open ports stack v filename file s fuel ≠ none ↔
      searchChain ports stack v (name83 filename) v.rootCluster s fuel ≠ none := by
    intro fuel
    rw [fat32Open]
    cases searchChain ports stack v (name83 filename) v.rootCluster s fuel with
    | none => simp
    | some r =>
      obtain ⟨r,t⟩ := r
      cases r <;> simp
  refine ⟨fun positive => ⟨fun k seen ends => ?_,fun all fuel => ?_⟩,fun empty => ?_⟩
  · have passes := passes_iff v capacity disk v.rootCluster (fun a => skipped (editProbe (name83 filename)) disk a = true)
    obtain ⟨⟨r,t⟩,⟨after,answers⟩,ran⟩ := walker.result positive rests (fun j less => (passes j).mpr (ends.before j less))
      (fun passed => ends.stop ((passes k).mp passed))
    refine ⟨t,after,fun fuel enough => ?_⟩
    have rounds : k/v.width ≤ k := Nat.div_le_self k v.width
    have result := ran (fuel - (k/v.width + 2))
    rw [show k/v.width + (fuel - (k/v.width + 2)) + 2 = fuel by omega] at result
    simp only [← ends.readable positive] at answers
    rw [fat32Open,result]
    cases answers with
    | found a idx buffer first hit copied =>
      rw [opened_found (ends.last.trans first) hit handle,← handle_copied copied]
    | ended missing =>
      rw [opened_missing (fun a found => missing a (ends.last.symm.trans found)) handle]
  · have passes := passes_iff v capacity disk v.rootCluster (fun a => skipped (editProbe (name83 filename)) disk a = true)
    by_contra some
    exact (returns fuel).mp some (walker.endless positive rests (b := 0) (fun k => (passes k).mpr (all k)) fuel)
  · refine ⟨?_,fun fuel r after t ran => ?_⟩
    · simp only [returns]
      rw [empty] at walker
      exact walker.hollow rests (b := 0)
    · rw [fat32Open] at ran
      split at ran
      · cases ran
      · next found => cases searchChain_hollow empty found
      · cases ran
        exact ⟨rfl,rfl⟩

theorem fat32_open_exact_small_file : ∃ h t, fat32Open Drive.ports (fun _ => 0) smallVolume [0x41] ⟨fun _ => 0,0,0,0⟩ smallDrive 2 =
    some (0,h,t) ∧ h.size = 5 ∧ h.firstCluster = 3 := by
  have ends : smallVolume.EndsAt 4 smallDisk 2 (fun a => skipped (editProbe (name83 [0x41])) smallDisk a = true) 0
      (smallVolume.slots 4 smallDisk 2 1) := by
    refine ⟨fun j less => absurd less (Nat.not_lt_zero j),fun passed => ?_,?_⟩
    · exact absurd (passed.2 1024 (by decide)) (by decide)
    · have readable : smallVolume.Readable 4 smallDisk 2 0 := ⟨by decide,by decide⟩
      rw [if_pos readable]
  obtain ⟨t,_,ran⟩ := ((fat32_open_exact Drive.ports id Drive.serves smallDrive 4 smallDisk small_rests (fun _ => 0) smallVolume
    [0x41] ⟨fun _ => 0,0,0,0⟩).1 (by decide)).1 0 _ ends
  have found : opened handle (editProbe (name83 [0x41])) smallDisk (smallVolume.slots 4 smallDisk 2 1) ⟨fun _ => 0,0,0,0⟩ =
      (0,handle smallDisk 1024 (fun _ => 0)) := opened_found (by decide) (by decide) handle _
  rw [found] at ran
  exact ⟨_,t,ran 2 (by decide),by decide,by decide⟩

end SantOS.Fat32
