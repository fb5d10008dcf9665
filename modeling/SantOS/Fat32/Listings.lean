import SantOS.Fat32.Searches

namespace SantOS.Fat32
open ByteMemory Ata Fat12 BlockChains

theorem listProbe_local : EntryLocal listProbe := by
  intro m m' a a' same
  have first : m a = m' a' := same 0 (by decide)
  have flags : attributes m a = attributes m' a' := same 11 (by decide)
  rw [listProbe,listProbe,first,flags]

theorem listProbe_stop {m : Memory} (a : Nat) : listProbe m a = .stop ↔ m a = 0 := by
  rw [listProbe]
  by_cases zero : m a = 0
  · simp [zero]
  · simp only [zero,if_false,iff_false]
    split
    · decide
    · split <;> decide

theorem listProbe_hit {m : Memory} {a : Nat} (nonzero : m a ≠ 0) : listProbe m a = .hit ↔ Shown m a := by
  rw [listProbe,if_neg nonzero,Shown]
  by_cases deleted : m a = 0xE5
  · simp [deleted]
  · by_cases other : attributes m a &&& 0x08 ≠ 0 ∨ attributes m a = 0x0F
    · rw [if_neg deleted,if_pos other]
      refine ⟨fun same => (by cases same),fun shown => ?_⟩
      rcases other with label | long
      · exact absurd shown.2.1 label
      · exact absurd long shown.2.2
    · obtain ⟨label,long⟩ := not_or.mp other
      rw [if_neg deleted,if_neg other]
      exact ⟨fun _ => ⟨deleted,not_not.mp label,long⟩,fun _ => rfl⟩

-- A probe of a listing: it looks at the entry only, and the end mark ends the listing.
structure ListProbe (probe : Memory → Nat → Probe) : Prop where
  here : EntryLocal probe
  ends : ∀ m a, probe m a = .stop ↔ m a = 0

theorem listProbe_lists : ListProbe listProbe := ⟨listProbe_local,fun m a => listProbe_stop (m := m) a⟩

def printedFor (probe : Memory → Nat → Probe) (disk : Memory) (slots : List Nat) : List Line := (rows probe disk slots).1

section
variable {probe : Memory → Nat → Probe} {disk : Memory} {xs ys : List Nat}

theorem printedFor_append (lists : ListProbe probe) (unmarked : ∀ a ∈ xs, disk a ≠ 0) :
    printedFor probe disk (xs ++ ys) = printedFor probe disk xs ++ printedFor probe disk ys := by
  have openEnd : ¬ (rows probe disk xs).2 = true := by
    rw [rows_marked (lists.ends disk)]
    exact fun some => some.elim (fun a zero => unmarked a zero.1 zero.2)
  rw [printedFor,rows_append,if_neg openEnd]
  rfl

theorem printedFor_entries (lists : ListProbe probe) {shown : Nat → Prop} [DecidablePred shown]
    (hits : ∀ a, disk a ≠ 0 → (probe disk a = .hit ↔ shown a)) (slots : List Nat) : printedFor probe disk slots = entryLines disk shown slots := by
  rw [printedFor,rows_lines (lists.ends disk)]
  refine (entryLines_eq_iff (fun a nonzero chosen => (hits a nonzero).mpr chosen) slots).mpr (fun a member hit => ?_)
  have nonzero : disk a ≠ 0 := by simpa using List.mem_takeWhile_imp member
  exact (hits a nonzero).mp hit

end

section
variable {σ : Type} {ports : Ports σ} {view : σ → Drive} {s : σ} {capacity : Nat} {disk stack : Memory}
variable {probe : Memory → Nat → Probe} {m : Nat} {sector : UInt32}

theorem sector_lines (lists : ListProbe probe) (disk stack : Memory) (sector : Nat) :
    listSector probe (blit stack 0 512 (fun j => disk (sector*512 + j))) 0 16 =
      (printedFor probe disk (sectorSlots sector 1),(rows probe disk (sectorSlots sector 1)).2) := by
  rw [listSector_rows lists.here (sector_copied disk stack sector) (by decide),← List.range_eq_range']
  rfl

theorem list_one (lists : ListProbe probe) (stack : Memory) (left : Nat) (serves : Serves ports view)
    (rests : Rests (view s) capacity disk)
    (inside : lba28 sector < capacity) (unmarked : ∀ a ∈ sectorSlots (lba28 sector) 1, disk a ≠ 0) :
    ∃ t, Rests (view t) capacity disk ∧ printSectors ports stack probe sector (left+1) s =
      ((printSectors ports stack probe (sector+1) left t).1,
        printedFor probe disk (sectorSlots (lba28 sector) 1) ++ (printSectors ports stack probe (sector+1) left t).2.1,
        (printSectors ports stack probe (sector+1) left t).2.2) := by
  obtain ⟨t,after,ran⟩ := read_sector serves rests sector stack
  refine ⟨t,after,?_⟩
  have openEnd : (rows probe disk (sectorSlots (lba28 sector) 1)).2 = false := by
    refine Bool.eq_false_iff.mpr (fun marked => ?_)
    obtain ⟨a,member,zero⟩ := (rows_marked (lists.ends disk) _).mp marked
    exact unmarked a member zero
  rw [printSectors,ran,if_pos inside]
  simp only [ne_eq,not_true_eq_false,if_false]
  rw [sector_lines lists,openEnd]

theorem list_ends (lists : ListProbe probe) (sector : UInt32) (stack : Memory) (left : Nat)
    (serves : Serves ports view) (rests : Rests (view s) capacity disk)
    (notOver : ¬ (lba28 sector < capacity ∧ ∀ a ∈ sectorSlots (lba28 sector) 1, disk a ≠ 0)) :
    ∃ t, Rests (view t) capacity disk ∧ printSectors ports stack probe sector (left+1) s =
      (some (if lba28 sector < capacity then 0 else -1),
        printedFor probe disk (if lba28 sector < capacity then sectorSlots (lba28 sector) 1 else []),t) := by
  obtain ⟨t,after,ran⟩ := read_sector serves rests sector stack
  refine ⟨t,after,?_⟩
  by_cases inside : lba28 sector < capacity
  · have marked : (rows probe disk (sectorSlots (lba28 sector) 1)).2 = true := by
      rw [rows_marked (lists.ends disk)]
      by_contra none
      exact notOver ⟨inside,fun a member zero => none ⟨a,member,zero⟩⟩
    rw [printSectors,ran,if_pos inside,if_pos inside,if_pos inside]
    simp only [ne_eq,not_true_eq_false,if_false]
    rw [sector_lines lists,marked]
  · rw [printSectors,ran,if_neg inside,if_neg inside,if_neg inside]
    rfl

theorem list_some (lists : ListProbe probe) (stack : Memory) (left : Nat) (serves : Serves ports view)
    (rests : Rests (view s) capacity disk)
    (passed : ∀ i < m, Through capacity (fun a => disk a ≠ 0) sector i) :
    ∃ t, Rests (view t) capacity disk ∧ printSectors ports stack probe sector (m+left) s =
      ((printSectors ports stack probe (sector + UInt32.ofNat m) left t).1,
        printedFor probe disk ((List.range m).flatMap (fun i => sectorSlots (lba28 (sector + UInt32.ofNat i)) 1)) ++
          (printSectors ports stack probe (sector + UInt32.ofNat m) left t).2.1,
        (printSectors ports stack probe (sector + UInt32.ofNat m) left t).2.2) := by
  induction m generalizing left with
  | zero =>
    refine ⟨s,rests,?_⟩
    have start : sector + UInt32.ofNat 0 = sector := UInt32.add_zero _
    rw [Nat.zero_add,start]
    rfl
  | succ m ih =>
    obtain ⟨t,kept,before⟩ := ih (left+1) (fun i less => passed i (by omega))
    obtain ⟨inside,unmarked⟩ := passed m (Nat.lt_succ_self m)
    obtain ⟨u,after,one⟩ := list_one lists stack left serves kept inside unmarked
    refine ⟨u,after,?_⟩
    have earlier : ∀ a ∈ (List.range m).flatMap (fun i => sectorSlots (lba28 (sector + UInt32.ofNat i)) 1), disk a ≠ 0 := by
      intro a member
      obtain ⟨i,small,here⟩ := List.mem_flatMap.mp member
      exact (passed i (Nat.lt_succ_of_lt (List.mem_range.mp small))).2 a here
    have order : m + 1 + left = m + (left + 1) := by omega
    rw [order,before,one,next_sector,List.range_succ,List.flatMap_append,printedFor_append lists earlier]
    simp only [List.flatMap_singleton,List.append_assoc]

end

structure BeforeListing (view : σ → Drive) (v : Volume) (capacity : Nat) (disk : Memory) (first : UInt32)
    (header : List Line)
    (cluster : UInt32) (b : Nat) (state : List Line × σ) : Prop where
  rests : Rests (view state.2) capacity disk
  reached : ∃ r, b = r*v.width ∧ cluster = (v.link capacity disk)^[r] first
  unmarked : ∀ a ∈ v.slots capacity disk first b, disk a ≠ 0
  lines : state.1 = header ++ printedFor listProbe disk (v.slots capacity disk first b)

structure ListingEnds (view : σ → Drive) (v : Volume) (capacity : Nat) (disk : Memory) (first : UInt32) (header : List Line)
    (cluster : UInt32) (i k : Nat) (r : Int × List Line × σ) : Prop where
  rests : Rests (view r.2.2) capacity disk
  value : r.1 = if inChain cluster = true ∧ ¬ v.place cluster i < capacity then -1 else 0
  lines : r.2.1 = header ++ printedFor listProbe disk
    (v.slots capacity disk first (if inChain cluster = true ∧ v.place cluster i < capacity then k+1 else k))

section
variable {σ : Type} {ports : Ports σ} {view : σ → Drive} {s : σ} {capacity : Nat} {disk stack : Memory} {v : Volume}
variable {first cluster : UInt32} {m b : Nat} {header : List Line}

theorem slots_further {sector : UInt32} (places : ∀ i < m, v.sectorAt capacity disk first (b+i) = lba28 (sector + UInt32.ofNat i)) :
    v.slots capacity disk first (b+m) =
      v.slots capacity disk first b ++ (List.range m).flatMap (fun i => sectorSlots (lba28 (sector + UInt32.ofNat i)) 1) := by
  rw [Volume.slots,List.range_add,List.flatMap_append,List.flatMap_map]
  refine congrArg₂ _ rfl (List.flatMap_congr (fun i member => ?_))
  rw [places i (List.mem_range.mp member)]

theorem lister (stack : Memory) (v : Volume) (capacity : Nat) (disk : Memory) (first : UInt32) (header : List Line)
    (serves : Serves ports view) :
    Walker (v.link capacity disk) (fun c => inChain c = true) v.width (fun c i _ => Through capacity (fun a => disk a ≠ 0) (v.clusterSector c) i)
      (fun c (state : List Line × σ) fuel => listChain ports stack v c state.1 state.2 fuel)
      (BeforeListing view v capacity disk first header) (ListingEnds view v capacity disk first header) where
  zero := fun _ _ => rfl
  ended := by
    rintro c ⟨printed,s⟩ b ⟨rests,_,_,lines⟩ outside
    dsimp only at rests lines
    subst lines
    refine ⟨(0,_,s),⟨rests,?_,?_⟩,fun fuel => by rw [listChain,if_neg outside]⟩
    · exact (if_neg (fun both => outside both.1)).symm
    · rw [if_neg (fun both => outside both.1)]
  stops := by
    rintro c ⟨printed,s⟩ b i ⟨rests,⟨r,rfl,rfl⟩,unmarked,lines⟩ inside small others last
    dsimp only at rests lines
    subst lines
    have places : ∀ j < i + 1,
        v.sectorAt capacity disk first (r*v.width + j) = lba28 (v.clusterSector ((v.link capacity disk)^[r] first) + UInt32.ofNat j) :=
      fun j less => sectorAt_cluster r (by omega)
    obtain ⟨left,rest⟩ := Nat.exists_eq_add_of_lt small
    have enough : v.bootSector.sectorsPerCluster.toNat = i + (left+1) := by rw [← Nat.add_assoc]; exact rest
    obtain ⟨t,kept,ran⟩ := list_some listProbe_lists stack (left+1) serves rests others
    obtain ⟨u,after,ends⟩ := list_ends listProbe_lists
      (v.clusterSector ((v.link capacity disk)^[r] first) + UInt32.ofNat i) stack left serves kept last
    have earlier : ∀ a ∈ (List.range i).flatMap (fun j =>
        sectorSlots (lba28 (v.clusterSector ((v.link capacity disk)^[r] first) + UInt32.ofNat j)) 1), disk a ≠ 0 := by
      intro a member
      obtain ⟨j,less,slot⟩ := List.mem_flatMap.mp member
      exact (others j (List.mem_range.mp less)).2 a slot
    have before := slots_further (m := i) (fun j less => places j (by omega))
    have whole := slots_further places
    rw [List.range_succ,List.flatMap_append,List.flatMap_singleton,← List.append_assoc,← before] at whole
    refine ⟨(if lba28 (v.clusterSector ((v.link capacity disk)^[r] first) + UInt32.ofNat i) < capacity then 0 else -1,
      header ++ printedFor listProbe disk (v.slots capacity disk first
        (if lba28 (v.clusterSector ((v.link capacity disk)^[r] first) + UInt32.ofNat i) < capacity then r*v.width + i + 1 else r*v.width + i)),u),
      ⟨after,?_,?_⟩,fun fuel => ?_⟩
    · simp only [inside,true_and,Volume.place]
      split <;> rfl
    · simp only [inside,true_and,Volume.place]
    · dsimp only
      rw [listChain,if_pos inside,enough,ran,ends]
      dsimp only
      rw [List.append_assoc,← List.append_assoc (printedFor listProbe disk _) (printedFor listProbe disk _),
        ← printedFor_append listProbe_lists unmarked,← before]
      have allBefore : ∀ a ∈ v.slots capacity disk first (r*v.width + i), disk a ≠ 0 := by
        intro a member
        rw [before] at member
        exact (List.mem_append.mp member).elim (unmarked a) (earlier a)
      by_cases there : lba28 (v.clusterSector ((v.link capacity disk)^[r] first) + UInt32.ofNat i) < capacity
      · simp only [there,if_true]
        rw [Nat.add_assoc,whole,printedFor_append listProbe_lists allBefore]
      · have none : printedFor listProbe disk [] = [] := rfl
        simp only [there,if_false]
        rw [none,List.append_nil]
  goesOn := by
    rintro c ⟨printed,s⟩ b ⟨rests,⟨r,rfl,rfl⟩,unmarked,lines⟩ inside all
    dsimp only at rests lines
    subst lines
    have places : ∀ j < v.width,
        v.sectorAt capacity disk first (r*v.width + j) = lba28 (v.clusterSector ((v.link capacity disk)^[r] first) + UInt32.ofNat j) :=
      fun j less => sectorAt_cluster r less
    obtain ⟨t,kept,ran⟩ := list_some listProbe_lists stack 0 serves rests all
    obtain ⟨u,after,next⟩ := getFatEntry_spec stack (v := v) serves kept ((v.link capacity disk)^[r] first)
    have further := slots_further places
    refine ⟨(header ++ printedFor listProbe disk (v.slots capacity disk first (r*v.width + v.width)),u),
      ⟨after,⟨r+1,(Nat.succ_mul r v.width).symm,(Function.iterate_succ_apply' _ r first).symm⟩,?_,rfl⟩,fun fuel => ?_⟩
    · intro a member
      rw [further] at member
      rcases List.mem_append.mp member with before | here
      · exact unmarked a before
      · obtain ⟨i,less,slot⟩ := List.mem_flatMap.mp here
        exact (all i (List.mem_range.mp less)).2 a slot
    · have whole : v.bootSector.sectorsPerCluster.toNat = v.width + 0 := rfl
      dsimp only
      rw [listChain,if_pos inside,whole,ran,printSectors]
      dsimp only
      rw [next,further,printedFor_append listProbe_lists unmarked,List.append_nil,List.append_assoc]

end

theorem listChain_hollow {ports : Ports σ} {stack : Memory} {v : Volume} {printed lines : List Line} {s t : σ}
    (empty : v.width = 0)
    (ran : listChain ports stack v cluster printed s fuel = some (r,lines,t)) : r = 0 ∧ lines = printed := by
  induction fuel generalizing cluster s with
  | zero => cases ran
  | succ fuel ih =>
    have none_ : v.bootSector.sectorsPerCluster.toNat = 0 := empty
    rw [listChain,none_,printSectors] at ran
    split at ran
    · dsimp only at ran
      rw [List.append_nil] at ran
      exact ih ran
    · cases ran
      exact ⟨rfl,rfl⟩

-- What fat32_list_root prints, over any drive: one line for each entry along the chain of the root
-- directory before the end mark that is not deleted and no volume label, up to the first sector that holds an
-- end mark, that the drive does not have or that is behind the chain. Where there is no such sector it does
-- not return.
theorem fat32_list_root_exact (ports : Ports σ) (view : σ → Drive) (serves : Serves ports view) (s : σ)
    (capacity : Nat) (disk : Memory)
    (rests : Rests (view s) capacity disk) (stack : Memory) (v : Volume) :
    (0 < v.width →
      (∀ k seen, v.EndsAt capacity disk v.rootCluster (fun a => disk a ≠ 0) k seen →
        ∃ t, Rests (view t) capacity disk ∧ ∀ fuel > k + 1, fat32ListRoot ports stack v s fuel =
          some (if v.Chained capacity disk v.rootCluster k ∧ ¬ v.sectorAt capacity disk v.rootCluster k < capacity then -1 else 0,
            listingHeader "Root directory:" ++ entryLines disk (Shown disk) seen,t)) ∧
      ((∀ k, v.PassedOver capacity disk v.rootCluster (fun a => disk a ≠ 0) k) → ∀ fuel, fat32ListRoot ports stack v s fuel = none)) ∧
    (v.width = 0 → ((∃ fuel, fat32ListRoot ports stack v s fuel ≠ none) ↔
        ∃ r, ¬ inChain ((v.link capacity disk)^[r] v.rootCluster) = true) ∧
      ∀ fuel r lines t, fat32ListRoot ports stack v s fuel = some (r,lines,t) → r = 0 ∧ lines = listingHeader "Root directory:") := by
  have walker := lister stack v capacity disk v.rootCluster (listingHeader "Root directory:") serves
  have passes := passes_iff v capacity disk v.rootCluster (fun a => disk a ≠ 0)
  have start : BeforeListing view v capacity disk v.rootCluster (listingHeader "Root directory:") v.rootCluster 0
      (listingHeader "Root directory:",s) := by
    refine ⟨rests,⟨0,(Nat.zero_mul _).symm,rfl⟩,fun a member => ?_,(List.append_nil _).symm⟩
    cases member
  refine ⟨fun positive => ⟨fun k seen ends => ?_,fun all fuel => ?_⟩,fun empty => ?_⟩
  · obtain ⟨⟨r,lines,t⟩,⟨after,value,printed⟩,ran⟩ :=
      walker.result positive start (fun j less => (passes j).mpr (ends.before j less))
      (fun passed => ends.stop ((passes k).mp passed))
    refine ⟨t,after,fun fuel enough => ?_⟩
    have rounds : k/v.width ≤ k := Nat.div_le_self k v.width
    have result := ran (fuel - (k/v.width + 2))
    rw [show k/v.width + (fuel - (k/v.width + 2)) + 2 = fuel by omega] at result
    have chained : v.Chained capacity disk v.rootCluster k ↔ inChain (blockAt (v.link capacity disk) v.width v.rootCluster k) = true :=
      on_block positive (fun j less => (ends.before j less).1.1)
    simp only [← ends.readable positive,Nat.zero_add] at printed
    rw [← ends.seen,printedFor_entries listProbe_lists (fun a nonzero => listProbe_hit nonzero)] at printed
    dsimp only at value printed
    simp only [chained]
    rw [fat32ListRoot,result,printed,value]
    rfl
  · rw [fat32ListRoot]
    exact walker.endless positive start (fun k => (passes k).mpr (all k)) fuel
  · refine ⟨?_,fun fuel r lines t ran => listChain_hollow empty ran⟩
    rw [empty] at walker
    exact walker.hollow start

theorem fat32_list_root_exact_small_file : ∃ lines t, fat32ListRoot Drive.ports (fun _ => 0) smallVolume smallDrive 2 =
    some (0,lines,t) ∧ lines.length = 4 := by
  have ends : smallVolume.EndsAt 4 smallDisk 2 (fun a => smallDisk a ≠ 0) 0 (smallVolume.slots 4 smallDisk 2 1) := by
    refine ⟨fun j less => absurd less (Nat.not_lt_zero j),fun passed => ?_,?_⟩
    · exact absurd (passed.2 1056 (by decide)) (by decide)
    · have readable : smallVolume.Readable 4 smallDisk 2 0 := ⟨by decide,by decide⟩
      rw [if_pos readable]
  obtain ⟨t,_,ran⟩ := ((fat32_list_root_exact Drive.ports id Drive.serves smallDrive 4 smallDisk small_rests (fun _ => 0) smallVolume).1
    (by decide)).1 0 _ ends
  have value : (if smallVolume.Chained 4 smallDisk 2 0 ∧ ¬ smallVolume.sectorAt 4 smallDisk 2 0 < 4 then (-1 : Int) else 0) = 0 := by decide
  have root : smallVolume.rootCluster = 2 := rfl
  rw [root,value] at ran
  exact ⟨_,t,ran 2 (by decide),by decide⟩

end SantOS.Fat32
