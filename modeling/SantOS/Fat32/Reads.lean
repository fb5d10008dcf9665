import SantOS.Fat32.Sectors

namespace SantOS.Fat32
open ByteMemory Ata Fat12 BlockChains

def Volume.fileBytes (v : Volume) (capacity : Nat) (disk : Memory) (first : UInt32) : Memory :=
  fun x => disk (v.sectorAt capacity disk first (x/512)*512 + x % 512)

def filled (buffer source : Memory) (size k : Nat) : Memory := blit buffer 0 (min size (512*k)) source

section
variable {σ : Type} {ports : Ports σ} {view : σ → Drive} {s : σ} {capacity : Nat} {disk stack : Memory} {v : Volume}
variable {size k b m : Nat} {source : Memory} {sector : UInt32}

theorem read_one (stack buffer : Memory) (left : Nat) (serves : Serves ports view)
    (rests : Rests (view s) capacity disk) (more : 512*k < size)
    (inside : lba28 sector < capacity) (holds : ∀ j < 512, disk (lba28 sector*512 + j) = source (512*k + j)) :
    ∃ t, Rests (view t) capacity disk ∧
      readCluster ports stack size sector (filled buffer source size k) (min size (512*k)) (left+1) s =
        readCluster ports stack size (sector+1) (filled buffer source size (k+1)) (min size (512*(k+1))) left t := by
  obtain ⟨t,after,ran⟩ := read_sector serves rests sector stack
  refine ⟨t,after,?_⟩
  have here : min size (512*k) = 512*k := by omega
  have count : (if size - 512*k > 512 then 512 else size - 512*k) = min 512 (size - 512*k) := by
    split <;> omega
  have next : 512*k + min 512 (size - 512*k) = min size (512*(k+1)) := by omega
  rw [readCluster,here,if_pos more,ran,if_pos inside]
  simp only [ne_eq,not_true_eq_false,if_false]
  rw [count,next]
  have copied : blit (filled buffer source size k) (512*k) (min 512 (size - 512*k))
      (blit stack 0 512 (fun j => disk (lba28 sector*512 + j))) = filled buffer source size (k+1) := by
    have bytes : ∀ j < min 512 (size - 512*k), blit stack 0 512 (fun j => disk (lba28 sector*512 + j)) j = source (512*k + j) := by
      intro j small
      have place := blit_inside stack (fun j => disk (lba28 sector*512 + j)) (a := 0) (n := 512) (i := j) (by omega)
      rw [Nat.zero_add] at place
      rw [place]
      exact holds j (by omega)
    rw [blit_same _ bytes,filled,filled,here]
    exact blit_append buffer (by omega) (by omega) (fun j => rfl)
  rw [copied]

theorem read_none (ports : Ports σ) (stack buffer source : Memory) (sector : UInt32) (left : Nat) (s : σ)
    (done : ¬ 512*k < size) :
    readCluster ports stack size sector (filled buffer source size k) (min size (512*k)) left s =
      (0,filled buffer source size k,min size (512*k),s) := by
  cases left with
  | zero => rfl
  | succ left =>
    rw [readCluster,if_neg (by omega)]

theorem read_fails (stack buffer source : Memory) (left : Nat) (serves : Serves ports view)
    (rests : Rests (view s) capacity disk) (more : 512*k < size)
    (outside : ¬ lba28 sector < capacity) :
    ∃ t, Rests (view t) capacity disk ∧
      readCluster ports stack size sector (filled buffer source size k) (min size (512*k)) (left+1) s =
        (-1,filled buffer source size k,min size (512*k),t) := by
  obtain ⟨t,after,ran⟩ := read_sector serves rests sector stack
  refine ⟨t,after,?_⟩
  rw [readCluster,if_pos (by omega),ran,if_neg outside]
  simp

theorem read_some (stack buffer source : Memory) (sector : UInt32) (left : Nat) (serves : Serves ports view)
    (rests : Rests (view s) capacity disk)
    (holds : ∀ i < m, ∀ j < 512, disk (lba28 (sector + UInt32.ofNat i)*512 + j) = source (512*(b+i) + j))
    (passed : ∀ i < m, 512*(b+i) < size ∧ lba28 (sector + UInt32.ofNat i) < capacity) :
    ∃ t, Rests (view t) capacity disk ∧
      readCluster ports stack size sector (filled buffer source size b) (min size (512*b)) (m+left) s =
        readCluster ports stack size (sector + UInt32.ofNat m) (filled buffer source size (b+m)) (min size (512*(b+m))) left t := by
  induction m generalizing left with
  | zero =>
    refine ⟨s,rests,?_⟩
    rw [Nat.zero_add,Nat.add_zero]
    exact congrArg (fun sector => readCluster ports stack size sector _ _ left s) (UInt32.add_zero _).symm
  | succ m ih =>
    obtain ⟨t,kept,before⟩ := ih (left+1) (fun i less => holds i (by omega)) (fun i less => passed i (by omega))
    obtain ⟨more,inside⟩ := passed m (Nat.lt_succ_self m)
    obtain ⟨u,after,one⟩ := read_one stack buffer left serves kept more inside (holds m (Nat.lt_succ_self m))
    refine ⟨u,after,?_⟩
    have order : m + 1 + left = m + (left + 1) := by omega
    rw [order,before,one,next_sector,Nat.add_assoc b m 1]

end

def Needed (v : Volume) (capacity size : Nat) (cluster : UInt32) (i k : Nat) : Prop :=
  512*k < size ∧ v.place cluster i < capacity

structure BeforeCluster (view : σ → Drive) (v : Volume) (capacity : Nat) (disk : Memory) (first : UInt32)
    (buffer : Memory) (size : Nat)
    (cluster : UInt32) (b : Nat) (state : Memory × Nat × σ) : Prop where
  rests : Rests (view state.2.2) capacity disk
  reached : ∃ r, b = r*v.width ∧ cluster = (v.link capacity disk)^[r] first
  bytes : state.2.1 = min size (512*b)
  buffer : state.1 = filled buffer (v.fileBytes capacity disk first) size b

structure ReadEnds (view : σ → Drive) (v : Volume) (capacity : Nat) (disk : Memory) (first : UInt32) (buffer : Memory)
    (size : Nat)
    (cluster : UInt32) (k : Nat) (r : Int × Memory × σ) : Prop where
  rests : Rests (view r.2.2) capacity disk
  buffer : r.2.1 = filled buffer (v.fileBytes capacity disk first) size k
  value : r.1 = if 512*k < size ∧ inChain cluster = true then -1 else intOf (min size (512*k))

section
variable {σ : Type} {ports : Ports σ} {view : σ → Drive} {s : σ} {capacity : Nat} {disk stack : Memory} {v : Volume}
variable {size b m : Nat} {buffer : Memory} {first cluster : UInt32}

theorem fileBytes_at (v : Volume) (capacity : Nat) (disk : Memory) (first : UInt32) (k : Nat) {j : Nat} (small : j < 512) :
    v.fileBytes capacity disk first (512*k + j) = disk (v.sectorAt capacity disk first k*512 + j) := by
  have quotient : (512*k + j)/512 = k := by omega
  have rest : (512*k + j) % 512 = j := by omega
  rw [Volume.fileBytes,quotient,rest]

theorem BeforeCluster.holds {state : Memory × Nat × σ}
    (before : BeforeCluster view v capacity disk first buffer size cluster b state) :
    ∀ i < v.width, ∀ j < 512, disk (lba28 (v.clusterSector cluster + UInt32.ofNat i)*512 + j) =
      v.fileBytes capacity disk first (512*(b+i) + j) := by
  intro i small j inside
  obtain ⟨r,rfl,rfl⟩ := before.reached
  rw [fileBytes_at v capacity disk first _ inside,sectorAt_cluster r small]
  rfl

theorem readChain_done (done : ¬ (m < size ∧ inChain cluster = true)) (fuel : Nat) :
    readChain ports stack v size cluster buffer m s (fuel+1) = some (intOf m,buffer,s) := by
  rw [readChain,if_neg done]

theorem reader (stack buffer disk : Memory) (v : Volume) (capacity : Nat) (first : UInt32)
    (serves : Serves ports view) (positive : 0 < size ∨ 0 < v.width) :
    Walker (v.link capacity disk) (fun c => inChain c = true) v.width (Needed v capacity size)
      (fun c (state : Memory × Nat × σ) fuel => readChain ports stack v size c state.1 state.2.1 state.2.2 fuel)
      (BeforeCluster view v capacity disk first buffer size) (fun c _ => ReadEnds view v capacity disk first buffer size c) where
  zero := fun _ _ => rfl
  ended := by
    rintro c ⟨held,n,s⟩ b before outside
    obtain ⟨rests,_,bytes,same⟩ := before
    dsimp only at rests bytes same
    subst bytes same
    refine ⟨_,⟨rests,rfl,?_⟩,fun fuel => readChain_done (fun both => outside both.2) (fuel+1)⟩
    exact (if_neg (fun both => outside both.2)).symm
  stops := by
    rintro c ⟨held,n,s⟩ b i before inside small others last
    have holds := before.holds
    obtain ⟨rests,_,bytes,same⟩ := before
    dsimp only at rests bytes same
    subst bytes same
    by_cases start : 512*b < size
    · obtain ⟨left,rest⟩ := Nat.exists_eq_add_of_lt small
      have enough : v.bootSector.sectorsPerCluster.toNat = i + (left+1) := by rw [← Nat.add_assoc]; exact rest
      have going : min size (512*b) < size ∧ inChain c = true := ⟨by omega,inside⟩
      obtain ⟨t,kept,ran⟩ := read_some stack buffer (v.fileBytes capacity disk first) (v.clusterSector c) (left+1) serves rests
        (fun j less => holds j (by omega)) others
      by_cases more : 512*(b+i) < size
      · have outside : ¬ lba28 (v.clusterSector c + UInt32.ofNat i) < capacity := fun here => last ⟨more,here⟩
        obtain ⟨u,after,fails⟩ := read_fails stack buffer (v.fileBytes capacity disk first) left serves kept more outside
        refine ⟨(-1,filled buffer (v.fileBytes capacity disk first) size (b+i),u),⟨after,rfl,(if_pos ⟨more,inside⟩).symm⟩,fun fuel => ?_⟩
        dsimp only
        rw [readChain,if_pos going,enough,ran,fails]
        rfl
      · have none := read_none ports stack buffer (v.fileBytes capacity disk first) (v.clusterSector c + UInt32.ofNat i) (left+1) t more
        obtain ⟨u,after,next⟩ := getFatEntry_spec stack (v := v) serves kept c
        refine ⟨(intOf (min size (512*(b+i))),filled buffer (v.fileBytes capacity disk first) size (b+i),u),
          ⟨after,rfl,(if_neg (fun both => more both.1)).symm⟩,fun fuel => ?_⟩
        dsimp only
        rw [readChain,if_pos going,enough,ran,none]
        simp only [ne_eq,not_true_eq_false,if_false]
        rw [next]
        exact readChain_done (by omega) fuel
    · -- an earlier item of the block would have been needed
      have noneBefore : i = 0 := by
        by_contra some
        exact start (others 0 (Nat.pos_of_ne_zero some)).1
      subst noneBefore
      refine ⟨_,⟨rests,rfl,?_⟩,fun fuel => readChain_done (fun both => start (by dsimp only at both; omega)) (fuel+1)⟩
      exact (if_neg (fun both => start both.1)).symm
  goesOn := by
    rintro c ⟨held,n,s⟩ b before inside all
    have holds := before.holds
    obtain ⟨rests,⟨r,rfl,rfl⟩,bytes,same⟩ := before
    dsimp only at rests bytes same
    subst bytes same
    have start : 512*(r*v.width) < size := by
      rcases Nat.eq_zero_or_pos v.width with empty | some
      · rw [empty] at positive ⊢
        omega
      · exact (all 0 some).1
    obtain ⟨t,kept,ran⟩ := read_some stack buffer (v.fileBytes capacity disk first)
      (v.clusterSector ((v.link capacity disk)^[r] first)) 0 serves rests holds all
    obtain ⟨u,after,next⟩ := getFatEntry_spec stack (v := v) serves kept ((v.link capacity disk)^[r] first)
    refine ⟨(filled buffer (v.fileBytes capacity disk first) size (r*v.width + v.width),min size (512*(r*v.width + v.width)),u),
      ⟨after,⟨r+1,(Nat.succ_mul r v.width).symm,(Function.iterate_succ_apply' _ r first).symm⟩,rfl,rfl⟩,fun fuel => ?_⟩
    have whole : v.bootSector.sectorsPerCluster.toNat = v.width + 0 := rfl
    dsimp only
    rw [readChain,if_pos ⟨by omega,inside⟩,whole,ran,readCluster]
    simp only [ne_eq,not_true_eq_false,if_false]
    rw [next]

end

theorem asked_size (size whole : UInt32) : (if size > whole then whole else size).toNat = min size.toNat whole.toNat := by
  by_cases less : whole < size
  · have bound := UInt32.lt_iff_toNat_lt.mp less
    rw [if_pos less]
    omega
  · have bound : ¬ whole.toNat < size.toNat := fun lt => less (UInt32.lt_iff_toNat_lt.mpr lt)
    rw [if_neg less]
    omega

structure Volume.ReadTo (v : Volume) (capacity : Nat) (disk : Memory) (first : UInt32) (size k : Nat) : Prop where
  before : ∀ j < k, 512*j < size ∧ v.Readable capacity disk first j
  stop : ¬ (512*k < size ∧ v.Readable capacity disk first k)

-- What fat32_read stores and returns, over any drive. Of the sectors that are needed it reads those up
-- to the first that is not in the chain, which ends the file, or that the drive does not have, which is an
-- error. Without sectors in a cluster it returns when the chain ends or when nothing is to be read.
theorem fat32_read_exact (ports : Ports σ) (view : σ → Drive) (serves : Serves ports view) (s : σ) (capacity : Nat)
    (disk : Memory)
    (rests : Rests (view s) capacity disk) (stack : Memory) (v : Volume) (file : File) (buffer : Memory) (size : UInt32) :
    (0 < v.width → ∃ k t, v.ReadTo capacity disk file.firstCluster (min size.toNat file.size.toNat) k ∧ Rests (view t) capacity disk ∧
      ∀ fuel > k + 1, fat32Read ports stack v file buffer size s fuel =
        some (if 512*k < min size.toNat file.size.toNat ∧ v.Chained capacity disk file.firstCluster k then -1
          else intOf (min (min size.toNat file.size.toNat) (512*k)),
          filled buffer (v.fileBytes capacity disk file.firstCluster) (min size.toNat file.size.toNat) k,t)) ∧
    (v.width = 0 → ((∃ fuel, fat32Read ports stack v file buffer size s fuel ≠ none) ↔
      min size.toNat file.size.toNat = 0 ∨ ∃ r, ¬ inChain ((v.link capacity disk)^[r] file.firstCluster) = true)) := by
  have unfolded : ∀ fuel, fat32Read ports stack v file buffer size s fuel =
      readChain ports stack v (min size.toNat file.size.toNat) file.firstCluster buffer 0 s fuel := by
    intro fuel
    rw [fat32Read,asked_size]
  simp only [unfolded]
  generalize min size.toNat file.size.toNat = n
  have nothing : buffer = filled buffer (v.fileBytes capacity disk file.firstCluster) n 0 := by
    rw [filled,Nat.mul_zero,Nat.min_zero,blit_nothing]
  have start : BeforeCluster view v capacity disk file.firstCluster buffer n file.firstCluster 0 (buffer,0,s) :=
    ⟨rests,⟨0,(Nat.zero_mul _).symm,rfl⟩,(Nat.min_zero n).symm,nothing⟩
  constructor
  · intro positive
    have passes : ∀ k, BlockChains.Passes (v.link capacity disk) (fun c => inChain c = true) v.width (Needed v capacity n)
        file.firstCluster 0 k ↔ 512*k < n ∧ v.Readable capacity disk file.firstCluster k := by
      intro k
      rw [BlockChains.Passes,Needed,Nat.zero_add]
      exact and_left_comm
    obtain ⟨k,before,stop⟩ := first_not_passed ⟨n,fun passed => absurd ((passes n).mp passed).1 (by omega)⟩
    obtain ⟨⟨r,out,t⟩,⟨after,bytes,value⟩,ran⟩ :=
      (reader stack buffer disk v capacity file.firstCluster serves (.inr positive)).result positive start before stop
    have read : v.ReadTo capacity disk file.firstCluster n k :=
      ⟨fun j less => (passes j).mp (before j less),fun here => stop ((passes k).mpr here)⟩
    rw [Nat.zero_add] at bytes value
    refine ⟨k,t,read,after,fun fuel enough => ?_⟩
    have rounds : k/v.width ≤ k := Nat.div_le_self k v.width
    have result := ran (fuel - (k/v.width + 2))
    rw [show k/v.width + (fuel - (k/v.width + 2)) + 2 = fuel by omega] at result
    have chained : v.Chained capacity disk file.firstCluster k ↔ inChain (blockAt (v.link capacity disk) v.width file.firstCluster k) = true :=
      on_block positive (fun j less => (read.before j less).2.1)
    simp only [chained]
    rw [result,← bytes,← value]
  · intro empty
    rcases Nat.eq_zero_or_pos n with done | more
    · subst done
      exact ⟨fun _ => .inl rfl,fun _ => ⟨1,by rw [readChain_done (fun both => absurd both.1 (Nat.lt_irrefl 0))]; exact Option.some_ne_none _⟩⟩
    · have walker := reader stack buffer disk v capacity file.firstCluster serves (.inl more)
      rw [empty] at walker
      have ends := walker.hollow start
      rw [ends]
      exact ⟨.inr,fun some => some.resolve_left (Nat.ne_of_gt more)⟩

theorem fat32_read_exact_small_file : ∃ out t, fat32Read Drive.ports (fun _ => 0) smallVolume ⟨fun _ => 0,5,3,0⟩ (fun _ => 0) 100 smallDrive 3 =
    some (5,out,t) ∧ out 4 = 0x42 ∧ out 5 = 0 := by
  obtain ⟨k,t,read,_,ran⟩ := (fat32_read_exact Drive.ports id Drive.serves smallDrive 4 smallDisk small_rests (fun _ => 0) smallVolume
    ⟨fun _ => 0,5,3,0⟩ (fun _ => 0) 100).1 (by decide)
  have size : min (100 : UInt32).toNat (5 : UInt32).toNat = 5 := rfl
  dsimp only at read ran
  rw [size] at read ran
  have one : k = 1 := by
    rcases k with _ | _ | k
    · exact absurd ⟨by decide,by decide⟩ read.stop
    · rfl
    · exact absurd (read.before 1 (by omega)).1 (by decide)
  subst one
  have value : (if 512*1 < 5 ∧ smallVolume.Chained 4 smallDisk 3 1 then -1 else intOf (min 5 (512*1))) = 5 := rfl
  rw [value] at ran
  exact ⟨_,t,ran 3 (by decide),by decide,by decide⟩

end SantOS.Fat32
