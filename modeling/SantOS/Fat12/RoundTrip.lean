import SantOS.Fat12.ClusterRuns
import SantOS.Fat12.Histories

namespace SantOS.Fat12
open ByteMemory LinkedPaths

theorem dataByte_step {v : Mount} (one : v.bootSector.sectorsPerCluster = 1) (two : 2 ≤ c) :
    v.dataByte (c+1) = v.dataByte c + 512 := by
  unfold Mount.dataByte Mount.clusterSector
  rw [one]
  omega

theorem clusterBytes_one {v : Mount} (one : v.bootSector.sectorsPerCluster = 1) : v.clusterBytes = 512 := by
  unfold Mount.clusterBytes
  rw [one]

theorem Holds.run {s : Driver} {data : Memory} (one : s.bootSector.sectorsPerCluster = 1) (two : 2 ≤ c)
    (holds : Holds s data size b (List.range' c k ++ post)) :
    (∀ i < 512*k, b + i < size → s.disk (s.dataByte c + i) = data (b+i)) ∧ Holds s data size (b + 512*k) post := by
  have length := clusterBytes_one one
  induction k generalizing c b with
  | zero => exact ⟨fun i bound => by omega,holds⟩
  | succ k ih =>
    rw [List.range'_succ,List.cons_append] at holds
    obtain ⟨first,rest⟩ := holds
    rw [length] at first rest
    obtain ⟨later,tail⟩ := ih (c := c+1) (by omega) rest
    refine ⟨?_,?_⟩
    · intro i bound inside
      by_cases now : i < 512
      · exact first i now inside
      · have atI := later (i-512) (by omega) (by omega)
        rw [dataByte_step one two,Nat.add_assoc,Nat.add_sub_of_le (by omega),Nat.add_assoc,
          Nat.add_sub_of_le (by omega)] at atI
        exact atI
    · rw [show b + 512*(k+1) = b + 512 + 512*k by omega]
      exact tail

-- One round reads a run of clusters; behind it either all is read or the chain goes on.
theorem read_round {s : Driver} {data buf : Memory} {amount size b c n : Nat} {rest : List Nat}
    (one : s.bootSector.sectorsPerCluster = 1) (clear : s.Clear) (running : ¬ 0xFF8 ≤ c)
    (behind : Path s.fat (0xFF8 ≤ ·) (s.fat c) rest) (real : ∀ d ∈ c::rest, 2 ≤ d) (holds : Holds s data size b (c::rest))
    (all : amount ≤ size) (more : b < amount) (word : amount < 2^31) (before : ∀ i < b, buf i = data i) :
    ∃ step next post buf', readFrom s buf amount b c (n+1) = readFrom s buf' amount (b+step) next n ∧
      0 < step ∧ b + step ≤ amount ∧ (∀ i < b + step, buf' i = data i) ∧
      (b + step = amount ∨
        (Path s.fat (0xFF8 ≤ ·) next post ∧ (∀ d ∈ post, 2 ≤ d) ∧ Holds s data size (b+step) post)) := by
  have two := real c (List.mem_cons_self ..)
  obtain ⟨k,ran,links,bounded,_⟩ := runFrom_spec s.fatBuffer 1 250 two
  obtain ⟨post,chain,tail⟩ := links.stretch (.cons running behind) (fun d _ less past => by omega) two (by omega)
  have short := bounded (by decide)
  rw [chain] at holds real
  obtain ⟨stretch,onward⟩ := holds.run one two
  rw [readFrom,if_pos ⟨more,two,by omega⟩,ran]
  dsimp only
  rw [one,Nat.mul_one,Nat.mod_eq_of_lt (a := amount - b + 511) (by omega)]
  generalize total : (if 1 + k > (amount - b + 511)/512 then (amount - b + 511)/512 else 1 + k) = sectors
  have counted : 0 < sectors ∧ sectors ≤ 1 + k ∧ (sectors = 1 + k ∨ amount - b ≤ sectors*512) := by
    rw [← total]
    split <;> omega
  rw [Nat.mod_eq_of_lt (a := sectors) (by omega),read_sectors_clear clear]
  simp only [ne_eq,not_true_eq_false,if_false]
  generalize filled : blit buf b (sectors*512) _ = buf'
  generalize advance : (if sectors*512 > amount - b then amount - b else sectors*512) = step
  have advanced : 0 < step ∧ b + step ≤ amount ∧ step ≤ sectors*512 ∧ (b + step = amount ∨ step = 512*(k+1)) := by
    rw [← advance]
    split <;> omega
  refine ⟨step,_,post,buf',rfl,advanced.1,advanced.2.1,?_,?_⟩
  · intro i bound
    rw [← filled]
    by_cases old : i < b
    · rw [blit_outside _ _ (.inl old)]
      exact before i old
    · have inside := blit_inside buf (fun i => s.disk (s.clusterSector c*512 + i)) (a := b) (n := sectors*512)
        (i := i - b) (by omega)
      have atI := stretch (i-b) (by omega) (by omega)
      have start : s.dataByte c = s.clusterSector c*512 := by unfold Mount.dataByte; rfl
      rw [Nat.add_sub_of_le (by omega)] at inside atI
      rw [inside,← start]
      exact atI
  · rcases advanced.2.2.2 with finished | whole
    · exact .inl finished
    · rw [← whole] at onward
      exact .inr ⟨tail,fun d member => real d (List.mem_append_right _ member),onward⟩

-- Reading a chain that holds data returns its first bytes, in runs of clusters.
theorem readFrom_spec {s : Driver} {data buf : Memory} {amount size b c n : Nat} {cs : List Nat}
    (one : s.bootSector.sectorsPerCluster = 1) (clear : s.Clear) (path : Path s.fat (0xFF8 ≤ ·) c cs)
    (real : ∀ d ∈ cs, 2 ≤ d) (holds : Holds s data size b cs) (all : amount ≤ size) (le : b ≤ amount)
    (word : amount < 2^31) (before : ∀ i < b, buf i = data i) (fuel : amount - b < n) :
    ∃ out, readFrom s buf amount b c n = some (intOf amount,out,s) ∧ ∀ i < amount, out i = data i := by
  induction n generalizing buf b c cs with
  | zero => exact absurd fuel (Nat.not_lt_zero _)
  | succ n ih =>
    by_cases more : b < amount
    · cases path with
      | nil done =>
        have covered : size ≤ b := holds
        omega
      | @cons _ rest running behind =>
        obtain ⟨step,next,post,buf',ran,positive,within,bytes,onward⟩ :=
          read_round (n := n) one clear running behind real holds all more word before
        rw [ran]
        rcases onward with finished | ⟨tail,realTail,holdsTail⟩
        · cases n with
          | zero => omega
          | succ n =>
            rw [finished] at bytes ⊢
            rw [readFrom,if_neg (fun this => Nat.lt_irrefl _ this.1)]
            exact ⟨buf',rfl,bytes⟩
        · exact ih tail realTail holdsTail within bytes (by omega)
    · have done : b = amount := by omega
      rw [readFrom,if_neg (fun this => more this.1),done]
      exact ⟨buf,rfl,by rw [← done]; exact before⟩

theorem intOf_small (small : n < 2^31) : intOf n = n := if_pos small

theorem Room.small {s : Driver} (room : Room s cs size) (shape : Geometry s.toMount)
    (one : s.bootSector.sectorsPerCluster = 1) (short : cs.length < 0x1000) : size < 2^31 := by
  obtain ⟨free,distinct,available,enough⟩ := room
  have below : ∀ c ∈ free, c ∈ List.range 0xFF0 :=
    fun c member => List.mem_range.mpr (shape.in_volume_lt (available c member).1)
  have few := (List.Nodup.subperm distinct below).length_le
  rw [List.length_range] at few
  rw [clusterBytes_one one] at enough
  have total : (cs.length + free.length)*512 ≤ (0x1000 + 0xFF0)*512 := Nat.mul_le_mul_right _ (by omega)
  omega

theorem readFile_spec {t : Driver} {data : Memory} (buf : Memory) (one : t.bootSector.sectorsPerCluster = 1)
    (clear : t.Clear)
    (nameable : Nameable f) (found : Resolves t (name83 f) k) (small : size < 2^31)
    (length : fileSize t.disk (t.slot k) = size)
    (path : Path t.fat (0xFF8 ≤ ·) (firstClusterLow t.disk (t.slot k)) cs) (nonempty : cs ≠ []) (real : ∀ d ∈ cs, 2 ≤ d)
    (holds : Holds t data size 0 cs) (m : UInt32) :
    ∃ out i, syscallReadFile t f buf m.toNat = some (((min size m.toNat : Nat) : Int),out,t.after i) ∧
      ∀ i < min size m.toNat, out i = data i := by
  have word : m.toNat % 2^32 = m.toNat := Nat.mod_eq_of_lt m.toNat_lt
  have opened := open_spec (nameable.undeleted t) .fresh
  unfold syscallReadFile
  rw [word]
  generalize fat12Open t f .fresh = outcome at opened
  cases opened with
  | missing j le absent => exact absurd found (absent k)
  | error j lt fault =>
    rw [clear j] at fault
    cases fault
  | found j h resolves _ sizeRead first =>
    have same := resolves.unique found
    subst same
    rw [length] at sizeRead
    have start : 2 ≤ h.firstCluster ∧ h.firstCluster < 0xFF8 := by
      rw [first]
      cases path with
      | nil => exact absurd rfl nonempty
      | cons running _ => exact ⟨real _ (List.mem_cons_self ..),by omega⟩
    rw [← first] at path
    obtain ⟨out,ran,bytes⟩ :
        ∃ out, readFrom (t.after (j/16+1)) buf (min size m.toNat) 0 h.firstCluster (min size m.toNat + 1) =
          some (intOf (min size m.toNat),out,t.after (j/16+1)) ∧ ∀ i < min size m.toNat, out i = data i :=
      readFrom_spec one clear.after path real (holds.congr rfl (fun _ _ _ _ => rfl)) (Nat.min_le_left size m.toNat)
        (Nat.zero_le _) (by omega) (fun i bound => absurd bound (Nat.not_lt_zero i)) (by omega)
    have wanted : (if h.size < m.toNat then h.size else m.toNat) = min size m.toNat := by
      rw [sizeRead]
      split <;> omega
    have limited : (if min size m.toNat > h.size then h.size else min size m.toNat) = min size m.toNat := by
      rw [sizeRead]
      exact if_neg (by omega)
    have low : h.firstCluster % 2^16 = h.firstCluster := Nat.mod_eq_of_lt (by omega)
    have amount : intOf (min size m.toNat) = ((min size m.toNat : Nat) : Int) := intOf_small (by omega)
    dsimp only
    rw [if_neg (not_not.mpr rfl),wanted,fat12Read]
    rw [limited,low,ran]
    dsimp only
    rw [amount]
    exact ⟨out,j/16 + 1,by rw [if_pos (Int.natCast_nonneg _)],bytes⟩

def ReadsBack (t : Driver) (f : List UInt8) (data : Memory) (n : Nat) : Prop :=
  ∀ (m : UInt32) (buf : Memory), ∃ out u, syscallReadFile t f buf m.toNat = some (((min n m.toNat : Nat) : Int),out,u) ∧
    ∀ i < min n m.toNat, out i = data i

theorem Resized.reads_back {x t : Driver} (resized : Resized x f size (v,t)) (shape : Geometry x.toMount)
    (one : x.bootSector.sectorsPerCluster = 1) (clear : x.Clear) (nameable : Nameable f)
    (found : Resolves x (name83 f) k) (small : size < 2^31)
    (path : Path x.fat (0xFF8 ≤ ·) (firstClusterLow x.disk (x.slot k)) cs) (nonempty : cs ≠ []) (real : ∀ d ∈ cs, 2 ≤ d)
    (holds : Holds x data size 0 cs) : v = 0 ∧ fileSize t.disk (x.slot k) = size ∧ ReadsBack t f data size := by
  cases resized with
  | missing j absent => exact absurd found (absent k)
  | error n j fault =>
    rw [clear n] at fault
    cases fault
  | done j t resolves mount table outside length synced faults =>
    have same := resolves.unique found
    subst same
    have low : x.rootByte ≤ x.slot j := by unfold Mount.slot; omega
    have names : ∀ i ≤ j, ∀ b < 11, t.disk (x.slot i + b) = x.disk (x.slot i + b) := by
      intro i le b bound
      refine outside _ ?_ ?_
      · unfold Mount.slot; omega
      · unfold Mount.slot; omega
    have first : firstClusterLow t.disk (t.slot j) = firstClusterLow x.disk (x.slot j) := by
      rw [mount]
      apply load_congr
      intro i bound
      exact outside _ (by omega) (.inl (by omega))
    have kept : Holds t data size 0 cs := by
      refine holds.congr mount ?_
      intro c _ i _
      have behind := (root_slot_inside (c := c) shape resolves.slot_mem).2
      exact outside _ (by omega) (.inr (by omega))
    have fat : t.fat = x.fat := by
      funext d
      unfold Driver.fat
      rw [table]
    have oneT : t.bootSector.sectorsPerCluster = 1 := by
      rw [mount]
      exact one
    have sized : fileSize t.disk (x.slot j) = size := length.trans (Nat.mod_eq_of_lt (by omega))
    have lengthT : fileSize t.disk (t.slot j) = size := by
      rw [mount]
      exact sized
    have pathT : Path t.fat (0xFF8 ≤ ·) (firstClusterLow t.disk (t.slot j)) cs := by
      rw [fat,first]
      exact path
    refine ⟨rfl,sized,fun m buf => ?_⟩
    obtain ⟨out,i,ran,bytes⟩ := readFile_spec buf oneT (clear.shift ⟨_,faults⟩) nameable (found.congr mount names)
      small lengthT pathT nonempty real kept m
    exact ⟨out,_,ran,bytes⟩

theorem Handle.round_trip {u : Driver} {h : File} (data : Memory) (handle : Handle u (u.slot k) c cs)
    (shape : Geometry u.toMount) (one : u.bootSector.sectorsPerCluster = 1) (clear : u.Clear) (nameable : Nameable f)
    (found : Resolves u (name83 f) k) (entry : firstClusterLow u.disk (u.slot k) = c) (first : h.firstCluster = c)
    (small : size < 2^31) :
    ∃ v t, writeAndUpdate u f h data size = some (v,t) ∧
      (v > 0 → v = size ∧ fileSize t.disk (u.slot k) = size ∧ ReadsBack t f data size) ∧
      (0 < size → Room u cs size → v = size) := by
  obtain ⟨n,x,fresh,wrote,written⟩ := handle.write shape first u.Clear id data size
  have extended := written.toExtended
  have root := fun a (slot : a ∈ u.rootSlots) => extended.root_kept shape slot
  rw [writeAndUpdate,wrote]
  dsimp only
  rcases written.result with ⟨rfl,cause⟩ | ⟨rfl,holds⟩
  · rw [if_neg (by decide)]
    exact ⟨0,x,rfl,fun positive => absurd positive (by decide),fun _ room => absurd room (cause clear)⟩
  rw [intOf_small small]
  have shapeX : Geometry x.toMount := by rw [extended.mount]; exact shape
  have foundX : Resolves x (name83 f) k :=
    (resolves_iff extended.mount (fun a slot i bound => root a slot i (by omega))).mpr found
  have path : Path x.fat (0xFF8 ≤ ·) (firstClusterLow x.disk (x.slot k)) (cs ++ fresh) := by
    rw [extended.mount,firstCluster_congr (root _ handle.slot),entry]
    exact extended.path
  have word : (size : Int).toNat % 2^32 = size := by
    rw [Int.toNat_natCast]
    exact Nat.mod_eq_of_lt (by omega)
  rw [word]
  have resized := updateSize_spec shapeX f size
  generalize fat12UpdateSize x f size = outcome at resized ⊢
  obtain ⟨r,t⟩ := outcome
  have oneX : x.bootSector.sectorsPerCluster = 1 := by rw [extended.mount]; exact one
  obtain ⟨rfl,sized,reads⟩ := resized.reads_back shapeX oneX (clear.shift extended.faults) nameable foundX small path
    (by simp [handle.nonempty]) (extended.real handle.real) holds
  rw [extended.mount] at sized
  dsimp only
  split
  · exact ⟨size,t,rfl,fun _ => ⟨rfl,sized,reads⟩,fun _ _ => rfl⟩
  · next none => exact ⟨0,x,rfl,fun positive => absurd positive (by decide),fun positive _ => by omega⟩

theorem resolves_first {s : Driver} (inside : k < 16*s.rootSectors) (unmarked : ∀ j < k, s.disk (s.slot j) ≠ 0)
    (hit : editProbe name s.disk (s.slot k) = .hit) : ∃ j, j ≤ k ∧ Resolves s name j := by
  induction k using Nat.strongRecOn with
  | _ k ih =>
    by_cases earlier : ∃ j < k, editProbe name s.disk (s.slot j) = .hit
    · obtain ⟨j,less,found⟩ := earlier
      obtain ⟨i,le,resolves⟩ := ih j less (by omega) (fun i small => unmarked i (by omega)) found
      exact ⟨i,by omega,resolves⟩
    · refine ⟨k,Nat.le_refl k,inside,hit,?_⟩
      intro j less
      cases probe : editProbe name s.disk (s.slot j) with
      | skip => rfl
      | stop => exact absurd (editProbe_stop.mp probe) (unmarked j less)
      | hit => exact absurd ⟨j,less,probe⟩ earlier

theorem Made.first {s t : Driver} (made : Made s t f k) (nameable : Nameable f) (absent : ∀ j, ¬ Resolves s (name83 f) j) :
    Resolves t (name83 f) k := by
  have unmarked : ∀ j < k, t.disk (t.slot j) ≠ 0 := by
    rw [made.mount]
    exact fun j less => made.earlier less
  obtain ⟨j,_,resolves⟩ := resolves_first (by rw [made.mount]; exact made.inside) unmarked (made.hit nameable)
  rcases made.resolves resolves with rfl | ⟨_,before⟩
  · exact resolves
  · exact absurd before (absent j)

def RoomFor (s : Driver) (f : List UInt8) (size : Nat) : Prop :=
  (∀ k cs, Resolves s (name83 f) k → EntryChain s (s.slot k) cs → Room s cs size) ∧
  ((∀ k, ¬ Resolves s (name83 f) k) → Room s [] size)

-- The file has a cluster to start with, or a root slot is free for a new one.
def Writable (s : Driver) (f : List UInt8) : Prop :=
  (∃ k, Resolves s (name83 f) k ∧ firstClusterLow s.disk (s.slot k) ≠ 0) ∨
  ((∀ k, ¬ Resolves s (name83 f) k) ∧ ∃ k < 16*s.rootSectors, ¬ Live s.disk (s.slot k))

theorem Created.round_trip {h : File} {u : Driver} (created : Created s f file (r,h,u)) (shape : Geometry s.toMount)
    (sound : Sound s) (one : s.bootSector.sectorsPerCluster = 1) (clear : s.Clear) (nameable : Nameable f)
    (absent : ∀ k, ¬ Resolves s (name83 f) k) (enough : Room s [] size) (data : Memory) :
    ∃ v t, (if r ≠ 0 then some (0,u) else writeAndUpdate u f h data size) = some (v,t) ∧
      (v > 0 → v = size ∧ ReadsBack t f data size) ∧
      (0 < size → (∃ k < 16*s.rootSectors, ¬ Live s.disk (s.slot k)) → v = size) := by
  by_cases failed : r ≠ 0
  · rw [if_pos failed]
    refine ⟨0,u,rfl,fun positive => absurd positive (by decide),?_⟩
    rintro positive ⟨k,inside,slot⟩
    have member := find_free_in_volume shape (enough.free (by rw [List.length_nil,Nat.zero_mul]; exact positive))
    have cluster : findFreeCluster s.fatBuffer ≠ 0 := by
      intro none
      rw [none] at member
      exact absurd member.1 (by decide)
    exact absurd (created.succeeds clear inside slot cluster) failed
  · rw [if_neg failed]
    obtain ⟨k,c,made,cluster,nonzero,table,entry,first,_⟩ := created.success (not_not.mp failed)
    have handle := made.handle shape sound cluster nonzero table entry
    have found := made.first nameable absent
    rw [← made.mount] at handle entry
    have shapeU : Geometry u.toMount := by rw [made.mount]; exact shape
    have oneU : u.bootSector.sectorsPerCluster = 1 := by rw [made.mount]; exact one
    obtain ⟨v,t,ran,back,success⟩ := handle.round_trip data shapeU oneU (created.clear clear) nameable found entry first
      (enough.small shape one (by decide))
    refine ⟨v,t,ran,fun positive => ⟨(back positive).1,(back positive).2.2⟩,
      fun positive _ => success positive (enough.take (c := c) made.mount ?_ rfl)⟩
    intro d other zero
    unfold Driver.fat
    rw [table,get_set_other _ _ other]
    exact zero

theorem Resolves.round_trip {s : Driver} {h : File} (resolves : Resolves s (name83 f) k) (shape : Geometry s.toMount)
    (sound : Sound s) (one : s.bootSector.sectorsPerCluster = 1) (clear : s.Clear) (nameable : Nameable f)
    (regular : RegularOrAbsent s f) (first : h.firstCluster = firstClusterLow s.disk (s.slot k)) (chain : EntryChain s (s.slot k) cs)
    (enough : Room s cs size) (data : Memory) :
    ∃ v t, writeAndUpdate s f h data size = some (v,t) ∧
      (v > 0 → v = size ∧ fileSize t.disk (s.slot k) = size ∧ ReadsBack t f data size) ∧
      (0 < size → firstClusterLow s.disk (s.slot k) ≠ 0 → v = size) := by
  cases cs with
  | nil =>
    rw [writeAndUpdate,empty_write _ (first.trans chain.empty_first)]
    exact ⟨0,s,rfl,fun positive => absurd positive (by decide),fun _ nonzero => absurd chain.empty_first nonzero⟩
  | cons c cs =>
    have handle := resolves.handle regular sound chain (by simp)
    obtain ⟨v,t,ran,back,success⟩ := handle.round_trip data shape one clear nameable resolves rfl first
      (enough.small shape one chain.length_lt)
    exact ⟨v,t,ran,back,fun positive _ => success positive enough⟩

theorem writeFile_reads_back (shape : Geometry s.toMount) (sound : Sound s) (one : s.bootSector.sectorsPerCluster = 1)
    (clear : s.Clear) (nameable : Nameable f) (regular : RegularOrAbsent s f) (room : RoomFor s f size) (data : Memory) :
    ∃ v t, syscallWriteFile s f data size = some (v,t) ∧ (v > 0 → v = size ∧ ReadsBack t f data size) ∧
      (0 < size → Writable s f → v = size) := by
  have opened := open_spec (nameable.undeleted s) .fresh
  unfold syscallWriteFile
  dsimp only
  generalize fat12Open s f .fresh = outcome at opened
  cases opened with
  | error j lt fault =>
    rw [clear j] at fault
    cases fault
  | missing j le absent =>
    have enough := room.2 absent
    have small := enough.small shape one (by decide)
    rw [Nat.mod_eq_of_lt (by omega)]
    dsimp only
    rw [if_pos minus_one]
    have created := create_spec (s := s.after j) shape f .fresh
    generalize fat12Create (s.after j) f .fresh = outcome at created ⊢
    obtain ⟨r,h,u⟩ := outcome
    obtain ⟨v,t,ran,back,success⟩ := created.round_trip shape sound.after one clear.after nameable
      (fun k resolves => absent k (resolves_after.mp resolves)) enough data
    refine ⟨v,t,ran,back,?_⟩
    rintro positive (⟨k,resolves,_⟩ | ⟨_,slot⟩)
    · exact absurd resolves (absent k)
    · exact success positive slot
  | found k h resolves _ sizeRead first =>
    obtain ⟨cs,chain⟩ := sound.chained _ (resolves.owner regular)
    have enough := room.1 k cs resolves chain
    have small := enough.small shape one chain.length_lt
    rw [Nat.mod_eq_of_lt (by omega)]
    dsimp only
    rw [if_neg (not_not.mpr rfl)]
    have chain' : EntryChain (s.after (k/16+1)) ((s.after (k/16+1)).slot k) cs := chain
    obtain ⟨v,t,ran,back,success⟩ := (resolves_after.mpr resolves).round_trip shape sound.after one clear.after nameable
      regular.after first chain' enough data
    refine ⟨v,t,ran,fun positive => ⟨(back positive).1,(back positive).2.2⟩,?_⟩
    rintro positive (⟨j,other,nonzero⟩ | ⟨absent,_⟩)
    · rw [other.unique resolves] at nonzero
      exact success positive nonzero
    · exact absurd resolves (absent k)

theorem blank_takes {size : Nat} (nameable : Nameable f) (positive : 0 < size) (fits : size ≤ 32768) (data : Memory) :
    ∃ t, syscallWriteFile blank f data size = some ((size : Int),t) ∧ ReadsBack t f data size := by
  have absent : ∀ k, ¬ Resolves blank (name83 f) k := fun k found => found.live.1 rfl
  have room : RoomFor blank f size := by
    refine ⟨fun k cs resolves => absurd resolves (absent k),fun _ => ⟨List.range' 2 64,List.nodup_range',?_,?_⟩⟩
    · intro c member
      have range := List.mem_range'_1.mp member
      exact ⟨floppy_in_volume (by omega) (by omega),blank_fat c⟩
    · rw [clusterBytes_one (v := blank.toMount) rfl,List.length_range',List.length_nil]
      omega
  have writable : Writable blank f := .inr ⟨absent,0,by decide,fun live => live.1 rfl⟩
  obtain ⟨v,t,ran,back,success⟩ := writeFile_reads_back floppy_geometry blank_well_formed.sound rfl (fun _ => rfl) nameable
    (blank_regular f) room data
  have all := success positive writable
  subst all
  exact ⟨t,ran,(back (by omega)).2⟩

-- With one sector in a cluster, as on 1.44MB floppies: what WRITE_FILE reports as written
-- is all of the data, READ_FILE gives it back, and nothing but a missing slot or a file
-- without clusters stops the write.
theorem written_data_read_back (shape : Geometry s.toMount) (sound : Sound s) (one : s.bootSector.sectorsPerCluster = 1)
    (clear : s.Clear) (nameable : Nameable f) (regular : RegularOrAbsent s f) (room : RoomFor s f size) (data : Memory) :
    ∃ v t, syscallWriteFile s f data size = some (v,t) ∧ (v > 0 → v = size ∧ ReadsBack t f data size) ∧
      (0 < size → Writable s f → v = size) :=
  writeFile_reads_back shape sound one clear nameable regular room data

theorem written_data_read_back_new_file : ∃ t, syscallWriteFile blank [0x41] UInt8.ofNat 600 = some (600,t) ∧
    ReadsBack t [0x41] UInt8.ofNat 600 := by
  have absent : ∀ k, ¬ Resolves blank (name83 [0x41]) k := fun k found => found.live.1 rfl
  have room : RoomFor blank [0x41] 600 := by
    refine ⟨fun k cs resolves => absurd resolves (absent k),fun _ => ⟨[2,3],by decide,?_,?_⟩⟩
    · intro c member
      have range : 2 ≤ c ∧ c ≤ 3 := by
        simp only [List.mem_cons,List.not_mem_nil,or_false] at member
        omega
      exact ⟨floppy_in_volume (by omega) (by omega),blank_fat c⟩
    · rw [clusterBytes_one (v := blank.toMount) rfl]
      decide
  have writable : Writable blank [0x41] := .inr ⟨absent,0,by decide,fun live => live.1 rfl⟩
  obtain ⟨v,t,ran,back,success⟩ := written_data_read_back floppy_geometry blank_well_formed.sound rfl (fun _ => rfl) (by decide)
    (blank_regular [0x41]) room UInt8.ofNat
  have all := success (by decide) writable
  subst all
  exact ⟨t,ran,(back (by decide)).2⟩

end SantOS.Fat12
