import SantOS.Fat12.Files

namespace SantOS.Fat12
open ByteMemory LinkedPaths

structure Child (s : Driver) (a : Nat) (name : List UInt8) : Prop where
  live : Live s.disk a
  dir : IsDirectory s.disk a
  named : entryName s.disk a = name83 name

def listed (m : Memory) (slots : List Nat) : List Nat := slots.takeWhile (fun a => m a ≠ 0)

-- The directory that a path names: its first cluster (0 for the root) and its slots.
inductive Reaches (s : Driver) : List (List UInt8) → Nat → List Nat → Prop where
  | root : Reaches s [] 0 s.rootSlots
  | sub (parent : Reaches s path c slots) (member : a ∈ listed s.disk slots) (child : Child s a name) (chain : EntryChain s a cs) :
      Reaches s (path ++ [name]) (firstClusterLow s.disk a) (s.chainSlots cs)

-- The subdirectory of entry a in the directory with first cluster parent: a chain of
-- clusters that starts with "." and "..".
structure Subdirectory (s : Driver) (parent a d : Nat) (ds : List Nat) : Prop where
  chain : EntryChain s a (d::ds)
  clusters : ∀ e ∈ d::ds, 2 ≤ e
  dot : entryName s.disk (s.dataByte d) = dotName ∧ firstClusterLow s.disk (s.dataByte d) = d
  dotdot : entryName s.disk (s.dataByte d + 32) = dotdotName ∧ firstClusterLow s.disk (s.dataByte d + 32) = parent

-- No name starts with a space.
structure DirectoryTree (s : Driver) : Prop where
  sub : ∀ path c slots a name, Reaches s path c slots → a ∈ listed s.disk slots → Child s a name → ∃ d ds, Subdirectory s c a d ds
  named : ∀ path c slots a, Reaches s path c slots → a ∈ listed s.disk slots → Live s.disk a → s.disk a ≠ 0x20

section
variable {s : Driver} {probe : Memory → Nat → Probe} {a c : Nat} {slots cs : List Nat}

structure Hit (s : Driver) (probe : Memory → Nat → Probe) (a idx : Nat) (buffer : Memory) : Prop where
  hit : probe s.disk a = .hit
  copied : ∀ i < 32, buffer (idx*32+i) = s.disk (a+i)

theorem Hit.firstCluster (hit : Hit s probe a idx buffer) : firstClusterLow buffer (idx*32) = firstClusterLow s.disk a := by
  apply load_congr
  intro i bound
  rw [Nat.add_assoc,Nat.add_assoc]
  exact hit.copied (26+i) (by omega)

theorem Hit.attributes (hit : Hit s probe a idx buffer) : Fat12.attributes buffer (idx*32) = Fat12.attributes s.disk a :=
  hit.copied 11 (by decide)

theorem listed_range {m : Memory} (f : Nat → Nat) (inside : k < n) (before : ∀ i ≤ k, m (f i) ≠ 0) :
    f k ∈ listed m ((List.range n).map f) := by
  have cut : n = k + 1 + (n - (k+1)) := by omega
  rw [listed,cut,List.range_add,List.map_append,List.takeWhile_append_of_pos]
  · exact List.mem_append_left _ (List.mem_map.mpr ⟨k,List.mem_range.mpr (Nat.lt_succ_self k),rfl⟩)
  · intro a member
    obtain ⟨i,low,rfl⟩ := List.mem_map.mp member
    simpa using before i (Nat.le_of_lt_succ (List.mem_range.mp low))

theorem listed_first {m : Memory} {xs : List Nat} (ys : List Nat) (member : a ∈ listed m xs) : a ∈ listed m (xs ++ ys) := by
  rw [listed,List.takeWhile_append]
  split
  · exact List.mem_append_left _ (List.takeWhile_subset _ member)
  · exact member

theorem listed_later {m : Memory} {xs : List Nat} (whole : ∀ b ∈ xs, m b ≠ 0) (member : a ∈ listed m ys) :
    a ∈ listed m (xs ++ ys) := by
  rw [listed,List.takeWhile_append_of_pos (fun b inside => by simpa using whole b inside)]
  exact List.mem_append_right _ member

-- What the scan of a copied sector has passed holds no end mark, and an entry it takes is
-- behind none.
theorem scan_copied_spec {buffer : Memory} (here : Local probe) (ends : ∀ m a, m a = 0 → probe m a = .stop)
    (copied : ∀ i < 512, buffer i = s.disk (lba*512 + i)) :
    (∃ idx, scanSector probe buffer 0 16 = (.skip,idx) ∧ ∀ k < 16, s.disk (lba*512 + 32*k) ≠ 0) ∨
      (∃ idx, scanSector probe buffer 0 16 = (.stop,idx)) ∨
      ∃ j < 16, scanSector probe buffer 0 16 = (.hit,j) ∧ (∀ l ≤ j, s.disk (lba*512 + 32*l) ≠ 0) ∧
        Hit s probe (lba*512 + 32*j) j buffer := by
  have probed : ∀ k < 16, probe buffer (k*32) = probe s.disk (lba*512 + 32*k) := by
    intro k bound
    rw [Nat.mul_comm 32 k]
    exact probe_copied here copied bound
  have passed : ∀ k < 16, probe buffer (k*32) ≠ .stop → s.disk (lba*512 + 32*k) ≠ 0 := by
    intro k bound goesOn mark
    exact goesOn ((probed k bound).trans (ends _ _ mark))
  rcases scanSector_spec probe buffer 0 16 with ⟨skipped,skips⟩ | ⟨j,found,other,_,inside,skips⟩
  · refine .inl ⟨_,Prod.ext skipped rfl,fun k bound => passed k bound ?_⟩
    rw [skips k (Nat.zero_le _) (by omega)]
    decide
  · cases outcome : probe buffer (j*32) with
    | skip => exact absurd outcome other
    | stop => exact .inr (.inl ⟨j,found.trans (by rw [outcome])⟩)
    | hit =>
      refine .inr (.inr ⟨j,by omega,found.trans (by rw [outcome]),?_,(probed j (by omega)).symm.trans outcome,?_⟩)
      · intro l le
        refine passed l (by omega) ?_
        by_cases last : l = j
        · rw [last,outcome]
          decide
        · rw [skips l (Nat.zero_le _) (by omega)]
          decide
      · intro b bound
        rw [copied _ (by omega),Nat.mul_comm 32 j,Nat.add_assoc]

theorem passed_next {disk : Memory} (first : ∀ k < 16, disk (sector*512 + 32*k) ≠ 0)
    (rest : ∀ k < n, disk ((sector+1)*512 + 32*k) ≠ 0) : ∀ k < 16 + n, disk (sector*512 + 32*k) ≠ 0 := by
  intro k bound
  by_cases here : k < 16
  · exact first k here
  · have behind := rest (k-16) (by omega)
    rwa [show (sector+1)*512 + 32*(k-16) = sector*512 + 32*k by omega] at behind

theorem searchCluster_spec (here : Local probe) (ends : ∀ m a, m a = 0 → probe m a = .stop) (s : Driver)
    (i sector left : Nat) :
    ∃ j r, searchCluster probe (s.after i) sector left = (r,s.after j) ∧
      (r = .further → ∀ k < 16*left, s.disk (sector*512 + 32*k) ≠ 0) ∧
      ∀ idx buffer, r = .found idx buffer →
        ∃ k < 16*left, (∀ l ≤ k, s.disk (sector*512 + 32*l) ≠ 0) ∧ Hit s probe (sector*512 + 32*k) idx buffer := by
  induction left generalizing i sector with
  | zero => exact ⟨i,.further,rfl,fun _ k bound => by omega,fun idx buffer same => by cases same⟩
  | succ left ih =>
    rw [searchCluster]
    cases state : (s.after i).faults 0 with
    | true =>
      rw [read_fault state,Driver.after_after]
      exact ⟨i+1,.ended,rfl,fun same => (by cases same),fun idx buffer same => by cases same⟩
    | false =>
      obtain ⟨buffer,ran,copied⟩ := read_sector state sector
      rw [ran,Driver.after_after]
      dsimp only
      rw [if_neg (by decide)]
      rcases scan_copied_spec here ends copied with ⟨idx,skipped,passed⟩ | ⟨idx,stopped⟩ | ⟨j,inside,found,before,hit⟩
      · rw [skipped]
        obtain ⟨j,r,ran,all,finds⟩ := ih (i+1) (sector+1)
        refine ⟨j,r,ran,fun same k bound => passed_next passed (all same) k (by omega),?_⟩
        intro idx buffer same
        obtain ⟨k,bound,before,hit⟩ := finds idx buffer same
        have behind := passed_next passed (fun l low => before l (by omega) : ∀ l < k+1, s.disk ((sector+1)*512 + 32*l) ≠ 0)
        refine ⟨16 + k,by omega,fun l le => behind l (by omega),?_⟩
        rwa [show sector*512 + 32*(16+k) = (sector+1)*512 + 32*k by omega]
      · rw [stopped]
        exact ⟨i+1,.ended,rfl,fun same => (by cases same),fun idx buffer same => by cases same⟩
      · rw [found]
        refine ⟨i+1,_,rfl,fun same => (by cases same),?_⟩
        intro idx buffer' same
        cases same
        exact ⟨j,by omega,before,hit.hit,hit.copied⟩

theorem searchChain_spec (here : Local probe) (ends : ∀ m a, m a = 0 → probe m a = .stop)
    (path : Path s.fat (0xFF8 ≤ ·) c cs)
    (real : ∀ d ∈ cs, 2 ≤ d) (i : Nat) (enough : cs.length < fuel) :
    ∃ j r, searchChain probe (s.after i) c fuel = some (r,s.after j) ∧
      ∀ idx buffer, r = .found idx buffer → ∃ a ∈ listed s.disk (s.chainSlots cs), Hit s probe a idx buffer := by
  induction fuel generalizing c cs i with
  | zero => omega
  | succ fuel ih =>
    rw [searchChain]
    cases path with
    | nil done =>
      rw [if_neg (by omega)]
      exact ⟨i,.ended,rfl,fun idx buffer same => by cases same⟩
    | @cons _ rest more path =>
      have two := real c List.mem_cons_self
      have first : s.chainSlots (c::rest) = s.clusterSlots c ++ s.chainSlots rest := List.flatMap_cons
      rw [if_pos ⟨two,by omega⟩,first]
      obtain ⟨j,r,ran,all,finds⟩ := searchCluster_spec here ends s i (s.clusterSector c) s.bootSector.sectorsPerCluster
      rw [show (s.after i).clusterSector c = s.clusterSector c from rfl,
        show (s.after i).bootSector.sectorsPerCluster = s.bootSector.sectorsPerCluster from rfl,ran]
      have start : s.clusterSector c*512 = s.dataByte c := by
        unfold Mount.dataByte
        omega
      rw [start] at all finds
      cases r with
      | ended => exact ⟨j,.ended,rfl,fun idx buffer same => by cases same⟩
      | further =>
        obtain ⟨j',r,ran,finds⟩ := ih path (fun d member => real d (List.mem_cons_of_mem _ member)) j (by
          rw [List.length_cons] at enough
          omega)
        have whole : ∀ b ∈ s.clusterSlots c, s.disk b ≠ 0 := by
          intro b member
          obtain ⟨k,bound,rfl⟩ := List.mem_map.mp member
          exact all rfl k (List.mem_range.mp bound)
        refine ⟨j',r,ran,?_⟩
        intro idx buffer same
        obtain ⟨a,member,hit⟩ := finds idx buffer same
        exact ⟨a,listed_later whole member,hit⟩
      | found idx buffer =>
        refine ⟨j,_,rfl,?_⟩
        intro idx' buffer' same
        cases same
        obtain ⟨k,bound,before,hit⟩ := finds idx buffer rfl
        exact ⟨_,listed_first _ (listed_range (fun k => s.dataByte c + 32*k) bound before),hit⟩

theorem Reaches.shape (tree : DirectoryTree s) (reaches : Reaches s path c slots) :
    (path = [] ∧ c = 0 ∧ slots = s.rootSlots) ∨
      (path ≠ [] ∧ 2 ≤ c ∧ ∃ cs, slots = s.chainSlots cs ∧ Path s.fat (0xFF8 ≤ ·) c cs ∧ (∀ d ∈ cs, 2 ≤ d) ∧ cs.length < 0x1000) := by
  cases reaches with
  | root => exact .inl ⟨rfl,rfl,rfl⟩
  | sub parent member child chain =>
    obtain ⟨d,ds,sub⟩ := tree.sub _ _ _ _ _ parent member child
    rw [chain.unique sub.chain] at *
    rcases sub.chain with ⟨_,empty⟩ | ⟨_,_,path⟩
    · cases empty
    · refine .inr ⟨by simp,?_,d::ds,rfl,path,sub.clusters,sub.chain.length_lt⟩
      rw [← path.head]
      exact sub.clusters d List.mem_cons_self

theorem root_listed {s : Driver} (inside : k < 16*s.rootSectors) (hit : openProbe name s.disk (s.slot k) = .hit)
    (before : ∀ j < k, openProbe name s.disk (s.slot j) = .skip) : s.slot k ∈ listed s.disk s.rootSlots := by
  have slot (l : Nat) : s.slot l = s.rootByte + 32*l := by rw [Mount.slot]
  rw [slot]
  refine listed_range (fun k => s.rootByte + 32*k) inside ?_
  intro l le mark
  rw [← slot] at mark
  have stop : openProbe name s.disk (s.slot l) = .stop := openProbe_stop.mpr mark
  by_cases last : l = k
  · rw [last,hit] at stop
    cases stop
  · rw [before l (by omega)] at stop
    cases stop

theorem findEntry_spec (tree : DirectoryTree s) (reaches : Reaches s path c slots) (name : List UInt8) :
    ∃ cluster isDir j, fat12FindEntry s c name = some (cluster,isDir,s.after j) ∧
      ((cluster = 0 ∧ isDir = false) ∨ ∃ a ∈ listed s.disk slots, openProbe (name83 name) s.disk a = .hit ∧
        cluster = firstClusterLow s.disk a ∧ isDir = decide (attributes s.disk a &&& 0x10 ≠ 0)) := by
  unfold fat12FindEntry
  rcases reaches.shape tree with ⟨_,rfl,rfl⟩ | ⟨_,two,cs,rfl,path,real,short⟩
  · have scanned := scanRoot_spec (openProbe_local (name83 name)) s s.rootSectors
    rw [if_pos rfl]
    generalize scanRoot (openProbe (name83 name)) s 0 s.rootSectors = outcome at scanned
    cases scanned with
    | missing j => exact ⟨0,false,j,rfl,.inl ⟨rfl,rfl⟩⟩
    | error j => exact ⟨0,false,j+1,rfl,.inl ⟨rfl,rfl⟩⟩
    | found k buffer inside hit before copied _ =>
      have entry : Hit s (openProbe (name83 name)) (s.slot k) (k%16) buffer := by
        refine ⟨hit,?_⟩
        intro i bound
        rw [copied _ (by omega)]
        unfold Mount.slot
        congr 1
        omega
      refine ⟨_,_,_,rfl,.inr ⟨s.slot k,root_listed inside hit before,hit,entry.firstCluster,?_⟩⟩
      rw [entry.attributes]
  · obtain ⟨j,r,ran,finds⟩ := searchChain_spec (openProbe_local (name83 name)) (fun _ _ => openProbe_stop.mpr) path real 0 short
    have start : s.after 0 = s := rfl
    rw [start] at ran
    rw [if_neg (by omega),ran]
    cases r with
    | ended => exact ⟨0,false,j,rfl,.inl ⟨rfl,rfl⟩⟩
    | further => exact ⟨0,false,j,rfl,.inl ⟨rfl,rfl⟩⟩
    | found idx buffer =>
      obtain ⟨a,member,entry⟩ := finds idx buffer rfl
      refine ⟨_,_,_,rfl,.inr ⟨a,member,entry.hit,entry.firstCluster,?_⟩⟩
      rw [entry.attributes]

theorem Reaches.enter (tree : DirectoryTree s) (reaches : Reaches s path c slots) (nameable : Nameable name)
    (member : a ∈ listed s.disk slots)
    (hit : openProbe (name83 name) s.disk a = .hit) (dir : attributes s.disk a &&& 0x10 ≠ 0) :
    ∃ slots', Reaches s (path ++ [name]) (firstClusterLow s.disk a) slots' := by
  obtain ⟨_,named⟩ := openProbe_hit.mp hit
  have child : Child s a name := ⟨nameable.first_byte named,dir,named⟩
  obtain ⟨d,ds,sub⟩ := tree.sub _ _ _ _ _ reaches member child
  exact ⟨_,.sub reaches member child sub.chain⟩

-- ".." is converted to a name that begins with a space, so it is never found.
theorem dotdot_not_found (tree : DirectoryTree s) (reaches : Reaches s path c slots) :
    ∃ j, fat12FindEntry s c [0x2E,0x2E] = some (0,false,s.after j) := by
  obtain ⟨cluster,isDir,j,ran,nothing | ⟨a,member,hit,_⟩⟩ := findEntry_spec tree reaches [0x2E,0x2E]
  · rw [nothing.1,nothing.2] at ran
    exact ⟨j,ran⟩
  · obtain ⟨some_,named⟩ := openProbe_hit.mp hit
    have first : s.disk a = 0x20 := Option.some.inj ((entryName_head s.disk a).symm.trans (congrArg List.head? named))
    have live : Live s.disk a := by
      rw [Live,first]
      decide
    exact absurd first (tree.named _ _ _ _ reaches member live)

theorem Reaches.congr {t : Driver} (mount : t.toMount = s.toMount) (disk : t.disk = s.disk)
    (table : t.fatBuffer = s.fatBuffer)
    (reaches : Reaches s path c slots) : Reaches t path c slots := by
  induction reaches with
  | root =>
    rw [← mount]
    exact .root
  | @sub path c slots a name cs _ member child chain ih =>
    have fat : t.fat = s.fat := by
      unfold Driver.fat
      rw [table]
    have shown : a ∈ listed t.disk slots := by rwa [disk]
    rw [← mount,← disk]
    refine .sub ih shown ⟨?_,?_,?_⟩ ?_
    · rw [disk]
      exact child.live
    · rw [disk]
      exact child.dir
    · rw [disk]
      exact child.named
    · rw [EntryChain,disk,fat]
      exact chain

theorem reaches_after : Reaches (s.after j) path c slots ↔ Reaches s path c slots := ⟨.congr rfl rfl rfl,.congr rfl rfl rfl⟩

theorem DirectoryTree.after (tree : DirectoryTree s) : DirectoryTree (s.after j) := by
  refine ⟨?_,fun path c slots a reaches => tree.named path c slots a (reaches_after.mp reaches)⟩
  intro path c slots a name reaches member child
  obtain ⟨d,ds,sub⟩ := tree.sub path c slots a name (reaches_after.mp reaches) member ⟨child.live,child.dir,child.named⟩
  exact ⟨d,ds,sub.chain,sub.clusters,sub.dot,sub.dotdot⟩

end

end SantOS.Fat12
