import Mathlib.Data.List.Perm.Subperm
import SantOS.Fat12.Edits

namespace SantOS.Fat12
open ByteMemory LinkedPaths

theorem newEntry_outside (m : Memory) {a c x : Nat} {name : List UInt8} (outside : x < a ∨ a + 32 ≤ x) :
    newEntry m a name c x = m x := by
  simp only [newEntry]
  rw [store_outside _ (by omega),store_outside _ (by omega),store_outside _ (by omega),
    Function.update_of_ne (by omega),Function.update_of_ne (by omega),blit_outside _ _ (by omega)]

theorem newEntry_name (m : Memory) (a c : Nat) {name : List UInt8} (length : name.length = 11) :
    entryName (newEntry m a name c) a = name := by
  apply List.ext_getElem
  · rw [length]; rfl
  · intro k inside bound
    have small : k < 11 := by rw [length] at bound; exact bound
    simp only [entryName,List.getElem_map,List.getElem_range,newEntry]
    rw [store_outside _ (by omega),store_outside _ (by omega),store_outside _ (by omega),
      Function.update_of_ne (by omega),Function.update_of_ne (by omega),blit_inside _ _ small]
    exact List.getD_eq_getElem name 0 bound

theorem newEntry_attributes (m : Memory) (a c : Nat) (name : List UInt8) :
    attributes (newEntry m a name c) a = 0x20 := by
  simp only [attributes,newEntry]
  rw [store_outside _ (by omega),store_outside _ (by omega),store_outside _ (by omega),
    Function.update_of_ne (by omega),Function.update_self]

theorem newEntry_cluster (m : Memory) {a c : Nat} (name : List UInt8) (word : c < 2^16) :
    firstClusterLow (newEntry m a name c) a = c := by
  simp only [firstClusterLow,newEntry]
  rw [load_store_disjoint _ (.inl (by omega)),load_store_same]
  exact Nat.mod_eq_of_lt word

theorem newEntry_size (m : Memory) (a c : Nat) (name : List UInt8) : fileSize (newEntry m a name c) a = 0 := by
  simp only [fileSize,newEntry]
  rw [load_store_same,Nat.zero_mod]

structure Made (s t : Driver) (f : List UInt8) (k : Nat) : Prop where
  inside : k < 16*s.rootSectors
  free : ¬ Live s.disk (s.slot k)
  before : ∀ j < k, Live s.disk (s.slot j)
  mount : t.toMount = s.toMount
  outside : ∀ x, s.rootByte ≤ x → (x < s.slot k ∨ s.slot k + 32 ≤ x) → t.disk x = s.disk x
  name : entryName t.disk (s.slot k) = name83 f
  archive : attributes t.disk (s.slot k) = 0x20

-- What fat12_create can do: fill the first free slot with a fresh cluster, fail after
-- the cluster was taken in the FAT, or fail with nothing changed.
inductive Created (s : Driver) (f : List UInt8) (file : File) : Int × File × Driver → Prop where
  | made (k c : Nat) (h : File) (t : Driver) (made : Made s t f k) (cluster : c = findFreeCluster s.fatBuffer)
      (nonzero : c ≠ 0) (table : t.fatBuffer = setFatEntry s.fatBuffer c 0xFFF) (synced : Synced t)
      (entry : firstClusterLow t.disk (s.slot k) = c) (size : fileSize t.disk (s.slot k) = 0)
      (first : h.firstCluster = c) (faults : ∃ j, t.faults = (s.after j).faults) : Created s f file (0,h,t)
  | leaked (k c : Nat) (t : Driver) (inside : k < 16*s.rootSectors) (free : ¬ Live s.disk (s.slot k))
      (cluster : c = findFreeCluster s.fatBuffer) (nonzero : c ≠ 0) (mount : t.toMount = s.toMount)
      (table : t.fatBuffer = setFatEntry s.fatBuffer c 0xFFF)
      (disk : ∀ x, s.rootByte ≤ x → t.disk x = s.disk x) (fault : ∃ n, s.faults n = true) : Created s f file (-1,file,t)
  | refused (j : Nat) (cause : (∃ n, s.faults n = true) ∨ (∀ k < 16*s.rootSectors, Live s.disk (s.slot k)) ∨
      findFreeCluster s.fatBuffer = 0) : Created s f file (-1,file,s.after j)

theorem find_free_lt (m : Memory) : findFreeCluster m < 2^16 := by
  rcases findFreeCluster_spec m with ⟨zero,_⟩ | ⟨_,bound,_⟩
  · rw [zero]; decide
  · omega

theorem create_spec {s : Driver} (shape : Geometry s.toMount) (f : List UInt8) (file : File) :
    Created s f file (fat12Create s f file) := by
  have scanned := scanRoot_spec createProbe_local s s.rootSectors
  rw [fat12Create]
  generalize scanRoot createProbe s 0 s.rootSectors = outcome at scanned
  cases scanned with
  | missing j le clear unmatched =>
    refine .refused j (.inr (.inl ?_))
    intro k inside
    by_contra free
    obtain ⟨i,_,stop⟩ := unmatched k inside (createProbe_hit.mpr free)
    exact createProbe_stop stop
  | error j lt fault before => exact .refused _ (.inl ⟨j,fault⟩)
  | found k buffer inside hit before copied clear =>
    have same : (s.after (k/16+1)).fatBuffer = s.fatBuffer := rfl
    simp only [same]
    generalize cluster : findFreeCluster s.fatBuffer = c
    by_cases none : c = 0
    · rw [if_pos none]
      exact .refused _ (.inr (.inr (cluster.trans none)))
    rw [if_neg none]
    have saved := save_table (s := s.after (k/16+1)) shape (setFatEntry s.fatBuffer c 0xFFF)
    generalize writeFatTable {s.after (k/16+1) with fatBuffer := setFatEntry s.fatBuffer c 0xFFF} = outcome at saved ⊢
    obtain ⟨r,v⟩ := outcome
    have disk : ∀ x, s.rootByte ≤ x → v.disk x = s.disk x := saved.disk
    rcases saved.result with ⟨rfl,synced,_,shift⟩ | ⟨rfl,n,_,fault,_⟩
    · have kept : ∀ i < 512, (i < k%16*32 ∨ k%16*32 + 32 ≤ i) → newEntry buffer (k%16*32) (name83 f) c i = buffer i :=
        fun i _ away => newEntry_outside buffer away
      have edited := edit_slot shape saved.mount disk copied kept
      generalize fdcWriteSectors v _ _ _ _ = outcome at edited ⊢
      cases edited with
      | error fault =>
        rw [shift] at fault
        exact .leaked k c _ inside (createProbe_hit.mp hit) cluster.symm none saved.mount saved.table disk ⟨_,fault⟩
      | done t mount table outside entry synced' clear' faults =>
        refine .made k c _ t ⟨inside,createProbe_hit.mp hit,?_,mount.trans saved.mount,outside,?_,?_⟩ cluster.symm none
          (table.trans saved.table) (synced' synced) ?_ ?_ rfl ?_
        · intro j less
          by_contra free
          have skipped := before j less
          rw [createProbe_hit.mpr free] at skipped
          cases skipped
        · rw [entryName_shift (fun i bound => entry i (by omega))]
          exact newEntry_name buffer _ c (name83_length f)
        · exact (entry 11 (by decide)).trans (newEntry_attributes buffer (k%16*32) c (name83 f))
        · rw [firstCluster_shift entry]
          exact newEntry_cluster buffer _ (by rw [← cluster]; exact find_free_lt _)
        · rw [fileSize_shift entry]
          exact newEntry_size buffer _ c _
        · exact shift_trans (shift_trans ⟨_,rfl⟩ ⟨_,shift⟩) ⟨_,faults⟩
    · exact .leaked k c v inside (createProbe_hit.mp hit) cluster.symm none saved.mount saved.table disk ⟨_,fault⟩

theorem freeChain_path {m : Memory} {c n : Nat} {cs : List Nat} (path : Path (getFatEntry m) (0xFF8 ≤ ·) c cs)
    (real : ∀ d ∈ cs, 2 ≤ d) (fuel : cs.length < n) :
    ∃ freed, freeChain m c n = some freed ∧ ∀ d, getFatEntry freed d = if d ∈ cs then 0 else getFatEntry m d := by
  induction n generalizing m c cs with
  | zero => exact absurd fuel (Nat.not_lt_zero _)
  | succ n ih =>
    have distinct := path.nodup
    cases path with
    | nil done =>
      rw [freeChain,if_neg (by omega)]
      exact ⟨m,rfl,fun d => by simp⟩
    | @cons _ rest more behind =>
      have two := real c (List.mem_cons_self ..)
      obtain ⟨here,_⟩ := List.nodup_cons.mp distinct
      rw [freeChain,if_pos ⟨two,by omega⟩]
      have kept : Path (getFatEntry (setFatEntry m c 0)) (0xFF8 ≤ ·) (getFatEntry m c) rest := by
        refine behind.congr ?_
        intro d member
        exact get_set_other m 0 (fun same => here (same ▸ member))
      obtain ⟨freed,ran,entries⟩ := ih kept (fun d member => real d (List.mem_cons_of_mem _ member)) (by simpa using fuel)
      refine ⟨freed,ran,?_⟩
      intro d
      rw [entries d]
      by_cases same : d = c
      · subst same
        rw [if_neg here,if_pos (List.mem_cons_self ..),get_set_same]
      · rw [get_set_other m 0 same]
        simp only [List.mem_cons,same,false_or]

theorem EntryChain.length_lt (chain : EntryChain s a cs) : cs.length < 0x1000 := by
  rcases chain with ⟨_,rfl⟩ | ⟨_,_,path⟩
  · decide
  · have below : ∀ c ∈ cs, c ∈ List.range 0xFF8 := by
      intro c member
      have running := path.running member
      exact List.mem_range.mpr (by omega)
    have short := (List.Nodup.subperm path.nodup below).length_le
    rw [List.length_range] at short
    omega

theorem freeChain_spec (chain : EntryChain s a cs) (real : ∀ d ∈ cs, 2 ≤ d) :
    ∃ freed, freeChain s.fatBuffer (firstClusterLow s.disk a) 0x1000 = some freed ∧
      ∀ d, getFatEntry freed d = if d ∈ cs then 0 else s.fat d := by
  have short := chain.length_lt
  rcases chain with ⟨zero,rfl⟩ | ⟨_,_,path⟩
  · refine ⟨s.fatBuffer,?_,fun d => by simp [Driver.fat]⟩
    rw [zero,freeChain,if_neg (by omega)]
  · exact freeChain_path path real short

theorem freed_fat {s t : Driver} (chain : EntryChain s a cs) (real : ∀ d ∈ cs, 2 ≤ d)
    (walk : freeChain s.fatBuffer (firstClusterLow s.disk a) 0x1000 = some freed) (table : t.fatBuffer = freed) :
    ∀ d, t.fat d = if d ∈ cs then 0 else s.fat d := by
  obtain ⟨_,ran,entries⟩ := freeChain_spec chain real
  rw [walk,Option.some.injEq] at ran
  intro d
  unfold Driver.fat
  rw [table,ran]
  exact entries d

-- What fat12_delete can do: free the chain and mark the entry, fail in between, or
-- fail with nothing changed.
inductive Deleted (s : Driver) (f : List UInt8) : Option (Int × Driver) → Prop where
  | done (k : Nat) (freed : Memory) (t : Driver) (resolves : Resolves s (name83 f) k)
      (walk : freeChain s.fatBuffer (firstClusterLow s.disk (s.slot k)) 0x1000 = some freed)
      (mount : t.toMount = s.toMount) (fat : t.fatBuffer = freed)
      (outside : ∀ x, s.rootByte ≤ x → x ≠ s.slot k → t.disk x = s.disk x) (mark : t.disk (s.slot k) = 0xE5)
      (synced : Synced t) (clear : ∀ n < k/16 + 2 + s.bootSector.sectorsPerFat, s.faults n = false)
      (faults : ∃ j, t.faults = (s.after j).faults) : Deleted s f (some (0,t))
  | exposed (k : Nat) (freed : Memory) (t : Driver) (n : Nat) (resolves : Resolves s (name83 f) k)
      (walk : freeChain s.fatBuffer (firstClusterLow s.disk (s.slot k)) 0x1000 = some freed)
      (mount : t.toMount = s.toMount) (fat : t.fatBuffer = freed)
      (disk : ∀ x, s.rootByte ≤ x → t.disk x = s.disk x) (fault : s.faults n = true) (behind : k/16 < n)
      (within : n < k/16 + 2 + s.bootSector.sectorsPerFat) : Deleted s f (some (-1,t))
  | stuck (k : Nat) (resolves : Resolves s (name83 f) k)
      (walk : freeChain s.fatBuffer (firstClusterLow s.disk (s.slot k)) 0x1000 = none) : Deleted s f none
  | missing (j : Nat) (absent : ∀ k, ¬ Resolves s (name83 f) k) : Deleted s f (some (-1,s.after j))
  | error (n j : Nat) (fault : s.faults n = true) (late : ∀ k, Resolves s (name83 f) k → n ≤ k/16) :
      Deleted s f (some (-1,s.after j))

theorem delete_spec {s : Driver} (shape : Geometry s.toMount) (f : List UInt8) : Deleted s f (fat12Delete s f) := by
  have scanned := scanRoot_spec (editProbe_local (name83 f)) s s.rootSectors
  rw [fat12Delete]
  generalize scanRoot (editProbe (name83 f)) s 0 s.rootSectors = outcome at scanned
  cases scanned with
  | missing j le clear unmatched => exact .missing j (not_resolves unmatched)
  | error j lt fault before => exact .error j _ fault (fun k => resolves_late before)
  | found k buffer inside hit before copied clear =>
    have resolves : Resolves s (name83 f) k := ⟨inside,hit,before⟩
    have first : firstClusterLow buffer (k%16*32) = firstClusterLow s.disk (s.slot k) :=
      firstCluster_shift (copied_entry copied)
    have same : (s.after (k/16+1)).fatBuffer = s.fatBuffer := rfl
    simp only [first,same]
    cases walk : freeChain s.fatBuffer (firstClusterLow s.disk (s.slot k)) 0x1000 with
    | none => exact .stuck k resolves walk
    | some freed =>
      dsimp only
      have saved := save_table (s := s.after (k/16+1)) shape freed
      generalize writeFatTable {s.after (k/16+1) with fatBuffer := freed} = outcome at saved ⊢
      obtain ⟨r,v⟩ := outcome
      have disk : ∀ x, s.rootByte ≤ x → v.disk x = s.disk x := saved.disk
      rcases saved.result with ⟨rfl,synced,tableClear,shift⟩ | ⟨rfl,n,bound,fault,_⟩
      · have kept : ∀ i < 512, (i < k%16*32 ∨ k%16*32 + 32 ≤ i) →
            Function.update buffer (k%16*32) 0xE5 i = buffer i :=
          fun i _ away => Function.update_of_ne (by omega) _ _
        have edited := edit_slot shape saved.mount disk copied kept
        have atSlot : v.faults 0 = s.faults (k/16 + 1 + s.bootSector.sectorsPerFat) := by
          rw [shift,after_faults,after_faults]
          exact congrArg s.faults (by show 0 + s.bootSector.sectorsPerFat + (k/16+1) = _; omega)
        generalize fdcWriteSectors v _ _ _ _ = outcome at edited ⊢
        cases edited with
        | error fault =>
          rw [atSlot] at fault
          exact .exposed k freed _ _ resolves walk saved.mount saved.table disk fault (by omega) (by omega)
        | done t mount table outside entry synced' clear' faults =>
          refine .done k freed t resolves walk (mount.trans saved.mount) (table.trans saved.table) ?_ ?_ (synced' synced)
            ?_ (shift_trans (shift_trans ⟨_,rfl⟩ ⟨_,shift⟩) ⟨_,faults⟩)
          · intro x low other
            by_cases slot : s.slot k ≤ x ∧ x < s.slot k + 32
            · have atX := entry (x - s.slot k) (by omega)
              have beforeX := copied_entry copied (x - s.slot k) (by omega)
              rw [Nat.add_sub_of_le slot.1] at atX beforeX
              exact atX.trans ((Function.update_of_ne (by omega) _ _).trans beforeX)
            · exact outside x low (by omega)
          · exact (entry 0 (by decide)).trans (Function.update_self ..)
          · intro n bound
            by_cases lookup : n ≤ k/16
            · exact clear n lookup
            · by_cases last : n = k/16 + 1 + s.bootSector.sectorsPerFat
              · rw [last,← atSlot]
                exact clear'
              · have early : n - (k/16+1) < s.bootSector.sectorsPerFat := by omega
                have table := tableClear (n - (k/16+1)) early
                rw [after_faults,Nat.sub_add_cancel (by omega)] at table
                exact table
      · exact .exposed k freed v (n + (k/16+1)) resolves walk saved.mount saved.table disk fault (by omega)
          (by have bound : n < s.bootSector.sectorsPerFat := bound; omega)

end SantOS.Fat12
