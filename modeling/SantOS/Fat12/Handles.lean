import SantOS.Fat12.WellFormed

namespace SantOS.Fat12
open ByteMemory LinkedPaths

theorem Resolves.congr {s t : Driver} (found : Resolves s name k) (mount : t.toMount = s.toMount)
    (same : ∀ j ≤ k, ∀ i < 11, t.disk (s.slot j + i) = s.disk (s.slot j + i)) : Resolves t name k := by
  have probe : ∀ j ≤ k, editProbe name t.disk (t.slot j) = editProbe name s.disk (s.slot j) := by
    intro j le
    rw [mount]
    exact editProbe_local name _ _ _ _ (same j le)
  refine ⟨?_,?_,?_⟩
  · rw [mount]
    exact found.inside
  · rw [probe k (Nat.le_refl _)]
    exact found.hit
  · intro j less
    rw [probe j (Nat.le_of_lt less)]
    exact found.before j less

theorem resolves_after {s : Driver} : Resolves (s.after j) name k ↔ Resolves s name k :=
  ⟨fun found => found.congr rfl (fun _ _ _ _ => rfl),fun found => found.congr rfl (fun _ _ _ _ => rfl)⟩

theorem RegularOrAbsent.after {s : Driver} (regular : RegularOrAbsent s f) : RegularOrAbsent (s.after j) f :=
  fun k found => regular k (resolves_after.mp found)

theorem resolves_iff {s t : Driver} (mount : t.toMount = s.toMount)
    (same : ∀ a ∈ s.rootSlots, ∀ i < 11, t.disk (a+i) = s.disk (a+i)) : Resolves t name k ↔ Resolves s name k := by
  constructor
  · intro found
    refine found.congr mount.symm ?_
    intro j le i bound
    have inside : j < 16*s.rootSectors := by
      have top := found.inside
      rw [mount] at top
      omega
    rw [mount]
    exact (same _ (Mount.slot_mem inside) i bound).symm
  · intro found
    refine found.congr mount ?_
    intro j le i bound
    have top := found.inside
    exact same _ (Mount.slot_mem (by omega)) i bound

theorem RegularOrAbsent.congr {s t : Driver} (regular : RegularOrAbsent s f) (mount : t.toMount = s.toMount)
    (same : ∀ a ∈ s.rootSlots, ∀ i < 32, t.disk (a+i) = s.disk (a+i)) : RegularOrAbsent t f := by
  intro k found
  have before := (resolves_iff mount (fun a slot i bound => same a slot i (by omega))).mp found
  have bytes := same _ before.slot_mem
  rw [mount,IsDirectory,attributes_congr bytes]
  exact regular k before

-- A name that starts with 0xE5 converts to one that no live entry has.
theorem live_nameable (live : Live m a) (same : entryName m a = name83 f) : Nameable f := by
  intro deleted
  cases f with
  | nil => cases deleted
  | cons c rest =>
    have first : c = 0xE5 := by simpa using deleted
    subst first
    have head := entryName_head m a
    have byte : (name83 (0xE5::rest)).head? = some 0xE5 := by
      simp [name83,takeField,padded,upper]
    rw [same,byte,Option.some.injEq] at head
    exact live.2 head.symm

section
variable {s t : Driver} {f : List UInt8} {k c : Nat}

theorem Made.kept (made : Made s t f k) (other : j ≠ k) : ∀ i < 32, t.disk (s.slot j + i) = s.disk (s.slot j + i) := by
  intro i bound
  refine made.outside _ ?_ ?_
  · unfold Mount.slot; omega
  · unfold Mount.slot; omega

theorem Made.file (made : Made s t f k) : ¬ IsDirectory t.disk (s.slot k) := by
  rw [IsDirectory,made.archive]
  decide

theorem Made.live (made : Made s t f k) (nameable : Nameable f) : Live t.disk (s.slot k) := nameable.first_byte made.name

theorem Made.owns (made : Made s t f k) (nameable : Nameable f) : Owns t.disk (s.slot k) := by
  refine ⟨made.live nameable,?_,?_⟩
  · rw [made.archive]
    decide
  · rw [made.name]
    exact proper_name f

theorem Made.hit (made : Made s t f k) (nameable : Nameable f) : editProbe (name83 f) t.disk (t.slot k) = .hit := by
  rw [made.mount]
  exact editProbe_hit.mpr ⟨made.live nameable,made.name⟩

theorem Made.resolves (made : Made s t f k) (found : Resolves t (name83 f) j) :
    j = k ∨ (j < k ∧ Resolves s (name83 f) j) := by
  have hit := made.hit (live_nameable found.live found.named)
  rcases Nat.lt_trichotomy j k with less | same | more
  · refine .inr ⟨less,found.congr made.mount.symm ?_⟩
    intro i le b bound
    rw [made.mount]
    exact (made.kept (by omega) b (by omega)).symm
  · exact .inl same
  · have skipped := found.before k more
    rw [hit] at skipped
    cases skipped

theorem Made.regular (made : Made s t f k) (regular : RegularOrAbsent s f) : RegularOrAbsent t f := by
  intro j found
  rw [made.mount]
  rcases made.resolves found with rfl | ⟨less,before⟩
  · exact ⟨by rw [made.archive]; decide,made.file⟩
  · have bytes := made.kept (Nat.ne_of_lt less)
    rw [IsDirectory,attributes_congr bytes]
    exact regular j before

theorem Made.earlier (made : Made s t f k) (less : j < k) : t.disk (s.slot j) ≠ 0 := by
  rw [first_byte_congr (made.kept (Nat.ne_of_lt less))]
  exact (made.before j less).1

theorem Made.handle (made : Made s t f k) (shape : Geometry s.toMount) (sound : Sound s)
    (found : c = findFreeCluster s.fatBuffer) (nonzero : c ≠ 0)
    (table : t.fatBuffer = setFatEntry s.fatBuffer c 0xFFF) (entry : firstClusterLow t.disk (s.slot k) = c) :
    Handle t (s.slot k) c [c] := by
  obtain ⟨two,small,available⟩ := found_free found nonzero
  have edit := taken_edit sound made.inside made.free made.mount table available two made.outside (fun _ => made.file)
  have new := taken_chain sound table available two small entry
  have last : t.fat c = 0xFFF := by
    unfold Driver.fat
    rw [table,get_set_same]
  refine ⟨?_,fun _ => made.file,by simp,.cons (by omega) (.nil (by rw [last]; decide)),new.real,fun _ => entry,?_⟩
  · rw [made.mount]
    exact Mount.slot_mem made.inside
  · intro a ds owner other chain
    have before := (edit.owner_iff shape sound other).mp owner
    exact new.apart a ds before other ((edit.chain_iff shape sound before other).mp chain)

theorem Resolves.handle (resolves : Resolves s (name83 f) k) (regular : RegularOrAbsent s f) (sound : Sound s)
    (chain : EntryChain s (s.slot k) cs) (nonempty : cs ≠ []) :
    Handle s (s.slot k) (firstClusterLow s.disk (s.slot k)) cs := by
  have owner := resolves.owner regular
  refine ⟨resolves.slot_mem,fun _ => (regular k resolves).2,nonempty,?_,sound.inside _ cs owner chain,fun _ => rfl,?_⟩
  · rcases chain with ⟨_,rfl⟩ | ⟨_,_,path⟩
    · exact absurd rfl nonempty
    · exact path
  · intro a ds other different held
    exact sound.apart _ a cs ds owner other (Ne.symm different) chain held

theorem Handle.after (handle : Handle s r c cs) : Handle (s.after j) r c cs := by
  obtain ⟨slot,file,nonempty,path,real,first,apart⟩ := handle
  exact ⟨slot,file,nonempty,path,real,first,fun a ds owner => apart a ds (owner_after.mp owner)⟩

theorem Handle.write {file : File} (handle : Handle s r c cs) (shape : Geometry s.toMount) (first : file.firstCluster = c)
    (ok : Prop) (clear : ok → s.Clear) (buffer : Memory) (size : Nat) :
    ∃ v t fresh, fat12Write s file buffer size = some (v,t) ∧ Written ok s buffer size 0 c cs v t fresh := by
  have start := handle.start
  have word : file.firstCluster % 2^16 = c := by omega
  unfold fat12Write
  rw [word]
  exact writeFrom_spec shape handle.path handle.real (Nat.zero_le _) (fun _ => handle.nonempty) clear (by omega)

theorem Created.success {s t : Driver} {h file : File} (created : Created s f file (v,h,t)) (zero : v = 0) :
    ∃ k c, Made s t f k ∧ c = findFreeCluster s.fatBuffer ∧ c ≠ 0 ∧ t.fatBuffer = setFatEntry s.fatBuffer c 0xFFF ∧
      firstClusterLow t.disk (s.slot k) = c ∧ h.firstCluster = c ∧ Synced t := by
  cases created with
  | made k c h t made cluster nonzero table synced entry size first faults =>
    exact ⟨k,c,made,cluster,nonzero,table,entry,first,synced⟩
  | leaked => exact absurd zero minus_one
  | refused => exact absurd zero minus_one

theorem Created.clear {s t : Driver} {h file : File} (created : Created s f file (v,h,t)) (clear : s.Clear) : t.Clear := by
  cases created with
  | made k c h t made cluster nonzero table synced entry size first faults => exact clear.shift faults
  | refused j => exact clear.after
  | leaked k c t inside free cluster nonzero mount table disk fault =>
    obtain ⟨n,fault⟩ := fault
    rw [clear n] at fault
    cases fault

theorem Created.succeeds {s t : Driver} {h file : File} (created : Created s f file (v,h,t)) (clear : s.Clear)
    (inside : k < 16*s.rootSectors) (slot : ¬ Live s.disk (s.slot k)) (cluster : findFreeCluster s.fatBuffer ≠ 0) : v = 0 := by
  cases created with
  | made => rfl
  | leaked k c t _ _ _ _ _ _ _ fault =>
    obtain ⟨n,fault⟩ := fault
    rw [clear n] at fault
    cases fault
  | refused j cause =>
    rcases cause with ⟨n,fault⟩ | full | none
    · rw [clear n] at fault
      cases fault
    · exact absurd (full k inside) slot
    · exact absurd none cluster

theorem Opened.success {s t : Driver} {h file : File} (opened : Opened s f file (v,h,t)) (zero : v = 0) :
    ∃ k, Resolves s (name83 f) k ∧ h.size = fileSize s.disk (s.slot k) ∧
      h.firstCluster = firstClusterLow s.disk (s.slot k) ∧ t = s.after (k/16+1) := by
  cases opened with
  | found k h resolves clear size first => exact ⟨k,resolves,size,first,rfl⟩
  | missing => exact absurd zero minus_one
  | error => exact absurd zero minus_one

theorem writeAndUpdate_returns {s : Driver} {h : File} (wrote : fat12Write s h buffer size = some (n,u)) :
    ∃ v t, writeAndUpdate s f h buffer size = some (v,t) := by
  rw [writeAndUpdate,wrote]
  dsimp only
  split
  · split <;> exact ⟨_,_,rfl⟩
  · exact ⟨_,_,rfl⟩

theorem EntryChain.empty_first (chain : EntryChain s a []) : firstClusterLow s.disk a = 0 := by
  rcases chain with ⟨zero,_⟩ | ⟨_,nonempty,_⟩
  · exact zero
  · exact absurd rfl nonempty

-- A file without clusters takes no byte.
theorem empty_write (s : Driver) (zero : file.firstCluster = 0) (buffer : Memory) (size : Nat) :
    fat12Write s file buffer size = some (0,s) := by
  unfold fat12Write
  rw [zero,writeFrom,if_neg (by simp)]
  rfl

end

theorem blank_create (f : List UInt8) : ∃ h u, fat12Create blank f .fresh = (0,h,u) ∧ Made blank u f 0 ∧
    u.fatBuffer = setFatEntry blank.fatBuffer 2 0xFFF ∧ firstClusterLow u.disk (blank.slot 0) = 2 ∧
    h.firstCluster = 2 ∧ Synced u := by
  have created := create_spec floppy_geometry (s := blank) f .fresh
  have two : findFreeCluster blank.fatBuffer = 2 := rfl
  rcases ran : fat12Create blank f .fresh with ⟨v,h,u⟩
  rw [ran] at created
  have success := created.succeeds (fun _ => rfl) (k := 0) (by decide) (fun live => live.1 rfl) (by rw [two]; decide)
  subst success
  obtain ⟨k,c,made,found,_,table,entry,first,synced⟩ := created.success rfl
  have slot : k = 0 := by
    by_contra later
    exact (made.before 0 (by omega)).1 rfl
  subst slot
  rw [two] at found
  subst found
  exact ⟨h,u,rfl,made,table,entry,first,synced⟩

theorem blank_create_room (made : Made blank u f 0) (table : u.fatBuffer = setFatEntry blank.fatBuffer 2 0xFFF)
    (cs : List Nat) :
    Room u cs 600 := by
  refine ⟨[3,4],by decide,?_,?_⟩
  · intro d member
    have range : 3 ≤ d ∧ d ≤ 4 := by
      simp only [List.mem_cons,List.not_mem_nil,or_false] at member
      omega
    refine ⟨?_,?_⟩
    · rw [made.mount]
      exact floppy_in_volume (by omega) (by omega)
    · unfold Driver.fat
      rw [table,get_set_other _ _ (by omega)]
      exact blank_fat d
  · have length : u.clusterBytes = 512 := by
      rw [made.mount]
      unfold Mount.clusterBytes
      rfl
    rw [length]
    show 600 ≤ (cs.length + 2)*512
    omega

end SantOS.Fat12
