import SantOS.Fat12.Writing

namespace SantOS.Fat12
open ByteMemory LinkedPaths

-- Calls that changed nothing leave the directory tree as it was, whichever fail next.
theorem directory_faults {s : Driver} : Directory {s with faults := faults} slots ↔ Directory s slots := by
  constructor
  · intro directory
    induction directory with
    | root => exact .root
    | sub _ member owns dir chain ih => exact .sub ih member owns dir chain
  · intro directory
    induction directory with
    | root => exact .root
    | sub _ member owns dir chain ih => exact .sub ih member owns dir chain

theorem owner_faults {s : Driver} : Owner {s with faults := faults} a ↔ Owner s a := by
  simp only [Owner,Entry,directory_faults]

theorem Sound.with_faults {s : Driver} (sound : Sound s) (faults : Nat → Bool) : Sound {s with faults := faults} := by
  refine ⟨?_,?_,?_⟩
  · intro a owner
    exact sound.chained a (owner_faults.mp owner)
  · intro a cs owner
    exact sound.inside a cs (owner_faults.mp owner)
  · intro a b cs ds one two
    exact sound.apart a b cs ds (owner_faults.mp one) (owner_faults.mp two)

theorem directory_after {s : Driver} : Directory (s.after j) slots ↔ Directory s slots := directory_faults
theorem owner_after {s : Driver} : Owner (s.after j) a ↔ Owner s a := owner_faults
theorem Sound.after {s : Driver} (sound : Sound s) : Sound (s.after j) := sound.with_faults _

section
variable {s t : Driver} {k c r : Nat} {cs fresh : List Nat}

theorem taken_edit (sound : Sound s) (inside : k < 16*s.rootSectors) (free : ¬ Live s.disk (s.slot k))
    (mount : t.toMount = s.toMount) (table : t.fatBuffer = setFatEntry s.fatBuffer c 0xFFF) (available : s.fat c = 0)
    (two : 2 ≤ c) (outside : ∀ x, s.rootByte ≤ x → (x < s.slot k ∨ s.slot k + 32 ≤ x) → t.disk x = s.disk x)
    (after : Owns t.disk (s.slot k) → ¬ IsDirectory t.disk (s.slot k)) : RootEdit s t (s.slot k) (· = c) := by
  refine ⟨⟨mount,?_,?_⟩,Mount.slot_mem inside,fun owns => absurd owns.live free,after,?_,?_⟩
  · intro d other
    unfold Driver.fat
    rw [table,get_set_other _ _ other]
  · intro x low away _
    exact outside x low away
  · rintro d rfl
    exact two
  · rintro a ds owner _ chain d member rfl
    exact chain.nonzero member (sound.inside a ds owner chain) available

theorem taken_chain (sound : Sound s) (table : t.fatBuffer = setFatEntry s.fatBuffer c 0xFFF) (available : s.fat c = 0)
    (two : 2 ≤ c) (small : c < 0xFF0) (first : firstClusterLow t.disk r = c) : NewChain s t r [c] := by
  have last : t.fat c = 0xFFF := by
    unfold Driver.fat
    rw [table,get_set_same]
  refine ⟨.inr ⟨by omega,by simp,?_⟩,?_,?_⟩
  · rw [first]
    exact .cons (by omega) (.nil (by rw [last]; decide))
  · intro d member
    rw [List.mem_singleton.mp member]
    exact two
  · intro a ds owner _ chain
    apply List.singleton_disjoint.mpr
    intro member
    exact chain.nonzero member (sound.inside a ds owner chain) available

-- The chain cs that starts at c was written through a handle. It belongs to the root file
-- r or to no entry at all.
structure Handle (s : Driver) (r c : Nat) (cs : List Nat) : Prop where
  slot : r ∈ s.rootSlots
  file : Owns s.disk r → ¬ IsDirectory s.disk r
  nonempty : cs ≠ []
  path : Path s.fat (0xFF8 ≤ ·) c cs
  real : ∀ d ∈ cs, 2 ≤ d
  first : Owns s.disk r → firstClusterLow s.disk r = c
  apart : ∀ a ds, Owner s a → a ≠ r → EntryChain s a ds → cs.Disjoint ds

theorem Handle.start (handle : Handle s r c cs) : 2 ≤ c ∧ c < 0xFF8 := by
  obtain ⟨slot,file,nonempty,path,real,first,apart⟩ := handle
  cases path with
  | nil => exact absurd rfl nonempty
  | cons running _ => exact ⟨real c (List.mem_cons_self ..),by omega⟩

theorem Extended.real (extended : Extended s t c cs fresh) (real : ∀ d ∈ cs, 2 ≤ d) : ∀ d ∈ cs ++ fresh, 2 ≤ d := by
  intro d member
  rcases List.mem_append.mp member with old | new
  · exact real d old
  · exact (extended.free d new).2.1

theorem Extended.root_kept (extended : Extended s t c cs fresh) (shape : Geometry s.toMount) (slot : a ∈ s.rootSlots) :
    ∀ i < 32, t.disk (a+i) = s.disk (a+i) := by
  intro i bound
  have low := (root_slot_inside (c := 2) shape slot).1
  refine extended.disk (a+i) (by omega) ?_
  intro d _
  have below := (root_slot_inside (c := d) shape slot).2
  exact .inl (by omega)

theorem extended_edit (shape : Geometry s.toMount) (sound : Sound s) (handle : Handle s r c cs)
    (extended : Extended s t c cs fresh) : RootEdit s t r (· ∈ cs ++ fresh) := by
  have same := extended.root_kept shape handle.slot
  refine ⟨⟨extended.mount,extended.table,fun x low _ away => extended.disk x low away⟩,handle.slot,handle.file,?_,
    extended.real handle.real,?_⟩
  · intro owns
    have before := handle.file (owns.congr (fun i bound => (same i bound).symm))
    rw [IsDirectory,attributes_congr same]
    exact before
  · intro a ds owner other chain d member touched
    rcases List.mem_append.mp touched with old | new
    · exact handle.apart a ds owner other chain old member
    · exact chain.nonzero member (sound.inside a ds owner chain) (extended.free d new).1

theorem extended_chain (shape : Geometry s.toMount) (sound : Sound s) (handle : Handle s r c cs)
    (extended : Extended s t c cs fresh) (owns : Owns t.disk r) : NewChain s t r (cs ++ fresh) := by
  have same := extended.root_kept shape handle.slot
  have first : firstClusterLow t.disk r = c := by
    rw [firstCluster_congr same]
    exact handle.first (owns.congr (fun i bound => (same i bound).symm))
  have start := handle.start
  refine ⟨.inr ⟨by omega,by simp [handle.nonempty],?_⟩,extended.real handle.real,?_⟩
  · rw [first]
    exact extended.path
  · intro a ds owner other chain
    refine List.disjoint_append_left.mpr ⟨handle.apart a ds owner other chain,?_⟩
    intro d new member
    exact chain.nonzero member (sound.inside a ds owner chain) (extended.free d new).1

theorem regular_stays (resolves : Resolves s (name83 f) k) (regular : RegularOrAbsent s f)
    (same : attributes t.disk (s.slot k) = attributes s.disk (s.slot k)) : ¬ IsDirectory t.disk (s.slot k) := by
  rw [IsDirectory,same]
  exact (regular k resolves).2

theorem resized_edit (resolves : Resolves s (name83 f) k) (regular : RegularOrAbsent s f) (mount : t.toMount = s.toMount)
    (table : t.fatBuffer = s.fatBuffer)
    (outside : ∀ x, s.rootByte ≤ x → (x < s.slot k + 28 ∨ s.slot k + 32 ≤ x) → t.disk x = s.disk x) :
    RootEdit s t (s.slot k) (fun _ => False) := by
  have low : s.rootByte ≤ s.slot k := by unfold Mount.slot; omega
  refine ⟨⟨mount,?_,?_⟩,resolves.slot_mem,fun _ => (regular k resolves).2,?_,fun _ no => no.elim,fun _ _ _ _ _ _ _ no => no⟩
  · intro d _
    unfold Driver.fat
    rw [table]
  · intro x high away _
    exact outside x high (by omega)
  · exact fun _ => regular_stays resolves regular (outside _ (by omega) (by omega))

theorem resized_owns (owns : Owns s.disk (s.slot k))
    (outside : ∀ x, s.rootByte ≤ x → (x < s.slot k + 28 ∨ s.slot k + 32 ≤ x) → t.disk x = s.disk x) :
    Owns t.disk (s.slot k) := by
  have low : s.rootByte ≤ s.slot k := by unfold Mount.slot; omega
  exact owns.congr_head (fun i bound => outside _ (by omega) (.inl (by omega)))

theorem resized_chain (sound : Sound s) (owner : Owner s (s.slot k)) (chain : EntryChain s (s.slot k) cs)
    (table : t.fatBuffer = s.fatBuffer)
    (outside : ∀ x, s.rootByte ≤ x → (x < s.slot k + 28 ∨ s.slot k + 32 ≤ x) → t.disk x = s.disk x) :
    NewChain s t (s.slot k) cs := by
  have low : s.rootByte ≤ s.slot k := by unfold Mount.slot; omega
  have first : firstClusterLow t.disk (s.slot k) = firstClusterLow s.disk (s.slot k) := by
    apply load_congr
    intro i bound
    exact outside _ (by omega) (.inl (by omega))
  refine ⟨chain.congr first ?_,sound.inside _ cs owner chain,?_⟩
  · intro d _
    unfold Driver.fat
    rw [table]
  · intro a ds other different held
    exact sound.apart _ a cs ds owner other (Ne.symm different) chain held

theorem Resolves.walks (resolves : Resolves s (name83 f) k) (regular : RegularOrAbsent s f) (sound : Sound s) :
    freeChain s.fatBuffer (firstClusterLow s.disk (s.slot k)) 0x1000 ≠ none := by
  have owner := resolves.owner regular
  obtain ⟨cs,chain⟩ := sound.chained _ owner
  obtain ⟨freed,ran,_⟩ := freeChain_spec chain (sound.inside _ cs owner chain)
  rw [ran]
  exact Option.some_ne_none freed

theorem freed_edit (sound : Sound s) (resolves : Resolves s (name83 f) k) (regular : RegularOrAbsent s f)
    (chain : EntryChain s (s.slot k) cs) (mount : t.toMount = s.toMount)
    (table : ∀ d, t.fat d = if d ∈ cs then 0 else s.fat d)
    (outside : ∀ x, s.rootByte ≤ x → x ≠ s.slot k → t.disk x = s.disk x) : RootEdit s t (s.slot k) (· ∈ cs) := by
  have low : s.rootByte ≤ s.slot k := by unfold Mount.slot; omega
  have owner := resolves.owner regular
  refine ⟨⟨mount,?_,?_⟩,resolves.slot_mem,fun _ => (regular k resolves).2,?_,sound.inside _ cs owner chain,?_⟩
  · intro d other
    rw [table d,if_neg other]
  · intro x high away _
    exact outside x high (by omega)
  · exact fun _ => regular_stays resolves regular (outside _ (by omega) (by omega))
  · intro a ds other different held d member freed
    exact sound.apart _ a cs ds owner other (Ne.symm different) chain held freed member

end

end SantOS.Fat12
