import SantOS.Fat12.Volume

namespace SantOS.Fat12
open ByteMemory LinkedPaths

-- Every operation on a root file changes one root slot, some clusters and the FAT.
-- touched are the clusters whose FAT entry or sectors may change.
structure Effect (s t : Driver) (r : Nat) (touched : Nat → Prop) : Prop where
  mount : t.toMount = s.toMount
  fat : ∀ c, ¬ touched c → t.fat c = s.fat c
  disk : ∀ x, s.rootByte ≤ x → (x < r ∨ r + 32 ≤ x) →
    (∀ c, touched c → x < s.dataByte c ∨ s.dataByte c + s.clusterBytes ≤ x) → t.disk x = s.disk x

-- The edited slot is a root slot that holds no directory, before or after, and the
-- touched clusters lie in no other entry's chain.
structure RootEdit (s t : Driver) (r : Nat) (touched : Nat → Prop) : Prop extends Effect s t r touched where
  slot : r ∈ s.rootSlots
  fileBefore : Owns s.disk r → ¬ IsDirectory s.disk r
  fileAfter : Owns t.disk r → ¬ IsDirectory t.disk r
  real : ∀ c, touched c → 2 ≤ c
  spared : ∀ a cs, Owner s a → a ≠ r → EntryChain s a cs → ∀ c ∈ cs, ¬ touched c

theorem root_slot_inside (shape : Geometry v) {c : Nat} (slot : a ∈ v.rootSlots) :
    v.rootByte ≤ a ∧ a + 32 ≤ v.dataByte c := by
  obtain ⟨k,bound,rfl⟩ := Mount.mem_rootSlots.mp slot
  have before := shape.root_before_data c
  omega

theorem rootSlots_apart {v : Mount} (one : a ∈ v.rootSlots) (two : b ∈ v.rootSlots) (different : a ≠ b) :
    a + 32 ≤ b ∨ b + 32 ≤ a := by
  obtain ⟨k,_,rfl⟩ := Mount.mem_rootSlots.mp one
  obtain ⟨j,_,rfl⟩ := Mount.mem_rootSlots.mp two
  omega

section
variable {s t : Driver} {r : Nat} {touched : Nat → Prop}

theorem RootEdit.cluster_kept (edit : RootEdit s t r touched) (shape : Geometry s.toMount) (two : 2 ≤ c)
    (spared : ¬ touched c) (low : s.dataByte c ≤ x) (high : x < s.dataByte c + s.clusterBytes) :
    t.disk x = s.disk x := by
  have slot := root_slot_inside (c := c) shape edit.slot
  have before := shape.root_before_data c
  refine edit.disk x (by omega) (.inr (by omega)) ?_
  intro d hit
  have two' := edit.real d hit
  rcases Nat.lt_trichotomy c d with less | same | more
  · have apart := s.data_apart two less
    omega
  · exact absurd (same ▸ hit) spared
  · have apart := s.data_apart two' more
    omega

theorem RootEdit.chain_slot_kept (edit : RootEdit s t r touched) (shape : Geometry s.toMount) (sound : Sound s)
    (owner : Owner s b) (other : b ≠ r) (chain : EntryChain s b cs) (member : a ∈ s.chainSlots cs) :
    a ≠ r ∧ ∀ i < 32, t.disk (a+i) = s.disk (a+i) := by
  obtain ⟨c,inside,low,high⟩ := Mount.chain_slot_inside member
  have two := sound.inside b cs owner chain c inside
  have slot := root_slot_inside (c := c) shape edit.slot
  refine ⟨by omega,?_⟩
  intro i bound
  exact edit.cluster_kept shape two (edit.spared b cs owner other chain c inside) (by omega) (by omega)

theorem RootEdit.root_slot_kept (edit : RootEdit s t r touched) (shape : Geometry s.toMount) (member : a ∈ s.rootSlots)
    (other : a ≠ r) : ∀ i < 32, t.disk (a+i) = s.disk (a+i) := by
  intro i bound
  have apart := rootSlots_apart member edit.slot other
  refine edit.disk (a+i) ?_ (by omega) ?_
  · have inside := root_slot_inside (c := 2) shape member
    omega
  · intro c _
    have inside := root_slot_inside (c := c) shape member
    exact .inl (by omega)

theorem RootEdit.chain_kept (edit : RootEdit s t r touched) (owner : Owner s a) (other : a ≠ r)
    (same : ∀ i < 32, t.disk (a+i) = s.disk (a+i)) (chain : EntryChain s a cs) : EntryChain t a cs :=
  chain.congr (firstCluster_congr same) (fun c inside => edit.fat c (edit.spared a cs owner other chain c inside))

theorem RootEdit.slots_kept (edit : RootEdit s t r touched) (shape : Geometry s.toMount) (sound : Sound s)
    (directory : Directory s slots) : ∀ a ∈ slots, a ≠ r → ∀ i < 32, t.disk (a+i) = s.disk (a+i) := by
  cases directory with
  | root => exact fun a member other => edit.root_slot_kept shape member other
  | @sub _ b cs parent inside owns dir chain =>
    intro a member _
    have file : b ≠ r := by
      rintro rfl
      exact edit.fileBefore owns dir
    exact (edit.chain_slot_kept shape sound ⟨⟨_,parent,inside⟩,owns⟩ file chain member).2

theorem RootEdit.directory_forward (edit : RootEdit s t r touched) (shape : Geometry s.toMount) (sound : Sound s)
    (directory : Directory s slots) : Directory t slots := by
  induction directory with
  | root =>
    have same : t.rootSlots = s.rootSlots := congrArg Mount.rootSlots edit.mount
    rw [← same]
    exact .root
  | @sub _ b cs parent inside owns dir chain ih =>
    have file : b ≠ r := by
      rintro rfl
      exact edit.fileBefore owns dir
    have same := edit.slots_kept shape sound parent b inside file
    have slots : t.chainSlots cs = s.chainSlots cs := congrArg (fun v => Mount.chainSlots v cs) edit.mount
    rw [← slots]
    refine .sub ih inside (owns.congr same) ?_ (edit.chain_kept ⟨⟨_,parent,inside⟩,owns⟩ file same chain)
    rw [IsDirectory,attributes_congr same]
    exact dir

theorem RootEdit.directory_backward (edit : RootEdit s t r touched) (shape : Geometry s.toMount) (sound : Sound s)
    (directory : Directory t slots) : Directory s slots := by
  induction directory with
  | root =>
    have same : t.rootSlots = s.rootSlots := congrArg Mount.rootSlots edit.mount
    rw [same]
    exact .root
  | @sub _ b cs parent inside owns dir chain ih =>
    have file : b ≠ r := by
      rintro rfl
      exact edit.fileAfter owns dir
    have same := edit.slots_kept shape sound ih b inside file
    have back : ∀ i < 32, s.disk (b+i) = t.disk (b+i) := fun i bound => (same i bound).symm
    have owner : Owner s b := ⟨⟨_,ih,inside⟩,owns.congr back⟩
    -- b had a chain, the edit kept it, and a chain is unique
    obtain ⟨ds,before⟩ := sound.chained b owner
    have after := edit.chain_kept owner file same before
    have slots : t.chainSlots cs = s.chainSlots cs := congrArg (fun v => Mount.chainSlots v cs) edit.mount
    rw [slots]
    refine .sub ih inside owner.2 ?_ (by rw [chain.unique after]; exact before)
    rw [IsDirectory,attributes_congr back]
    exact dir

theorem RootEdit.entry_iff (edit : RootEdit s t r touched) (shape : Geometry s.toMount) (sound : Sound s) :
    Entry t a ↔ Entry s a := by
  constructor
  · rintro ⟨slots,directory,member⟩
    exact ⟨slots,edit.directory_backward shape sound directory,member⟩
  · rintro ⟨slots,directory,member⟩
    exact ⟨slots,edit.directory_forward shape sound directory,member⟩

theorem RootEdit.entry_kept (edit : RootEdit s t r touched) (shape : Geometry s.toMount) (sound : Sound s)
    (entry : Entry s a) (other : a ≠ r) : ∀ i < 32, t.disk (a+i) = s.disk (a+i) := by
  obtain ⟨slots,directory,member⟩ := entry
  exact edit.slots_kept shape sound directory a member other

theorem RootEdit.owner_iff (edit : RootEdit s t r touched) (shape : Geometry s.toMount) (sound : Sound s)
    (other : a ≠ r) : Owner t a ↔ Owner s a := by
  constructor
  · rintro ⟨entry,owns⟩
    have before := (edit.entry_iff shape sound).mp entry
    have same := edit.entry_kept shape sound before other
    exact ⟨before,owns.congr (fun i bound => (same i bound).symm)⟩
  · rintro ⟨entry,owns⟩
    exact ⟨(edit.entry_iff shape sound).mpr entry,owns.congr (edit.entry_kept shape sound entry other)⟩

theorem RootEdit.chain_iff (edit : RootEdit s t r touched) (shape : Geometry s.toMount) (sound : Sound s)
    (owner : Owner s a) (other : a ≠ r) : EntryChain t a cs ↔ EntryChain s a cs := by
  have same := edit.entry_kept shape sound owner.1 other
  obtain ⟨ds,before⟩ := sound.chained a owner
  have after := edit.chain_kept owner other same before
  constructor
  · intro chain
    rw [chain.unique after]
    exact before
  · exact edit.chain_kept owner other same

theorem RootEdit.before (edit : RootEdit s t r touched) (shape : Geometry s.toMount) (sound : Sound s)
    (owner : Owner t a) (other : a ≠ r) (chain : EntryChain t a cs) : Owner s a ∧ EntryChain s a cs := by
  have before := (edit.owner_iff shape sound other).mp owner
  exact ⟨before,(edit.chain_iff shape sound before other).mp chain⟩

-- After the edit r owns nothing, or a chain apart from all other chains.
structure NewChain (s t : Driver) (r : Nat) (cs : List Nat) : Prop where
  chain : EntryChain t r cs
  real : ∀ c ∈ cs, 2 ≤ c
  apart : ∀ a ds, Owner s a → a ≠ r → EntryChain s a ds → cs.Disjoint ds

theorem RootEdit.sound (edit : RootEdit s t r touched) (shape : Geometry s.toMount) (sound : Sound s)
    (own : Owns t.disk r → ∃ cs, NewChain s t r cs) : Sound t := by
  refine ⟨?_,?_,?_⟩
  · intro a owner
    by_cases here : a = r
    · subst here
      obtain ⟨cs,new⟩ := own owner.2
      exact ⟨cs,new.chain⟩
    · have before := (edit.owner_iff shape sound here).mp owner
      obtain ⟨cs,chain⟩ := sound.chained a before
      exact ⟨cs,(edit.chain_iff shape sound before here).mpr chain⟩
  · intro a cs owner chain
    by_cases here : a = r
    · subst here
      obtain ⟨ds,new⟩ := own owner.2
      rw [chain.unique new.chain]
      exact new.real
    · obtain ⟨before,chainBefore⟩ := edit.before shape sound owner here chain
      exact sound.inside a cs before chainBefore
  · intro a b cs ds one two different first second
    by_cases hereA : a = r
    · subst hereA
      obtain ⟨es,new⟩ := own one.2
      obtain ⟨before,chainB⟩ := edit.before shape sound two (Ne.symm different) second
      rw [first.unique new.chain]
      exact new.apart b ds before (Ne.symm different) chainB
    · obtain ⟨beforeA,chainA⟩ := edit.before shape sound one hereA first
      by_cases hereB : b = r
      · subst hereB
        obtain ⟨es,new⟩ := own two.2
        rw [second.unique new.chain]
        exact List.disjoint_symm (new.apart a cs beforeA hereA chainA)
      · obtain ⟨beforeB,chainB⟩ := edit.before shape sound two hereB second
        exact sound.apart a b cs ds beforeA beforeB different chainA chainB

end

end SantOS.Fat12
