import SantOS.Fat12.Handles

namespace SantOS.Fat12
open ByteMemory LinkedPaths

def Held (s : Driver) (spared : Nat → Prop) (c : Nat) : Prop :=
  ∃ b ds, spared b ∧ Owner s b ∧ EntryChain s b ds ∧ c ∈ ds

-- Spared entries stay entries with the same bytes, and their clusters keep their links
-- and their sectors.
structure Kept (s t : Driver) (spared : Nat → Prop) : Prop where
  mount : t.toMount = s.toMount
  entries : ∀ a, spared a → Entry s a → Entry t a ∧ ∀ i < 32, t.disk (a+i) = s.disk (a+i)
  held : ∀ c, Held s spared c → Held t spared c
  links : ∀ c, Held s spared c → t.fat c = s.fat c
  sectors : ∀ c, Held s spared c → ∀ i < s.clusterBytes, t.disk (s.dataByte c + i) = s.disk (s.dataByte c + i)

theorem Kept.trans (one : Kept s t spared) (two : Kept t u spared) : Kept s u spared := by
  refine ⟨two.mount.trans one.mount,?_,fun c inside => two.held c (one.held c inside),?_,?_⟩
  · intro a member entry
    obtain ⟨middle,first⟩ := one.entries a member entry
    obtain ⟨last,second⟩ := two.entries a member middle
    exact ⟨last,fun i bound => (second i bound).trans (first i bound)⟩
  · intro c inside
    exact (two.links c (one.held c inside)).trans (one.links c inside)
  · intro c inside i bound
    have second := two.sectors c (one.held c inside) i
    rw [one.mount] at second
    exact (second bound).trans (one.sectors c inside i bound)

theorem Kept.after (s : Driver) (j : Nat) (spared : Nat → Prop) : Kept s (s.after j) spared := by
  refine ⟨rfl,?_,?_,fun _ _ => rfl,fun _ _ _ _ => rfl⟩
  · rintro a _ ⟨slots,directory,member⟩
    exact ⟨⟨slots,directory_after.mpr directory,member⟩,fun _ _ => rfl⟩
  · rintro c ⟨b,ds,member,owner,chain,inside⟩
    exact ⟨b,ds,member,owner_after.mpr owner,chain,inside⟩

theorem RootEdit.kept {spared : Nat → Prop} (edit : RootEdit s t r touched) (shape : Geometry s.toMount)
    (sound : Sound s) (edited : ¬ spared r) :
    Kept s t spared := by
  have other : ∀ a, spared a → a ≠ r := by
    rintro a member rfl
    exact edited member
  refine ⟨edit.mount,?_,?_,?_,?_⟩
  · intro a member entry
    exact ⟨(edit.entry_iff shape sound).mpr entry,edit.entry_kept shape sound entry (other a member)⟩
  · rintro c ⟨b,ds,member,owner,chain,inside⟩
    have different := other b member
    exact ⟨b,ds,member,(edit.owner_iff shape sound different).mpr owner,
      (edit.chain_iff shape sound owner different).mpr chain,inside⟩
  · rintro c ⟨b,ds,member,owner,chain,inside⟩
    exact edit.fat c (edit.spared b ds owner (other b member) chain c inside)
  · rintro c ⟨b,ds,member,owner,chain,inside⟩ i bound
    have two := sound.inside b ds owner chain c inside
    exact edit.cluster_kept shape two (edit.spared b ds owner (other b member) chain c inside) (by omega) (by omega)

-- Everything but the free root slots and the root files of that name.
def Spared (s : Driver) (f : List UInt8) (a : Nat) : Prop :=
  a ∈ s.rootSlots → Live s.disk a ∧ (entryName s.disk a ≠ name83 f ∨ IsDirectory s.disk a)

theorem free_not_spared {s : Driver} (inside : k < 16*s.rootSectors) (free : ¬ Live s.disk (s.slot k)) :
    ¬ Spared s f (s.slot k) := fun spared => free (spared (Mount.slot_mem inside)).1

theorem Resolves.not_spared {s : Driver} (found : Resolves s (name83 f) k) (regular : RegularOrAbsent s f) :
    ¬ Spared s f (s.slot k) := by
  intro spared
  rcases (spared found.slot_mem).2 with other | directory
  · exact other found.named
  · exact (regular k found).2 directory

section
variable {s t : Driver} {f : List UInt8} {spared : Nat → Prop}

theorem Created.kept {h file : File} (created : Created s f file (v,h,t)) (shape : Geometry s.toMount) (sound : Sound s) :
    Kept s t (Spared s f) ∧ Sound t := by
  cases created with
  | made k c h t made cluster nonzero table synced entry size first faults =>
    obtain ⟨two,small,available⟩ := found_free cluster nonzero
    have edit := taken_edit sound made.inside made.free made.mount table available two made.outside (fun _ => made.file)
    have new := taken_chain sound table available two small entry
    exact ⟨edit.kept shape sound (free_not_spared made.inside made.free),edit.sound shape sound (fun _ => ⟨_,new⟩)⟩
  | leaked k c t inside free cluster nonzero mount table disk fault =>
    obtain ⟨two,small,available⟩ := found_free cluster nonzero
    have low : s.rootByte ≤ s.slot k := by unfold Mount.slot; omega
    have dead : ¬ Owns t.disk (s.slot k) := by
      intro owns
      apply free
      have live := owns.live
      unfold Live at live ⊢
      rw [disk _ low] at live
      exact live
    have edit := taken_edit sound inside free mount table available two (fun x high _ => disk x high)
      (fun owns => absurd owns dead)
    exact ⟨edit.kept shape sound (free_not_spared inside free),edit.sound shape sound (fun owns => absurd owns dead)⟩
  | refused j => exact ⟨.after s j _,sound.after⟩

theorem Extended.kept (extended : Extended s t c cs fresh) (shape : Geometry s.toMount) (sound : Sound s)
    (handle : Handle s r c cs) (edited : ¬ spared r) : Kept s t spared ∧ Sound t := by
  have edit := extended_edit shape sound handle extended
  exact ⟨edit.kept shape sound edited,edit.sound shape sound (fun owns => ⟨_,extended_chain shape sound handle extended owns⟩)⟩

theorem Resized.kept (resized : Resized s f n (v,t)) (shape : Geometry s.toMount) (sound : Sound s)
    (regular : RegularOrAbsent s f) (edited : ∀ k, Resolves s (name83 f) k → ¬ spared (s.slot k)) :
    Kept s t spared ∧ Sound t := by
  cases resized with
  | missing j => exact ⟨.after s j _,sound.after⟩
  | error n j => exact ⟨.after s j _,sound.after⟩
  | done k t resolves mount table outside size synced faults =>
    have owner := resolves.owner regular
    obtain ⟨cs,chain⟩ := sound.chained _ owner
    have edit := resized_edit resolves regular mount table outside
    have new := resized_chain sound owner chain table outside
    exact ⟨edit.kept shape sound (edited k resolves),edit.sound shape sound (fun _ => ⟨cs,new⟩)⟩

theorem Handle.kept {h : File} (handle : Handle s r c cs) (shape : Geometry s.toMount) (sound : Sound s)
    (first : h.firstCluster = c) (regular : RegularOrAbsent s f) (edited : ¬ spared r)
    (named : ∀ k, Resolves s (name83 f) k → ¬ spared (s.slot k))
    (ran : writeAndUpdate s f h buffer size = some (v,t)) : Kept s t spared ∧ Sound t := by
  obtain ⟨bytes,u,fresh,wrote,written⟩ := handle.write shape first False (fun no => no.elim) buffer size
  have extended := written.toExtended
  obtain ⟨keptU,soundU⟩ := extended.kept shape sound handle edited
  have root := fun a (slot : a ∈ s.rootSlots) => extended.root_kept shape slot
  have shapeU : Geometry u.toMount := by rw [extended.mount]; exact shape
  rw [writeAndUpdate,wrote] at ran
  dsimp only at ran
  split at ran
  · have resized := updateSize_spec shapeU f (bytes.toNat % 2^32)
    generalize fat12UpdateSize u f (bytes.toNat % 2^32) = outcome at resized ran
    obtain ⟨x,w⟩ := outcome
    have same : w = t := by
      dsimp only at ran
      split at ran <;> cases ran <;> rfl
    subst same
    have namedU : ∀ k, Resolves u (name83 f) k → ¬ spared (u.slot k) := by
      intro k found
      rw [extended.mount]
      exact named k ((resolves_iff extended.mount (fun a slot i bound => root a slot i (by omega))).mp found)
    obtain ⟨keptT,soundT⟩ := resized.kept shapeU soundU (regular.congr extended.mount root) namedU
    exact ⟨keptU.trans keptT,soundT⟩
  · cases ran
    exact ⟨keptU,soundU⟩

theorem Deleted.kept (deleted : Deleted s f (some (v,t))) (shape : Geometry s.toMount) (sound : Sound s)
    (regular : RegularOrAbsent s f) : Kept s t (Spared s f) := by
  have freed : ∀ {k cs freed}, Resolves s (name83 f) k → EntryChain s (s.slot k) cs →
      freeChain s.fatBuffer (firstClusterLow s.disk (s.slot k)) 0x1000 = some freed → t.toMount = s.toMount →
      t.fatBuffer = freed → (∀ x, s.rootByte ≤ x → x ≠ s.slot k → t.disk x = s.disk x) → Kept s t (Spared s f) := by
    intro k cs freed resolves chain walk mount table outside
    have emptied := freed_fat chain (sound.inside _ cs (resolves.owner regular) chain) walk table
    exact (freed_edit sound resolves regular chain mount emptied outside).kept shape sound (resolves.not_spared regular)
  generalize outcome : some (v,t) = result at deleted
  cases deleted with
  | stuck k resolves walk => cases outcome
  | missing j => cases outcome; exact .after s j _
  | error n j => cases outcome; exact .after s j _
  | done k freedTable t resolves walk mount table outside =>
    cases outcome
    obtain ⟨cs,chain⟩ := sound.chained _ (resolves.owner regular)
    exact freed resolves chain walk mount table outside
  | exposed k freedTable t n resolves walk mount table disk =>
    cases outcome
    obtain ⟨cs,chain⟩ := sound.chained _ (resolves.owner regular)
    exact freed resolves chain walk mount table (fun x low _ => disk x low)

end

inductive Operation (s : Driver) (f : List UInt8) : Driver → Prop where
  | create (file h : File) (v : Int) (t : Driver) (ran : fat12Create s f file = (v,h,t)) : Operation s f t
  | writeOpened (buffer : Memory) (size : Nat) (file h : File) (u t : Driver) (v : Int)
      (opened : fat12Open s f file = (0,h,u)) (ran : writeAndUpdate u f h buffer size = some (v,t)) : Operation s f t
  | writeCreated (buffer : Memory) (size : Nat) (file h : File) (u t : Driver) (v : Int)
      (created : fat12Create s f file = (0,h,u)) (ran : writeAndUpdate u f h buffer size = some (v,t)) : Operation s f t
  | delete (v : Int) (t : Driver) (ran : fat12Delete s f = some (v,t)) : Operation s f t

theorem operation_kept (shape : Geometry s.toMount) (sound : Sound s) (nameable : Nameable f)
    (regular : RegularOrAbsent s f) (operation : Operation s f t) : Kept s t (Spared s f) := by
  cases operation with
  | create file h v t ran =>
    have created := create_spec shape f file
    rw [ran] at created
    exact (created.kept shape sound).1
  | writeOpened buffer size file h u t v opened ran =>
    have outcome := open_spec (nameable.undeleted s) file
    rw [opened] at outcome
    obtain ⟨k,resolves,_,first,rfl⟩ := outcome.success rfl
    have start := Kept.after s (k/16+1) (Spared s f)
    obtain ⟨cs,chain⟩ := sound.chained _ (resolves.owner regular)
    cases cs with
    | nil =>
      rw [writeAndUpdate,empty_write _ (first.trans chain.empty_first)] at ran
      cases ran
      exact start
    | cons c cs =>
      have handle := (resolves.handle regular sound chain (by simp)).after (j := k/16+1)
      have named : ∀ j, Resolves (s.after (k/16+1)) (name83 f) j → ¬ Spared s f ((s.after (k/16+1)).slot j) :=
        fun j found => (resolves_after.mp found).not_spared regular
      exact start.trans (handle.kept shape sound.after first regular.after (resolves.not_spared regular) named ran).1
  | writeCreated buffer size file h u t v created ran =>
    have outcome := create_spec shape f file
    rw [created] at outcome
    obtain ⟨start,soundU⟩ := outcome.kept shape sound
    obtain ⟨k,c,made,found,nonzero,table,entry,first,_⟩ := outcome.success rfl
    have handle := made.handle shape sound found nonzero table entry
    have shapeU : Geometry u.toMount := by rw [made.mount]; exact shape
    have named : ∀ j, Resolves u (name83 f) j → ¬ Spared s f (u.slot j) := by
      intro j resolves
      rw [made.mount]
      rcases made.resolves resolves with rfl | ⟨_,before⟩
      · exact free_not_spared made.inside made.free
      · exact before.not_spared regular
    exact start.trans (handle.kept shapeU soundU first (made.regular regular)
      (free_not_spared made.inside made.free) named ran).1
  | delete v t ran =>
    have deleted := delete_spec shape f
    rw [ran] at deleted
    exact deleted.kept shape sound regular

def Driver.sectors (s : Driver) (cs : List Nat) : List UInt8 :=
  cs.flatMap (fun c => (List.range s.clusterBytes).map (fun i => s.disk (s.dataByte c + i)))

def InDirectory (s : Driver) (c : Nat) : Prop :=
  ∃ b ds, Owner s b ∧ IsDirectory s.disk b ∧ EntryChain s b ds ∧ c ∈ ds

-- Entries of other names keep their bytes, their chains and what the chains hold. A "."
-- or ".." entry owns no cluster; it refers to those of a directory.
theorem other_entries_kept (shape : Geometry s.toMount) (sound : Sound s) (nameable : Nameable f)
    (regular : RegularOrAbsent s f) (operation : Operation s f t) :
    ∀ a, Entry s a → Live s.disk a → entryName s.disk a ≠ name83 f →
      Entry t a ∧ (∀ i < 32, t.disk (a+i) = s.disk (a+i)) ∧
      ∀ cs, EntryChain s a cs → (Owns s.disk a ∨ ∀ c ∈ cs, InDirectory s c) →
        EntryChain t a cs ∧ t.sectors cs = s.sectors cs := by
  have kept := operation_kept shape sound nameable regular operation
  intro a entry live different
  have member : Spared s f a := fun _ => ⟨live,.inl different⟩
  obtain ⟨still,bytes⟩ := kept.entries a member entry
  refine ⟨still,bytes,?_⟩
  intro cs chain source
  have held : ∀ c ∈ cs, Held s (Spared s f) c := by
    intro c inside
    rcases source with owns | directories
    · exact ⟨a,cs,member,⟨entry,owns⟩,chain,inside⟩
    · obtain ⟨b,ds,owner,directory,other,within⟩ := directories c inside
      exact ⟨b,ds,fun _ => ⟨owner.2.live,.inr directory⟩,owner,other,within⟩
  refine ⟨chain.congr (firstCluster_congr bytes) (fun c inside => kept.links c (held c inside)),?_⟩
  unfold Driver.sectors
  rw [kept.mount]
  apply List.flatMap_congr
  intro c inside
  apply List.map_congr_left
  intro i bound
  exact kept.sectors c (held c inside) i (List.mem_range.mp bound)

theorem other_entries_kept_two_files : ∃ h u, fat12Create blank [0x42] .fresh = (0,h,u) ∧ Live u.disk (blank.slot 0) ∧
    ∀ i < 32, (fat12Create u [0x41] .fresh).2.2.disk (blank.slot 0 + i) = u.disk (blank.slot 0 + i) := by
  obtain ⟨h,u,ran,made,_⟩ := blank_create [0x42]
  have created := create_spec floppy_geometry (s := blank) [0x42] .fresh
  rw [ran] at created
  have shape : Geometry u.toMount := by rw [made.mount]; exact floppy_geometry
  have sound := (created.kept floppy_geometry blank_well_formed.sound).2
  have other : name83 [0x42] ≠ name83 [0x41] := by decide
  have regular : RegularOrAbsent u [0x41] := by
    intro j found
    rcases Nat.eq_zero_or_pos j with rfl | later
    · have name := found.named
      rw [made.mount,made.name] at name
      exact absurd name other
    · have live := found.live
      unfold Live at live
      rw [made.mount,first_byte_congr (made.kept (Nat.ne_of_gt later))] at live
      exact absurd rfl live.1
  have live := made.live (by decide)
  have entry : Entry u (blank.slot 0) := by
    refine ⟨_,.root,?_⟩
    rw [made.mount]
    exact Mount.slot_mem (by decide)
  have kept := other_entries_kept shape sound (f := [0x41]) (by decide) regular (.create .fresh _ _ _ rfl) (blank.slot 0)
    entry live (by rw [made.name]; exact other)
  exact ⟨h,u,ran,live,kept.2.1⟩

end SantOS.Fat12
