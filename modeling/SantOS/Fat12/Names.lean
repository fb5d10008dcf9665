import SantOS.Fat12.Handles
import SantOS.Library.Runs

namespace SantOS.Fat12
open ByteMemory LinkedPaths Runs

def Distinct (s : Driver) : Prop :=
  ∀ a ∈ s.rootSlots, ∀ b ∈ s.rootSlots, a ≠ b → Live s.disk a → Live s.disk b → entryName s.disk a ≠ entryName s.disk b

def Unused (s : Driver) (f : List UInt8) : Prop := ∀ a ∈ s.rootSlots, Live s.disk a → entryName s.disk a ≠ name83 f

structure NamesKept (s t : Driver) : Prop where
  mount : t.toMount = s.toMount
  bytes : ∀ a ∈ s.rootSlots, ∀ i < 12, t.disk (a+i) = s.disk (a+i)

theorem NamesKept.refl (s : Driver) (mount : t.toMount = s.toMount) (disk : t.disk = s.disk) : NamesKept s t := by
  refine ⟨mount,fun a _ i _ => ?_⟩
  rw [disk]

theorem NamesKept.trans (one : NamesKept s t) (two : NamesKept t u) : NamesKept s u := by
  refine ⟨two.mount.trans one.mount,?_⟩
  intro a member i bound
  have second := two.bytes a
  rw [one.mount] at second
  exact (second member i bound).trans (one.bytes a member i bound)

theorem NamesKept.live (kept : NamesKept s t) (member : a ∈ s.rootSlots) : Live t.disk a ↔ Live s.disk a := by
  have first : t.disk a = s.disk a := kept.bytes a member 0 (by decide)
  rw [Live,Live,first]

theorem NamesKept.name (kept : NamesKept s t) (member : a ∈ s.rootSlots) : entryName t.disk a = entryName s.disk a :=
  entryName_congr (kept.bytes a member)

theorem NamesKept.distinct (kept : NamesKept s t) : Distinct t ↔ Distinct s := by
  unfold Distinct
  rw [kept.mount]
  constructor
  · intro after a memberA b memberB different liveA liveB
    rw [← kept.name memberA,← kept.name memberB]
    exact after a memberA b memberB different ((kept.live memberA).mpr liveA) ((kept.live memberB).mpr liveB)
  · intro before a memberA b memberB different liveA liveB
    rw [kept.name memberA,kept.name memberB]
    exact before a memberA b memberB different ((kept.live memberA).mp liveA) ((kept.live memberB).mp liveB)

theorem Made.kept_slot {s t : Driver} (made : Made s t f k) (member : a ∈ s.rootSlots) (other : a ≠ s.slot k) :
    ∀ i < 12, t.disk (a+i) = s.disk (a+i) := by
  intro i bound
  obtain ⟨j,_,rfl⟩ := Mount.mem_rootSlots.mp member
  rcases rootSlots_apart member (Mount.slot_mem made.inside) other with before | behind
  · exact made.outside _ (by omega) (.inl (by omega))
  · exact made.outside _ (by omega) (.inr (by omega))

theorem Made.distinct_iff {s t : Driver} (made : Made s t f k) (distinct : Distinct s) : Distinct t ↔ Unused s f := by
  have slot := Mount.slot_mem made.inside
  constructor
  · intro after a member live same
    have other : a ≠ s.slot k := by
      rintro rfl
      exact made.free live
    have bytes := made.kept_slot member other
    have liveT : Live t.disk a := by
      have first : t.disk a = s.disk a := bytes 0 (by decide)
      rw [Live,first]
      exact live
    unfold Distinct at after
    rw [made.mount] at after
    refine after a member _ slot other liveT (made.live (live_nameable live same)) ?_
    rw [entryName_congr bytes,same,made.name]
  · intro unused
    have old : ∀ a ∈ s.rootSlots, a ≠ s.slot k → Live t.disk a → Live s.disk a ∧ entryName t.disk a = entryName s.disk a := by
      intro a member other live
      have bytes := made.kept_slot member other
      have first : t.disk a = s.disk a := bytes 0 (by decide)
      refine ⟨?_,entryName_congr bytes⟩
      rw [Live,first] at live
      exact live
    unfold Distinct
    rw [made.mount]
    intro a memberA b memberB different liveA liveB
    by_cases newA : a = s.slot k
    · have otherB : b ≠ s.slot k := fun same => different (newA.trans same.symm)
      obtain ⟨before,name⟩ := old b memberB otherB liveB
      rw [newA,made.name,name]
      exact (unused b memberB before).symm
    · obtain ⟨beforeA,nameA⟩ := old a memberA newA liveA
      by_cases newB : b = s.slot k
      · rw [newB,made.name,nameA]
        exact unused a memberA beforeA
      · obtain ⟨beforeB,nameB⟩ := old b memberB newB liveB
        rw [nameA,nameB]
        exact distinct a memberA b memberB different beforeA beforeB

-- Clusters lie behind the root directory and the FAT before it, so a write through any
-- handle ends and keeps the names.
theorem root_slot_bytes {v : Mount} (member : a ∈ v.rootSlots) :
    v.rootByte ≤ a ∧ a + 32 ≤ v.rootByte + v.rootSectors*512 := by
  obtain ⟨j,_,rfl⟩ := Mount.mem_rootSlots.mp member
  omega

theorem names_above {s t : Driver} (mount : t.toMount = s.toMount)
    (disk : ∀ x, s.rootByte ≤ x → x < s.rootByte + s.rootSectors*512 → t.disk x = s.disk x) : NamesKept s t := by
  refine ⟨mount,?_⟩
  intro a member i bound
  have inside := root_slot_bytes member
  exact disk _ (by omega) (by omega)

theorem writeFrom_names {s : Driver} (shape : Geometry s.toMount) (le : w ≤ size) (fuel : size - w < n) :
    ∃ v t, writeFrom s buffer size w c n = some (v,t) ∧ NamesKept s t := by
  obtain ⟨⟨v,t⟩,ran⟩ := Option.ne_none_iff_exists'.mp (writeFrom_comes shape.cluster buffer le fuel (c := c))
  have stored : ∀ u b c, b ≤ size → NamesKept s u →
      NamesKept s (writeCluster u buffer size (u.clusterSector c) 0 b u.bootSector.sectorsPerCluster).2.2 := by
    intro u b c le kept
    have wrote := writeCluster_spec u buffer size (u.clusterSector c) 0 b u.bootSector.sectorsPerCluster le
    have shapeU : Geometry u.toMount := by rw [kept.mount]; exact shape
    have behind := shapeU.root_before_data c
    have begins : 512*(u.clusterSector c + 0) = u.dataByte c := by unfold Mount.dataByte; omega
    rw [begins] at wrote
    exact kept.trans (names_above wrote.mount (fun x _ high => wrote.outside x (.inl (by omega))))
  refine ⟨v,t,ran,writeFrom_preserves (NamesKept s) stored ?_ le ?_ ?_ ran⟩
  · intro u c kept _ _
    have shapeU : Geometry u.toMount := by rw [kept.mount]; exact shape
    have saved := save_table shapeU
      (setFatEntry (setFatEntry u.fatBuffer c (findFreeCluster u.fatBuffer)) (findFreeCluster u.fatBuffer) 0xFFF)
    exact kept.trans (names_above saved.mount (fun x low _ => saved.disk x low))
  · exact fun _ => .refl s rfl rfl
  · exact fun _ => stored s w c le (.refl s rfl rfl)

theorem Resized.names {s t : Driver} (resized : Resized s f n (v,t)) : NamesKept s t := by
  cases resized with
  | missing j => exact .refl s rfl rfl
  | error n j => exact .refl s rfl rfl
  | done k t resolves mount table outside =>
    refine ⟨mount,?_⟩
    intro a member i bound
    obtain ⟨j,_,rfl⟩ := Mount.mem_rootSlots.mp member
    refine outside _ (by omega) ?_
    unfold Mount.slot
    omega

theorem writeAndUpdate_names {s : Driver} (shape : Geometry s.toMount) (f : List UInt8) (h : File) (buffer : Memory)
    (size : Nat) : ∃ v t, writeAndUpdate s f h buffer size = some (v,t) ∧ NamesKept s t := by
  obtain ⟨n,u,wrote,keptU⟩ : ∃ n u, fat12Write s h buffer size = some (n,u) ∧ NamesKept s u :=
    writeFrom_names shape (Nat.zero_le size) (by omega)
  have shapeU : Geometry u.toMount := by rw [keptU.mount]; exact shape
  rw [writeAndUpdate,wrote]
  dsimp only
  have resized := updateSize_spec shapeU f (n.toNat % 2^32)
  generalize fat12UpdateSize u f (n.toNat % 2^32) = outcome at resized ⊢
  obtain ⟨r,t⟩ := outcome
  dsimp only
  split
  · split
    · exact ⟨0,t,rfl,keptU.trans resized.names⟩
    · exact ⟨n,t,rfl,keptU.trans resized.names⟩
  · exact ⟨0,u,rfl,keptU⟩

def Visible (s : Driver) (f : List UInt8) : Prop :=
  ∃ k < 16*s.rootSectors, Live s.disk (s.slot k) ∧ entryName s.disk (s.slot k) = name83 f ∧
    (∀ j < k, s.disk (s.slot j) ≠ 0) ∧ ∀ i ≤ k/16, s.faults i = false

def NoRoom (s : Driver) : Prop := (∀ k < 16*s.rootSectors, Live s.disk (s.slot k)) ∨ findFreeCluster s.fatBuffer = 0

theorem open_lookup (s : Driver) (f : List UInt8) (file : File) : ∃ v h j, fat12Open s f file = (v,h,s.after j) ∧
    ((v = 0 ∧ (Visible s f ∨ Unused s f)) ∨ (v ≠ 0 ∧ ¬ Visible s f)) := by
  have scanned := scanRoot_spec (openProbe_local (name83 f)) s s.rootSectors
  rw [fat12Open]
  generalize scanRoot (openProbe (name83 f)) s 0 s.rootSectors = outcome at scanned
  cases scanned with
  | found k buffer inside hit before copied clear =>
    obtain ⟨nonzero,same⟩ := openProbe_hit.mp hit
    refine ⟨0,_,_,rfl,.inl ⟨rfl,?_⟩⟩
    by_cases deleted : s.disk (s.slot k) = 0xE5
    · -- the name starts with 0xE5: no live entry has it
      refine .inr (fun a member live named => ?_)
      have nameable := live_nameable live named
      exact (nameable.first_byte same).2 deleted
    · refine .inl ⟨k,inside,⟨nonzero,deleted⟩,same,?_,clear⟩
      intro j less zero
      have skipped := before j less
      rw [openProbe_stop.mpr zero] at skipped
      cases skipped
  | missing j le clear unmatched =>
    refine ⟨-1,_,_,rfl,.inr ⟨minus_one,?_⟩⟩
    rintro ⟨k,inside,live,named,unmarked,_⟩
    obtain ⟨i,less,stop⟩ := unmatched k inside (openProbe_hit.mpr ⟨live.1,named⟩)
    exact unmarked i less (openProbe_stop.mp stop)
  | error j lt fault before =>
    refine ⟨-1,_,_,rfl,.inr ⟨minus_one,?_⟩⟩
    rintro ⟨k,inside,live,named,_,clear⟩
    by_cases early : k < 16*j
    · have skipped := before k early
      rw [openProbe_hit.mpr ⟨live.1,named⟩] at skipped
      cases skipped
    · rw [clear j (by omega)] at fault
      cases fault

theorem Created.distinct {s t : Driver} {h file : File} (created : Created s f file (v,h,t)) (distinct : Distinct s)
    (fresh : Unused s f ∨ NoRoom s) : Distinct t := by
  cases created with
  | leaked k c t inside free cluster nonzero mount table disk =>
    exact (names_above mount (fun x low _ => disk x low)).distinct.mpr distinct
  | refused j => exact distinct
  | made k c h t made cluster nonzero =>
    refine (made.distinct_iff distinct).mpr ?_
    rcases fresh with unused | full | none
    · exact unused
    · exact absurd (full k made.inside) made.free
    · exact absurd (cluster.trans none) nonzero

theorem Created.duplicate {s t : Driver} {h file : File} (created : Created s f file (v,h,t)) (distinct : Distinct s)
    (clear : s.Clear) (used : ¬ (Unused s f ∨ NoRoom s)) : ¬ Distinct t := by
  cases created with
  | made k c h t made =>
    rw [made.distinct_iff distinct]
    exact fun unused => used (.inl unused)
  | leaked k c t inside free cluster nonzero mount table disk fault =>
    obtain ⟨n,fault⟩ := fault
    rw [clear n] at fault
    cases fault
  | refused j cause =>
    rcases cause with ⟨n,fault⟩ | full
    · rw [clear n] at fault
      cases fault
    · exact absurd (.inr full) used

theorem Created.mount {s t : Driver} {h file : File} (created : Created s f file (v,h,t)) : t.toMount = s.toMount := by
  cases created with
  | made k c h t made => exact made.mount
  | leaked k c t inside free cluster nonzero mount => exact mount
  | refused j => rfl

inductive Request where
  | createFile (f : List UInt8)
  | writeFile (f : List UInt8) (buffer : Memory) (size : Nat)

def Request.run (s : Driver) : Request → Option (Int × Driver)
  | .createFile f => some (syscallCreateFile s f)
  | .writeFile f buffer size => syscallWriteFile s f buffer size

-- When fat12_create is reached, the name is not in use, or nothing can be created.
def Request.Admissible (s : Driver) : Request → Prop
  | .createFile f => Unused s f ∨ NoRoom s
  | .writeFile f _ _ => Visible s f ∨ Unused s f ∨ NoRoom s

theorem request_spec {s : Driver} (shape : Geometry s.toMount) (distinct : Distinct s) (request : Request) :
    ∃ v t, request.run s = some (v,t) ∧ t.toMount = s.toMount ∧ (request.Admissible s → Distinct t) ∧
      (s.Clear → ¬ request.Admissible s → ¬ Distinct t) := by
  cases request with
  | createFile f =>
    have created := create_spec shape f .fresh
    exact ⟨_,_,rfl,created.mount,created.distinct distinct,created.duplicate distinct⟩
  | writeFile f buffer size =>
    obtain ⟨v,h,j,opened,lookup⟩ := open_lookup s f .fresh
    rw [Request.run,syscallWriteFile,opened]
    dsimp only
    rcases lookup with ⟨rfl,found⟩ | ⟨failed,hidden⟩
    · obtain ⟨x,t,ran,kept⟩ := writeAndUpdate_names (s := s.after j) shape f h buffer (size % 2^32)
      refine ⟨x,t,?_,kept.mount,fun _ => kept.distinct.mpr distinct,fun _ refused => absurd ?_ refused⟩
      · rw [if_neg (not_not.mpr rfl)]
        exact ran
      · exact found.imp_right .inl
    · rw [if_pos failed]
      have created := create_spec (s := s.after j) shape f h
      generalize fat12Create (s.after j) f h = outcome at created ⊢
      obtain ⟨r,g,u⟩ := outcome
      have fresh : (Request.writeFile f buffer size).Admissible s → Unused s f ∨ NoRoom s := by
        rintro (visible | fresh)
        · exact absurd visible hidden
        · exact fresh
      have keeps : (Request.writeFile f buffer size).Admissible s → Distinct u :=
        fun admissible => created.distinct distinct (fresh admissible)
      have breaks : s.Clear → ¬ (Request.writeFile f buffer size).Admissible s → ¬ Distinct u :=
        fun clear refused => created.duplicate distinct clear.after (fun fresh => refused (.inr fresh))
      dsimp only
      split
      · exact ⟨0,u,rfl,created.mount,keeps,breaks⟩
      · have shapeU : Geometry u.toMount := by rw [created.mount]; exact shape
        obtain ⟨x,t,ran,kept⟩ := writeAndUpdate_names shapeU f g buffer (size % 2^32)
        refine ⟨x,t,ran,kept.mount.trans created.mount,?_,?_⟩
        · intro admissible
          exact kept.distinct.mpr (keeps admissible)
        · intro clear refused after
          exact breaks clear refused (kept.distinct.mp after)

inductive Request.Step (s : Driver) (request : Request) (t : Driver) : Prop where
  | ran (v : Int) (admissible : request.Admissible s) (done : request.run s = some (v,t))

-- Names stay distinct in every such run. The condition is exact: without a fault a
-- request that does not meet it leaves two entries of one name.
theorem names_stay_distinct (shape : Geometry s.toMount) (distinct : Distinct s) :
    (∀ requests t, Run (fun s request t => Request.Step s request t) s requests t → Distinct t) ∧
    (s.Clear → ∀ request v t, Request.run s request = some (v,t) → (Distinct t ↔ request.Admissible s)) := by
  constructor
  · intro requests t history
    have keeps : ∀ u request w, (u.toMount = s.toMount ∧ Distinct u) → Request.Step u request w →
        (w.toMount = s.toMount ∧ Distinct w) := by
      rintro u request w ⟨mount,before⟩ ⟨v,admissible,done⟩
      have shapeU : Geometry u.toMount := by rw [mount]; exact shape
      obtain ⟨x,t,ran,moved,after,_⟩ := request_spec shapeU before request
      rw [done,Option.some.injEq] at ran
      cases ran
      exact ⟨moved.trans mount,after admissible⟩
    exact (history.invariant keeps ⟨rfl,distinct⟩).2
  · intro clear request v t done
    obtain ⟨x,u,ran,_,after,breaks⟩ := request_spec shape distinct request
    rw [done,Option.some.injEq] at ran
    cases ran
    refine ⟨?_,after⟩
    intro still
    by_contra refused
    exact breaks clear refused still

theorem blank_distinct : Distinct blank := fun _ _ _ _ _ live => absurd rfl live.1

theorem names_stay_distinct_two_files : ∃ v w u t, Request.run blank (.createFile [0x41]) = some (v,u) ∧
    Request.run u (.writeFile [0x42] (fun _ => 0x42) 100) = some (w,t) ∧ Distinct t := by
  obtain ⟨v,u,first,mount,after,_⟩ := request_spec floppy_geometry blank_distinct (.createFile [0x41])
  have unused : Unused blank [0x41] := fun _ _ live => absurd rfl live.1
  have shapeU : Geometry u.toMount := by rw [mount]; exact floppy_geometry
  obtain ⟨w,t,second,_⟩ := request_spec shapeU (after (.inl unused)) (.writeFile [0x42] (fun _ => 0x42) 100)
  obtain ⟨h,x,created,made,_⟩ := blank_create [0x41]
  have same : x = u := by
    rw [Request.run,syscallCreateFile,created,Option.some.injEq] at first
    exact congrArg Prod.snd first
  subst same
  have other : name83 [0x41] ≠ name83 [0x42] := by decide
  have fresh : Unused x [0x42] := by
    intro a member live named
    rw [made.mount] at member
    by_cases here : a = blank.slot 0
    · rw [here,made.name] at named
      exact other named
    · have byte : x.disk a = blank.disk a := made.kept_slot member here 0 (by decide)
      rw [Live,byte] at live
      exact live.1 rfl
  have history : Run (fun s request t => Request.Step s request t) blank
      [.createFile [0x41],.writeFile [0x42] (fun _ => 0x42) 100] t :=
    .cons ⟨v,.inl unused,first⟩ (.single ⟨w,.inr (.inl fresh),second⟩)
  exact ⟨v,w,x,t,first,second,(names_stay_distinct floppy_geometry blank_distinct).1 _ _ history⟩

theorem created_twice : ∃ u t, Request.run blank (.createFile [0x41]) = some (0,u) ∧
    Request.run u (.createFile [0x41]) = some (0,t) ∧ Distinct blank ∧ Distinct u ∧ ¬ Distinct t := by
  obtain ⟨h,u,created,made,table,_⟩ := blank_create [0x41]
  have start := create_spec floppy_geometry (s := blank) [0x41] .fresh
  rw [created] at start
  have unused : Unused blank [0x41] := fun _ _ live => absurd rfl live.1
  have before := start.distinct blank_distinct (.inl unused)
  have shapeU : Geometry u.toMount := by rw [made.mount]; exact floppy_geometry
  have again := create_spec shapeU [0x41] .fresh
  have empty : ¬ Live u.disk (u.slot 1) := by
    intro live
    rw [made.mount,Live,first_byte_congr (made.kept (by decide))] at live
    exact live.1 rfl
  have cluster : findFreeCluster u.fatBuffer ≠ 0 := by
    rcases findFreeCluster_spec u.fatBuffer with ⟨_,none⟩ | ⟨two,_⟩
    · refine absurd ?_ (none 3 (by decide) (by decide))
      rw [table,get_set_other _ _ (by decide)]
      exact blank_fat 3
    · omega
  have inUse : ¬ (Unused u [0x41] ∨ NoRoom u) := by
    rintro (fresh | full | none)
    · have member : u.slot 0 ∈ u.rootSlots := by
        rw [made.mount]
        exact Mount.slot_mem (by decide)
      refine fresh _ member ?_ ?_
      · rw [made.mount]
        exact made.live (by decide)
      · rw [made.mount]
        exact made.name
    · exact empty (full 1 (by rw [made.mount]; decide))
    · exact cluster none
  have clear : u.Clear := start.clear (fun _ => rfl)
  generalize ran : fat12Create u [0x41] .fresh = outcome at again
  obtain ⟨v,g,t⟩ := outcome
  have success := again.succeeds clear (by rw [made.mount]; decide) empty cluster
  subst success
  refine ⟨u,t,?_,?_,blank_distinct,before,again.duplicate before clear inUse⟩
  · rw [Request.run,syscallCreateFile,created]
  · rw [Request.run,syscallCreateFile,ran]

end SantOS.Fat12
