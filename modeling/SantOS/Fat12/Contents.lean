import SantOS.Fat12.Histories
import SantOS.Fat12.Frames
import SantOS.Fat12.Names
import SantOS.Fat12.Replacement
import SantOS.Fat12.Stored

namespace SantOS.Fat12
open ByteMemory LinkedPaths Runs

-- The root directory as a program sees it: the bytes of the file of each 8.3 name.
abbrev Contents := List UInt8 → Option (List UInt8)

def bytesAt (data : List UInt8) : Memory := fun i => data.getD i 0

inductive RootCall where
  | create (f : List UInt8)
  | write (f data : List UInt8)
  | read (f : List UInt8) (buf : Memory) (size : UInt32)
  | delete (f : List UInt8)

def RootCall.filename : RootCall → List UInt8
  | .create f => f
  | .write f _ => f
  | .read f _ _ => f
  | .delete f => f

def RootCall.run (s : Driver) : RootCall → Option ((Int × List UInt8) × Driver)
  | .create f => some (((syscallCreateFile s f).1,[]),(syscallCreateFile s f).2)
  | .write f data => (syscallWriteFile s f (bytesAt data) data.length).map (fun (v,t) => ((v,[]),t))
  | .read f buf size => (syscallReadFile s f buf size.toNat).map (fun (v,out,t) => ((v,(List.range v.toNat).map out),t))
  | .delete f => (fat12Delete s f).map (fun (v,t) => ((v,[]),t))

-- What the calls mean for the contents. Writing no bytes to a file leaves what it held.
def RootCall.means (files : Contents) : RootCall → (Int × List UInt8) × Contents
  | .create f => ((0,[]),Function.update files (name83 f) (some []))
  | .write f data =>
    (((data.length : Int),[]),
      Function.update files (name83 f) (some (if data = [] then (files (name83 f)).getD [] else data)))
  | .read f _ size =>
    match files (name83 f) with
    | none => ((-1,[]),files)
    | some bytes => (((min bytes.length size.toNat : Nat),bytes.take size.toNat),files)
  | .delete f =>
    match files (name83 f) with
    | none => ((-1,[]),files)
    | some _ => ((0,[]),Function.update files (name83 f) none)

def Vacant (s : Driver) : Prop := (∃ k < 16*s.rootSectors, ¬ Live s.disk (s.slot k)) ∧ ∃ e, s.InVolume e ∧ s.fat e = 0

def Absent (s : Driver) (f : List UInt8) : Prop := ∀ k, ¬ Resolves s (name83 f) k

-- A created name is new, and what is created or written fits on the volume.
def RootCall.Admissible (s : Driver) : RootCall → Prop
  | .create f => Absent s f ∧ Vacant s
  | .write f data => RoomFor s f data.length ∧ (Absent s f → Vacant s)
  | .read .. => True
  | .delete _ => True

section
variable {s t u : Driver} {f g : List UInt8} {k r : Nat}

theorem ended_root (volume : WellFormed s) (less : i < j) (inside : j < 16*s.rootSectors) (zero : s.disk (s.slot i) = 0) :
    s.disk (s.slot j) = 0 := by
  have marks := (volume.ended s.rootSlots .root).and (rootSlots_sorted s.toMount)
  have both := List.pairwise_iff_getElem.mp marks i j
  have length : s.rootSlots.length = 16*s.rootSectors := by simp [Mount.rootSlots]
  have first : i < s.rootSlots.length := by omega
  have second : j < s.rootSlots.length := by omega
  have atI : s.rootSlots[i] = s.slot i := by simp [Mount.rootSlots,Mount.slot]
  have atJ : s.rootSlots[j] = s.slot j := by simp [Mount.rootSlots,Mount.slot]
  have step := both first second less
  rw [atI,atJ] at step
  exact step.1 zero

theorem Absent.unused (absent : Absent s f) (volume : WellFormed s) : Unused s f := by
  intro a member live named
  obtain ⟨k,inside,place⟩ := Mount.mem_rootSlots.mp member
  have slot : a = s.slot k := by unfold Mount.slot; omega
  subst slot
  have hit : editProbe (name83 f) s.disk (s.slot k) = .hit := editProbe_hit.mpr ⟨live,named⟩
  have unmarked : ∀ j < k, s.disk (s.slot j) ≠ 0 := fun j less zero => live.1 (ended_root volume less inside zero)
  obtain ⟨j,_,found⟩ := resolves_first inside unmarked hit
  exact absent j found

theorem resolves_elsewhere (volume : WellFormed s) (mount : t.toMount = s.toMount)
    (same : ∀ i < 16*s.rootSectors, i ≠ r → ∀ b < 11, t.disk (s.slot i + b) = s.disk (s.slot i + b))
    (marked : t.disk (s.slot r) ≠ 0) (before : editProbe n s.disk (s.slot r) ≠ .hit)
    (after : editProbe n t.disk (s.slot r) ≠ .hit) : Resolves t n k ↔ Resolves s n k := by
  have probe : ∀ i < 16*s.rootSectors, i ≠ r → editProbe n t.disk (s.slot i) = editProbe n s.disk (s.slot i) :=
    fun i inside other => editProbe_local n _ _ _ _ (same i inside other)
  constructor
  · intro found
    have inside : k < 16*s.rootSectors := mount ▸ found.inside
    have hit := found.hit
    have skipped := found.before
    rw [mount] at hit skipped
    have other : k ≠ r := fun here => after (here ▸ hit)
    have hitS := (probe k inside other).symm.trans hit
    refine ⟨inside,hitS,?_⟩
    intro i less
    by_cases here : i = r
    · cases outcome : editProbe n s.disk (s.slot i) with
      | skip => rfl
      | hit => exact absurd (here ▸ outcome) before
      | stop =>
        have zero := ended_root volume less inside (editProbe_stop.mp outcome)
        exact absurd zero (editProbe_hit.mp hitS).1.1
    · exact (probe i (by omega) here).symm.trans (skipped i less)
  · intro found
    have inside := found.inside
    have other : k ≠ r := fun here => before (here ▸ found.hit)
    refine ⟨by rw [mount]; exact inside,?_,?_⟩
    · rw [mount]
      exact (probe k inside other).trans found.hit
    · intro i less
      rw [mount]
      by_cases here : i = r
      · subst here
        cases outcome : editProbe n t.disk (s.slot i) with
        | skip => rfl
        | hit => exact absurd outcome after
        | stop => exact absurd (editProbe_stop.mp outcome) marked
      · exact (probe i (by omega) here).trans (found.before i less)

def Elsewhere (s t : Driver) (f : List UInt8) : Prop := ∀ n k, n ≠ name83 f → (Resolves t n k ↔ Resolves s n k)

theorem Elsewhere.trans (one : Elsewhere s t f) (two : Elsewhere t u f) : Elsewhere s u f :=
  fun n k other => (two n k other).trans (one n k other)

theorem Elsewhere.after (s : Driver) (j : Nat) (f : List UInt8) : Elsewhere s (s.after j) f := fun _ _ _ => resolves_after

theorem NamesKept.elsewhere (kept : NamesKept s t) : Elsewhere s t f :=
  fun _ _ _ => resolves_iff kept.mount (fun a member i bound => kept.bytes a member i (by omega))

theorem Made.elsewhere (made : Made s t f k) (volume : WellFormed s) (nameable : Nameable f) : Elsewhere s t f := by
  intro n j other
  refine resolves_elsewhere (r := k) volume made.mount ?_ (made.live nameable).1 ?_ ?_
  · intro i inside different b bound
    exact made.kept different b (by omega)
  · intro hit
    exact made.free (editProbe_hit.mp hit).1
  · intro hit
    exact other ((editProbe_hit.mp hit).2.symm.trans made.name)

theorem Deleted.success (deleted : Deleted s f (some (0,t))) : ∃ k, Resolves s (name83 f) k ∧ t.toMount = s.toMount ∧
    t.disk (s.slot k) = 0xE5 ∧ ∀ a ∈ s.rootSlots, a ≠ s.slot k → ∀ i < 12, t.disk (a+i) = s.disk (a+i) := by
  generalize outcome : some ((0 : Int),t) = result at deleted
  cases deleted with
  | stuck => cases outcome
  | missing => cases outcome
  | error => cases outcome
  | exposed => cases outcome
  | done k freed t resolves walk mount fat outside mark =>
    cases outcome
    refine ⟨k,resolves,mount,mark,?_⟩
    intro a member other i bound
    have low := (root_slot_bytes member).1
    have apart := rootSlots_apart member (Mount.slot_mem resolves.inside) other
    exact outside _ (by omega) (by omega)

theorem Deleted.value (deleted : Deleted s f (some (v,t))) (clear : s.Clear) (found : Resolves s (name83 f) k) : v = 0 := by
  generalize outcome : some (v,t) = result at deleted
  cases deleted with
  | done => cases outcome; rfl
  | stuck => cases outcome
  | missing j absent => exact absurd found (absent k)
  | error n j fault =>
    rw [clear n] at fault
    cases fault
  | exposed k freed t n resolves walk mount fat disk fault =>
    rw [clear n] at fault
    cases fault

theorem live_congr {m m' : Memory} {a : Nat} (same : ∀ i < 12, m' (a+i) = m (a+i)) : Live m' a ↔ Live m a := by
  have first : m' a = m a := same 0 (by decide)
  rw [Live,Live,first]

theorem Deleted.elsewhere (deleted : Deleted s f (some (0,t))) (volume : WellFormed s) : Elsewhere s t f := by
  obtain ⟨k,resolves,mount,mark,same⟩ := deleted.success
  intro n j other
  refine resolves_elsewhere (r := k) volume mount ?_ (by rw [mark]; decide) ?_ ?_
  · intro i inside different b bound
    exact same _ (Mount.slot_mem inside) (by unfold Mount.slot; omega) b (by omega)
  · intro hit
    exact other ((editProbe_hit.mp hit).2.symm.trans resolves.named)
  · intro hit
    exact (editProbe_hit.mp hit).1.2 mark

theorem Deleted.distinct (deleted : Deleted s f (some (0,t))) (distinct : Distinct s) : Distinct t := by
  obtain ⟨k,resolves,mount,mark,same⟩ := deleted.success
  have gone : ∀ a, Live t.disk a → a ≠ s.slot k := fun a live here => live.2 (here ▸ mark)
  unfold Distinct
  rw [mount]
  intro a memberA b memberB different liveA liveB
  have keptA := same a memberA (gone a liveA)
  have keptB := same b memberB (gone b liveB)
  rw [entryName_congr keptA,entryName_congr keptB]
  exact distinct a memberA b memberB different ((live_congr keptA).mp liveA) ((live_congr keptB).mp liveB)

theorem Deleted.absent (deleted : Deleted s f (some (0,t))) (distinct : Distinct s) : Absent t f := by
  obtain ⟨k,resolves,mount,mark,same⟩ := deleted.success
  intro j found
  have member := found.slot_mem
  have live := found.live
  have named := found.named
  rw [mount] at member live named
  have other : s.slot j ≠ s.slot k := fun here => live.2 (here ▸ mark)
  have kept := same _ member other
  rw [entryName_congr kept] at named
  exact distinct _ member _ (Mount.slot_mem resolves.inside) other ((live_congr kept).mp live) resolves.live
    (named.trans resolves.named.symm)

end

def Started (s : Driver) (f : List UInt8) : Prop := ∀ k, Resolves s (name83 f) k → firstClusterLow s.disk (s.slot k) ≠ 0

-- A volume without faults that holds these files under the names, and no directory or
-- label under any of them.
structure Represents (s : Driver) (names : List UInt8 → Prop) (files : Contents) : Prop where
  volume : WellFormed s
  distinct : Distinct s
  clear : s.Clear
  one : s.bootSector.sectorsPerCluster = 1
  regular : ∀ f, names (name83 f) → RegularOrAbsent s f
  absent : ∀ f, names (name83 f) → files (name83 f) = none → Absent s f
  present : ∀ f bytes, names (name83 f) → files (name83 f) = some bytes →
    Stored s f (bytesAt bytes) bytes.length ∧ Started s f

section
variable {s t u : Driver} {f g : List UInt8} {names : List UInt8 → Prop} {files : Contents}

theorem Absent.congr (absent : Absent s f) (same : name83 g = name83 f) : Absent s g := by
  unfold Absent
  rw [same]
  exact absent

theorem Stored.congr (stored : Stored s f data n) (same : name83 g = name83 f) : Stored s g data n := by
  unfold Stored
  rw [same]
  exact stored

theorem Started.congr (started : Started s f) (same : name83 g = name83 f) : Started s g := by
  unfold Started
  rw [same]
  exact started

theorem RegularOrAbsent.rename (regular : RegularOrAbsent s f) (same : name83 g = name83 f) : RegularOrAbsent s g := by
  unfold RegularOrAbsent
  rw [same]
  exact regular

theorem Stored.started (stored : Stored s f data n) (positive : 0 < n) : Started s f := by
  obtain ⟨k,cs,found,_,chain,holds⟩ := stored
  intro j other
  obtain rfl := other.unique found
  rcases chain with ⟨_,rfl⟩ | ⟨nonzero,_⟩
  · have done : n ≤ 0 := holds
    omega
  · exact nonzero

theorem Represents.spared (holds : Represents s names files) (elsewhere : Elsewhere s t f) (kept : Kept s t (Spared s f))
    (named : names (name83 g)) (other : name83 g ≠ name83 f) (found : Resolves t (name83 g) k) :
    Resolves s (name83 g) k ∧ Spared s f (s.slot k) ∧ Owner s (s.slot k) ∧ t.slot k = s.slot k ∧
      ∀ i < 32, t.disk (s.slot k + i) = s.disk (s.slot k + i) := by
  have before := (elsewhere _ k other).mp found
  have member : Spared s f (s.slot k) := fun _ => ⟨before.live,.inl (before.named ▸ other)⟩
  have owner := before.owner (holds.regular g named)
  exact ⟨before,member,owner,by rw [kept.mount],(kept.entries _ member owner.1).2⟩

theorem Represents.other (holds : Represents s names files) (elsewhere : Elsewhere s t f) (kept : Kept s t (Spared s f))
    (named : names (name83 g)) (other : name83 g ≠ name83 f) :
    RegularOrAbsent t g ∧ (Absent s g → Absent t g) ∧
      ∀ data n, Stored s g data n → Started s g → Stored t g data n ∧ Started t g := by
  refine ⟨?_,?_,?_⟩
  · intro k found
    obtain ⟨before,_,_,place,bytes⟩ := holds.spared elsewhere kept named other found
    rw [place,IsDirectory,attributes_congr bytes]
    exact holds.regular g named k before
  · exact fun absent k found => absent k ((elsewhere _ k other).mp found)
  · rintro data n ⟨k,cs,before,length,chain,contents⟩ started
    have found := (elsewhere _ k other).mpr before
    obtain ⟨_,member,owner,place,bytes⟩ := holds.spared elsewhere kept named other found
    have after := kept.chain member owner chain
    refine ⟨⟨k,cs,found,?_,?_,(after.2 data n 0).mpr contents⟩,?_⟩
    · rw [place,← length]
      exact load_congr (fun i bound => by rw [Nat.add_assoc]; exact bytes _ (by omega))
    · rw [place]
      exact after.1
    · intro j again
      obtain rfl := again.unique found
      rw [place,firstCluster_congr bytes]
      exact started j before

theorem Represents.updated (holds : Represents s names files) (volume : WellFormed t) (distinct : Distinct t)
    (clear : t.Clear)
    (elsewhere : Elsewhere s t f) (kept : Kept s t (Spared s f)) (regular : RegularOrAbsent t f) (value : Option (List UInt8))
    (gone : value = none → Absent t f)
    (own : ∀ bytes, value = some bytes → Stored t f (bytesAt bytes) bytes.length ∧ Started t f) :
    Represents t names (Function.update files (name83 f) value) := by
  refine ⟨volume,distinct,clear,by rw [kept.mount]; exact holds.one,?_,?_,?_⟩
  · intro g named
    by_cases same : name83 g = name83 f
    · exact regular.rename same
    · exact (holds.other elsewhere kept named same).1
  · intro g named missing
    by_cases same : name83 g = name83 f
    · rw [same,Function.update_self] at missing
      exact (gone missing).congr same
    · rw [Function.update_of_ne same] at missing
      exact (holds.other elsewhere kept named same).2.1 (holds.absent g named missing)
  · intro g bytes named found
    by_cases same : name83 g = name83 f
    · rw [same,Function.update_self] at found
      obtain ⟨stored,started⟩ := own bytes found
      exact ⟨stored.congr same,started.congr same⟩
    · rw [Function.update_of_ne same] at found
      obtain ⟨stored,started⟩ := holds.present g bytes named found
      exact (holds.other elsewhere kept named same).2.2 _ _ stored started

theorem Created.stored {h file : File} (created : Created s f file (0,h,t)) (volume : WellFormed s) (nameable : Nameable f)
    (absent : Absent s f) : Stored t f (bytesAt []) 0 ∧ Started t f ∧ Elsewhere s t f := by
  generalize outcome : ((0 : Int),h,t) = result at created
  cases created with
  | leaked => cases outcome
  | refused => cases outcome
  | made k c h t made cluster nonzero table synced entry size first =>
    cases outcome
    have found := made.first nameable absent
    have handle := made.handle volume.shape volume.sound cluster nonzero table entry
    have place : t.slot k = s.slot k := by rw [made.mount]
    refine ⟨⟨k,[c],found,?_,?_,holds_done (Nat.le_refl 0)⟩,?_,made.elsewhere volume nameable⟩
    · rw [place]
      exact size
    · refine .inr ⟨?_,by simp,?_⟩
      · rw [place,entry]
        exact nonzero
      · rw [place,entry]
        exact handle.path
    · intro j again
      obtain rfl := again.unique found
      rw [place,entry]
      exact nonzero

theorem Vacant.cluster (vacant : Vacant s) (shape : Geometry s.toMount) : findFreeCluster s.fatBuffer ≠ 0 := by
  intro zero
  have member := find_free_in_volume shape vacant.2
  rw [zero] at member
  exact absurd member.1 (by decide)

theorem Created.done {h file : File} (created : Created s f file (v,h,t)) (volume : WellFormed s) (clear : s.Clear)
    (vacant : Vacant s) : v = 0 := by
  obtain ⟨k,inside,slot⟩ := vacant.1
  exact created.succeeds clear inside slot (vacant.cluster volume.shape)

theorem Represents.create (holds : Represents s names files) (nameable : Nameable f) (named : names (name83 f))
    (absent : Absent s f) (vacant : Vacant s) : ∃ h t, fat12Create s f .fresh = (0,h,t) ∧
      Represents t names (Function.update files (name83 f) (some [])) := by
  have volume := holds.volume
  have created := create_spec volume.shape f .fresh
  cases outcome : fat12Create s f .fresh with
  | mk v rest =>
    obtain ⟨h,t⟩ := rest
    rw [outcome] at created
    obtain rfl := created.done volume holds.clear vacant
    obtain ⟨stored,started,elsewhere⟩ := created.stored volume nameable absent
    obtain ⟨k,c,made,_⟩ := created.success rfl
    refine ⟨h,t,rfl,?_⟩
    refine holds.updated (created.well_formed volume holds.clear nameable vacant.2)
      (created.distinct holds.distinct (.inl (absent.unused volume))) (created.clear holds.clear) elsewhere
      (created.kept volume.shape volume.sound).1 (made.regular (holds.regular f named)) (some []) (fun no => by cases no) ?_
    intro bytes same
    cases same
    exact ⟨stored,started⟩

theorem Represents.delete (holds : Represents s names files) (named : names (name83 f)) (bytes : List UInt8)
    (there : files (name83 f) = some bytes) :
    ∃ t, fat12Delete s f = some (0,t) ∧ Represents t names (Function.update files (name83 f) none) := by
  have volume := holds.volume
  have regular := holds.regular f named
  obtain ⟨⟨k,_,found,_⟩,_⟩ := holds.present f bytes named there
  have deleted := delete_spec volume.shape f
  obtain ⟨v,t,ran⟩ := delete_returns volume regular
  rw [ran] at deleted
  have zero : v = 0 := deleted.value holds.clear found
  subst zero
  have absent := deleted.absent holds.distinct
  refine ⟨t,ran,?_⟩
  refine holds.updated (deleted.well_formed volume holds.clear regular) (deleted.distinct holds.distinct)
    (deleted.clear holds.clear) (deleted.elsewhere volume) (deleted.kept volume.shape volume.sound regular)
    (fun j again => absurd again (absent j)) none (fun _ => absent) (fun _ no => by cases no)

theorem writeFile_ways (data : Memory) (volume : WellFormed s) (clear : s.Clear) (nameable : Nameable f)
    (small : size < 2^32)
    (vacant : Absent s f → Vacant s) : (∃ k h, Resolves s (name83 f) k ∧ fat12Open s f .fresh = (0,h,s.after (k/16+1)) ∧
      h.firstCluster = firstClusterLow s.disk (s.slot k) ∧
      syscallWriteFile s f data size = writeAndUpdate (s.after (k/16+1)) f h data size) ∨
    ∃ j h u, Absent s f ∧ fat12Create (s.after j) f .fresh = (0,h,u) ∧
      syscallWriteFile s f data size = writeAndUpdate u f h data size := by
  unfold syscallWriteFile
  rw [Nat.mod_eq_of_lt small]
  have opened := open_spec (nameable.undeleted s) .fresh
  cases outcome : fat12Open s f .fresh with
  | mk v rest =>
    obtain ⟨h,u⟩ := rest
    rw [outcome] at opened
    generalize same : (v,h,u) = result at opened
    cases opened with
    | error j lt fault =>
      rw [clear j] at fault
      cases fault
    | found k h resolves _ sizeRead first =>
      cases same
      exact .inl ⟨k,h,resolves,rfl,first,by simp⟩
    | missing j le absent =>
      cases same
      have room : Vacant (s.after j) := vacant absent
      have created := create_spec (s := s.after j) volume.shape f .fresh
      cases made : fat12Create (s.after j) f .fresh with
      | mk r rest =>
        obtain ⟨h,u⟩ := rest
        rw [made] at created
        obtain rfl := created.done volume.after clear.after room
        exact .inr ⟨j,h,u,absent,made,by simp [made]⟩

theorem RoomFor.after (room : RoomFor s f size) : RoomFor (s.after j) f size :=
  ⟨fun k cs found chain => room.1 k cs (resolves_after.mp found) chain,
    fun absent => room.2 (fun k found => absent k (resolves_after.mpr found))⟩

theorem RoomFor.opened {h : File} (room : RoomFor s f size) (found : Resolves s (name83 f) k) (volume : WellFormed s)
    (regular : RegularOrAbsent s f) (nonzero : firstClusterLow s.disk (s.slot k) ≠ 0)
    (first : h.firstCluster = firstClusterLow s.disk (s.slot k)) : Fits s h size := by
  intro cs path
  obtain ⟨ds,chain⟩ := volume.sound.chained _ (found.owner regular)
  have enough := room.1 k ds found chain
  rcases chain with ⟨zero,_⟩ | ⟨_,_,links⟩
  · exact absurd zero nonzero
  · rw [first] at path
    rw [path.unique links]
    exact enough

theorem RoomFor.created {h file : File} (room : RoomFor s f size) (absent : Absent s f)
    (created : Created s f file (0,h,u)) (volume : WellFormed s) : Fits u h size := by
  obtain ⟨k,c,made,cluster,nonzero,table,entry,first,_⟩ := created.success rfl
  have handle := made.handle volume.shape volume.sound cluster nonzero table entry
  intro cs path
  rw [first] at path
  obtain rfl := path.unique handle.path
  refine (room.2 absent).take (c := c) made.mount ?_ rfl
  intro d other zero
  unfold Driver.fat
  rw [table,get_set_other _ _ other]
  exact zero

structure Rest (s t : Driver) (f : List UInt8) : Prop where
  volume : WellFormed t
  distinct : Distinct t
  clear : t.Clear
  elsewhere : Elsewhere s t f
  kept : Kept s t (Spared s f)
  regular : RegularOrAbsent t f

theorem NamesKept.regular (kept : NamesKept s t) (regular : RegularOrAbsent s f) : RegularOrAbsent t f := by
  intro k found
  have before := (resolves_iff kept.mount (fun a member i bound => kept.bytes a member i (by omega))).mp found
  have same : attributes t.disk (s.slot k) = attributes s.disk (s.slot k) := kept.bytes _ before.slot_mem 11 (by decide)
  rw [kept.mount,IsDirectory,same]
  exact regular k before

theorem writeAndUpdate_kept {h : File} (shape : Geometry s.toMount) (ran : writeAndUpdate s f h data size = some (v,t)) :
    NamesKept s t := by
  obtain ⟨n,u,same,kept⟩ := writeAndUpdate_names shape f h data size
  rw [ran] at same
  cases same
  exact kept

theorem write_rest (volume : WellFormed s) (distinct : Distinct s) (clear : s.Clear) (nameable : Nameable f)
    (regular : RegularOrAbsent s f) (small : size < 2^32) (room : RoomFor s f size) (vacant : Absent s f → Vacant s)
    (started : Started s f) (ran : syscallWriteFile s f data size = some (v,t)) : Rest s t f := by
  rcases writeFile_ways data volume clear nameable small vacant with
    ⟨k,h,found,opened,first,same⟩ | ⟨j,h,u,absent,made,same⟩
  · rw [same] at ran
    have fits : Fits (s.after (k/16+1)) h size := room.opened found volume regular (started k found) first
    have step : Step s (.writeOpened f data size) t :=
      .writeOpened f data size .fresh h _ t v nameable regular opened fits ran
    obtain ⟨volumeT,clearT⟩ := step_well_formed volume clear step
    have names := writeAndUpdate_kept (s := s.after (k/16+1)) volume.shape ran
    exact ⟨volumeT,names.distinct.mpr distinct,clearT,(Elsewhere.after s _ f).trans names.elsewhere,
      operation_kept volume.shape volume.sound nameable regular (.writeOpened data size .fresh h _ t v opened ran),
      names.regular regular.after⟩
  · rw [same] at ran
    have volumeJ : WellFormed (s.after j) := volume.after
    have absentJ : Absent (s.after j) f := fun k found => absent k (resolves_after.mp found)
    have created := create_spec volumeJ.shape f .fresh
    rw [made] at created
    have fits := room.after.created absentJ created volumeJ
    have space : Vacant (s.after j) := vacant absent
    have step : Step (s.after j) (.writeCreated f data size) t :=
      .writeCreated f data size .fresh h u t v nameable regular.after space.2 made fits ran
    obtain ⟨volumeT,clearT⟩ := step_well_formed volumeJ clear.after step
    obtain ⟨_,_,elsewhere⟩ := created.stored volumeJ nameable absentJ
    obtain ⟨k,c,make,_⟩ := created.success rfl
    have shapeU : Geometry u.toMount := by rw [make.mount]; exact volume.shape
    have names := writeAndUpdate_kept shapeU ran
    have distinctU := created.distinct distinct (.inl (absentJ.unused volumeJ))
    have kept : Kept (s.after j) t (Spared (s.after j) f) :=
      operation_kept volumeJ.shape volumeJ.sound nameable regular.after (.writeCreated data size .fresh h u t v made ran)
    exact ⟨volumeT,names.distinct.mpr distinctU,clearT,(Elsewhere.after s j f).trans (elsewhere.trans names.elsewhere),
      (Kept.after s j _).trans kept,names.regular (make.regular regular.after)⟩

theorem Represents.write (holds : Represents s names files) (nameable : Nameable f) (named : names (name83 f))
    {data : List UInt8} (someBytes : data ≠ []) (room : RoomFor s f data.length) (vacant : Absent s f → Vacant s) :
    ∃ t, syscallWriteFile s f (bytesAt data) data.length = some ((data.length : Int),t) ∧
      Represents t names (Function.update files (name83 f) (some data)) := by
  have volume := holds.volume
  have regular := holds.regular f named
  have positive : 0 < data.length := List.length_pos_iff.mpr someBytes
  have started : Started s f := by
    cases there : files (name83 f) with
    | none => exact fun k found => absurd found (holds.absent f named there k)
    | some bytes => exact (holds.present f bytes named there).2
  have small : data.length < 2^31 := by
    by_cases absent : Absent s f
    · exact (room.2 absent).small volume.shape holds.one (by decide)
    · obtain ⟨k,found⟩ := not_forall_not.mp absent
      obtain ⟨cs,chain⟩ := volume.sound.chained _ (found.owner regular)
      exact (room.1 k cs found chain).small volume.shape holds.one chain.length_lt
  have writable : Writable s f := by
    by_cases absent : Absent s f
    · exact .inr ⟨absent,(vacant absent).1⟩
    · obtain ⟨k,found⟩ := not_forall_not.mp absent
      exact .inl ⟨k,found,started k found⟩
  obtain ⟨v,t,ran,_,success⟩ := writeFile_reads_back volume.shape volume.sound holds.one holds.clear nameable regular room
    (bytesAt data)
  obtain rfl := success positive writable
  have undeleted := nameable.undeleted s
  obtain ⟨_,⟨_,stored⟩ | ⟨k,⟨_,⟨i,_,fault⟩,_⟩,_⟩⟩ :=
    writeFile_stored volume.shape volume.sound undeleted regular small ran (by omega)
  · have rest := write_rest volume holds.distinct holds.clear nameable regular (by omega) room vacant started ran
    refine ⟨t,ran,holds.updated rest.volume rest.distinct rest.clear rest.elsewhere rest.kept rest.regular (some data)
      (fun no => by cases no) ?_⟩
    intro bytes same
    cases same
    exact ⟨stored,stored.started positive⟩
  · rw [holds.clear i] at fault
    cases fault

theorem Represents.after (holds : Represents s names files) (j : Nat) : Represents (s.after j) names files := by
  refine ⟨holds.volume.after,holds.distinct,holds.clear.after,holds.one,fun f named => (holds.regular f named).after,?_,?_⟩
  · exact fun f named missing k found => holds.absent f named missing k (resolves_after.mp found)
  · intro f bytes named found
    obtain ⟨⟨k,cs,resolves,length,chain,contents⟩,started⟩ := holds.present f bytes named found
    have same : Holds (s.after j) (bytesAt bytes) bytes.length 0 cs := contents.congr rfl (fun _ _ _ _ => rfl)
    exact ⟨⟨k,cs,resolves_after.mpr resolves,length,chain,same⟩,fun i again => started i (resolves_after.mp again)⟩

theorem Holds.length {s : Driver} {data : Memory} (holds : Holds s data n w cs) : n ≤ w + cs.length*s.clusterBytes := by
  induction cs generalizing w with
  | nil =>
    have done : n ≤ w := holds
    omega
  | cons c cs ih =>
    have rest := ih holds.2
    rw [List.length_cons,Nat.succ_mul]
    omega

theorem Represents.read (holds : Represents s names files) (named : names (name83 f)) {bytes : List UInt8}
    (there : files (name83 f) = some bytes) (buf : Memory) (size : UInt32) :
    ∃ out j, syscallReadFile s f buf size.toNat = some (((min bytes.length size.toNat : Nat) : Int),out,s.after j) ∧
      ∀ i < min bytes.length size.toNat, out i = bytesAt bytes i := by
  obtain ⟨⟨k,cs,found,length,chain,contents⟩,started⟩ := holds.present f bytes named there
  have owner := found.owner (holds.regular f named)
  have real := holds.volume.sound.inside _ cs owner chain
  have short := chain.length_lt
  have bounded : bytes.length < 2^31 := by
    have most := contents.length
    rw [clusterBytes_one holds.one] at most
    omega
  rcases chain with ⟨zero,_⟩ | ⟨_,nonempty,path⟩
  · exact absurd zero (started k found)
  · exact readFile_spec buf holds.one holds.clear found.nameable found bounded length path nonempty real contents size

theorem read_absent (clear : s.Clear) (nameable : Nameable f) (absent : Absent s f) (buf : Memory) (size : Nat) :
    ∃ j, syscallReadFile s f buf size = some (-1,buf,s.after j) := by
  have opened := open_spec (nameable.undeleted s) .fresh
  unfold syscallReadFile
  generalize fat12Open s f .fresh = outcome at opened
  cases opened with
  | error j lt fault =>
    rw [clear j] at fault
    cases fault
  | found k h resolves => exact absurd resolves (absent k)
  | missing j => exact ⟨j,by simp⟩

theorem delete_absent (shape : Geometry s.toMount) (clear : s.Clear) (absent : Absent s f) :
    ∃ j, fat12Delete s f = some (-1,s.after j) := by
  have deleted := delete_spec shape f
  generalize fat12Delete s f = outcome at deleted
  cases deleted with
  | missing j => exact ⟨j,rfl⟩
  | error n j fault =>
    rw [clear n] at fault
    cases fault
  | done k freed t resolves => exact absurd resolves (absent k)
  | exposed k freed t n resolves => exact absurd resolves (absent k)
  | stuck k resolves => exact absurd resolves (absent k)

theorem bytes_read {bytes : List UInt8} {out : Memory} (same : ∀ i < min bytes.length n, out i = bytesAt bytes i) :
    (List.range (min bytes.length n)).map out = bytes.take n := by
  apply List.ext_getElem
  · simp [Nat.min_comm]
  · intro i left right
    simp at left
    simp [same i (by omega),bytesAt,List.getElem?_eq_getElem left.1]

theorem Represents.write_nothing (holds : Represents s names files) (nameable : Nameable f) (named : names (name83 f))
    (vacant : Absent s f → Vacant s) : ∃ t, syscallWriteFile s f (bytesAt []) 0 = some (0,t) ∧
      Represents t names (Function.update files (name83 f) (some ((files (name83 f)).getD []))) := by
  cases there : files (name83 f) with
  | some bytes =>
    obtain ⟨⟨k,_,found,_⟩,_⟩ := holds.present f bytes named there
    have same : Function.update files (name83 f) (some bytes) = files := by
      rw [← there,Function.update_eq_self]
    refine ⟨_,idle_write found holds.clear (by decide) (.inl rfl) _,?_⟩
    rw [Option.getD_some,same]
    exact holds.after _
  | none =>
    have absent := holds.absent f named there
    rcases writeFile_ways (bytesAt []) holds.volume holds.clear nameable (show 0 < 2^32 by decide) vacant with
      ⟨k,h,found,_⟩ | ⟨j,h,u,_,made,same⟩
    · exact absurd found (absent k)
    obtain ⟨h',t,ran,after⟩ := (holds.after j).create nameable named (fun k found => absent k (resolves_after.mp found))
      (vacant absent)
    rw [made] at ran
    cases ran
    have wrote : fat12Write u h (bytesAt []) 0 = some (0,u) := by
      unfold fat12Write
      rw [writeFrom,if_neg (fun goes => absurd goes.1 (Nat.lt_irrefl 0))]
      rfl
    refine ⟨u,?_,after⟩
    rw [same,writeAndUpdate,wrote]
    rfl

-- One call does to the volume what it means for the contents, and returns the same.
theorem call_means (holds : Represents s names files) (call : RootCall) (nameable : Nameable call.filename)
    (named : names (name83 call.filename)) (admissible : call.Admissible s) :
    ∃ t, call.run s = some ((call.means files).1,t) ∧ Represents t names (call.means files).2 := by
  cases call with
  | create f =>
    change Nameable f at nameable
    change names (name83 f) at named
    obtain ⟨h,t,ran,after⟩ := holds.create nameable named admissible.1 admissible.2
    refine ⟨t,?_,after⟩
    rw [RootCall.run,syscallCreateFile,ran]
    rfl
  | write f data =>
    change Nameable f at nameable
    change names (name83 f) at named
    rw [RootCall.run,RootCall.means]
    by_cases empty : data = []
    · subst empty
      obtain ⟨t,ran,after⟩ := holds.write_nothing nameable named admissible.2
      refine ⟨t,?_,by rw [if_pos rfl]; exact after⟩
      rw [List.length_nil,ran]
      rfl
    · obtain ⟨t,ran,after⟩ := holds.write nameable named empty admissible.1 admissible.2
      refine ⟨t,?_,by rw [if_neg empty]; exact after⟩
      rw [ran]
      rfl
  | read f buf size =>
    change Nameable f at nameable
    change names (name83 f) at named
    rw [RootCall.run,RootCall.means]
    cases there : files (name83 f) with
    | none =>
      obtain ⟨j,ran⟩ := read_absent holds.clear nameable (holds.absent f named there) buf size.toNat
      refine ⟨_,?_,holds.after j⟩
      rw [ran]
      rfl
    | some bytes =>
      obtain ⟨out,j,ran,same⟩ := holds.read named there buf size
      refine ⟨_,?_,holds.after j⟩
      rw [ran,Option.map_some]
      dsimp only
      rw [Int.toNat_natCast,bytes_read same]
  | delete f =>
    change names (name83 f) at named
    rw [RootCall.run,RootCall.means]
    cases there : files (name83 f) with
    | none =>
      obtain ⟨j,ran⟩ := delete_absent holds.volume.shape holds.clear (holds.absent f named there)
      refine ⟨_,?_,holds.after j⟩
      rw [ran]
      rfl
    | some bytes =>
      obtain ⟨t,ran,after⟩ := holds.delete named bytes there
      refine ⟨t,?_,after⟩
      rw [ran]
      rfl

end

structure Served (names : List UInt8 → Prop) (s : Driver) (event : RootCall × (Int × List UInt8)) (t : Driver) : Prop where
  nameable : Nameable event.1.filename
  named : names (name83 event.1.filename)
  admissible : event.1.Admissible s
  ran : event.1.run s = some (event.2,t)

def Meant (files : Contents) (event : RootCall × (Int × List UInt8)) (after : Contents) : Prop :=
  event.1.means files = (event.2,after)

theorem served_meant (holds : Represents s names files) (served : Served names s event t) :
    ∃ after, Meant files event after ∧ Represents t names after := by
  obtain ⟨u,ran,after⟩ := call_means holds event.1 served.nameable served.named served.admissible
  have same := served.ran.symm.trans ran
  simp only [Option.some.injEq,Prod.mk.injEq] at same
  obtain ⟨answer,rfl⟩ := same
  exact ⟨_,by rw [Meant,answer],after⟩

-- Over every run of such calls the root directory is a finite map from names to bytes: each
-- call returns what it returns for the map, and in every state reached each admissible call
-- comes to an end.
theorem files_are_a_map (holds : Represents s names files) (history : Run (Served names) s events t) :
    ∃ after, Run Meant files events after ∧ Represents t names after ∧
      ∀ call : RootCall, Nameable call.filename → names (name83 call.filename) → call.Admissible t →
        ∃ u, call.run t = some ((call.means after).1,u) := by
  obtain ⟨after,meant,last⟩ :=
    history.simulated (fun s files => Represents s names files) (fun _ _ _ _ => served_meant) holds
  refine ⟨after,meant,last,?_⟩
  intro call nameable named admissible
  obtain ⟨u,ran,_⟩ := call_means last call nameable named admissible
  exact ⟨u,ran⟩

theorem blank_represents (names : List UInt8 → Prop) : Represents blank names (fun _ => none) := by
  refine ⟨blank_well_formed,blank_distinct,fun _ => rfl,rfl,fun f _ => blank_regular f,?_,?_⟩
  · exact fun f _ _ k found => found.live.1 rfl
  · exact fun f bytes _ found => by cases found

theorem blank_vacant : Vacant blank :=
  ⟨⟨0,by decide,fun live => live.1 rfl⟩,2,floppy_in_volume (by decide) (by decide),blank_fat 2⟩

theorem files_are_a_map_one_file : ∃ t after,
    Run (Served (fun _ => True)) blank [(.write [0x41] [0x48,0x69],(2,[])),(.read [0x41] (fun _ => 0) 10,(2,[0x48,0x69])),
      (.delete [0x41],(0,[]))] t ∧ Represents t (fun _ => True) after ∧ after (name83 [0x41]) = none := by
  have nameable : Nameable [0x41] := by decide
  have room : RoomFor blank [0x41] 2 := by
    refine ⟨fun k cs found => absurd rfl found.live.1,fun _ => ⟨[2],by decide,?_,?_⟩⟩
    · intro c member
      obtain rfl := List.mem_singleton.mp member
      exact ⟨floppy_in_volume (by decide) (by decide),blank_fat 2⟩
    · rw [clusterBytes_one (v := blank.toMount) rfl]
      decide
  have writeAllowed : RootCall.Admissible blank (.write [0x41] [0x48,0x69]) := ⟨room,fun _ => blank_vacant⟩
  obtain ⟨one,wrote,first⟩ := call_means (blank_represents (fun _ => True)) (.write [0x41] [0x48,0x69]) nameable trivial writeAllowed
  obtain ⟨two,ran,second⟩ := call_means first (.read [0x41] (fun _ => 0) 10) nameable trivial trivial
  obtain ⟨t,gone,_⟩ := call_means second (.delete [0x41]) nameable trivial trivial
  have history : Run (Served (fun _ => True)) blank [(.write [0x41] [0x48,0x69],(2,[])),
      (.read [0x41] (fun _ => 0) 10,(2,[0x48,0x69])),(.delete [0x41],(0,[]))] t :=
    .cons ⟨nameable,trivial,writeAllowed,wrote⟩ (.cons ⟨nameable,trivial,trivial,ran⟩
      (.single ⟨nameable,trivial,trivial,gone⟩))
  obtain ⟨after,meant,last,_⟩ := files_are_a_map (blank_represents (fun _ => True)) history
  refine ⟨t,after,history,last,?_⟩
  cases meant with
  | cons write rest =>
    cases rest with
    | cons read rest =>
      cases rest with
      | cons delete rest =>
        cases rest
        cases write
        cases read
        cases delete
        rfl

end SantOS.Fat12
