import SantOS.Fat12.Frames
import SantOS.Fat12.Histories

namespace SantOS.Fat12
open ByteMemory LinkedPaths

inductive Refers (s : Driver) (a : Nat) : Nat → Prop where
  | first (low : 2 ≤ firstClusterLow s.disk a) (high : firstClusterLow s.disk a < 0xFF8) :
      Refers s a (firstClusterLow s.disk a)
  | next (before : Refers s a c) (low : 2 ≤ s.fat c) (high : s.fat c < 0xFF8) : Refers s a (s.fat c)

-- No live entry refers to a cluster that the driver takes for free or that another entry
-- refers to.
def Safe (s : Driver) : Prop :=
  ∀ a c, Owner s a → Refers s a c → s.fat c ≠ 0 ∧ ∀ b, Owner s b → b ≠ a → ¬ Refers s b c

theorem Refers.in_chain (refers : Refers s a c) (chain : EntryChain s a cs) : c ∈ cs := by
  induction refers with
  | first low high =>
    rcases chain with ⟨zero,_⟩ | ⟨_,_,path⟩
    · omega
    · cases path with
      | nil done => omega
      | cons more rest => exact List.mem_cons_self ..
  | @next c before low high ih =>
    rcases chain with ⟨_,rfl⟩ | ⟨_,_,path⟩
    · cases ih
    · obtain ⟨pre,post,rfl⟩ := List.append_of_mem ih
      have behind : Path s.fat (0xFF8 ≤ ·) (s.fat c) post := path.suffix.tail
      cases behind with
      | nil done => omega
      | cons more rest => simp

theorem Sound.safe {s : Driver} (sound : Sound s) : Safe s := by
  intro a c owner refers
  obtain ⟨cs,chain⟩ := sound.chained a owner
  have inside := refers.in_chain chain
  refine ⟨chain.nonzero inside (sound.inside a cs owner chain),?_⟩
  intro b other different shared
  obtain ⟨ds,held⟩ := sound.chained b other
  exact sound.apart a b cs ds owner other (Ne.symm different) chain held inside (shared.in_chain held)

-- Writing through a handle keeps the chains apart at every fault.
theorem Handle.sound {s : Driver} {h : File} (handle : Handle s r c cs) (shape : Geometry s.toMount) (sound : Sound s)
    (first : h.firstCluster = c) (regular : RegularOrAbsent s f) (buffer : Memory) (size : Nat) :
    ∃ v t, writeAndUpdate s f h buffer size = some (v,t) ∧ Sound t := by
  obtain ⟨n,u,_,wrote,_⟩ := handle.write shape first False (fun no => no.elim) buffer size
  obtain ⟨v,t,ran⟩ := writeAndUpdate_returns (f := f) wrote
  have kept : Kept s t (fun _ => False) ∧ Sound t := handle.kept shape sound first regular id (fun _ _ => id) ran
  exact ⟨v,t,ran,kept.2⟩

theorem create_and_write_sound {s : Driver} (shape : Geometry s.toMount) (sound : Sound s) (regular : RegularOrAbsent s f)
    (file : File) (buffer : Memory) (size : Nat) :
    ∃ v t, (match fat12Create s f file with
      | (r,file,s) => if r ≠ 0 then some (0,s) else writeAndUpdate s f file buffer size) = some (v,t) ∧ Sound t := by
  have created := create_spec shape f file
  generalize fat12Create s f file = outcome at created
  obtain ⟨r,h,u⟩ := outcome
  have soundU := (created.kept shape sound).2
  dsimp only
  by_cases failed : r ≠ 0
  · rw [if_pos failed]
    exact ⟨0,u,rfl,soundU⟩
  · rw [if_neg failed]
    obtain ⟨k,c,made,found,nonzero,table,entry,first,_⟩ := created.success (not_not.mp failed)
    have shapeU : Geometry u.toMount := by rw [made.mount]; exact shape
    exact (made.handle shape sound found nonzero table entry).sound shapeU soundU first (made.regular regular) buffer size

theorem writeFile_sound {s : Driver} (shape : Geometry s.toMount) (sound : Sound s) (regular : RegularOrAbsent s f)
    (undeleted : Undeleted s f) (buffer : Memory) (size : Nat) :
    ∃ v t, syscallWriteFile s f buffer size = some (v,t) ∧ Sound t := by
  have opened := open_spec undeleted .fresh
  unfold syscallWriteFile
  generalize fat12Open s f .fresh = outcome at opened
  cases opened with
  | missing j => exact create_and_write_sound (s := s.after j) shape sound.after regular.after _ _ _
  | error j => exact create_and_write_sound (s := s.after (j+1)) shape sound.after regular.after _ _ _
  | found k h resolves clear sizeRead first =>
    obtain ⟨cs,chain⟩ := sound.chained _ (resolves.owner regular)
    cases cs with
    | nil =>
      have wrote := empty_write (s.after (k/16+1)) (first.trans chain.empty_first) buffer (size % 2^32)
      refine ⟨0,s.after (k/16+1),?_,sound.after⟩
      dsimp only
      rw [if_neg (not_not.mpr rfl),writeAndUpdate,wrote]
      rfl
    | cons c cs =>
      have handle := (resolves.handle regular sound chain (by simp)).after (j := k/16+1)
      exact handle.sound shape sound.after first regular.after buffer (size % 2^32)

-- The calls on a name, and whether the name suits them: it is absent or a regular root
-- file, and the lookup of open does not take a deleted entry for it.
inductive Call where
  | create (f : List UInt8)
  | delete (f : List UInt8)
  | write (f : List UInt8) (buffer : Memory) (size : Nat)

def Call.Suits (s : Driver) : Call → Prop
  | .create f => RegularOrAbsent s f
  | .delete f => RegularOrAbsent s f
  | .write f _ _ => RegularOrAbsent s f ∧ Undeleted s f

def Call.run (s : Driver) : Call → Option (Int × Driver)
  | .create f => some (syscallCreateFile s f)
  | .delete f => fat12Delete s f
  | .write f buffer size => syscallWriteFile s f buffer size

-- fat12_delete of a file with clusters when the failing call is one of the FAT or
-- directory writes that follow the search.
def Call.Exposes (s : Driver) (fault : Nat) : Call → Prop
  | .delete f => ∃ k, Resolves s (name83 f) k ∧ firstClusterLow s.disk (s.slot k) ≠ 0 ∧ k/16 < fault ∧
      fault < k/16 + 2 + s.bootSector.sectorsPerFat
  | _ => False

theorem freed_safe_iff {s t : Driver} (shape : Geometry s.toMount) (resolves : Resolves s (name83 f) k)
    (regular : RegularOrAbsent s f) (sound : Sound s)
    (walk : freeChain s.fatBuffer (firstClusterLow s.disk (s.slot k)) 0x1000 = some freed)
    (mount : t.toMount = s.toMount) (table : t.fatBuffer = freed)
    (disk : ∀ x, s.rootByte ≤ x → t.disk x = s.disk x) : Safe t ↔ firstClusterLow s.disk (s.slot k) = 0 := by
  have low : s.rootByte ≤ s.slot k := by unfold Mount.slot; omega
  have owner := resolves.owner regular
  have bytes : ∀ i < 32, t.disk (s.slot k + i) = s.disk (s.slot k + i) := fun i _ => disk _ (by omega)
  obtain ⟨cs,chain⟩ := sound.chained _ owner
  have real := sound.inside _ cs owner chain
  have emptied := freed_fat chain real walk table
  constructor
  · intro safe
    rcases chain with ⟨zero,_⟩ | ⟨_,_,path⟩
    · exact zero
    cases path with
    | nil => contradiction
    | @cons _ rest more behind =>
      have first := firstCluster_congr bytes
      have two := real _ (List.mem_cons_self ..)
      have ownerT : Owner t (s.slot k) := by
        refine ⟨⟨_,.root,?_⟩,owner.2.congr bytes⟩
        rw [mount]
        exact resolves.slot_mem
      have refers : Refers t (s.slot k) (firstClusterLow t.disk (s.slot k)) :=
        .first (by rw [first]; exact two) (by rw [first]; omega)
      refine absurd ?_ (safe _ _ ownerT refers).1
      rw [first,emptied,if_pos (List.mem_cons_self ..)]
  · intro zero
    have empty : cs = [] := by
      rcases chain with ⟨_,nothing⟩ | ⟨nonzero,_⟩
      · exact nothing
      · exact absurd zero nonzero
    have edit := freed_edit sound resolves regular chain mount emptied (fun x high _ => disk x high)
    subst empty
    refine (edit.sound shape sound (fun _ => ⟨[],.inl ⟨?_,rfl⟩,fun _ no => (by cases no),fun _ _ _ _ _ => ?_⟩)).safe
    · rw [firstCluster_congr bytes]
      exact zero
    · exact List.disjoint_nil_left _

theorem delete_safe {s : Driver} (shape : Geometry s.toMount) (sound : Sound s) (regular : RegularOrAbsent s f)
    (single : ∀ n, s.faults n = true ↔ n = fault) (harmless : ¬ (Call.delete f).Exposes s fault) :
    ∃ v t, fat12Delete s f = some (v,t) ∧ Safe t := by
  have deleted := delete_spec shape f
  generalize fat12Delete s f = outcome at deleted
  cases deleted with
  | missing j absent => exact ⟨-1,s.after j,rfl,sound.after.safe⟩
  | error n j failed late => exact ⟨-1,s.after j,rfl,sound.after.safe⟩
  | stuck k resolves walk => exact absurd walk (resolves.walks regular sound)
  | done k freed t resolves walk mount table outside mark synced clear =>
    have owner := resolves.owner regular
    obtain ⟨cs,chain⟩ := sound.chained _ owner
    have emptied := freed_fat chain (sound.inside _ cs owner chain) walk table
    have edit := freed_edit sound resolves regular chain mount emptied outside
    have soundT := edit.sound shape sound (fun owns => absurd mark owns.live.2)
    exact ⟨0,t,rfl,soundT.safe⟩
  | exposed k freed t n resolves walk mount table disk failed behind within =>
    refine ⟨-1,t,rfl,(freed_safe_iff shape resolves regular sound walk mount table disk).mpr ?_⟩
    by_contra nonzero
    exact harmless ⟨k,resolves,nonzero,by rw [← (single n).mp failed]; exact behind,
      by rw [← (single n).mp failed]; exact within⟩

theorem delete_exposes {s : Driver} (shape : Geometry s.toMount) (sound : Sound s) (regular : RegularOrAbsent s f)
    (single : ∀ n, s.faults n = true ↔ n = fault) (exposes : (Call.delete f).Exposes s fault) :
    ∃ t, fat12Delete s f = some (-1,t) ∧ ¬ Safe t := by
  obtain ⟨k,resolves,nonzero,behind,within⟩ := exposes
  have deleted := delete_spec shape f
  generalize fat12Delete s f = outcome at deleted
  cases deleted with
  | missing j absent => exact absurd resolves (absent k)
  | error n j failed late =>
    have early := late k resolves
    have here := (single n).mp failed
    omega
  | stuck j other walk => exact absurd walk (other.walks regular sound)
  | done j freed t other walk mount table outside mark synced clear =>
    rw [resolves.unique other] at within
    have failed := (single fault).mpr rfl
    rw [clear fault within] at failed
    cases failed
  | exposed j freed t n other walk mount table disk =>
    refine ⟨t,rfl,?_⟩
    rw [freed_safe_iff shape other regular sound walk mount table disk,← resolves.unique other]
    exact nonzero

-- With one failing disk call anywhere, a call leaves a live entry on free or shared
-- clusters exactly when it is a deletion that fails behind the search.
theorem failure_safe_iff {s : Driver} (shape : Geometry s.toMount) (sound : Sound s) (call : Call) (suits : call.Suits s)
    (fault : Nat) (single : ∀ n, s.faults n = true ↔ n = fault) :
    ∃ v t, call.run s = some (v,t) ∧ (Safe t ↔ ¬ call.Exposes s fault) := by
  cases call with
  | create f =>
    have created := create_spec shape f .fresh
    have soundT := (created.kept shape sound).2
    exact ⟨_,_,rfl,iff_of_true soundT.safe (fun no => no)⟩
  | delete f =>
    by_cases exposes : (Call.delete f).Exposes s fault
    · obtain ⟨t,ran,hazard⟩ := delete_exposes shape sound suits single exposes
      exact ⟨-1,t,ran,iff_of_false hazard (not_not.mpr exposes)⟩
    · obtain ⟨v,t,ran,safe⟩ := delete_safe shape sound suits single exposes
      exact ⟨v,t,ran,iff_of_true safe exposes⟩
  | write f buffer size =>
    obtain ⟨v,t,ran,soundT⟩ := writeFile_sound shape sound suits.1 suits.2 buffer size
    exact ⟨v,t,ran,iff_of_true soundT.safe (fun no => no)⟩

def oneFile : Driver := {(fat12Create blank [0x42] .fresh).2.2 with faults := fun n => decide (n = 1)}

theorem oneFile_facts : WellFormed oneFile ∧ RegularOrAbsent oneFile [0x42] ∧ Resolves oneFile (name83 [0x42]) 0 ∧
    firstClusterLow oneFile.disk (oneFile.slot 0) = 2 := by
  obtain ⟨h,u,ran,made,_,entry,_⟩ := blank_create [0x42]
  have created := create_spec floppy_geometry (s := blank) [0x42] .fresh
  rw [ran] at created
  have volume : oneFile = {u with faults := fun n => decide (n = 1)} := by rw [oneFile,ran]
  have formed := created.well_formed blank_well_formed (fun _ => rfl) (by decide)
    ⟨2,floppy_in_volume (by decide) (by decide),blank_fat 2⟩
  have found : Resolves u (name83 [0x42]) 0 := by
    refine ⟨?_,?_,fun j less => absurd less (Nat.not_lt_zero j)⟩
    · rw [made.mount]
      decide
    · rw [made.mount]
      exact editProbe_hit.mpr ⟨made.live (by decide),made.name⟩
  rw [volume]
  refine ⟨formed.with_faults _,?_,found.congr rfl (fun _ _ _ _ => rfl),?_⟩
  · exact (made.regular (blank_regular _)).congr rfl (fun _ _ _ _ => rfl)
  · show firstClusterLow u.disk (u.slot 0) = 2
    rw [made.mount]
    exact entry

theorem oneFile_single (n : Nat) : oneFile.faults n = true ↔ n = 1 := decide_eq_true_iff

theorem failure_safe_iff_second_call : ∃ v t, (Call.delete [0x42]).run oneFile = some (v,t) ∧
    (Safe t ↔ ¬ (Call.delete [0x42]).Exposes oneFile 1) :=
  failure_safe_iff oneFile_facts.1.shape oneFile_facts.1.sound (.delete [0x42]) oneFile_facts.2.1 1 oneFile_single

theorem failed_delete_exposes : WellFormed oneFile ∧ RegularOrAbsent oneFile [0x42] ∧ (∀ n, oneFile.faults n = true ↔ n = 1) ∧
    ∃ t, fat12Delete oneFile [0x42] = some (-1,t) ∧ ¬ Safe t := by
  obtain ⟨volume,regular,found,first⟩ := oneFile_facts
  have exposes : (Call.delete [0x42]).Exposes oneFile 1 := ⟨0,found,by rw [first]; decide,by decide,by omega⟩
  exact ⟨volume,regular,oneFile_single,delete_exposes volume.shape volume.sound regular oneFile_single exposes⟩

end SantOS.Fat12
