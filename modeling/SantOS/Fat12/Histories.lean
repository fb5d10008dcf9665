import SantOS.Fat12.Handles
import SantOS.Library.Runs

namespace SantOS.Fat12
open ByteMemory LinkedPaths Runs

theorem Made.well_formed {s t : Driver} (made : Made s t f k) (volume : WellFormed s) (nameable : Nameable f)
    (room : ∃ e, s.InVolume e ∧ s.fat e = 0) (found : c = findFreeCluster s.fatBuffer) (nonzero : c ≠ 0)
    (table : t.fatBuffer = setFatEntry s.fatBuffer c 0xFFF) (entry : firstClusterLow t.disk (s.slot k) = c)
    (synced : Synced t) : WellFormed t := by
  obtain ⟨two,small,available⟩ := found_free found nonzero
  have edit := taken_edit volume.sound made.inside made.free made.mount table available two made.outside (fun _ => made.file)
  have new := taken_chain volume.sound table available two small entry
  have member : s.InVolume c := by
    rw [found]
    exact find_free_in_volume volume.shape room
  refine edit.well_formed volume (fun _ => ⟨[c],new,?_⟩) ?_ (made.live nameable).1
    (Mount.slots_below (fun j less => (made.before j less).1)) synced
  · intro d inside
    rw [List.mem_singleton.mp inside]
    exact member
  · rintro d _ (rfl | ⟨_,owner,_⟩)
    · exact ⟨[d],made.owns nameable,new.chain,List.mem_cons_self ..⟩
    · exact absurd owner.2.live made.free

theorem Written.well_formed {s t : Driver} (written : Written s.Clear s buffer size 0 c cs v t fresh) (volume : WellFormed s)
    (clear : s.Clear) (handle : Handle s r c cs) (owns : Owns s.disk r) (room : Room s cs size)
    (unmarked : ∀ a ∈ s.rootSlots, a < r → s.disk a ≠ 0) : WellFormed t := by
  have owner : Owner s r := ⟨⟨_,.root,handle.slot⟩,owns⟩
  have start := handle.start
  have chain : EntryChain s r cs := by
    refine .inr ⟨?_,handle.nonempty,?_⟩ <;> rw [handle.first owns]
    · omega
    · exact handle.path
  have edit := extended_edit volume.shape volume.sound handle written.toExtended
  have same := written.toExtended.root_kept volume.shape handle.slot
  have new := extended_chain volume.shape volume.sound handle written.toExtended (owns.congr same)
  refine edit.well_formed volume (fun _ => ⟨_,new,?_⟩) ?_ ?_ unmarked (written.synced clear volume.synced)
  · intro d member
    rcases List.mem_append.mp member with old | added
    · exact volume.placed r cs owner chain d old
    · exact written.room (by rw [Nat.sub_zero]; exact room) d added
  · intro d _ member
    refine ⟨cs ++ fresh,owns.congr same,new.chain,?_⟩
    rcases member with touched | ⟨ds,_,held,inside⟩
    · exact touched
    · rw [held.unique chain] at inside
      exact List.mem_append_left _ inside
  · rw [first_byte_congr same]
    exact owns.live.1

theorem Resolves.unmarked_slots {s : Driver} (resolves : Resolves s name k) :
    ∀ a ∈ s.rootSlots, a < s.slot k → s.disk a ≠ 0 := Mount.slots_below resolves.unmarked

theorem Resized.well_formed {s t : Driver} (resized : Resized s f n (v,t)) (volume : WellFormed s)
    (regular : RegularOrAbsent s f) : WellFormed t := by
  cases resized with
  | missing j => exact volume.after
  | error n j => exact volume.after
  | done k t resolves mount table outside size synced faults =>
    have owner := resolves.owner regular
    obtain ⟨cs,chain⟩ := volume.sound.chained _ owner
    have edit := resized_edit resolves regular mount table outside
    have new := resized_chain volume.sound owner chain table outside
    have owns := resized_owns owner.2 outside
    refine edit.well_formed volume (fun _ => ⟨cs,new,volume.placed _ cs owner chain⟩) ?_ owns.live.1 resolves.unmarked_slots
      (synced volume.synced)
    rintro d _ (no | ⟨ds,_,held,inside⟩)
    · exact no.elim
    · rw [held.unique chain] at inside
      exact ⟨cs,owns,new.chain,inside⟩

theorem Deleted.well_formed {s t : Driver} (deleted : Deleted s f (some (v,t))) (volume : WellFormed s) (clear : s.Clear)
    (regular : RegularOrAbsent s f) : WellFormed t := by
  generalize outcome : some (v,t) = result at deleted
  cases deleted with
  | stuck k resolves walk => cases outcome
  | missing j =>
    cases outcome
    exact volume.after
  | error n j =>
    cases outcome
    exact volume.after
  | exposed k freed t n resolves walk mount table disk fault =>
    rw [clear n] at fault
    cases fault
  | done k freed t resolves walk mount table outside mark synced =>
    cases outcome
    have owner := resolves.owner regular
    obtain ⟨cs,chain⟩ := volume.sound.chained _ owner
    have emptied := freed_fat chain (volume.sound.inside _ cs owner chain) walk table
    have edit := freed_edit volume.sound resolves regular chain mount emptied outside
    have dead : ¬ Owns t.disk (s.slot k) := fun owns => owns.live.2 mark
    refine edit.well_formed volume (fun owns => absurd owns dead) ?_ ?_ resolves.unmarked_slots synced
    · rintro d used (freed | ⟨es,_,held,inside⟩)
      · rw [emptied d,if_pos freed] at used
        exact absurd rfl used
      · rw [held.unique chain] at inside
        rw [emptied d,if_pos inside] at used
        exact absurd rfl used
    · rw [mark]
      decide

theorem Resized.clear {s t : Driver} (resized : Resized s f n (v,t)) (clear : s.Clear) : t.Clear := by
  cases resized with
  | done k t resolves mount table outside size synced faults => exact clear.shift ⟨_,faults⟩
  | missing j => exact clear.after
  | error n j => exact clear.after

theorem Deleted.clear {s t : Driver} (deleted : Deleted s f (some (v,t))) (clear : s.Clear) : t.Clear := by
  generalize outcome : some (v,t) = result at deleted
  cases deleted with
  | stuck k resolves walk => cases outcome
  | missing j => cases outcome; exact clear.after
  | error n j => cases outcome; exact clear.after
  | done k freed t resolves walk mount table outside mark synced _ faults => cases outcome; exact clear.shift faults
  | exposed k freed t n resolves walk mount table disk fault =>
    rw [clear n] at fault
    cases fault

theorem Handle.saved {s : Driver} {h : File} (handle : Handle s r c cs) (volume : WellFormed s) (clear : s.Clear)
    (regular : RegularOrAbsent s f) (owns : Owns s.disk r) (unmarked : ∀ a ∈ s.rootSlots, a < r → s.disk a ≠ 0)
    (first : h.firstCluster = c) (room : Room s cs size) (ran : writeAndUpdate s f h buffer size = some (v,t)) :
    WellFormed t ∧ t.Clear := by
  obtain ⟨bytes,u,fresh,wrote,written⟩ := handle.write volume.shape first s.Clear id buffer size
  have grown := written.well_formed volume clear handle owns room unmarked
  have clearU := clear.shift written.faults
  have regularU : RegularOrAbsent u f := regular.congr written.mount (fun a slot => written.toExtended.root_kept volume.shape slot)
  rw [writeAndUpdate,wrote] at ran
  dsimp only at ran
  split at ran
  · have resized := updateSize_spec grown.shape f (bytes.toNat % 2^32)
    generalize fat12UpdateSize u f (bytes.toNat % 2^32) = outcome at resized ran
    obtain ⟨x,w⟩ := outcome
    have same : w = t := by
      dsimp only at ran
      split at ran <;> cases ran <;> rfl
    subst same
    exact ⟨resized.well_formed grown regularU,resized.clear clearU⟩
  · cases ran
    exact ⟨grown,clearU⟩

inductive Op where
  | create (f : List UInt8)
  | writeOpened (f : List UInt8) (buffer : Memory) (size : Nat)
  | writeCreated (f : List UInt8) (buffer : Memory) (size : Nat)
  | delete (f : List UInt8)

def Fits (s : Driver) (h : File) (size : Nat) : Prop :=
  ∀ cs, Path s.fat (0xFF8 ≤ ·) h.firstCluster cs → Room s cs size

-- One operation on a name that resolves to a regular root file or to nothing. A write
-- uses the handle that open or create has just returned and then updates the size.
inductive Step (s : Driver) : Op → Driver → Prop where
  | create (f : List UInt8) (file h : File) (v : Int) (t : Driver) (nameable : Nameable f) (regular : RegularOrAbsent s f)
      (room : ∃ e, s.InVolume e ∧ s.fat e = 0) (ran : fat12Create s f file = (v,h,t)) : Step s (.create f) t
  | writeOpened (f : List UInt8) (buffer : Memory) (size : Nat) (file h : File) (u t : Driver) (v : Int)
      (nameable : Nameable f) (regular : RegularOrAbsent s f) (opened : fat12Open s f file = (0,h,u))
      (fits : Fits u h size) (ran : writeAndUpdate u f h buffer size = some (v,t)) :
      Step s (.writeOpened f buffer size) t
  | writeCreated (f : List UInt8) (buffer : Memory) (size : Nat) (file h : File) (u t : Driver) (v : Int)
      (nameable : Nameable f) (regular : RegularOrAbsent s f) (room : ∃ e, s.InVolume e ∧ s.fat e = 0)
      (created : fat12Create s f file = (0,h,u)) (fits : Fits u h size)
      (ran : writeAndUpdate u f h buffer size = some (v,t)) : Step s (.writeCreated f buffer size) t
  | delete (f : List UInt8) (v : Int) (t : Driver) (nameable : Nameable f) (regular : RegularOrAbsent s f)
      (ran : fat12Delete s f = some (v,t)) : Step s (.delete f) t

theorem Created.well_formed {s t : Driver} {h file : File} (created : Created s f file (v,h,t)) (volume : WellFormed s)
    (clear : s.Clear) (nameable : Nameable f) (room : ∃ e, s.InVolume e ∧ s.fat e = 0) : WellFormed t := by
  cases created with
  | made k c h t made cluster nonzero table synced entry =>
    exact made.well_formed volume nameable room cluster nonzero table entry synced
  | refused j => exact volume.after
  | leaked k c t inside free cluster nonzero mount table disk fault =>
    obtain ⟨n,fault⟩ := fault
    rw [clear n] at fault
    cases fault

theorem step_well_formed (volume : WellFormed s) (clear : s.Clear) (step : Step s op t) : WellFormed t ∧ t.Clear := by
  cases step with
  | create f file h v t nameable regular room ran =>
    have created := create_spec volume.shape f file
    rw [ran] at created
    exact ⟨created.well_formed volume clear nameable room,created.clear clear⟩
  | writeOpened f buffer size file h u t v nameable regular opened fits ran =>
    have outcome := open_spec (nameable.undeleted s) file
    rw [opened] at outcome
    obtain ⟨k,resolves,_,first,rfl⟩ := outcome.success rfl
    have owner := resolves.owner regular
    obtain ⟨cs,chain⟩ := volume.sound.chained _ owner
    cases cs with
    | nil =>
      rw [writeAndUpdate,empty_write _ (first.trans chain.empty_first)] at ran
      cases ran
      exact ⟨volume.after,clear.after⟩
    | cons c cs =>
      have handle := (resolves.handle regular volume.sound chain (by simp)).after (j := k/16+1)
      have room := fits (c::cs) (by rw [first]; exact handle.path)
      exact handle.saved volume.after clear.after regular.after owner.2 resolves.unmarked_slots first room ran
  | writeCreated f buffer size file h u t v nameable regular room created fits ran =>
    have outcome := create_spec volume.shape f file
    rw [created] at outcome
    have volumeU := outcome.well_formed volume clear nameable room
    have clearU := outcome.clear clear
    obtain ⟨k,c,made,found,nonzero,table,entry,first,_⟩ := outcome.success rfl
    have handle := made.handle volume.shape volume.sound found nonzero table entry
    have enough := fits [c] (by rw [first]; exact handle.path)
    have unmarked : ∀ a ∈ u.rootSlots, a < s.slot k → u.disk a ≠ 0 := by
      rw [made.mount]
      exact Mount.slots_below (fun j less => made.earlier less)
    exact handle.saved volumeU clearU (made.regular regular) (made.owns nameable) unmarked first enough ran
  | delete f v t nameable regular ran =>
    have deleted := delete_spec volume.shape f
    rw [ran] at deleted
    exact ⟨deleted.well_formed volume clear regular,deleted.clear clear⟩

theorem delete_returns {s : Driver} (volume : WellFormed s) (regular : RegularOrAbsent s f) :
    ∃ v t, fat12Delete s f = some (v,t) := by
  have deleted := delete_spec volume.shape f
  generalize fat12Delete s f = outcome at deleted
  cases deleted with
  | stuck k resolves walk => exact absurd walk (resolves.walks regular volume.sound)
  | done k freed t => exact ⟨0,t,rfl⟩
  | exposed k freed t => exact ⟨-1,t,rfl⟩
  | missing j => exact ⟨-1,_,rfl⟩
  | error n j => exact ⟨-1,_,rfl⟩

def Answers (s : Driver) (f : List UInt8) : Prop :=
  (∃ v t, fat12Delete s f = some (v,t)) ∧
  (∀ file h u buffer size, fat12Open s f file = (0,h,u) → ∃ v t, writeAndUpdate u f h buffer size = some (v,t)) ∧
  ∀ file h u buffer size, fat12Create s f file = (0,h,u) → ∃ v t, writeAndUpdate u f h buffer size = some (v,t)

theorem answers (volume : WellFormed s) (nameable : Nameable f) (regular : RegularOrAbsent s f) : Answers s f := by
  refine ⟨delete_returns volume regular,?_,?_⟩
  · intro file h u buffer size opened
    have outcome := open_spec (nameable.undeleted s) file
    rw [opened] at outcome
    obtain ⟨k,resolves,_,first,rfl⟩ := outcome.success rfl
    have owner := resolves.owner regular
    obtain ⟨cs,chain⟩ := volume.sound.chained _ owner
    cases cs with
    | nil => exact writeAndUpdate_returns (empty_write _ (first.trans chain.empty_first) buffer size)
    | cons c cs =>
      have handle := (resolves.handle regular volume.sound chain (by simp)).after (j := k/16+1)
      obtain ⟨v,t,_,wrote,_⟩ := handle.write volume.shape first False (fun no => no.elim) buffer size
      exact writeAndUpdate_returns wrote
  · intro file h u buffer size created
    have outcome := create_spec volume.shape f file
    rw [created] at outcome
    obtain ⟨k,c,made,found,nonzero,table,entry,first,_⟩ := outcome.success rfl
    have handle := made.handle volume.shape volume.sound found nonzero table entry
    have shape : Geometry u.toMount := by rw [made.mount]; exact volume.shape
    obtain ⟨v,t,_,wrote,_⟩ := handle.write shape first False (fun no => no.elim) buffer size
    exact writeAndUpdate_returns wrote

theorem volume_stays_well_formed (volume : WellFormed s) (clear : s.Clear) (history : Run Step s ops t) :
    WellFormed t ∧ ∀ f, Nameable f → RegularOrAbsent t f → Answers t f := by
  have keeps : ∀ s op t, (WellFormed s ∧ s.Clear) → Step s op t → (WellFormed t ∧ t.Clear) :=
    fun _ _ _ before step => step_well_formed before.1 before.2 step
  have both := history.invariant keeps ⟨volume,clear⟩
  exact ⟨both.1,fun f nameable regular => answers both.1 nameable regular⟩

theorem volume_stays_well_formed_new_file :
    ∃ t, Run Step blank [.writeCreated [0x41] (fun _ => 0x41) 600] t ∧ WellFormed t := by
  have nameable : Nameable [0x41] := by decide
  have regular := blank_regular [0x41]
  obtain ⟨h,u,created,made,table,_⟩ := blank_create [0x41]
  obtain ⟨v,t,ran⟩ := (answers blank_well_formed nameable regular).2.2 .fresh h u (fun _ => 0x41) 600 created
  have fits : Fits u h 600 := fun cs _ => blank_create_room made table cs
  have path : Run Step blank [.writeCreated [0x41] (fun _ => 0x41) 600] t :=
    .single (.writeCreated [0x41] (fun _ => 0x41) 600 .fresh h u t v nameable regular
      ⟨2,floppy_in_volume (by decide) (by decide),blank_fat 2⟩ created fits ran)
  exact ⟨t,path,(volume_stays_well_formed blank_well_formed (fun _ => rfl) path).1⟩

end SantOS.Fat12
