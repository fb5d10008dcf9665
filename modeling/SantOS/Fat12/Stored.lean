import SantOS.Fat12.Faults
import SantOS.Fat12.RoundTrip

namespace SantOS.Fat12
open ByteMemory LinkedPaths

def Stored (t : Driver) (f : List UInt8) (data : Memory) (n : Nat) : Prop :=
  ∃ k cs, Resolves t (name83 f) k ∧ fileSize t.disk (t.slot k) = n ∧ EntryChain t (t.slot k) cs ∧ Holds t data n 0 cs

section
variable {s t u x : Driver} {f : List UInt8} {data other : Memory} {k n m : Nat} {cs : List Nat}

theorem Holds.same_data (one : Holds s data n w cs) (two : Holds s other n w cs) (low : w ≤ i) (high : i < n) :
    data i = other i := by
  induction cs generalizing w with
  | nil =>
    have done : n ≤ w := one
    omega
  | cons c cs ih =>
    by_cases here : i < w + s.clusterBytes
    · have first := one.1 (i-w) (by omega) (by omega)
      have second := two.1 (i-w) (by omega) (by omega)
      rw [Nat.add_sub_cancel' low] at first second
      exact first.symm.trans second
    · exact ih one.2 two.2 (by omega)

theorem Stored.unique (one : Stored t f data n) (two : Stored t f other m) : n = m ∧ ∀ i < n, data i = other i := by
  obtain ⟨k,cs,found,size,chain,holds⟩ := one
  obtain ⟨j,ds,found',size',chain',holds'⟩ := two
  obtain rfl := found.unique found'
  obtain rfl := chain.unique chain'
  obtain rfl := size.symm.trans size'
  exact ⟨rfl,fun i inside => holds.same_data holds' (Nat.zero_le i) inside⟩

theorem Resized.success (resized : Resized x f size (0,t)) (shape : Geometry x.toMount) :
    ∃ k, Resolves x (name83 f) k ∧ Resolves t (name83 f) k ∧ fileSize t.disk (t.slot k) = size % 2^32 ∧
      (∀ cs, EntryChain x (x.slot k) cs → EntryChain t (t.slot k) cs) ∧
      ∀ data n w cs, Holds t data n w cs ↔ Holds x data n w cs := by
  cases resized with
  | done k t resolves mount table outside length synced faults =>
    have low : x.rootByte ≤ x.slot k := by unfold Mount.slot; omega
    have first : firstClusterLow t.disk (x.slot k) = firstClusterLow x.disk (x.slot k) := by
      apply load_congr
      intro i bound
      exact outside _ (by omega) (.inl (by omega))
    have fat : t.fat = x.fat := by
      funext d
      unfold Driver.fat
      rw [table]
    have data : ∀ c, ∀ i < x.clusterBytes, t.disk (x.dataByte c + i) = x.disk (x.dataByte c + i) := by
      intro c i _
      have behind := (root_slot_inside (c := c) shape resolves.slot_mem).2
      exact outside _ (by omega) (.inr (by omega))
    refine ⟨k,resolves,?_,?_,?_,?_⟩
    · refine resolves.congr mount ?_
      intro j le b bound
      refine outside _ ?_ ?_
      · unfold Mount.slot; omega
      · unfold Mount.slot; omega
    · rw [mount]
      exact length
    · intro cs chain
      rw [mount]
      exact chain.congr first (fun c _ => congrFun fat c)
    · intro data' n w cs
      refine ⟨fun holds => holds.congr mount.symm ?_,fun holds => holds.congr mount (fun c _ => data c)⟩
      rw [mount]
      exact fun c _ i bound => (data c i bound).symm

theorem Handle.success {h : File} (handle : Handle u r c cs) (shape : Geometry u.toMount) (first : h.firstCluster = c)
    (small : size < 2^31) (ran : writeAndUpdate u f h data size = some (v,t)) (positive : v > 0) :
    v = size ∧ ∃ x fresh, Extended u x c cs fresh ∧ Holds x data size 0 (cs ++ fresh) ∧ Resized x f size (0,t) := by
  obtain ⟨n,x,fresh,wrote,written⟩ := handle.write shape first False (fun no => no.elim) data size
  have extended := written.toExtended
  have shapeX : Geometry x.toMount := by rw [extended.mount]; exact shape
  rw [writeAndUpdate,wrote] at ran
  dsimp only at ran
  by_cases someBytes : n > 0
  · rw [if_pos someBytes] at ran
    rcases written.result with ⟨rfl,_⟩ | ⟨rfl,holds⟩
    · exact absurd someBytes (by decide)
    · rw [intOf_small small] at ran
      have word : (size : Int).toNat % 2^32 = size := by
        rw [Int.toNat_natCast]
        exact Nat.mod_eq_of_lt (by omega)
      rw [word] at ran
      have resized := updateSize_spec shapeX f size
      generalize fat12UpdateSize x f size = outcome at resized ran
      obtain ⟨r,y⟩ := outcome
      dsimp only at ran
      by_cases failed : r ≠ 0
      · rw [if_pos failed] at ran
        cases ran
        exact absurd positive (by decide)
      · rw [if_neg failed] at ran
        cases ran
        rw [not_not.mp failed] at resized
        exact ⟨rfl,x,fresh,extended,holds,resized⟩
  · rw [if_neg someBytes] at ran
    cases ran
    exact absurd positive (by decide)

theorem Extended.stored (extended : Extended u x c cs fresh) (handle : Handle u (u.slot k) c cs) (shape : Geometry u.toMount)
    (entry : firstClusterLow u.disk (u.slot k) = c) (holds : Holds x data size 0 (cs ++ fresh)) (small : size < 2^31)
    (resized : Resized x f size (0,t)) (found : Resolves u (name83 f) k) : Stored t f data size := by
  have root := fun a (slot : a ∈ u.rootSlots) => extended.root_kept shape slot
  obtain ⟨j,inX,inT,length,chains,contents⟩ := resized.success (by rw [extended.mount]; exact shape)
  have inU := (resolves_iff extended.mount (fun a slot i bound => root a slot i (by omega))).mp inX
  obtain rfl := inU.unique found
  rw [Nat.mod_eq_of_lt (by omega)] at length
  have start := handle.start
  have chain : EntryChain x (x.slot j) (cs ++ fresh) := by
    rw [extended.mount]
    have first := (firstCluster_congr (root _ handle.slot)).trans entry
    refine .inr ⟨by omega,by simp [handle.nonempty],?_⟩
    rw [first]
    exact extended.path
  exact ⟨j,_,inT,length,chains _ chain,(contents _ _ _ _).mpr holds⟩

theorem Kept.chain {spared : Nat → Prop} (kept : Kept s t spared) (member : spared a) (owner : Owner s a)
    (chain : EntryChain s a cs) :
    EntryChain t a cs ∧ ∀ data n w, Holds t data n w cs ↔ Holds s data n w cs := by
  have held : ∀ c ∈ cs, Held s spared c := fun c inside => ⟨a,cs,member,owner,chain,inside⟩
  have same := (kept.entries a member owner.1).2
  refine ⟨chain.congr (firstCluster_congr same) (fun c inside => kept.links c (held c inside)),?_⟩
  intro data n w
  refine ⟨fun holds => holds.congr kept.mount.symm ?_,fun holds => holds.congr kept.mount ?_⟩
  · rw [kept.mount]
    exact fun c inside i bound => (kept.sectors c (held c inside) i bound).symm
  · exact fun c inside => kept.sectors c (held c inside)

-- A read fails before the entry of the name is reached, and no slot before it is free:
-- the write goes to a new entry behind the one that the name resolves to.
def Overlooked (s : Driver) (f : List UInt8) (k : Nat) : Prop :=
  Resolves s (name83 f) k ∧ (∃ i ≤ k/16, s.faults i = true) ∧ ∀ j < k, Live s.disk (s.slot j)

def Renumbered (s t : Driver) (f : List UInt8) (k size : Nat) : Prop :=
  ∃ cs, EntryChain s (s.slot k) cs ∧ Resolves t (name83 f) k ∧ fileSize t.disk (t.slot k) = size ∧
    EntryChain t (t.slot k) cs ∧ ∀ data n, Holds t data n 0 cs ↔ Holds s data n 0 cs

theorem Made.hides (made : Made s t f j) (found : Resolves s (name83 f) k) (live : ∀ i < k, Live s.disk (s.slot i)) :
    k < j ∧ Resolves t (name83 f) k := by
  have behind : k < j := by
    by_contra before
    rcases Nat.lt_or_ge j k with less | same
    · exact made.free (live j less)
    · obtain rfl : j = k := by omega
      exact made.free found.live
  refine ⟨behind,found.congr made.mount ?_⟩
  intro i le b bound
  exact made.kept (by omega) b (by omega)

theorem Made.written {h : File} (made : Made s u f j) (shape : Geometry s.toMount) (sound : Sound s)
    (found : c = findFreeCluster s.fatBuffer) (nonzero : c ≠ 0)
    (table : u.fatBuffer = setFatEntry s.fatBuffer c 0xFFF) (entry : firstClusterLow u.disk (s.slot j) = c)
    (first : h.firstCluster = c) (regular : RegularOrAbsent s f) (small : size < 2^31)
    (ran : writeAndUpdate u f h data size = some (v,t)) (positive : v > 0) :
    v = size ∧ (Resolves u (name83 f) j ∧ Stored t f data size ∨
      ∃ k < j, Resolves s (name83 f) k ∧ Renumbered s t f k size) := by
  have shapeU : Geometry u.toMount := by rw [made.mount]; exact shape
  have handle := made.handle shape sound found nonzero table entry
  obtain ⟨two,low,available⟩ := found_free found nonzero
  have edit := taken_edit sound made.inside made.free made.mount table available two made.outside (fun _ => made.file)
  have soundU := edit.sound shape sound (fun _ => ⟨[c],taken_chain sound table available two low entry⟩)
  obtain ⟨all,x,fresh,extended,holds,resized⟩ := handle.success shapeU first small ran positive
  refine ⟨all,?_⟩
  have mount := made.mount
  have shapeX : Geometry x.toMount := by rw [extended.mount]; exact shapeU
  obtain ⟨k,inX,inT,length,chains,contents⟩ := resized.success shapeX
  have inU : Resolves u (name83 f) k :=
    (resolves_iff extended.mount (fun a slot i bound => extended.root_kept shapeU slot i (by omega))).mp inX
  rcases made.resolves inU with rfl | ⟨behind,before⟩
  · rw [← made.mount] at handle entry
    exact .inl ⟨inU,extended.stored handle shapeU entry holds small resized inU⟩
  · refine .inr ⟨k,behind,before,?_⟩
    have owner := before.owner regular
    obtain ⟨cs,chain⟩ := sound.chained _ owner
    have apart : s.slot j ≠ s.slot k := by unfold Mount.slot; omega
    have firstKept : Kept s u (· = s.slot k) := edit.kept shape sound apart
    have secondKept : Kept u x (· = s.slot k) := (extended_edit shapeU soundU handle extended).kept shapeU soundU apart
    have kept := (firstKept.trans secondKept).chain rfl owner chain
    rw [Nat.mod_eq_of_lt (by omega)] at length
    have place : x.slot k = s.slot k := by rw [extended.mount,made.mount]
    refine ⟨cs,chain,inT,length,chains cs (place ▸ kept.1),?_⟩
    exact fun data n => (contents data n 0 cs).trans (kept.2 data n 0)

theorem create_and_write_stored (shape : Geometry s.toMount) (sound : Sound s) (regular : RegularOrAbsent s f)
    (small : size < 2^31)
    (ran : (match fat12Create s f file with
      | (r,file,s) => if r ≠ 0 then some (0,s) else writeAndUpdate s f file data size) = some (v,t)) (positive : v > 0) :
    v = size ∧ ∃ u j, Made s u f j ∧ (Resolves u (name83 f) j ∧ Stored t f data size ∨
      ∃ k < j, Resolves s (name83 f) k ∧ Renumbered s t f k size) := by
  have created := create_spec shape f file
  generalize fat12Create s f file = outcome at created ran
  obtain ⟨r,h,u⟩ := outcome
  dsimp only at ran
  by_cases failed : r ≠ 0
  · rw [if_pos failed] at ran
    cases ran
    exact absurd positive (by decide)
  · rw [if_neg failed] at ran
    obtain ⟨j,c,made,found,nonzero,table,entry,first,_⟩ := created.success (not_not.mp failed)
    obtain ⟨all,outcome⟩ := made.written shape sound found nonzero table entry first regular small ran positive
    exact ⟨all,u,j,made,outcome⟩

theorem Renumbered.of_after (renumbered : Renumbered (s.after j) t f k size) : Renumbered s t f k size := by
  obtain ⟨cs,chain,inT,length,chainT,contents⟩ := renumbered
  refine ⟨cs,chain,inT,length,chainT,fun data n => (contents data n).trans ?_⟩
  exact ⟨fun holds => holds.congr rfl (fun _ _ _ _ => rfl),fun holds => holds.congr rfl (fun _ _ _ _ => rfl)⟩

-- Whenever WRITE_FILE reports bytes, with any faults: the data is what the name's entry
-- holds, unless that entry was overlooked.
theorem writeFile_stored (shape : Geometry s.toMount) (sound : Sound s) (undeleted : Undeleted s f)
    (regular : RegularOrAbsent s f) (small : size < 2^31) (ran : syscallWriteFile s f data size = some (v,t)) (positive : v > 0) :
    v = size ∧ ((∀ k, ¬ Overlooked s f k) ∧ Stored t f data size ∨ ∃ k, Overlooked s f k ∧ Renumbered s t f k size) := by
  have opened := open_spec undeleted .fresh
  unfold syscallWriteFile at ran
  dsimp only at ran
  rw [Nat.mod_eq_of_lt (by omega)] at ran
  generalize fat12Open s f .fresh = outcome at opened ran
  cases opened with
  | missing j le absent =>
    dsimp only at ran
    rw [if_pos minus_one] at ran
    obtain ⟨all,u,i,made,⟨_,stored⟩ | ⟨k,_,found,_⟩⟩ :=
      create_and_write_stored (s := s.after j) shape sound.after regular.after small ran positive
    · exact ⟨all,.inl ⟨fun k overlooked => absent k overlooked.1,stored⟩⟩
    · exact absurd (resolves_after.mp found) (absent k)
  | error j lt fault late =>
    dsimp only at ran
    rw [if_pos minus_one] at ran
    obtain ⟨all,u,i,made,⟨inU,stored⟩ | ⟨k,behind,found,renumbered⟩⟩ :=
      create_and_write_stored (s := s.after (j+1)) shape sound.after regular.after small ran positive
    · refine ⟨all,.inl ⟨?_,stored⟩⟩
      rintro k ⟨found,_,live⟩
      obtain ⟨behind,hidden⟩ := made.hides (resolves_after.mpr found) live
      obtain rfl := hidden.unique inU
      exact Nat.lt_irrefl _ behind
    · have before := resolves_after.mp found
      refine ⟨all,.inr ⟨k,⟨before,⟨j,late k before,fault⟩,?_⟩,renumbered.of_after⟩⟩
      exact fun i' less => made.before i' (by omega)
  | found k h resolves clear sizeRead first =>
    dsimp only at ran
    rw [if_neg (not_not.mpr rfl)] at ran
    have lookup : ∀ j, ¬ Overlooked s f j := by
      rintro j ⟨found,⟨i,le,fault⟩,_⟩
      obtain rfl := found.unique resolves
      rw [clear i le] at fault
      cases fault
    obtain ⟨cs,chain⟩ := sound.chained _ (resolves.owner regular)
    cases cs with
    | nil =>
      rw [writeAndUpdate,empty_write _ (first.trans chain.empty_first)] at ran
      cases ran
      exact absurd positive (by decide)
    | cons c cs =>
      have handle := (resolves.handle regular sound chain (by simp)).after (j := k/16+1)
      obtain ⟨all,x,fresh,extended,holds,resized⟩ := handle.success shape first small ran positive
      exact ⟨all,.inl ⟨lookup,extended.stored handle shape rfl holds small resized (resolves_after.mpr resolves)⟩⟩

end

end SantOS.Fat12
