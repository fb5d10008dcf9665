import Mathlib.Data.List.TakeWhile
import SantOS.Fat12.Endings
import SantOS.Fat12.EntryKinds
import SantOS.Fat12.Walks

namespace SantOS.Fat12
open ByteMemory CStrings

-- The entries a listing is there to show: not deleted, and no volume label or part of a
-- long name (all of which have flag 0x08); inside a directory, no dot in front either.
def Shown (m : Memory) (a : Nat) : Prop := m a ≠ 0xE5 ∧ attributes m a &&& 0x08 = 0 ∧ attributes m a ≠ 0x0F
def ShownInside (m : Memory) (a : Nat) : Prop := Shown m a ∧ m a ≠ 0x2E

instance : DecidablePred (Shown m) := fun _ => inferInstanceAs (Decidable (_ ∧ _))
instance : DecidablePred (ShownInside m) := fun _ => inferInstanceAs (Decidable (_ ∧ _))

def entryLines (m : Memory) (shown : Nat → Prop) [DecidablePred shown] (slots : List Nat) : List Line :=
  ((listed m slots).filter (fun a => shown a)).map (entryLine m)

def rows (probe : Memory → Nat → Probe) (m : Memory) : List Nat → List Line × Bool
  | [] => ([],false)
  | a::slots =>
    match probe m a with
    | .stop => ([],true)
    | .skip => rows probe m slots
    | .hit => (entryLine m a::(rows probe m slots).1,(rows probe m slots).2)

theorem rows_append (probe : Memory → Nat → Probe) (m : Memory) (xs ys : List Nat) :
    rows probe m (xs ++ ys) =
      if (rows probe m xs).2 then rows probe m xs else ((rows probe m xs).1 ++ (rows probe m ys).1,(rows probe m ys).2) := by
  induction xs with
  | nil => rfl
  | cons a xs ih =>
    rw [List.cons_append,rows,rows]
    cases probe m a with
    | stop => rfl
    | skip => exact ih
    | hit =>
      dsimp only
      rw [ih]
      cases ended : (rows probe m xs).2 <;> simp [ended]

theorem rows_marked {probe : Memory → Nat → Probe} {m : Memory} (ends : ∀ a, probe m a = .stop ↔ m a = 0)
    (slots : List Nat) :
    (rows probe m slots).2 = true ↔ ∃ a ∈ slots, m a = 0 := by
  induction slots with
  | nil => simp [rows]
  | cons a slots ih =>
    rw [rows,List.exists_mem_cons_iff,← ends a,← ih]
    cases probe m a <;> simp

theorem rows_lines {probe : Memory → Nat → Probe} {m : Memory} (ends : ∀ a, probe m a = .stop ↔ m a = 0) (slots : List Nat) :
    (rows probe m slots).1 = entryLines m (fun a => probe m a = .hit) slots := by
  induction slots with
  | nil => rfl
  | cons a slots ih =>
    rw [rows,entryLines,listed,List.takeWhile_cons]
    rw [entryLines,listed] at ih
    cases hit : probe m a with
    | stop => simp [(ends a).mp hit]
    | skip =>
      have nonzero : m a ≠ 0 := fun zero => by simp [(ends a).mpr zero] at hit
      simp [nonzero,hit,ih]
    | hit =>
      have nonzero : m a ≠ 0 := fun zero => by simp [(ends a).mpr zero] at hit
      simp [nonzero,hit,ih]

def EntryLocal (f : Memory → Nat → β) : Prop := ∀ m m' a a', (∀ i < 32, m (a+i) = m' (a'+i)) → f m a = f m' a'

theorem formatField_shift {m m' : Memory} {a a' : Nat} (same : ∀ i < left, m (a+i) = m' (a'+i)) (output : Memory) (j : Nat) :
    formatField m a output j left = formatField m' a' output j left := by
  induction left generalizing a a' output j with
  | zero => rfl
  | succ left ih =>
    have first : m a = m' a' := same 0 (Nat.succ_pos _)
    have rest : ∀ i < left, m (a+1+i) = m' (a'+1+i) := by
      intro i bound
      have behind := same (i+1) (by omega)
      rwa [Nat.add_comm i 1,← Nat.add_assoc,← Nat.add_assoc] at behind
    rw [formatField,formatField,first,ih rest]

theorem formatFilename_local (output : Memory) : EntryLocal (fun m a => formatFilename m a output) := by
  intro m m' a a' same
  have name : ∀ i < 8, m (a+i) = m' (a'+i) := fun i bound => same i (by omega)
  have extension : ∀ i < 3, m (a+8+i) = m' (a'+8+i) := by
    intro i bound
    rw [Nat.add_assoc,Nat.add_assoc]
    exact same (8+i) (by omega)
  have dot : m (a+8) = m' (a'+8) := same 8 (by decide)
  simp only [formatFilename,formatField_shift name,formatField_shift extension,dot]

theorem entryLine_local : EntryLocal entryLine := by
  intro m m' a a' same
  have name : formatFilename m a (fun _ => 0) = formatFilename m' a' (fun _ => 0) := formatFilename_local _ m m' a a' same
  have text : entryText m a = entryText m' a' := by rw [entryText,entryText,name]
  have flags : attributes m a = attributes m' a' := same 11 (by decide)
  rw [entryLine,entryLine,text,flags,fileSize_shift same]

theorem rootListProbe_local : EntryLocal rootListProbe := by
  intro m m' a a' same
  have first : m a = m' a' := same 0 (by decide)
  have flags : attributes m a = attributes m' a' := same 11 (by decide)
  rw [rootListProbe,rootListProbe,first,flags]

theorem dirListProbe_local : EntryLocal dirListProbe := by
  intro m m' a a' same
  have first : m a = m' a' := same 0 (by decide)
  rw [dirListProbe,dirListProbe,rootListProbe_local m m' a a' same,first]

def sectorSlots (sector left : Nat) : List Nat := (List.range (16*left)).map (fun k => sector*512 + 32*k)

theorem sectorSlots_succ (sector left : Nat) :
    sectorSlots sector (left+1) = sectorSlots sector 1 ++ sectorSlots (sector+1) left := by
  have places : ∀ k, sector*512 + 32*(16 + k) = (sector+1)*512 + 32*k := fun k => by omega
  have split : List.range (16*(left+1)) = List.range 16 ++ (List.range (16*left)).map (16 + ·) := by
    rw [← List.range_add,Nat.add_comm 16,Nat.mul_succ]
  simp only [sectorSlots,split,List.map_append,List.map_map,Function.comp_def,places]

theorem listSector_rows {probe : Memory → Nat → Probe} (here : EntryLocal probe) {buffer disk : Memory}
    (copied : ∀ i < 512, buffer i = disk (sector*512 + i)) (inside : idx + left ≤ 16) :
    listSector probe buffer idx left = rows probe disk ((List.range' idx left).map (fun k => sector*512 + 32*k)) := by
  induction left generalizing idx with
  | zero => rfl
  | succ left ih =>
    have entry : ∀ i < 32, buffer (idx*32 + i) = disk (sector*512 + 32*idx + i) := by
      intro i bound
      rw [copied _ (by omega),Nat.mul_comm 32 idx,Nat.add_assoc]
    have tail : listSector probe buffer (idx+1) left = _ := ih (by omega)
    cases found : probe disk (sector*512 + 32*idx)
    all_goals
      simp only [listSector,List.range'_succ,List.map_cons,rows,here _ _ _ _ entry,entryLine_local _ _ _ _ entry,found,tail]

theorem listSectors_rows {probe : Memory → Nat → Probe} (here : EntryLocal probe) {s : Driver} (clear : s.Clear)
    (sector left : Nat) : listSectors probe s sector left =
      (if (rows probe s.disk (sectorSlots sector left)).2 then some 0 else none,
        (rows probe s.disk (sectorSlots sector left)).1,s) := by
  induction left generalizing sector with
  | zero => rfl
  | succ left ih =>
    obtain ⟨buffer,ran,copied⟩ := read_sector (clear 0) sector
    have first : listSector probe buffer 0 16 = rows probe s.disk (sectorSlots sector 1) := by
      rw [listSector_rows here copied (by decide),← List.range_eq_range']
      rfl
    rw [listSectors,ran,clear.after_eq,sectorSlots_succ,rows_append]
    dsimp only
    rw [if_neg (by decide),first,ih]
    cases rows probe s.disk (sectorSlots sector 1) with
    | mk lines ended => cases ended <;> rfl

theorem rootListProbe_hit : rootListProbe m a = .hit ↔ m a ≠ 0 ∧ attributes m a &&& 0x08 = 0 ∧ attributes m a ≠ 0x0F := by
  rw [rootListProbe]
  by_cases zero : m a = 0
  · simp [zero]
  · rw [if_neg zero,if_neg (signed_ne _)]
    by_cases skipped : attributes m a &&& 0x08 ≠ 0 ∨ attributes m a = 0x0F
    · rw [if_pos skipped]
      refine ⟨fun same => (by cases same),fun shown => ?_⟩
      rcases skipped with label | long
      · exact absurd shown.2.1 label
      · exact absurd long shown.2.2
    · rw [if_neg skipped]
      obtain ⟨label,long⟩ := not_or.mp skipped
      exact ⟨fun _ => ⟨zero,not_not.mp label,long⟩,fun _ => rfl⟩

theorem dirListProbe_hit : dirListProbe m a = .hit ↔ rootListProbe m a = .hit ∧ m a ≠ 0x2E := by
  rw [dirListProbe]
  cases rootListProbe m a with
  | stop => simp
  | skip => simp
  | hit =>
    by_cases dot : m a = 0x2E
    · simp [dot]
    · simp [dot]

theorem entryLines_eq_iff {m : Memory} {wide narrow : Nat → Prop} [DecidablePred wide] [DecidablePred narrow]
    (within : ∀ a, m a ≠ 0 → narrow a → wide a) (slots : List Nat) :
    entryLines m wide slots = entryLines m narrow slots ↔ ∀ a ∈ listed m slots, wide a → narrow a := by
  have nonzero : ∀ a ∈ listed m slots, m a ≠ 0 := fun a member => by simpa using List.mem_takeWhile_imp member
  have sub : ∀ a ∈ listed m slots, narrow a → wide a := fun a member => within a (nonzero a member)
  constructor
  · intro same
    have lengths := congrArg List.length same
    simp only [entryLines,List.length_map] at lengths
    generalize listed m slots = xs at lengths sub
    induction xs with
    | nil => simp
    | cons a xs ih =>
      have later := fun b member => sub b (List.mem_cons_of_mem a member)
      have shorter : (xs.filter (fun b => narrow b)).length ≤ (xs.filter (fun b => wide b)).length := by
        rw [← List.countP_eq_length_filter,← List.countP_eq_length_filter]
        exact List.countP_mono_left (fun b member => by simpa using later b member)
      by_cases chosen : narrow a
      · have also : wide a := sub a (List.mem_cons_self ..) chosen
        simp only [List.filter_cons,chosen,also,decide_true,if_true,List.length_cons,Nat.add_right_cancel_iff] at lengths
        intro b member
        rcases List.mem_cons.mp member with rfl | rest
        · exact fun _ => chosen
        · exact ih lengths later b rest
      · by_cases also : wide a
        · simp only [List.filter_cons,chosen,also,decide_true,decide_false,if_true,List.length_cons,Bool.false_eq_true,
            if_false] at lengths
          omega
        · simp only [List.filter_cons,chosen,also,decide_false,Bool.false_eq_true,if_false] at lengths
          intro b member
          rcases List.mem_cons.mp member with rfl | rest
          · exact fun no => absurd no also
          · exact ih lengths later b rest
  · intro agree
    unfold entryLines
    congr 1
    apply List.filter_congr
    intro a member
    exact decide_eq_decide.mpr ⟨agree a member,sub a member⟩

theorem sectorSlots_root (v : Mount) : sectorSlots v.rootDirStartSector v.rootSectors = v.rootSlots := by
  unfold sectorSlots Mount.rootSlots Mount.rootByte
  rfl

theorem sectorSlots_cluster (v : Mount) (c : Nat) :
    sectorSlots (v.clusterSector c) v.bootSector.sectorsPerCluster = v.clusterSlots c := by
  unfold sectorSlots Mount.clusterSlots Mount.dataByte
  rfl

-- The clusters of a directory as fat12_list_dir walks them: it leaves the loop at an end of
-- the chain or at an end mark.
inductive Visited (s : Driver) : Nat → List Nat → Prop where
  | ended (out : ¬ (2 ≤ c ∧ c < 0xFF8)) : Visited s c []
  | marked (range : 2 ≤ c ∧ c < 0xFF8) (mark : ∃ a ∈ s.clusterSlots c, s.disk a = 0) : Visited s c [c]
  | next (range : 2 ≤ c ∧ c < 0xFF8) (rest : Visited s (s.fat c) cs) : Visited s c (c::cs)

theorem listChain_rows {s : Driver} (clear : s.Clear) (visited : Visited s cluster cs) (printed : List Line)
    (enough : cs.length < fuel) :
    listChain s cluster printed fuel = some (0,printed ++ (rows dirListProbe s.disk (s.chainSlots cs)).1,s) := by
  have listing := listSectors_rows dirListProbe_local clear
  induction fuel generalizing cluster cs printed with
  | zero => omega
  | succ fuel ih =>
    rw [listChain]
    cases visited with
    | ended out =>
      rw [if_neg out]
      simp [rows,Mount.chainSlots]
    | marked range mark =>
      have ended := (rows_marked (fun _ => dirListProbe_stop) (s.clusterSlots cluster)).mpr mark
      rw [if_pos range,listing,sectorSlots_cluster,ended]
      simp [Mount.chainSlots]
    | @next _ cs range rest =>
      rw [if_pos range,listing,sectorSlots_cluster,Mount.chainSlots,List.flatMap_cons,rows_append]
      cases ended : (rows dirListProbe s.disk (s.clusterSlots cluster)).2 with
      | true => simp
      | false =>
        have later := ih rest (printed ++ (rows dirListProbe s.disk (s.clusterSlots cluster)).1) (by simpa using enough)
        simp only [Bool.false_eq_true,if_false]
        rw [← List.append_assoc]
        exact later

-- No slot before the end mark holds a deleted entry without the label flag.
def NoneDeleted (m : Memory) (slots : List Nat) : Prop := ∀ a ∈ listed m slots, m a = 0xE5 → attributes m a &&& 0x08 ≠ 0

theorem regular_listed (member : a ∈ listed m slots) (regular : attributes m a &&& 0x08 = 0) : rootListProbe m a = .hit := by
  have nonzero : m a ≠ 0 := by simpa using List.mem_takeWhile_imp member
  refine rootListProbe_hit.mpr ⟨nonzero,regular,fun long => ?_⟩
  rw [long] at regular
  cases regular

theorem root_lines_iff (m : Memory) (slots : List Nat) :
    (rows rootListProbe m slots).1 = entryLines m (Shown m) slots ↔ NoneDeleted m slots := by
  rw [rows_lines (fun _ => rootListProbe_stop),
    entryLines_eq_iff (fun a nonzero shown => rootListProbe_hit.mpr ⟨nonzero,shown.2⟩)]
  constructor
  · intro agree a member deleted regular
    exact (agree a member (regular_listed member regular)).1 deleted
  · intro none a member hit
    obtain ⟨_,regular,long⟩ := rootListProbe_hit.mp hit
    exact ⟨fun deleted => none a member deleted regular,regular,long⟩

theorem dir_lines_iff (m : Memory) (slots : List Nat) :
    (rows dirListProbe m slots).1 = entryLines m (ShownInside m) slots ↔ NoneDeleted m slots := by
  rw [rows_lines (fun _ => dirListProbe_stop),entryLines_eq_iff (fun a nonzero shown =>
    dirListProbe_hit.mpr ⟨rootListProbe_hit.mpr ⟨nonzero,shown.1.2⟩,shown.2⟩)]
  constructor
  · intro agree a member deleted regular
    have undotted : m a ≠ 0x2E := by
      rw [deleted]
      decide
    have hit := dirListProbe_hit.mpr ⟨regular_listed member regular,undotted⟩
    exact (agree a member hit).1.1 deleted
  · intro none a member hit
    obtain ⟨root,undotted⟩ := dirListProbe_hit.mp hit
    obtain ⟨_,regular,long⟩ := rootListProbe_hit.mp root
    exact ⟨⟨fun deleted => none a member deleted regular,regular,long⟩,undotted⟩

theorem delete_leaves_listed (shape : Geometry s.toMount) (resolves : Resolves s (name83 f) k)
    (ran : fat12Delete s f = some (0,t)) :
    s.slot k ∈ listed t.disk t.rootSlots ∧ t.disk (s.slot k) = 0xE5 ∧
      attributes t.disk (s.slot k) = attributes s.disk (s.slot k) ∧ ∃ j, t.faults = (s.after j).faults := by
  have deleted := delete_spec shape f
  rw [ran] at deleted
  generalize outcome : some ((0 : Int),t) = result at deleted
  cases deleted with
  | stuck => cases outcome
  | missing => cases outcome
  | error => cases outcome
  | exposed => cases outcome
  | done j freed t found walk mount fat outside mark synced clear faults =>
    cases outcome
    have same := resolves.unique found
    subst same
    refine ⟨?_,mark,outside _ ?_ ?_,faults⟩
    · have slots : ∀ i, s.slot i = s.rootByte + 32*i := fun i => by unfold Mount.slot; rfl
      rw [mount,slots]
      refine listed_range (fun k => s.rootByte + 32*k) resolves.inside ?_
      intro i le
      rcases Nat.lt_or_eq_of_le le with less | rfl
      · rw [outside _ (Nat.le_add_right ..) (by unfold Mount.slot; omega)]
        have skipped := resolves.before i less
        intro zero
        rw [editProbe,slots,if_pos zero] at skipped
        cases skipped
      · rw [← slots,mark]
        decide
    · unfold Mount.slot
      omega
    · omega

-- On a readable disk both listings return the lines of all slots in front of the end mark,
-- and they are the lines asked for exactly when no deleted entry is among them. The entry
-- a delete has marked is one.
theorem listings_exact {s : Driver} (clear : s.Clear) :
    (∃ lines, fat12ListRoot s = (0,listingHeader "Root directory:" ++ lines,s) ∧
      (lines = entryLines s.disk (Shown s.disk) s.rootSlots ↔ NoneDeleted s.disk s.rootSlots)) ∧
    (∀ cluster cs, cluster ≠ 0 → Visited s cluster cs → ∃ lines,
      (∀ fuel > cs.length, fat12ListDir s cluster fuel = some (0,listingHeader "Directory contents:" ++ lines,s)) ∧
      (lines = entryLines s.disk (ShownInside s.disk) (s.chainSlots cs) ↔ NoneDeleted s.disk (s.chainSlots cs))) ∧
    ∀ f k t, Geometry s.toMount → Resolves s (name83 f) k → fat12Delete s f = some (0,t) →
      attributes s.disk (s.slot k) &&& 0x08 = 0 → ¬ NoneDeleted t.disk t.rootSlots := by
  refine ⟨⟨_,?_,root_lines_iff s.disk s.rootSlots⟩,?_,?_⟩
  · rw [fat12ListRoot,listSectors_rows rootListProbe_local clear,sectorSlots_root]
    cases (rows rootListProbe s.disk s.rootSlots).2 <;> rfl
  · intro cluster cs nonzero visited
    refine ⟨_,fun fuel enough => ?_,dir_lines_iff s.disk (s.chainSlots cs)⟩
    rw [fat12ListDir,if_neg nonzero]
    exact listChain_rows clear visited _ enough
  · intro f k t shape resolves ran regular none
    obtain ⟨member,deleted,flags,_⟩ := delete_leaves_listed shape resolves ran
    exact none _ member deleted (flags ▸ regular)

theorem listings_exact_one_file : ∃ lines, fat12ListRoot (oneEntry 0x20 2) =
    (0,listingHeader "Root directory:" ++ lines,oneEntry 0x20 2) ∧
    (lines = entryLines (oneEntry 0x20 2).disk (Shown (oneEntry 0x20 2).disk) (oneEntry 0x20 2).rootSlots ↔
      NoneDeleted (oneEntry 0x20 2).disk (oneEntry 0x20 2).rootSlots) :=
  (listings_exact (s := oneEntry 0x20 2) (fun _ => rfl)).1

-- After its delete D is printed with 0xE5 for a first letter, and nothing should be.
theorem deleted_file_printed :
    (fat12Delete (oneEntry 0x20 2) [0x44]).map (fun r => (r.1,(fat12ListRoot r.2).2.1)) =
      some (0,listingHeader "Root directory:" ++ [.columns [0xE5] (.number 0)]) ∧
    (fat12Delete (oneEntry 0x20 2) [0x44]).map (fun r => entryLines r.2.disk (Shown r.2.disk) r.2.rootSlots) = some [] := by
  constructor
  all_goals decide +kernel

end SantOS.Fat12
