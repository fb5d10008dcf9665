import SantOS.Fat12.ListedEntries
import SantOS.Fat12.RoundTrip
import SantOS.Library.CStrings

namespace SantOS.Fat12
open ByteMemory CStrings

-- What a field of 8 or 3 bytes is formatted to, and the string that fat12_open makes of an
-- entry's name.
def trimmed (field : List UInt8) : List UInt8 := field.takeWhile (· ≠ 0x20)
def dottedExtension (name : List UInt8) : List UInt8 := if name.getD 8 0 = 0x20 then [] else 0x2E::trimmed (name.drop 8)
def fileName (name : List UInt8) : List UInt8 := trimmed (name.take 8) ++ dottedExtension name

structure SameHandle (h h' : File) : Prop where
  name : ∃ text : Str, text.length < 12 ∧ Spells h.name text ∧ Spells h'.name text
  size : h.size = h'.size
  firstCluster : h.firstCluster = h'.firstCluster
  isDirectory : h.isDirectory = h'.isDirectory

-- Eight characters, and what the array holds behind them is the dot and the extension already.
def Prepared (f : List UInt8) (file : File) : Prop :=
  (∀ c ∈ (name83 f).take 8, c ≠ 0x20) ∧ (dottedExtension (name83 f)).length < 4 ∧
    Spells (fun i => file.name (8+i)) (dottedExtension (name83 f))

section
variable {m output : Memory} {cur f : List UInt8} {s t u : Driver} {file file' h h' : File}

theorem takeField_no_nul (dotted : Bool) (f : List UInt8) (width : Nat) : 0 ∉ (takeField dotted f width).1 := by
  induction f generalizing width with
  | nil => exact List.not_mem_nil
  | cons c rest ih =>
    cases width with
    | zero => exact List.not_mem_nil
    | succ width =>
      rw [takeField]
      split
      · exact List.not_mem_nil
      · next more =>
        intro member
        rcases List.mem_cons.mp member with nul | later
        · rcases upper_cases c with same | range
          · exact more (.inl (same.symm.trans nul.symm))
          · rw [← nul] at range
            exact absurd range.1 (by decide)
        · exact ih width later

theorem padded_no_nul (noNul : 0 ∉ cur) (width : Nat) : 0 ∉ padded cur width := by
  intro member
  rcases List.mem_append.mp member with inside | pad
  · exact noNul inside
  · exact absurd (List.eq_of_mem_replicate pad) (by decide)

theorem name83_no_nul (f : List UInt8) : 0 ∉ name83 f := by
  intro member
  rcases List.mem_append.mp member with name | extension
  · exact padded_no_nul (takeField_no_nul true f 8) 8 name
  · split at extension
    · exact padded_no_nul (takeField_no_nul false _ 3) 3 extension
    · exact padded_no_nul List.not_mem_nil 3 extension

theorem formatField_starts (starts : Starts output cur) (m : Memory) (a left : Nat) :
    Starts (formatField m a output cur.length left).1 (cur ++ trimmed ((List.range left).map fun k => m (a+k))) ∧
      (formatField m a output cur.length left).2 = (cur ++ trimmed ((List.range left).map fun k => m (a+k))).length := by
  induction left generalizing a output cur with
  | zero =>
    rw [List.range_zero,List.map_nil,trimmed,List.takeWhile_nil,List.append_nil]
    exact ⟨starts,rfl⟩
  | succ left ih =>
    have bytes : (List.range (left+1)).map (fun k => m (a+k)) = m a::(List.range left).map fun k => m (a+1+k) := by
      rw [List.range_succ_eq_map,List.map_cons,List.map_map]
      congr 1
      exact List.map_congr_left fun k _ => congrArg m (by simp only [Nat.succ_eq_add_one]; omega)
    rw [formatField,bytes,trimmed,List.takeWhile_cons]
    by_cases space : m a = 0x20
    · rw [if_pos space,if_neg (by simp [space]),List.append_nil]
      exact ⟨starts,rfl⟩
    · rw [if_neg space,if_pos (by simp [space])]
      have next := ih (starts.push (m a)) (a+1)
      rw [List.length_append,List.length_singleton,List.append_assoc,List.singleton_append] at next
      exact next

theorem trimmed_no_nul (noNul : 0 ∉ cur) : 0 ∉ trimmed cur := fun member => noNul ((List.takeWhile_sublist _).subset member)

theorem fileName_no_nul {name : List UInt8} (noNul : 0 ∉ name) : 0 ∉ fileName name := by
  intro member
  rcases List.mem_append.mp member with base | extension
  · exact trimmed_no_nul (fun inside => noNul (List.mem_of_mem_take inside)) base
  · unfold dottedExtension at extension
    split at extension
    · exact List.not_mem_nil extension
    · rcases List.mem_cons.mp extension with dot | later
      · exact absurd dot (by decide)
      · exact trimmed_no_nul (fun inside => noNul (List.mem_of_mem_drop inside)) later

theorem formatFilename_spells (a : Nat) (output : Memory) (noNul : 0 ∉ entryName m a) :
    Spells (formatFilename m a output) (fileName (entryName m a)) := by
  have name : (entryName m a).take 8 = (List.range 8).map fun k => m (a+k) := rfl
  have extension : (entryName m a).drop 8 = (List.range 3).map fun k => m (a+8+k) := rfl
  have first : (entryName m a).getD 8 0 = m (a+8) := rfl
  have text := fileName_no_nul noNul
  have empty : Starts output [] := nofun
  obtain ⟨base,length⟩ := formatField_starts empty m a 8
  rw [List.nil_append,List.length_nil,← name] at base length
  unfold formatFilename
  unfold fileName dottedExtension at text ⊢
  rw [first] at text ⊢
  simp only [length]
  by_cases plain : m (a+8) = 0x20
  · rw [if_pos plain,List.append_nil] at text ⊢
    rw [if_neg (not_not.mpr plain)]
    exact base.ended text
  · rw [if_neg plain] at text ⊢
    rw [if_pos plain]
    have dot := base.push 0x2E
    obtain ⟨whole,end_⟩ := formatField_starts dot m (a+8) 3
    rw [List.length_append,List.length_singleton,List.append_assoc,List.singleton_append,← extension] at whole end_
    simp only [end_]
    exact whole.ended text

theorem create_fields (created : fat12Create s f file = (0,h,t)) :
    h.name = blit file.name 0 8 (fun k => (name83 f).getD k 0) ∧ h.size = 0 ∧ h.isDirectory = 0 := by
  unfold fat12Create at created
  split at created
  · dsimp only at created
    split at created
    · cases created
    · split at created
      · cases created
      · split at created
        · cases created
        · cases created
          exact ⟨rfl,rfl,rfl⟩
  · cases created

theorem open_fields (nameable : Nameable f) (opened : fat12Open t f file = (0,h,u)) : ∃ k, Resolves t (name83 f) k ∧
    h.name = formatFilename t.disk (t.slot k) file.name ∧ h.size = fileSize t.disk (t.slot k) ∧
    h.firstCluster = firstClusterLow t.disk (t.slot k) ∧
    h.isDirectory = if attributes t.disk (t.slot k) &&& 0x10 ≠ 0 then 1 else 0 := by
  have scanned := scanRoot_spec (openProbe_local (name83 f)) t t.rootSectors
  rw [fat12Open] at opened
  generalize scanRoot (openProbe (name83 f)) t 0 t.rootSectors = outcome at scanned opened
  cases scanned with
  | found k buffer inside hit before copied clear =>
    obtain ⟨nonzero,same⟩ := openProbe_hit.mp hit
    have live : Live t.disk (t.slot k) := nameable.first_byte same
    have resolves : Resolves t (name83 f) k :=
      ⟨inside,editProbe_hit.mpr ⟨live,same⟩,fun j less => editProbe_skip (before j less)⟩
    have bytes := copied_entry copied
    have flags : attributes buffer (k%16*32) = attributes t.disk (t.slot k) := bytes 11 (by decide)
    cases opened
    refine ⟨k,resolves,formatFilename_local file.name _ _ _ _ bytes,fileSize_shift bytes,firstCluster_shift bytes,?_⟩
    rw [flags]
  | missing j le clear unmatched => cases opened
  | error j lt fault before => cases opened

theorem trimmed_split (field : List UInt8) :
    (∀ c ∈ field, c ≠ 0x20) ∧ trimmed field = field ∨ ∃ rest, field = trimmed field ++ 0x20::rest := by
  induction field with
  | nil => exact .inl ⟨nofun,rfl⟩
  | cons c rest ih =>
    unfold trimmed at ih ⊢
    rw [List.takeWhile_cons]
    by_cases space : c = 0x20
    · rw [if_neg (by simp [space])]
      exact .inr ⟨rest,by rw [space]; rfl⟩
    · rw [if_pos (by simp [space])]
      rcases ih with ⟨all,same⟩ | ⟨later,same⟩
      · refine .inl ⟨?_,congrArg (c::·) same⟩
        intro d member
        rcases List.mem_cons.mp member with rfl | other
        · exact space
        · exact all d other
      · exact .inr ⟨later,congrArg (c::·) same⟩

theorem behind_base (name : List UInt8) : (fileName name).getD (trimmed (name.take 8)).length 0 ≠ 0x20 := by
  rw [fileName,List.getD_append_right _ _ _ _ (Nat.le_refl _),Nat.sub_self,dottedExtension]
  split
  · decide
  · rw [List.getD_cons_zero]
    decide

theorem getD_take {name : List UInt8} (inside : i < n) : (name.take n).getD i 0 = name.getD i 0 := by
  rw [List.getD_eq_getElem?_getD,List.getD_eq_getElem?_getD,List.getElem?_take_of_lt inside]

theorem created_name_iff (written : h.name = blit file.name 0 8 (fun k => (name83 f).getD k 0)) :
    ((fileName (name83 f)).length < 12 ∧ Spells h.name (fileName (name83 f))) ↔ Prepared f file := by
  have first (i : Nat) (inside : i < 8) : h.name i = (name83 f).getD i 0 := by
    have byte := blit_inside file.name (fun k => (name83 f).getD k 0) (a := 0) inside
    rw [Nat.zero_add] at byte
    rw [written,byte]
  have behind (i : Nat) : h.name (8+i) = file.name (8+i) := by rw [written,blit_outside _ _ (.inr (by omega))]
  have eight : ((name83 f).take 8).length = 8 := by
    rw [List.length_take,name83_length]
    rfl
  have noNul := name83_no_nul f
  rcases trimmed_split ((name83 f).take 8) with ⟨all,same⟩ | ⟨rest,shape⟩
  · have text : fileName (name83 f) = (name83 f).take 8 ++ dottedExtension (name83 f) := by rw [fileName,same]
    rw [text,List.length_append,eight]
    constructor
    · rintro ⟨short,spells⟩
      have suffix_ := spells.suffix
      rw [eight] at suffix_
      exact ⟨all,by omega,suffix_.congr (fun i _ => (behind i).symm)⟩
    · rintro ⟨_,short,suffix_⟩
      refine ⟨by omega,?_,?_⟩
      · intro i le
        by_cases inside : i < 8
        · rw [first i inside,List.getD_append _ _ _ _ (by omega),getD_take inside]
        · obtain ⟨j,rfl⟩ := Nat.exists_eq_add_of_le (Nat.le_of_not_lt inside)
          rw [List.length_append,eight] at le
          rw [behind,suffix_.atIndex j (by omega),List.getD_append_right _ _ _ _ (by omega),eight,Nat.add_sub_cancel_left]
      · rw [← text]
        exact fileName_no_nul noNul
  · have place : (trimmed ((name83 f).take 8)).length < 8 := by
      have sum := congrArg List.length shape
      rw [eight,List.length_append,List.length_cons] at sum
      omega
    have space : (name83 f).getD (trimmed ((name83 f).take 8)).length 0 = 0x20 := by
      have byte := List.getD_append_right (trimmed ((name83 f).take 8)) (0x20::rest) 0 _ (Nat.le_refl _)
      rw [← shape,Nat.sub_self,getD_take place] at byte
      exact byte
    constructor
    · rintro ⟨_,spells⟩
      have byte := spells.atIndex (trimmed ((name83 f).take 8)).length (by rw [fileName,List.length_append]; omega)
      rw [first _ place,space] at byte
      exact absurd byte.symm (behind_base _)
    · rintro ⟨all,_,_⟩
      exact absurd rfl (all 0x20 (by rw [shape]; exact List.mem_append_right _ List.mem_cons_self))

theorem created_succeeds (shape : Geometry s.toMount) (nameable : Nameable f) (absent : ∀ k, ¬ Resolves s (name83 f) k)
    (clear : s.Clear) (slot : ∃ k < 16*s.rootSectors, ¬ Live s.disk (s.slot k)) (cluster : ∃ e, s.InVolume e ∧ s.fat e = 0)
    (file file' : File) : ∃ h t h' u, fat12Create s f file = (0,h,t) ∧ fat12Open t f file' = (0,h',u) := by
  obtain ⟨k,inside,free⟩ := slot
  have member := find_free_in_volume shape cluster
  have nonzero : findFreeCluster s.fatBuffer ≠ 0 := by
    intro none_
    rw [none_] at member
    exact absurd member.1 (by decide)
  have created := create_spec shape f file
  rcases ran : fat12Create s f file with ⟨v,h,t⟩
  rw [ran] at created
  have success := created.succeeds clear inside free nonzero
  subst success
  obtain ⟨j,c,made,_⟩ := created.success rfl
  have opened := open_spec (nameable.undeleted t) file'
  rcases found : fat12Open t f file' with ⟨w,h',u⟩
  rw [found] at opened
  refine ⟨h,t,h',u,rfl,?_⟩
  cases opened with
  | found => exact found
  | missing j le missing => exact absurd (made.first nameable absent) (missing _)
  | error j lt fault =>
    rw [created.clear clear j] at fault
    cases fault

theorem opened_fields (shape : Geometry s.toMount) (nameable : Nameable f) (absent : ∀ k, ¬ Resolves s (name83 f) k)
    (created : fat12Create s f file = (0,h,t)) (opened : fat12Open t f file' = (0,h',u)) :
    Spells h'.name (fileName (name83 f)) ∧ h'.size = 0 ∧ h'.firstCluster = h.firstCluster ∧ h'.isDirectory = 0 := by
  have made := create_spec shape f file
  rw [created] at made
  obtain ⟨k,resolves,name,size,first,directory⟩ := open_fields nameable opened
  cases made with
  | made j c _ _ made cluster nonzero table synced entry empty clusterFirst faults =>
    obtain rfl := resolves.unique (made.first nameable absent)
    rw [made.mount] at name size first directory
    rw [made.archive] at directory
    refine ⟨?_,size.trans empty,first.trans (entry.trans clusterFirst.symm),directory⟩
    rw [name,← made.name]
    exact formatFilename_spells _ _ (by rw [made.name]; exact name83_no_nul f)

-- The two calls return 0 unless the disk fails, and they fill the handles alike when the name
-- is prepared.
theorem created_handle_iff (shape : Geometry s.toMount) (nameable : Nameable f) (absent : ∀ k, ¬ Resolves s (name83 f) k) :
    (∀ file file' h t h' u, fat12Create s f file = (0,h,t) → fat12Open t f file' = (0,h',u) →
      (SameHandle h h' ↔ Prepared f file)) ∧
    (s.Clear → (∃ k < 16*s.rootSectors, ¬ Live s.disk (s.slot k)) → (∃ e, s.InVolume e ∧ s.fat e = 0) →
      ∀ file file', ∃ h t h' u, fat12Create s f file = (0,h,t) ∧ fat12Open t f file' = (0,h',u)) := by
  refine ⟨?_,created_succeeds shape nameable absent⟩
  intro file file' h t h' u created opened
  obtain ⟨written,size,directory⟩ := create_fields created
  obtain ⟨spells,size',first,directory'⟩ := opened_fields shape nameable absent created opened
  rw [← created_name_iff written]
  constructor
  · rintro ⟨⟨text,short,one,two⟩,_,_,_⟩
    rw [← two.unique spells]
    exact ⟨short,one⟩
  · rintro ⟨short,one⟩
    exact ⟨⟨_,short,one,spells⟩,size.trans size'.symm,first.symm,directory.trans directory'.symm⟩

theorem blank_room : (∃ k < 16*blank.rootSectors, ¬ Live blank.disk (blank.slot k)) ∧ ∃ e, blank.InVolume e ∧ blank.fat e = 0 :=
  ⟨⟨0,by decide,fun live => live.1 rfl⟩,⟨2,floppy_in_volume (by decide) (by decide),blank_fat 2⟩⟩

def letters : List UInt8 := [0x4C,0x45,0x54,0x54,0x45,0x52,0x53,0x41]

theorem created_handle_iff_letters : ∃ h t h' u, fat12Create blank letters .fresh = (0,h,t) ∧
    fat12Open t letters .fresh = (0,h',u) ∧ SameHandle h h' := by
  obtain ⟨same,succeeds⟩ := created_handle_iff (s := blank) (f := letters) floppy_geometry (by decide) (fun k found => found.live.1 rfl)
  obtain ⟨h,t,h',u,created,opened⟩ := succeeds (fun _ => rfl) blank_room.1 blank_room.2 .fresh .fresh
  refine ⟨h,t,h',u,created,opened,(same _ _ _ _ _ _ created opened).mpr ⟨by decide +kernel,by decide,?_,by decide⟩⟩
  exact fun i le => rfl

-- An empty floppy and the name A: the handle of create is padded with spaces.
theorem padded_name : ∃ h t h' u, fat12Create blank [0x41] .fresh = (0,h,t) ∧ fat12Open t [0x41] .fresh = (0,h',u) ∧
    h.name 1 = 0x20 ∧ h'.name 1 = 0 ∧ ¬ SameHandle h h' := by
  have absent : ∀ k, ¬ Resolves blank (name83 [0x41]) k := fun k found => found.live.1 rfl
  obtain ⟨h,t,h',u,created,opened⟩ := created_succeeds floppy_geometry (by decide) absent (fun _ => rfl) blank_room.1 blank_room.2 .fresh .fresh
  obtain ⟨written,_⟩ := create_fields created
  obtain ⟨spells,_⟩ := opened_fields floppy_geometry (by decide) absent created opened
  have space : h.name 1 = 0x20 := by rw [written]; rfl
  have nul : h'.name 1 = 0 := spells.atIndex 1 (by decide)
  refine ⟨h,t,h',u,created,opened,space,nul,?_⟩
  rintro ⟨⟨text,_,one,two⟩,_,_,_⟩
  obtain rfl := two.unique spells
  have byte := one.atIndex 1 (by decide)
  rw [space] at byte
  exact absurd byte (by decide)

end

end SantOS.Fat12
