import SantOS.Fat12.Stored
import SantOS.Sedit.Texts

namespace SantOS.Sedit
open ArrayShifts CStrings Fat12 FlatText

-- The parts of the lines that fit when the first of them starts at byte n.
def cut (n : Nat) : List Str → List Str
  | [] => []
  | l::ls =>
    if n < saveLimit then l.take (saveLimit - n) :: cut (n + (l.take (saveLimit - n)).length + 1) ls else []

section
variable {e : Editor} {row : Row} {rows : Rows} {s l buf : Str} {ls : List Str} {n : Nat}

theorem saveLine_eq (spells : Spells row s) (rest : j + left = s.length) :
    saveLine row j buf left = buf ++ (s.drop j).take (saveLimit - buf.length) := by
  induction left generalizing j buf with
  | zero =>
    rw [saveLine,List.drop_eq_nil_of_le (by omega),List.take_nil,List.append_nil]
  | succ left ih =>
    have inside : j < s.length := by omega
    have byte : row j = s[j] := by rw [spells.atIndex j (Nat.le_of_lt inside),List.getD_eq_getElem _ _ inside]
    rw [saveLine,List.drop_eq_getElem_cons inside]
    by_cases room : buf.length < saveLimit
    · rw [if_pos room,ih (by omega),List.length_append,List.length_singleton,byte,
        show saveLimit - buf.length = saveLimit - (buf.length + 1) + 1 by omega,List.take_succ_cons,
        List.append_assoc,List.singleton_append]
    · rw [if_neg room,show saveLimit - buf.length = 0 by omega,List.take_zero,List.append_nil]

theorem saveLines_eq (holds : Holds Spells rows ls) (short : ∀ l ∈ ls, l.length < maxLineLen) (rest : i + left = ls.length) :
    saveLines rows i buf left = buf ++ ended 10 (cut buf.length (ls.drop i)) := by
  induction left generalizing i buf with
  | zero =>
    rw [saveLines,List.drop_eq_nil_of_le (by omega),cut,ended,List.flatMap_nil,List.append_nil]
  | succ left ih =>
    have inside : i < ls.length := by omega
    have spells := holds i _ (List.getElem?_eq_getElem inside)
    rw [saveLines,List.drop_eq_getElem_cons inside,cut]
    by_cases room : buf.length < saveLimit
    · rw [if_pos room,if_pos room,strlen_spells spells (short _ (List.getElem_mem inside)),
        saveLine_eq spells (Nat.zero_add _),List.drop_zero,ih (by omega)]
      simp [ended,Nat.add_assoc]
    · rw [if_neg room,if_neg room,ended,List.flatMap_nil,List.append_nil]

theorem flatten_eq (valid : Valid e) : flatten e = ended 10 (cut 0 (lineTexts e)) := by
  obtain ⟨pre,l,post,c,shows_⟩ := valid.shows
  unfold flatten
  rw [shows_.texts]
  exact saveLines_eq shows_.rows shows_.short (by rw [shows_.count,Nat.zero_add])

theorem ended_cons (l : Str) (ls : List Str) : (ended 10 (l::ls)).length = l.length + 1 + (ended 10 ls).length := by
  simp [ended]
  omega

theorem ended_replicate (n : Nat) (l : Str) : (ended 10 (List.replicate n l)).length = n*(l.length + 1) := by
  induction n with
  | zero => simp [ended]
  | succ n ih => rw [List.replicate_succ,ended_cons,ih,Nat.succ_mul,Nat.add_comm]

theorem cut_length (low : n ≤ saveLimit + 1) (ls : List Str) : n + (ended 10 (cut n ls)).length ≤ saveLimit + 1 := by
  induction ls generalizing n with
  | nil => simpa [cut,ended] using low
  | cons l ls ih =>
    rw [cut]
    by_cases room : n < saveLimit
    · have part : (l.take (saveLimit - n)).length ≤ saveLimit - n := List.length_take_le ..
      have rest := ih (n := n + (l.take (saveLimit - n)).length + 1) (by omega)
      rw [if_pos room,ended_cons]
      omega
    · rw [if_neg room]
      simpa [ended] using low

-- The text is whole when it takes at most saveLimit bytes, or one more with a last line
-- that is not empty.
def Whole (n : Nat) (ls : List Str) : Prop :=
  n + (ended 10 ls).length ≤ saveLimit ∨ (n + (ended 10 ls).length = saveLimit + 1 ∧ ls.getLast? ≠ some [])

theorem whole_cons (room : n < saveLimit) : Whole n (l::ls) ↔ Whole (n + l.length + 1) ls := by
  unfold Whole
  rw [ended_cons,show n + (l.length + 1 + (ended 10 ls).length) = n + l.length + 1 + (ended 10 ls).length by omega]
  cases ls with
  | cons m ms => rfl
  | nil =>
    simp only [ended,List.flatMap_nil,List.length_nil,List.getLast?_nil,List.getLast?_singleton]
    constructor
    · rintro (below | ⟨exact_,_⟩)
      · exact .inl below
      · exact .inr ⟨exact_,fun same => (by cases same)⟩
    · rintro (below | ⟨exact_,_⟩)
      · exact .inl below
      · refine .inr ⟨exact_,?_⟩
        rintro ⟨⟩
        rw [List.length_nil] at exact_
        omega

theorem not_whole_long (long : saveLimit < n + l.length) : ¬ Whole n (l::ls) := by
  rintro (below | ⟨exact_,_⟩)
  · rw [ended_cons] at below
    omega
  · rw [ended_cons] at exact_
    omega

theorem not_whole_full (full : saveLimit ≤ n) : ¬ Whole n (l::ls) := by
  rintro (below | ⟨exact_,nonempty⟩)
  · rw [ended_cons] at below
    omega
  · rw [ended_cons] at exact_
    cases ls with
    | nil =>
      have empty : l = [] := List.eq_nil_of_length_eq_zero (by omega)
      exact nonempty (by rw [empty]; rfl)
    | cons m ms =>
      rw [ended_cons] at exact_
      omega

theorem cut_whole (low : n ≤ saveLimit + 1) (ls : List Str) : (ended 10 (cut n ls)).length ≤ (ended 10 ls).length ∧
    (Whole n ls → cut n ls = ls) ∧ ((ended 10 (cut n ls)).length = (ended 10 ls).length → Whole n ls) := by
  induction ls generalizing n with
  | nil =>
    refine ⟨Nat.le_refl _,fun _ => rfl,fun _ => ?_⟩
    unfold Whole
    simp only [ended,List.flatMap_nil,List.length_nil,List.getLast?_nil]
    rcases Nat.lt_or_ge saveLimit n with above | below
    · exact .inr ⟨by omega,fun same => (by cases same)⟩
    · exact .inl below
  | cons l ls ih =>
    rw [cut]
    by_cases room : n < saveLimit
    · rw [if_pos room,ended_cons,ended_cons]
      by_cases fits : l.length ≤ saveLimit - n
      · rw [List.take_of_length_le fits,whole_cons room]
        obtain ⟨le,forward,backward⟩ := ih (n := n + l.length + 1) (by omega)
        refine ⟨by omega,?_,?_⟩
        · intro whole
          rw [forward whole]
        · intro equal
          exact backward (by omega)
      · have part : (l.take (saveLimit - n)).length = saveLimit - n := List.length_take_of_le (by omega)
        rw [part]
        have le := (ih (n := n + (saveLimit - n) + 1) (by omega)).1
        exact ⟨by omega,fun whole => absurd whole (not_whole_long (by omega)),fun equal => by omega⟩
    · rw [if_neg room,ended_cons]
      have nothing : (ended (10 : UInt8) []).length = 0 := rfl
      exact ⟨by omega,fun whole => absurd whole (not_whole_full (by omega)),fun equal => by omega⟩

theorem cut_full_iff (low : n ≤ saveLimit + 1) (ls : List Str) :
    saveLimit ≤ n + (ended 10 (cut n ls)).length ↔ saveLimit ≤ n + (ended 10 ls).length := by
  induction ls generalizing n with
  | nil => rfl
  | cons l ls ih =>
    rw [cut,ended_cons]
    by_cases room : n < saveLimit
    · have next := ih (n := n + (l.take (saveLimit - n)).length + 1)
      rw [if_pos room,ended_cons]
      rw [List.length_take] at next ⊢
      have bound := next (by omega)
      omega
    · rw [if_neg room]
      omega

theorem cut_few_iff (n k : Nat) (ls : List Str) :
    (cut n ls).length ≤ k ↔ ls.length ≤ k ∨ saveLimit ≤ n + (ended 10 (ls.take k)).length := by
  induction ls generalizing n k with
  | nil => simp [cut]
  | cons l ls ih =>
    rw [cut]
    by_cases room : n < saveLimit
    · rw [if_pos room,List.length_cons,List.length_cons]
      cases k with
      | zero =>
        have nothing : (ended (10 : UInt8) []).length = 0 := rfl
        rw [List.take_zero]
        omega
      | succ k =>
        rw [List.take_succ_cons,ended_cons,Nat.add_le_add_iff_right,ih,Nat.add_le_add_iff_right,List.length_take]
        omega
    · rw [if_neg room,List.length_nil]
      omega

theorem cut_fits (low : n ≤ saveLimit + 1) (ls : List Str) : cut n (cut n ls) = cut n ls ∧
    cut n (cut n ls ++ [[]]) = cut n ls ++ if n + (ended 10 (cut n ls)).length < saveLimit then [[]] else [] := by
  induction ls generalizing n with
  | nil =>
    refine ⟨rfl,?_⟩
    simp [cut,ended]
  | cons l ls ih =>
    rw [cut]
    by_cases room : n < saveLimit
    · have part : ((l.take (saveLimit - n)).take (saveLimit - n)) = l.take (saveLimit - n) := by
        rw [List.take_take,Nat.min_self]
      have short : (l.take (saveLimit - n)).length ≤ saveLimit - n := List.length_take_le ..
      obtain ⟨again,more⟩ := ih (n := n + (l.take (saveLimit - n)).length + 1) (by omega)
      rw [if_pos room,cut,if_pos room,part,again,List.cons_append,cut,if_pos room,part,more,ended_cons,← Nat.add_assoc,← Nat.add_assoc]
      exact ⟨rfl,rfl⟩
    · rw [if_neg room]
      refine ⟨rfl,?_⟩
      rw [List.nil_append,cut,if_neg room,if_neg (by omega)]
      rfl

def StoredText (t : Driver) (f text : Str) : Prop := Stored t f (fun i => text.getD i 0) text.length

-- The clusters of the file hold the text before any size is set.
def Keeps (s : Driver) (k : Nat) (text : Str) : Prop :=
  ∃ cs, EntryChain s (s.slot k) cs ∧ Fat12.Holds s (fun i => text.getD i 0) text.length 0 cs

theorem getD_ext {a b : Str} (length : a.length = b.length) (same : ∀ i < a.length, a.getD i 0 = b.getD i 0) : a = b := by
  apply List.ext_getElem length
  intro i one two
  have bytes := same i one
  rwa [List.getD_eq_getElem _ _ one,List.getD_eq_getElem _ _ two] at bytes

theorem saved_wrote {disk t : Driver} (saved : saveFile e disk = some (0,e',t)) : e' = {e with modified := false} ∧
    ∃ v, syscallWriteFile disk e.filename (fun i => (flatten e).getD i 0) (flatten e).length = some (v,t) ∧ v > 0 := by
  unfold saveFile at saved
  by_cases unnamed : e.filename = []
  · rw [if_pos unnamed] at saved
    cases saved
  · rw [if_neg unnamed] at saved
    dsimp only at saved
    split at saved
    · cases saved
    · rename_i v u wrote
      split at saved
      · rename_i positive
        cases saved
        exact ⟨rfl,v,wrote,positive⟩
      · cases saved

theorem saved_outcome {disk t : Driver} (valid : Valid e) (shape : Geometry disk.toMount) (sound : Sound disk)
    (undeleted : Undeleted disk e.filename) (regular : RegularOrAbsent disk e.filename) (saved : saveFile e disk = some (0,e',t)) :
    (∀ k, ¬ Overlooked disk e.filename k) ∧ StoredText t e.filename (flatten e) ∨
    ∃ k, Overlooked disk e.filename k ∧ Renumbered disk t e.filename k (flatten e).length := by
  obtain ⟨_,v,wrote,positive⟩ := saved_wrote saved
  have bound := cut_length (Nat.zero_le (saveLimit + 1)) (lineTexts e)
  rw [← flatten_eq valid] at bound
  unfold saveLimit at bound
  exact (writeFile_stored shape sound undeleted regular (by omega) wrote positive).2

theorem flatten_whole_iff (valid : Valid e) : flatten e = ended 10 (lineTexts e) ↔ Whole 0 (lineTexts e) := by
  have facts := cut_whole (Nat.zero_le (saveLimit + 1)) (lineTexts e)
  rw [flatten_eq valid]
  constructor
  · intro same
    exact facts.2.2 (by rw [same])
  · intro whole
    rw [facts.2.1 whole]

theorem stored_whole_iff {disk t : Driver} (valid : Valid e) (shape : Geometry disk.toMount) (sound : Sound disk)
    (undeleted : Undeleted disk e.filename) (regular : RegularOrAbsent disk e.filename) (saved : saveFile e disk = some (0,e',t)) :
    StoredText t e.filename (ended 10 (lineTexts e)) ↔
      Whole 0 (lineTexts e) ∧ ∀ k, Overlooked disk e.filename k → Keeps disk k (ended 10 (lineTexts e)) := by
  rcases saved_outcome valid shape sound undeleted regular saved with ⟨noticed,stored⟩ | ⟨k,overlooked,cs,chain,inT,size,chainT,contents⟩
  · rw [← flatten_whole_iff valid]
    constructor
    · intro whole
      obtain ⟨length,same⟩ := stored.unique whole
      exact ⟨getD_ext length same,fun k overlooked => absurd overlooked (noticed k)⟩
    · rintro ⟨same,_⟩
      rw [← same]
      exact stored
  · rw [← flatten_whole_iff valid]
    constructor
    · rintro ⟨j,ds,found,length,chainT',holds⟩
      obtain rfl := found.unique inT
      obtain rfl := chainT'.unique chainT
      have facts := cut_whole (Nat.zero_le (saveLimit + 1)) (lineTexts e)
      have sameLength : (flatten e).length = (ended 10 (lineTexts e)).length := size.symm.trans length
      refine ⟨(flatten_whole_iff valid).mpr (facts.2.2 ?_),?_⟩
      · rw [← flatten_eq valid]
        exact sameLength
      · intro i other
        obtain rfl := other.1.unique overlooked.1
        exact ⟨_,chain,(contents _ _).mp holds⟩
    · rintro ⟨same,keeps⟩
      obtain ⟨ds,chain',holds⟩ := keeps k overlooked
      obtain rfl := chain'.unique chain
      refine ⟨k,_,inT,?_,chainT,(contents _ _).mpr holds⟩
      rw [size,same]

-- A save that reports success stores the whole text: it fits, and no read error hides the
-- file from the save (then it has to hold the text already).
theorem saved_text_whole_iff {disk t : Driver} (valid : Valid e) (shape : Geometry disk.toMount) (sound : Sound disk)
    (undeleted : Undeleted disk e.filename) (regular : RegularOrAbsent disk e.filename) (saved : saveFile e disk = some (0,e',t)) :
    e' = {e with modified := false} ∧ (StoredText t e.filename (ended 10 (lineTexts e)) ↔
      Whole 0 (lineTexts e) ∧ ∀ k, Overlooked disk e.filename k → Keeps disk k (ended 10 (lineTexts e))) :=
  ⟨(saved_wrote saved).1,stored_whole_iff valid shape sound undeleted regular saved⟩

theorem blank_saves (valid : Valid e) (named : Nameable e.filename) (nonempty : e.filename ≠ []) :
    ∃ t, saveFile e blank = some (0,{e with modified := false},t) ∧
      ReadsBack t e.filename (fun i => (flatten e).getD i 0) (flatten e).length := by
  have fits := cut_length (Nat.zero_le (saveLimit + 1)) (lineTexts e)
  have someLine := valid.someLine
  have positive : 0 < (flatten e).length := by
    have count : (lineTexts e).length = e.lineCount := by simp [lineTexts]
    obtain ⟨l,ls,shape⟩ := List.exists_cons_of_length_pos (show 0 < (lineTexts e).length by omega)
    rw [flatten_eq valid,shape,cut,if_pos (by decide),ended_cons]
    omega
  rw [Nat.zero_add,← flatten_eq valid] at fits
  unfold saveLimit at fits
  obtain ⟨t,wrote,back⟩ := blank_takes named positive (by omega) (fun i => (flatten e).getD i 0)
  refine ⟨t,?_,back⟩
  unfold saveFile
  rw [if_neg nonempty]
  dsimp only
  rw [wrote]
  exact if_pos (by omega)

def letterA : Editor := {emptyEditor with
  lines := Function.update (fun _ _ => 0) 0 (fun i => [97].getD i 0), filename := [0x41]}

theorem letter_valid : Valid letterA := by
  refine ⟨by decide,by decide,?_,by decide,by decide⟩
  intro r below
  obtain rfl : r = 0 := Nat.lt_one_iff.mp below
  exact ⟨1,by decide,rfl⟩

theorem saved_text_whole_iff_letter : ∃ t, saveFile letterA blank = some (0,letterA,t) ∧ StoredText t [0x41] [97,10] := by
  obtain ⟨t,saved,_⟩ := blank_saves letter_valid (by decide) (by decide)
  have whole := (saved_text_whole_iff letter_valid blank_well_formed.shape blank_well_formed.sound
    ((by decide : Nameable [0x41]).undeleted blank) (blank_regular [0x41]) saved).2
  exact ⟨t,saved,whole.mpr ⟨.inl (by decide),fun k overlooked => absurd rfl overlooked.1.live.1⟩⟩

def longText : Editor := {emptyEditor with lines := fun _ i => if i < 255 then 97 else 0, lineCount := 129, filename := [0x41]}

theorem longText_shows : Shows longText [] (List.replicate 255 97) (List.replicate 128 (List.replicate 255 97)) 0 := by
  have all : [] ++ List.replicate 255 97::List.replicate 128 (List.replicate 255 97) =
      List.replicate 129 (List.replicate 255 (97 : UInt8)) := rfl
  refine ⟨?_,?_,?_,by decide,rfl,rfl,Nat.zero_le _⟩
  · rw [all]
    intro i l found
    rw [List.eq_of_mem_replicate (List.mem_of_getElem? found)]
    refine ⟨?_,fun zero => absurd (List.eq_of_mem_replicate zero) (by decide)⟩
    intro k le
    by_cases inside : k < 255
    · rw [List.getD_eq_getElem _ _ (by rw [List.length_replicate]; exact inside),List.getElem_replicate]
      exact if_pos inside
    · rw [List.getD_eq_default _ _ (by rw [List.length_replicate]; omega)]
      exact if_neg inside
  · rw [all]
    intro l among
    rw [List.eq_of_mem_replicate among,List.length_replicate]
    decide
  · rw [all,List.length_replicate]
    rfl

theorem long_text_cut : ∃ t, saveFile longText blank = some (0,longText,t) ∧
    ¬ StoredText t [0x41] (ended 10 (lineTexts longText)) := by
  have valid := longText_shows.valid
  obtain ⟨t,saved,_⟩ := blank_saves valid (by decide) (by decide)
  refine ⟨t,saved,?_⟩
  intro stored
  have whole := ((stored_whole_iff valid blank_well_formed.shape blank_well_formed.sound
    ((by decide : Nameable [0x41]).undeleted blank) (blank_regular [0x41]) saved).mp stored).1
  have length : (ended 10 (lineTexts longText)).length = 33024 := by
    rw [longText_shows.texts,List.nil_append,← List.replicate_succ,ended_replicate,List.length_replicate]
  unfold Whole saveLimit at whole
  omega

-- Lines as load_file makes them: no terminator, line feed or carriage return inside.
structure Plain (l : Str) : Prop where
  short : l.length < maxLineLen
  noNul : 0 ∉ l
  noLf : 10 ∉ l
  noCr : 13 ∉ l

theorem parse_line (rows : Rows) (lc col : Nat) (below : lc < maxLines) (short : col + l.length < maxLineLen)
    (noLf : 10 ∉ l) (noCr : 13 ∉ l) :
    ∃ row : Row, (∀ k < col, row k = rows lc k) ∧ (∀ i < l.length, row (col+i) = l.getD i 0) ∧ row (col + l.length) = 0 ∧
      ∀ rest, parseFrom rows lc col (l ++ 10::rest) = parseFrom (Function.update rows lc row) (lc+1) 0 rest := by
  induction l generalizing rows col with
  | nil =>
    rw [List.length_nil,Nat.add_zero] at *
    refine ⟨Function.update (rows lc) col 0,?_,nofun,Function.update_self ..,?_⟩
    · intro k less
      exact Function.update_of_ne (by omega) ..
    · intro rest
      rw [List.nil_append,parseFrom,if_pos below,if_pos rfl,store,if_pos ⟨below,short⟩]
  | cons b l ih =>
    rw [List.length_cons] at *
    have notLf : b ≠ 10 := fun same => noLf (same ▸ List.mem_cons_self)
    have notCr : b ≠ 13 := fun same => noCr (same ▸ List.mem_cons_self)
    obtain ⟨row,before,bytes,nul,parsed⟩ := ih (Function.update rows lc (Function.update (rows lc) col b)) (col+1)
      (by omega) (fun later => noLf (List.mem_cons_of_mem _ later)) (fun later => noCr (List.mem_cons_of_mem _ later))
    rw [Function.update_self] at before
    refine ⟨row,?_,?_,?_,?_⟩
    · intro k less
      rw [before k (by omega),Function.update_of_ne (by omega)]
    · intro i inside
      cases i with
      | zero =>
        have first := before col (by omega)
        rwa [Function.update_self] at first
      | succ i =>
        rw [show col + (i+1) = col + 1 + i by omega]
        exact bytes i (by omega)
    · rw [show col + (l.length + 1) = col + 1 + l.length by omega]
      exact nul
    · intro rest
      have next := parsed rest
      rw [Function.update_idem] at next
      rw [List.cons_append,parseFrom,if_pos below,if_neg notLf,if_neg notCr,if_pos (by unfold maxLineLen at *; omega),
        store,if_pos ⟨below,by omega⟩]
      exact next

theorem parse_ended (holds : ArrayShifts.Holds Spells rows done) (lines : ∀ l ∈ ls, Plain l)
    (few : done.length + ls.length ≤ maxLines) :
    ∃ rows', ArrayShifts.Holds Spells rows' (done ++ ls) ∧
      parseFrom rows done.length 0 (ended 10 ls) = some (rows',(done ++ ls).length,0) := by
  induction ls generalizing rows done with
  | nil =>
    rw [List.append_nil]
    exact ⟨rows,holds,rfl⟩
  | cons l ls ih =>
    rw [List.length_cons] at few
    have plain := lines l List.mem_cons_self
    obtain ⟨row,_,bytes,nul,parsed⟩ := parse_line rows done.length 0 (by omega)
      (by rw [Nat.zero_add]; exact plain.short) plain.noLf plain.noCr
    simp only [Nat.zero_add] at bytes nul
    have spells : Spells row l := by
      refine ⟨?_,plain.noNul⟩
      intro i le
      by_cases inside : i < l.length
      · exact bytes i inside
      · obtain rfl : i = l.length := by omega
        rw [nul,List.getD_eq_default _ _ (Nat.le_refl _)]
    obtain ⟨rows',final,ran⟩ := ih (holds.push spells) (fun m later => lines m (List.mem_cons_of_mem _ later))
      (by rw [List.length_append,List.length_singleton]; omega)
    rw [List.append_assoc,List.singleton_append,List.length_append,List.length_singleton] at ran
    rw [List.append_assoc,List.singleton_append] at final
    have shape : ended (10 : UInt8) (l::ls) = l ++ 10::ended 10 ls := by simp [ended]
    rw [shape,parsed]
    exact ⟨rows',final,ran⟩

-- The reader takes the newline that ends the last line for the start of one more.
theorem parse_saved (rows : Rows) (lines : ∀ l ∈ ls, Plain l) (nonempty : ls ≠ []) (few : ls.length ≤ maxLines) :
    if ls.length < maxLines then
      ∃ rows', ArrayShifts.Holds Spells rows' (ls ++ [[]]) ∧ parseLines rows (ended 10 ls) = some (rows',ls.length + 1)
    else parseLines rows (ended 10 ls) = none := by
  have start : ArrayShifts.Holds Spells rows [] := nofun
  obtain ⟨rows',holds,ran⟩ := parse_ended start lines (by simpa using few)
  rw [List.nil_append,List.length_nil] at *
  have last : (ended (10 : UInt8) ls).getLast? = some 10 := by
    obtain ⟨init,l,rfl⟩ := (List.eq_nil_or_concat ls).resolve_left nonempty
    simp [ended]
  have emptyLine : Spells (Function.update (rows' ls.length) 0 0) [] := by
    refine ⟨?_,List.not_mem_nil⟩
    intro i le
    obtain rfl : i = 0 := by simpa using le
    exact Function.update_self ..
  unfold parseLines
  rw [ran]
  dsimp only
  by_cases room : ls.length < maxLines
  · rw [if_pos room,if_pos (Or.inr last)]
    refine ⟨_,holds.push emptyLine,?_⟩
    rw [store,if_pos ⟨room,by decide⟩]
    rfl
  · rw [if_neg room,if_pos (Or.inr last),store,if_neg (fun inside => room inside.1)]
    rfl

theorem load_saved {t : Driver} {text : Str} (back : ReadsBack t f (fun i => text.getD i 0) text.length)
    (fits : text.length ≤ saveLimit + 1) (e : Editor) : ∃ u, loadFile e f t =
      (parseLines e.lines text).map (fun parsed => (0,{e with lines := parsed.1, lineCount := parsed.2},u)) := by
  obtain ⟨out,u,ran,bytes⟩ := back 32767 (fun _ => 0)
  have all : min text.length (32767 : UInt32).toNat = text.length := Nat.min_eq_left fits
  rw [all] at ran bytes
  have read : (List.range ((text.length : Nat) : Int).toNat).map out = text := by
    rw [Int.toNat_natCast]
    apply getD_ext
    · rw [List.length_map,List.length_range]
    · intro i inside
      rw [List.length_map,List.length_range] at inside
      refine Eq.trans ?_ (bytes i inside)
      rw [List.getD_eq_getElem _ _ (by rw [List.length_map,List.length_range]; exact inside),
        List.getElem_map,List.getElem_range]
  have ran' : syscallReadFile t f (fun _ => 0) (32768 - 1) = some ((text.length : Int),out,u) := ran
  refine ⟨u,?_⟩
  unfold loadFile
  rw [ran']
  dsimp only
  rw [if_neg (by omega),read]
  cases parseLines e.lines text with
  | none => rfl
  | some parsed => rfl

theorem cut_lines (n : Nat) (ls : List Str) : (cut n ls).length ≤ ls.length ∧ ∀ l ∈ cut n ls, ∃ m ∈ ls, ∃ k, l = m.take k := by
  induction ls generalizing n with
  | nil => exact ⟨Nat.le_refl _,nofun⟩
  | cons l ls ih =>
    rw [cut]
    split
    · obtain ⟨fewer,parts⟩ := ih (n + (l.take (saveLimit - n)).length + 1)
      refine ⟨Nat.succ_le_succ fewer,?_⟩
      intro m among
      rcases List.mem_cons.mp among with rfl | later
      · exact ⟨l,List.mem_cons_self,_,rfl⟩
      · obtain ⟨k,inside,part⟩ := parts m later
        exact ⟨k,List.mem_cons_of_mem _ inside,part⟩
    · exact ⟨Nat.zero_le _,nofun⟩

theorem Valid.plain (valid : Valid e) (plain : ∀ l ∈ lineTexts e, 10 ∉ l ∧ 13 ∉ l) : ∀ l ∈ cut 0 (lineTexts e), Plain l := by
  obtain ⟨pre,m,post,c,shows_⟩ := valid.shows
  intro l among
  obtain ⟨m,inside,k,rfl⟩ := (cut_lines 0 (lineTexts e)).2 l among
  have free := plain m inside
  rw [shows_.texts] at inside
  obtain ⟨i,found⟩ := List.getElem?_of_mem inside
  have spells := shows_.rows i m found
  have short := shows_.short m inside
  refine ⟨?_,?_,?_,?_⟩
  · rw [List.length_take]
    omega
  · exact fun nul => spells.noNul (List.mem_of_mem_take nul)
  · exact fun lf => free.1 (List.mem_of_mem_take lf)
  · exact fun cr => free.2 (List.mem_of_mem_take cr)

theorem Valid.saved_lines (valid : Valid e) : cut 0 (lineTexts e) ≠ [] ∧ (cut 0 (lineTexts e)).length ≤ maxLines := by
  have count : (lineTexts e).length = e.lineCount := by simp [lineTexts]
  have someLine := valid.someLine
  obtain ⟨l,ls,shape⟩ := List.exists_cons_of_length_pos (show 0 < (lineTexts e).length by omega)
  refine ⟨?_,?_⟩
  · rw [shape,cut,if_pos (by decide)]
    exact List.cons_ne_nil _ _
  · have fewer := (cut_lines 0 (lineTexts e)).1
    have few := valid.fewLines
    omega

-- Saving what was opened from a saved file: an empty line more, unless the file is full.
theorem reopened {text : Str} (valid : Valid e) (plain : ∀ l ∈ lineTexts e, 10 ∉ l ∧ 13 ∉ l)
    (saved : flatten e = text) (rows : Rows)
    (opened : Editor) : ((∃ parsed, parseLines rows text = some parsed ∧
      flatten {opened with lines := parsed.1, lineCount := parsed.2} = text) ↔
        (cut 0 (lineTexts e)).length < maxLines ∧ saveLimit ≤ text.length) := by
  have lines := valid.plain plain
  obtain ⟨nonempty,few⟩ := valid.saved_lines
  have parsed := parse_saved rows lines nonempty few
  have shape := saved.symm.trans (flatten_eq valid)
  rw [← shape] at parsed
  by_cases room : (cut 0 (lineTexts e)).length < maxLines
  · rw [if_pos room] at parsed
    obtain ⟨rows',holds,ran⟩ := parsed
    have short : ∀ l ∈ cut 0 (lineTexts e) ++ [[]], l.length < maxLineLen := by
      intro l among
      rcases List.mem_append.mp among with old | new
      · exact (lines l old).short
      · rw [List.mem_singleton.mp new]
        decide
    have again : flatten {opened with lines := rows', lineCount := (cut 0 (lineTexts e)).length + 1} =
        ended 10 (cut 0 (cut 0 (lineTexts e) ++ [[]])) := saveLines_eq holds short (by rw [List.length_append]; simp)
    rw [(cut_fits (Nat.zero_le _) _).2,Nat.zero_add,← shape] at again
    constructor
    · rintro ⟨parsed,ran',same⟩
      rw [ran] at ran'
      cases ran'
      refine ⟨room,?_⟩
      by_contra below
      rw [again,if_pos (by omega),shape] at same
      have longer := congrArg List.length same
      simp [ended] at longer
    · rintro ⟨_,full⟩
      refine ⟨_,ran,?_⟩
      rw [again,if_neg (by omega),List.append_nil,shape]
  · rw [if_neg room] at parsed
    rw [parsed]
    constructor
    · rintro ⟨_,found,_⟩
      cases found
    · rintro ⟨less,_⟩
      exact absurd less room

-- t is any disk on which the file reads back as save_file wrote it.
theorem resaved_same_iff {t : Driver} (valid : Valid e) (plain : ∀ l ∈ lineTexts e, 10 ∉ l ∧ 13 ∉ l)
    (back : ReadsBack t e.filename (fun i => (flatten e).getD i 0) (flatten e).length) (opened : Editor) :
    (∃ e' u, loadFile opened e.filename t = some (0,e',u) ∧ flatten e' = flatten e) ↔
      saveLimit ≤ (ended 10 (lineTexts e)).length ∧
      (e.lineCount ≤ 999 ∨ saveLimit ≤ (ended 10 ((lineTexts e).take 999)).length) := by
  have fits := cut_length (Nat.zero_le (saveLimit + 1)) (lineTexts e)
  rw [Nat.zero_add,← flatten_eq valid] at fits
  obtain ⟨u,loaded⟩ := load_saved back fits opened
  have count : (lineTexts e).length = e.lineCount := by simp [lineTexts]
  have few := cut_few_iff 0 999 (lineTexts e)
  have full := cut_full_iff (Nat.zero_le (saveLimit + 1)) (lineTexts e)
  have again := reopened valid plain rfl opened.lines opened
  rw [Nat.zero_add,Nat.zero_add,← flatten_eq valid] at full
  rw [Nat.zero_add,count] at few
  rw [← full,← few,and_comm,← Nat.lt_succ_iff]
  refine Iff.trans ?_ again
  rw [loaded]
  constructor
  · rintro ⟨e',u',ran,same⟩
    obtain ⟨parsed,found,result⟩ := Option.map_eq_some_iff.mp ran
    cases result
    exact ⟨parsed,found,same⟩
  · rintro ⟨parsed,found,same⟩
    exact ⟨_,u,by rw [found]; rfl,same⟩

theorem letter_plain : ∀ l ∈ lineTexts letterA, 10 ∉ l ∧ 13 ∉ l := by decide

theorem resaved_same_iff_letter : ∃ t, ReadsBack t [0x41] (fun i => [97,10].getD i 0) 2 ∧
    ¬ ∃ e' u, loadFile emptyEditor [0x41] t = some (0,e',u) ∧ flatten e' = [97,10] := by
  obtain ⟨t,_,back⟩ := blank_saves letter_valid (by decide) (by decide)
  refine ⟨t,back,?_⟩
  intro same
  have full := ((resaved_same_iff letter_valid letter_plain back emptyEditor).mp same).1
  exact absurd full (by decide)

theorem reopened_letter_grows : ∃ t e' u, saveFile letterA blank = some (0,letterA,t) ∧ flatten letterA = [97,10] ∧
    loadFile emptyEditor [0x41] t = some (0,e',u) ∧ flatten e' = [97,10,10] := by
  obtain ⟨t,saved,back⟩ := blank_saves letter_valid (by decide) (by decide)
  obtain ⟨u,loaded⟩ := load_saved back (by decide) emptyEditor
  exact ⟨t,_,u,saved,rfl,loaded,rfl⟩

end

end SantOS.Sedit
