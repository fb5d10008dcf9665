import SantOS.Library.FlatText
import SantOS.Sedit.Editor

namespace SantOS.Sedit
open ArrayShifts CStrings FlatText

def textOf (row : Row) : Str := (List.range (strlen row)).map row
def lineTexts (e : Editor) : List Str := (List.range e.lineCount).map (fun r => textOf (e.lines r))

def bufferView (e : Editor) : View UInt8 :=
  ⟨joined 10 (lineTexts e),(ended 10 ((lineTexts e).take e.cursorRow)).length + e.cursorCol⟩

structure Valid (e : Editor) : Prop where
  someLine : 1 ≤ e.lineCount
  fewLines : e.lineCount ≤ maxLines
  ends : ∀ r < e.lineCount, ∃ i < maxLineLen, e.lines r i = 0
  row : e.cursorRow < e.lineCount
  col : e.cursorCol ≤ strlen (e.lines e.cursorRow)

structure Shows (e : Editor) (pre : List Str) (l : Str) (post : List Str) (c : Nat) : Prop where
  rows : Holds Spells e.lines (pre ++ l::post)
  short : ∀ m ∈ pre ++ l::post, m.length < maxLineLen
  count : e.lineCount = (pre ++ l::post).length
  fits : e.lineCount ≤ maxLines
  row : e.cursorRow = pre.length
  col : e.cursorCol = c
  inside : c ≤ l.length

section
variable {e : Editor} {row : Row} {s a b l m : Str} {pre post : List Str}

theorem strlen_spells (spells : Spells row s) (short : s.length < maxLineLen) : strlen row = s.length :=
  strlenFrom_eq spells (Nat.zero_le _) (by omega)

theorem textOf_spells (spells : Spells row s) (short : s.length < maxLineLen) : textOf row = s := by
  unfold textOf
  rw [strlen_spells spells short]
  apply List.ext_getElem
  · rw [List.length_map,List.length_range]
  · intro i _ below
    rw [List.getElem_map,List.getElem_range,spells.atIndex i (Nat.le_of_lt below),List.getD_eq_getElem _ _ below]

theorem strcpy_spells (spells : Spells row s) (short : s.length < maxLineLen) (dest : Row) : Spells (strcpy dest row) s :=
  spells_strcpy spells short

-- A NUL among the first MAX_LINE_LEN bytes ends the row's string.
theorem spells_textOf (ends : ∃ i < maxLineLen, row i = 0) : Spells row (textOf row) ∧ (textOf row).length < maxLineLen := by
  classical
  have first := Nat.find_spec ends
  have len : ((List.range (Nat.find ends)).map row).length = Nat.find ends := by rw [List.length_map,List.length_range]
  have spells : Spells row ((List.range (Nat.find ends)).map row) := by
    refine ⟨?_,?_⟩
    · intro i le
      by_cases last : i = Nat.find ends
      · rw [last,first.2,List.getD_eq_default _ _ (Nat.le_of_eq len)]
      · rw [List.getD_eq_getElem _ _ (by omega),List.getElem_map,List.getElem_range]
    · intro zero
      obtain ⟨i,below,nul⟩ := List.mem_map.mp zero
      have earlier := List.mem_range.mp below
      exact Nat.find_min ends earlier ⟨Nat.lt_trans earlier first.1,nul⟩
  have short : ((List.range (Nat.find ends)).map row).length < maxLineLen := by rw [len]; exact first.1
  rw [textOf_spells spells short]
  exact ⟨spells,short⟩

theorem Shows.texts (shows_ : Shows e pre l post c) : lineTexts e = pre ++ l::post := by
  unfold lineTexts
  rw [shows_.count]
  apply List.ext_getElem
  · rw [List.length_map,List.length_range]
  · intro i _ below
    rw [List.getElem_map,List.getElem_range]
    exact textOf_spells (shows_.rows i _ (List.getElem?_eq_getElem below)) (shows_.short _ (List.getElem_mem below))

theorem Shows.viewed (shows_ : Shows e pre l post c) : bufferView e = view 10 pre l post c := by
  unfold bufferView view
  rw [shows_.texts,shows_.row,shows_.col,List.take_left]

theorem Shows.cursor_line (shows_ : Shows e pre l post c) : Spells (e.lines e.cursorRow) l ∧ l.length < maxLineLen := by
  rw [shows_.row]
  exact ⟨shows_.rows _ _ (by simp),shows_.short l (by simp)⟩

theorem Shows.len (shows_ : Shows e pre l post c) : strlen (e.lines e.cursorRow) = l.length :=
  strlen_spells shows_.cursor_line.1 shows_.cursor_line.2

theorem Shows.valid (shows_ : Shows e pre l post c) : Valid e := by
  have count := shows_.count
  rw [List.length_append,List.length_cons] at count
  have row := shows_.row
  refine ⟨by omega,shows_.fits,?_,by omega,?_⟩
  · intro r below
    rw [shows_.count] at below
    exact ⟨_,shows_.short _ (List.getElem_mem below),(shows_.rows r _ (List.getElem?_eq_getElem below)).stop⟩
  · rw [shows_.len,shows_.col]
    exact shows_.inside

theorem Valid.shows (valid : Valid e) : ∃ pre l post c, Shows e pre l post c := by
  have total : (lineTexts e).length = e.lineCount := by simp [lineTexts]
  have below : e.cursorRow < (lineTexts e).length := by rw [total]; exact valid.row
  have split : (lineTexts e).take e.cursorRow ++ (lineTexts e)[e.cursorRow]::(lineTexts e).drop (e.cursorRow + 1) =
      lineTexts e := by rw [← List.drop_eq_getElem_cons below,List.take_append_drop]
  have rows : Holds (fun row s => Spells row s ∧ s.length < maxLineLen) e.lines (lineTexts e) := by
    intro i s found
    obtain ⟨inside,rfl⟩ := List.getElem?_eq_some_iff.mp found
    rw [total] at inside
    simp only [lineTexts,List.getElem_map,List.getElem_range]
    exact spells_textOf (valid.ends i inside)
  refine ⟨(lineTexts e).take e.cursorRow,(lineTexts e)[e.cursorRow],(lineTexts e).drop (e.cursorRow + 1),
    e.cursorCol,?_,?_,?_,valid.fewLines,?_,rfl,?_⟩
  · rw [split]
    exact fun i s found => (rows i s found).1
  · rw [split]
    intro m among
    obtain ⟨i,found⟩ := List.getElem?_of_mem among
    exact (rows i m found).2
  · rw [split,total]
  · rw [List.length_take_of_le (Nat.le_of_lt below)]
  · have line := rows _ _ (List.getElem?_eq_getElem below)
    rw [← strlen_spells line.1 line.2]
    exact valid.col

end

end SantOS.Sedit
