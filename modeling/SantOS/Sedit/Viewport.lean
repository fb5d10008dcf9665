import SantOS.Sedit.Texts

namespace SantOS.Sedit
open CStrings Fat12

-- The cursor is in the 23 rows and 79 columns that the scroll offsets select.
structure InView (e : Editor) : Prop where
  rowFrom : e.scrollRow ≤ e.cursorRow
  rowTo : e.cursorRow ≤ e.scrollRow + 22
  colFrom : e.scrollCol ≤ e.cursorCol
  colTo : e.cursorCol ≤ e.scrollCol + 78

section
variable {e : Editor} {s : Session}

theorem visible_in_view (e : Editor) : InView (ensureCursorVisible e) := by
  unfold ensureCursorVisible screenRows screenCols
  generalize first : (if e.cursorRow < e.scrollRow then {e with scrollRow := e.cursorRow} else e) = up
  have rowFrom : up.scrollRow ≤ up.cursorRow := by
    rw [← first]
    split
    · exact Nat.le_refl _
    · omega
  dsimp only
  generalize second : (if up.cursorRow ≥ up.scrollRow + 24 - 1 then {up with scrollRow := up.cursorRow + 2 - 24} else up) = rows
  have inRows : rows.scrollRow ≤ rows.cursorRow ∧ rows.cursorRow ≤ rows.scrollRow + 22 := by
    rw [← second]
    split
    · dsimp only
      omega
    · omega
  generalize third : (if rows.cursorCol < rows.scrollCol then {rows with scrollCol := rows.cursorCol} else rows) = left
  have inLeft : left.scrollRow ≤ left.cursorRow ∧ left.cursorRow ≤ left.scrollRow + 22 ∧ left.scrollCol ≤ left.cursorCol := by
    rw [← third]
    split
    · exact ⟨inRows.1,inRows.2,Nat.le_refl _⟩
    · exact ⟨inRows.1,inRows.2,by omega⟩
  obtain ⟨rowFrom,rowTo,colFrom⟩ := inLeft
  split
  · exact ⟨rowFrom,rowTo,by dsimp only; omega,by dsimp only; omega⟩
  · exact ⟨rowFrom,rowTo,colFrom,by omega⟩

-- A branch that moves the cursor ends with ensure_cursor_visible.
def Fixed (e e' : Editor) : Prop := e' = e ∨ ∃ moved, e' = ensureCursorVisible moved

theorem up_fixed (e : Editor) : Fixed e (pressUp e) := by
  unfold pressUp
  split
  · exact .inr ⟨_,rfl⟩
  · exact .inl rfl

theorem down_fixed (e : Editor) : Fixed e (pressDown e) := by
  unfold pressDown
  split
  · exact .inr ⟨_,rfl⟩
  · exact .inl rfl

theorem left_fixed (e : Editor) : Fixed e (pressLeft e) := by
  unfold pressLeft
  split
  · exact .inr ⟨_,rfl⟩
  · split
    · exact .inr ⟨_,rfl⟩
    · exact .inl rfl

theorem right_fixed (e : Editor) : Fixed e (pressRight e) := by
  unfold pressRight
  dsimp only
  split
  · exact .inr ⟨_,rfl⟩
  · split
    · exact .inr ⟨_,rfl⟩
    · exact .inl rfl

theorem enter_fixed (e : Editor) : Fixed e (enter e) := by
  unfold enter
  split
  · exact .inr ⟨_,rfl⟩
  · exact .inl rfl

theorem backspace_fixed (e : Editor) : Fixed e (backspace e) := by
  unfold backspace
  dsimp only
  split
  · exact .inr ⟨_,rfl⟩
  · split
    · split
      · exact .inr ⟨_,rfl⟩
      · exact .inl rfl
    · exact .inl rfl

theorem insert_fixed (e : Editor) (x : UInt8) : Fixed e (insertChar e x) := by
  unfold insertChar
  dsimp only
  split
  · exact .inr ⟨_,rfl⟩
  · exact .inl rfl

theorem edit_fixed (edited : edit e c = some e') : Fixed e e' := by
  rcases edit_cases edited with ⟨_,rfl⟩ | ⟨_,rfl⟩ | ⟨_,rfl⟩ | ⟨_,rfl⟩ | ⟨_,rfl⟩ | ⟨_,rfl⟩ | ⟨_,rfl⟩
  · exact up_fixed e
  · exact down_fixed e
  · exact left_fixed e
  · exact right_fixed e
  · exact enter_fixed e
  · exact backspace_fixed e
  · exact insert_fixed e _

theorem Fixed.in_view (fixed : Fixed e e') (inside : InView e) : InView e' := by
  rcases fixed with rfl | ⟨moved,rfl⟩
  · exact inside
  · exact visible_in_view moved

-- What holds between two keys: the cursor's place on the screen is the one in the view.
structure Displayed (s : Session) : Prop where
  valid : Valid s.editor
  inside : InView s.editor
  place : s.cursorPos = cursorPlace s.editor

theorem press_displayed (displayed : Displayed s) (pressed : press s c = some s') : Displayed s' := by
  have valid := (press_text displayed.valid pressed).1
  rcases press_cases pressed with ⟨edited,place⟩ | ⟨_,same | same,place⟩
  · exact ⟨valid,(edit_fixed edited).in_view displayed.inside,place⟩
  · refine ⟨valid,same ▸ displayed.inside,?_⟩
    rcases place with kept | drawn
    · rw [kept,same]
      exact displayed.place
    · exact drawn
  · have inside := displayed.inside
    refine ⟨valid,?_,?_⟩
    · rw [same]
      exact ⟨inside.rowFrom,inside.rowTo,inside.colFrom,inside.colTo⟩
    · rcases place with kept | drawn
      · rw [kept,same]
        exact displayed.place
      · exact drawn

theorem run_displayed (displayed : Displayed s) (ran : keyLoop s keys = some s') : Displayed s' :=
  run_keeps (fun _ _ _ displayed pressed => press_displayed displayed pressed) displayed ran

theorem Valid.line_short (valid : Valid e) (below : r < e.lineCount) : strlen (e.lines r) ≤ 255 := by
  have text := spells_textOf (valid.ends r below)
  have short : (textOf (e.lines r)).length < 256 := text.2
  rw [strlen_spells text.1 text.2]
  omega

theorem InView.place (inside : InView e) : (cursorPlace e).1.toNat = e.cursorCol - e.scrollCol ∧
    (cursorPlace e).2.toNat = e.cursorRow - e.scrollRow := by
  have rowFrom := inside.rowFrom
  have rowTo := inside.rowTo
  have colFrom := inside.colFrom
  have colTo := inside.colTo
  unfold cursorPlace
  simp only [UInt8.ofInt,UInt8.toNat_ofNat']
  omega

theorem cursor_stays_in_view (valid : Valid s.editor) (first : s.editor.cursorRow = 0 ∧ s.editor.cursorCol = 0)
    (unscrolled : s.editor.scrollRow = 0 ∧ s.editor.scrollCol = 0) (drawn : s = redrawScreen s) (keys : List Int) :
    (19 ∉ keys → ∃ s', keyLoop s keys = some s') ∧ ∀ s', keyLoop s keys = some s' →
      (1 ≤ s'.editor.lineCount ∧ s'.editor.lineCount ≤ 1000) ∧ s'.editor.cursorRow < s'.editor.lineCount ∧
      s'.editor.cursorCol ≤ strlen (s'.editor.lines s'.editor.cursorRow) ∧
      strlen (s'.editor.lines s'.editor.cursorRow) ≤ 255 ∧ InView s'.editor ∧
      s'.cursorPos.1.toNat = s'.editor.cursorCol - s'.editor.scrollCol ∧
      s'.cursorPos.2.toNat = s'.editor.cursorRow - s'.editor.scrollRow ∧
      s'.cursorPos.1.toNat < 79 ∧ s'.cursorPos.2.toNat < 23 := by
  refine ⟨keys_return s,?_⟩
  intro s' ran
  have start : Displayed s := by
    refine ⟨valid,⟨?_,?_,?_,?_⟩,congrArg Session.cursorPos drawn⟩ <;> omega
  have final := run_displayed start ran
  have inside := final.inside
  have place := inside.place
  rw [← final.place] at place
  have rowTo := inside.rowTo
  have colTo := inside.colTo
  refine ⟨⟨final.valid.someLine,final.valid.fewLines⟩,final.valid.row,final.valid.col,
    final.valid.line_short final.valid.row,inside,place.1,place.2,?_,?_⟩ <;> omega

theorem cursor_stays_in_view_hi : ∃ s', keyLoop hello [104,13,105] = some s' ∧ s'.cursorPos = (1,1) ∧ InView s'.editor := by
  have both := cursor_stays_in_view (s := hello) empty_valid ⟨rfl,rfl⟩ ⟨rfl,rfl⟩ rfl [104,13,105]
  obtain ⟨s',ran⟩ := both.1 (by decide)
  have final := both.2 s' ran
  refine ⟨s',ran,?_,final.2.2.2.2.1⟩
  cases ran
  rfl

end

end SantOS.Sedit
