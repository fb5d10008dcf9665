import SantOS.Sedit.Buffers

namespace SantOS.Sedit
open ArrayShifts CStrings FlatText

section
variable {e : Editor} {row : Row} {s a b l m : Str} {pre post : List Str} {x : UInt8} {c : Nat}

-- Only the scroll offsets may differ.
def Scrolled (e e' : Editor) : Prop := ∃ r c, e' = {e with scrollRow := r, scrollCol := c}

theorem Scrolled.to_row {p : Prop} [Decidable p] (scrolled : Scrolled e e') (r : Nat) :
    Scrolled e (if p then {e' with scrollRow := r} else e') := by
  obtain ⟨_,c,rfl⟩ := scrolled
  split
  · exact ⟨r,c,rfl⟩
  · exact ⟨_,c,rfl⟩

theorem Scrolled.to_col {p : Prop} [Decidable p] (scrolled : Scrolled e e') (c : Nat) :
    Scrolled e (if p then {e' with scrollCol := c} else e') := by
  obtain ⟨r,_,rfl⟩ := scrolled
  split
  · exact ⟨r,c,rfl⟩
  · exact ⟨r,_,rfl⟩

theorem visible_same (e : Editor) : Scrolled e (ensureCursorVisible e) := by
  have start : Scrolled e e := ⟨e.scrollRow,e.scrollCol,rfl⟩
  exact (((start.to_row _).to_row _).to_col _).to_col _

theorem Shows.visible (shows_ : Shows e pre l post c) : Shows (ensureCursorVisible e) pre l post c := by
  obtain ⟨r,k,same⟩ := visible_same e
  rw [same]
  exact ⟨shows_.rows,shows_.short,shows_.count,shows_.fits,shows_.row,shows_.col,shows_.inside⟩

theorem Shows.moved (shows_ : Shows e pre l post c) (pre' : List Str) (l' : Str) (post' : List Str)
    (same : pre' ++ l'::post' = pre ++ l::post) (inside : c' ≤ l'.length) :
    Shows {e with cursorRow := pre'.length, cursorCol := c'} pre' l' post' c' := by
  refine ⟨?_,?_,?_,shows_.fits,rfl,rfl,inside⟩
  · rw [same]
    exact shows_.rows
  · rw [same]
    exact shows_.short
  · rw [same]
    exact shows_.count

theorem Shows.cell_at (shows_ : Shows e (pre ++ [m]) l post c) : Spells (e.lines pre.length) m ∧ m.length < maxLineLen :=
  ⟨shows_.rows _ _ (by simp),shows_.short m (by simp)⟩

theorem Shows.clamped (shows_ : Shows e pre l post l.length) (wanted : Nat) :
    Shows (clampCursorCol {e with cursorCol := wanted}) pre l post (min wanted l.length) := by
  have len : strlen (e.lines e.cursorRow) = l.length := shows_.len
  unfold clampCursorCol
  dsimp only
  rw [len]
  have atCol : ∀ k ≤ l.length, Shows {e with cursorCol := k} pre l post k := by
    intro k le
    have there := shows_.moved _ _ _ rfl le
    rwa [← shows_.row] at there
  by_cases past : l.length < wanted
  · rw [if_pos past,Nat.min_eq_right (Nat.le_of_lt past)]
    exact atCol _ (Nat.le_refl _)
  · rw [if_neg past,Nat.min_eq_left (by omega)]
    exact atCol _ (by omega)

theorem up_shows (shows_ : Shows e (pre ++ [m]) l post c) : Shows (pressUp e) pre m (l::post) (min c m.length) := by
  have row : e.cursorRow = pre.length + 1 := by rw [shows_.row]; simp
  unfold pressUp
  rw [if_pos (by omega)]
  apply Shows.visible
  have there := (shows_.moved pre m (l::post) (by simp) (Nat.le_refl _)).clamped c
  rw [row,← shows_.col]
  rw [← shows_.col] at there
  exact there

theorem down_shows (shows_ : Shows e pre l (m::post) c) : Shows (pressDown e) (pre ++ [l]) m post (min c m.length) := by
  have row := shows_.row
  have count := shows_.count
  rw [List.length_append,List.length_cons,List.length_cons] at count
  unfold pressDown
  rw [if_pos (by omega)]
  apply Shows.visible
  have there := (shows_.moved (pre ++ [l]) m post (by simp) (Nat.le_refl _)).clamped c
  rw [List.length_append,List.length_singleton,← row,← shows_.col] at there
  rw [← shows_.col]
  exact there

theorem left_shows (shows_ : Shows e pre l post (c+1)) : Shows (pressLeft e) pre l post c := by
  have col := shows_.col
  have inside := shows_.inside
  unfold pressLeft
  rw [if_pos (by omega),col,Nat.add_sub_cancel]
  apply Shows.visible
  have there := shows_.moved _ _ _ rfl (show c ≤ l.length by omega)
  rwa [← shows_.row] at there

theorem wrap_left_shows (shows_ : Shows e (pre ++ [m]) l post 0) : Shows (pressLeft e) pre m (l::post) m.length := by
  have row : e.cursorRow = pre.length + 1 := by rw [shows_.row]; simp
  have col := shows_.col
  unfold pressLeft
  rw [if_neg (by omega),if_pos (by omega),row,Nat.add_sub_cancel,strlen_spells shows_.cell_at.1 shows_.cell_at.2]
  apply Shows.visible
  exact shows_.moved _ _ _ (by simp) (Nat.le_refl _)

theorem right_shows (shows_ : Shows e pre l post c) (inside : c < l.length) : Shows (pressRight e) pre l post (c+1) := by
  unfold pressRight
  rw [shows_.len,shows_.col,if_pos inside]
  apply Shows.visible
  have there := shows_.moved _ _ _ rfl (show c + 1 ≤ l.length by omega)
  rwa [← shows_.row] at there

theorem wrap_right_shows (shows_ : Shows e pre l (m::post) l.length) : Shows (pressRight e) (pre ++ [l]) m post 0 := by
  have count := shows_.count
  rw [List.length_append,List.length_cons,List.length_cons] at count
  have row := shows_.row
  unfold pressRight
  rw [shows_.len,shows_.col,if_neg (by omega),if_pos (by omega)]
  apply Shows.visible
  have there := shows_.moved (pre ++ [l]) m post (by simp) (Nat.zero_le _)
  rwa [List.length_append,List.length_singleton,← row] at there

theorem Shows.edited (shows_ : Shows e pre l post c) (spells : Spells row s) (short : s.length < maxLineLen)
    (inside : c' ≤ s.length) :
    Shows {e with lines := Function.update e.lines e.cursorRow row, cursorCol := c', modified := true} pre s post c' := by
  refine ⟨?_,?_,?_,shows_.fits,shows_.row,rfl,inside⟩
  · dsimp only
    rw [shows_.row]
    exact shows_.rows.set spells
  · intro k among
    rcases List.mem_append.mp among with left | right
    · exact shows_.short k (List.mem_append_left _ left)
    · rcases List.mem_cons.mp right with rfl | right
      · exact short
      · exact shows_.short k (List.mem_append_right _ (List.mem_cons_of_mem _ right))
  · have count := shows_.count
    rw [List.length_append,List.length_cons] at count ⊢
    exact count

theorem insert_shows (shows_ : Shows e pre (a ++ b) post a.length) (room : (a ++ b).length < maxLineLen - 1)
    (nonzero : x ≠ 0) :
    Shows (insertChar e x) pre (a ++ x::b) post (a.length + 1) := by
  have total : (a ++ b).length = a.length + b.length := List.length_append
  have gap : a.length + b.length + 1 - a.length = b.length + 1 := by omega
  have made := spells_insert shows_.cursor_line.1 nonzero
  have grown : (a ++ x::b).length = a.length + b.length + 1 := by rw [List.length_append,List.length_cons]; omega
  unfold insertChar shiftRight
  dsimp only
  rw [shows_.len,if_pos room,shows_.col,total,gap]
  rw [total] at made
  apply Shows.visible
  exact shows_.edited made (by omega) (by omega)

theorem full_line_shows (shows_ : Shows e pre l post c) (full : ¬ l.length < maxLineLen - 1) : insertChar e x = e := by
  unfold insertChar
  dsimp only
  rw [shows_.len,if_neg full]

theorem delete_shows (shows_ : Shows e pre (a ++ x::b) post (a.length + 1)) :
    Shows (backspace e) pre (a ++ b) post a.length := by
  have line := shows_.cursor_line
  have total : (a ++ x::b).length = a.length + b.length + 1 := by rw [List.length_append,List.length_cons]; omega
  have left : (a ++ b).length = a.length + b.length := List.length_append
  have gap : a.length + b.length + 1 - a.length = b.length + 1 := by omega
  have col := shows_.col
  have closed := spells_remove line.1
  unfold backspace shiftLeft
  dsimp only
  rw [if_pos (by omega),shows_.len,col,Nat.add_sub_cancel,total,gap]
  apply Shows.visible
  exact shows_.edited closed (by omega) (by omega)

theorem join_shows (shows_ : Shows e (pre ++ [m]) l post 0) (fits : m.length + l.length < maxLineLen) :
    Shows (backspace e) pre (m ++ l) post m.length := by
  have row : e.cursorRow = pre.length + 1 := by rw [shows_.row]; simp
  have count : e.lineCount = pre.length + 2 + post.length := by
    rw [shows_.count]
    simp only [List.length_append,List.length_cons,List.length_nil]
    omega
  have before := shows_.cell_at
  have line := shows_.cursor_line
  have joinedLine := spells_strcat before.1 line.1 line.2
  have short : ∀ k ∈ pre ++ (m ++ l)::post, k.length < maxLineLen := by
    intro k among
    rcases List.mem_append.mp among with left | right
    · exact shows_.short k (by simp [left])
    · rcases List.mem_cons.mp right with rfl | right
      · rw [List.length_append]
        exact fits
      · exact shows_.short k (by simp [right])
  have rows := shows_.rows
  rw [List.append_assoc,List.singleton_append] at rows
  have changed := rows.set joinedLine
  rw [List.append_cons] at changed
  have closed := changed.remove strcpy fun dest src k among spells =>
    strcpy_spells spells (short k (List.mem_append_right _ (List.mem_cons_of_mem _ among))) dest
  unfold backspace
  rw [if_neg (by rw [shows_.col]; omega),if_pos (by omega),row,Nat.add_sub_cancel]
  dsimp only
  rw [← row,shows_.len,strlen_spells before.1 before.2,if_pos fits]
  apply Shows.visible
  unfold strcat shiftLinesUp
  rw [strlen_spells before.1 before.2,count,row,show pre.length + 2 + post.length - 1 - (pre.length + 1) = post.length by omega,
    show pre.length + 2 + post.length - 1 = pre.length + 1 + post.length by omega]
  rw [List.length_append,List.length_singleton,List.append_assoc,List.singleton_append,row] at closed
  refine ⟨?_,short,?_,?_,rfl,rfl,by simp⟩
  · intro i k found
    have below := (List.getElem?_eq_some_iff.mp found).1
    rw [List.length_append,List.length_cons] at below
    dsimp only
    rw [Function.update_of_ne (by omega)]
    exact closed i k found
  · rw [List.length_append,List.length_cons]
    dsimp only
    omega
  · have few := shows_.fits
    dsimp only
    omega

theorem long_join_shows (shows_ : Shows e (pre ++ [m]) l post 0) (long : ¬ m.length + l.length < maxLineLen) :
    backspace e = e := by
  have row : e.cursorRow = pre.length + 1 := by rw [shows_.row]; simp
  have before := shows_.cell_at
  unfold backspace
  rw [if_neg (by rw [shows_.col]; omega),if_pos (by omega),row,Nat.add_sub_cancel]
  dsimp only
  rw [← row,shows_.len,strlen_spells before.1 before.2,if_neg long]

theorem enter_shows (shows_ : Shows e pre (a ++ b) post a.length) (room : e.lineCount < maxLines) :
    Shows (enter e) (pre ++ [a]) b post 0 := by
  have row := shows_.row
  have line := shows_.cursor_line
  have total : (a ++ b).length = a.length + b.length := List.length_append
  have count : e.lineCount = pre.length + 1 + post.length := by
    rw [shows_.count,List.length_append,List.length_cons]
    omega
  have rows := shows_.rows
  rw [List.append_cons] at rows
  have counted : (pre ++ [a ++ b] ++ post).length = e.lineCount := by
    rw [count]
    simp only [List.length_append,List.length_singleton]
  -- the row of the cursor is above the shifted ones
  have still : shiftLinesDown e.lines e.lineCount post.length pre.length = e.lines pre.length := by
    unfold shiftLinesDown
    rw [raise_apply _ (by omega),if_neg (by omega)]
  have tail : Spells (fun i => shiftLinesDown e.lines e.lineCount post.length e.cursorRow (e.cursorCol + i)) b := by
    rw [row,still,shows_.col,← row]
    exact line.1.suffix
  have tailShort : b.length < maxLineLen := by omega
  have copied : Spells (strcpy (shiftLinesDown e.lines e.lineCount post.length (e.cursorRow + 1))
      (fun i => shiftLinesDown e.lines e.lineCount post.length e.cursorRow (e.cursorCol + i))) b :=
    strcpy_spells tail tailShort _
  have inserted := rows.insert strcpy (fun dest src k among spells =>
    strcpy_spells spells (shows_.short k (by simp [among])) dest) copied
  rw [counted,List.length_append,List.length_singleton,← row,List.append_assoc,List.singleton_append] at inserted
  have cut : Spells (Function.update (e.lines pre.length) a.length 0) a := by
    have taken := (row ▸ line.1 : Spells (e.lines pre.length) (a ++ b)).take (c := a.length) (by omega)
    rwa [List.take_left] at taken
  have finished := inserted.set cut
  unfold enter
  rw [if_pos room,show e.lineCount - (e.cursorRow + 1) = post.length by omega]
  apply Shows.visible
  refine ⟨?_,?_,?_,room,by simp [row],rfl,Nat.zero_le _⟩
  · rw [List.append_assoc,List.singleton_append]
    dsimp only
    rw [Function.update_of_ne (by omega),row,still,shows_.col]
    rw [row,still,shows_.col] at finished
    exact finished
  · intro k among
    rw [List.append_assoc,List.singleton_append] at among
    rcases List.mem_append.mp among with left | right
    · exact shows_.short k (by simp [left])
    · rcases List.mem_cons.mp right with rfl | right
      · omega
      · rcases List.mem_cons.mp right with rfl | right
        · exact tailShort
        · exact shows_.short k (by simp [right])
  · simp [count]
    omega

theorem full_buffer_shows (full : ¬ e.lineCount < maxLines) : enter e = e := by
  unfold enter
  rw [if_neg full]

end

end SantOS.Sedit
