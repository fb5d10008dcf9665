import SantOS.Library.WrappedText
import SantOS.Vga.Screen

namespace SantOS.Vga
open WrappedText

def OnScreen (s : Screen) : Prop := s.cursorX < 80 ∧ s.cursorY < 25

theorem tab_stop (x : Nat) (inside : x < 80) : ((x+4) &&& (2^32 - 4)) % 2^8 ≤ 80 := by
  revert x
  decide +kernel

-- A character moves the cursor past the last column or below the last row, but not both.
def Near (s : Screen) : Prop := (s.cursorX ≤ 80 ∧ s.cursorY < 25) ∨ (s.cursorX < 80 ∧ s.cursorY ≤ 25)

theorem putChar_near (on : OnScreen s) (c : UInt8) : StoredInside s (putChar s c) ∧ Near (putChar s c) := by
  obtain ⟨column,row⟩ := on
  unfold putChar
  split
  · refine ⟨.same rfl,.inr ⟨by simp,?_⟩⟩
    dsimp only
    omega
  split
  · exact ⟨.same rfl,.inl ⟨by simp,row⟩⟩
  split
  · split
    · refine ⟨?_,.inl ⟨?_,row⟩⟩
      · exact (StoredInside.same rfl).trans (poke_inside _ _ (by simp only [vgaWidth]; omega))
      · show s.cursorX - 1 ≤ 80
        omega
    · exact ⟨.same rfl,.inl ⟨by omega,row⟩⟩
  split
  · split
    · refine ⟨.same rfl,.inl ⟨?_,row⟩⟩
      dsimp only
      omega
    · exact ⟨.same rfl,.inl ⟨by omega,row⟩⟩
  split
  · exact ⟨.same rfl,.inl ⟨tab_stop _ column,row⟩⟩
  split
  · refine ⟨?_,.inl ⟨?_,row⟩⟩
    · exact (poke_inside s (vgaEntry c s.currentColor) (by simp only [vgaWidth]; omega)).trans (.same rfl)
    · show (s.cursorX + 1) % 2^8 ≤ 80
      omega
  · exact ⟨.same rfl,.inl ⟨by omega,row⟩⟩

theorem wrapLine_near (near : Near s) : StoredInside s (wrapLine s) ∧ (wrapLine s).cursorX < 80 ∧ (wrapLine s).cursorY ≤ 25 := by
  unfold Near at near
  by_cases full : s.cursorX ≥ 80
  · rw [wrapLine,if_pos full]
    refine ⟨.same rfl,by simp,?_⟩
    dsimp only
    omega
  · rw [wrapLine,if_neg full]
    exact ⟨.same rfl,by omega,by omega⟩

theorem scrollLine_on (column : s.cursorX < 80) : StoredInside s (scrollLine s) ∧ OnScreen (scrollLine s) := by
  by_cases bottom : s.cursorY ≥ 25
  · have scrolled := vgaScroll_spec s
    rw [scrollLine,if_pos bottom]
    refine ⟨scrolled.inside,?_,?_⟩
    · rw [scrolled.column]
      exact column
    · rw [scrolled.row]
      decide
  · rw [scrollLine,if_neg bottom]
    exact ⟨.same rfl,column,by omega⟩

theorem putchar_on_screen (on : OnScreen s) (c : UInt8) : StoredInside s (vgaPutchar s c) ∧ OnScreen (vgaPutchar s c) := by
  obtain ⟨put,near⟩ := putChar_near on c
  obtain ⟨wrapped,column,_⟩ := wrapLine_near near
  obtain ⟨scrolled,placed⟩ := scrollLine_on column
  exact ⟨((put.trans wrapped).trans scrolled).trans (.same rfl),placed⟩

theorem putchar_location (on : OnScreen s) (c : UInt8) :
    256*(vgaPutchar s c).locationHigh + (vgaPutchar s c).locationLow =
      (vgaPutchar s c).cursorY*80 + (vgaPutchar s c).cursorX := by
  have placed := (putchar_on_screen on c).2
  unfold vgaPutchar vgaUpdateCursor at *
  generalize scrollLine (wrapLine (putChar s c)) = t at placed ⊢
  obtain ⟨column,row⟩ : t.cursorX < 80 ∧ t.cursorY < 25 := placed
  have low : ∀ n : Nat, n &&& 0xFF = n % 2^8 := fun n => Nat.and_two_pow_sub_one_eq_mod n 8
  simp only [low,Nat.shiftRight_eq_div_pow,vgaWidth]
  omega

theorem text_on_screen (on : OnScreen s) (text : List UInt8) :
    StoredInside s (text.foldl vgaPutchar s) ∧ OnScreen (text.foldl vgaPutchar s) := by
  induction text generalizing s with
  | nil => exact ⟨.same rfl,on⟩
  | cons c rest ih =>
    obtain ⟨first,placed⟩ := putchar_on_screen on c
    obtain ⟨later,still⟩ := ih placed
    exact ⟨first.trans later,still⟩

-- The screen shows the last rows of a text, padded with spaces, and the cursor is behind its
-- last character.
structure Displays (s : Screen) (rows : List (List UInt8)) : Prop where
  cells : ∀ y < 25, ∀ x < 80, s.shows y x = (cell 0x20 (shown 25 rows) y x).toNat
  row : s.cursorY + 1 = (shown 25 rows).length
  column : s.cursorX = (rows.getLastD []).length

def newline (c : UInt8) : Bool := c = 0x0A
def Printable (c : UInt8) : Prop := 32 ≤ c ∧ c ≤ 126

theorem cleared_displays (s : Screen) : Displays (vgaClear s) [[]] := by
  refine ⟨?_,rfl,rfl⟩
  intro y row x column
  have blank : cell (0x20 : UInt8) (shown 25 [[]]) y x = 0x20 := by
    cases y with
    | zero => rfl
    | succ y => exact cell_below _ _ (by simp [shown])
  rw [blank,Screen.shows,vgaClear_cell s (by simp only [vgaWidth]; omega)]
  exact vgaEntry_char _ (by decide)

theorem next_row_displays (displays : Displays s rows) (on : s.cursorY < 25) :
    Displays (scrollLine {s with cursorX := 0, cursorY := (s.cursorY + 1) % 2^8}) (rows ++ [[]]) := by
  obtain ⟨cells,row,_⟩ := displays
  have many : (shown 25 rows).length = min rows.length 25 := shown_length rows
  have shownRows : shown 25 (rows ++ [[]]) = shown 24 rows ++ [[]] := shown_last rows []
  rw [scrollLine]
  by_cases bottom : s.cursorY = 24
  · have scrolled := vgaScroll_spec {s with cursorX := 0, cursorY := (s.cursorY + 1) % 2^8}
    rw [if_pos (by simp [bottom])]
    have upper : shown 24 rows = (shown 25 rows).drop 1 := shown_fewer (by omega)
    have length : (shown 24 rows).length = 24 := by
      rw [upper,List.length_drop]
      omega
    refine ⟨?_,?_,?_⟩
    · intro y low x column
      rw [shownRows]
      by_cases last : y = 24
      · have pad : cell (0x20 : UInt8) (shown 24 rows ++ [[]]) 24 x = 0x20 := by
          rw [cell_last x length.symm]
          rfl
        rw [last,pad,Screen.shows,scrolled.blank _ (by simp only [vgaWidth]; omega) (by simp only [vgaWidth]; omega)]
        exact vgaEntry_char _ (by decide)
      · rw [cell_above _ _ (by omega),upper,cell_drop,← cells (y+1) (by omega) x column,Screen.shows,
          scrolled.moved _ (by simp only [vgaWidth]; omega),Screen.shows]
        simp only [vgaWidth]
        congr 2
        omega
    · rw [scrolled.row,shownRows,List.length_append,length]
      rfl
    · rw [scrolled.column]
      simp
  · have aboveBottom : ¬ (s.cursorY + 1) % 2^8 ≥ 25 := by omega
    rw [if_neg aboveBottom]
    have few : shown 25 rows = rows := shown_all (by omega)
    have upper : shown 24 rows = rows := shown_all (by omega)
    rw [few] at cells row
    refine ⟨?_,?_,by simp⟩
    · intro y low x column
      rw [shownRows,upper]
      refine (cells y low x column).trans (congrArg UInt8.toNat ?_)
      rcases Nat.lt_trichotomy y rows.length with before | here | behind
      · exact (cell_above _ _ before).symm
      · rw [cell_last x here]
        exact cell_below y x (Nat.le_of_eq here.symm)
      · rw [cell_below y x (Nat.le_of_lt behind),cell_below y x (by rw [List.length_append]; exact behind)]
    · rw [shownRows,upper,List.length_append,← row]
      show (s.cursorY + 1) % 2^8 + 1 = _
      rw [Nat.mod_eq_of_lt (by omega)]
      rfl

theorem Printable.plain (printable : Printable c) : c ≠ 0x0A ∧ c ≠ 0x0D ∧ c ≠ 0x08 ∧ c ≠ 0x1D ∧ c ≠ 0x09 ∧ c < 0x80 := by
  obtain ⟨low,high⟩ := printable
  simp only [UInt8.le_iff_toNat_le,UInt8.lt_iff_toNat_lt,ne_eq,← UInt8.toNat_inj] at low high ⊢
  simp at low high ⊢
  omega

theorem putChar_printable (s : Screen) (printable : Printable c) (on : OnScreen s) :
    putChar s c = {s.poke (s.cursorY*80 + s.cursorX) (vgaEntry c s.currentColor) with cursorX := s.cursorX + 1} := by
  obtain ⟨one,two,three,four,five,_⟩ := printable.plain
  have small : (s.cursorX + 1) % 2^8 = s.cursorX + 1 := Nat.mod_eq_of_lt (by have := on.1; omega)
  have drawn : 32 ≤ c ∧ c ≤ 126 := printable
  rw [putChar,if_neg one,if_neg two,if_neg three,if_neg four,if_neg five,if_pos drawn]
  show ({s.poke _ _ with cursorX := (s.cursorX + 1) % 2^8} : Screen) = _
  rw [small]

theorem print_displays (displays : Displays s (above ++ [last])) (on : OnScreen s) (printable : Printable c) :
    Displays (putChar s c) (above ++ [last ++ [c]]) := by
  obtain ⟨cells,row,column⟩ := displays
  have shownRows : ∀ l : List UInt8, shown 25 (above ++ [l]) = shown 24 above ++ [l] := shown_last above
  rw [shownRows] at cells row
  rw [putChar_printable s printable on]
  have upper : (shown 24 above).length = s.cursorY := by
    rw [List.length_append,List.length_singleton] at row
    omega
  have here : last.length = s.cursorX := by
    rw [column]
    simp
  refine ⟨?_,?_,?_⟩
  · intro y low x small
    have before := cells y low x small
    rw [shownRows]
    show Function.update s.vgaBuffer (s.cursorY*80 + s.cursorX) _ (y*80 + x) % 2^8 = _
    by_cases current : y = (shown 24 above).length
    · rw [cell_last x current] at before ⊢
      by_cases cursor : x = last.length
      · have index : y*80 + x = s.cursorY*80 + s.cursorX := by omega
        rw [cursor,List.getD_append_right _ _ _ _ (Nat.le_refl _),Nat.sub_self,← cursor,index,Function.update_self]
        exact vgaEntry_char _ printable.plain.2.2.2.2.2
      · rw [Function.update_of_ne (by omega)]
        refine before.trans (congrArg UInt8.toNat ?_)
        by_cases left : x < last.length
        · rw [List.getD_append _ _ _ _ left]
        · rw [List.getD_eq_default _ _ (by omega),List.getD_eq_default _ _ (by rw [List.length_append,List.length_singleton]; omega)]
    · rw [Function.update_of_ne (by have := on.1; omega)]
      refine before.trans (congrArg UInt8.toNat ?_)
      rcases Nat.lt_or_gt_of_ne current with earlier | later
      · rw [cell_above _ _ earlier,cell_above _ _ earlier]
      · rw [cell_below y x (by rw [List.length_append]; exact later),cell_below y x (by rw [List.length_append]; exact later)]
  · rw [shownRows,List.length_append,upper]
    rfl
  · simp [here]

theorem wrapLine_same (column : s.cursorX < 80) : wrapLine s = s := if_neg (by simp only [vgaWidth]; omega)

theorem update_displays (displays : Displays s rows) : Displays (vgaUpdateCursor s) rows :=
  ⟨displays.cells,displays.row,displays.column⟩

theorem putchar_displays (displays : Displays s (above ++ [last])) (on : OnScreen s) (plain : c = 0x0A ∨ Printable c) :
    ∃ above' last', (∀ rest, above ++ wrap 80 newline last (c::rest) = above' ++ wrap 80 newline last' rest) ∧
      Displays (vgaPutchar s c) (above' ++ [last']) := by
  obtain ⟨column,row⟩ := on
  have length : last.length = s.cursorX := by
    rw [displays.column]
    simp
  rcases plain with rfl | printable
  · refine ⟨above ++ [last],[],fun rest => by simp [wrap,newline],update_displays ?_⟩
    have put : putChar s 0x0A = {s with cursorX := 0, cursorY := (s.cursorY + 1) % 2^8} := if_pos rfl
    rw [put,wrapLine_same (by simp)]
    exact next_row_displays displays row
  · have other : newline c = false := by simp [newline,printable.plain.1]
    have printed := print_displays displays ⟨column,row⟩ printable
    by_cases room : last.length + 1 < 80
    · refine ⟨above,last ++ [c],fun rest => by simp [wrap,other,room],update_displays ?_⟩
      have stays : wrapLine (putChar s c) = putChar s c := by
        refine wrapLine_same ?_
        rw [printed.column,List.getLastD_concat,List.length_append]
        exact room
      have unscrolled : scrollLine (putChar s c) = putChar s c := by
        refine if_neg ?_
        rw [putChar_printable s printable ⟨column,row⟩]
        exact Nat.not_le_of_lt row
      rw [stays,unscrolled]
      exact printed
    · refine ⟨above ++ [last ++ [c]],[],fun rest => by simp [wrap,other,room],update_displays ?_⟩
      have full : (putChar s c).cursorX ≥ 80 := by
        rw [printed.column,List.getLastD_concat,List.length_append]
        exact Nat.le_of_not_lt room
      have height : (putChar s c).cursorY < 25 := by
        rw [putChar_printable s printable ⟨column,row⟩]
        exact row
      rw [wrapLine,if_pos full]
      exact next_row_displays printed height

theorem text_displays (displays : Displays s (above ++ [last])) (on : OnScreen s)
    (plain : ∀ c ∈ text, c = 0x0A ∨ Printable c) :
    Displays (text.foldl vgaPutchar s) (above ++ wrap 80 newline last text) := by
  induction text generalizing s above last with
  | nil => exact displays
  | cons c rest ih =>
    obtain ⟨above',last',more,shows_⟩ := putchar_displays displays on (plain c List.mem_cons_self)
    rw [more]
    exact ih shows_ (putchar_on_screen on c).2 (fun d member => plain d (List.mem_cons_of_mem _ member))

-- From a cleared screen on, every cell stored and the cursor stay on the screen, and a text
-- of printable characters and newlines is what the screen shows.
theorem screen_shows_text (s : Screen) (text : List UInt8) :
    StoredInside (vgaClear s) (text.foldl vgaPutchar (vgaClear s)) ∧
      OnScreen (text.foldl vgaPutchar (vgaClear s)) ∧
      ((∀ c ∈ text, c = 0x0A ∨ Printable c) → Displays (text.foldl vgaPutchar (vgaClear s)) (wrap 80 newline [] text)) := by
  have on : OnScreen (vgaClear s) := ⟨by simp [vgaClear],by simp [vgaClear]⟩
  obtain ⟨inside,placed⟩ := text_on_screen on text
  have start : Displays (vgaClear s) ([] ++ [[]]) := cleared_displays s
  exact ⟨inside,placed,text_displays start on⟩

end SantOS.Vga
