import SantOS.Stdio.Scanning
import SantOS.Vga.Wrapping

namespace SantOS.Stdio
open ByteMemory CStrings Vga
open Shell (int32 isDigit digitsToInt)

-- A cell where a key has been rubbed out, or none has been typed.
def Untyped (s t : Screen) (y x : Nat) : Prop := t.shows y x = 0x20 ∨ t.vgaBuffer (y*80 + x) = s.vgaBuffer (y*80 + x)

theorem Untyped.keep {s t u : Screen} {y x : Nat} (untyped : Untyped s t y x)
    (kept : u.vgaBuffer (y*80 + x) = t.vgaBuffer (y*80 + x)) :
    Untyped s u y x := by
  unfold Untyped Screen.shows at *
  simp only [vgaWidth] at *
  rw [kept]
  exact untyped

-- A text typed on a row of the screen s, in at most width columns from the cursor on.
structure Line (s t : Screen) (text : Str) (width : Nat) : Prop where
  column : t.cursorX = s.cursorX + text.length
  row : t.cursorY = s.cursorY
  cells : ∀ i < text.length, t.shows s.cursorY (s.cursorX + i) = (text.getD i 0).toNat
  behind : ∀ i, text.length ≤ i → i < width → Untyped s t s.cursorY (s.cursorX + i)
  others : ∀ k, (k < s.cursorY*80 + s.cursorX ∨ s.cursorY*80 + s.cursorX + width ≤ k) → t.vgaBuffer k = s.vgaBuffer k

def Echoes (echo text : Str) (width : Nat) : Prop :=
  ∀ s : Screen, s.cursorY < 25 → s.cursorX + width < 80 → Line s (echo.foldl vgaPutchar s) text width

section Rows
variable {s : Screen}

theorem settled (row : s.cursorY < 25) (column : s.cursorX < 80) : scrollLine (wrapLine s) = s := by
  rw [wrapLine_same column]
  exact if_neg (Nat.not_le.mpr row)

theorem putchar_printable (row : s.cursorY < 25) (column : s.cursorX + 1 < 80) (printable : Printable c) :
    vgaPutchar s c = vgaUpdateCursor {s.poke (s.cursorY*80 + s.cursorX) (vgaEntry c s.currentColor) with
      cursorX := s.cursorX + 1} := by
  rw [vgaPutchar,putChar_printable s printable ⟨Nat.lt_of_succ_lt column,row⟩]
  exact congrArg vgaUpdateCursor (settled (s := {s.poke _ _ with cursorX := s.cursorX + 1}) row column)

theorem putchar_backspace (row : s.cursorY < 25) (column : s.cursorX < 80) (some_ : 0 < s.cursorX) :
    (vgaPutchar s 8).cursorX = s.cursorX - 1 ∧ (vgaPutchar s 8).cursorY = s.cursorY ∧
    (vgaPutchar s 8).shows s.cursorY (s.cursorX - 1) = 0x20 ∧
    ∀ k, k ≠ s.cursorY*80 + (s.cursorX - 1) → (vgaPutchar s 8).vgaBuffer k = s.vgaBuffer k := by
  have moved : putChar s 8 = {s with cursorX := s.cursorX - 1}.poke (s.cursorY*80 + (s.cursorX - 1))
      (vgaEntry 0x20 s.currentColor) := by
    simp [putChar,some_]
  have inside : s.cursorX - 1 < 80 := by omega
  have stays := settled (s := {s with cursorX := s.cursorX - 1}.poke (s.cursorY*80 + (s.cursorX - 1))
    (vgaEntry 0x20 s.currentColor)) row inside
  rw [vgaPutchar,moved,stays]
  refine ⟨rfl,rfl,?_,fun k other => Function.update_of_ne other _ _⟩
  show Function.update s.vgaBuffer _ _ (s.cursorY*80 + (s.cursorX - 1)) % 2^8 = 0x20
  rw [Function.update_self]
  exact vgaEntry_char _ (by decide)

theorem putchar_space (row : s.cursorY < 25) (column : s.cursorX + 1 < 80) :
    (vgaPutchar s 0x20).cursorX = s.cursorX + 1 ∧ (vgaPutchar s 0x20).cursorY = s.cursorY ∧
    ∀ k, k ≠ s.cursorY*80 + s.cursorX → (vgaPutchar s 0x20).vgaBuffer k = s.vgaBuffer k := by
  rw [putchar_printable row column ⟨by decide,by decide⟩]
  exact ⟨rfl,rfl,fun k other => Function.update_of_ne other _ _⟩

-- Back, a space, and back again: only the cell before the cursor changes, to a blank.
theorem rubOut_moves (row : s.cursorY < 25) (column : s.cursorX < 80) (some_ : 0 < s.cursorX) :
    (rubOut.foldl vgaPutchar s).cursorX = s.cursorX - 1 ∧ (rubOut.foldl vgaPutchar s).cursorY = s.cursorY ∧
    (rubOut.foldl vgaPutchar s).shows s.cursorY (s.cursorX - 1) = 0x20 ∧
    ∀ k, k ≠ s.cursorY*80 + (s.cursorX - 1) → (rubOut.foldl vgaPutchar s).vgaBuffer k = s.vgaBuffer k := by
  have all : rubOut.foldl vgaPutchar s = vgaPutchar (vgaPutchar (vgaPutchar s 8) 0x20) 8 := rfl
  rw [all]
  obtain ⟨column1,row1,_,cells1⟩ := putchar_backspace row column some_
  generalize vgaPutchar s 8 = t at *
  obtain ⟨column2,row2,cells2⟩ := putchar_space (s := t) (by omega) (by omega)
  generalize vgaPutchar t 0x20 = u at *
  obtain ⟨column3,row3,blank3,cells3⟩ := putchar_backspace (s := u) (by omega) (by omega) (by omega)
  generalize vgaPutchar u 8 = w at *
  have rowU : u.cursorY = s.cursorY := row2.trans row1
  have columnU : u.cursorX - 1 = s.cursorX - 1 := by omega
  rw [rowU,columnU] at blank3
  refine ⟨by omega,by omega,blank3,fun k other => ?_⟩
  rw [cells3 k (by omega),cells2 k (by omega),cells1 k other]

end Rows

section Lines
variable {s t : Screen} {text : Str} {width : Nat}

theorem Line.none (s : Screen) (width : Nat) : Line s s [] width :=
  ⟨rfl,rfl,fun _ inside => absurd inside (Nat.not_lt_zero _),fun _ _ _ => .inr rfl,fun _ _ => rfl⟩

theorem Line.push (line : Line s t text width) (row : s.cursorY < 25) (room : s.cursorX + width < 80)
    (short : text.length < width) (printable : Printable c) : Line s (vgaPutchar t c) (text ++ [c]) width := by
  rw [putchar_printable (by rw [line.row]; exact row) (by rw [line.column]; omega) printable,line.row,line.column]
  have longer : (text ++ [c]).length = text.length + 1 := by rw [List.length_append,List.length_singleton]
  refine ⟨?_,line.row,?_,?_,?_⟩
  · rw [longer]
    exact Nat.add_assoc ..
  · intro i inside
    rw [longer] at inside
    show Function.update t.vgaBuffer _ _ (s.cursorY*80 + (s.cursorX + i)) % 2^8 = _
    by_cases last : i = text.length
    · rw [last,List.getD_append_right _ _ _ _ (Nat.le_refl _),Nat.sub_self,Function.update_self]
      exact vgaEntry_char _ printable.plain.2.2.2.2.2
    · rw [Function.update_of_ne (by omega),List.getD_append _ _ _ _ (by omega)]
      exact line.cells i (by omega)
  · intro i beyond inside
    rw [longer] at beyond
    exact (line.behind i (by omega) inside).keep (Function.update_of_ne (by omega) _ _)
  · intro k outside
    refine (Function.update_of_ne ?_ _ _).trans (line.others k outside)
    omega

theorem Line.rub (line : Line s t text width) (row : s.cursorY < 25) (room : s.cursorX + width < 80)
    (some_ : 0 < text.length) (short : text.length ≤ width) :
    Line s (rubOut.foldl vgaPutchar t) text.dropLast width := by
  have column := line.column
  have place := line.row
  have shorter : text.dropLast.length = text.length - 1 := List.length_dropLast
  obtain ⟨back,stays,blank,cells⟩ := rubOut_moves (s := t) (by omega) (by omega) (by omega)
  rw [place,column] at cells blank
  refine ⟨by omega,by omega,?_,?_,?_⟩
  · intro i inside
    rw [shorter] at inside
    have kept : text.dropLast.getD i 0 = text.getD i 0 := by
      rw [List.dropLast_eq_take,List.getD_eq_getElem?_getD,List.getD_eq_getElem?_getD,List.getElem?_take_of_lt inside]
    rw [kept,← line.cells i (by omega)]
    exact congrArg (· % 2^8) (cells _ (by simp only [vgaWidth]; omega))
  · intro i beyond inside
    by_cases last : i = text.length - 1
    · have cell : s.cursorX + i = s.cursorX + text.length - 1 := by omega
      rw [cell]
      exact .inl blank
    · exact (line.behind i (by omega) inside).keep (cells _ (by omega))
  · intro k outside
    exact (cells k (by omega)).trans (line.others k outside)

theorem Line.typed {limit : Nat} {keys : Str} (line : Line s t text width) (row : s.cursorY < 25)
    (room : s.cursorX + width < 80)
    (short : text.length + keys.length ≤ width) (printable : ∀ c ∈ keys, rubs c = true ∨ Printable c) :
    Line s ((echoed limit text keys).foldl vgaPutchar t) (keys.foldl (pressed limit) text) width := by
  induction keys generalizing t text with
  | nil => exact line
  | cons c keys ih =>
    rw [List.length_cons] at short
    have later : ∀ c ∈ keys, rubs c = true ∨ Printable c := fun c member => printable c (List.mem_cons_of_mem _ member)
    have step : Line s ((echoOf limit text c).foldl vgaPutchar t) (pressed limit text c) width := by
      unfold echoOf pressed
      rcases printable c List.mem_cons_self with rub | drawn
      · rw [if_pos rub,if_pos rub]
        by_cases some_ : text.length > 0
        · rw [if_pos some_]
          exact line.rub row room some_ (by omega)
        · have empty : text = [] := List.length_eq_zero_iff.mp (Nat.eq_zero_of_not_pos some_)
          rw [if_neg some_,empty]
          rw [empty] at line
          exact line
      · have noRub : ¬ rubs c = true := by
          have other := drawn.plain.2.2.1
          have top := drawn.2
          intro rub
          rcases Bool.or_eq_true_iff.mp rub with eight | delete
          · exact other (by simpa using eight)
          · rw [show c = 127 by simpa using delete] at top
            exact absurd top (by decide)
        rw [if_neg noRub,if_neg noRub]
        split
        · exact line.push row room (by omega) drawn
        · exact line
    have size := pressed_length limit text c
    rw [echoed,List.foldl_append,List.foldl_cons]
    exact ih step (by omega) later

theorem typed_echoes (limit : Nat) {keys : Str} (printable : ∀ c ∈ keys, rubs c = true ∨ Printable c) :
    Echoes (echoed limit [] keys) (corrected limit keys) keys.length := fun s row room =>
  (Line.none s keys.length).typed row room (by rw [List.length_nil]; omega) printable

theorem Echoes.nothing : Echoes [] [] 0 := fun s _ _ => .none s 0

theorem Echoes.append {echo later text more : Str} {width n : Nat} (first : Echoes echo text width)
    (short : text.length ≤ width)
    (second : Echoes later more n) : Echoes (echo ++ later) (text ++ more) (width + n) := by
  intro s row room
  have one := first s row (by omega)
  have two := second (echo.foldl vgaPutchar s) (by rw [one.row]; exact row) (by rw [one.column]; omega)
  rw [List.foldl_append]
  have column := one.column
  have place := one.row
  refine ⟨?_,two.row.trans place,?_,?_,?_⟩
  · rw [two.column,column,List.length_append]
    omega
  · intro i inside
    rw [List.length_append] at inside
    by_cases before : i < text.length
    · rw [List.getD_append _ _ _ _ before,← one.cells i before]
      exact congrArg (· % 2^8) (two.others _ (by simp only [vgaWidth]; omega))
    · have cell := two.cells (i - text.length) (by omega)
      have index : s.cursorX + text.length + (i - text.length) = s.cursorX + i := by omega
      rw [place,column,index] at cell
      rw [List.getD_append_right _ _ _ _ (by omega)]
      exact cell
  · intro i beyond inside
    rw [List.length_append] at beyond
    have untyped : Untyped s (echo.foldl vgaPutchar s) s.cursorY (s.cursorX + i) := by
      by_cases before : i < width
      · exact one.behind i (by omega) before
      · exact .inr (one.others _ (.inr (by omega)))
    have index : s.cursorX + text.length + (i - text.length) = s.cursorX + i := by omega
    by_cases before : i - text.length < n
    · have cell := two.behind (i - text.length) (by omega) before
      rw [place,column,index] at cell
      rcases cell with blank | kept
      · exact .inl blank
      · exact untyped.keep kept
    · exact untyped.keep (two.others _ (by omega))
  · intro k outside
    exact (two.others k (by omega)).trans (one.others k (by omega))

end Lines

end SantOS.Stdio
