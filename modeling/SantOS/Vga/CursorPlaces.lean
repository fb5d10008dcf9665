import SantOS.Vga.Wrapping

namespace SantOS.Vga

-- Where the cursor would be on a screen that does not end: 80 times its row and its column.
-- A backspace stays in its row.
def advance (n : Nat) (c : UInt8) : Nat :=
  if c = 0x0A then (n/80 + 1)*80
  else if c = 0x0D then n/80*80
  else if c = 0x08 ∨ c = 0x1D then (if n % 80 > 0 then n - 1 else n)
  else if c = 0x09 then (n/4 + 1)*4
  else if 32 ≤ c ∧ c ≤ 126 then n + 1
  else n

def At (s : Screen) (n : Nat) : Prop := s.cursorX = n % 80 ∧ s.cursorY = min 24 (n/80)

theorem cleared_at (s : Screen) : At (vgaClear s) 0 := ⟨rfl,rfl⟩

theorem set_color_at (at_ : At s n) (fg bg : Nat) : At (vgaSetColor s fg bg) n := at_

structure Moved (t : Screen) (n m : Nat) : Prop where
  column : t.cursorX = m % 80
  rows : n/80 ≤ m/80 ∧ m/80 ≤ n/80 + 1
  row : t.cursorY = min 24 (n/80) + (m/80 - n/80)

theorem wrap_moved (column : t.cursorX = x) (inside : x ≤ 80) (row : t.cursorY = min 24 (n/80)) (place : n/80*80 + x = m) :
    Moved (wrapLine t) n m := by
  by_cases full : x = 80
  · have wraps : t.cursorX ≥ vgaWidth := Nat.le_of_eq (column.trans full).symm
    rw [wrapLine,if_pos wraps]
    refine ⟨?_,by omega,?_⟩
    · show 0 = m % 80
      omega
    · show (t.cursorY + 1) % 2^8 = _
      omega
  · rw [wrapLine_same (by omega)]
    exact ⟨by omega,by omega,by omega⟩

theorem tab_column (x : Nat) (inside : x < 80) : ((x+4) &&& (2^32 - 4)) % 2^8 = (x/4 + 1)*4 := by
  revert x
  decide +kernel

theorem putChar_moved (at_ : At s n) (c : UInt8) : Moved (wrapLine (putChar s c)) n (advance n c) := by
  obtain ⟨column,row⟩ := at_
  have inside : n % 80 < 80 := Nat.mod_lt _ (by decide)
  have place : n/80*80 + n % 80 = n := Nat.div_add_mod' n 80
  have stays : Moved (wrapLine s) n n := wrap_moved column (Nat.le_of_lt inside) row place
  unfold putChar advance
  split
  · rw [wrapLine_same (by simp)]
    refine ⟨?_,by omega,?_⟩
    · show 0 = (n/80 + 1)*80 % 80
      omega
    · show (s.cursorY + 1) % 2^8 = _
      omega
  split
  · exact wrap_moved rfl (Nat.zero_le _) row rfl
  by_cases erases : c = 0x08
  · have either : c = 0x08 ∨ c = 0x1D := .inl erases
    simp only [if_pos erases,if_pos either,column]
    split
    · next behind => exact wrap_moved (x := n % 80 - 1) rfl (by omega) row (by omega)
    · exact stays
  rw [if_neg erases]
  by_cases left : c = 0x1D
  · have either : c = 0x08 ∨ c = 0x1D := .inr left
    simp only [if_pos left,if_pos either,column]
    split
    · next behind => exact wrap_moved (x := n % 80 - 1) rfl (by omega) row (by omega)
    · exact stays
  have others : ¬ (c = 0x08 ∨ c = 0x1D) := not_or.mpr ⟨erases,left⟩
  rw [if_neg left,if_neg others]
  split
  · rw [column,tab_column _ inside]
    exact wrap_moved (x := (n % 80/4 + 1)*4) rfl (by omega) row (by omega)
  split
  · refine wrap_moved (x := n % 80 + 1) ?_ (by omega) row (by omega)
    show (s.cursorX + 1) % 2^8 = n % 80 + 1
    omega
  · exact stays

theorem scroll_at (moved : Moved t n m) : At (scrollLine t) m := by
  obtain ⟨column,rows,row⟩ := moved
  rw [scrollLine]
  split
  · next below =>
    have scrolled := vgaScroll_spec t
    refine ⟨scrolled.column.trans column,scrolled.row.trans ?_⟩
    simp only [vgaHeight] at below
    omega
  · next inside =>
    refine ⟨column,?_⟩
    simp only [vgaHeight] at inside
    omega

theorem putchar_at (at_ : At s n) (c : UInt8) : At (vgaPutchar s c) (advance n c) := scroll_at (putChar_moved at_ c)

theorem text_at (at_ : At s n) (text : List UInt8) : At (text.foldl vgaPutchar s) (text.foldl advance n) := by
  induction text generalizing s n with
  | nil => exact at_
  | cons c rest ih => exact ih (putchar_at at_ c)

def scrolls (s : Screen) : List UInt8 → Bool
  | [] => false
  | c::rest => decide ((wrapLine (putChar s c)).cursorY ≥ vgaHeight) || scrolls (vgaPutchar s c) rest

theorem advance_rows (n : Nat) (c : UInt8) : n/80 ≤ advance n c/80 := by
  unfold advance
  repeat' split
  all_goals omega

theorem advance_below (r n : Nat) (c : UInt8) : advance (80*r + n) c = 80*r + advance n c := by
  unfold advance
  have column : (80*r + n) % 80 = n % 80 := by omega
  rw [column]
  repeat' split
  all_goals omega

theorem text_below (r n : Nat) (text : List UInt8) : text.foldl advance (80*r + n) = 80*r + text.foldl advance n := by
  induction text generalizing n with
  | nil => rfl
  | cons c rest ih =>
    rw [List.foldl_cons,advance_below,ih]
    rfl

theorem text_rows (n : Nat) (text : List UInt8) : n/80 ≤ text.foldl advance n/80 := by
  induction text generalizing n with
  | nil => exact Nat.le_refl _
  | cons c rest ih => exact Nat.le_trans (advance_rows n c) (ih _)

theorem printed_columns (text : List UInt8) (printable : ∀ c ∈ text, Printable c) :
    text.foldl advance n = n + text.length := by
  induction text generalizing n with
  | nil => rfl
  | cons c rest ih =>
    obtain ⟨one,two,three,four,five,_⟩ := (printable c List.mem_cons_self).plain
    have drawn : 32 ≤ c ∧ c ≤ 126 := printable c List.mem_cons_self
    have others : ¬ (c = 0x08 ∨ c = 0x1D) := not_or.mpr ⟨three,four⟩
    have step : advance n c = n + 1 := by rw [advance,if_neg one,if_neg two,if_neg others,if_neg five,if_pos drawn]
    rw [List.foldl_cons,step,ih (fun d later => printable d (List.mem_cons_of_mem _ later)),List.length_cons]
    omega

-- A text scrolls the screen when it goes on below the last row.
theorem scrolls_iff (at_ : At s n) (inside : n/80 ≤ 24) (text : List UInt8) :
    scrolls s text = true ↔ 25 ≤ text.foldl advance n/80 := by
  induction text generalizing s n with
  | nil =>
    rw [scrolls,List.foldl_nil]
    constructor
    · intro absurd_
      cases absurd_
    · intro below
      omega
  | cons c rest ih =>
    obtain ⟨_,rows,row⟩ := putChar_moved at_ c
    rw [scrolls,List.foldl_cons,Bool.or_eq_true,decide_eq_true_eq]
    have later := text_rows (advance n c) rest
    by_cases below : (wrapLine (putChar s c)).cursorY ≥ vgaHeight
    · simp only [vgaHeight] at below
      have beyond : 25 ≤ rest.foldl advance (advance n c)/80 := by omega
      exact ⟨fun _ => beyond,fun _ => .inl below⟩
    · simp only [vgaHeight] at below
      rw [ih (putchar_at at_ c) (by omega)]
      exact ⟨fun either => either.resolve_left below,.inr⟩

end SantOS.Vga
