import SantOS.Shell.Pages
import SantOS.Vga.CursorPlaces

namespace SantOS.Shell
open CStrings Slices Vga

def colorBlack : Nat := 0
def colorLightGray : Nat := 7
def colorLightRed : Nat := 12
def colorYellow : Nat := 14
def colorWhite : Nat := 15

def printOut (s : Screen) : Out → Screen
  | .text t => t.foldl vgaPutchar s
  | .error t => vgaSetColor (t.foldl vgaPutchar (vgaSetColor s colorLightRed colorBlack)) colorWhite colorBlack
  | .marked t => vgaSetColor (t.foldl vgaPutchar (vgaSetColor s colorBlack colorYellow)) colorWhite colorBlack
  | .clear => vgaClear s
  | _ => s

def outScrolls (s : Screen) : Out → Bool
  | .text t => scrolls s t
  | .error t => scrolls (vgaSetColor s colorLightRed colorBlack) t
  | .marked t => scrolls (vgaSetColor s colorBlack colorYellow) t
  | _ => false

def pageScrolls (s : Screen) : List Out → Bool
  | [] => false
  | o::outs => outScrolls s o || pageScrolls (printOut s o) outs

-- The page ends on row 22 or above, and neither it nor the bar below it scrolls the screen.
structure PageFits (s : Screen) (outs : List Out) : Prop where
  row : (outs.foldl printOut s).cursorY ≤ 22
  page : pageScrolls s outs = false
  bar : ∀ status : Str, status.length = 80 → (∀ c ∈ status, Vga.Printable c) →
    scrolls (vgaSetColor (outs.foldl printOut s) colorBlack colorLightGray) (10::status) = false

-- The rows a page moves the cursor down: one for each newline, and for each line of it the
-- 80 columns it fills.
def rows (page : Str) : Nat :=
  ((page.splitOn 10).map fun line => line.foldl advance 0/80).sum + ((page.splitOn 10).length - 1)

theorem advance_newline (n : Nat) : advance n 10 = 80*(n/80 + 1) + 0 := by
  rw [advance,if_pos rfl]
  omega

theorem text_rows_split (n : Nat) (page : Str) : page.foldl advance n/80 =
    ((page.splitOn 10).headD []).foldl advance n/80 + (((page.splitOn 10).tail.map fun line => line.foldl advance 0/80 + 1).sum) := by
  induction page generalizing n with
  | nil => rfl
  | cons c rest ih =>
    rw [List.splitOn_cons_eq_if_modifyHead,List.foldl_cons]
    split
    · next same =>
      have break_ : c = 10 := by simpa using same
      obtain ⟨line,lines,split_⟩ := List.exists_cons_of_ne_nil (List.splitOn_ne_nil (10 : UInt8) rest)
      have later := ih 0
      rw [split_] at later ⊢
      rw [break_,advance_newline,text_below]
      simp only [List.headD_cons,List.tail_cons,List.map_cons,List.sum_cons,List.foldl_nil] at later ⊢
      omega
    · obtain ⟨line,lines,split_⟩ := List.exists_cons_of_ne_nil (List.splitOn_ne_nil (10 : UInt8) rest)
      have later := ih (advance n c)
      rw [split_] at later ⊢
      exact later

theorem sum_succ (l : List Nat) : (l.map (· + 1)).sum = l.sum + l.length := by
  induction l with
  | nil => rfl
  | cons a l ih =>
    simp only [List.map_cons,List.sum_cons,List.length_cons,ih]
    omega

theorem page_rows (page : Str) : page.foldl advance 0/80 = rows page := by
  obtain ⟨line,lines,split_⟩ := List.exists_cons_of_ne_nil (List.splitOn_ne_nil (10 : UInt8) page)
  have more := sum_succ (lines.map fun line => line.foldl advance 0/80)
  rw [List.map_map,List.length_map] at more
  rw [text_rows_split,rows,split_]
  simp only [List.headD_cons,List.tail_cons,List.map_cons,List.sum_cons,List.length_cons,Nat.add_sub_cancel]
  rw [Nat.add_assoc,← more]
  rfl

def Shown (o : Out) : Prop := (∃ t, o = .text t) ∨ ∃ t, o = .marked t

theorem marked_shown (text term : Str) (i stop left : Nat) : ∀ o ∈ markedFrom text term i stop left, Shown o := by
  induction left generalizing i with
  | zero => simp [markedFrom]
  | succ left ih =>
    rw [markedFrom]
    split
    · split
      · intro o member
        rcases List.mem_cons.mp member with rfl | later
        · exact .inr ⟨_,rfl⟩
        · exact ih _ o later
      · intro o member
        rcases List.mem_cons.mp member with rfl | later
        · exact .inl ⟨_,rfl⟩
        · exact ih _ o later
    · simp

variable {outs : List Out}

theorem outs_at (at_ : Vga.At s n) (shown : ∀ o ∈ outs, Shown o) :
    Vga.At (outs.foldl printOut s) ((outs.flatMap outBytes).foldl advance n) := by
  induction outs generalizing s n with
  | nil => exact at_
  | cons o outs ih =>
    rw [List.foldl_cons,List.flatMap_cons,List.foldl_append]
    refine ih ?_ (fun o later => shown o (List.mem_cons_of_mem _ later))
    rcases shown o List.mem_cons_self with ⟨t,rfl⟩ | ⟨t,rfl⟩
    · exact text_at at_ t
    · exact set_color_at (text_at (set_color_at at_ _ _) t) _ _

theorem outs_scroll_iff (at_ : Vga.At s n) (inside : n/80 ≤ 24) (shown : ∀ o ∈ outs, Shown o) :
    pageScrolls s outs = true ↔ 25 ≤ (outs.flatMap outBytes).foldl advance n/80 := by
  induction outs generalizing s n with
  | nil =>
    rw [pageScrolls,List.flatMap_nil,List.foldl_nil]
    constructor
    · intro absurd_
      cases absurd_
    · intro below
      omega
  | cons o outs ih =>
    have others : ∀ o ∈ outs, Shown o := fun o later => shown o (List.mem_cons_of_mem _ later)
    rw [pageScrolls,List.flatMap_cons,List.foldl_append,Bool.or_eq_true]
    have here : outScrolls s o = true ↔ 25 ≤ (outBytes o).foldl advance n/80 := by
      rcases shown o List.mem_cons_self with ⟨t,rfl⟩ | ⟨t,rfl⟩
      · exact scrolls_iff at_ inside t
      · exact scrolls_iff (set_color_at at_ _ _) inside t
    have placed : Vga.At (printOut s o) ((outBytes o).foldl advance n) := by
      have single : ∀ p ∈ [o], Shown p := fun p member => shown p (List.mem_cons.mpr (.inl (List.mem_singleton.mp member)))
      simpa using outs_at at_ single
    have later := text_rows ((outBytes o).foldl advance n) (outs.flatMap outBytes)
    by_cases below : 25 ≤ (outBytes o).foldl advance n/80
    · exact ⟨fun _ => Nat.le_trans below later,fun _ => .inl (here.mpr below)⟩
    · rw [here,ih placed (by omega) others]
      exact ⟨fun either => either.resolve_left below,.inr⟩

-- The bar is a newline and 80 characters: one row is left below it.
theorem bar_place (status : Str) (length : status.length = 80) (printable : ∀ c ∈ status, Vga.Printable c) (n : Nat) :
    (10::status).foldl advance n/80 = n/80 + 2 := by
  rw [List.foldl_cons,advance_newline,printed_columns _ printable,length]
  omega

theorem page_fits_iff (s : Screen) (shown : ∀ o ∈ outs, Shown o) :
    PageFits s (.clear::outs) ↔ rows (outs.flatMap outBytes) ≤ 22 := by
  have placed := outs_at (cleared_at s) shown
  have still : pageScrolls s (.clear::outs) = pageScrolls (vgaClear s) outs := rfl
  have scroll := outs_scroll_iff (cleared_at s) (by decide) shown
  rw [page_rows] at scroll
  have row := placed.2
  rw [page_rows] at row
  constructor
  · intro fits
    have low : (outs.foldl printOut (vgaClear s)).cursorY ≤ 22 := fits.row
    omega
  · intro few
    have low : (outs.foldl printOut (vgaClear s)).cursorY ≤ 22 := by omega
    refine ⟨low,?_,?_⟩
    · rw [still,Bool.eq_false_iff]
      intro scrolled
      have beyond := scroll.mp scrolled
      omega
    · intro status length printable
      have below := bar_place status length printable ((outs.flatMap outBytes).foldl advance 0)
      rw [Bool.eq_false_iff]
      intro scrolled
      rw [← page_rows] at few
      have beyond := (scrolls_iff (set_color_at placed colorBlack colorLightGray) (by omega) _).mp scrolled
      omega

-- The pager's own place: every byte but a newline is one column.
def pagePlace (n : Nat) (c : UInt8) : Nat := if c = 10 then (n/80 + 1)*80 else n + 1

theorem pageStep_place (row : Nat) (c : UInt8) (column : col < 80) :
    (pageStep (col,row) c).2*80 + (pageStep (col,row) c).1 = pagePlace (row*80 + col) c ∧ (pageStep (col,row) c).1 < 80 := by
  unfold pageStep pagePlace
  split
  · dsimp only
    omega
  · by_cases full : col + 1 ≥ pageCols
    · rw [if_pos full]
      simp only [pageCols] at full
      dsimp only
      omega
    · rw [if_neg full]
      simp only [pageCols] at full
      dsimp only
      omega

-- A text cut behind every 22nd row so counted, up to 1024 pages: the last one takes all the
-- rest.
def cutFrom (pages : Nat) (current : Str) : Str → List Str
  | [] => [current]
  | c::rest =>
    if pages < 1024 ∧ pageRows ≤ (current ++ [c]).foldl pagePlace 0/80 then (current ++ [c])::cutFrom (pages+1) [] rest
    else cutFrom pages (current ++ [c]) rest

def cutPages (text : Str) : List Str := cutFrom 1 [] text

theorem cut_rest (full : ¬ pages < 1024) (current rest : Str) : cutFrom pages current rest = [current ++ rest] := by
  induction rest generalizing current with
  | nil => rw [cutFrom,List.append_nil]
  | cons c rest ih => rw [cutFrom,if_neg (fun cuts => full cuts.1),ih,List.append_assoc,List.singleton_append]

theorem slices_cut (front current rest : Str) (column : col < 80) (place : current.foldl pagePlace 0 = row*80 + col) :
    slices (front ++ current ++ rest) (front.length::pageStartsFrom (front.length + current.length) col row pages rest) =
      cutFrom pages current rest := by
  induction rest generalizing front current col row pages with
  | nil => rw [pageStartsFrom,slices,cutFrom,List.append_nil,List.drop_left]
  | cons c rest ih =>
    obtain ⟨next,inside⟩ := pageStep_place row c column
    have behind : front.length + current.length + 1 = front.length + (current ++ [c]).length := by
      rw [List.length_append,List.length_singleton]
      omega
    have counted : (current ++ [c]).foldl pagePlace 0 = (pageStep (col,row) c).2*80 + (pageStep (col,row) c).1 := by
      rw [List.foldl_append,place,next]
      rfl
    have rows : (current ++ [c]).foldl pagePlace 0/80 = (pageStep (col,row) c).2 := by omega
    have whole : front ++ current ++ c::rest = front ++ (current ++ [c]) ++ rest := by simp
    rw [pageStartsFrom_cons]
    by_cases more : pages < 1024
    · rw [if_pos more,cutFrom,rows,whole,behind]
      by_cases full : pageRows ≤ (pageStep (col,row) c).2
      · have place_ : front.length + (current ++ [c]).length = (front ++ (current ++ [c])).length + ([] : Str).length := by simp
        have others := @ih 0 0 (pages + 1) (front ++ (current ++ [c])) [] (by decide) rfl
        rw [List.append_nil,← place_] at others
        rw [if_pos full,if_pos ⟨more,full⟩,slices,List.take_left' (List.length_append ..),List.drop_left]
        rw [List.length_append] at others
        exact congrArg _ others
      · rw [if_neg full,if_neg (fun cuts => full cuts.2)]
        exact ih front (current ++ [c]) inside counted
    · rw [if_neg more,cut_rest more,slices,List.append_assoc,List.drop_left]

theorem cutPages_eq (text : Str) : slices text (pageStarts text) = cutPages text :=
  slices_cut [] [] text (by decide) rfl

theorem cut_positive (pages : Nat) (current rest : Str) : 1 ≤ (cutFrom pages current rest).length := by
  induction rest generalizing current with
  | nil => exact Nat.le_refl 1
  | cons c rest ih =>
    rw [cutFrom]
    split
    · exact Nat.succ_le_succ (Nat.zero_le _)
    · exact ih _

theorem pagePlace_le (c : UInt8) (few : n < pageRows*80) : pagePlace n c ≤ pageRows*80 := by
  simp only [pageRows] at few ⊢
  unfold pagePlace
  split
  · omega
  · exact few

theorem cut_counted (current rest : Str) (few : current.foldl pagePlace 0 < pageRows*80)
    (room : pages + (cutFrom pages current rest).length ≤ 1024) :
    ∀ part ∈ cutFrom pages current rest, part.foldl pagePlace 0 ≤ pageRows*80 := by
  induction rest generalizing current pages with
  | nil =>
    intro part member
    rw [cutFrom,List.mem_singleton] at member
    rw [member]
    exact Nat.le_of_lt few
  | cons c rest ih =>
    have next : (current ++ [c]).foldl pagePlace 0 = pagePlace (current.foldl pagePlace 0) c := by
      rw [List.foldl_append]
      rfl
    have page : (current ++ [c]).foldl pagePlace 0 ≤ pageRows*80 := next ▸ pagePlace_le c few
    rw [cutFrom] at room ⊢
    split
    · next cuts =>
      rw [if_pos cuts,List.length_cons] at room
      intro part member
      rcases List.mem_cons.mp member with rfl | later
      · exact page
      · exact ih [] (by decide) (by omega) part later
    · next more =>
      rw [if_neg more] at room
      have some_ := cut_positive pages (current ++ [c]) rest
      have rows : ¬ pageRows ≤ (current ++ [c]).foldl pagePlace 0/80 := fun full => more ⟨by omega,full⟩
      exact ih (current ++ [c]) (by omega) room

theorem advance_le (c : UInt8) (le : n ≤ m) (noTab : c ≠ 9) : advance n c ≤ pagePlace m c := by
  unfold advance pagePlace
  have rows : n/80 ≤ m/80 := Nat.div_le_div_right le
  repeat' split
  all_goals omega

theorem text_le (page : Str) (le : n ≤ m) (noTab : ∀ c ∈ page, c ≠ 9) : page.foldl advance n ≤ page.foldl pagePlace m := by
  induction page generalizing n m with
  | nil => exact le
  | cons c rest ih => exact ih (advance_le c le (noTab c List.mem_cons_self)) (fun d later => noTab d (List.mem_cons_of_mem _ later))

theorem slice_of_text (text : Str) (starts : List Nat) {part : Str} (member : part ∈ slices text starts) :
    ∀ c ∈ part, c ∈ text := by
  induction starts with
  | nil => cases member
  | cons a starts ih =>
    cases starts with
    | nil =>
      rw [slices,List.mem_singleton] at member
      rw [member]
      exact fun c inside => List.mem_of_mem_drop inside
    | cons b starts =>
      rcases List.mem_cons.mp member with rfl | later
      · exact fun c inside => List.mem_of_mem_take (List.mem_of_mem_drop inside)
      · exact ih later

theorem shownPage_bytes (text term : Str) (page : Nat) :
    (markedFrom text term ((pageStarts text).getD page 0) (sliceEnd text (pageStarts text) page)
      (sliceEnd text (pageStarts text) page - (pageStarts text).getD page 0)).flatMap outBytes = slice text (pageStarts text) page :=
  marked_bytes text term (sliceEnd_inside text page) (Nat.le_refl _)

theorem shownPage_row (s : Screen) (text term : Str) (page : Nat) :
    ((shownPage text term (pageStarts text) page).foldl printOut s).cursorY =
      min 24 ((slice text (pageStarts text) page).foldl advance 0/80) := by
  have placed := outs_at (cleared_at s) (marked_shown text term ((pageStarts text).getD page 0) (sliceEnd text (pageStarts text) page)
    (sliceEnd text (pageStarts text) page - (pageStarts text).getD page 0))
  rw [shownPage_bytes] at placed
  exact placed.2

-- A page fits when its newlines and the full rows of its lines are at most 22. Without a tab
-- they are, unless the table of the pages is full.
theorem pages_fit_iff (s : Screen) (text term : Str) :
    ((∀ page < (pageStarts text).length, PageFits s (shownPage text term (pageStarts text) page)) ↔
      ∀ part ∈ cutPages text, rows part ≤ 22) ∧
    ((∀ c ∈ text, c ≠ 9) → (cutPages text).length < 1024 → ∀ part ∈ cutPages text, rows part ≤ 22) := by
  have one (page : Nat) :
      PageFits s (shownPage text term (pageStarts text) page) ↔ rows (slice text (pageStarts text) page) ≤ 22 := by
    rw [shownPage,page_fits_iff s (marked_shown _ _ _ _ _),shownPage_bytes text term page]
  rw [← cutPages_eq]
  refine ⟨⟨?_,?_⟩,?_⟩
  · intro fits part member
    obtain ⟨page,valid,rfl⟩ := List.getElem_of_mem member
    have inside : page < (pageStarts text).length := by rwa [slices_length] at valid
    have same := slices_at text inside
    rw [List.getElem?_eq_getElem valid] at same
    rw [Option.some.inj same]
    exact (one page).mp (fits page inside)
  · intro few page inside
    exact (one page).mpr (few _ (List.mem_of_getElem? (slices_at text inside)))
  · intro noTab room part member
    have below := text_le part (Nat.le_refl 0) (fun c inside => noTab c (slice_of_text text _ member c inside))
    rw [cutPages_eq] at room member
    have counted := cut_counted [] text (by decide) (by unfold cutPages at room; omega) part member
    rw [← page_rows]
    simp only [pageRows] at counted
    omega

def tabs : Str := List.replicate 460 9

-- The pager counts 460 columns, the screen 1840.
theorem tabs_below : ¬ ∀ (s : Screen) (text term : Str), 1 ≤ text.length → text.length ≤ 32767 →
    ∀ page < (pageStarts text).length, ((shownPage text term (pageStarts text) page).foldl printOut s).cursorY ≤ 22 := by
  intro all
  have onePage : pageStarts tabs = [0] := by decide +kernel
  have length : tabs.length = 460 := List.length_replicate ..
  have low := all ⟨fun _ => 0,0,0,0x0F,0,0,[]⟩ tabs [] (by rw [length]; decide) (by rw [length]; decide) 0 (by rw [onePage]; decide)
  have whole : slice tabs (pageStarts tabs) 0 = tabs := by rw [onePage,slice_whole]
  have last : tabs.foldl advance 0 = 1840 := by decide +kernel
  rw [shownPage_row,whole,last] at low
  exact absurd low (by decide)

end SantOS.Shell
