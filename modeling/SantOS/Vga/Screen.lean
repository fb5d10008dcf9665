import Mathlib.Algebra.Group.Nat.Defs
import Mathlib.Logic.Function.Basic

namespace SantOS.Vga

abbrev vgaWidth : Nat := 80
abbrev vgaHeight : Nat := 25

-- The static variables of vga.c, the text mode cells from 0xB8000 on and the cursor
-- location registers 0x0F and 0x0E. No code reads written: it lists the indexes of the
-- cells stored so far, the newest first.
structure Screen where
  vgaBuffer : Nat → Nat
  cursorX : Nat
  cursorY : Nat
  currentColor : Nat
  locationLow : Nat
  locationHigh : Nat
  written : List Nat

-- A plain char is signed, so the uint16_t of one from 0x80 on has a high byte of ones.
def vgaEntry (c : UInt8) (color : Nat) : Nat :=
  (if c < 0x80 then c.toNat else 0xFF00 + c.toNat) ||| color <<< 8

def Screen.poke (s : Screen) (index entry : Nat) : Screen :=
  {s with vgaBuffer := Function.update s.vgaBuffer index entry, written := index::s.written}

def fillRow (s : Screen) (y entry x : Nat) : Nat → Screen
  | 0 => s
  | left+1 => fillRow (s.poke (y*vgaWidth + x) entry) y entry (x+1) left

def clearRows (s : Screen) (y : Nat) : Nat → Screen
  | 0 => s
  | left+1 => clearRows (fillRow s y (vgaEntry 0x20 s.currentColor) 0 vgaWidth) (y+1) left

def vgaClear (s : Screen) : Screen :=
  {clearRows s 0 vgaHeight with cursorX := 0, cursorY := 0}

def copyRow (s : Screen) (y x : Nat) : Nat → Screen
  | 0 => s
  | left+1 => copyRow (s.poke (y*vgaWidth + x) (s.vgaBuffer ((y+1)*vgaWidth + x))) y (x+1) left

def copyRows (s : Screen) (y : Nat) : Nat → Screen
  | 0 => s
  | left+1 => copyRows (copyRow s y 0 vgaWidth) (y+1) left

def vgaSetColor (s : Screen) (fg bg : Nat) : Screen := {s with currentColor := (bg <<< 4) % 2^8 ||| (fg &&& 0x0F)}

def vgaScroll (s : Screen) : Screen :=
  let s := copyRows s 0 (vgaHeight - 1)
  let defaultColor := 0x0F
  {fillRow s (vgaHeight - 1) (vgaEntry 0x20 defaultColor) 0 vgaWidth with cursorY := vgaHeight - 1}

def vgaUpdateCursor (s : Screen) : Screen :=
  let pos := (s.cursorY*vgaWidth + s.cursorX) % 2^16
  {s with locationLow := pos &&& 0xFF, locationHigh := (pos >>> 8) &&& 0xFF}

-- What vga_putchar does with the character, before the wrap, scroll and cursor parts.
def putChar (s : Screen) (c : UInt8) : Screen :=
  if c = 0x0A then {s with cursorX := 0, cursorY := (s.cursorY + 1) % 2^8}
  else if c = 0x0D then {s with cursorX := 0}
  else if c = 0x08 then
    if s.cursorX > 0 then
      let s := {s with cursorX := s.cursorX - 1}
      s.poke (s.cursorY*vgaWidth + s.cursorX) (vgaEntry 0x20 s.currentColor)
    else s
  else if c = 0x1D then
    if s.cursorX > 0 then {s with cursorX := s.cursorX - 1} else s
  else if c = 0x09 then {s with cursorX := ((s.cursorX + 4) &&& (2^32 - 4)) % 2^8}
  else if 32 ≤ c ∧ c ≤ 126 then
    let s := s.poke (s.cursorY*vgaWidth + s.cursorX) (vgaEntry c s.currentColor)
    {s with cursorX := (s.cursorX + 1) % 2^8}
  else s

def wrapLine (s : Screen) : Screen :=
  if s.cursorX ≥ vgaWidth then {s with cursorX := 0, cursorY := (s.cursorY + 1) % 2^8} else s

def scrollLine (s : Screen) : Screen := if s.cursorY ≥ vgaHeight then vgaScroll s else s

def vgaPutchar (s : Screen) (c : UInt8) : Screen := vgaUpdateCursor (scrollLine (wrapLine (putChar s c)))

def Screen.shows (s : Screen) (y x : Nat) : Nat := s.vgaBuffer (y*vgaWidth + x) % 2^8

def StoredInside (s t : Screen) : Prop := ∃ log, t.written = log ++ s.written ∧ ∀ i ∈ log, i < 2000

theorem StoredInside.same (same : t.written = s.written) : StoredInside s t := ⟨[],same,by simp⟩

theorem StoredInside.trans (one : StoredInside s t) (two : StoredInside t u) : StoredInside s u := by
  obtain ⟨x,first,inX⟩ := one
  obtain ⟨y,second,inY⟩ := two
  refine ⟨y ++ x,by rw [second,first,List.append_assoc],?_⟩
  intro i member
  cases List.mem_append.mp member with
  | inl late => exact inY i late
  | inr early => exact inX i early

theorem poke_inside (s : Screen) (entry : Nat) (inside : index < 2000) : StoredInside s (s.poke index entry) :=
  ⟨[index],rfl,by simpa using inside⟩

structure Painted (s t : Screen) : Prop where
  column : t.cursorX = s.cursorX
  row : t.cursorY = s.cursorY
  color : t.currentColor = s.currentColor
  inside : StoredInside s t

theorem Painted.refl (s : Screen) : Painted s s := ⟨rfl,rfl,rfl,.same rfl⟩

theorem Painted.trans (one : Painted s t) (two : Painted t u) : Painted s u :=
  ⟨two.column.trans one.column,two.row.trans one.row,two.color.trans one.color,one.inside.trans two.inside⟩

theorem poke_painted (s : Screen) (entry : Nat) (inside : index < 2000) : Painted s (s.poke index entry) :=
  ⟨rfl,rfl,rfl,poke_inside s entry inside⟩

theorem fillRow_painted (s : Screen) (entry : Nat) (row : y < 25) (inside : x + left ≤ 80) :
    Painted s (fillRow s y entry x left) := by
  induction left generalizing s x with
  | zero => exact .refl s
  | succ left ih => exact (poke_painted s entry (by simp only [vgaWidth]; omega)).trans (ih _ (by omega))

theorem fillRow_cell (s : Screen) (y entry x left i : Nat) :
    (fillRow s y entry x left).vgaBuffer i =
      if y*80 + x ≤ i ∧ i < y*80 + x + left then entry else s.vgaBuffer i := by
  induction left generalizing s x with
  | zero => rw [fillRow,if_neg (by omega)]
  | succ left ih =>
    rw [fillRow,ih]
    simp only [Screen.poke,vgaWidth]
    by_cases here : i = y*80 + x
    · subst here
      simp
    · rw [Function.update_of_ne here]
      have same : (y*80 + (x+1) ≤ i ∧ i < y*80 + (x+1) + left) ↔ (y*80 + x ≤ i ∧ i < y*80 + x + (left+1)) := by omega
      simp only [same]

theorem clearRows_cell (s : Screen) (i : Nat) (inside : y + left ≤ 25) :
    (clearRows s y left).vgaBuffer i =
      if y*80 ≤ i ∧ i < (y+left)*80 then vgaEntry 0x20 s.currentColor else s.vgaBuffer i := by
  induction left generalizing s y with
  | zero => rw [clearRows,if_neg (by omega)]
  | succ left ih =>
    have painted := fillRow_painted s (vgaEntry 0x20 s.currentColor) (by omega : y < 25) (Nat.le_refl (0 + 80))
    rw [clearRows,ih _ (by omega),painted.color,fillRow_cell]
    simp only [vgaWidth]
    by_cases here : y*80 ≤ i ∧ i < (y+1)*80
    · rw [if_neg (by omega),if_pos (by omega),if_pos (by omega)]
    · by_cases behind : (y+1)*80 ≤ i ∧ i < (y+(left+1))*80
      · rw [if_pos (by omega),if_pos (by omega)]
      · rw [if_neg (by omega),if_neg (by omega),if_neg (by omega)]

theorem copyRow_painted (s : Screen) (row : y < 25) (inside : x + left ≤ 80) : Painted s (copyRow s y x left) := by
  induction left generalizing s x with
  | zero => exact .refl s
  | succ left ih => exact (poke_painted s _ (by simp only [vgaWidth]; omega)).trans (ih _ (by omega))

-- The cell below is read before any cell of its row is stored.
theorem copyRow_cell (s : Screen) (y x left i : Nat) (inside : x + left ≤ 80) :
    (copyRow s y x left).vgaBuffer i =
      if y*80 + x ≤ i ∧ i < y*80 + x + left then s.vgaBuffer (i+80) else s.vgaBuffer i := by
  induction left generalizing s x with
  | zero => rw [copyRow,if_neg (by omega)]
  | succ left ih =>
    rw [copyRow,ih _ _ (by omega)]
    simp only [Screen.poke,vgaWidth]
    by_cases here : i = y*80 + x
    · subst here
      simp [show (y+1)*80 + x = y*80 + x + 80 by omega]
    · rw [Function.update_of_ne here]
      by_cases behind : y*80 + x < i ∧ i < y*80 + x + (left+1)
      · rw [if_pos (by omega),if_pos (by omega),Function.update_of_ne (by omega)]
      · rw [if_neg (by omega),if_neg (by omega)]

theorem copyRows_painted (s : Screen) (inside : y + left ≤ 24) : Painted s (copyRows s y left) := by
  induction left generalizing s y with
  | zero => exact .refl s
  | succ left ih => exact (copyRow_painted s (by omega) (by simp [vgaWidth])).trans (ih _ (by omega))

theorem copyRows_cell (s : Screen) (y left i : Nat) :
    (copyRows s y left).vgaBuffer i = if y*80 ≤ i ∧ i < (y+left)*80 then s.vgaBuffer (i+80) else s.vgaBuffer i := by
  induction left generalizing s y with
  | zero => rw [copyRows,if_neg (by omega)]
  | succ left ih =>
    rw [copyRows,ih,copyRow_cell _ _ _ _ _ (by simp [vgaWidth]),copyRow_cell _ _ _ _ _ (by simp [vgaWidth])]
    simp only [vgaWidth]
    by_cases here : y*80 ≤ i ∧ i < (y+1)*80
    · rw [if_neg (by omega),if_pos (by omega),if_pos (by omega)]
    · by_cases behind : (y+1)*80 ≤ i ∧ i < (y+(left+1))*80
      · rw [if_pos (by omega),if_neg (by omega),if_pos (by omega)]
      · rw [if_neg (by omega),if_neg (by omega),if_neg (by omega)]

structure Scrolled (s t : Screen) : Prop where
  column : t.cursorX = s.cursorX
  row : t.cursorY = 24
  inside : StoredInside s t
  moved : ∀ i < 1920, t.vgaBuffer i = s.vgaBuffer (i+80)
  blank : ∀ i < 2000, 1920 ≤ i → t.vgaBuffer i = vgaEntry 0x20 0x0F

theorem vgaScroll_spec (s : Screen) : Scrolled s (vgaScroll s) := by
  have copied := copyRows_painted s (show 0 + 24 ≤ 24 by decide)
  have filled := fillRow_painted (copyRows s 0 24) (vgaEntry 0x20 0x0F) (by omega : 24 < 25) (Nat.le_refl (0 + 80))
  have cells := copyRows_cell s 0 24
  have last := fillRow_cell (copyRows s 0 24) 24 (vgaEntry 0x20 0x0F) 0 80
  simp only [vgaScroll,vgaHeight,vgaWidth,Nat.reduceSub]
  generalize fillRow (copyRows s 0 24) 24 (vgaEntry 0x20 0x0F) 0 80 = t at filled last
  refine ⟨filled.column.trans copied.column,rfl,copied.inside.trans filled.inside,?_,?_⟩
  · intro i low
    dsimp only
    rw [last,if_neg (by omega),cells,if_pos (by omega)]
  · intro i high low
    dsimp only
    rw [last,if_pos (by omega)]

theorem vgaClear_cell (s : Screen) (inside : i < 2000) :
    (vgaClear s).vgaBuffer i = vgaEntry 0x20 s.currentColor := by
  have cells := clearRows_cell s i (show 0 + 25 ≤ 25 by decide)
  simp only [vgaClear,vgaHeight]
  rw [cells,if_pos (by omega)]

theorem vgaEntry_char (color : Nat) (ascii : c < 0x80) : vgaEntry c color % 2^8 = c.toNat := by
  have small : c.toNat < 2^8 := c.toNat_lt
  rw [vgaEntry,if_pos ascii,Nat.or_comm,← Nat.shiftLeft_add_eq_or_of_lt small,Nat.shiftLeft_eq]
  omega

end SantOS.Vga
