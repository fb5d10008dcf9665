import SantOS.Sedit.Texts

namespace SantOS.Sedit
open ArrayShifts CStrings Fat12

def Clean (b : UInt8) : Prop := b ≠ 10 ∧ b ≠ 13

def EachByte (P : UInt8 → Prop) (lines : Rows) : Prop := ∀ r i, P (lines r i)

section
variable {P : UInt8 → Prop} {e : Editor} {lines rows : Rows} {row : Row}

theorem EachByte.update (each : EachByte P lines) (new : ∀ i, P (row i)) (r : Nat) :
    EachByte P (Function.update lines r row) := by
  intro k i
  by_cases here : k = r
  · rw [here,Function.update_self]
    exact new i
  · rw [Function.update_of_ne here]
    exact each k i

theorem row_update (each : ∀ i, P (row i)) (byte : P v) (c : Nat) : ∀ i, P (Function.update row c v i) := by
  intro i
  by_cases here : i = c
  · rw [here,Function.update_self]
    exact byte
  · rw [Function.update_of_ne here]
    exact each i

theorem strcpy_each {dest src : Row} (old : ∀ i, P (dest i)) (new : ∀ i, P (src i)) : ∀ i, P (strcpy dest src i) :=
  strcpyFrom_each old new

theorem strcat_each {dest src : Row} (old : ∀ i, P (dest i)) (new : ∀ i, P (src i)) : ∀ i, P (strcat dest src i) :=
  strcpyFrom_each old new

theorem visible_each (each : EachByte P e.lines) : EachByte P (ensureCursorVisible e).lines := by
  obtain ⟨r,c,same⟩ := visible_same e
  rw [same]
  exact each

theorem clamp_each (each : EachByte P e.lines) : EachByte P (clampCursorCol e).lines := by
  unfold clampCursorCol
  dsimp only
  split <;> exact each

theorem enter_each (nul : P 0) (each : EachByte P e.lines) : EachByte P (enter e).lines := by
  unfold enter
  split
  · apply visible_each
    have shifted : EachByte P (shiftLinesDown e.lines e.lineCount (e.lineCount - (e.cursorRow + 1))) := fun r i =>
      raise_each (P := fun row : Row => ∀ i, P (row i)) strcpy (fun _ _ => strcpy_each) each r i
    have copied := shifted.update (strcpy_each (shifted (e.cursorRow + 1))
      (fun i => shifted e.cursorRow (e.cursorCol + i))) (e.cursorRow + 1)
    exact copied.update (row_update (copied e.cursorRow) nul e.cursorCol) e.cursorRow
  · exact each

theorem backspace_each (nul : P 0) (each : EachByte P e.lines) : EachByte P (backspace e).lines := by
  unfold backspace
  dsimp only
  split
  · apply visible_each
    exact each.update (lower_each _ (fun _ _ _ new => new) (each e.cursorRow)) e.cursorRow
  · split
    · split
      · apply visible_each
        have appended := each.update (strcat_each (each (e.cursorRow - 1)) (each e.cursorRow)) (e.cursorRow - 1)
        have shifted : EachByte P (shiftLinesUp _ e.cursorRow (e.lineCount - 1 - e.cursorRow)) := fun r i =>
          lower_each (P := fun row : Row => ∀ i, P (row i)) strcpy (fun _ _ => strcpy_each) appended r i
        exact shifted.update (row_update (shifted _) nul 0) _
      · exact each
    · exact each

theorem insert_each (byte : P x) (each : EachByte P e.lines) : EachByte P (insertChar e x).lines := by
  unfold insertChar
  dsimp only
  split
  · apply visible_each
    exact each.update (row_update (raise_each _ (fun _ _ _ new => new) (each e.cursorRow)) byte e.cursorCol) e.cursorRow
  · exact each

theorem arrow_each (each : EachByte P e.lines) : EachByte P (pressUp e).lines ∧ EachByte P (pressDown e).lines ∧
    EachByte P (pressLeft e).lines ∧ EachByte P (pressRight e).lines := by
  refine ⟨?_,?_,?_,?_⟩
  · unfold pressUp
    split
    · exact visible_each (clamp_each each)
    · exact each
  · unfold pressDown
    split
    · exact visible_each (clamp_each each)
    · exact each
  · unfold pressLeft
    split
    · exact visible_each each
    · split
      · exact visible_each each
      · exact each
  · unfold pressRight
    dsimp only
    split
    · exact visible_each each
    · split
      · exact visible_each each
      · exact each

theorem edit_each (nul : P 0) (typed : ∀ c, printableKey c → P (UInt8.ofInt c)) (each : EachByte P e.lines)
    (edited : edit e c = some e') : EachByte P e'.lines := by
  obtain ⟨up,down,left,right⟩ := arrow_each each
  rcases edit_cases edited with ⟨_,rfl⟩ | ⟨_,rfl⟩ | ⟨_,rfl⟩ | ⟨_,rfl⟩ | ⟨_,rfl⟩ | ⟨_,rfl⟩ | ⟨printable,rfl⟩
  · exact up
  · exact down
  · exact left
  · exact right
  · exact enter_each nul each
  · exact backspace_each nul each
  · exact insert_each (typed _ printable) each

-- What load_file has made of the file so far.
structure Parsed (lines : Rows) (lineCount col : Nat) : Prop where
  few : lineCount ≤ maxLines
  short : col < maxLineLen
  ends : ∀ r < lineCount, ∃ i < maxLineLen, lines r i = 0
  clean : EachByte Clean lines

theorem store_some (stored : store lines r c v = some rows) : r < maxLines ∧ c < maxLineLen ∧
    rows = Function.update lines r (Function.update (lines r) c v) := by
  unfold store at stored
  split at stored
  · rename_i inside
    exact ⟨inside.1,inside.2,(Option.some.inj stored).symm⟩
  · cases stored

theorem Parsed.ended (parsed : Parsed lines lineCount col) (stored : store lines lineCount c 0 = some rows) :
    Parsed rows (lineCount + 1) 0 := by
  obtain ⟨below,short,rfl⟩ := store_some stored
  refine ⟨below,by decide,?_,parsed.clean.update (row_update (P := Clean) (parsed.clean lineCount) ⟨by decide,by decide⟩ c) lineCount⟩
  intro r inside
  by_cases last : r = lineCount
  · rw [last,Function.update_self]
    exact ⟨c,short,Function.update_self ..⟩
  · rw [Function.update_of_ne last]
    exact parsed.ends r (by omega)

theorem Parsed.stored (parsed : Parsed lines lineCount col) (stored : store lines lineCount col b = some rows)
    (room : col < maxLineLen - 1) (clean : Clean b) : Parsed rows lineCount (col+1) := by
  obtain ⟨below,short,rfl⟩ := store_some stored
  refine ⟨parsed.few,by omega,?_,parsed.clean.update (row_update (parsed.clean lineCount) clean col) lineCount⟩
  intro r inside
  rw [Function.update_of_ne (by omega)]
  exact parsed.ends r inside

theorem parseFrom_parsed {buf : Str} (parsed : Parsed lines lineCount col)
    (ran : parseFrom lines lineCount col buf = some (rows,n,c)) : Parsed rows n c := by
  induction buf generalizing lines lineCount col with
  | nil =>
    cases ran
    exact parsed
  | cons b buf ih =>
    rw [parseFrom] at ran
    split at ran
    · split at ran
      · split at ran
        · cases ran
        · rename_i stored
          exact ih (parsed.ended stored) ran
      · split at ran
        · exact ih parsed ran
        · rename_i notLf notCr
          split at ran
          · rename_i room
            split at ran
            · cases ran
            · rename_i stored
              exact ih (parsed.stored stored room ⟨notLf,notCr⟩) ran
          · exact ih parsed ran
    · cases ran
      exact parsed

theorem parseLines_parsed {buf : Str} (clean : EachByte Clean lines) (ran : parseLines lines buf = some (rows,n)) :
    1 ≤ n ∧ ∃ col, Parsed rows n col := by
  -- what the last two ifs do with the parsed lines
  have ending : ∀ {lines count col}, Parsed lines count col →
      (if count = 0 then (store lines 0 0 0).map (fun lines => (lines,1)) else some (lines,count)) = some (rows,n) →
      1 ≤ n ∧ ∃ col, Parsed rows n col := by
    intro lines count col parsed made
    by_cases empty : count = 0
    · rw [if_pos empty] at made
      obtain ⟨_,stored,same⟩ := Option.map_eq_some_iff.mp made
      cases same
      rw [empty] at parsed
      exact ⟨Nat.le_refl 1,0,parsed.ended stored⟩
    · rw [if_neg empty] at made
      cases made
      exact ⟨by omega,col,parsed⟩
  unfold parseLines at ran
  cases looped : parseFrom lines 0 0 buf with
  | none =>
    rw [looped] at ran
    cases ran
  | some all =>
    obtain ⟨lines',count,col⟩ := all
    have parsed := parseFrom_parsed ⟨Nat.zero_le _,by decide,nofun,clean⟩ looped
    rw [looped] at ran
    dsimp only at ran
    by_cases more : col > 0 ∨ buf.getLast? = some 10
    · rw [if_pos more] at ran
      cases stored : store lines' count col 0 with
      | none =>
        rw [stored] at ran
        cases ran
      | some last =>
        rw [stored] at ran
        exact ending (parsed.ended stored) ran
    · rw [if_neg more] at ran
      exact ending parsed ran

structure Fresh (s : Session) : Prop where
  valid : Valid s.editor
  clean : EachByte Clean s.editor.lines
  first : s.editor.cursorRow = 0 ∧ s.editor.cursorCol = 0
  unscrolled : s.editor.scrollRow = 0 ∧ s.editor.scrollCol = 0
  drawn : s = redrawScreen s

theorem Parsed.fresh (parsed : Parsed lines n col) (someLine : 1 ≤ n) (name : Str) (disk : Driver) :
    Fresh (redrawScreen ⟨⟨lines,n,0,0,0,0,false,name⟩,disk,[],(0,0),true⟩) :=
  ⟨⟨someLine,parsed.few,parsed.ends,someLine,Nat.zero_le _⟩,parsed.clean,⟨rfl,rfl⟩,⟨rfl,rfl⟩,rfl⟩

theorem empty_parsed : Parsed (fun _ _ => 0) 1 0 := ⟨by decide,by decide,fun _ _ => ⟨0,by decide,rfl⟩,fun _ _ => ⟨by decide,by decide⟩⟩

theorem main_fresh (started : main arg disk = some s) : Fresh s := by
  unfold main at started
  split at started
  · cases started
    exact empty_parsed.fresh (Nat.le_refl 1) [] disk
  · dsimp only at started
    split at started
    · cases started
    · rename_i name result loaded disk' opened
      cases started
      by_cases failed : result ≠ 0
      · rw [if_pos failed]
        exact empty_parsed.fresh (Nat.le_refl 1) _ disk'
      · rw [if_neg failed]
        unfold loadFile at opened
        split at opened
        · cases opened
        · split at opened
          · cases opened
            exact absurd (by decide) failed
          · split at opened
            · cases opened
            · rename_i lines n parsed
              cases opened
              obtain ⟨someLine,col,shape⟩ := parseLines_parsed empty_parsed.clean parsed
              exact shape.fresh someLine _ disk'

theorem press_clean (clean : EachByte Clean s.editor.lines) (pressed : press s c = some s') :
    EachByte Clean s'.editor.lines := by
  rcases press_cases pressed with ⟨edited,_⟩ | ⟨_,same | same,_⟩
  · exact edit_each ⟨by decide,by decide⟩ (fun _ printable => ⟨printable_ne printable (by decide),printable_ne printable (by decide)⟩) clean edited
  · rw [same]
    exact clean
  · rw [same]
    exact clean

theorem run_clean (clean : EachByte Clean s.editor.lines) (ran : keyLoop s keys = some s') :
    EachByte Clean s'.editor.lines :=
  @run_keeps keys s s' (fun s => EachByte Clean s.editor.lines) (fun _ _ _ clean pressed => press_clean clean pressed) clean ran

theorem reachable_buffer (started : main arg disk = some s) (ran : keyLoop s keys = some s') :
    Valid s'.editor ∧ ∀ l ∈ lineTexts s'.editor, 10 ∉ l ∧ 13 ∉ l := by
  have fresh := main_fresh started
  have clean := run_clean fresh.clean ran
  refine ⟨(run_text fresh.valid ran).1,?_⟩
  intro l among
  obtain ⟨r,_,rfl⟩ := List.mem_map.mp among
  refine ⟨?_,?_⟩ <;> intro inside <;> obtain ⟨i,_,byte⟩ := List.mem_map.mp inside
  · exact (clean r i).1 byte
  · exact (clean r i).2 byte

end

end SantOS.Sedit
