import Mathlib.Data.List.Induction
import SantOS.Library.LineEditors
import SantOS.Shell.LineInput

namespace SantOS.Shell
open ArrayShifts CStrings FlatText LineEditors

def keyOf (c : UInt8) : Option (Key UInt8) :=
  if c = 0x08 ∨ c = 0x7F then some .backspace
  else if c = keyLeft then some .left
  else if c = keyRight then some .right
  else if c = keyUp then some .up
  else if c = keyDown then some .down
  else if 0x20 ≤ c ∧ c ≤ 0x7E then some (.char c)
  else none

def editKey (past : List Str) (e : Editor UInt8) (c : UInt8) : Editor UInt8 :=
  ((keyOf c).map (e.press (maxInput - 1) past)).getD e

def editedLine (past : List Str) (e : Editor UInt8) (keys : List UInt8) : Editor UInt8 := keys.foldl (editKey past) e

def nav (recalled : Option Nat) : Int :=
  match recalled with
  | some k => k
  | none => -1

-- The ring holds the lines past, the newest first.
structure Remembers (h : History) (past : List Str) : Prop where
  count : h.historyCount = past.length
  room : past.length ≤ historySize
  write : h.historyWrite < historySize
  entries : ∀ k x, past[k]? = some x → Spells (h.history ((h.historyWrite + historySize - 1 - k) % historySize)) x
  short : ∀ x ∈ past, x.length < maxInput - 1

structure ShowsLine (past : List Str) (s : Line) (e : Editor UInt8) : Prop where
  text : Spells s.input e.view.text
  len : s.len = e.view.text.length
  cursor : s.cursor = e.view.offset
  histNav : s.histNav = nav e.recalled
  sound : e.Sound past

section
variable {h : History} {past : List Str} {s : Line} {e : Editor UInt8}

theorem noHistory_remembers : Remembers noHistory [] :=
  ⟨rfl,Nat.zero_le _,by decide,by rintro k x ⟨⟩,by rintro x ⟨⟩⟩

theorem newLine_shows (past : List Str) (input : Nat → UInt8) : ShowsLine past (newLine input) blank := by
  refine ⟨⟨?_,by simp [blank]⟩,rfl,rfl,rfl,blank_sound past⟩
  intro i le
  rw [Nat.le_zero.mp le]
  change Function.update input 0 0 0 = 0
  rw [Function.update_self]

theorem spells_buffer {m : Nat → UInt8} {text : Str} (spells : Spells m text) (short : text.length < size) :
    bufferString m size = text := by
  obtain ⟨k,rfl⟩ : ∃ k, size = text.length + (k + 1) := ⟨size - text.length - 1,by omega⟩
  have same : (List.range text.length).map m = text := by
    apply List.ext_getElem
    · simp
    · intro i left right
      rw [List.getElem_map,List.getElem_range,spells.atIndex i (Nat.le_of_lt right),List.getD_eq_getElem _ _ right]
  have nul : m (text.length + 0) = 0 := spells.stop
  rw [bufferString,List.range_add,List.map_append,same,List.range_succ_eq_map,List.map_cons,List.map_cons,nul,
    List.takeWhile_append_of_pos,List.takeWhile_cons_of_neg (by simp),List.append_nil]
  intro c member
  rw [decide_eq_true_iff]
  rintro rfl
  exact spells.noNul member

theorem entry_index (write : h.historyWrite < historySize) (inside : k < historySize) :
    (Int.tmod (h.historyWrite - 1 - (k : Int) + historySize) historySize).toNat =
      (h.historyWrite + historySize - 1 - k) % historySize := by
  unfold historySize at *
  rw [Int.tmod_eq_emod_of_nonneg (by omega)]
  omega

theorem loadEntry_shows (remembers : Remembers h past) (inside : k < past.length) (at_ : s.histNav = k) :
    ShowsLine past (loadEntry h s) (recalledAt past k) := by
  have there : past[k]? = some (past.getD k []) := by
    rw [List.getD_eq_getElem _ _ inside,List.getElem?_eq_getElem inside]
  have spells := remembers.entries k _ there
  have short := remembers.short _ (List.mem_of_getElem? there)
  have bound : (past.getD k []).length < maxInput := Nat.lt_of_lt_of_le short (Nat.sub_le _ _)
  have index := entry_index remembers.write (Nat.lt_of_lt_of_le inside remembers.room)
  have loaded : Spells (loadEntry h s).input (past.getD k []) := by
    change Spells (strcpyFrom s.input (h.history _) 0 0 maxInput) _
    rw [at_,index]
    exact spells_strcpy spells bound
  have len : (loadEntry h s).len = (past.getD k []).length := strlenFrom_eq loaded (Nat.zero_le _) (by rwa [Nat.zero_add])
  exact ⟨loaded,len,len,at_,recall_sound inside⟩

theorem text_cells {m : Nat → UInt8} {text : Str} (spells : Spells m text) : Holds Eq m text := by
  intro i x found
  apply spells.holds
  rwa [List.getElem?_append_left (List.getElem?_eq_some_iff.mp found).1]

theorem backspace_shows (shows_ : ShowsLine past s e) : ShowsLine past (keyBackspace s)
    (e.press (maxInput - 1) past .backspace) := by
  obtain ⟨text,len,cursor,histNav,sound⟩ := shows_
  have sound' := press_sound (maxInput - 1) sound .backspace
  obtain ⟨a,b,view⟩ := sound.parts
  rw [view] at text len cursor
  have pressed : e.press (maxInput - 1) past .backspace = {e with view := (around a b).delete} := by rw [Editor.press,view]
  rw [pressed] at sound' ⊢
  have cursor_ : s.cursor = a.length := cursor
  have len_ : s.len = (a ++ b).length := len
  cases a using List.reverseRecOn with
  | nil =>
    rw [keyBackspace,if_neg (by rw [cursor_]; exact Nat.lt_irrefl 0)]
    exact ⟨text,len,cursor,histNav,sound'⟩
  | append_singleton a x =>
    rw [around_delete] at sound' ⊢
    rw [List.length_append,List.length_singleton] at cursor_
    rw [List.length_append,List.length_append,List.length_singleton] at len_
    have from_ : s.cursor - 1 = a.length := by omega
    have last : s.len - 1 = (a ++ b).length := by
      rw [List.length_append]
      omega
    have left : s.len - 1 - (s.cursor - 1) = b.length := by omega
    have holds : Holds Eq s.input (a ++ x::b) := by
      have cells := text_cells text
      rwa [around,List.append_assoc] at cells
    have closed : Holds Eq (Function.update (lower (fun _ b => b) s.input a.length b.length) (a ++ b).length 0) (a ++ b ++ [0]) :=
      (holds.remove (fun _ b => b) (fun _ _ _ _ same => same)).push rfl
    rw [keyBackspace,if_pos (by omega)]
    refine ⟨?_,last,from_,histNav,sound'⟩
    change Spells (Function.update (lower _ s.input (s.cursor - 1) (s.len - 1 - (s.cursor - 1))) (s.len - 1) 0) (a ++ b)
    rw [from_,last,List.length_append,Nat.add_sub_cancel_left,← List.length_append]
    refine Spells.of_holds closed fun zero => text.noNul ?_
    rcases List.mem_append.mp zero with before | after
    · exact List.mem_append_left _ (List.mem_append_left _ before)
    · exact List.mem_append_right _ after

theorem left_shows (shows_ : ShowsLine past s e) : ShowsLine past (pressLeft s) (e.press (maxInput - 1) past .left) := by
  obtain ⟨text,len,cursor,histNav,sound⟩ := shows_
  have sound' := press_sound (maxInput - 1) sound .left
  unfold pressLeft
  split
  · exact ⟨text,len,congrArg (· - 1) cursor,histNav,sound'⟩
  · next edge => exact ⟨text,len,show s.cursor = e.view.offset - 1 by omega,histNav,sound'⟩

theorem right_shows (shows_ : ShowsLine past s e) : ShowsLine past (pressRight s) (e.press (maxInput - 1) past .right) := by
  obtain ⟨text,len,cursor,histNav,sound⟩ := shows_
  have sound' := press_sound (maxInput - 1) sound .right
  have inside := sound.cursor
  unfold pressRight
  split
  · exact ⟨text,len,show s.cursor + 1 = min (e.view.offset + 1) e.view.text.length by omega,histNav,sound'⟩
  · exact ⟨text,len,show s.cursor = min (e.view.offset + 1) e.view.text.length by omega,histNav,sound'⟩

theorem insert_shows (shows_ : ShowsLine past s e) (room : e.view.text.length < maxInput - 1) (nonzero : c ≠ 0) :
    ShowsLine past (insertKey s c) (e.press (maxInput - 1) past (.char c)) := by
  obtain ⟨text,len,cursor,histNav,sound⟩ := shows_
  have sound' := press_sound (maxInput - 1) sound (.char c)
  obtain ⟨a,b,view⟩ := sound.parts
  have pressed : e.press (maxInput - 1) past (.char c) = {e with view := around (a ++ [c]) b} := by
    rw [Editor.press,if_pos room,view,around_insert]
  rw [pressed] at sound' ⊢
  rw [view] at text len cursor
  have cursor_ : s.cursor = a.length := cursor
  have len_ : s.len = (a ++ b).length := len
  have left : s.len - s.cursor = b.length := by
    rw [len_,cursor_,List.length_append,Nat.add_sub_cancel_left]
  have short : s.len < maxInput - 1 := by
    rw [view] at room
    rwa [len_]
  have holds : Holds Eq s.input (a ++ b) := text_cells text
  have opened := (holds.insert (fun _ b => b) (fun _ _ _ _ same => same) (rfl : c = c)).push (rfl : (0 : UInt8) = 0)
  have total : (a ++ c::b).length = s.len + 1 := by
    rw [len_,List.length_append,List.length_append,List.length_cons]
    exact (Nat.add_assoc _ _ _).symm
  have made : a ++ c::b = a ++ [c] ++ b := by rw [List.append_assoc]; rfl
  rw [total,← len_,← cursor_,← left,made] at opened
  rw [made] at total
  rw [insertKey,if_pos short]
  refine ⟨Spells.of_holds opened ?_,total.symm,?_,histNav,sound'⟩
  · intro zero
    rcases List.mem_append.mp zero with before | after
    · rcases List.mem_append.mp before with old | new
      · exact text.noNul (List.mem_append_left _ old)
      · exact nonzero (List.mem_singleton.mp new).symm
    · exact text.noNul (List.mem_append_right _ after)
  · change s.cursor + 1 = (a ++ [c]).length
    rw [cursor_,List.length_append]
    rfl

theorem up_shows (remembers : Remembers h past) (shows_ : ShowsLine past s e) :
    ShowsLine past (pressUp h s) (e.up past) := by
  have position := shows_.histNav
  have count := remembers.count
  unfold pressUp Editor.up
  cases at_ : e.recalled with
  | none =>
    rw [at_] at position
    change s.histNav = -1 at position
    by_cases some_ : 0 < past.length
    · rw [if_pos (by omega),if_pos position,older,if_pos some_]
      exact loadEntry_shows remembers some_ rfl
    · rw [if_neg (by omega),older,if_neg some_]
      exact shows_
  | some k =>
    rw [at_] at position
    change s.histNav = (k : Int) at position
    have inside := shows_.sound.recalled k at_
    rw [if_pos (by omega),if_neg (by omega)]
    by_cases next : k + 1 < past.length
    · rw [if_pos (by omega),older,if_pos next]
      exact loadEntry_shows remembers next (by rw [position]; rfl)
    · rw [if_neg (by omega),older,if_neg next]
      exact shows_

theorem down_shows (remembers : Remembers h past) (shows_ : ShowsLine past s e) :
    ShowsLine past (pressDown h s) (e.down past) := by
  have position := shows_.histNav
  unfold pressDown Editor.down
  cases at_ : e.recalled with
  | none =>
    rw [at_] at position
    change s.histNav = -1 at position
    rw [if_neg (by omega)]
    exact shows_
  | some k =>
    rw [at_] at position
    change s.histNav = (k : Int) at position
    have inside := shows_.sound.recalled k at_
    rw [if_pos (by omega)]
    cases k with
    | zero =>
      rw [if_pos (by omega)]
      have blank_ := newLine_shows past s.input
      exact ⟨blank_.text,rfl,rfl,show s.histNav - 1 = -1 by omega,blank_sound past⟩
    | succ k =>
      rw [if_neg (by omega)]
      exact loadEntry_shows remembers (Nat.lt_of_succ_lt inside) (show s.histNav - 1 = k by omega)

theorem pressKey_shows (remembers : Remembers h past) (shows_ : ShowsLine past s e)
    (room : e.view.text.length < maxInput - 1) (c : UInt8) :
    ShowsLine past (pressKey h s c) (editKey past e c) := by
  rw [pressKey,editKey,keyOf]
  by_cases back : c = 0x08 ∨ c = 0x7F
  · rw [if_pos back,if_pos back]
    exact backspace_shows shows_
  rw [if_neg back,if_neg back]
  by_cases left : c = keyLeft
  · rw [if_pos left,if_pos left]
    exact left_shows shows_
  rw [if_neg left,if_neg left]
  by_cases right : c = keyRight
  · rw [if_pos right,if_pos right]
    exact right_shows shows_
  rw [if_neg right,if_neg right]
  by_cases up : c = keyUp
  · rw [if_pos up,if_pos up]
    exact up_shows remembers shows_
  rw [if_neg up,if_neg up]
  by_cases down : c = keyDown
  · rw [if_pos down,if_pos down]
    exact down_shows remembers shows_
  rw [if_neg down,if_neg down]
  by_cases printable : 0x20 ≤ c ∧ c ≤ 0x7E
  · rw [if_pos printable,if_pos printable]
    refine insert_shows shows_ room ?_
    rintro rfl
    exact absurd printable.1 (by decide)
  · rw [if_neg printable,if_neg printable]
    exact shows_

def remember (past : List Str) (line : Str) : List Str := if line = [] then past else (line::past).take historySize

theorem enter_spells (shows_ : ShowsLine past s e) : Spells (enterLine s) e.view.text := by
  refine shows_.text.congr ?_
  intro i le
  rw [enterLine,shows_.len]
  by_cases last : i = e.view.text.length
  · rw [last,Function.update_self,shows_.text.stop]
  · rw [Function.update_of_ne last]

theorem addHistory_remembers (remembers : Remembers h past) (shows_ : ShowsLine past s e)
    (room : e.view.text.length < maxInput - 1) :
    Remembers (addHistory h s) (remember past e.view.text) := by
  have len := shows_.len
  unfold addHistory remember
  by_cases empty : e.view.text = []
  · rw [if_neg (by rw [len,empty]; exact Nat.lt_irrefl 0),if_pos empty]
    exact remembers
  · rw [if_pos (by rw [len]; exact List.length_pos_iff.mpr empty),if_neg empty]
    obtain ⟨count,room_,write,entries,short⟩ := remembers
    have copied : Spells (strcpyFrom (h.history h.historyWrite) (enterLine s) 0 0 maxInput) e.view.text :=
      spells_strcpy (enter_spells shows_) (Nat.lt_of_lt_of_le room (Nat.sub_le _ _))
    unfold historySize at *
    refine ⟨?_,List.length_take_le _ _,Nat.mod_lt _ (by decide),?_,?_⟩
    · change (if h.historyCount < 10 then h.historyCount + 1 else h.historyCount) = _
      rw [List.length_take,List.length_cons,count]
      split <;> omega
    · intro k x found
      have inside := (List.getElem?_eq_some_iff.mp found).1
      rw [List.length_take] at inside
      rw [List.getElem?_take_of_lt (by omega)] at found
      cases k with
      | zero =>
        cases found
        have cell : ((h.historyWrite + 1) % 10 + 10 - 1 - 0) % 10 = h.historyWrite := by omega
        change Spells (Function.update h.history h.historyWrite _ (((h.historyWrite + 1) % 10 + 10 - 1 - 0) % 10)) _
        rw [cell,Function.update_self]
        exact copied
      | succ k =>
        have cell : ((h.historyWrite + 1) % 10 + 10 - 1 - (k + 1)) % 10 = (h.historyWrite + 10 - 1 - k) % 10 := by omega
        have other : (h.historyWrite + 10 - 1 - k) % 10 ≠ h.historyWrite := by omega
        change Spells (Function.update h.history h.historyWrite _ (((h.historyWrite + 1) % 10 + 10 - 1 - (k + 1)) % 10)) _
        rw [cell,Function.update_of_ne other]
        exact entries k x found
    · intro x member
      rcases List.mem_cons.mp (List.mem_of_mem_take member) with rfl | old
      · exact room
      · exact short x old

end

end SantOS.Shell
