import SantOS.Library.FlatText

namespace LineEditors
open FlatText

-- A line editor: a text with a cursor, and the place in a history of lines (the newest
-- first) that was recalled last.
structure Editor (α : Type) where
  view : View α
  recalled : Option Nat

inductive Key (α : Type) where
  | char (c : α)
  | backspace
  | left
  | right
  | up
  | down

section
variable {α : Type}

def blank : Editor α := ⟨⟨[],0⟩,none⟩

def older (n : Nat) : Option Nat → Option Nat
  | none => if 0 < n then some 0 else none
  | some k => if k+1 < n then some (k+1) else none

def recalledAt (past : List (List α)) (k : Nat) : Editor α := ⟨⟨past.getD k [],(past.getD k []).length⟩,some k⟩

def Editor.up (past : List (List α)) (e : Editor α) : Editor α :=
  match older past.length e.recalled with
  | some k => recalledAt past k
  | none => e

-- Past the newest line the text is cleared.
def Editor.down (past : List (List α)) (e : Editor α) : Editor α :=
  match e.recalled with
  | some (k+1) => recalledAt past k
  | some 0 => blank
  | none => e

def Editor.press (limit : Nat) (past : List (List α)) (e : Editor α) : Key α → Editor α
  | .char c => if e.view.text.length < limit then {e with view := e.view.insert c} else e
  | .backspace => {e with view := e.view.delete}
  | .left => {e with view := ⟨e.view.text,e.view.offset - 1⟩}
  | .right => {e with view := ⟨e.view.text,min (e.view.offset + 1) e.view.text.length⟩}
  | .up => e.up past
  | .down => e.down past

structure Editor.Sound (past : List (List α)) (e : Editor α) : Prop where
  cursor : e.view.offset ≤ e.view.text.length
  recalled : ∀ k, e.recalled = some k → k < past.length

variable {past : List (List α)} {e : Editor α}

theorem blank_sound (past : List (List α)) : (blank : Editor α).Sound past := ⟨Nat.le_refl _,by rintro k ⟨⟩⟩

theorem recall_sound (inside : k < past.length) : (recalledAt past k).Sound past := by
  refine ⟨Nat.le_refl _,?_⟩
  rintro _ ⟨⟩
  exact inside

theorem older_inside (step : older n recalled = some k) : k < n := by
  cases recalled with
  | none =>
    obtain ⟨some_,rfl⟩ : 0 < n ∧ 0 = k := by simpa [older] using step
    exact some_
  | some j =>
    obtain ⟨inside,rfl⟩ : j + 1 < n ∧ j + 1 = k := by simpa [older] using step
    exact inside

theorem press_sound (limit : Nat) (sound : e.Sound past) (key : Key α) : (e.press limit past key).Sound past := by
  obtain ⟨cursor,recalled⟩ := sound
  cases key with
  | char c =>
    unfold Editor.press
    dsimp only
    split
    · refine ⟨?_,recalled⟩
      simp only [View.insert,List.length_append,List.length_cons,List.length_take,List.length_drop]
      omega
    · exact ⟨cursor,recalled⟩
  | backspace =>
    refine ⟨?_,recalled⟩
    simp only [Editor.press,View.delete,List.length_append,List.length_take,List.length_drop]
    omega
  | left => exact ⟨Nat.le_trans (Nat.sub_le _ _) cursor,recalled⟩
  | right => exact ⟨Nat.min_le_right _ _,recalled⟩
  | up =>
    change (e.up past).Sound past
    unfold Editor.up
    split
    · next step => exact recall_sound (older_inside step)
    · exact ⟨cursor,recalled⟩
  | down =>
    change (e.down past).Sound past
    unfold Editor.down
    split
    · next step => exact recall_sound (Nat.lt_of_succ_lt (recalled _ step))
    · exact blank_sound past
    · exact ⟨cursor,recalled⟩

theorem Editor.Sound.parts (sound : e.Sound past) : ∃ a b, e.view = around a b := by
  refine ⟨e.view.text.take e.view.offset,e.view.text.drop e.view.offset,?_⟩
  rw [around,List.take_append_drop,List.length_take,Nat.min_eq_left sound.cursor]

end

end LineEditors
