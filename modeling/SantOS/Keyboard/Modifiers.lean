import SantOS.Keyboard.Handler
import SantOS.Library.Runs

namespace SantOS.Keyboard
open Runs

-- A key of one byte that is no modifier. Its release is the code with the high bit set, which
-- is not the prefix 0xE0.
structure PlainCode where
  code : UInt8
  make : code < 0x80
  noShift : code ≠ 0x2A ∧ code ≠ 0x36
  noCtrl : code ≠ 0x1D
  noExtension : code ≠ 0x60

-- A key behind the prefix 0xE0 other than right Ctrl. The codes 0x2A and 0x36 are no keys of
-- their own: Print Screen and the navigation keys send them with their own code.
structure ExtendedCode where
  code : UInt8
  make : code < 0x80
  noCtrl : code ≠ 0x1D
  noExtension : code ≠ 0x60

inductive Key where
  | leftShift
  | rightShift
  | leftCtrl
  | rightCtrl
  | plain (key : PlainCode)
  | extended (key : ExtendedCode)
  | pause

inductive KeyEvent where
  | press (key : Key)
  | release (key : Key)

-- Pause sends all its bytes when it is pressed.
def KeyEvent.scancode : KeyEvent → List UInt8
  | .press .leftShift => [0x2A]
  | .press .rightShift => [0x36]
  | .press .leftCtrl => [0x1D]
  | .press .rightCtrl => [0xE0,0x1D]
  | .press (.plain key) => [key.code]
  | .press (.extended key) => [0xE0,key.code]
  | .press .pause => [0xE1,0x1D,0x45,0xE1,0x9D,0xC5]
  | .release .leftShift => [0xAA]
  | .release .rightShift => [0xB6]
  | .release .leftCtrl => [0x9D]
  | .release .rightCtrl => [0xE0,0x9D]
  | .release (.plain key) => [key.code + 0x80]
  | .release (.extended key) => [0xE0,key.code + 0x80]
  | .release .pause => []

structure Held where
  leftShift : Bool
  rightShift : Bool
  leftCtrl : Bool
  rightCtrl : Bool

def Held.shift (h : Held) : Bool := h.leftShift || h.rightShift
def Held.ctrl (h : Held) : Bool := h.leftCtrl || h.rightCtrl

def Held.none : Held := ⟨false,false,false,false⟩

def Held.after (h : Held) : KeyEvent → Held
  | .press .leftShift => {h with leftShift := true}
  | .press .rightShift => {h with rightShift := true}
  | .press .leftCtrl => {h with leftCtrl := true}
  | .press .rightCtrl => {h with rightCtrl := true}
  | .release .leftShift => {h with leftShift := false}
  | .release .rightShift => {h with rightShift := false}
  | .release .leftCtrl => {h with leftCtrl := false}
  | .release .rightCtrl => {h with rightCtrl := false}
  | _ => h

def held (events : List KeyEvent) : Held := events.foldl Held.after .none

def interrupts (k : State) (scancode : List UInt8) : State := scancode.foldl keyboardHandler k
def atRest (k : State) : State := {k with shiftPressed := false, ctrlPressed := false, e0Prefix := false}
def typed (k : State) (events : List KeyEvent) : State := events.foldl (fun k event => interrupts k event.scancode)
    (atRest k)

structure Matches (k : State) (h : Held) : Prop where
  shift : k.shiftPressed = h.shift
  ctrl : k.ctrlPressed = h.ctrl

def Tracked (k : State) (events : List KeyEvent) : Prop :=
  ∀ before after, events = before ++ after → Matches (typed k before) (held before)

def fakeShift (key : ExtendedCode) : Bool := key.code == 0x2A || key.code == 0x36

def Safe (h : Held) : KeyEvent → Prop
  | .press .rightCtrl => h.ctrl = true
  | .press (.extended key) => fakeShift key = true → h.shift = true
  | .press .pause => h.ctrl = false
  | .release .leftShift => h.rightShift = false
  | .release .rightShift => h.leftShift = false
  | .release .leftCtrl => h.rightCtrl = false
  | .release .rightCtrl => h.leftCtrl = false
  | .release (.extended key) => fakeShift key = true → h.shift = false
  | _ => True

def shiftAfter (shift : Bool) : KeyEvent → Bool
  | .press .leftShift => true
  | .press .rightShift => true
  | .press (.extended key) => fakeShift key || shift
  | .release .leftShift => false
  | .release .rightShift => false
  | .release (.extended key) => !fakeShift key && shift
  | _ => shift

def ctrlAfter (ctrl : Bool) : KeyEvent → Bool
  | .press .leftCtrl => true
  | .press .pause => false
  | .release .leftCtrl => false
  | .release .rightCtrl => false
  | _ => ctrl

section
variable {k : State} {h : Held} {c : UInt8} {shift ctrl extended : Bool}

structure Flags (k : State) (shift ctrl extended : Bool) : Prop where
  shift : k.shiftPressed = shift
  ctrl : k.ctrlPressed = ctrl
  extended : k.e0Prefix = extended

theorem addToBuffer_flags (flags : Flags k shift ctrl extended) (c : UInt8) :
    Flags (addToBuffer k c) shift ctrl extended := by
  unfold addToBuffer
  split
  · dsimp only
    split
    · exact ⟨flags.shift,flags.ctrl,flags.extended⟩
    · exact flags
  · exact flags

theorem handler_extended (flags : Flags k shift ctrl extended) :
    Flags (keyboardHandler k 0xE0) shift ctrl true := ⟨flags.shift,flags.ctrl,rfl⟩

theorem handler_shift (flags : Flags k shift ctrl extended) (key : c = 0x2A ∨ c = 0x36) :
    Flags (keyboardHandler k c) true ctrl false := by
  rcases key with rfl | rfl <;> exact ⟨rfl,flags.ctrl,rfl⟩

theorem handler_shift_release (flags : Flags k shift ctrl extended) (key : c = 0xAA ∨ c = 0xB6) :
    Flags (keyboardHandler k c) false ctrl false := by
  rcases key with rfl | rfl <;> exact ⟨rfl,flags.ctrl,rfl⟩

theorem handler_ctrl (flags : Flags k shift ctrl false) : Flags (keyboardHandler k 0x1D) shift true false := by
  have handled : keyboardHandler k 0x1D = {k with ctrlPressed := true, e0Prefix := false} := by
    simp [keyboardHandler,flags.extended]
  rw [handled]
  exact ⟨flags.shift,rfl,rfl⟩

theorem handler_ctrl_release (flags : Flags k shift ctrl extended) :
    Flags (keyboardHandler k 0x9D) shift false false := ⟨flags.shift,rfl,rfl⟩

-- A byte that is neither the prefix nor a modifier's. A Ctrl press behind the prefix is one.
structure OtherByte (extended : Bool) (c : UInt8) : Prop where
  noExtension : c ≠ 0xE0
  noShift : ¬(c = 0x2A ∨ c = 0x36)
  noShiftRelease : ¬(c = 0xAA ∨ c = 0xB6)
  noCtrl : c = 0x1D → extended = true
  noCtrlRelease : c ≠ 0x9D

theorem handler_other (flags : Flags k shift ctrl extended) (other : OtherByte extended c) :
    Flags (keyboardHandler k c) shift ctrl false := by
  have noCtrl : ¬(c = 0x1D ∧ ¬k.e0Prefix = true) := by
    rintro ⟨key,plain⟩
    rw [flags.extended] at plain
    exact plain (other.noCtrl key)
  have cleared : Flags {k with e0Prefix := false} shift ctrl false := ⟨flags.shift,flags.ctrl,rfl⟩
  rw [keyboardHandler,if_neg other.noExtension,if_neg other.noShift,if_neg other.noShiftRelease,if_neg noCtrl,if_neg other.noCtrlRelease]
  split
  · exact cleared
  · exact addToBuffer_flags cleared _

theorem make_other (make : c < 0x80) (noShift : ¬(c = 0x2A ∨ c = 0x36)) (noCtrl : c = 0x1D → extended = true) :
    OtherByte extended c := by
  have low (d : UInt8) (high : 0x80 ≤ d) : c ≠ d := by
    rintro rfl
    exact absurd make (UInt8.not_lt.mpr high)
  refine ⟨low _ (by decide),noShift,?_,noCtrl,low _ (by decide)⟩
  rintro (left | right)
  · exact low _ (by decide) left
  · exact low _ (by decide) right

theorem break_code {d : UInt8} (same : c + 0x80 = d) : c = d - 0x80 := by
  rw [← same,UInt8.add_sub_cancel]

theorem break_other (make : c < 0x80) (noShift : ¬(c = 0x2A ∨ c = 0x36)) (noCtrl : c ≠ 0x1D) (noExtension : c ≠ 0x60) :
    OtherByte extended (c + 0x80) := by
  have low (d : UInt8) (high : 0x80 ≤ d) : c ≠ d := by
    rintro rfl
    exact absurd make (UInt8.not_lt.mpr high)
  refine ⟨fun same => noExtension (break_code same),?_,?_,
    fun same => absurd (break_code same) (low _ (by decide)),fun same => noCtrl (break_code same)⟩
  · rintro (left | right)
    · exact low _ (by decide) (break_code left)
    · exact low _ (by decide) (break_code right)
  · rintro (left | right)
    · exact noShift (.inl (break_code left))
    · exact noShift (.inr (break_code right))

theorem fakeShift_iff (key : ExtendedCode) : fakeShift key = true ↔ key.code = 0x2A ∨ key.code = 0x36 := by
  simp [fakeShift]

-- Behind the prefix, a fake shift is taken for a shift key, and every other key for itself.
theorem extended_press_flags (flags : Flags k shift ctrl true) (key : ExtendedCode) :
    Flags (keyboardHandler k key.code) (fakeShift key || shift) ctrl false := by
  by_cases fake : key.code = 0x2A ∨ key.code = 0x36
  · rw [(fakeShift_iff key).mpr fake]
    exact handler_shift flags fake
  · rw [Bool.eq_false_iff.mpr (mt (fakeShift_iff key).mp fake)]
    exact handler_other flags (make_other key.make fake (fun _ => rfl))

theorem extended_release_flags (flags : Flags k shift ctrl true) (key : ExtendedCode) :
    Flags (keyboardHandler k (key.code + 0x80)) (!fakeShift key && shift) ctrl false := by
  by_cases fake : key.code = 0x2A ∨ key.code = 0x36
  · have code : key.code + 0x80 = 0xAA ∨ key.code + 0x80 = 0xB6 := by
      rcases fake with left | right
      · rw [left]
        exact .inl rfl
      · rw [right]
        exact .inr rfl
    rw [(fakeShift_iff key).mpr fake]
    exact handler_shift_release flags code
  · rw [Bool.eq_false_iff.mpr (mt (fakeShift_iff key).mp fake)]
    exact handler_other flags (break_other key.make fake key.noCtrl key.noExtension)

theorem event_flags (flags : Flags k shift ctrl false) (event : KeyEvent) :
    Flags (interrupts k event.scancode) (shiftAfter shift event) (ctrlAfter ctrl event) false := by
  have other (key : PlainCode) : ¬(key.code = 0x2A ∨ key.code = 0x36) := not_or.mpr key.noShift
  cases event with
  | press key =>
    cases key with
    | leftShift => exact handler_shift flags (.inl rfl)
    | rightShift => exact handler_shift flags (.inr rfl)
    | leftCtrl => exact handler_ctrl flags
    | rightCtrl => exact handler_other (handler_extended flags) (make_other (c := 0x1D) (by decide) (by decide) (fun _ => rfl))
    | plain key => exact handler_other flags (make_other key.make (other key) (fun same => absurd same key.noCtrl))
    | extended key => exact extended_press_flags (handler_extended flags) key
    | pause =>
      have down := handler_ctrl (handler_other flags (c := 0xE1) ⟨by decide,by decide,by decide,by decide,by decide⟩)
      have numLock := handler_other down (make_other (c := 0x45) (by decide) (by decide) (by decide))
      have second := handler_other numLock (c := 0xE1) ⟨by decide,by decide,by decide,by decide,by decide⟩
      exact handler_other (handler_ctrl_release second) (c := 0xC5) ⟨by decide,by decide,by decide,by decide,by decide⟩
  | release key =>
    cases key with
    | leftShift => exact handler_shift_release flags (.inl rfl)
    | rightShift => exact handler_shift_release flags (.inr rfl)
    | leftCtrl => exact handler_ctrl_release flags
    | rightCtrl => exact handler_ctrl_release (handler_extended flags)
    | plain key => exact handler_other flags (break_other key.make (other key) key.noCtrl key.noExtension)
    | extended key => exact extended_release_flags (handler_extended flags) key
    | pause => exact flags

theorem safe_iff (h : Held) (event : KeyEvent) :
    (shiftAfter h.shift event = (h.after event).shift ∧ ctrlAfter h.ctrl event = (h.after event).ctrl) ↔ Safe h event := by
  obtain ⟨leftShift,rightShift,leftCtrl,rightCtrl⟩ := h
  cases event with
  | press key => cases key <;> simp [shiftAfter,ctrlAfter,Held.shift,Held.ctrl,Held.after,Safe]
  | release key =>
    cases key with
    | extended key => cases fake : fakeShift key <;> simp [shiftAfter,ctrlAfter,Held.shift,Held.ctrl,Held.after,Safe,fake]
    | _ => simp [shiftAfter,ctrlAfter,Held.shift,Held.ctrl,Held.after,Safe]

def Complete (k : State) : Prop := k.e0Prefix = false

theorem Matches.flags (matches_ : Matches k h) (plain : Complete k) : Flags k h.shift h.ctrl false :=
  ⟨matches_.shift,matches_.ctrl,plain⟩

theorem typed_complete (k : State) (events : List KeyEvent) : Complete (typed k events) := by
  have kept : ∀ k : State, Complete k → Complete (events.foldl (fun k event => interrupts k event.scancode) k) := by
    induction events with
    | nil => exact fun k plain => plain
    | cons event events ih => exact fun k plain => ih _ (event_flags ⟨rfl,rfl,plain⟩ event).extended
  exact kept _ rfl

-- The flags are the keys' after every scancode exactly when no release clears the flag of a key
-- that is still down, no right Ctrl is pressed alone, and no fake shift or Pause contradicts
-- the keys.
theorem modifiers_tracked_iff (k : State) (events : List KeyEvent) :
    Tracked k events ↔ ∀ before event after, events = before ++ event::after → Safe (held before) event := by
  have exactly : ∀ (k : State) (h : Held) (event : KeyEvent), (Complete k ∧ Matches k h) →
      (Complete (interrupts k event.scancode) ∧ Matches (interrupts k event.scancode) (h.after event) ↔ Safe h event) := by
    rintro k h event ⟨plain,matches_⟩
    have flags := event_flags (matches_.flags plain) event
    rw [← safe_iff]
    constructor
    · rintro ⟨_,shift,ctrl⟩
      exact ⟨flags.shift.symm.trans shift,flags.ctrl.symm.trans ctrl⟩
    · rintro ⟨shift,ctrl⟩
      exact ⟨flags.extended,flags.shift.trans shift,flags.ctrl.trans ctrl⟩
  have both := related_iff exactly (s := atRest k) (t := .none) ⟨rfl,rfl,rfl⟩ events
  constructor
  · intro tracked
    exact both.mp (fun before after split => ⟨typed_complete k before,tracked before after split⟩)
  · intro safely before after split
    exact (both.mpr safely before after split).2

-- Both shift keys down and the left one released; right Ctrl alone; right Ctrl pressed and
-- released while left Ctrl is down.
def boot : State := ⟨fun _ => 0,0,0,false,false,false⟩
def shifts : List KeyEvent := [.press .leftShift,.press .rightShift,.release .leftShift]
def rightCtrlAlone : List KeyEvent := [.press .rightCtrl]
def ctrls : List KeyEvent := [.press .leftCtrl,.press .rightCtrl,.release .rightCtrl]

theorem modifiers_forgotten :
    ((typed boot shifts).shiftPressed = false ∧ (held shifts).shift = true ∧ ¬Tracked boot shifts) ∧
    ((typed boot rightCtrlAlone).ctrlPressed = false ∧ (held rightCtrlAlone).ctrl = true ∧ ¬Tracked boot rightCtrlAlone) ∧
    (typed boot ctrls).ctrlPressed = false ∧ (held ctrls).ctrl = true ∧ ¬Tracked boot ctrls := by
  have wrong (events : List KeyEvent) (differ : ¬Matches (typed boot events) (held events)) : ¬Tracked boot events :=
    fun tracked => differ (tracked events [] (List.append_nil events).symm)
  refine ⟨⟨rfl,rfl,wrong _ ?_⟩,⟨rfl,rfl,wrong _ ?_⟩,rfl,rfl,wrong _ ?_⟩
  · intro same
    cases same.shift
  · intro same
    cases same.ctrl
  · intro same
    cases same.ctrl

end

end SantOS.Keyboard
