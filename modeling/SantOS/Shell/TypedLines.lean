import SantOS.Shell.LineEditing

namespace SantOS.Shell
open CStrings FlatText LineEditors

def pressedKeys (h : History) (s : Line) (keys : List UInt8) : Line := keys.foldl (pressKey h) s

-- The lines the history should hold: the last ten that were not empty, the newest first.
def recent (entered : List Str) : List Str := ((entered.filter (fun line => line ≠ [])).reverse).take historySize

theorem remember_recent (entered : List Str) (line : Str) : remember (recent entered) line = recent (entered ++ [line]) := by
  unfold remember recent
  by_cases empty : line = []
  · simp [empty]
  · rw [if_neg empty,List.filter_append,List.reverse_append]
    simp [empty,historySize,List.take_take]

theorem remembered (entered : List Str) : entered.foldl remember [] = recent entered := by
  induction entered using List.reverseRecOn with
  | nil => rfl
  | append_singleton entered line ih => rw [List.foldl_append,ih,List.foldl_cons,List.foldl_nil,remember_recent]

section
variable {h : History} {past : List Str} {s : Line} {e : Editor UInt8}

theorem entered_text (shows_ : ShowsLine past s e) (room : e.view.text.length < maxInput - 1) :
    bufferString (enterLine s) maxInput = e.view.text :=
  spells_buffer (enter_spells shows_) (Nat.lt_of_lt_of_le room (Nat.sub_le _ _))

theorem typeKeys_remembers (remembers : Remembers h past) (shows_ : ShowsLine past s e)
    (room : e.view.text.length < maxInput - 1)
    (keys : List UInt8) : Remembers (typeKeys h s keys).history ((typeKeys h s keys).entered.foldl remember past) := by
  induction keys generalizing h past s e with
  | nil => exact remembers
  | cons c keys ih =>
    rw [typeKeys]
    split
    · have text := entered_text shows_ room
      have later := ih (addHistory_remembers remembers shows_ room) (newLine_shows _ (enterLine s)) (by decide)
      dsimp only
      rw [List.foldl_cons,text]
      exact later
    · have next := pressKey_shows remembers shows_ room c
      dsimp only
      split
      · next short => exact ih remembers next (by rwa [← next.len])
      · exact ih remembers (newLine_shows _ _) (by decide)

theorem other_key {c : UInt8} (noEnter : 0x0A ∉ c::keys) : c ≠ 0x0A := by
  rintro rfl
  exact noEnter List.mem_cons_self

theorem typeKeys_shows (remembers : Remembers h past) (shows_ : ShowsLine past s e)
    (room : ∀ n ≤ keys.length, (editedLine past e (keys.take n)).view.text.length < maxInput - 1) (noEnter : 0x0A ∉ keys) (more : List UInt8) :
    typeKeys h s (keys ++ more) = typeKeys h (pressedKeys h s keys) more ∧
      ShowsLine past (pressedKeys h s keys) (editedLine past e keys) := by
  induction keys generalizing s e with
  | nil => exact ⟨rfl,shows_⟩
  | cons c keys ih =>
    have next := pressKey_shows remembers shows_ (room 0 (Nat.zero_le _)) c
    have short := room 1 (Nat.succ_le_succ (Nat.zero_le _))
    change (editKey past e c).view.text.length < _ at short
    rw [← next.len] at short
    obtain ⟨typed,later⟩ := ih next (fun n le => room (n+1) (Nat.succ_le_succ le)) (fun member => noEnter (List.mem_cons_of_mem _ member))
    refine ⟨?_,later⟩
    rw [List.cons_append,typeKeys,if_neg (other_key noEnter)]
    dsimp only
    rw [if_pos short]
    exact typed

theorem typeLine_iff (remembers : Remembers h past) (shows_ : ShowsLine past s e) (room : e.view.text.length < maxInput - 1)
    (noEnter : 0x0A ∉ keys) :
    ((typeKeys h s (keys ++ [0x0A])).entered = [(editedLine past e keys).view.text] ∧ (typeKeys h s (keys ++ [0x0A])).dropped = []) ↔
      ∀ n ≤ keys.length, (editedLine past e (keys.take n)).view.text.length < maxInput - 1 := by
  constructor
  · induction keys generalizing s e with
    | nil =>
      rintro _ n le
      rw [Nat.le_zero.mp le]
      exact room
    | cons c keys ih =>
      rw [List.cons_append,typeKeys,if_neg (other_key noEnter)]
      dsimp only
      have next := pressKey_shows remembers shows_ room c
      split
      · next short =>
        intro typed n le
        cases n with
        | zero => exact room
        | succ n =>
          rw [next.len] at short
          exact ih next short (fun member => noEnter (List.mem_cons_of_mem _ member)) typed n (Nat.le_of_succ_le_succ le)
      · rintro ⟨_,dropped⟩
        cases dropped
  · intro rooms
    obtain ⟨typed,later⟩ := typeKeys_shows remembers shows_ rooms noEnter [0x0A]
    have last := rooms keys.length (Nat.le_refl _)
    rw [List.take_length] at last
    rw [typed,typeKeys,if_pos rfl]
    exact ⟨congrArg (fun text => [text]) (entered_text later last),rfl⟩

end

def typedBefore (earlier : List UInt8) : Typed := typeKeys noHistory (newLine (fun _ => 0)) earlier

theorem typedBefore_remembers (earlier : List UInt8) :
    Remembers (typedBefore earlier).history (recent (typedBefore earlier).entered) := by
  have kept := typeKeys_remembers noHistory_remembers (newLine_shows [] (fun _ => 0)) (by decide) earlier
  rwa [remembered] at kept

-- The inner loop ends without an Enter as soon as the line holds 255 characters, and the
-- next prompt starts with an empty one.
theorem typed_line_iff (earlier : List UInt8) (input : Nat → UInt8) (keys : List UInt8) (noEnter : 0x0A ∉ keys) :
    ((typeKeys (typedBefore earlier).history (newLine input) (keys ++ [0x0A])).entered =
        [(editedLine (recent (typedBefore earlier).entered) blank keys).view.text] ∧
      (typeKeys (typedBefore earlier).history (newLine input) (keys ++ [0x0A])).dropped = []) ↔
    ∀ n ≤ keys.length, (editedLine (recent (typedBefore earlier).entered) blank (keys.take n)).view.text.length < maxInput - 1 :=
  typeLine_iff (typedBefore_remembers earlier) (newLine_shows _ input) (by decide) noEnter

theorem typed_line_iff_corrected :
    (typeKeys (typedBefore []).history (newLine (fun _ => 0)) ([0x68,0x78,0x08,0x69] ++ [0x0A])).entered = [bytes "hi"] ∧
      (typeKeys (typedBefore []).history (newLine (fun _ => 0)) ([0x68,0x78,0x08,0x69] ++ [0x0A])).dropped = [] :=
  (typed_line_iff [] (fun _ => 0) [0x68,0x78,0x08,0x69] (by decide)).mpr (by decide)

def Printable (c : UInt8) : Prop := 0x20 ≤ c ∧ c ≤ 0x7E

theorem edit_printable (past : List Str) (e : Editor UInt8) (printable : Printable c) :
    editKey past e c = e.press (maxInput - 1) past (.char c) := by
  have other (key : UInt8) (outside : key < 0x20 ∨ 0x7E < key) : c ≠ key := by
    rintro rfl
    exact outside.elim (fun below => UInt8.not_lt.mpr printable.1 below) (fun above => UInt8.not_lt.mpr printable.2 above)
  have noBackspace : ¬(c = 0x08 ∨ c = 0x7F) := not_or.mpr ⟨other _ (by decide),other _ (by decide)⟩
  rw [editKey,keyOf,if_neg noBackspace,if_neg (other _ (by decide)),if_neg (other _ (by decide)),if_neg (other _ (by decide)),
    if_neg (other _ (by decide)),if_pos (show 0x20 ≤ c ∧ c ≤ 0x7E from printable)]
  rfl

theorem typed_text (past : List Str) (recalled : Option Nat) (before : Str) (printable : ∀ c ∈ text, Printable c)
    (fits : before.length + text.length ≤ maxInput - 1) :
    editedLine past ⟨around before [],recalled⟩ text = ⟨around (before ++ text) [],recalled⟩ := by
  induction text generalizing before with
  | nil =>
    rw [List.append_nil]
    rfl
  | cons c text ih =>
    rw [List.length_cons] at fits
    have room : (around before []).text.length < maxInput - 1 := by
      simp only [around,List.append_nil]
      omega
    have pressed : editKey past ⟨around before [],recalled⟩ c = ⟨around (before ++ [c]) [],recalled⟩ := by
      rw [edit_printable past _ (printable c List.mem_cons_self),Editor.press,if_pos room]
      dsimp only
      rw [around_insert]
    have rest := ih (before ++ [c]) (fun d member => printable d (List.mem_cons_of_mem _ member)) (by
      rw [List.length_append,List.length_singleton]
      omega)
    rw [List.append_assoc] at rest
    rw [editedLine,List.foldl_cons,pressed]
    exact rest

theorem full_text_dropped (printable : ∀ c ∈ text, Printable c) (full : text.length = maxInput - 1) :
    ¬((typeKeys (typedBefore []).history (newLine (fun _ => 0)) (text ++ [0x0A])).entered =
        [(editedLine (recent (typedBefore []).entered) blank text).view.text] ∧
      (typeKeys (typedBefore []).history (newLine (fun _ => 0)) (text ++ [0x0A])).dropped = []) := by
  intro typed
  have noEnter : 0x0A ∉ text := fun member => absurd (printable _ member).1 (by decide)
  have filled := (typeLine_iff (typedBefore_remembers []) (newLine_shows _ _) (by decide) noEnter).mp typed text.length (Nat.le_refl _)
  have all := typed_text (recent (typedBefore []).entered) none [] printable (by rw [full]; exact Nat.le_refl _)
  rw [List.take_length] at filled
  change (editedLine _ ⟨around [] [],none⟩ text).view.text.length < _ at filled
  rw [all] at filled
  simp only [around,List.nil_append,List.append_nil,full] at filled
  exact Nat.lt_irrefl _ filled

theorem full_line_dropped :
    ¬((typeKeys (typedBefore []).history (newLine (fun _ => 0)) (List.replicate 255 0x61 ++ [0x0A])).entered =
        [(editedLine (recent (typedBefore []).entered) blank (List.replicate 255 0x61)).view.text] ∧
      (typeKeys (typedBefore []).history (newLine (fun _ => 0)) (List.replicate 255 0x61 ++ [0x0A])).dropped = []) := by
  refine full_text_dropped ?_ List.length_replicate
  intro c member
  rw [(List.mem_replicate.mp member).2]
  exact ⟨by decide,by decide⟩

-- The recalled position is moved by Up and Down only.
def recallPosition (n : Nat) (position : Option Nat) (c : UInt8) : Option Nat :=
  if c = keyUp then (older n position).or position
  else if c = keyDown then position.bind (fun k => if k = 0 then none else some (k-1))
  else position

def Recalls (s : Line) (past : List Str) (k : Nat) : Prop :=
  ∃ line, past[k]? = some line ∧ Spells s.input line ∧ s.len = line.length ∧ s.cursor = line.length ∧ s.histNav = k

structure Cleared (s : Line) : Prop where
  text : Spells s.input []
  len : s.len = 0
  cursor : s.cursor = 0
  histNav : s.histNav = -1

section
variable {h : History} {past : List Str} {s : Line} {e : Editor UInt8}

theorem recalled_key (past : List Str) (e : Editor UInt8) (c : UInt8) :
    (editKey past e c).recalled = recallPosition past.length e.recalled c := by
  rw [recallPosition]
  by_cases up : c = keyUp
  · rw [if_pos up,up]
    change (e.up past).recalled = _
    unfold Editor.up
    cases older past.length e.recalled <;> rfl
  rw [if_neg up]
  by_cases down : c = keyDown
  · rw [if_pos down,down]
    change (e.down past).recalled = _
    unfold Editor.down
    cases at_ : e.recalled with
    | none => exact at_
    | some k => cases k <;> rfl
  rw [if_neg down,editKey,keyOf]
  split
  · rfl
  split
  · rfl
  split
  · rfl
  split
  · change (e.press _ past (.char c)).recalled = _
    rw [Editor.press]
    split <;> rfl
  · rfl

theorem recalled_line (past : List Str) (e : Editor UInt8) (keys : List UInt8) :
    (editedLine past e keys).recalled = keys.foldl (recallPosition past.length) e.recalled := by
  induction keys generalizing e with
  | nil => rfl
  | cons c keys ih =>
    rw [List.foldl_cons,← recalled_key]
    exact ih (editKey past e c)

theorem ShowsLine.recalls (shows_ : ShowsLine past s (recalledAt past k)) (inside : k < past.length) : Recalls s past k := by
  refine ⟨past.getD k [],?_,shows_.text,shows_.len,shows_.cursor,shows_.histNav⟩
  rw [List.getD_eq_getElem _ _ inside,List.getElem?_eq_getElem inside]

theorem up_stays (remembers : Remembers h past) (shows_ : ShowsLine past s e)
    (oldest : older past.length e.recalled = none) : pressUp h s = s := by
  have position := shows_.histNav
  have count := remembers.count
  unfold pressUp
  cases at_ : e.recalled with
  | none =>
    rw [at_] at oldest
    have empty : ¬0 < past.length := fun some_ => by simp [older,some_] at oldest
    rw [if_neg (by omega)]
  | some k =>
    rw [at_] at oldest position
    change s.histNav = (k : Int) at position
    have inside := shows_.sound.recalled k at_
    have last : ¬k + 1 < past.length := fun more => by simp [older,more] at oldest
    rw [if_pos (by omega),if_neg (by omega),if_neg (by omega)]

theorem down_stays (shows_ : ShowsLine past s e) (none_ : e.recalled = none) : pressDown h s = s := by
  have position := shows_.histNav
  rw [none_] at position
  change s.histNav = -1 at position
  rw [pressDown,if_neg (by omega)]

end

-- Editing keys between the moves change neither the history nor the position, and every
-- move to a position loads the line of the history that stands there.
theorem recalls_history (earlier : List UInt8) (input : Nat → UInt8) (keys : List UInt8) (noEnter : 0x0A ∉ keys)
    (room : ∀ n ≤ keys.length, (editedLine (recent (typedBefore earlier).entered) blank (keys.take n)).view.text.length < maxInput - 1) :
    let h := (typedBefore earlier).history
    let past := recent (typedBefore earlier).entered
    let position := keys.foldl (recallPosition past.length) none
    past.length = min historySize ((typedBefore earlier).entered.filter (fun line => line ≠ [])).length ∧
    ∃ s, typeKeys h (newLine input) keys = ⟨[],[],h,s⟩ ∧ s.histNav = nav position ∧
      (∀ k, older past.length position = some k → Recalls (pressKey h s keyUp) past k) ∧
      (older past.length position = none → pressKey h s keyUp = s) ∧
      (∀ k, position = some (k+1) → Recalls (pressKey h s keyDown) past k) ∧
      (position = some 0 → Cleared (pressKey h s keyDown)) ∧
      (position = none → pressKey h s keyDown = s) := by
  have remembers := typedBefore_remembers earlier
  intro h past position
  obtain ⟨typed,shows_⟩ := typeKeys_shows remembers (newLine_shows past input) room noEnter []
  rw [List.append_nil] at typed
  have at_ : (editedLine past blank keys).recalled = position := recalled_line past blank keys
  have nav_ := shows_.histNav
  rw [at_] at nav_
  have up : pressKey h (pressedKeys h (newLine input) keys) keyUp = pressUp h (pressedKeys h (newLine input) keys) := rfl
  have down : pressKey h (pressedKeys h (newLine input) keys) keyDown = pressDown h (pressedKeys h (newLine input) keys) := rfl
  have upper := up_shows remembers shows_
  have lower := down_shows remembers shows_
  rw [Editor.up,at_] at upper
  rw [Editor.down,at_] at lower
  refine ⟨?_,_,typed,nav_,?_,?_,?_,?_,?_⟩
  · simp only [past,recent,List.length_take,List.length_reverse]
  · intro k step
    rw [step] at upper
    rw [up]
    exact upper.recalls (older_inside step)
  · intro oldest
    rw [up]
    exact up_stays remembers shows_ (by rwa [at_])
  · intro k step
    rw [step] at lower
    rw [down]
    exact lower.recalls (Nat.lt_of_succ_lt (shows_.sound.recalled _ (at_.trans step)))
  · intro newest
    rw [newest] at lower
    rw [down]
    exact ⟨lower.text,lower.len,lower.cursor,lower.histNav⟩
  · intro none_
    rw [down]
    exact down_stays shows_ (at_.trans none_)

theorem recalls_history_edited :
    ∃ s, typeKeys (typedBefore (bytes "ls\ncd\n")).history (newLine (fun _ => 0)) [keyUp,0x08] =
        ⟨[],[],(typedBefore (bytes "ls\ncd\n")).history,s⟩ ∧
      Recalls (pressKey (typedBefore (bytes "ls\ncd\n")).history s keyUp) [bytes "cd",bytes "ls"] 1 := by
  have past : recent (typedBefore (bytes "ls\ncd\n")).entered = [bytes "cd",bytes "ls"] := by decide
  have recalled := recalls_history (bytes "ls\ncd\n") (fun _ => 0) [keyUp,0x08] (by decide) (by rw [past]; decide)
  dsimp only at recalled
  rw [past] at recalled
  obtain ⟨_,s,typed,_,up,_⟩ := recalled
  exact ⟨s,typed,up 1 (by decide)⟩

end SantOS.Shell
