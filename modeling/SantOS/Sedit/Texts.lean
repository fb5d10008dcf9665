import SantOS.Fat12.WellFormed
import SantOS.Sedit.Keys

namespace SantOS.Sedit
open CStrings Fat12 FlatText

def arrowKey (c : Int) : Prop := c = keyUp ∨ c = keyDown ∨ c = keyLeft ∨ c = keyRight
def enterKey (c : Int) : Prop := c = 10 ∨ c = 13
def eraseKey (c : Int) : Prop := c = 8 ∨ c = 127
def printableKey (c : Int) : Prop := 32 ≤ c ∧ c ≤ 126

-- What a key does to the one text and the cursor's offset in it.
inductive EditsText (c : Int) (e e' : Editor) : Prop where
  | insert : printableKey c → (bufferView e' =
      if strlen (e.lines e.cursorRow) = 255 then bufferView e else (bufferView e).insert (UInt8.ofInt c)) →
      EditsText c e e'
  | newline : enterKey c → (bufferView e' =
      if e.lineCount = 1000 then bufferView e else (bufferView e).insert 10) → EditsText c e e'
  | erase : eraseKey c → (bufferView e' =
      if e.cursorCol = 0 ∧ 0 < e.cursorRow ∧ 255 < strlen (e.lines (e.cursorRow - 1)) + strlen (e.lines e.cursorRow)
      then bufferView e else (bufferView e).delete) → EditsText c e e'
  | arrow : arrowKey c → (bufferView e').text = (bufferView e).text →
      (bufferView e').offset ≤ (bufferView e').text.length →
      (c = keyLeft → (bufferView e').offset = (bufferView e).offset - 1) →
      (c = keyRight → (bufferView e').offset = min ((bufferView e).offset + 1) (bufferView e).text.length) →
      EditsText c e e'
  | other : ¬ arrowKey c → ¬ enterKey c → ¬ eraseKey c → ¬ printableKey c → bufferView e' = bufferView e →
      EditsText c e e'

inductive TextRun : Editor → List Int → Editor → Prop where
  | none : TextRun e [] e
  | key : EditsText c e e' → TextRun e' keys e'' → TextRun e (c::keys) e''

section
variable {e : Editor} {pre post : List Str}

theorem Valid.cursor (valid : Valid e) : ∃ pre a b post, Shows e pre (a ++ b) post a.length := by
  obtain ⟨pre,l,post,c,shows_⟩ := valid.shows
  refine ⟨pre,l.take c,l.drop c,post,?_⟩
  rw [List.take_append_drop,List.length_take_of_le shows_.inside]
  exact shows_

theorem printable_byte (printable : printableKey c) : 32 ≤ (UInt8.ofInt c).toNat := by
  obtain ⟨low,high⟩ := printable
  simp only [UInt8.ofInt,UInt8.toNat_ofNat']
  omega

theorem printable_ne (printable : printableKey c) {b : UInt8} (low : b.toNat < 32) : UInt8.ofInt c ≠ b := by
  have high := printable_byte printable
  rintro rfl
  omega

theorem insert_text (valid : Valid e) (nonzero : x ≠ 0) : Valid (insertChar e x) ∧ bufferView (insertChar e x) =
    if strlen (e.lines e.cursorRow) = 255 then bufferView e else (bufferView e).insert x := by
  obtain ⟨pre,a,b,post,shows_⟩ := valid.cursor
  have short := shows_.cursor_line.2
  rw [shows_.len]
  unfold maxLineLen at short
  by_cases full : (a ++ b).length = 255
  · rw [full_line_shows shows_ (by unfold maxLineLen; omega),if_pos full]
    exact ⟨valid,rfl⟩
  · have after := insert_shows shows_ (show _ < 256 - 1 by omega) nonzero
    rw [if_neg full,after.viewed,shows_.viewed]
    exact ⟨after.valid,view_insert 10 x⟩

theorem enter_text (valid : Valid e) : Valid (enter e) ∧ bufferView (enter e) =
    if e.lineCount = 1000 then bufferView e else (bufferView e).insert 10 := by
  have few := valid.fewLines
  unfold maxLines at few
  by_cases full : e.lineCount = 1000
  · rw [full_buffer_shows (by unfold maxLines; omega),if_pos full]
    exact ⟨valid,rfl⟩
  · obtain ⟨pre,a,b,post,shows_⟩ := valid.cursor
    have after := enter_shows shows_ (show _ < 1000 by omega)
    rw [if_neg full,after.viewed,shows_.viewed]
    exact ⟨after.valid,view_split 10⟩

theorem backspace_text (valid : Valid e) : Valid (backspace e) ∧ bufferView (backspace e) =
    if e.cursorCol = 0 ∧ 0 < e.cursorRow ∧ 255 < strlen (e.lines (e.cursorRow - 1)) + strlen (e.lines e.cursorRow)
    then bufferView e else (bufferView e).delete := by
  obtain ⟨pre,a,b,post,shows_⟩ := valid.cursor
  rcases List.eq_nil_or_concat a with rfl | ⟨a,x,rfl⟩
  · rcases List.eq_nil_or_concat pre with rfl | ⟨pre,m,rfl⟩
    · -- the cursor is at the start of the text
      have still : backspace e = e := by
        unfold backspace
        rw [if_neg (by rw [shows_.col]; simp),if_neg (by rw [shows_.row]; simp)]
      rw [still,if_neg (by rw [shows_.row]; simp),shows_.viewed]
      exact ⟨valid,by simp [View.delete,view,ended]⟩
    · rw [List.concat_eq_append,List.nil_append,List.length_nil] at shows_
      have before := shows_.cell_at
      have row : e.cursorRow - 1 = pre.length := by rw [shows_.row]; simp
      rw [row,shows_.len,strlen_spells before.1 before.2]
      by_cases long : 255 < m.length + b.length
      · rw [long_join_shows shows_ (by unfold maxLineLen; omega),if_pos ⟨shows_.col,by rw [shows_.row]; simp,long⟩]
        exact ⟨valid,rfl⟩
      · have after := join_shows shows_ (show _ < 256 by omega)
        rw [if_neg (fun refused => long refused.2.2),after.viewed,shows_.viewed]
        exact ⟨after.valid,view_join 10⟩
  · rw [List.concat_eq_append,List.append_assoc,List.singleton_append,List.length_append,List.length_singleton] at shows_
    have after := delete_shows shows_
    rw [if_neg (by rw [shows_.col]; omega),after.viewed,shows_.viewed]
    exact ⟨after.valid,view_delete 10 x⟩

theorem left_text (valid : Valid e) : Valid (pressLeft e) ∧ (bufferView (pressLeft e)).text = (bufferView e).text ∧
    (bufferView (pressLeft e)).offset = (bufferView e).offset - 1 := by
  obtain ⟨pre,a,b,post,shows_⟩ := valid.cursor
  rcases List.eq_nil_or_concat a with rfl | ⟨a,x,rfl⟩
  · rcases List.eq_nil_or_concat pre with rfl | ⟨pre,m,rfl⟩
    · have still : pressLeft e = e := by
        unfold pressLeft
        rw [if_neg (by rw [shows_.col]; simp),if_neg (by rw [shows_.row]; simp)]
      rw [still,shows_.viewed]
      exact ⟨valid,rfl,rfl⟩
    · rw [List.concat_eq_append,List.nil_append,List.length_nil] at shows_
      have after := wrap_left_shows shows_
      rw [after.viewed,shows_.viewed,view_lineEnd]
      exact ⟨after.valid,rfl,rfl⟩
  · rw [List.concat_eq_append,List.length_append,List.length_singleton] at shows_
    have after := left_shows shows_
    rw [after.viewed,shows_.viewed]
    exact ⟨after.valid,rfl,rfl⟩

theorem right_text (valid : Valid e) : Valid (pressRight e) ∧ (bufferView (pressRight e)).text = (bufferView e).text ∧
    (bufferView (pressRight e)).offset = min ((bufferView e).offset + 1) (bufferView e).text.length := by
  obtain ⟨pre,l,post,c,shows_⟩ := valid.shows
  have inside := shows_.inside
  by_cases within : c < l.length
  · have after := right_shows shows_ within
    have bound : (view 10 pre l post (c+1)).offset ≤ (view 10 pre l post (c+1)).text.length := view_offset_le 10 within
    rw [after.viewed,shows_.viewed]
    exact ⟨after.valid,rfl,(Nat.min_eq_left bound).symm⟩
  · obtain rfl : c = l.length := by omega
    cases post with
    | nil =>
      have still : pressRight e = e := by
        have count := shows_.count
        rw [List.length_append,List.length_singleton] at count
        unfold pressRight
        rw [shows_.len,if_neg (by rw [shows_.col]; omega),if_neg (by rw [shows_.row]; omega)]
      rw [still,shows_.viewed,← view_end,Nat.min_eq_right (Nat.le_succ _)]
      exact ⟨valid,rfl,rfl⟩
    | cons m post =>
      have after := wrap_right_shows shows_
      have bound : (view 10 (pre ++ [l]) m post 0).offset ≤ (view 10 (pre ++ [l]) m post 0).text.length :=
        view_offset_le 10 (Nat.zero_le m.length)
      have next := view_nextLine 10 pre post m l
      rw [next] at bound
      rw [after.viewed,shows_.viewed,next]
      exact ⟨after.valid,rfl,(Nat.min_eq_left bound).symm⟩

theorem up_text (valid : Valid e) : Valid (pressUp e) ∧ (bufferView (pressUp e)).text = (bufferView e).text := by
  obtain ⟨pre,l,post,c,shows_⟩ := valid.shows
  rcases List.eq_nil_or_concat pre with rfl | ⟨pre,m,rfl⟩
  · have still : pressUp e = e := by
      unfold pressUp
      rw [if_neg (by rw [shows_.row]; simp)]
    rw [still]
    exact ⟨valid,rfl⟩
  · rw [List.concat_eq_append] at shows_
    have after := up_shows shows_
    rw [after.viewed,shows_.viewed]
    exact ⟨after.valid,view_text_line 10⟩

theorem down_text (valid : Valid e) : Valid (pressDown e) ∧ (bufferView (pressDown e)).text = (bufferView e).text := by
  obtain ⟨pre,l,post,c,shows_⟩ := valid.shows
  cases post with
  | nil =>
    have count := shows_.count
    rw [List.length_append,List.length_singleton] at count
    have still : pressDown e = e := by
      unfold pressDown
      rw [if_neg (by rw [shows_.row]; omega)]
    rw [still]
    exact ⟨valid,rfl⟩
  | cons m post =>
    have after := down_shows shows_
    rw [after.viewed,shows_.viewed]
    exact ⟨after.valid,(view_text_line 10).symm⟩

theorem Valid.offset_le (valid : Valid e) : (bufferView e).offset ≤ (bufferView e).text.length := by
  obtain ⟨pre,l,post,c,shows_⟩ := valid.shows
  rw [shows_.viewed]
  exact view_offset_le 10 shows_.inside

theorem edit_cases (edited : edit e c = some e') :
    c = keyUp ∧ e' = pressUp e ∨ c = keyDown ∧ e' = pressDown e ∨ c = keyLeft ∧ e' = pressLeft e ∨
    c = keyRight ∧ e' = pressRight e ∨ enterKey c ∧ e' = enter e ∨ eraseKey c ∧ e' = backspace e ∨
    printableKey c ∧ e' = insertChar e (UInt8.ofInt c) := by
  unfold edit at edited
  split_ifs at edited with up down left right newline erase printable <;> cases edited
  · exact .inl ⟨up,rfl⟩
  · exact .inr (.inl ⟨down,rfl⟩)
  · exact .inr (.inr (.inl ⟨left,rfl⟩))
  · exact .inr (.inr (.inr (.inl ⟨right,rfl⟩)))
  · exact .inr (.inr (.inr (.inr (.inl ⟨newline,rfl⟩))))
  · exact .inr (.inr (.inr (.inr (.inr (.inl ⟨erase,rfl⟩)))))
  · exact .inr (.inr (.inr (.inr (.inr (.inr ⟨printable,rfl⟩)))))

def Ignored (c : Int) : Prop := ¬ arrowKey c ∧ ¬ enterKey c ∧ ¬ eraseKey c ∧ ¬ printableKey c

theorem edit_none (ignored : edit e c = none) : Ignored c := by
  unfold edit at ignored
  split_ifs at ignored with up down left right newline erase printable
  refine ⟨?_,newline,erase,printable⟩
  rintro (h | h | h | h)
  · exact up h
  · exact down h
  · exact left h
  · exact right h

theorem saveFile_same (saved : saveFile e disk = some (result,e',disk')) : e' = e ∨ e' = {e with modified := false} := by
  unfold saveFile at saved
  split at saved
  · cases saved
    exact .inl rfl
  · dsimp only at saved
    split at saved
    · cases saved
    · split at saved
      · cases saved
        exact .inr rfl
      · cases saved
        exact .inl rfl

theorem press_cases {s s' : Session} (pressed : press s c = some s') :
    edit s.editor c = some s'.editor ∧ s'.cursorPos = cursorPlace s'.editor ∨
    Ignored c ∧ (s'.editor = s.editor ∨ s'.editor = {s.editor with modified := false}) ∧
      (s'.cursorPos = s.cursorPos ∨ s'.cursorPos = cursorPlace s'.editor) := by
  have control : c = 17 ∨ c = 19 → Ignored c := by
    unfold Ignored arrowKey enterKey eraseKey printableKey keyUp keyDown keyLeft keyRight
    omega
  unfold press at pressed
  dsimp only at pressed
  by_cases quit : c = 17
  · rw [if_pos quit] at pressed
    cases pressed
    exact .inr ⟨control (.inl quit),.inl rfl,.inl rfl⟩
  rw [if_neg quit] at pressed
  by_cases save : c = 19
  · rw [if_pos save] at pressed
    split at pressed
    · cases pressed
      exact .inr ⟨control (.inr save),.inl rfl,.inr rfl⟩
    · split at pressed
      · cases pressed
      · rename_i result e disk saved
        cases pressed
        exact .inr ⟨control (.inr save),saveFile_same saved,.inr rfl⟩
  rw [if_neg save] at pressed
  cases edited : edit s.editor c with
  | some e =>
    rw [edited] at pressed
    cases pressed
    exact .inl ⟨rfl,rfl⟩
  | none =>
    rw [edited] at pressed
    cases pressed
    exact .inr ⟨edit_none edited,.inl rfl,.inl rfl⟩

theorem edit_text (valid : Valid e) (edited : edit e c = some e') : Valid e' ∧ EditsText c e e' := by
  rcases edit_cases edited with ⟨rfl,rfl⟩ | ⟨rfl,rfl⟩ | ⟨rfl,rfl⟩ | ⟨rfl,rfl⟩ | ⟨newline,rfl⟩ | ⟨erase,rfl⟩ | ⟨printable,rfl⟩
  · have after := up_text valid
    exact ⟨after.1,.arrow (.inl rfl) after.2 after.1.offset_le nofun nofun⟩
  · have after := down_text valid
    exact ⟨after.1,.arrow (.inr (.inl rfl)) after.2 after.1.offset_le nofun nofun⟩
  · have after := left_text valid
    exact ⟨after.1,.arrow (.inr (.inr (.inl rfl))) after.2.1 after.1.offset_le (fun _ => after.2.2) nofun⟩
  · have after := right_text valid
    exact ⟨after.1,.arrow (.inr (.inr (.inr rfl))) after.2.1 after.1.offset_le nofun (fun _ => after.2.2)⟩
  · have after := enter_text valid
    exact ⟨after.1,.newline newline after.2⟩
  · have after := backspace_text valid
    exact ⟨after.1,.erase erase after.2⟩
  · have after := insert_text valid (printable_ne printable (by decide))
    exact ⟨after.1,.insert printable after.2⟩

theorem press_text {s s' : Session} (valid : Valid s.editor) (pressed : press s c = some s') :
    Valid s'.editor ∧ EditsText c s.editor s'.editor := by
  rcases press_cases pressed with ⟨edited,_⟩ | ⟨⟨arrow,newline,erase,printable⟩,same | same,_⟩
  · exact edit_text valid edited
  · rw [same]
    exact ⟨valid,.other arrow newline erase printable rfl⟩
  · rw [same]
    exact ⟨⟨valid.someLine,valid.fewLines,valid.ends,valid.row,valid.col⟩,.other arrow newline erase printable rfl⟩

theorem press_returns (s : Session) (unsaved : c ≠ 19) : ∃ s', press s c = some s' := by
  unfold press
  dsimp only
  by_cases quit : c = 17
  · rw [if_pos quit]
    exact ⟨_,rfl⟩
  · rw [if_neg quit,if_neg unsaved]
    split
    · exact ⟨_,rfl⟩
    · exact ⟨_,rfl⟩

theorem keys_return (s : Session) (unsaved : 19 ∉ keys) : ∃ s', keyLoop s keys = some s' := by
  induction keys generalizing s with
  | nil => exact ⟨s,rfl⟩
  | cons c keys ih =>
    rw [keyLoop]
    split
    · obtain ⟨next,pressed⟩ := press_returns s (fun save => unsaved (save ▸ List.mem_cons_self))
      rw [pressed]
      exact ih next (fun later => unsaved (List.mem_cons_of_mem _ later))
    · exact ⟨s,rfl⟩

theorem run_keeps {s s' : Session} {inv : Session → Prop} (keeps : ∀ s c s', inv s → press s c = some s' → inv s')
    (start : inv s) (ran : keyLoop s keys = some s') : inv s' := by
  induction keys generalizing s with
  | nil =>
    cases ran
    exact start
  | cons c keys ih =>
    rw [keyLoop] at ran
    split at ran
    · obtain ⟨next,pressed,rest⟩ := Option.bind_eq_some_iff.mp ran
      exact ih (keeps s c next start pressed) rest
    · cases ran
      exact start

theorem run_text {s s' : Session} (valid : Valid s.editor) (ran : keyLoop s keys = some s') :
    Valid s'.editor ∧ ∃ read, read <+: keys ∧ (read = keys ∨ s'.running = false) ∧ TextRun s.editor read s'.editor := by
  induction keys generalizing s with
  | nil =>
    cases ran
    exact ⟨valid,[],List.prefix_refl _,.inl rfl,.none⟩
  | cons c keys ih =>
    rw [keyLoop] at ran
    cases running : s.running with
    | false =>
      rw [running] at ran
      cases ran
      exact ⟨valid,[],List.nil_prefix,.inr running,.none⟩
    | true =>
      rw [running,if_pos rfl] at ran
      obtain ⟨next,pressed,rest⟩ := Option.bind_eq_some_iff.mp ran
      have step := press_text valid pressed
      obtain ⟨final,read,before,whole,run⟩ := ih step.1 rest
      refine ⟨final,c::read,?_,?_,.key step.2 run⟩
      · exact (List.prefix_cons_inj c).mpr before
      · rcases whole with rfl | stopped
        · exact .inl rfl
        · exact .inr stopped

-- read are the keys up to a Ctrl+Q; only Ctrl+S waits for the driver.
theorem keys_edit_one_text {s : Session} (valid : Valid s.editor) (keys : List Int) :
    (19 ∉ keys → ∃ s', keyLoop s keys = some s') ∧ ∀ s', keyLoop s keys = some s' → Valid s'.editor ∧
      ∃ read, read <+: keys ∧ (read = keys ∨ s'.running = false) ∧ TextRun s.editor read s'.editor :=
  ⟨keys_return s,fun _ ran => run_text valid ran⟩

theorem empty_valid : Valid emptyEditor := ⟨by decide,by decide,fun _ _ => ⟨0,by decide,rfl⟩,by decide,by decide⟩

def hello : Session := ⟨emptyEditor,blank,[],(0,0),true⟩

theorem keys_edit_one_text_hi : ∃ s', keyLoop hello [104,13,105] = some s' ∧ Valid s'.editor ∧
    bufferView s'.editor = ⟨[104,10,105],3⟩ := by
  have both := keys_edit_one_text (s := hello) empty_valid [104,13,105]
  obtain ⟨s',ran⟩ := both.1 (by decide)
  refine ⟨s',ran,(both.2 s' ran).1,?_⟩
  cases ran
  rfl

end

end SantOS.Sedit
