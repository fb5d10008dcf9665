import SantOS.Sasm.Assembler

namespace SantOS.Sasm
open CStrings FueledLoops

-- The lines of a source text: each ends at a CR or a LF, and one CR and one LF behind it are
-- passed over. At most as many as there are characters.
def linesFrom : Nat → Str → List Str
  | 0,_ => []
  | left+1,text => if text.headD 0 = 0 then [] else wholeLine text::linesFrom left (nextLine text)

def sourceLines (text : Str) : List Str := linesFrom text.length text

def shownLine : Message → Option (Str × Nat)
  | .line line lineNum => some (line,lineNum)
  | _ => none

def shown (printed : List Message) : List (Str × Nat) := printed.filterMap shownLine

theorem shown_append (first later : List Message) :
    shown (first ++ later) = shown first ++ shown later := List.filterMap_append

-- The lines whose `continue` leaves line_start where it is: empty ones, comments, and push or
-- pop with one operand that is no register.
def Stuck (line : Str) : Prop :=
  line = [] ∨ line.headD 0 = 0x3B ∨ line.headD 0 = 0x23 ∨
    ∃ instr token, (instr = bytes "push" ∨ instr = bytes "pop") ∧ tokens line = [instr,token] ∧ parseRegister token = none

theorem isSkipped_iff (line : Str) : isSkipped line = true ↔ line = [] ∨ line.headD 0 = 0x3B ∨ line.headD 0 = 0x23 := by
  simp [isSkipped,or_assoc]

theorem encodeStack_invalid : (∃ bad, encodeStack opcode token = .invalid bad) ↔ parseRegister token = none := by
  unfold encodeStack
  cases parseRegister token with
  | none => simp
  | some reg => simp

theorem encodeMov_invalid : ¬∃ bad, encodeMov first second = .invalid bad := by
  rintro ⟨bad,no⟩
  unfold encodeMov at no
  split at no
  · cases no
  · cases no

theorem encode_invalid (parts : List Str) :
    (∃ bad, encode parts = .invalid bad) ↔
      ∃ instr token, (instr = bytes "push" ∨ instr = bytes "pop") ∧ parts = [instr,token] ∧ parseRegister token = none := by
  constructor
  · rintro ⟨bad,stays⟩
    unfold encode at stays
    simp only at stays
    split_ifs at stays with _ push pop mov
    · obtain ⟨instr,token,two⟩ := List.length_eq_two.mp push.2
      rw [two] at push stays
      exact ⟨instr,token,.inl push.1,two,encodeStack_invalid.mp ⟨bad,stays⟩⟩
    · obtain ⟨instr,token,two⟩ := List.length_eq_two.mp pop.2
      rw [two] at pop stays
      exact ⟨instr,token,.inr pop.1,two,encodeStack_invalid.mp ⟨bad,stays⟩⟩
    · exact absurd ⟨bad,stays⟩ encodeMov_invalid
  · rintro ⟨instr,token,stack,two,none⟩
    have notRet : bytes "push" ≠ bytes "ret" ∧ bytes "pop" ≠ bytes "ret" ∧ bytes "pop" ≠ bytes "push" := by decide
    rw [two]
    unfold encode
    rcases stack with push | pop
    · have stays := (@encodeStack_invalid opPushReg token).mpr none
      simpa [push,notRet] using stays
    · have stays := (@encodeStack_invalid opPopReg token).mpr none
      simpa [pop,notRet] using stays

theorem encode_error (parts : List Str) (failed : encode parts = .error message) (lineNum : Nat) :
    shownLine (message lineNum) = none := by
  unfold encode at failed
  simp only at failed
  split_ifs at failed
  · unfold encodeStack at failed
    split at failed
    · cases failed
    · cases failed
  · unfold encodeStack at failed
    split at failed
    · cases failed
    · cases failed
  · unfold encodeMov at failed
    split at failed
    · cases failed
    · cases failed
      rfl
  · cases failed
    rfl

theorem skipByte_length (c : UInt8) (text : Str) : (skipByte c text).length ≤ text.length := by
  cases text with
  | nil => exact Nat.le_refl _
  | cons d rest =>
    rw [skipByte]
    split
    · exact Nat.le_succ _
    · exact Nat.le_refl _

theorem nextLine_length {text : Str} (more : text.headD 0 ≠ 0) : (nextLine text).length < text.length := by
  cases text with
  | nil => exact absurd rfl more
  | cons c rest =>
    have skips := fun text => skipByte_length 0x0A (skipByte 0x0D text)
    have skips' := skipByte_length 0x0D
    unfold nextLine
    by_cases text : isText c = true
    · rw [List.dropWhile_cons_of_pos text]
      have shorter := (List.dropWhile_suffix (l := rest) isText).length_le
      exact Nat.lt_succ_of_le (Nat.le_trans (skips _) (Nat.le_trans (skips' _) shorter))
    · rw [List.dropWhile_cons_of_neg text]
      by_cases cr : c = 0x0D
      · rw [skipByte,if_pos cr]
        exact Nat.lt_succ_of_le (skipByte_length 0x0A rest)
      · have lf : c = 0x0A := by
          have nonzero : c ≠ 0 := more
          simp only [isText,Bool.and_eq_true,decide_eq_true_eq] at text
          by_contra other
          exact text ⟨⟨nonzero,other⟩,cr⟩
        rw [skipByte,if_neg cr,skipByte,if_pos lf]
        exact Nat.lt_succ_self _

section
variable {s : State}

theorem ended (finished : s.lineStart.headD 0 = 0) (fuel : Nat) : assembleFrom s (fuel+1) = some s := by
  rw [assembleFrom,if_pos finished]

theorem round_stuck (more : s.lineStart.headD 0 ≠ 0) (stuck : Stuck (lineCopy s.lineStart)) :
    ∃ printed, Next assembleFrom s {s with printed := printed} := by
  rcases Classical.em (isSkipped (lineCopy s.lineStart) = true) with skipped | kept
  · refine ⟨s.printed ++ [.line (lineCopy s.lineStart) s.lineNum],?_⟩
    intro fuel
    rw [assembleFrom,if_neg more]
    simp only [if_pos skipped]
    rfl
  · have bad : ∃ bad, encode (tokens (lineCopy s.lineStart)) = .invalid bad := by
      rw [encode_invalid]
      rcases stuck with h | h | h | h
      · exact absurd ((isSkipped_iff _).mpr (.inl h)) kept
      · exact absurd ((isSkipped_iff _).mpr (.inr (.inl h))) kept
      · exact absurd ((isSkipped_iff _).mpr (.inr (.inr h))) kept
      · exact h
    obtain ⟨bad,stays⟩ := bad
    refine ⟨s.printed ++ [.line (lineCopy s.lineStart) s.lineNum] ++ [.invalidRegister s.lineNum bad],?_⟩
    intro fuel
    rw [assembleFrom,if_neg more]
    simp only [if_neg kept,stays]
    rfl

theorem round_advances (more : s.lineStart.headD 0 ≠ 0) (free : ¬Stuck (lineCopy s.lineStart)) :
    ∃ t, Next assembleFrom s t ∧ t.lineStart = nextLine s.lineStart ∧ t.lineNum = s.lineNum + 1 ∧
      shown t.printed = shown s.printed ++ [(lineCopy s.lineStart,s.lineNum)] := by
  have kept : ¬isSkipped (lineCopy s.lineStart) = true := by
    intro skipped
    rcases (isSkipped_iff _).mp skipped with h | h | h
    · exact free (.inl h)
    · exact free (.inr (.inl h))
    · exact free (.inr (.inr (.inl h)))
  cases encoded : encode (tokens (lineCopy s.lineStart)) with
  | code bytes =>
    refine ⟨(s.print (.line (lineCopy s.lineStart) s.lineNum)).advance bytes,?_,rfl,rfl,?_⟩
    · intro fuel
      rw [assembleFrom,if_neg more]
      simp only [if_neg kept,encoded]
    · exact shown_append _ _
  | error message =>
    refine ⟨((s.print (.line (lineCopy s.lineStart) s.lineNum)).print (message s.lineNum)).advance [],?_,rfl,rfl,?_⟩
    · intro fuel
      rw [assembleFrom,if_neg more]
      simp only [if_neg kept,encoded]
      rfl
    · change shown (s.printed ++ [.line (lineCopy s.lineStart) s.lineNum] ++ [message s.lineNum]) = _
      have silent : shown [message s.lineNum] = [] := by simp [shown,encode_error _ encoded]
      rw [shown_append,silent,List.append_nil,shown_append]
      rfl
  | invalid token => exact absurd (.inr (.inr (.inr ((encode_invalid _).mp ⟨token,encoded⟩)))) free

theorem lines_end (n : Nat) (s : State) (short : s.lineStart.length ≤ n)
    (free : ∀ line ∈ linesFrom n s.lineStart, ¬Stuck (line.take 255)) :
    ∃ t, assembleFrom s (n+1) = some t ∧
      shown t.printed = shown s.printed ++ ((linesFrom n s.lineStart).map (List.take 255)).zipIdx s.lineNum := by
  induction n generalizing s with
  | zero =>
    have nothing : s.lineStart = [] := List.length_eq_zero_iff.mp (Nat.le_zero.mp short)
    refine ⟨s,ended (by rw [nothing]; rfl) 0,?_⟩
    rw [linesFrom]
    simp
  | succ n ih =>
    by_cases finished : s.lineStart.headD 0 = 0
    · refine ⟨s,ended finished _,?_⟩
      rw [linesFrom,if_pos finished]
      simp
    · rw [linesFrom,if_neg finished] at free ⊢
      obtain ⟨t,next,place,number,printed⟩ := round_advances finished (free _ List.mem_cons_self)
      have shorter := nextLine_length finished
      obtain ⟨u,ends,all⟩ := ih t (by rw [place]; omega) (by rw [place]; exact fun line member => free line (List.mem_cons_of_mem _ member))
      refine ⟨u,(next (n+1)).trans ends,?_⟩
      rw [all,printed,place,number,List.append_assoc]
      rfl

-- A stuck line on the way: the loop prints that line for ever.
theorem lines_diverge (n : Nat) (s : State) (short : s.lineStart.length ≤ n)
    (stuck : ∃ line ∈ linesFrom n s.lineStart, Stuck (line.take 255)) (fuel : Nat) : assembleFrom s fuel = none := by
  induction n generalizing s fuel with
  | zero =>
    obtain ⟨line,member,_⟩ := stuck
    cases member
  | succ n ih =>
    by_cases finished : s.lineStart.headD 0 = 0
    · obtain ⟨line,member,_⟩ := stuck
      rw [linesFrom,if_pos finished] at member
      cases member
    · rcases Classical.em (Stuck (lineCopy s.lineStart)) with here | free
      · have stays : ∀ t, t.lineStart = s.lineStart → ∃ u, Next assembleFrom t u ∧ u.lineStart = s.lineStart := by
          intro t same
          obtain ⟨printed,next⟩ := round_stuck (by rw [same]; exact finished) (by rw [same]; exact here)
          exact ⟨_,next,same⟩
        exact diverges (fun t => t.lineStart = s.lineStart) (fun _ => rfl) stays rfl fuel
      · obtain ⟨t,next,place,_,_⟩ := round_advances finished free
        obtain ⟨line,member,later⟩ := stuck
        rw [linesFrom,if_neg finished] at member
        have shorter := nextLine_length finished
        cases fuel with
        | zero => rfl
        | succ fuel =>
          rw [next fuel]
          refine ih t (by rw [place]; omega) ⟨line,?_,later⟩ fuel
          rw [place]
          rcases List.mem_cons.mp member with head | behind
          · rw [head] at later
            exact absurd later free
          · exact behind

end

-- The loop ends, each source line looked at once, exactly when none of them is a stuck one.
theorem lines_seen_once_iff (text : Str) :
    (∃ fuel s, assemble text fuel = some s ∧ shown s.printed = ((sourceLines text).map (List.take 255)).zipIdx 1) ↔
      ∀ line ∈ sourceLines text, ¬Stuck (line.take 255) := by
  constructor
  · rintro ⟨fuel,s,ends,_⟩ line member stuck
    have never := lines_diverge text.length ⟨text,1,[],[]⟩ (Nat.le_refl _) ⟨line,member,stuck⟩ fuel
    rw [assemble,never] at ends
    cases ends
  · intro free
    obtain ⟨t,ends,all⟩ := lines_end text.length ⟨text,1,[],[]⟩ (Nat.le_refl _) free
    exact ⟨text.length+1,t,ends,all⟩

theorem empty_line_never_left : ¬∃ fuel s, assemble (bytes "ret\x0A\x0Aret") fuel = some s := by
  rintro ⟨fuel,s,ends⟩
  have never := lines_diverge 8 ⟨bytes "ret\x0A\x0Aret",1,[],[]⟩ (by decide) ⟨[],by decide,.inl rfl⟩ fuel
  rw [assemble,never] at ends
  cases ends

end SantOS.Sasm
