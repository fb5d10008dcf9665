import SantOS.Shell.Dispatch

namespace SantOS.Shell
open CStrings

section
variable {isBreak : UInt8 → Bool}

theorem pieces_breaks (breaks : ∀ c ∈ w, isBreak c = true) (s : Str) : pieces isBreak [] (w ++ s) = pieces isBreak [] s := by
  induction w with
  | nil => rfl
  | cons c w ih =>
    rw [List.cons_append,pieces,if_pos (breaks c List.mem_cons_self),if_pos rfl]
    exact ih fun d member => breaks d (List.mem_cons_of_mem _ member)

theorem pieces_word (plain : ∀ c ∈ w, isBreak c = false) (word : Str) :
    pieces isBreak word w = if word ++ w = [] then [] else [word ++ w] := by
  induction w generalizing word with
  | nil => rw [pieces,List.append_nil]
  | cons c w ih =>
    rw [pieces,if_neg (by rw [plain c List.mem_cons_self]; decide),ih fun d member => plain d (List.mem_cons_of_mem _ member)]
    simp

theorem pieces_head (word s : Str) (some_ : word ≠ []) : ∃ piece rest, pieces isBreak word s = (word ++ piece)::rest := by
  induction s generalizing word with
  | nil => exact ⟨[],[],by rw [pieces,if_neg some_,List.append_nil]⟩
  | cons d s ih =>
    rw [pieces]
    split
    · exact ⟨[],pieces isBreak [] s,by rw [List.append_nil]⟩
    · obtain ⟨piece,rest,same⟩ := ih (word ++ [d]) (by simp)
      exact ⟨d::piece,rest,by rw [same,List.append_assoc]; rfl⟩

theorem pieces_cut (plain : ∀ c ∈ w, isBreak c = false) (stop : isBreak c = true) (word s : Str) :
    pieces isBreak word (w ++ c::s) = (if word ++ w = [] then [] else [word ++ w]) ++ pieces isBreak [] s := by
  induction w generalizing word with
  | nil =>
    rw [List.nil_append,pieces,if_pos stop,List.append_nil]
    split <;> rfl
  | cons d w ih =>
    rw [List.cons_append,pieces,if_neg (by rw [plain d List.mem_cons_self]; decide),
      ih fun e member => plain e (List.mem_cons_of_mem _ member),List.append_assoc]
    rfl

theorem pieces_joined (stop : isBreak c = true) (plain : ∀ l ∈ line::lines, ∀ d ∈ l, isBreak d = false) :
    pieces isBreak [] (line ++ lines.flatMap (fun l => c::l)) = (line::lines).filter (fun l => l ≠ []) := by
  induction lines generalizing line with
  | nil =>
    rw [List.flatMap_nil,List.append_nil,pieces_word (plain line List.mem_cons_self) [],List.nil_append]
    by_cases empty : line = []
    · rw [if_pos empty,empty]
      rfl
    · rw [if_neg empty,List.filter_cons_of_pos (by simpa using empty),List.filter_nil]
  | cons next lines ih =>
    rw [List.flatMap_cons,List.cons_append,pieces_cut (plain line List.mem_cons_self) stop,List.nil_append,
      ih fun l member => plain l (List.mem_cons_of_mem _ member)]
    by_cases empty : line = []
    · rw [if_pos empty,empty]
      rfl
    · rw [if_neg empty,@List.filter_cons_of_pos _ _ line _ (by simpa using empty)]
      rfl

theorem split_head (isBreak : UInt8 → Bool) (s : Str) :
    ∃ rest, s.splitOnP isBreak = s.takeWhile (fun c => !isBreak c)::rest := by
  induction s with
  | nil => exact ⟨[],rfl⟩
  | cons c s ih =>
    obtain ⟨rest,parts⟩ := ih
    rw [List.splitOnP_cons_eq_if_modifyHead,parts,List.takeWhile_cons]
    cases isBreak c with
    | true => exact ⟨_,rfl⟩
    | false => exact ⟨rest,rfl⟩

-- The pieces are what a split leaves without its empty parts.
theorem pieces_split (word s : Str) : pieces isBreak word s = ((s.splitOnP isBreak).modifyHead (word ++ ·)).filter (fun l => l ≠ []) := by
  have kept (word : Str) (rest : List Str) :
      (word::rest).filter (fun l => l ≠ []) = (if word = [] then [] else [word]) ++ rest.filter (fun l => l ≠ []) := by
    by_cases empty : word = []
    · rw [if_pos empty,empty]
      rfl
    · rw [if_neg empty,List.filter_cons_of_pos (by simpa using empty)]
      rfl
  induction s generalizing word with
  | nil =>
    rw [pieces,List.splitOnP_nil,List.modifyHead_cons,List.append_nil,kept,List.filter_nil,List.append_nil]
  | cons c s ih =>
    obtain ⟨rest,parts⟩ := split_head isBreak s
    rw [parts] at ih
    rw [pieces,List.splitOnP_cons_eq_if_modifyHead,parts]
    by_cases stop : isBreak c = true
    · rw [if_pos stop,if_pos stop,ih [],List.modifyHead_cons,List.modifyHead_cons,List.nil_append,List.append_nil,kept word]
      split <;> rfl
    · rw [if_neg stop,if_neg stop,ih,List.modifyHead_cons,List.modifyHead_cons,List.modifyHead_cons,List.append_assoc]
      rfl

end

theorem tokens_head (c : UInt8) (s : Str) (space : c ≠ 0x20) : ∃ piece rest, tokens (c::s) = (c::piece)::rest := by
  rw [tokens,pieces,if_neg (by simpa using space)]
  exact pieces_head [c] s (by simp)

theorem command_no_prefix (args : commandArgs command = name::rest) (noDot : name.head? ≠ some 0x2E)
    (noDollar : name.head? ≠ some 0x24) : command ≠ [] ∧ command.take 2 ≠ bytes "./" ∧ command.head? ≠ some 0x24 := by
  cases command with
  | nil => cases args
  | cons c command =>
    have first (byte : UInt8) (other : name.head? ≠ some byte) (visible : byte ≠ 0x20) : c ≠ byte := by
      rintro rfl
      obtain ⟨piece,more,first⟩ := tokens_head c command visible
      rw [commandArgs,first,List.take_succ_cons] at args
      exact other (by rw [← (List.cons.inj args).1]; rfl)
    refine ⟨by simp,?_,?_⟩
    · intro same
      rw [List.take_succ_cons] at same
      exact first _ noDot (by decide) (List.cons.inj same).1
    · intro same
      exact first _ noDollar (by decide) (Option.some.inj same)

end SantOS.Shell
