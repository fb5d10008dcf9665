import SantOS.Shell.Expanders
import SantOS.Shell.Frames
import SantOS.Shell.Indentation
import SantOS.Shell.PipeSplits

namespace SantOS.Shell
open CStrings Templates

section
variable {line : Str} {m : Nat}

theorem SameEffect.unrecorded {σ : Type} {r r' : Result σ} (same : SameEffect (printing first r) (printing second r'))
    (one : printed first = [])
    (two : printed second = []) : SameEffect r r' := by
  cases r with
  | none =>
    cases r' with
    | none => exact .none
    | some x => cases same
  | some x =>
    cases r' with
    | none => cases same
    | some y =>
      cases same with
      | some related =>
        obtain ⟨result,alike,outs⟩ := related
        refine .some ⟨result,alike,?_⟩
        unfold printed at one two outs ⊢
        rwa [List.filter_append,List.filter_append,one,two] at outs

theorem IndentFree.single (free : IndentFree line n) (arrow : line.take 2 ≠ bytes "> ") (plain : hasPipe line = false)
    {σ : Type} (k : Kernel σ)
    (s : Session σ) :
    SameEffect (processSingleCommand k (processCommand k 0 0) 0 s (indented n line))
      (processSingleCommand k (processCommand k 0 0) 0 s line) := by
  have same := free σ k 0 1 s
  rw [processCommand] at same
  dsimp only at same
  rw [indented_pipe n arrow,plain] at same
  exact same.unrecorded rfl rfl

theorem IndentFree.command (free : IndentFree line (m+1)) (arrow : line.take 2 ≠ bytes "> ")
    (plain : hasPipe line = false) {σ : Type}
    (k : Kernel σ) (s : Session σ) (args : commandArgs line = name::more) :
    SameEffect (printing [.ran (indented (m+1) line)] (runCommand k 0 s (indented (m+1) line) name (name::more)))
      (processSingleCommand k (processCommand k 0 0) 0 s line) := by
  have same := free.single arrow plain k s
  obtain ⟨noDot,noDollar⟩ := indented_no_prefix m line
  rw [processSingleCommand,if_neg noDot,if_neg noDollar,indented_args,args] at same
  exact same

theorem run_unknown (first : name.head? = some c) (odd : c = 0x2E ∨ c = 0x24 ∨ c = 0x3E) (s : Session Unit)
    (command : Str) (args : List Str) :
    runCommand noDisk 0 s command name args = done s (unknownCommand name) := by
  have other : ∀ word : Str, word.head? ≠ some 0x2E ∧ word.head? ≠ some 0x24 ∧ word.head? ≠ some 0x3E → name ≠ word := by
    rintro word ⟨dot,dollar,greater⟩ rfl
    rw [first] at dot dollar greater
    rcases odd with rfl | rfl | rfl
    · exact dot rfl
    · exact dollar rfl
    · exact greater rfl
  have comment : name.take 2 ≠ bytes "##" := by
    intro same
    have head := congrArg List.head? same
    rw [List.head?_take,if_neg (by decide),first] at head
    rcases odd with rfl | rfl | rfl <;> cases head
  have ls : ¬(name = bytes "ls" ∨ name = bytes "dir") := by
    rintro (same | same)
    · exact other _ (by decide) same
    · exact other _ (by decide) same
  unfold runCommand
  rw [if_neg (other _ (by decide)),if_neg (other _ (by decide)),if_neg (other _ (by decide)),if_neg (other _ (by decide)),
    if_neg (other _ (by decide)),if_neg ls,if_neg (other _ (by decide)),if_neg (other _ (by decide)),if_neg comment,
    if_neg (other _ (by decide)),if_neg (other _ (by decide)),if_neg (other _ (by decide)),if_neg (other _ (by decide)),
    if_neg (other _ (by decide)),if_neg (other _ (by decide)),if_neg (other _ (by decide)),if_neg (other _ (by decide)),
    if_neg (other _ (by decide))]
  rfl

theorem runProgram_noDisk (run : Session Unit → Str → Result Unit) (s : Session Unit) (command : Str) :
    ∃ t outs, runProgram noDisk run s command = some (-1,t,outs) := by
  unfold runProgram
  cases parseArgs (command.drop 2) with
  | nil => exact ⟨_,_,rfl⟩
  | cons filename args => exact ⟨_,_,rfl⟩

theorem assign_outs (assigned : assign v envVar = some (w,outs)) : outs.length ≤ 1 := by
  unfold assign at assigned
  dsimp only at assigned
  repeat' split at assigned
  all_goals cases assigned
  all_goals simp

theorem odd_word (first : line.head? = some c) (visible : c ≠ 0x20) :
    ∃ name more, commandArgs line = name::more ∧ name.head? = some c := by
  cases line with
  | nil => cases first
  | cons d l =>
    cases first
    obtain ⟨piece,rest,parts⟩ := tokens_head c l visible
    exact ⟨c::piece,rest.take 31,by rw [commandArgs,parts]; rfl,rfl⟩

theorem IndentFree.no_program (free : IndentFree line (m+1)) (arrow : line.take 2 ≠ bytes "> ")
    (plain : hasPipe line = false) :
    line.take 2 ≠ bytes "./" := by
  intro dot
  have first : line.head? = some 0x2E := by
    have head := congrArg List.head? dot
    rwa [List.head?_take,if_neg (by decide)] at head
  obtain ⟨name,more,args,starts⟩ := odd_word first (by decide)
  have same := free.command arrow plain noDisk (shellStart ()) args
  obtain ⟨t,outs,ran⟩ := runProgram_noDisk (processCommand noDisk 0 0) (shellStart ()) line
  rw [run_unknown starts (.inl rfl),processSingleCommand,if_pos dot,ran] at same
  cases same with
  | some related =>
    have codes : (0 : Int) = -1 := related.1
    cases codes

theorem IndentFree.no_assignment (free : IndentFree line (m+1)) (arrow : line.take 2 ≠ bytes "> ")
    (plain : hasPipe line = false) :
    line.head? ≠ some 0x24 := by
  intro dollar
  obtain ⟨name,more,args,starts⟩ := odd_word dollar (by decide)
  have same := free.command arrow plain noDisk (shellStart ()) args
  have noDot : line.take 2 ≠ bytes "./" := by
    intro dot
    have head := congrArg List.head? dot
    rw [List.head?_take,if_neg (by decide),dollar] at head
    cases head
  rw [run_unknown starts (.inr (.inl rfl)),processSingleCommand,if_neg noDot,if_pos dollar] at same
  cases assigned : assign (shellStart ()).vars (line.drop 1) with
  | none =>
    rw [assigned] at same
    cases same
  | some r =>
    have few := assign_outs assigned
    rw [assigned] at same
    cases same with
    | some related =>
      have lengths := congrArg List.length related.2.2
      have shown : (printed ([.ran line] ++ r.2)).length ≤ 1 := (List.length_filter_le _ r.2).trans few
      have two : 2 = (printed ([.ran line] ++ r.2)).length := lengths
      omega

theorem echo_start (short : line.length ≤ 254) :
    echo (shellStart ()) line = done (shellStart ()) [.text (expand (echoed (fun _ => none)) (valueChunks (line.drop 5)) ++ bytes "\n")] := by
  by_cases long : 6 > line.length
  · have nothing : line.drop 5 = [] := List.drop_eq_nil_of_le (by omega)
    have behind : substr line 6 0 = none := if_pos (.inr long)
    rw [echo,behind,nothing]
    rfl
  · have behind : substr line 6 0 = some (line.drop 5) := by rw [substr,if_neg (by omega),if_pos rfl]
    have within := (@meaning_length (fun _ => none) (line.drop 5) (by intro n x found; cases found)).1
    have text := @echoFrom_eq (fun _ => none) [] none (line.drop 5) (by
      rw [List.length_drop] at within
      exact Nat.lt_of_le_of_lt within (Nat.lt_of_le_of_lt (Nat.sub_le _ _) (Nat.lt_of_le_of_lt short (by decide))))
    rw [echo,behind]
    exact congrArg (fun out => done (shellStart ()) [.text (out ++ bytes "\n")]) text

theorem expand_before (value : Str → Option Str) (plain : 0x24 ∉ before) (text : Str) :
    expand (echoed value) (valueChunks (before ++ text)) = before ++ expand (echoed value) (valueChunks text) := by
  have parts := @chunks_plain _ _ 0x24 isNameChar before plain text
  rw [valueChunks,parts,expand,List.flatMap_append,List.flatMap_map]
  congr 1
  exact List.flatMap_singleton' before

theorem IndentFree.no_echo (free : IndentFree line (m+1)) (visible : line.head? ≠ some 0x20)
    (arrow : line.take 2 ≠ bytes "> ")
    (plain : hasPipe line = false) (short : m + 1 + line.length ≤ 254) (args : commandArgs line = bytes "echo"::more) :
    line = bytes "echo" ∧ m + 1 = 1 := by
  obtain ⟨_,noDot,noDollar⟩ := command_no_prefix args (by decide) (by decide)
  have same := free.command arrow plain noDisk (shellStart ()) args
  have length : (indented (m+1) line).length = m + 1 + line.length := by simp [indented]
  rw [processSingleCommand,if_neg noDot,if_neg noDollar,args] at same
  change SameEffect (printing _ (echo (shellStart ()) (indented (m+1) line))) (printing _ (echo (shellStart ()) line)) at same
  rw [echo_start (by omega),echo_start (by omega)] at same
  cases same with
  | some related =>
    have texts : [Out.text (expand (echoed (fun _ => none)) (valueChunks ((indented (m+1) line).drop 5)) ++ bytes "\n")] =
        [.text (expand (echoed (fun _ => none)) (valueChunks (line.drop 5)) ++ bytes "\n")] := related.2.2
    have equal := List.append_cancel_right (Out.text.inj (List.cons.inj texts).1)
    have noDollars : ∀ word : Str, 0x24 ∉ word → 0x24 ∉ (indented (m+1) word).drop 5 := by
      intro word none member
      rcases List.mem_append.mp (List.mem_of_mem_drop member) with space | letter
      · exact absurd (List.mem_replicate.mp space).2 (by decide)
      · exact none letter
    obtain ⟨_,_,shape⟩ := first_word visible args
    rcases shape with ⟨alone,_⟩ | ⟨t,rest⟩
    · refine ⟨alone,?_⟩
      have moved := expand_before (fun _ => none) (noDollars (bytes "echo") (by decide)) []
      rw [List.append_nil] at moved
      rw [alone,moved] at equal
      have lengths := congrArg List.length equal
      rw [alone] at length
      have four : (bytes "echo").length = 4 := rfl
      have nothing : (expand (echoed (fun _ => none)) (valueChunks ((bytes "echo").drop 5))).length = 0 := rfl
      rw [nothing,List.length_append,List.length_drop,length,four] at lengths
      omega
    · have whole : indented (m+1) line = indented (m+1) (bytes "echo ") ++ t := by rw [rest]; simp [indented,bytes]
      have long : (indented (m+1) (bytes "echo ")).length = m + 6 := by
        simp [indented,bytes]
      have behind : line.drop 5 = t := by rw [rest]; rfl
      rw [whole,List.drop_append_of_le_length (by omega),expand_before _ (noDollars (bytes "echo ") (by decide)),behind] at equal
      have lengths := congrArg List.length equal
      rw [List.length_append,List.length_drop,long] at lengths
      omega

-- find in front of another segment keeps its term; so it does in a script that a pipeline runs.
def searching : Session Unit := {shellStart () with streamLength := 1, piping := true, pipeRemaining := 1}

theorem searchTerm_length (text : Str) : (searchTerm text).length ≤ 255 := by
  unfold searchTerm
  split
  · exact Nat.zero_le _
  · split
    · exact List.length_take_le _ _
    · exact List.length_take_le _ _

theorem find_searching (term : Str) (short : term.length ≤ 255) :
    ∃ outs, cmdFind searching term = ({searching with findTerm := term},outs) := by
  cases term with
  | nil => exact ⟨_,rfl⟩
  | cons c term =>
    refine ⟨[],?_⟩
    have cut : (c::term).take 255 = c::term := List.take_of_length_le short
    have found : cmdFind searching (c::term) = ({searching with findTerm := (c::term).take 255},[]) := rfl
    rw [found,cut]

theorem IndentFree.no_find (free : IndentFree line (m+1)) (visible : line.head? ≠ some 0x20)
    (arrow : line.take 2 ≠ bytes "> ")
    (plain : hasPipe line = false) (args : commandArgs line = bytes "find"::more) (given : more ≠ []) :
    m + 1 = 1 ∨ searchTerm (line.drop 5) = (bytes "find").drop (5-(m+1)) := by
  by_cases one : m + 1 = 1
  · exact .inl one
  · right
    obtain ⟨_,noDot,noDollar⟩ := command_no_prefix args (by decide) (by decide)
    obtain ⟨_,_,shape⟩ := first_word visible args
    obtain ⟨t,rest⟩ := shape.resolve_left fun alone => given alone.2
    have several : ¬(bytes "find"::more).length < 2 := by
      cases more with
      | nil => exact absurd rfl given
      | cons arg more => simp
    have ran : ∀ command, findCommand searching command (bytes "find"::more) =
        done (cmdFind searching (searchTerm (command.drop 5))).1 (cmdFind searching (searchTerm (command.drop 5))).2 := fun _ => if_neg several
    have moved : searchTerm ((indented (m+1) line).drop 5) = (bytes "find").drop (5-(m+1)) := by
      rw [rest]
      exact indented_find_term t (by omega)
    have same := free.command arrow plain noDisk searching args
    rw [processSingleCommand,if_neg noDot,if_neg noDollar,args] at same
    change SameEffect (printing _ (findCommand searching (indented (m+1) line) (bytes "find"::more)))
      (printing _ (findCommand searching line (bytes "find"::more))) at same
    rw [ran,ran,moved] at same
    have short : ((bytes "find").drop (5-(m+1))).length ≤ 255 := by
      rw [List.length_drop]
      exact (Nat.sub_le _ _).trans (by decide)
    obtain ⟨outs,found⟩ := find_searching _ short
    obtain ⟨outs',found'⟩ := find_searching (searchTerm (line.drop 5)) (searchTerm_length _)
    rw [found,found'] at same
    cases same with
    | some related =>
      have terms := congrArg Session.findTerm related.2.1.rest
      exact terms.symm

theorem IndentFree.no_header (free : IndentFree line (m+1)) (visible : line.head? ≠ some 0x20)
    (arrow : line.take 2 ≠ bytes "> ")
    (plain : hasPipe line = false) (args : commandArgs line = name::more) (opens : opensBlock (name::more)) :
    m + 1 + name.length < maxLineLen := by
  obtain ⟨keyword,long,between⟩ := opens
  have word := afterStrtok_word visible args
  have moved := indented_afterStrtok (m+1) line
  rw [word] at moved
  have keywords : name.head? ≠ some 0x2E ∧ name.head? ≠ some 0x24 ∧ name.length < maxLineLen := by
    rcases keyword with same | same | same
    all_goals
      cases same
      decide
  obtain ⟨_,noDot,noDollar⟩ := command_no_prefix args keywords.1 keywords.2.1
  have opened : ∃ kind, ∀ command, runCommand noDisk 0 (shellStart ()) command name (name::more) =
      done {shellStart () with blockHeader := afterStrtok command, collectingBlock := kind, blockLines := [], blockNesting := 0} [] := by
    have open_ : ∀ kind usage command, (kind = 2 → (name::more).getD 2 [] = bytes "to") →
        openBlock kind usage (shellStart ()) command (name::more) =
          done {shellStart () with blockHeader := afterStrtok command, collectingBlock := kind, blockLines := [], blockNesting := 0} [] := by
      intro kind usage command to_
      refine if_neg ?_
      rintro (few | ⟨for_,other⟩)
      · exact long few
      · exact other (to_ for_)
    rcases keyword with same | same | same
    · cases same
      exact ⟨1,fun command => open_ 1 _ command (fun no => absurd no (by decide))⟩
    · cases same
      exact ⟨2,fun command => open_ 2 _ command (fun _ => between rfl)⟩
    · cases same
      exact ⟨3,fun command => open_ 3 _ command (fun no => absurd no (by decide))⟩
  obtain ⟨kind,ran⟩ := opened
  have same := free.command arrow plain noDisk (shellStart ()) args
  rw [processSingleCommand,if_neg noDot,if_neg noDollar,args] at same
  change SameEffect (printing _ (runCommand noDisk 0 (shellStart ()) (indented (m+1) line) name (name::more)))
    (printing _ (runCommand noDisk 0 (shellStart ()) line name (name::more))) at same
  rw [ran,ran] at same
  cases same with
  | some related =>
    have fits : (afterStrtok (indented (m+1) line)).length < maxLineLen ↔ (afterStrtok line).length < maxLineLen :=
      related.2.1.fits
    rw [moved,word,indented,List.length_append,List.length_replicate] at fits
    exact fits.mpr keywords.2.2

theorem hasPipe_cons (c : UInt8) (pipe : hasPipe text = true) : hasPipe (c::text) = true := by
  match text with
  | [] => cases pipe
  | [_] => cases pipe
  | b::d::rest => rw [hasPipe,pipe,Bool.or_true]

theorem segments_plain (plain : hasPipe text = false) : segments 15 [] text = if text ≠ [] then [text] else [] := by
  have none : splitPoints 15 0 text = [] := by
    by_contra some_
    rw [pipe_of_split 15 0 some_] at plain
    cases plain
  have parts := @segments_between text 15 0 0 text rfl (Nat.zero_le _) (Nat.le_refl _)
  rw [none] at parts
  refine parts.trans ?_
  simp [between]

-- The last of the spaces makes a pipe of a greater-than sign.
theorem arrow_segments (m : Nat) (rest : Str) :
    hasPipe (indented (m+1) (0x3E::0x20::rest)) = true ∧
      segments 16 [] (indented (m+1) (0x3E::0x20::rest)) = List.replicate m 0x20::segments 15 [] rest := by
  have shape : indented (m+1) (0x3E::0x20::rest) = indented m (0x20::0x3E::0x20::rest) := by
    rw [indented,List.replicate_succ',List.append_assoc]
    rfl
  have arrow : (0x20::0x3E::0x20::rest : Str).take 2 ≠ bytes "> " := by
    intro same
    exact absurd (List.cons.inj same).1 (by decide)
  rw [shape,indented_pipe m arrow,indented_segments m 16 [] arrow]
  exact ⟨rfl,rfl⟩

def busy : Session Unit := {shellStart () with streamLength := 5, pipeRemaining := 1}

theorem arrow_pipeline (plain : hasPipe rest = false) :
    Ends (runPipeline (processSingleCommand noDisk (processCommand noDisk 0 0) 0) busy (indented (m+1) (0x3E::0x20::rest)))
      (fun t _ => t.streamLength = 0 ∨ t.pipeRemaining = 0) := by
  have blank : trim (List.replicate m 0x20) = [] := by
    have spaces := indented_trim m []
    rwa [indented,List.append_nil] at spaces
  intro result t outs ran
  unfold runPipeline at ran
  dsimp only at ran
  rw [(arrow_segments m rest).2,segments_plain plain] at ran
  split at ran
  · cases ran
  · next ended =>
    cases ran
    rw [runSegments,if_pos blank] at ended
    by_cases empty : rest = []
    · rw [if_neg (not_not.mpr empty),runSegments] at ended
      cases ended
      exact .inl rfl
    · rw [if_pos empty,runSegments] at ended
      split at ended
      · cases ended
        exact .inl rfl
      · right
        dsimp only at ended
        rw [if_neg (fun skipped => skipped.2 rfl)] at ended
        split at ended
        · cases ended
        · next command =>
          have kept := processSingleCommand_keeps unmoved_composes (fun _ _ kept => kept) (fun _ _ => ends_none) _ _ _ _ _ command
          have zero := kept.2.2
          split at ended
          · cases ended
            exact zero
          · cases ended
            exact zero

theorem arrow_not_free (arrow : line.take 2 = bytes "> ") (plain : hasPipe line = false) : ¬IndentFree line (m+1) := by
  intro free
  obtain ⟨rest,rfl⟩ : ∃ rest, line = 0x3E::0x20::rest := ⟨line.drop 2,by
    conv_lhs => rw [← List.take_append_drop 2 line,arrow]
    rfl⟩
  have behind : hasPipe rest = false := by
    rw [← Bool.not_eq_true]
    intro pipe
    rw [hasPipe_cons 0x3E (hasPipe_cons 0x20 pipe)] at plain
    cases plain
  obtain ⟨name,more,args,starts⟩ := @odd_word (0x3E::0x20::rest) 0x3E rfl (by decide)
  obtain ⟨_,noDot,noDollar⟩ := command_no_prefix args (by rw [starts]; decide) (by rw [starts]; decide)
  have same := free Unit noDisk 0 1 busy
  unfold processCommand at same
  rw [(arrow_segments m rest).1,plain,if_pos rfl,if_neg Bool.false_ne_true] at same
  have body := same.unrecorded rfl rfl
  have single : processSingleCommand noDisk (processCommand noDisk 0 0) 0 busy (0x3E::0x20::rest) =
      printing [.ran (0x3E::0x20::rest)] (done busy (unknownCommand name)) := by
    rw [processSingleCommand,if_neg noDot,if_neg noDollar,args]
    exact congrArg (printing _) (run_unknown starts (.inr (.inr rfl)) busy _ _)
  rw [single] at body
  cases ran : runPipeline (processSingleCommand noDisk (processCommand noDisk 0 0) 0) busy (indented (m+1) (0x3E::0x20::rest)) with
  | none =>
    rw [ran] at body
    cases body
  | some ended =>
    obtain ⟨result,t,outs⟩ := ended
    have left := arrow_pipeline behind result t outs ran
    rw [ran] at body
    cases body with
    | some related =>
      have sameRest : t = {busy with blockHeader := t.blockHeader} := related.2.1.rest
      rw [sameRest] at left
      rcases left with empty | last
      · cases empty
      · cases last

end

-- Where the spaces mean nothing: none are there, or they make no pipe of the line's first
-- character and the line has a pipe or keeps its meaning. A line that starts with a pipe's
-- sign and has another pipe behind it is left open.
theorem indentation_iff (line : Str) (n : Nat) (visible : line.head? ≠ some 0x20) (short : n + line.length ≤ 254) :
    ((n = 0 ∨ (line.take 2 ≠ bytes "> " ∧ (hasPipe line = false → KeepsMeaning line n))) → IndentFree line n) ∧
      ((line.take 2 = bytes "> " → hasPipe line = false) → IndentFree line n →
        n = 0 ∨ (line.take 2 ≠ bytes "> " ∧ (hasPipe line = false → KeepsMeaning line n))) := by
  constructor
  · rintro (rfl | ⟨arrow,keeps⟩)
    · exact indent_free_zero line
    · exact indent_free visible arrow keeps
  · intro oneCommand free
    cases n with
    | zero => exact .inl rfl
    | succ m =>
      have arrow : line.take 2 ≠ bytes "> " := fun sign => arrow_not_free sign (oneCommand sign) free
      refine .inr ⟨arrow,fun plain => ⟨free.no_program arrow plain,free.no_assignment arrow plain,?_,?_,?_⟩⟩
      · exact fun args same => free.no_echo visible arrow plain short same
      · exact fun args same given => free.no_find visible arrow plain same given
      · exact fun name args same opens => free.no_header visible arrow plain same opens

theorem indentation_iff_pipeline : IndentFree (bytes "cat F > read") 4 :=
  (indentation_iff (bytes "cat F > read") 4 (by decide) (by decide)).1 (.inr ⟨by decide,fun plain => absurd plain (by decide)⟩)

theorem indented_echo : ¬IndentFree (bytes "echo hello") 2 := by
  intro free
  have same := free Unit noDisk 0 1 (shellStart ())
  have moved : processCommand noDisk 0 1 (shellStart ()) (indented 2 (bytes "echo hello")) =
      some (0,shellStart (),[.given (bytes "  echo hello"),.ran (bytes "  echo hello"),.text (bytes "o hello\n")]) := rfl
  have plain : processCommand noDisk 0 1 (shellStart ()) (bytes "echo hello") =
      some (0,shellStart (),[.given (bytes "echo hello"),.ran (bytes "echo hello"),.text (bytes "hello\n")]) := rfl
  rw [moved,plain] at same
  cases same with
  | some related =>
    have texts : [Out.text (bytes "o hello\n")] = [.text (bytes "hello\n")] := related.2.2
    exact absurd (Out.text.inj (List.cons.inj texts).1) (by decide)

end SantOS.Shell
