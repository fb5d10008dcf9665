import Mathlib.Data.List.TakeWhile
import SantOS.Shell.Tokens
import SantOS.Shell.Collector
import SantOS.Shell.Results

namespace SantOS.Shell
open CStrings

theorem tokens_afterStrtok (s : Str) : (tokens (afterStrtok s)).length ≤ 1 := by
  have word : ∀ c ∈ (s.dropWhile (· = 0x20)).takeWhile (· ≠ 0x20), decide (c = 0x20) = false := by
    intro c member
    simpa using List.mem_takeWhile_imp member
  rw [tokens,afterStrtok,pieces_breaks (fun c member => List.mem_takeWhile_imp member),pieces_word word]
  split <;> simp

def startKeyword : Nat → Str
  | 1 => bytes "if"
  | 2 => bytes "for"
  | 3 => bytes "while"
  | _ => []

-- if a op b, for a to b, while a op b; what stands behind them does not matter.
structure BlockHeader (kind : Nat) (header val1 op val2 : Str) : Prop where
  kinds : kind = 1 ∨ kind = 2 ∨ kind = 3
  args : ∃ rest, commandArgs header = startKeyword kind::val1::op::val2::rest
  between : kind = 2 → op = bytes "to"

section
variable {σ : Type} {k : Kernel σ} {rounds fuel : Nat} {s t : Session σ} {kind : Nat} {header val1 op val2 : Str}

theorem BlockHeader.no_prefix (isHeader : BlockHeader kind header val1 op val2) :
    header ≠ [] ∧ header.take 2 ≠ bytes "./" ∧ header.head? ≠ some 0x24 := by
  obtain ⟨kinds,⟨rest,args⟩,_⟩ := isHeader
  refine command_no_prefix args ?_ ?_
  · rcases kinds with rfl | rfl | rfl <;> decide
  · rcases kinds with rfl | rfl | rfl <;> decide

variable (k rounds s header) in
theorem runCommand_header (kinds : kind = 1 ∨ kind = 2 ∨ kind = 3) (args : List Str) :
    ∃ usage, runCommand k rounds s header (startKeyword kind) args = openBlock kind usage s header args := by
  rcases kinds with rfl | rfl | rfl
  · exact ⟨_,rfl⟩
  · exact ⟨_,rfl⟩
  · exact ⟨_,rfl⟩

theorem header_opens (prompt : s.collectingBlock = 0) (isHeader : BlockHeader kind header val1 op val2)
    (plain : hasPipe header = false) :
    typeLine (processCommand k rounds (fuel+1)) s header = some (0,
      {s with blockHeader := afterStrtok header, collectingBlock := kind, blockLines := [], blockNesting := 0},
      [.given header,.ran header]) := by
  obtain ⟨nonempty,noDot,noDollar⟩ := isHeader.no_prefix
  obtain ⟨kinds,⟨rest,args⟩,between⟩ := isHeader
  rw [typeLine,if_neg nonempty,if_neg (by simp [prompt]),processCommand]
  dsimp only
  rw [if_neg (by simp [plain]),processSingleCommand,if_neg noDot,if_neg noDollar,args]
  dsimp only
  obtain ⟨usage,dispatched⟩ := runCommand_header k rounds s header kinds
    (startKeyword kind::val1::op::val2::rest)
  rw [dispatched,openBlock,if_neg]
  · rfl
  · rintro (few | ⟨for_,other⟩)
    · simp only [List.length_cons] at few
      omega
    · exact other (between for_)

-- What a block is for: its lines, the empty ones and the comments left out, run as often
-- as the header says.
def bodyCommands (body : List Str) : List Str := body.filter (fun line => line ≠ [] ∧ ¬ isComment line)

def repeatLines (run : Session σ → Str → Result σ) (lines : List Str) (s : Session σ) : Nat → Result σ
  | 0 => done s []
  | left+1 =>
    match runLines run s lines with
    | none => none
    | some (_,s,outs) => printing outs (repeatLines run lines s left)

def repeatWhile (run : Session σ → Str → Result σ) (lines : List Str) (val1 op val2 : Str) (s : Session σ) : Nat → Result σ
  | 0 => done s []
  | left+1 =>
    if evaluateCondition (valueOf s.vars) val1 op val2 then
      match runLines run s lines with
      | none => none
      | some (_,s,outs) => printing outs (repeatWhile run lines val1 op val2 s left)
    else done s []

def forBound (s : Session σ) (token : Str) : Int := strToInt (resolveValue (valueOf s.vars) token)

def blockMeaning (run : Session σ → Str → Result σ) (s : Session σ) (kind : Nat) (val1 op val2 : Str) (body : List Str) :
    Result σ :=
  if kind = 1 then
    if evaluateCondition (valueOf s.vars) val1 op val2 then runLines run s (bodyCommands body) else done s []
  else if kind = 2 then repeatLines run (bodyCommands body) s ((forBound s val2 - forBound s val1).natAbs + 1)
  else repeatWhile run (bodyCommands body) val1 op val2 s 10000

def isCommand : Out → Bool
  | .given _ => true
  | .ran _ => true
  | _ => false

-- The commands run by typing the block are the header itself and those of its meaning.
def RunsAsMeant (run : Session σ → Str → Result σ) (s : Session σ) (kind : Nat) (header val1 op val2 : Str) (body : List Str)
    (closer : Str) : Prop :=
  ∃ result t outs result' u meant, typeLines run s (header::body ++ [closer]) = some (result,t,outs) ∧
    blockMeaning run s kind val1 op val2 body = some (result',u,meant) ∧
    outs.filter isCommand = .given header::.ran header::meant.filter isCommand

-- Every line given to the shell is recorded before what it runs.
def GivenFirst (outs : List Out) : Prop :=
  ∀ o, (outs.filter isCommand).head? = some o → ∃ line, o = .given line

theorem given_first_errors (errors : ∀ o ∈ outs, isError o = true) : GivenFirst outs := by
  intro o head
  have member := List.mem_filter.mp (List.mem_of_head? head)
  cases o with
  | error => cases member.2
  | _ => cases errors _ member.1

theorem given_first_append (one : GivenFirst first) (two : GivenFirst second) : GivenFirst (first ++ second) := by
  intro o head
  rw [List.filter_append,List.head?_append] at head
  cases before : (first.filter isCommand).head? with
  | none =>
    rw [before] at head
    exact two o head
  | some o' =>
    rw [before] at head
    exact one o (before.trans head)

theorem given_first_composes : Composes (fun (_ _ : Session σ) outs => GivenFirst outs) :=
  ⟨fun _ _ => given_first_errors,given_first_append⟩

theorem processCommand_given (s : Session σ) (line : Str) :
    Ends (processCommand k rounds fuel s line) (fun _ outs => ∃ rest, outs = .given line::rest) := by
  cases fuel with
  | zero => exact ends_none
  | succ fuel =>
    refine ends_printing ?_
    intro result t outs _
    exact ⟨outs,rfl⟩

variable (k rounds fuel) in
theorem processCommand_given_first (s : Session σ) (line : Str) :
    Ends (processCommand k rounds fuel s line) (fun _ outs => GivenFirst outs) := by
  intro result t outs ran o head
  obtain ⟨rest,rfl⟩ := processCommand_given s line result t outs ran
  exact ⟨line,(Option.some.inj head).symm⟩

variable (k rounds fuel) in
theorem typeLine_given_first (s : Session σ) (input : Str) :
    Ends (typeLine (processCommand k rounds fuel) s input) (fun _ outs => GivenFirst outs) := by
  have nothing : GivenFirst [] := by
    intro o head
    cases head
  unfold typeLine
  split
  · exact ends_done nothing
  · split
    · unfold collectLine
      split
      · exact ends_done nothing
      · split
        · have executed := executeBlock_keeps given_first_composes (processCommand_given_first k rounds fuel)
            {s with blockNesting := raisedNesting s (trimLeft input)}
          split
          · exact ends_none
          · rename_i ran
            exact ends_done (executed _ _ _ ran)
        · split
          · exact ends_done nothing
          · exact ends_done (given_first_errors (by simp [isError,blockTooLarge]))
    · exact processCommand_given_first k rounds fuel s input

theorem typeLines_given_first (inputs : List Str) (s : Session σ) :
    Ends (typeLines (processCommand k rounds fuel) s inputs) (fun _ outs => GivenFirst outs) := by
  induction inputs generalizing s with
  | nil => exact ends_done (given_first_composes.refl s)
  | cons input inputs ih =>
    have typed := typeLine_given_first k rounds fuel s input
    unfold typeLines
    split
    · exact ends_none
    · rename_i ran
      split
      · exact ends_some (typed _ _ _ ran)
      · refine ends_printing fun result u outs rest => ?_
        exact given_first_append (typed _ _ _ ran) (ih _ _ _ _ rest)

theorem trim_length_le (s : Str) : (trim s).length ≤ s.length := by
  rw [trim,List.length_reverse]
  calc (List.dropWhile (· = 0x20) (trimLeft s).reverse).length ≤ (trimLeft s).reverse.length :=
        (List.dropWhile_sublist _).length_le
    _ = (trimLeft s).length := List.length_reverse
    _ ≤ s.length := (List.dropWhile_sublist _).length_le

theorem segments_le (left : Nat) (seg s : Str) (member : x ∈ segments left seg s) : x.length ≤ seg.length + s.length := by
  fun_induction segments left seg s with
  | case1 => cases member
  | case2 left seg a b c rest someLeft pipe ih =>
    rcases List.mem_cons.mp member with rfl | later
    · exact Nat.le_add_right _ _
    · have shorter := ih later
      simp only [List.length_cons,List.length_nil] at shorter ⊢
      omega
  | case3 left seg a b c rest someLeft plain ih =>
    have shorter := ih member
    simp only [List.length_cons,List.length_append,List.length_nil] at shorter ⊢
    omega
  | case4 left seg rest short keep =>
    rw [List.mem_singleton.mp member,List.length_append]
  | case5 => cases member

theorem segments_lt (left : Nat) (seg s : Str) (pipe : hasPipe s = true) (member : x ∈ segments left seg s) :
    x.length < seg.length + s.length := by
  fun_induction segments left seg s with
  | case1 => cases member
  | case2 left seg a b c rest someLeft found ih =>
    rcases List.mem_cons.mp member with rfl | later
    · simp only [List.length_cons]
      omega
    · have shorter := segments_le _ _ _ later
      simp only [List.length_cons,List.length_nil] at shorter ⊢
      omega
  | case3 left seg a b c rest someLeft plain ih =>
    have later : hasPipe (b::c::rest) = true := by
      rw [hasPipe] at pipe
      rcases Bool.or_eq_true_iff.mp pipe with here | later
      · simp only [Bool.and_eq_true,decide_eq_true_eq] at here
        exact absurd ⟨here.1.1,here.1.2,here.2⟩ plain
      · exact later
    have shorter := ih later member
    simp only [List.length_cons,List.length_append,List.length_nil] at shorter ⊢
    omega
  | case4 left seg rest short keep =>
    unfold hasPipe at pipe
    split at pipe
    · exact absurd rfl (short _ _ _ _)
    · cases pipe
  | case5 => cases member

theorem processSingleCommand_ran (run : Session σ → Str → Result σ) (s : Session σ) (command : Str) :
    Ends (processSingleCommand k run rounds s command) (fun _ outs => ∃ rest, outs = .ran command::rest) := by
  refine ends_printing ?_
  intro result t outs _
  exact ⟨outs,rfl⟩

theorem runSegments_ran {single : Session σ → Str → Result σ}
    (ran : ∀ s x, Ends (single s x) (fun _ outs => ∃ rest, outs = .ran x::rest))
    (findSegIndex : Option Nat) (segCount : Nat) (segs : List Str) (i : Nat) (result : Int) (s : Session σ) :
    Ends (runSegments single findSegIndex segCount i result s segs)
      (fun _ outs => outs = [] ∨ ∃ x ∈ segs, ∃ rest, outs = .ran (trim x)::rest) := by
  induction segs generalizing i result s with
  | nil => exact ends_some (.inl rfl)
  | cons seg segs ih =>
    have later (i : Nat) (result : Int) (s : Session σ) :
        Ends (runSegments single findSegIndex segCount i result s segs)
          (fun _ outs => outs = [] ∨ ∃ x ∈ seg::segs, ∃ rest, outs = .ran (trim x)::rest) := by
      intro result' t outs same
      rcases ih i result s _ _ _ same with none_ | ⟨x,member,first⟩
      · exact .inl none_
      · exact .inr ⟨x,List.mem_cons_of_mem _ member,first⟩
    unfold runSegments
    dsimp only
    split
    · exact later _ _ _
    · split
      · exact later _ _ _
      · split
        · exact ends_none
        · rename_i same
          obtain ⟨rest,first⟩ := ran _ _ _ _ _ same
          split
          · exact ends_some (.inr ⟨seg,List.mem_cons_self,rest,first⟩)
          · refine ends_printing fun result' t outs _ => ?_
            exact .inr ⟨seg,List.mem_cons_self,rest ++ outs,by rw [first]; rfl⟩

theorem pipeline_ran (run : Session σ → Str → Result σ) (s : Session σ) (pipe : hasPipe header = true) :
    Ends (runPipeline (processSingleCommand k run rounds) s header) (fun _ outs => outs ≠ [] → ∃ x rest, outs = .ran x::rest ∧ x ≠ header) := by
  unfold runPipeline
  dsimp only
  split
  · exact ends_none
  · rename_i same
    refine ends_some fun some_ => ?_
    rcases runSegments_ran (processSingleCommand_ran run) _ _ _ _ _ _ _ _ _ same with none_ | ⟨x,member,rest,first⟩
    · exact absurd none_ some_
    · refine ⟨trim x,rest,first,?_⟩
      intro whole
      have shorter := segments_lt 16 [] header pipe member
      have trimmed := trim_length_le x
      rw [whole] at trimmed
      rw [List.length_nil] at shorter
      omega

theorem typed_parts (first : typeLine (processCommand k rounds fuel) s input = some (code,u,before)) (rest : List Str) :
    Ends (typeLines (processCommand k rounds fuel) s (input::rest)) (fun _ outs => ∃ later, outs = before ++ later ∧ GivenFirst later) := by
  intro result t outs typed
  rw [typeLines,first] at typed
  dsimp only at typed
  split at typed
  · cases typed
    exact ⟨[],(List.append_nil _).symm,given_first_composes.refl s⟩
  · cases more : typeLines (processCommand k rounds fuel) u rest with
    | none =>
      rw [more] at typed
      cases typed
    | some ended =>
      obtain ⟨code',v,later⟩ := ended
      rw [more] at typed
      cases typed
      exact ⟨later,rfl,typeLines_given_first _ _ _ _ _ more⟩

theorem split_header_not_run (prompt : s.collectingBlock = 0) (nonempty : header ≠ []) (pipe : hasPipe header = true)
    (rest : List Str) (meant : List Out) :
    Ends (typeLines (processCommand k rounds (fuel+1)) s (header::rest))
      (fun _ outs => outs.filter isCommand ≠ .given header::.ran header::meant) := by
  intro result t outs typed same
  have piped : typeLine (processCommand k rounds (fuel+1)) s header =
      printing [.given header] (runPipeline (processSingleCommand k (processCommand k rounds fuel) rounds) s header) := by
    rw [typeLine,if_neg nonempty,if_neg (by simp [prompt]),processCommand]
    exact congrArg _ (if_pos pipe)
  cases first : runPipeline (processSingleCommand k (processCommand k rounds fuel) rounds) s header with
  | none =>
    rw [first] at piped
    rw [typeLines,piped] at typed
    cases typed
  | some ended =>
    obtain ⟨code,u,before⟩ := ended
    rw [first] at piped
    obtain ⟨later,rfl,given⟩ := typed_parts piped rest _ _ _ typed
    rw [List.append_assoc,List.singleton_append,List.filter_cons_of_pos rfl,List.filter_append] at same
    have second := (List.cons.inj same).2
    by_cases empty : before = []
    · subst empty
      obtain ⟨line,wrong⟩ := given (.ran header) (by rw [show later.filter isCommand = _ from second]; rfl)
      cases wrong
    · obtain ⟨x,more,rfl,other⟩ := pipeline_ran _ s pipe _ _ _ first empty
      rw [List.filter_cons_of_pos rfl,List.cons_append] at second
      exact other (Out.ran.inj (List.cons.inj second).1)

def BodyLine (input : Str) : Prop := blockKind (trimLeft input) = 0 ∧ ∀ kind, endKeyword kind (trimLeft input) = false

theorem body_lines_nested (plain : ∀ input ∈ body, BodyLine input) : Nested body := by
  induction body with
  | nil => exact .nil
  | cons input body ih =>
    have first := plain input List.mem_cons_self
    exact .line first.1 first.2 (ih fun other member => plain other (List.mem_cons_of_mem _ member))

theorem body_lines_others (plain : ∀ input ∈ body, BodyLine input) : others kind body = 0 := by
  rw [others_zero]
  intro input member opens
  exact absurd (plain input member).1 opens

variable (k rounds fuel) in
-- The kept header has one token, so the end of the block is answered by an error.
theorem plain_header_typed (prompt : s.collectingBlock = 0) (isHeader : BlockHeader kind header val1 op val2)
    (plain : hasPipe header = false) (lines : ∀ input ∈ body, BodyLine input) (few : body.length ≤ 8)
    (closes : endKeyword kind (trimLeft closer) = true) :
    ∃ t, typeLines (processCommand k rounds (fuel+1)) s (header::body ++ [closer]) = some (0,t,
      [.given header,.ran header,.error (bytes "Error: Malformed block header\n")]) := by
  have someKind : kind ≠ 0 := by
    rcases isHeader.kinds with rfl | rfl | rfl <;> decide
  obtain ⟨t,collected,_,nesting⟩ := body_collected (processCommand k rounds (fuel+1)) (body_lines_nested lines)
    (s := {s with blockHeader := afterStrtok header, collectingBlock := kind, blockLines := [], blockNesting := 0})
    someKind (by simpa [maxBlockLines])
  obtain ⟨nonempty,comment,start⟩ := block_end_plain closes
  have kinds : t.collectingBlock = kind := collected.stores.collecting
  have depth : raisedNesting t (trimLeft closer) = 0 := by
    rw [raisedNesting,start,nesting,body_lines_others lines]
    rfl
  have ending : isEnd t closer = true := by
    rw [isEnd,kinds,closes,depth,comment]
    rfl
  have oneToken : (headerArgs {t with blockNesting := raisedNesting t (trimLeft closer)}).length ≤ 1 := by
    rw [headerArgs,List.length_take]
    have kept : t.blockHeader = afterStrtok header := collected.stores.header
    rw [kept]
    exact (Nat.min_le_right _ _).trans (tokens_afterStrtok header)
  have executed : executeBlock (processCommand k rounds (fuel+1)) {t with blockNesting := raisedNesting t (trimLeft closer)} =
      done {t with blockNesting := raisedNesting t (trimLeft closer)} [.error (bytes "Error: Malformed block header\n")] := by
    unfold executeBlock
    split
    · rename_i args
      rw [args] at oneToken
      simp only [List.length_cons] at oneToken
      omega
    · rfl
  have last : typeLine (processCommand k rounds (fuel+1)) t closer =
      done (closeBlock {t with blockNesting := raisedNesting t (trimLeft closer)}) [.error (bytes "Error: Malformed block header\n")] := by
    rw [typeLine,if_neg nonempty,if_pos (by rw [kinds]; exact someKind),collectLine,if_neg (by simp [comment]),if_pos ending,
      executed]
    rfl
  refine ⟨closeBlock {t with blockNesting := raisedNesting t (trimLeft closer)},?_⟩
  rw [List.cons_append,typeLines,header_opens prompt isHeader plain]
  dsimp only
  rw [if_neg (by decide),collected.typed,typeLines,last]
  rfl

theorem repeat_nothing (run : Session σ → Str → Result σ) (s : Session σ) (left : Nat) :
    repeatLines run [] s left = done s [] := by
  induction left with
  | zero => rfl
  | succ left ih =>
    rw [repeatLines,runLines]
    exact (printing_nil _).trans ih

theorem while_nothing (run : Session σ → Str → Result σ) (s : Session σ) (left : Nat) :
    repeatWhile run [] val1 op val2 s left = done s [] := by
  induction left with
  | zero => rfl
  | succ left ih =>
    rw [repeatWhile]
    split
    · exact (printing_nil _).trans ih
    · rfl

theorem while_stops (run : Session σ → Str → Result σ)
    (false_ : evaluateCondition (valueOf s.vars) val1 op val2 = false) (left : Nat) :
    repeatWhile run lines val1 op val2 s left = done s [] := by
  cases left with
  | zero => rfl
  | succ left => exact if_neg (by simp [false_])

def Idle (s : Session σ) (kind : Nat) (val1 op val2 : Str) (body : List Str) : Prop :=
  bodyCommands body = [] ∨ kind ≠ 2 ∧ evaluateCondition (valueOf s.vars) val1 op val2 = false

theorem idle_meaning (run : Session σ → Str → Result σ) (idle : Idle s kind val1 op val2 body) :
    blockMeaning run s kind val1 op val2 body = done s [] := by
  unfold blockMeaning
  rcases idle with empty | ⟨noFor,false_⟩
  · rw [empty,repeat_nothing,while_nothing,runLines]
    split
    · split <;> rfl
    · split <;> rfl
  · rw [if_neg noFor,while_stops run false_,false_]
    split <;> rfl

theorem ends_first {r : Result σ} {next : Session σ → Result σ}
    (first : Ends r (fun _ outs => ∃ rest, outs = .given line::rest)) :
    Ends (match r with
      | none => none
      | some (_,t,outs) => printing outs (next t)) (fun _ outs => ∃ rest, outs = .given line::rest) := by
  split
  · exact ends_none
  · obtain ⟨rest,rfl⟩ := first _ _ _ rfl
    exact ends_printing fun result t more _ => ⟨rest ++ more,rfl⟩

variable (k rounds fuel) in
theorem runLines_given (line : Str) (lines : List Str) (s : Session σ) :
    Ends (runLines (processCommand k rounds fuel) s (line::lines)) (fun _ outs => ∃ rest, outs = .given line::rest) :=
  ends_first (processCommand_given s line)

theorem busy_meaning (lines : bodyCommands body = line::rest) (busy : ¬ Idle s kind val1 op val2 body) :
    Ends (blockMeaning (processCommand k rounds fuel) s kind val1 op val2 body) (fun _ outs => ∃ rest, outs = .given line::rest) := by
  have holds : kind ≠ 2 → evaluateCondition (valueOf s.vars) val1 op val2 = true := by
    intro noFor
    by_contra false_
    exact busy (.inr ⟨noFor,Bool.eq_false_iff.mpr false_⟩)
  have first := runLines_given k rounds fuel line rest s
  unfold blockMeaning
  rw [lines]
  split
  · rename_i if_
    rw [if_pos (holds (by rw [if_]; decide))]
    exact first
  · split
    · exact ends_first first
    · rename_i noFor
      rw [show (10000 : Nat) = 9999 + 1 from rfl,repeatWhile,if_pos (holds noFor)]
      exact ends_first first

theorem block_runs_as_meant_iff (prompt : s.collectingBlock = 0) (isHeader : BlockHeader kind header val1 op val2)
    (lines : ∀ input ∈ body, BodyLine input) (few : body.length ≤ 8) (closes : endKeyword kind (trimLeft closer) = true) :
    RunsAsMeant (processCommand k rounds (fuel+1)) s kind header val1 op val2 body closer ↔
      hasPipe header = false ∧ Idle s kind val1 op val2 body := by
  constructor
  · rintro ⟨result,t,outs,result',u,meant,typed,means,same⟩
    have plain : hasPipe header = false := by
      refine Bool.eq_false_iff.mpr fun pipe => ?_
      exact split_header_not_run prompt isHeader.no_prefix.1 pipe _ _ _ _ _ typed same
    refine ⟨plain,?_⟩
    obtain ⟨t',typed'⟩ := plain_header_typed k rounds fuel prompt isHeader plain lines few closes
    rw [typed'] at typed
    cases typed
    by_contra busy
    cases commands : bodyCommands body with
    | nil => exact busy (.inl commands)
    | cons line rest =>
      obtain ⟨more,rfl⟩ := busy_meaning commands busy _ _ _ means
      cases same
  · rintro ⟨plain,idle⟩
    obtain ⟨t,typed⟩ := plain_header_typed k rounds fuel prompt isHeader plain lines few closes
    exact ⟨0,t,_,0,s,[],typed,idle_meaning _ idle,rfl⟩

end

theorem block_runs_as_meant_iff_false_if :
    RunsAsMeant (processCommand noDisk 0 1) (shellStart ()) 1 (bytes "if 1 = 2") (bytes "1") (bytes "=") (bytes "2")
        [bytes "help"] (bytes "endif") ↔
      hasPipe (bytes "if 1 = 2") = false ∧ Idle (shellStart ()) 1 (bytes "1") (bytes "=") (bytes "2") [bytes "help"] :=
  block_runs_as_meant_iff rfl ⟨.inl rfl,⟨[],rfl⟩,by decide⟩
    (by simp only [List.mem_singleton,forall_eq]; exact ⟨rfl,fun kind => by simp [endKeyword,trimLeft,bytes]⟩) (by decide) (by decide)

theorem true_if_not_run :
    BlockHeader 1 (bytes "if 1 = 1") (bytes "1") (bytes "=") (bytes "1") ∧
      ¬ RunsAsMeant (processCommand noDisk 0 1) (shellStart ()) 1 (bytes "if 1 = 1") (bytes "1") (bytes "=") (bytes "1")
        [bytes "$A=1"] (bytes "endif") := by
  have isHeader : BlockHeader 1 (bytes "if 1 = 1") (bytes "1") (bytes "=") (bytes "1") := ⟨.inl rfl,⟨[],rfl⟩,by decide⟩
  refine ⟨isHeader,?_⟩
  rintro ⟨result,t,outs,result',u,meant,typed,means,same⟩
  have printed : (typeLines (processCommand noDisk 0 1) (shellStart ()) [bytes "if 1 = 1",bytes "$A=1",bytes "endif"]).map
      (fun r => r.2.2.filter isCommand) = some [.given (bytes "if 1 = 1"),.ran (bytes "if 1 = 1")] := rfl
  have meaning : (blockMeaning (processCommand noDisk 0 1) (shellStart ()) 1 (bytes "1") (bytes "=") (bytes "1") [bytes "$A=1"]).map
      (fun r => r.2.2.filter isCommand) = some [.given (bytes "$A=1"),.ran (bytes "$A=1")] := rfl
  rw [means] at meaning
  rw [show [bytes "if 1 = 1",bytes "$A=1",bytes "endif"] = bytes "if 1 = 1"::[bytes "$A=1"] ++ [bytes "endif"] from rfl,typed] at printed
  have one := Option.some.inj printed
  have two := Option.some.inj meaning
  dsimp only at one two
  rw [one,two] at same
  cases same

end SantOS.Shell
