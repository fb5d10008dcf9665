import SantOS.Shell.Frames
import SantOS.Shell.GuardedRuns
import SantOS.Shell.TermSteps

namespace SantOS.Shell
open Buffers CStrings

section
variable {σ : Type} {k : Kernel σ} {rounds : Nat} {s t : Session σ} {command : Str} {run : Session σ → Str → Result σ}

structure TermLeft (s : Session σ) (command : Str) (t : Session σ) : Prop where
  shown : Shows s command → t.findTerm = []
  passed : Searches s command → PassesOn s → t.findTerm = searchTerm (command.drop 5)
  printed : Searches s command → ¬PassesOn s → t.findTerm = []
  kept : ¬Shows s command → ¬Searches s command → t.findTerm = s.findTerm

theorem untouched_left (same : t.findTerm = s.findTerm) (noRead : ¬Shows s command) (noFind : ¬Searches s command) :
    TermLeft s command t :=
  ⟨fun shows => absurd shows noRead,fun searches => absurd searches noFind,fun searches => absurd searches noFind,fun _ _ => same⟩

theorem other_left (same : t.findTerm = s.findTerm) (noRead : dispatched command ≠ some (bytes "read"))
    (noFind : dispatched command ≠ some (bytes "find")) : TermLeft s command t :=
  untouched_left same (fun shows => noRead shows.1) (fun searches => noFind searches.1)

theorem read_left (here : dispatched command = some (bytes "read")) :
    Ends (cmdRead k rounds s) (fun t _ => TermLeft s command t) := by
  have noFind : ¬Searches s command := by
    intro searches
    have both := here.symm.trans searches.1
    exact absurd both (by decide)
  unfold cmdRead
  split
  · next empty => exact ends_done (untouched_left rfl (fun shows => shows.2 empty) noFind)
  · next data =>
    split
    · exact ends_none
    · exact ends_some ⟨fun _ => rfl,fun searches => absurd searches noFind,fun searches => absurd searches noFind,
        fun noRead => absurd ⟨here,data⟩ noRead⟩

theorem find_left (here : dispatched command = some (bytes "find")) (args : commandArgs command = given) :
    Ends (findCommand s command given) (fun t _ => TermLeft s command t) := by
  subst args
  have noRead : ¬Shows s command := by
    intro shows
    have both := here.symm.trans shows.1
    exact absurd both (by decide)
  refine ends_if (fun few => ?usage) (fun several => ?searched)
  case usage => exact ends_done (untouched_left rfl noRead (fun searches => absurd searches.2.1 (Nat.not_le.mpr few)))
  have left : TermLeft s command (cmdFind s (searchTerm (command.drop 5))).1 := by
    unfold cmdFind
    split
    · next empty => exact untouched_left rfl noRead (fun searches => searches.2.2.1 empty)
    · next data =>
      split
      · next nothing => exact untouched_left rfl noRead (fun searches => searches.2.2.2 nothing)
      · next term =>
        have searches : Searches s command := ⟨here,Nat.not_lt.mp several,data,term⟩
        have whole := List.take_of_length_le (searchTerm_length (command.drop 5))
        dsimp only
        split
        · next passes =>
          exact ⟨fun shows => absurd shows noRead,fun _ _ => whole,fun _ other => absurd passes other,fun _ other => absurd searches other⟩
        · next last =>
          exact ⟨fun shows => absurd shows noRead,fun _ other => absurd other last,fun _ _ => rfl,fun _ other => absurd searches other⟩
  exact ends_done left

theorem runCommand_left (args : commandArgs command = name::rest) (here : dispatched command = some name) :
    Ends (runCommand k rounds s command name (name::rest)) (fun t _ => TermLeft s command t) := by
  by_cases read : name = bytes "read"
  · subst read
    exact read_left here
  · by_cases find : name = bytes "find"
    · subst find
      exact find_left here args
    · have other {t : Session σ} (same : t.findTerm = s.findTerm) : TermLeft s command t := by
        refine other_left same ?_ ?_
        · rw [here]
          exact fun same => read (Option.some.inj same)
        · rw [here]
          exact fun same => find (Option.some.inj same)
      refine runCommand_cases command name _ (fun _ => ?moved) (fun kind usage _ => ?opened) (fun same => absurd same read)
        (fun same => absurd same find) (fun t _ quiet => other quiet.term)
      case moved => exact fun _ _ _ ran => other (cd_moves _ _ _ _ ran).term
      case opened => exact ends_ite (ends_done (other rfl)) (ends_done (other rfl))

theorem runProgram_cases (run : Session σ → Str → Result σ) (dot : command.take 2 = bytes "./") :
    (∃ t lines, scriptOf k s command = some (t,lines) ∧ t.findTerm = s.findTerm ∧ runProgram k run s command = runLines run t lines) ∨
      (scriptOf k s command = none ∧ Ends (runProgram k run s command) (fun t _ => Quiet s t)) := by
  unfold scriptOf runProgram runScript
  rw [if_neg (not_not.mpr dot)]
  cases parseArgs (command.drop 2) with
  | nil => exact .inr ⟨rfl,ends_some rfl⟩
  | cons filename args =>
    dsimp only
    cases k.readFile s.system filename (fun _ => 0) 7 with
    | none => exact .inr ⟨rfl,ends_none⟩
    | some header =>
      dsimp only
      by_cases opened : header.1 ≤ 0
      · rw [if_pos (.inl opened),if_pos opened]
        exact .inr ⟨rfl,ends_some rfl⟩
      · rw [if_neg opened]
        by_cases marked : header.1 ≥ 7 ∧ bufferString header.2.1 7 = bytes "##/sosh"
        · rw [if_neg (not_or.mpr ⟨opened,not_not.mpr marked⟩),if_pos marked]
          cases k.readFile header.2.2 filename (fun _ => 0) 4095 with
          | none => exact .inr ⟨rfl,ends_none⟩
          | some script =>
            dsimp only
            by_cases empty : script.1 ≤ 0
            · rw [if_pos empty,if_pos empty]
              exact .inr ⟨rfl,ends_some rfl⟩
            · rw [if_neg empty,if_neg empty]
              exact .inl ⟨_,_,rfl,rfl,rfl⟩
        · rw [if_pos (.inr marked),if_neg marked]
          have moved : Quiet s {s with system := header.2.2} := rfl
          exact .inr ⟨rfl,fun _ _ _ ran => moved.trans (startProgram_quiet _ _ _ _ _ ran)⟩

theorem script_runs (run : Session σ → Str → Result σ) (script : scriptOf k s command = some (t,lines)) :
    processSingleCommand k run rounds s command = printing [.ran command] (runLines run t lines) ∧ t.findTerm = s.findTerm ∧
      dispatched command = none := by
  by_cases dot : command.take 2 = bytes "./"
  · rcases @runProgram_cases σ k s command run dot with ⟨u,others,same,kept,runs⟩ | ⟨none_,_⟩
    · cases same.symm.trans script
      rw [processSingleCommand,if_pos dot,runs]
      exact ⟨rfl,kept,if_pos (.inl dot)⟩
    · cases none_.symm.trans script
  · unfold scriptOf at script
    rw [if_pos dot] at script
    cases script

theorem alone_left (alone : scriptOf k s command = none) :
    Ends (processSingleCommand k run rounds s command) (fun t _ => TermLeft s command t) := by
  refine ends_printing ?_
  split
  · next dot =>
    have none_ : dispatched command = none := if_pos (.inl dot)
    rcases @runProgram_cases σ k s command run dot with ⟨_,_,script,_⟩ | ⟨_,ends⟩
    · cases script.symm.trans alone
    · exact fun _ _ _ ran => other_left (ends _ _ _ ran).term (by simp [none_]) (by simp [none_])
  · next noDot =>
    split
    · next dollar =>
      have none_ : dispatched command = none := if_pos (.inr dollar)
      have same {t : Session σ} (same : t.findTerm = s.findTerm) : TermLeft s command t :=
        other_left same (by simp [none_]) (by simp [none_])
      split
      · exact ends_none
      · exact ends_done (same rfl)
    · next noDollar =>
      have lookedUp : dispatched command = (commandArgs command).head? := if_neg (not_or.mpr ⟨noDot,noDollar⟩)
      split
      · next empty =>
        rw [empty] at lookedUp
        exact ends_done (other_left rfl (by simp [lookedUp]) (by simp [lookedUp]))
      · next name rest args =>
        rw [args] at lookedUp
        exact runCommand_left args lookedUp

theorem pages_left (ran : processSingleCommand k run rounds s command = some (-200,t,outs)) : t.findTerm = [] := by
  obtain ⟨name,args,more,_,ran⟩ := processSingleCommand_value (by decide) (by decide) ran
  by_cases read : name = bytes "read"
  · subst read
    have paged : cmdRead k rounds s = some (-200,t,more) := ran
    unfold cmdRead at paged
    split at paged
    · cases paged
    · split at paged
      · cases paged
      · cases paged
        rfl
  · exact absurd ran (runCommand_never (by decide) (by decide) command name _ (fun _ => by decide) (fun here => absurd here read) _ _)

end

-- The term that a place finds or leaves: of its pipeline, and used up by the last command.
abbrev OwnTerm {σ : Type} (terms : List Str) (s : Session σ) : Prop := s.findTerm = [] ∨ s.findTerm ∈ terms

structure Holds {σ : Type} (p : Place) (t : Session σ) : Prop where
  own : OwnTerm p.terms t
  last : p.last = true → t.findTerm = []

abbrev Tracked {σ ρ : Type} : (ρ → Prop) → Option ρ → List (TermStep σ) → Prop := Guarded (fun e => Tidy e ∧ Owned e) Tidy

section
variable {σ : Type} {k : Kernel σ} {rounds : Nat} {s t : Session σ} {command : Str} {p : Place}

theorem OwnTerm.kept (own : OwnTerm terms s) (same : t.findTerm = s.findTerm) : OwnTerm terms t := by rwa [OwnTerm,same]

theorem TermLeft.holds (left : TermLeft s command t) (own : OwnTerm p.terms s)
    (given : p.segment = true → Searches s command → searchTerm (command.drop 5) ∈ p.terms) (tidy : Tidy (.single p s command)) :
    Holds p t := by
  constructor
  · by_cases shows : Shows s command
    · exact .inl (left.shown shows)
    · by_cases searches : Searches s command
      · by_cases passes : PassesOn s
        · refine .inr ?_
          rw [left.passed searches passes]
          cases segment : p.segment with
          | true => exact given segment searches
          | false => exact tidy.1 segment searches passes
        · exact .inl (left.printed searches passes)
      · exact own.kept (left.kept shows searches)
  · intro last
    rcases tidy.2 last with shows | ⟨searches,ends⟩ | ⟨empty,noFind⟩
    · exact left.shown shows
    · exact left.printed searches ends
    · by_cases shows : Shows s command
      · exact left.shown shows
      · rw [left.kept shows noFind]
        exact empty

theorem single_tracked (own : OwnTerm p.terms s) :
    (Tidy (.single p s command) ∧ Owned (.single p s command)) ↔ Tidy (.single p s command) :=
  and_iff_left fun _ => own

section
variable {run : Session σ → Str → Result σ} {steps : Place → Session σ → Str → List (TermStep σ)}

section
variable (each : ∀ p s line, p.segment = false → OwnTerm p.terms s →
  Tracked (fun ended => Holds p ended.2.1) (run s line) (steps p s line))
include each

theorem lines_hold (lines : List Str) (own : OwnTerm p.terms s) (behind : lines = [] → p.last = true → s.findTerm = []) :
    Tracked (fun ended => Holds p ended.2.1) (runLines run s lines) (lineTermSteps run steps p s lines) := by
  induction lines generalizing s with
  | nil => exact guarded_some ⟨own,behind rfl⟩
  | cons line lines ih =>
    refine guarded_then (P := Holds ⟨p.terms,false,p.last && lines.isEmpty⟩) (each _ s line rfl own) (fun t holds => ih holds.own ?_)
    intro none_ last
    exact holds.last (by simp [none_,last])

theorem single_holds (own : OwnTerm p.terms s)
    (given : p.segment = true → Searches s command → searchTerm (command.drop 5) ∈ p.terms) :
    Tracked (fun ended => Holds p ended.2.1) (processSingleCommand k run rounds s command) (singleTermSteps k run steps p s command) := by
  have alone (left : Ends (processSingleCommand k run rounds s command) (fun t _ => TermLeft s command t)) :
      Tracked (fun ended => Holds p ended.2.1) (processSingleCommand k run rounds s command) [.single p s command] := by
    refine guarded_cons (single_tracked own) (fun tidy => ⟨by simp,fun _ ended ran => ?_⟩)
    exact (left _ _ _ ran).holds own given tidy
  unfold singleTermSteps
  split
  · next none_ => exact alone (alone_left none_)
  · next t script =>
    obtain ⟨runs,same,none_⟩ := script_runs run script
    rw [runs] at alone ⊢
    exact alone (ends_printing (ends_done (other_left same (by simp [none_]) (by simp [none_]))))
  · next t line lines script =>
    obtain ⟨runs,same,_⟩ := script_runs run script
    rw [runs]
    refine guarded_cons (single_tracked own) (fun _ => guarded_printing (P := fun _ t => Holds p t) _ ?_)
    exact lines_hold each (line::lines) (own.kept same) (fun none_ => by cases none_)

end

theorem segment_given (member : seg ∈ segments 16 [] command) (searches : Searches s (trim seg)) :
    searchTerm ((trim seg).drop 5) ∈ findTerms command := by
  refine List.mem_flatMap.mpr ⟨seg,member,List.mem_append_right _ ?_⟩
  rw [if_pos searches.1]
  exact List.mem_singleton_self _

theorem findSegment_member {segs : List Str} (found : findSegment i segs = some (j,text)) :
    ∃ seg ∈ segs, (trimLeft seg).take 5 = bytes "find " ∧ text = (trimLeft seg).drop 5 := by
  induction segs generalizing i with
  | nil => cases found
  | cons seg segs ih =>
    unfold findSegment at found
    split at found
    · next here =>
      cases found
      exact ⟨seg,List.mem_cons_self,here,rfl⟩
    · obtain ⟨other,member,shape⟩ := ih found
      exact ⟨other,List.mem_cons_of_mem _ member,shape⟩

theorem scanned_own (command : Str) : scannedTerm command = [] ∨ scannedTerm command ∈ findTerms command := by
  unfold scannedTerm
  cases found : findSegment 0 (segments 16 [] command) with
  | none => exact .inl rfl
  | some first =>
    obtain ⟨seg,member,here,text⟩ := findSegment_member found
    refine .inr (List.mem_flatMap.mpr ⟨seg,member,List.mem_append_left _ ?_⟩)
    rw [if_pos here,← text]
    exact List.mem_singleton_self _

-- A pipeline that comes to an end has used its term up; with exit the shell at the prompt is over.
section
variable {terms : List Str}
  (each : ∀ p s line, OwnTerm p.terms s → (p.segment = true → Searches s line → searchTerm (line.drop 5) ∈ p.terms) →
    Tracked (fun ended => Holds p ended.2.1) (run s line) (steps p s line))
  (exits : ∀ s line t outs, run s line = some (-100,t,outs) → isExit line = true)
  (pages : ∀ s line t outs, run s line = some (-200,t,outs) → t.findTerm = [])
include each exits pages

theorem segments_hold (prompt : Bool) (findSegIndex : Option Nat) (segCount : Nat) (segs : List Str) (i : Nat) (result : Int)
    (given : ∀ seg ∈ segs, ∀ s : Session σ, Searches s (trim seg) → searchTerm ((trim seg).drop 5) ∈ terms)
    (own : OwnTerm terms s) (behind : runsMore findSegIndex segCount i segs = false → s.findTerm = []) :
    Tracked (fun ended => ended.2.1.findTerm = [] ∨ (prompt = true ∧ ended.1 = -100)) (runSegments run findSegIndex segCount i result s segs)
      (segmentTermSteps run steps prompt terms findSegIndex segCount i s segs) := by
  induction segs generalizing i result s with
  | nil => exact guarded_some (.inl (behind rfl))
  | cons seg segs ih =>
    have later := fun other member => given other (List.mem_cons_of_mem _ member)
    unfold runSegments segmentTermSteps
    unfold runsMore at behind
    split
    · next empty => exact ih _ _ later own (by simpa [empty] using behind)
    · next text =>
      dsimp only
      split
      · next scanned => exact ih _ _ later own (by simpa [scanned] using behind)
      · next runs =>
        have first := each ⟨terms,true,!runsMore findSegIndex segCount (i+1) segs || (!prompt && isExit (trim seg))⟩
          {s with pipeRemaining := segCount - i - 1} (trim seg) own (fun _ => given seg List.mem_cons_self _)
        have goesOn (code : Int) (t : Session σ)
            (holds : Holds ⟨terms,true,!runsMore findSegIndex segCount (i+1) segs || (!prompt && isExit (trim seg))⟩ t) :=
          ih (i+1) code later holds.own (fun stops => holds.last (by simp [stops]))
        refine guarded_until (Q := fun code t => t.findTerm = [] ∨ (prompt = true ∧ code = -100)) first ?_ (fun code t _ => goesOn code t)
        rintro code t outs ran (rfl | rfl) holds
        · cases atPrompt : prompt with
          | true => exact .inr ⟨rfl,rfl⟩
          | false => exact .inl (holds.last (by simp [atPrompt,exits _ _ _ _ ran]))
        · exact .inl (pages _ _ _ _ ran)

end

end

theorem command_holds (k : Kernel σ) (rounds fuel : Nat) (prompt : Bool) (p : Place) (s : Session σ) (command : Str)
    (alone : p.segment = false)
    (own : OwnTerm p.terms s) :
    Tracked (fun ended => Holds p ended.2.1 ∨ (prompt = true ∧ ended.1 = -100)) (processCommand k rounds fuel s command)
      (commandTermSteps k rounds fuel prompt p s command) := by
  induction fuel generalizing prompt p s command with
  | zero => exact guarded_none
  | succ fuel ih =>
    have line (p : Place) (s : Session σ) (line : Str) (alone : p.segment = false) (own : OwnTerm p.terms s) :
        Tracked (fun ended => Holds p ended.2.1) (processCommand k rounds fuel s line) (commandTermSteps k rounds fuel false p s line) := by
      refine (ih false p s line alone own).imp (fun ended same => ⟨ended,same,fun holds => ?_⟩)
      exact holds.resolve_right (fun atPrompt => by cases atPrompt.1)
    have single (p : Place) (s : Session σ) (command : Str) (own : OwnTerm p.terms s)
        (given : p.segment = true → Searches s command → searchTerm (command.drop 5) ∈ p.terms) :
        Tracked (fun ended => Holds p ended.2.1) (processSingleCommand k (processCommand k rounds fuel) rounds s command)
          (singleTermSteps k (processCommand k rounds fuel) (commandTermSteps k rounds fuel false) p s command) :=
      single_holds line own given
    refine guarded_printing (P := fun code t => Holds p t ∨ (prompt = true ∧ code = -100)) _ ?_
    unfold commandTermSteps
    split
    · refine guarded_cons (and_iff_left trivial) (fun tidy => ?_)
      have started : OwnTerm (findTerms command) (startPipeline s (scannedTerm command)) := scanned_own command
      have ended := segments_hold single (fun _ _ _ _ => processSingleCommand_exits) (fun _ _ _ _ => pages_left) prompt _ _ _ 0 0
        (fun seg member s => segment_given member) started tidy
      refine ended.imp ?_
      intro closed same
      unfold runPipeline at same
      dsimp only at same
      split at same
      · cases same
      · next ran =>
        cases same
        refine ⟨_,ran,fun ended => ended.imp_left fun empty => ?_⟩
        exact ⟨.inl empty,fun _ => empty⟩
    · exact (single p s command own (by simp [alone])).imp (fun ended same => ⟨ended,same,.inl⟩)

theorem prompt_tracked (k : Kernel σ) (rounds fuel : Nat) :
    Prompt (fun e => ∀ x ∈ eventTermSteps k rounds fuel e, Tidy x ∧ Owned x)
    (fun e => ∀ x ∈ eventTermSteps k rounds fuel e, Tidy x) (fun s => s.findTerm = []) (fun s => s.findTerm = [] ∧ s.collectingBlock ≠ 0)
    (processCommand k rounds fuel) givenLine where
  collected _ _ := by simp [eventTermSteps]
  header _ _ := by simp [eventTermSteps]
  stored _ _ _ empty := empty
  closed _ empty := empty
  opened _ _ empty collecting := ⟨empty,collecting⟩
  ended _ holds := holds.1
  blockLine s holds line := by
    have held := command_holds k rounds fuel (s.collectingBlock = 0) ⟨[],false,false⟩ s line rfl (.inl holds.1)
    refine guarded_parts (eventTermSteps k rounds fuel) (held.imp fun ended ran => ⟨ended,ran,fun left => ?_⟩)
    have inside := left.resolve_right (fun atPrompt => holds.2 (by simpa using atPrompt.1))
    exact ⟨inside.own.resolve_right List.not_mem_nil,(processCommand_keeps s line _ _ _ ran).1 holds.2⟩
  typedLine s empty _ line := by
    have held := command_holds k rounds fuel (s.collectingBlock = 0) ⟨[],false,false⟩ s line rfl (.inl empty)
    refine guarded_parts (eventTermSteps k rounds fuel) (held.imp fun ended ran => ⟨ended,ran,fun left goesOn => ?_⟩)
    have inside := left.resolve_right (fun atPrompt => goesOn atPrompt.2)
    exact inside.own.resolve_right List.not_mem_nil

-- Whatever lines the shell gets: where every step of the run is tidy, read shows no term
-- but one of its own pipeline.
theorem terms_owned (k : Kernel σ) (rounds fuel : Nat) (system : σ) (inputs : List Str)
    (tidy : ∀ e ∈ termSteps k rounds fuel (shellStart system) inputs, Tidy e) :
    ∀ e ∈ termSteps k rounds fuel (shellStart system) inputs, Owned e := by
  have tracked := ((prompt_tracked k rounds fuel).typeLines (s := shellStart system) inputs rfl).iff
  have both := tracked.mpr (fun e member x inside => tidy x (List.mem_flatMap.mpr ⟨e,member,inside⟩))
  intro x member
  obtain ⟨e,member,inside⟩ := List.mem_flatMap.mp member
  exact (both e member x inside).2

def quitting (k : Kernel Unit) : Kernel Unit := {k with getchar := fun _ => some (0x71,())}

theorem terms_owned_highlight : Owned ((termSteps (quitting (oneFile (bytes "A") (bytes "abc"))) 1 1 (shellStart ())
    [bytes "cat A > find \"b\" > read"]).get ⟨2,by decide +kernel⟩) :=
  terms_owned _ _ _ _ _ (by decide +kernel) _ (List.get_mem _ _)

-- A pipeline that finds no file leaves its term to the next read.
theorem term_leaks : ¬ ∀ inputs : List Str,
    ∀ e ∈ termSteps (quitting (oneFile (bytes "A") (bytes "abc"))) 1 1 (shellStart ()) inputs, Owned e := by
  intro all
  have owned := all [bytes "cat B > find \"b\" > read",bytes "cat A",bytes "read"]
  exact absurd owned (by decide +kernel)

end

end SantOS.Shell
