import Mathlib.Data.List.TakeWhile
import SantOS.Fat12.Stored
import SantOS.Shell.Collector
import SantOS.Shell.Exits
import SantOS.Shell.Frames
import SantOS.Shell.Tokens

namespace SantOS.Shell
open CStrings Fat12

-- LF and CR end a line of a script.
def lineEnd (c : UInt8) : Bool := c = 10 ∨ c = 13

-- A script: first is the line of the marker, and the lines behind it are those to run.
structure Script (text first : Str) (lines : List Str) : Prop where
  cut : text.splitOnP lineEnd = first::lines
  marker : first.take 7 = bytes "##/sosh"
  -- the line of the marker ends with LF or CR LF
  header : text.takeWhile (· ≠ 10) = first ∨ text.takeWhile (· ≠ 10) = first ++ [13]
  noNul : 0 ∉ text

variable {text first : Str} {lines : List Str}

theorem Script.plain (script : Script text first lines) : ∀ c ∈ first, lineEnd c = false := by
  obtain ⟨rest,parts⟩ := split_head lineEnd text
  rw [script.cut] at parts
  rw [(List.cons.inj parts).1]
  intro c member
  simpa using List.mem_takeWhile_imp member

theorem Script.behind (script : Script text first lines) :
    lines.filter (fun l => l ≠ []) = (((text.dropWhile (· ≠ 10)).drop 1).splitOnP lineEnd).filter (fun l => l ≠ []) := by
  have whole : text = text.takeWhile (· ≠ 10) ++ text.dropWhile (· ≠ 10) := List.takeWhile_append_dropWhile.symm
  have cut := script.cut
  have stop : lineEnd 10 = true := by decide
  cases rest : text.dropWhile (· ≠ 10) with
  | nil =>
    rw [rest,List.append_nil] at whole
    rcases script.header with same | same
    · rw [whole,same,List.splitOnP_eq_singleton script.plain] at cut
      rw [← (List.cons.inj cut).2]
      rfl
    · rw [whole,same,List.splitOnP_append_cons_of_forall_mem script.plain 13 (by decide)] at cut
      rw [← (List.cons.inj cut).2]
      rfl
  | cons c rest' =>
    have newline : c = 10 := by
      have head := List.head?_dropWhile_not (fun c : UInt8 => decide (c ≠ 10)) text
      rw [rest] at head
      simpa using head
    subst newline
    rw [rest] at whole
    rcases script.header with same | same
    · rw [whole,same,List.splitOnP_append_cons_of_forall_mem script.plain 10 stop] at cut
      rw [← (List.cons.inj cut).2]
      rfl
    · rw [whole,same,List.append_assoc,List.singleton_append,
        List.splitOnP_append_cons_of_forall_mem script.plain 13 (by decide)] at cut
      rw [← (List.cons.inj cut).2,List.splitOnP_cons_eq_if_modifyHead,if_pos stop]
      rfl

theorem Script.runLines (script : Script text first lines) : scriptLines text = lines.filter (fun l => l ≠ []) := by
  have split_ : pieces lineEnd [] ((text.dropWhile (· ≠ 10)).drop 1) = _ := pieces_split [] _
  obtain ⟨rest,parts⟩ := split_head lineEnd ((text.dropWhile (· ≠ 10)).drop 1)
  rw [parts,List.modifyHead_cons,List.nil_append,← parts] at split_
  exact Eq.trans split_ script.behind.symm

section
variable {σ : Type} {k : Kernel σ} {rounds fuel : Nat} {s t : Session σ}

def Reads (k : Kernel σ) (system : σ) (name text : Str) : Prop :=
  ∀ buffer size, size < 2^32 → ∃ buffer' : Nat → UInt8,
    k.readFile system name buffer size = some (((min size text.length : Nat) : Int),buffer',system) ∧
      ∀ i < min size text.length, buffer' i = text.getD i 0

theorem bufferString_take {buffer : Nat → UInt8} (spells : ∀ i < size, buffer i = text.getD i 0) (le : size ≤ text.length)
    (noNul : 0 ∉ text) : bufferString buffer size = text.take size := by
  have bytesEq : (List.range size).map buffer = text.take size := by
    refine List.ext_getElem (by simp [le]) ?_
    intro i low high
    simp only [List.length_map,List.length_range] at low
    rw [List.getElem_map,List.getElem_range,spells i low,List.getElem_take,List.getD_eq_getElem _ _ (by omega)]
  rw [bufferString,bytesEq,List.takeWhile_eq_self_iff]
  intro c member
  simp only [ne_eq,decide_eq_true_eq]
  rintro rfl
  exact noNul (List.mem_of_mem_take member)

-- Whether the shell has ended, and the session that is left.
def outcome (r : Result σ) : Option (Bool × Session σ) := r.map (fun ended => (decide (ended.1 = -100),ended.2.1))

theorem outcome_printing (outs : List Out) (r : Result σ) : outcome (printing outs r) = outcome r := by
  cases r <;> rfl

theorem typed_nonempty (run : Session σ → Str → Result σ) (lines : List Str) (s : Session σ) :
    outcome (typeLines run s (lines.filter (fun l => l ≠ []))) = outcome (typeLines run s lines) := by
  induction lines generalizing s with
  | nil => rfl
  | cons line lines ih =>
    by_cases empty : line = []
    · subst empty
      exact (ih s).trans (outcome_printing [] _).symm
    · rw [List.filter_cons_of_pos (by simpa using empty),typeLines,typeLines]
      cases typeLine run s line with
      | none => rfl
      | some ended =>
        dsimp only
        split
        · rfl
        · rw [outcome_printing,outcome_printing,ih]

-- Every line finds the shell at its prompt, or is a comment without a pipe, and none exits.
def AtPrompt (run : Session σ → Str → Result σ) : Session σ → List Str → Prop
  | _,[] => True
  | s,line::lines => (s.collectingBlock ≠ 0 → isComment line = true ∧ hasPipe line = false) ∧ exits line = false ∧
    ∀ result t outs, run s line = some (result,t,outs) → AtPrompt run t lines

variable (k rounds fuel s) in
theorem comment_runs (comment : isComment line = true) (plain : hasPipe line = false) :
    processCommand k rounds (fuel+1) s line = some (0,s,[.given line,.ran line]) := by
  obtain ⟨rest,shape⟩ := comment_shape (by simpa [isComment] using comment : (trimLeft line).take 2 = bytes "##")
  have args : ∃ piece more, commandArgs line = (0x23::0x23::piece)::more := by
    have spaces : ∀ c ∈ line.takeWhile (· = 0x20), decide (c = 0x20) = true :=
      fun c member => List.mem_takeWhile_imp (p := fun c => decide (c = 0x20)) member
    have parts : line = line.takeWhile (· = 0x20) ++ 0x23::0x23::rest := by
      conv_lhs => rw [← @List.takeWhile_append_dropWhile _ (fun c => decide (c = 0x20)) line]
      exact congrArg _ shape
    obtain ⟨piece,more,first⟩ := @pieces_head (fun c => decide (c = 0x20)) [0x23,0x23] rest (by simp)
    refine ⟨piece,more.take 31,?_⟩
    rw [commandArgs,tokens,parts,pieces_breaks spaces]
    exact congrArg (List.take 32) first
  obtain ⟨piece,more,args⟩ := args
  obtain ⟨_,noDot,noDollar⟩ := command_no_prefix args (by simp) (by simp)
  rw [processCommand]
  dsimp only
  rw [if_neg (by simp [plain]),processSingleCommand,if_neg noDot,if_neg noDollar,args]
  rfl

theorem lines_run_as_typed (lines : List Str) (s : Session σ) (nonempty : ∀ line ∈ lines, line ≠ [])
    (prompt : AtPrompt (processCommand k rounds (fuel+1)) s lines) :
    outcome (runLines (processCommand k rounds (fuel+1)) s lines) = outcome (typeLines (processCommand k rounds (fuel+1)) s lines) := by
  induction lines generalizing s with
  | nil => rfl
  | cons line lines ih =>
    obtain ⟨quiet,noExit,next⟩ := prompt
    have rest (t : Session σ) (atPrompt : AtPrompt (processCommand k rounds (fuel+1)) t lines) :=
      ih t (fun other member => nonempty other (List.mem_cons_of_mem _ member)) atPrompt
    rw [runLines,typeLines,typeLine,if_neg (nonempty line List.mem_cons_self)]
    by_cases collecting : s.collectingBlock ≠ 0
    · obtain ⟨comment,plain⟩ := quiet collecting
      have ran := comment_runs k rounds fuel s comment plain
      rw [if_pos collecting,collectLine,if_pos comment,ran]
      dsimp only [done]
      rw [if_neg (by decide),outcome_printing,outcome_printing]
      exact rest s (next _ _ _ ran)
    · rw [if_neg collecting]
      cases ran : processCommand k rounds (fuel+1) s line with
      | none => rfl
      | some ended =>
        obtain ⟨result,t,outs⟩ := ended
        have stays : result ≠ -100 := by
          rintro rfl
          rw [processCommand_exits ran] at noExit
          cases noExit
        dsimp only
        rw [if_neg stays,outcome_printing,outcome_printing]
        exact rest t (next _ _ _ ran)

def Starts (command name : Str) : Prop :=
  hasPipe command = false ∧ command.take 2 = bytes "./" ∧ ∃ args, parseArgs (command.drop 2) = name::args

theorem script_starts (script : Script text first lines) (short : text.length ≤ 4095) (reads : Reads k s.system name text)
    (starts : Starts command name) :
    processCommand k rounds (fuel+2) s command = printing [.given command] (printing [.ran command]
      (runLines (processCommand k rounds (fuel+1)) s (lines.filter (fun l => l ≠ [])))) := by
  obtain ⟨plain,dot,args,parsed⟩ := starts
  have marked : text.take 7 = bytes "##/sosh" := by
    have long : 7 ≤ first.length := by
      have seven := congrArg List.length script.marker
      rw [List.length_take,show (bytes "##/sosh").length = 7 from rfl] at seven
      omega
    rw [← script.marker]
    conv_lhs => rw [← @List.takeWhile_append_dropWhile _ (fun c : UInt8 => decide (c ≠ 10)) text]
    rcases script.header with same | same
    · rw [same,List.take_append_of_le_length long]
    · rw [same,List.append_assoc,List.take_append_of_le_length long]
  have long : 7 ≤ text.length := by
    have seven := congrArg List.length marked
    rw [List.length_take,show (bytes "##/sosh").length = 7 from rfl] at seven
    omega
  obtain ⟨header,readHeader,headerBytes⟩ := reads (fun _ => 0) 7 (by decide)
  obtain ⟨scriptBuf,readScript,scriptBytes⟩ := reads (fun _ => 0) 4095 (by decide)
  rw [Nat.min_eq_left long] at readHeader headerBytes
  rw [Nat.min_eq_right short] at readScript scriptBytes
  have isScript : bufferString header 7 = bytes "##/sosh" :=
    (bufferString_take headerBytes long script.noNul).trans marked
  have whole : bufferString scriptBuf text.length = text := by
    rw [bufferString_take scriptBytes (Nat.le_refl _) script.noNul,List.take_length]
  rw [processCommand]
  dsimp only
  rw [if_neg (by simp [plain]),processSingleCommand,if_pos dot,runProgram,parsed]
  dsimp only
  rw [readHeader]
  dsimp only
  rw [if_neg (by decide),if_pos ⟨by decide,isScript⟩,runScript]
  dsimp only
  rw [readScript]
  dsimp only
  rw [if_neg (by omega),Int.toNat_natCast,whole,script.runLines]

-- A line that meets an open block and is no comment parts the two at once: the block
-- takes the typed line, the script's line is run.
theorem blockLine_parts (collecting : s.collectingBlock ≠ 0) (nonempty : line ≠ []) (noComment : isComment line = false)
    (ran : processCommand k rounds fuel s line = some (result,t,outs))
    (typed : typeLine (processCommand k rounds fuel) s line = some (result',u,outs')) : t ≠ u := by
  have kept : BlockKept s t := processCommand_keeps s line result _ outs ran
  rw [typeLine,if_neg nonempty,if_pos collecting,collectLine,if_neg (by simp [noComment])] at typed
  rintro rfl
  split at typed
  · split at typed
    · cases typed
    · cases typed
      exact kept.1 collecting rfl
  · split at typed
    · have stored := congrArg (fun r => r.2.1.blockLines) (Option.some.inj typed)
      rcases kept.2 with same | none_
      · rw [same] at stored
        simpa using congrArg List.length stored
      · rw [none_] at stored
        simp at stored
    · cases typed
      exact kept.1 collecting rfl

-- An exit that is reached ends the shell that is typed at; behind a script the shell goes on.
theorem exit_parts (prompt : s.collectingBlock = 0) (nonempty : line ≠ [])
    (ran : processCommand k rounds fuel s line = some (-100,t,outs)) (rest : List Str) :
    outcome (runLines (processCommand k rounds fuel) s (line::rest)) ≠
      outcome (typeLines (processCommand k rounds fuel) s (line::rest)) := by
  have typed : typeLines (processCommand k rounds fuel) s (line::rest) = some (-100,t,outs) := by
    rw [typeLines,typeLine,if_neg nonempty,if_neg (not_not.mpr prompt),ran]
    rfl
  rw [typed]
  intro same
  obtain ⟨⟨code,u,more⟩,script,left_⟩ := Option.map_eq_some_iff.mp same
  have ended := of_decide_eq_true (congrArg Prod.fst left_)
  dsimp only at ended
  subst ended
  exact runLines_never (by decide) (line::rest) s u more script

theorem script_runs_as_typed (script : Script text first lines) (short : text.length ≤ 4095)
    (reads : Reads k s.system name text) (starts : Starts command name) :
    (AtPrompt (processCommand k rounds (fuel+1)) s (lines.filter (fun l => l ≠ [])) →
      outcome (processCommand k rounds (fuel+2) s command) = outcome (typeLines (processCommand k rounds (fuel+1)) s lines)) ∧
    ∀ t line, line ≠ [] →
      (∀ result result' u v outs outs', t.collectingBlock ≠ 0 → isComment line = false →
        processCommand k rounds (fuel+1) t line = some (result,u,outs) →
        typeLine (processCommand k rounds (fuel+1)) t line = some (result',v,outs') → u ≠ v) ∧
      ∀ u outs rest, t.collectingBlock = 0 → processCommand k rounds (fuel+1) t line = some (-100,u,outs) →
        outcome (runLines (processCommand k rounds (fuel+1)) t (line::rest)) ≠
          outcome (typeLines (processCommand k rounds (fuel+1)) t (line::rest)) := by
  refine ⟨fun prompt => ?_,fun t line nonempty => ⟨?_,?_⟩⟩
  · rw [script_starts script short reads starts,outcome_printing,outcome_printing,← typed_nonempty]
    exact lines_run_as_typed _ s (fun line member => by simpa using (List.mem_filter.mp member).2) prompt
  · intro result result' u v outs outs' collecting noComment ran typed
    exact blockLine_parts collecting nonempty noComment ran typed
  · intro u outs rest prompt ran
    exact exit_parts prompt nonempty ran rest

end

theorem stored_reads {system : Driver} {data : Nat → UInt8} (k : Kernel Driver) (sound : Sound system)
    (regular : RegularOrAbsent system name) (one : system.bootSector.sectorsPerCluster = 1) (clear : system.Clear)
    (nameable : Nameable name) (nonempty : text ≠ []) (small : text.length < 2^31)
    (stored : Stored system name data text.length) (spells : ∀ i < text.length, data i = text.getD i 0) :
    Reads (fat12Kernel k) system name text := by
  obtain ⟨slot,cs,resolves,length,chain,holds⟩ := stored
  have clusters : cs ≠ [] := by
    rintro rfl
    have covered : text.length ≤ 0 := holds
    exact nonempty (List.length_eq_zero_iff.mp (Nat.le_zero.mp covered))
  have handle := resolves.handle regular sound chain clusters
  intro buffer size word
  obtain ⟨out,j,ran,bytes⟩ := readFile_spec buffer one clear nameable resolves small length handle.path clusters
    handle.real holds (UInt32.ofNat size)
  rw [UInt32.toNat_ofNat_of_lt' word,Nat.min_comm,clear.after_eq] at ran
  rw [UInt32.toNat_ofNat_of_lt' word,Nat.min_comm] at bytes
  exact ⟨out,ran,fun i inside => (bytes i inside).trans (spells i (by omega))⟩

theorem oneFile_reads (name text : Str) : Reads (oneFile name text) () name text :=
  fun _ _ _ => ⟨_,if_pos rfl,fun _ inside => if_pos inside⟩

theorem script_runs_as_typed_assignment :
    outcome (processCommand (oneFile (bytes "S") (bytes "##/sosh\n$A=1\r\n")) 0 2 (shellStart ()) (bytes "./S")) =
      outcome (typeLines (processCommand (oneFile (bytes "S") (bytes "##/sosh\n$A=1\r\n")) 0 1) (shellStart ())
        [bytes "$A=1",[],[]]) := by
  have script : Script (bytes "##/sosh\n$A=1\r\n") (bytes "##/sosh") [bytes "$A=1",[],[]] :=
    ⟨by decide,by decide,.inl (by decide),by decide⟩
  have starts : Starts (bytes "./S") (bytes "S") := ⟨by decide,by decide,[],by decide⟩
  refine (script_runs_as_typed script (by decide) (oneFile_reads _ _) starts).1 ?_
  exact ⟨fun collecting => absurd rfl collecting,by decide,fun _ _ _ _ => trivial⟩

-- A block: typed, its line is collected; in a script it is run, and the block stays open.
theorem script_block_runs :
    outcome (processCommand (oneFile (bytes "S") (bytes "##/sosh\nif 1 = 2\n$A=1\nendif\n")) 0 2 (shellStart ()) (bytes "./S")) ≠
      outcome (typeLines (processCommand (oneFile (bytes "S") (bytes "##/sosh\nif 1 = 2\n$A=1\nendif\n")) 0 1) (shellStart ())
        [bytes "if 1 = 2",bytes "$A=1",bytes "endif",[]]) := by
  intro same
  have counts := congrArg (Option.map (fun left_ => (left_.2.vars.variableCount,left_.2.collectingBlock))) same
  have ran : Option.map (fun left_ => (left_.2.vars.variableCount,left_.2.collectingBlock))
      (outcome (processCommand (oneFile (bytes "S") (bytes "##/sosh\nif 1 = 2\n$A=1\nendif\n")) 0 2 (shellStart ()) (bytes "./S"))) =
        some (1,1) := by decide +kernel
  have typed : Option.map (fun left_ => (left_.2.vars.variableCount,left_.2.collectingBlock))
      (outcome (typeLines (processCommand (oneFile (bytes "S") (bytes "##/sosh\nif 1 = 2\n$A=1\nendif\n")) 0 1) (shellStart ())
        [bytes "if 1 = 2",bytes "$A=1",bytes "endif",[]])) = some (0,0) := by decide +kernel
  rw [ran,typed] at counts
  cases counts

end SantOS.Shell
