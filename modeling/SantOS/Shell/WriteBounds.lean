import SantOS.Shell.Frames
import SantOS.Shell.Writes

namespace SantOS.Shell
open Buffers CStrings Templates

def valueLength (value : Str → Option Str) (text : Str) : Nat :=
  ((valueParts .plain text).map fun part => (assigned value part).length).sum

section
variable {σ : Type} (k : Kernel σ)

def pathFits (s : Session σ) (args : List Str) : Prop :=
  match args with
  | _::target::_ =>
    target ≠ bytes "." → target ≠ bytes ".." → isDirectory k s target →
      (if s.currentDirectory = bytes "/" then 0 else s.currentDirectory.length) + 1 + target.length ≤ 255
  | _ => True

def singleFits (s : Session σ) (command : Str) : Prop :=
  if command.take 2 = bytes "./" then ((parseArgs (command.drop 2)).map fun arg => arg.length + 1).sum ≤ 256
  else if command.head? = some 0x24 then
    0x3D ∈ command.drop 1 → assignmentName (command.drop 1) ≠ [] →
      valueLength (valueOf s.vars) (rawValue (command.drop 1)) ≤ 1023
  else match commandArgs command with
    | [] => True
    | commandName::args =>
      (commandName = bytes "cd" → pathFits k s (commandName::args)) ∧
        (opensBlock (commandName::args) → (command.takeWhile (· = 0x20)).length + commandName.length ≤ 127)

def Fits : Event σ → Prop
  | .single s command => singleFits k s command
  | .pipeline _ _ => True
  | .collected s input => ¬ isComment input → ¬ isEnd s input → s.blockLines.length < maxBlockLines → input.length ≤ 127
  | .header _ => True

def InBuffers (e : Event σ) : Prop := ∀ x ∈ writes k e, x.Inside bufferSize

-- The strings that later steps copy or append to.
structure Tight (s : Session σ) : Prop where
  header : s.blockHeader.length < maxLineLen
  directory : s.currentDirectory.length < 256

abbrev Confined (r : Result σ) (events : List (Event σ)) : Prop :=
  Guarded (InBuffers k) (Fits k) (fun ended => Tight ended.2.1) r events

end

section
variable {value : Str → Option Str}

theorem expandValue_parts (varval : Str) (scan : Scan) (text : Str) :
    expandValue value varval scan text = varval ++ expand (assigned value) (valueParts scan text) := by
  have named (varval read : Str) : (if read = [] then varval else appendValue value varval read) = varval ++ assigned value (.name read) := by
    rw [assigned]
    split
    · exact (List.append_nil varval).symm
    · rfl
  induction text generalizing varval scan with
  | nil =>
    cases scan with
    | plain => exact (List.append_nil varval).symm
    | quoted => exact (List.append_nil varval).symm
    | name read =>
      rw [valueParts,expand,List.flatMap_singleton,← named]
      cases read with
      | nil => rfl
      | cons c read => rfl
  | cons c rest ih =>
    have char (varval : Str) (scan : Scan) : expandValue value (varval ++ [c]) scan rest =
        varval ++ expand (assigned value) (.char c::valueParts scan rest) := by
      rw [ih,expand,expand,List.flatMap_cons,← List.append_assoc]
      rfl
    cases scan with
    | plain =>
      rw [expandValue.eq_def,valueParts]
      dsimp only
      rw [expandPlain]
      split
      · exact ih varval .quoted
      · split
        · exact ih varval (.name [])
        · exact char varval .plain
    | quoted =>
      rw [expandValue.eq_def,valueParts]
      dsimp only
      split
      · exact ih varval .plain
      · exact char varval .quoted
    | name read =>
      have behind (parts : List (Chunk UInt8)) : varval ++ expand (assigned value) (.name read::parts) =
          (varval ++ assigned value (.name read)) ++ expand (assigned value) parts := by
        rw [expand,expand,List.flatMap_cons,← List.append_assoc]
      rw [expandValue.eq_def,valueParts]
      dsimp only
      rw [named,expandPlain]
      split
      · exact ih varval (.name (read ++ [c]))
      · split
        · rw [behind]
          exact ih _ .quoted
        · split
          · rw [behind]
            exact ih _ (.name [])
          · rw [behind]
            exact char _ .plain

theorem expandValue_length (value : Str → Option Str) (text : Str) :
    (expandValue value [] .plain text).length = valueLength value text := by
  rw [expandValue_parts,List.nil_append,expand,List.length_flatMap,valueLength]

theorem echoChar_length (c : UInt8) (short : out.length ≤ outLimit) : (echoChar out c).length ≤ outLimit := by
  unfold echoChar
  split
  · rw [List.length_append,List.length_singleton]
    omega
  · exact short

theorem echoName_length (name : Str) (short : out.length ≤ outLimit) : (echoName value out name).length ≤ outLimit := by
  unfold echoName
  split
  · exact echoChar_length _ short
  · split
    · split
      · rw [List.length_append]
        omega
      · exact short
    · exact short

theorem echoFrom_length (out : Str) (name : Option Str) (text : Str) (short : out.length ≤ outLimit) :
    (echoFrom value out name text).length ≤ outLimit := by
  induction text generalizing out name with
  | nil =>
    cases name with
    | none => exact short
    | some read => exact echoName_length read short
  | cons c rest ih =>
    unfold echoFrom
    cases name with
    | none =>
      dsimp only
      split
      · exact ih _ _ short
      · exact ih _ _ (echoChar_length c short)
    | some read =>
      dsimp only
      split
      · exact ih _ _ short
      · split
        · exact ih _ _ (echoName_length read short)
        · exact ih _ _ (echoChar_length c (echoName_length read short))

end

section
variable {σ : Type} {k : Kernel σ} {rounds : Nat} {s t : Session σ}

theorem beforeLastSlash_length (path : Str) : (beforeLastSlash path).length ≤ path.length := by
  have rest := (List.dropWhile_suffix (l := path.reverse) (fun c => decide (c ≠ 0x2F))).length_le
  rw [List.length_reverse] at rest
  rw [beforeLastSlash,List.length_reverse,List.length_drop]
  omega

theorem up_inside (tight : Tight s) : ∀ x ∈ cdWrites k s (commandName::bytes ".."::args), x.Inside bufferSize := by
  have short := beforeLastSlash_length s.currentDirectory
  have low := tight.directory
  intro x member
  unfold cdWrites at member
  dsimp only at member
  rw [if_neg (by decide),if_pos rfl] at member
  split at member
  · cases member
  · split at member
    · cases member
    · split at member
      · rw [List.mem_singleton.mp member]
        decide
      · rw [List.mem_singleton.mp member,Write.Inside]
        dsimp only [bufferSize]
        omega

theorem path_iff (tight : Tight s) (args : List Str) :
    (∀ x ∈ cdWrites k s args, x.Inside bufferSize) ↔ pathFits k s args := by
  match args with
  | [] => simp [cdWrites,pathFits]
  | [_] => simp [cdWrites,pathFits]
  | commandName::target::rest =>
    by_cases here : target = bytes "."
    · simp [cdWrites,pathFits,here]
    · by_cases up : target = bytes ".."
      · rw [up]
        exact ⟨fun _ _ other => absurd rfl other,fun _ => up_inside tight⟩
      · have entering : pathFits k s (commandName::target::rest) ↔ (isDirectory k s target →
            (if s.currentDirectory = bytes "/" then 0 else s.currentDirectory.length) + 1 + target.length ≤ 255) :=
          ⟨fun fits => fits here up,fun fits _ _ => fits⟩
        rw [entering]
        unfold cdWrites
        dsimp only
        rw [if_neg here,if_neg up]
        by_cases found : isDirectory k s target = true
        · rw [if_pos found]
          have one : (bytes "/").length = 1 := rfl
          by_cases root : s.currentDirectory = bytes "/"
          · rw [if_pos root,if_pos root,List.forall_mem_cons,List.forall_mem_singleton,stringAt_inside,stringBehind_inside]
            simp only [found,forall_const,bufferSize,one]
            omega
          · rw [if_neg root,if_neg root,List.forall_mem_cons,List.forall_mem_singleton,stringBehind_inside,stringBehind_inside]
            simp only [found,forall_const,bufferSize,one,List.length_append]
            omega
        · simp [found]

theorem cd_tight (tight : Tight s) (fits : pathFits k s args) : Ends (cd k s args) (fun t _ => Tight t) := by
  have low := tight.directory
  unfold cd
  split
  · next target _ =>
    refine ends_if (fun _ => ends_done tight) (fun here => ends_if (fun _ => ?_) (fun up => ?_))
    · refine ends_if (fun _ => ends_done tight) (fun _ => ?_)
      split
      · exact ends_none
      · refine ends_done ⟨?_,?_⟩
        · dsimp only
          repeat' split
          all_goals exact tight.header
        · have short := beforeLastSlash_length s.currentDirectory
          dsimp only
          repeat' split
          · exact low
          · exact (List.length_take_le' 1 _).trans_lt low
          · exact short.trans_lt low
    · split
      · exact ends_none
      · next newCluster isDir system found =>
        have unmoved_ : Tight {s with system := system} := ⟨tight.header,low⟩
        refine ends_if (fun _ => ends_done unmoved_) (fun some_ => ends_if (fun _ => ends_done unmoved_) (fun directory => ?_))
        have there : isDirectory k s target = true := by
          rw [isDirectory,found]
          simp [some_,not_not.mp directory]
        have short := fits here up there
        refine ends_done ⟨tight.header,?_⟩
        dsimp only
        split
        · next root =>
          rw [if_pos root] at short
          simp only [bytes,List.length_append] at short ⊢
          exact Nat.lt_succ_of_le short
        · next inner =>
          rw [if_neg inner] at short
          rw [List.length_append,List.length_append]
          exact Nat.lt_succ_of_le short
  · exact ends_done tight

theorem assign_iff (v : Variables) (envVar : Str) : (∀ x ∈ assignWrites v envVar, x.Inside bufferSize) ↔
    (0x3D ∈ envVar → assignmentName envVar ≠ [] → valueLength (valueOf v) (rawValue envVar) ≤ 1023) := by
  unfold assignWrites
  by_cases malformed : 0x3D ∉ envVar ∨ assignmentName envVar = []
  · rw [if_pos malformed]
    refine ⟨fun _ equals named => ?_,fun _ x member => by cases member⟩
    rcases malformed with none_ | empty
    · exact absurd equals none_
    · exact absurd empty named
  · obtain ⟨equals,named⟩ := not_or.mp malformed
    have names : ∀ x ∈ (valueParts .plain (rawValue envVar)).flatMap nameWrite, x.Inside bufferSize := by
      intro x member
      obtain ⟨part,_,filled⟩ := List.mem_flatMap.mp member
      cases part with
      | char c => cases filled
      | name name =>
        rw [nameWrite] at filled
        split at filled
        · cases filled
        · rw [List.mem_singleton.mp filled,stringAt_inside]
          exact Nat.lt_succ_of_le (List.length_take_le 63 name)
    have value : (stringAt Buffer.varval (expandValue (valueOf v) [] .plain (rawValue envVar))).Inside bufferSize ↔
        valueLength (valueOf v) (rawValue envVar) ≤ 1023 := by
      rw [stringAt_inside,expandValue_length]
      exact Nat.lt_succ_iff
    rw [if_neg malformed,List.forall_mem_cons,value]
    exact ⟨fun inside _ _ => inside.1,fun fits => ⟨fits (not_not.mp equals) named,names⟩⟩

theorem find_inside (s : Session σ) (command : Str) (args : List Str) :
    ∀ x ∈ findWrites s command args, x.Inside bufferSize := by
  have short := searchTerm_length (command.drop 5)
  have term : ∀ buffer : Buffer, bufferSize buffer = 256 → ∀ text : Str, text.length ≤ 255 →
      (stringAt buffer text).Inside bufferSize := by
    intro buffer size text short
    rw [stringAt_inside,size]
    exact Nat.lt_succ_of_le short
  unfold findWrites
  split
  · exact fun x member => by cases member
  · refine List.forall_mem_cons.mpr ⟨term _ rfl _ short,?_⟩
    split
    · exact fun x member => by cases member
    · refine List.forall_mem_cons.mpr ⟨term _ rfl _ (List.length_take_le 255 _),?_⟩
      split
      · exact fun x member => by cases member
      · exact List.forall_mem_singleton.mpr (term _ rfl _ (Nat.zero_le _))

theorem pipeline_inside (command : Str) : ∀ x ∈ pipelineWrites command, x.Inside bufferSize := by
  unfold pipelineWrites
  refine List.forall_mem_cons.mpr ⟨by decide,?_⟩
  split
  · exact fun x member => by cases member
  · next text _ => exact List.forall_mem_singleton.mpr (stringAt_inside.mpr (Nat.lt_succ_of_le (searchTerm_length text)))

theorem echo_inside (s : Session σ) (command : Str) : ∀ x ∈ echoWrites s command, x.Inside bufferSize := by
  unfold echoWrites
  split
  · exact List.forall_mem_singleton.mpr (by decide)
  · next text _ =>
    exact List.forall_mem_singleton.mpr (stringAt_inside.mpr (Nat.lt_succ_of_le (echoFrom_length [] none text (Nat.zero_le _))))

theorem collected_iff (s : Session σ) (input : Str) : InBuffers k (.collected s input) ↔ Fits k (.collected s input) := by
  change (∀ x ∈ collectedWrites s input, x.Inside bufferSize) ↔ _
  unfold collectedWrites
  by_cases skipped : isComment input ∨ isEnd s input ∨ ¬ s.blockLines.length < maxBlockLines
  · rw [if_pos skipped]
    refine ⟨fun _ comment ends room => ?_,fun _ x member => by cases member⟩
    rcases skipped with isComment_ | isEnd_ | full
    · exact absurd isComment_ comment
    · exact absurd isEnd_ ends
    · exact absurd room full
  · obtain ⟨comment,rest⟩ := not_or.mp skipped
    obtain ⟨ends,room⟩ := not_or.mp rest
    rw [if_neg skipped,List.forall_mem_singleton,stringAt_inside,bufferSize,if_pos (not_not.mp room)]
    exact ⟨fun short _ _ _ => Nat.le_of_lt_succ short,fun fits => Nat.lt_succ_of_le (fits comment ends (not_not.mp room))⟩

theorem header_inside (tight : Tight s) : InBuffers k (.header s) :=
  List.forall_mem_singleton.mpr (stringAt_inside.mpr tight.header)

-- The copy of the header ends behind the keyword, the spaces in front of it are kept.
theorem header_length (args : commandArgs command = name::more) :
    (afterStrtok command).length = (command.takeWhile (· = 0x20)).length + name.length := by
  have spaces : command.takeWhile (· = 0x20) = List.replicate (command.takeWhile (· = 0x20)).length 0x20 :=
    List.eq_replicate_of_mem fun c member => by simpa using List.mem_takeWhile_imp member
  have parts : indented (command.takeWhile (· = 0x20)).length (trimLeft command) = command := by
    rw [indented,← spaces]
    exact List.takeWhile_append_dropWhile
  have visible : (trimLeft command).head? ≠ some 0x20 := by
    intro space
    have stop := List.head?_dropWhile_not (fun c : UInt8 => decide (c = 0x20)) command
    rw [← trimLeft,space] at stop
    exact absurd stop (by decide)
  have same : commandArgs (trimLeft command) = name::more := by
    rw [← args,← parts,commandArgs,commandArgs,indented_tokens,parts]
  have word := afterStrtok_word visible same
  have moved := indented_afterStrtok (command.takeWhile (· = 0x20)).length (trimLeft command)
  rw [parts,word] at moved
  rw [moved,indented,List.length_append,List.length_replicate]

theorem opens_keyword (opened : opensBlock (name::args)) :
    name = bytes "if" ∨ name = bytes "for" ∨ name = bytes "while" := by
  rcases opened.1 with same | same | same
  · exact .inl (Option.some.inj same)
  · exact .inr (.inl (Option.some.inj same))
  · exact .inr (.inr (Option.some.inj same))

theorem opener_opens (opener : Opener name kind) :
    opensBlock (name::args) ↔ ¬((name::args).length < 4 ∨ (kind = 2 ∧ (name::args).getD 2 [] ≠ bytes "to")) := by
  rcases opener with ⟨rfl,rfl⟩ | ⟨rfl,rfl⟩ | ⟨rfl,rfl⟩
  · simp [opensBlock,bytes]
  · simp [opensBlock]
  · simp [opensBlock,bytes]

theorem command_iff (tight : Tight s) (given : commandArgs command = name::args) :
    (∀ x ∈ commandWrites k s command name (name::args), x.Inside bufferSize) ↔
      (name = bytes "cd" → pathFits k s (name::args)) ∧
        (opensBlock (name::args) → (command.takeWhile (· = 0x20)).length + name.length ≤ 127) := by
  unfold commandWrites
  by_cases moves : name = bytes "cd"
  · have noBlock : ¬opensBlock (name::args) := fun opened => absurd (opens_keyword opened) (by rw [moves]; decide)
    rw [if_pos moves,path_iff tight]
    exact ⟨fun fits => ⟨fun _ => fits,fun opened => absurd opened noBlock⟩,fun fits => fits.1 moves⟩
  · by_cases echoes : name = bytes "echo"
    · have noBlock : ¬opensBlock (name::args) := fun opened => absurd (opens_keyword opened) (by rw [echoes]; decide)
      rw [if_neg moves,if_pos echoes]
      exact ⟨fun _ => ⟨fun same => absurd same moves,fun opened => absurd opened noBlock⟩,fun _ => echo_inside s command⟩
    · rw [if_neg moves,if_neg echoes]
      by_cases opened : opensBlock (name::args)
      · rw [if_pos opened,List.forall_mem_singleton,stringAt_inside,header_length given]
        exact ⟨fun short => ⟨fun same => absurd same moves,fun _ => Nat.le_of_lt_succ short⟩,fun fits => Nat.lt_succ_of_le (fits.2 opened)⟩
      · rw [if_neg opened]
        refine ⟨fun _ => ⟨fun same => absurd same moves,fun other => absurd other opened⟩,fun _ => ?_⟩
        split
        · split
          · exact fun x member => by cases member
          · exact List.forall_mem_singleton.mpr (by decide)
        · split
          · exact find_inside s command (name::args)
          · exact fun x member => by cases member

theorem single_iff (tight : Tight s) (command : Str) : InBuffers k (.single s command) ↔ Fits k (.single s command) := by
  change (∀ x ∈ singleWrites k s command, x.Inside bufferSize) ↔ singleFits k s command
  unfold singleWrites singleFits
  split
  · rw [List.forall_mem_singleton,Write.Inside,Nat.zero_add]
    rfl
  · split
    · exact assign_iff s.vars (command.drop 1)
    · cases given : commandArgs command with
      | nil => simp
      | cons name args => exact command_iff tight given

theorem open_tight (tight : Tight s) (given : commandArgs command = name::args) (usage : List Out)
    (opener : Opener name kind)
    (fits : opensBlock (name::args) → (command.takeWhile (· = 0x20)).length + name.length ≤ 127) :
    Ends (openBlock kind usage s command (name::args)) (fun t _ => Tight t) := by
  refine ends_if (fun _ => ends_done tight) (fun opened => ends_done ⟨?_,tight.directory⟩)
  have short := fits ((opener_opens opener).mpr opened)
  rw [← header_length given] at short
  exact Nat.lt_succ_of_le short

theorem Tight.inner (tight : Tight s) (inner : Inner s t) : Tight t := by
  rw [show t = _ from inner]
  exact ⟨tight.header,tight.directory⟩

theorem runCommand_tight (tight : Tight s) (given : commandArgs command = name::args)
    (moves : name = bytes "cd" → pathFits k s (name::args))
    (fits : opensBlock (name::args) → (command.takeWhile (· = 0x20)).length + name.length ≤ 127) :
    Ends (runCommand k rounds s command name (name::args)) (fun t _ => Tight t) :=
  runCommand_ends command name (name::args) (fun here => cd_tight tight (moves here))
    (fun _ usage opener => open_tight tight given usage opener fits) (fun _ _ inner => tight.inner inner)

end

end SantOS.Shell
