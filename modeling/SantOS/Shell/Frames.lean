import SantOS.Shell.Results

namespace SantOS.Shell
open CStrings

section
variable {σ : Type} {k : Kernel σ} {rounds fuel : Nat} {s t : Session σ}

-- What a command leaves of the block being collected: it never ends it, and keeps its
-- lines or, opening another one, drops them.
def BlockKept (s t : Session σ) : Prop :=
  (s.collectingBlock ≠ 0 → t.collectingBlock ≠ 0) ∧ (t.blockLines = s.blockLines ∨ t.blockLines = [])

theorem block_kept (collecting : t.collectingBlock = s.collectingBlock) (lines : t.blockLines = s.blockLines) :
    BlockKept s t :=
  ⟨fun some_ => by rwa [collecting],.inl lines⟩

theorem BlockKept.trans {u : Session σ} (one : BlockKept s t) (two : BlockKept t u) : BlockKept s u := by
  refine ⟨fun some_ => two.1 (one.1 some_),?_⟩
  rcases two.2 with same | none_
  · rw [same]
    exact one.2
  · exact .inr none_

theorem block_kept_composes : Composes (fun (s t : Session σ) _ => BlockKept s t) :=
  ⟨fun _ _ _ => block_kept rfl rfl,BlockKept.trans⟩

def Unmoved (s t : Session σ) : Prop := BlockKept s t ∧ t.piping = s.piping ∧ t.pipeRemaining = s.pipeRemaining

theorem unmoved (collecting : t.collectingBlock = s.collectingBlock) (lines : t.blockLines = s.blockLines)
    (piping : t.piping = s.piping)
    (remaining : t.pipeRemaining = s.pipeRemaining) : Unmoved s t :=
  ⟨block_kept collecting lines,piping,remaining⟩

theorem Unmoved.trans {u : Session σ} (one : Unmoved s t) (two : Unmoved t u) : Unmoved s u :=
  ⟨one.1.trans two.1,two.2.1.trans one.2.1,two.2.2.trans one.2.2⟩

theorem unmoved_composes : Composes (fun (s t : Session σ) _ => Unmoved s t) := ⟨fun _ _ _ => unmoved rfl rfl rfl rfl,Unmoved.trans⟩

def Inner (s t : Session σ) : Prop :=
  t = {s with vars := t.vars, streamBuffer := t.streamBuffer, streamLength := t.streamLength, findTerm := t.findTerm, system := t.system}

theorem Inner.unmoved (inner : Inner s t) : Unmoved s t := by
  rw [show t = _ from inner]
  exact Shell.unmoved rfl rfl rfl rfl

def Quiet (s t : Session σ) : Prop :=
  t = {s with vars := t.vars, streamBuffer := t.streamBuffer, streamLength := t.streamLength, system := t.system}

theorem Quiet.trans {u : Session σ} (one : Quiet s t) (two : Quiet t u) : Quiet s u := by
  unfold Quiet at one two
  rw [one] at two
  exact two

theorem Quiet.inner (quiet : Quiet s t) : Inner s t := by
  unfold Quiet at quiet
  rw [quiet]
  rfl

theorem Quiet.term (quiet : Quiet s t) : t.findTerm = s.findTerm := by rw [show t = _ from quiet]

theorem cat_quiet (args : List Str) : Ends (cat k s args) (fun t _ => Quiet s t) := by
  unfold cat
  dsimp only
  repeat' split
  all_goals first
    | exact ends_none
    | exact ends_done rfl

theorem cmdRead_inner : Ends (cmdRead k rounds s) (fun t _ => Inner s t) := by
  unfold cmdRead
  repeat' split
  all_goals first
    | exact ends_none
    | exact ends_some rfl

theorem find_inner (command : Str) (args : List Str) : Ends (findCommand s command args) (fun t _ => Inner s t) := by
  have searched (term : Str) : Inner s (cmdFind s term).1 := by
    unfold cmdFind
    dsimp only
    repeat' split
    all_goals rfl
  exact ends_ite (ends_done rfl) (ends_done (searched _))

theorem startProgram_quiet (filename : Str) (argv : List Str) :
    Ends (startProgram k s filename argv) (fun t _ => Quiet s t) := by
  unfold startProgram execProgram
  cases k.exec s.system (filename.take 255) argv with
  | none => exact ends_none
  | some started =>
    obtain ⟨loaded,system⟩ := started
    cases loaded with
    | true => exact ends_some rfl
    | false => exact ends_some rfl

theorem existsOnDisk_quiet {name : Str} (probed : existsOnDisk k s name = some (found,t)) : Quiet s t := by
  unfold existsOnDisk at probed
  split at probed
  · cases probed
  · cases probed
    rfl

theorem programOnDisk_quiet {commandName : Str} (probed : programOnDisk k s commandName = some (found,t)) : Quiet s t := by
  unfold programOnDisk at probed
  dsimp only at probed
  split at probed
  · cases probed
  · rename_i first
    cases probed
    exact existsOnDisk_quiet first
  · rename_i first
    split at probed
    · cases probed
    · rename_i second
      cases probed
      exact (existsOnDisk_quiet first).trans (existsOnDisk_quiet second)
    · rename_i second
      cases probed
      exact (existsOnDisk_quiet first).trans (existsOnDisk_quiet second)

theorem otherCommand_quiet (commandName : Str) (args : List Str) :
    Ends (otherCommand k s commandName args) (fun t _ => Quiet s t) := by
  unfold otherCommand
  split
  · exact ends_none
  · rename_i probed
    exact fun _ _ _ same => (programOnDisk_quiet probed).trans (startProgram_quiet _ _ _ _ _ same)
  · rename_i probed
    exact ends_done (programOnDisk_quiet probed)

def Opener (commandName : Str) (kind : Nat) : Prop :=
  (commandName = bytes "if" ∧ kind = 1) ∨ (commandName = bytes "for" ∧ kind = 2) ∨ (commandName = bytes "while" ∧ kind = 3)

-- A command moves, opens a block, deals with the search term, or is one of the quiet ones.
theorem runCommand_cases {P : Session σ → List Out → Prop} (command commandName : Str) (args : List Str)
    (moved : commandName = bytes "cd" → Ends (cd k s args) P)
    (opened : ∀ kind usage, Opener commandName kind → Ends (openBlock kind usage s command args) P)
    (read : commandName = bytes "read" → Ends (cmdRead k rounds s) P)
    (searched : commandName = bytes "find" → Ends (findCommand s command args) P)
    (quiet : ∀ t outs, Quiet s t → P t outs) : Ends (runCommand k rounds s command commandName args) P := by
  have ofQuiet {r : Result σ} (ends : Ends r (fun t _ => Quiet s t)) : Ends r P :=
    fun _ t outs same => quiet t outs (ends _ _ _ same)
  have same {outs : List Out} : Ends (done s outs) P := ofQuiet (ends_done rfl)
  have changed (r : Variables × List Out) : Ends (edited s r) P := ofQuiet (ends_done rfl)
  unfold runCommand
  refine ends_ite same (ends_ite same (ends_ite (ofQuiet (ends_some rfl)) (ends_if moved fun _ => ends_ite same ?_)))
  refine ends_ite ?listed (ends_ite (ofQuiet ?echoed) (ends_ite (changed _) (ends_ite same ?_)))
  case listed =>
    cases k.listDirCluster s.system s.currentCluster with
    | none => exact ends_none
    | some system => exact ofQuiet (ends_done rfl)
  case echoed => exact ends_ite (ends_done rfl) (ends_done rfl)
  refine ends_ite (changed _) (ends_ite (changed _) (ends_if (fun if_ => opened 1 _ (.inl ⟨if_,rfl⟩)) fun _ => ?_))
  refine ends_if (fun for_ => opened 2 _ (.inr (.inl ⟨for_,rfl⟩))) fun _ => ?_
  refine ends_if (fun while_ => opened 3 _ (.inr (.inr ⟨while_,rfl⟩))) fun _ => ?_
  refine ends_ite (ofQuiet ?touched) (ends_ite (ofQuiet (cat_quiet args)) (ends_if read fun _ => ?_))
  case touched =>
    unfold touch
    repeat' split
    all_goals exact ends_done rfl
  exact ends_if searched fun _ => ofQuiet (otherCommand_quiet commandName _)

theorem runCommand_ends {P : Session σ → List Out → Prop} (command commandName : Str) (args : List Str)
    (moved : commandName = bytes "cd" → Ends (cd k s args) P)
    (opened : ∀ kind usage, Opener commandName kind → Ends (openBlock kind usage s command args) P)
    (inner : ∀ t outs, Inner s t → P t outs) : Ends (runCommand k rounds s command commandName args) P := by
  have ofInner {r : Result σ} (ends : Ends r (fun t _ => Inner s t)) : Ends r P :=
    fun _ t outs same => inner t outs (ends _ _ _ same)
  exact runCommand_cases command commandName args moved opened (fun _ => ofInner cmdRead_inner)
    (fun _ => ofInner (find_inner command args)) (fun t outs quiet => inner t outs quiet.inner)

def Moved (s t : Session σ) : Prop :=
  t = {s with currentDirectory := t.currentDirectory, currentCluster := t.currentCluster, system := t.system}

theorem Moved.unmoved (moved : Moved s t) : Unmoved s t := by
  rw [show t = _ from moved]
  exact Shell.unmoved rfl rfl rfl rfl

theorem Moved.term (moved : Moved s t) : t.findTerm = s.findTerm := by rw [show t = _ from moved]

theorem cd_moves (args : List Str) : Ends (cd k s args) (fun t _ => Moved s t) := by
  unfold cd
  dsimp only
  repeat' split
  all_goals first
    | exact ends_none
    | exact ends_done rfl

theorem openBlock_keeps (kind : Nat) (usage : List Out) (command : Str) (args : List Str) (someKind : kind ≠ 0) :
    Ends (openBlock kind usage s command args) (fun t _ => Unmoved s t) := by
  unfold openBlock
  split
  · exact ends_done (unmoved rfl rfl rfl rfl)
  · exact ends_done ⟨⟨fun _ => someKind,.inr rfl⟩,rfl,rfl⟩

theorem runCommand_keeps (command commandName : Str) (args : List Str) :
    Ends (runCommand k rounds s command commandName args) (fun t _ => Unmoved s t) := by
  refine runCommand_ends command commandName args (fun _ _ _ _ ran => (cd_moves args _ _ _ ran).unmoved)
    (fun kind usage opener => ?_) (fun _ _ inner => inner.unmoved)
  refine openBlock_keeps kind usage command args ?_
  rcases opener with ⟨_,rfl⟩ | ⟨_,rfl⟩ | ⟨_,rfl⟩ <;> decide

-- What holds behind every command holds behind a program and its script, too.
section
variable {R : Session σ → Session σ → Prop} {run : Session σ → Str → Result σ} (composes : Composes (fun s t (_ : List Out) => R s t))
  (ofUnmoved : ∀ s t, Unmoved s t → R s t) (each : ∀ s line, Ends (run s line) (fun t _ => R s t))
include composes ofUnmoved each

theorem runScript_keeps (s : Session σ) (filename : Str) : Ends (runScript k run s filename) (fun t _ => R s t) := by
  have moved (system : σ) : R s {s with system := system} := ofUnmoved _ _ (unmoved rfl rfl rfl rfl)
  unfold runScript
  cases k.readFile s.system filename (fun _ => 0) 4095 with
  | none => exact ends_none
  | some read =>
    obtain ⟨scriptLen,scriptBuf,system⟩ := read
    refine ends_ite (ends_some (moved system)) ?_
    intro result t outs ran
    exact @Composes.trans _ _ composes _ _ _ [] [] (moved system) (runLines_keep composes each _ _ _ _ _ ran)

theorem runProgram_keeps (command : Str) : Ends (runProgram k run s command) (fun t _ => R s t) := by
  have moved (system : σ) : R s {s with system := system} := ofUnmoved _ _ (unmoved rfl rfl rfl rfl)
  unfold runProgram
  cases parseArgs (command.drop 2) with
  | nil => exact ends_some (ofUnmoved _ _ (unmoved rfl rfl rfl rfl))
  | cons filename args =>
    dsimp only
    cases k.readFile s.system filename (fun _ => 0) 7 with
    | none => exact ends_none
    | some read =>
      obtain ⟨count,header,system⟩ := read
      refine ends_ite (ends_some (moved system)) (ends_ite ?script ?program)
      case script =>
        intro result t outs ran
        exact @Composes.trans _ _ composes _ _ _ [] [] (moved system) (runScript_keeps composes ofUnmoved each _ _ _ _ _ ran)
      case program =>
        intro result t outs ran
        exact @Composes.trans _ _ composes _ _ _ [] [] (moved system) (ofUnmoved _ _ (startProgram_quiet _ _ _ _ _ ran).inner.unmoved)

theorem processSingleCommand_keeps (s : Session σ) (command : Str) :
    Ends (processSingleCommand k run rounds s command) (fun t _ => R s t) := by
  refine ends_printing ?_
  split
  · exact runProgram_keeps composes ofUnmoved each command
  · split
    · split
      · exact ends_none
      · exact ends_done (ofUnmoved _ _ (unmoved rfl rfl rfl rfl))
    · split
      · exact ends_done (ofUnmoved _ _ (unmoved rfl rfl rfl rfl))
      · exact fun _ _ _ same => ofUnmoved _ _ (runCommand_keeps command _ _ _ _ _ same)

end

theorem runSegments_keep {single : Session σ → Str → Result σ}
    (each : ∀ s line, Ends (single s line) (fun t _ => BlockKept s t))
    (findSegIndex : Option Nat) (segCount : Nat) (segs : List Str) (i : Nat) (result : Int) (s : Session σ) :
    Ends (runSegments single findSegIndex segCount i result s segs) (fun t _ => BlockKept s t) := by
  induction segs generalizing i result s with
  | nil => exact ends_some (block_kept rfl rfl)
  | cons seg segs ih =>
    unfold runSegments
    dsimp only
    split
    · exact ih _ _ _
    · split
      · exact fun _ _ _ same => (block_kept rfl rfl).trans (ih _ _ {s with pipeRemaining := segCount - i - 1} _ _ _ same)
      · split
        · exact ends_none
        · rename_i ran
          have first := each {s with pipeRemaining := segCount - i - 1} _ _ _ _ ran
          split
          · exact ends_some first
          · exact ends_printing fun _ _ _ same => BlockKept.trans first (ih _ _ _ _ _ _ same)

theorem processCommand_keeps (s : Session σ) (line : Str) :
    Ends (processCommand k rounds fuel s line) (fun t _ => BlockKept s t) := by
  induction fuel generalizing s line with
  | zero => exact ends_none
  | succ fuel ih =>
    refine ends_printing ?_
    split
    · unfold runPipeline
      dsimp only
      split
      · exact ends_none
      · rename_i ran
        have kept := runSegments_keep (processSingleCommand_keeps block_kept_composes (fun _ _ kept => kept.1) ih) _ _ _ _ _ _ _ _ _ ran
        exact ends_some (BlockKept.trans kept (block_kept rfl rfl))
    · exact processSingleCommand_keeps block_kept_composes (fun _ _ kept => kept.1) ih s line

end

end SantOS.Shell
