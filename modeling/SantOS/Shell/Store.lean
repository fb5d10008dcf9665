import SantOS.Library.FiniteMaps
import SantOS.Shell.Tokens

namespace SantOS.Shell
open CStrings FiniteMaps ParallelArrays

-- The store is a finite map; what each command means on it.
abbrev Store := Str → Option Str

noncomputable def assignment (m : Store) (envVar : Str) : Change Str Str :=
  if 0x3D ∉ envVar ∨ assignmentName envVar = [] then .nothing
  else
    let value := expandValue m [] .plain ((envVar.dropWhile (· ≠ 0x3D)).drop 1)
    match m (assignmentName envVar) with
    | none => if size m ≥ 32 then .nothing else .put (assignmentName envVar) value
    | some old => .put (assignmentName envVar) (if hasAppend envVar then old ++ value else value)

def unsetting (args : List Str) : Change Str Str :=
  match args with
  | _::arg::_ => if arg = bytes "allvars" then .eraseAll else .erase (unsetName arg)
  | _ => .nothing

def arithmetic (op : Int → Int → Int) (m : Store) (args : List Str) : Change Str Str :=
  match args with
  | _::varToken::valToken::_ =>
    if varToken.head? ≠ some 0x24 then .nothing
    else match m (varToken.drop 1) with
      | none => .nothing
      | some old =>
        if isNumeric old ∧ isNumeric (resolveValue m valToken) then
          .put (varToken.drop 1) (intToStr (int32 (op (strToInt old) (strToInt (resolveValue m valToken)))))
        else .nothing
  | _ => .nothing

noncomputable def meant (m : Store) (command : Str) : Change Str Str :=
  if command.head? = some 0x24 then assignment m (command.drop 1)
  else match commandArgs command with
    | commandName::args =>
      if commandName = bytes "unset" then unsetting (commandName::args)
      else if commandName = bytes "add" then arithmetic (· + ·) m (commandName::args)
      else if commandName = bytes "sub" then arithmetic (· - ·) m (commandName::args)
      else .nothing
    | [] => .nothing

def VariableCommand (command : Str) : Prop :=
  (command.head? = some 0x24 ∧ command.drop 1 ≠ []) ∨
    ∃ commandName args, commandArgs command = commandName::args ∧
      (commandName = bytes "unset" ∨ commandName = bytes "add" ∨ commandName = bytes "sub")

def Names (command name : Str) : Prop :=
  if command.head? = some 0x24 then name = assignmentName (command.drop 1)
  else match commandArgs command with
    | commandName::arg::_ =>
      if commandName = bytes "unset" then arg = bytes "allvars" ∨ name = unsetName arg else name = arg.drop 1
    | _ => False

theorem assignment_touches (touched : (assignment m envVar).touches name) : name = assignmentName envVar := by
  unfold assignment at touched
  dsimp only at touched
  split at touched
  · cases touched
  · split at touched
    · split at touched
      · cases touched
      · exact touched
    · exact touched

theorem arithmetic_touches (touched : (arithmetic op m (commandName::args)).touches name) :
    ∃ arg rest, args = arg::rest ∧ name = arg.drop 1 := by
  unfold arithmetic at touched
  split at touched
  · rename_i same
    cases same
    refine ⟨_,_,rfl,?_⟩
    split at touched
    · cases touched
    · split at touched
      · cases touched
      · split at touched
        · exact touched
        · cases touched
  · cases touched

theorem meant_touches (touched : (meant m command).touches name) : Names command name := by
  unfold meant at touched
  unfold Names
  split at touched
  · rename_i dollar
    rw [if_pos dollar]
    exact assignment_touches touched
  · rename_i noDollar
    rw [if_neg noDollar]
    split at touched
    · rename_i commandName args same
      rw [same]
      split at touched
      · rename_i unset_
        unfold unsetting at touched
        split at touched
        · rename_i same
          cases same
          rw [if_pos unset_]
          split at touched
          · exact .inl ‹_›
          · exact .inr touched
        · cases touched
      · rename_i other
        split at touched
        · obtain ⟨arg,rest,rfl,here⟩ := arithmetic_touches touched
          exact (if_neg other).mpr here
        · split at touched
          · obtain ⟨arg,rest,rfl,here⟩ := arithmetic_touches touched
            exact (if_neg other).mpr here
          · cases touched
    · cases touched

structure Variables.Sound (v : Variables) : Prop where
  distinct : Distinct v.names v.variableCount
  bound : v.variableCount ≤ 32

section
variable {v w : Variables}

theorem Variables.Sound.size (sound : v.Sound) : FiniteMaps.size (valueOf v) = v.variableCount := size_lookup sound.distinct

theorem valueOf_none : valueOf v name = none ↔ findVariable v name = none := by simp [valueOf]

theorem Variables.Sound.push (sound : v.Sound) (room : v.variableCount < 32) (missing : findVariable v name = none)
    (same : w = ⟨Function.update v.names v.variableCount name,Function.update v.values v.variableCount value,v.variableCount + 1⟩) :
    w.Sound ∧ valueOf w = Function.update (valueOf v) name (some value) := by
  subst same
  refine ⟨⟨distinct_push sound.distinct missing,room⟩,?_⟩
  funext other
  rw [Function.update_apply]
  exact lookup_push missing

theorem Variables.Sound.replace (sound : v.Sound) (found : findVariable v name = some i)
    (same : w = {v with values := Function.update v.values i value}) :
    w.Sound ∧ valueOf w = Function.update (valueOf v) name (some value) := by
  subst same
  refine ⟨⟨sound.distinct,sound.bound⟩,?_⟩
  funext other
  rw [Function.update_apply]
  exact lookup_set found

theorem Variables.Sound.remove (sound : v.Sound) (found : findVariable v name = some i)
    (same : w = ⟨closeGap v.names i v.variableCount,closeGap v.values i v.variableCount,v.variableCount - 1⟩) :
    w.Sound ∧ valueOf w = Function.update (valueOf v) name none := by
  subst same
  obtain ⟨_,inside,_⟩ := find_some found
  refine ⟨⟨distinct_remove sound.distinct (by omega),(Nat.sub_le _ _).trans sound.bound⟩,?_⟩
  funext other
  rw [Function.update_apply]
  exact lookup_remove sound.distinct found

end

-- What one command keeps: the invariant, and the map up to what the command means. An
-- error is printed only where the map stays.
structure Refines (v : Variables) (change : Change Str Str) (w : Variables) (outs : List Out) : Prop where
  sound : w.Sound
  map : valueOf w = change.apply (valueOf v)
  error : (∃ o ∈ outs, isError o = true) → valueOf w = valueOf v

section
variable {v : Variables}

theorem refines_nothing (sound : v.Sound) (outs : List Out) : Refines v .nothing v outs := ⟨sound,rfl,fun _ => rfl⟩

theorem assign_refines (sound : v.Sound) (nonempty : envVar ≠ []) :
    ∃ w outs, assign v envVar = some (w,outs) ∧ Refines v (assignment (valueOf v) envVar) w outs := by
  unfold assign assignment
  dsimp only
  rw [if_neg nonempty]
  by_cases equals : 0x3D ∉ envVar
  · rw [if_pos equals,if_pos (.inl equals)]
    exact ⟨v,_,rfl,refines_nothing sound _⟩
  · by_cases unnamed : assignmentName envVar = []
    · rw [if_neg equals,if_pos unnamed,if_pos (.inr unnamed)]
      exact ⟨v,_,rfl,refines_nothing sound _⟩
    · have neither : ¬ (0x3D ∉ envVar ∨ assignmentName envVar = []) := by
        rintro (none_ | empty)
        · exact equals none_
        · exact unnamed empty
      rw [if_neg equals,if_neg unnamed,if_neg neither]
      cases found : findVariable v (assignmentName envVar) with
      | none =>
        rw [valueOf_none.mpr found]
        dsimp only
        rw [sound.size]
        by_cases full : v.variableCount ≥ 32
        · rw [if_pos full,if_pos full]
          exact ⟨v,_,rfl,refines_nothing sound _⟩
        · rw [if_neg full,if_neg full]
          obtain ⟨sound',map⟩ := sound.push (Nat.lt_of_not_le full) found rfl
          exact ⟨_,[],rfl,sound',map,by simp⟩
      | some i =>
        have old : valueOf v (assignmentName envVar) = some (v.values i) := by rw [valueOf,found]; rfl
        rw [old]
        obtain ⟨sound',map⟩ := sound.replace found rfl
        exact ⟨_,[],rfl,sound',map,by simp⟩

theorem unset_refines (sound : v.Sound) (args : List Str) : Refines v (unsetting args)
    (unset v args).1 (unset v args).2 := by
  match args with
  | [] => exact refines_nothing sound _
  | [_] => exact refines_nothing sound _
  | commandName::arg::rest =>
    by_cases all : arg = bytes "allvars"
    · have done_ : unset v (commandName::arg::rest) = ({v with variableCount := 0},[.text (bytes "All variables cleared\n")]) :=
        if_pos all
      rw [done_,unsetting,if_pos all]
      exact ⟨⟨fun i j inside => absurd inside (Nat.not_lt_zero i),Nat.zero_le _⟩,rfl,by simp [isError]⟩
    · rw [unset,if_neg all,unsetting,if_neg all]
      dsimp only
      cases found : findVariable v (unsetName arg) with
      | none =>
        have absent : valueOf v (unsetName arg) = none := valueOf_none.mpr found
        refine ⟨sound,?_,fun _ => rfl⟩
        rw [Change.apply,← absent]
        exact (Function.update_eq_self ..).symm
      | some i =>
        obtain ⟨sound',map⟩ := sound.remove found rfl
        exact ⟨sound',map,by simp [isError]⟩

theorem changeBy_refines (sound : v.Sound) (usage : Str) (op : Int → Int → Int) (args : List Str) :
    Refines v (arithmetic op (valueOf v) args) (changeBy usage op v args).1 (changeBy usage op v args).2 := by
  match args with
  | [] => exact refines_nothing sound _
  | [_] => exact refines_nothing sound _
  | [_,_] => exact refines_nothing sound _
  | commandName::varToken::valToken::rest =>
    unfold changeBy arithmetic
    dsimp only
    by_cases noDollar : varToken.head? ≠ some 0x24
    · rw [if_pos noDollar,if_pos noDollar]
      exact refines_nothing sound _
    · rw [if_neg noDollar,if_neg noDollar]
      cases found : findVariable v (varToken.drop 1) with
      | none =>
        rw [valueOf_none.mpr found]
        exact refines_nothing sound _
      | some i =>
        have old : valueOf v (varToken.drop 1) = some (v.values i) := by rw [valueOf,found]; rfl
        rw [old]
        dsimp only
        by_cases both : isNumeric (v.values i) = true ∧ isNumeric (resolveValue (valueOf v) valToken) = true
        · rw [if_neg (not_not.mpr both.1),if_neg (not_not.mpr both.2),if_pos both]
          obtain ⟨sound',map⟩ := sound.replace found rfl
          exact ⟨sound',map,by simp⟩
        · rw [if_neg both]
          split
          · exact refines_nothing sound _
          · split
            · exact refines_nothing sound _
            · exact absurd ⟨not_not.mp ‹_›,not_not.mp ‹_›⟩ both

end

section
variable {σ : Type} {k : Kernel σ} {run : Session σ → Str → Result σ} {rounds : Nat} {s t : Session σ}

variable (k rounds) in
theorem run_edit (sound : s.vars.Sound) (kind : commandName = bytes "unset" ∨ commandName = bytes "add" ∨ commandName = bytes "sub")
    (command : Str) (args : List Str) :
    ∃ r, runCommand k rounds s command commandName args = edited s r ∧
      Refines s.vars (if commandName = bytes "unset" then unsetting args
        else if commandName = bytes "add" then arithmetic (· + ·) (valueOf s.vars) args
        else if commandName = bytes "sub" then arithmetic (· - ·) (valueOf s.vars) args
        else .nothing) r.1 r.2 := by
  rcases kind with rfl | rfl | rfl
  · exact ⟨unset s.vars args,rfl,unset_refines sound args⟩
  · exact ⟨add s.vars args,rfl,changeBy_refines sound _ _ args⟩
  · exact ⟨sub s.vars args,rfl,changeBy_refines sound _ _ args⟩

variable (k run rounds) in
theorem command_refines (sound : s.vars.Sound) (isCommand : VariableCommand command) :
    ∃ w outs, processSingleCommand k run rounds s command = done {s with vars := w} (.ran command::outs) ∧
      Refines s.vars (meant (valueOf s.vars) command) w (.ran command::outs) := by
  have recorded {w : Variables} {outs : List Out} {change : Change Str Str} (refines : Refines s.vars change w outs) :
      Refines s.vars change w (.ran command::outs) :=
    ⟨refines.sound,refines.map,fun ⟨o,member,error⟩ => refines.error ⟨o,by
      rcases List.mem_cons.mp member with rfl | later
      · cases error
      · exact later,error⟩⟩
  rcases isCommand with ⟨dollar,nonempty⟩ | ⟨commandName,args,same,kind⟩
  · obtain ⟨w,outs,assigned,refines⟩ := assign_refines sound nonempty
    have noDot : command.take 2 ≠ bytes "./" := by
      intro dot
      have first := congrArg List.head? dot
      rw [List.head?_take,if_neg (by decide),dollar] at first
      cases first
    refine ⟨w,outs,?_,?_⟩
    · rw [processSingleCommand,if_neg noDot,if_pos dollar,assigned]
      rfl
    · rw [meant,if_pos dollar]
      exact recorded refines
  · obtain ⟨_,noDot,noDollar⟩ := command_no_prefix same (by rcases kind with rfl | rfl | rfl <;> decide)
      (by rcases kind with rfl | rfl | rfl <;> decide)
    obtain ⟨r,ran,refines⟩ := run_edit k rounds sound kind command (commandName::args)
    refine ⟨r.1,r.2,?_,?_⟩
    · rw [processSingleCommand,if_neg noDot,if_neg noDollar,same]
      dsimp only
      rw [ran]
      rfl
    · rw [meant,if_neg noDollar,same]
      exact recorded refines

-- What the readers see under a name: an operand, a condition, and echo where the name is
-- one that echo reads and its buffer takes the value.
structure Seen (value : Store) (name x : Str) : Prop where
  operand : resolveValue value (0x24::name) = x
  condition : ∀ op val2, evaluateCondition value (0x24::name) op val2 = compareValues x op (resolveValue value val2)
  echoed : name ≠ [] → name.all isNameChar → x.length < outLimit → echoFrom value [] none (0x24::name) = x

theorem echoFrom_name (value : Store) (out before name : Str) (chars : name.all isNameChar = true) :
    echoFrom value out (some before) name = echoName value out (before ++ name) := by
  induction name generalizing before with
  | nil => rw [echoFrom,List.append_nil]
  | cons c name ih =>
    rw [List.all_cons,Bool.and_eq_true] at chars
    rw [echoFrom,if_pos chars.1,ih (before ++ [c]) chars.2,List.append_assoc]
    rfl

theorem seen {value : Store} (there : value name = some x) : Seen value name x := by
  have operand : resolveValue value (0x24::name) = x := by
    rw [resolveValue,if_pos rfl,there]
    rfl
  refine ⟨operand,?_,?_⟩
  · intro op val2
    rw [evaluateCondition,operand]
  · intro nonempty chars fits
    rw [echoFrom,if_pos rfl,echoFrom_name value [] [] name chars,List.nil_append,echoName,if_neg nonempty,there]
    exact if_pos (by rwa [List.length_nil,Nat.zero_add])

variable (k run rounds) in
theorem commands_refine (sound : s.vars.Sound) (all : ∀ command ∈ commands, VariableCommand command) :
    ∃ w outs, runLines (processSingleCommand k run rounds) s commands = done {s with vars := w} outs ∧ w.Sound ∧
      valueOf w = changed meant (valueOf s.vars) commands := by
  induction commands generalizing s with
  | nil => exact ⟨s.vars,[],rfl,sound,rfl⟩
  | cons command commands ih =>
    obtain ⟨w,outs,ran,refines⟩ := command_refines k run rounds sound (all command List.mem_cons_self)
    obtain ⟨u,more,later,sound',map⟩ := @ih {s with vars := w} refines.sound (fun other member => all other (List.mem_cons_of_mem _ member))
    refine ⟨u,.ran command::outs ++ more,?_,sound',?_⟩
    · rw [runLines,ran]
      exact (congrArg (printing (.ran command::outs)) later)
    · rw [map]
      exact congrArg (fun m => changed meant m commands) refines.map

-- Any run of variable commands: the store stays a finite map that changes as the commands
-- mean, each of them touches the names it gives only, and none after an error; readers see
-- what was put last.
theorem variables_are_a_finite_map (k : Kernel σ) (run : Session σ → Str → Result σ) (rounds : Nat) (s : Session σ)
    (sound : s.vars.Sound) (commands : List Str) (all : ∀ command ∈ commands, VariableCommand command) :
    (∃ w outs, runLines (processSingleCommand k run rounds) s commands = done {s with vars := w} outs ∧
      w.Sound ∧ FiniteMaps.size (valueOf w) = w.variableCount ∧
      valueOf w = changed meant (valueOf s.vars) commands ∧
      ∀ before command after name x, commands = before ++ command::after →
        meant (changed meant (valueOf s.vars) before) command = .put name x →
        (∀ between later rest, after = between ++ later::rest →
          ¬ (meant (changed meant (valueOf s.vars) (before ++ command::between)) later).touches name) →
        Seen (valueOf w) name x) ∧
    ∀ before command after, commands = before ++ command::after →
      ∃ v outs w outs', runLines (processSingleCommand k run rounds) s before = done {s with vars := v} outs ∧
        processSingleCommand k run rounds {s with vars := v} command = done {s with vars := w} outs' ∧
        (∀ name, ¬ Names command name → valueOf w name = valueOf v name) ∧
        ((∃ o ∈ outs', isError o = true) → valueOf w = valueOf v) := by
  constructor
  · obtain ⟨w,outs,ran,sound',map⟩ := commands_refine k run rounds sound all
    refine ⟨w,outs,ran,sound',sound'.size,map,?_⟩
    intro before command after name x same puts untouched
    apply seen
    rw [map,same]
    exact changed_last puts untouched
  · intro before command after same
    subst same
    obtain ⟨v,outs,ran,sound',_⟩ := commands_refine k run rounds sound
      (fun other member => all other (List.mem_append_left _ member))
    obtain ⟨w,outs',ran',refines⟩ := @command_refines σ k run rounds {s with vars := v} command sound'
      (all command (List.mem_append_right _ List.mem_cons_self))
    refine ⟨v,outs,w,_,ran,ran',?_,refines.error⟩
    intro name unnamed
    rw [refines.map]
    exact apply_untouched fun touched => unnamed (meant_touches touched)

end

theorem variables_are_a_finite_map_add :
    ∃ w outs, runLines (processSingleCommand noDisk (processCommand noDisk 0 0) 0) (shellStart ())
      [bytes "$A=1",bytes "add $A 2"] = done {shellStart () with vars := w} outs ∧ w.Sound ∧ size (valueOf w) = w.variableCount := by
  obtain ⟨⟨w,outs,ran,sound,count,_⟩,_⟩ := variables_are_a_finite_map noDisk (processCommand noDisk 0 0) 0 (shellStart ())
    ⟨fun i j inside => absurd inside (Nat.not_lt_zero i),Nat.zero_le _⟩ [bytes "$A=1",bytes "add $A 2"] (by
      intro command member
      rcases List.mem_cons.mp member with rfl | later
      · exact .inl ⟨rfl,by decide⟩
      · rw [List.mem_singleton.mp later]
        exact .inr ⟨_,_,rfl,.inr (.inl rfl)⟩)
  exact ⟨w,outs,ran,sound,count⟩

end SantOS.Shell
