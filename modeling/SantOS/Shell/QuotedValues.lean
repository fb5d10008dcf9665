import SantOS.Shell.Store

namespace SantOS.Shell
open CStrings ParallelArrays

structure VariableName (name : Str) : Prop where
  nonempty : name ≠ []
  chars : name.all isNameChar = true

def quoted (text : Str) : Str := 0x22::(text ++ [0x22])

def setCommand (name text : Str) : Str := 0x24::(name ++ 0x3D::text)
def appendCommand (name text : Str) : Str := 0x24::(name ++ 0x2B::0x3D::text)

section
variable {name text : Str} {v : Variables}

theorem VariableName.char (isName : VariableName name) : ∀ c ∈ name, c ≠ 0x3D ∧ c ≠ 0x2B ∧ c ≠ 0x20 := by
  intro c member
  have char := List.all_eq_true.mp isName.chars c member
  refine ⟨?_,?_,?_⟩
  all_goals
    rintro rfl
    cases char

theorem hasAppend_plain (plain : ∀ c ∈ name, c ≠ 0x2B) (text : Str) : hasAppend (name ++ text) = hasAppend text := by
  induction name with
  | nil => rfl
  | cons c name ih =>
    have first := plain c List.mem_cons_self
    rw [List.cons_append,hasAppend,ih fun d member => plain d (List.mem_cons_of_mem _ member)]
    simp [first]

theorem hasAppend_quoted (text : Str) : hasAppend (quoted text) = hasAppend text := by
  have closed : hasAppend (text ++ [0x22]) = hasAppend text := by
    induction text with
    | nil => rfl
    | cons c text ih =>
      rw [List.cons_append,hasAppend,hasAppend,ih]
      cases text with
      | nil => simp
      | cons d text => rfl
  rw [quoted,hasAppend,closed]
  rfl

-- What the three scans of an assignment make of it.
structure Assigns (envVar name text : Str) (append : Bool) : Prop where
  equals : 0x3D ∈ envVar
  named : assignmentName envVar = name
  value : (envVar.dropWhile (· ≠ 0x3D)).drop 1 = text
  operator : hasAppend envVar = append

theorem assigns_set (isName : VariableName name) (text : Str) : Assigns (name ++ 0x3D::text) name text (hasAppend text) := by
  have before : ∀ c ∈ name, (c ≠ 0x3D : Bool) = true := fun c member => decide_eq_true (isName.char c member).1
  have operator : hasAppend (name ++ 0x3D::text) = hasAppend text :=
    hasAppend_plain (fun c member => (isName.char c member).2.1) _
  have first : (name ++ 0x3D::text).takeWhile (· ≠ 0x3D) = name := by
    rw [List.takeWhile_append_of_pos before]
    simp
  refine ⟨by simp,?_,?_,operator⟩
  · rw [assignmentName,first]
    refine if_neg ?_
    rintro ⟨_,last⟩
    exact (isName.char _ (List.mem_of_getLast? last)).2.1 rfl
  · rw [List.dropWhile_append_of_pos before]
    rfl

theorem assigns_append (isName : VariableName name) (text : Str) : Assigns (name ++ 0x2B::0x3D::text) name text true := by
  have shape : name ++ 0x2B::0x3D::text = (name ++ [0x2B]) ++ 0x3D::text := by simp
  have before : ∀ c ∈ name ++ [0x2B], (c ≠ 0x3D : Bool) = true := by
    intro c member
    rcases List.mem_append.mp member with inside | plus
    · exact decide_eq_true (isName.char c inside).1
    · rw [List.mem_singleton.mp plus]
      rfl
  have operator : hasAppend (name ++ 0x2B::0x3D::text) = true :=
    (hasAppend_plain (fun c member => (isName.char c member).2.1) _).trans rfl
  have first : (name ++ 0x2B::0x3D::text).takeWhile (· ≠ 0x3D) = name ++ [0x2B] := by
    rw [shape,List.takeWhile_append_of_pos before]
    simp
  refine ⟨by simp,?_,?_,operator⟩
  · rw [assignmentName,first]
    refine (if_pos ⟨operator,by simp⟩).trans ?_
    exact List.dropLast_concat
  · rw [shape,List.dropWhile_append_of_pos before]
    rfl

theorem Assigns.stores (assigns : Assigns envVar name text append) (nonempty : name ≠ [])
    (room : valueOf v name = none → v.variableCount < 32) :
    ∃ w, assign v envVar = some (w,[]) ∧
      valueOf w = Function.update (valueOf v) name
        (some ((if append then (valueOf v name).getD [] else []) ++ expandValue (valueOf v) [] .plain text)) := by
  have given : envVar ≠ [] := List.ne_nil_of_mem assigns.equals
  unfold assign
  dsimp only
  rw [if_neg given,if_neg (not_not.mpr assigns.equals),assigns.named,if_neg nonempty,assigns.value,assigns.operator]
  cases found : findVariable v name with
  | none =>
    have absent := valueOf_none.mpr found
    refine ⟨_,if_neg (Nat.not_le_of_lt (room absent)),?_⟩
    funext other
    rw [Function.update_apply,absent]
    refine (lookup_push found).trans ?_
    cases append with
    | false => rfl
    | true => rfl
  | some i =>
    have there : valueOf v name = some (v.values i) := by rw [valueOf,found]; rfl
    refine ⟨_,rfl,?_⟩
    funext other
    rw [Function.update_apply,there]
    refine (lookup_set found).trans ?_
    cases append with
    | false => rfl
    | true => rfl

theorem expand_quoted (value : Str → Option Str) (varval : Str) (inside : 0x22 ∉ text) :
    expandValue value varval .quoted (text ++ [0x22]) = varval ++ text := by
  induction text generalizing varval with
  | nil =>
    rw [List.append_nil]
    rfl
  | cons c text ih =>
    have plain : c ≠ 0x22 := fun same => inside (same ▸ List.mem_cons_self)
    rw [List.cons_append,expandValue,if_neg plain,ih (varval ++ [c]) (fun later => inside (List.mem_cons_of_mem _ later)),List.append_assoc]
    rfl

end

section
variable {σ : Type}

def Leaves (r : Result σ) (name value : Str) : Prop := ∃ result t outs, r = some (result,t,outs) ∧ valueOf t.vars name = some value

theorem run_assignment (k : Kernel σ) (run : Session σ → Str → Result σ) (rounds : Nat) (s : Session σ)
    (assigned : assign s.vars envVar = some (w,outs)) :
    processSingleCommand k run rounds s (0x24::envVar) = done {s with vars := w} (.ran (0x24::envVar)::outs) := by
  have noDot : (0x24::envVar).take 2 ≠ bytes "./" := by
    intro dot
    rw [List.take_succ_cons] at dot
    exact absurd (List.cons.inj dot).1 (by decide)
  have dollar : (0x24::envVar).head? = some 0x24 := rfl
  rw [processSingleCommand,if_neg noDot,if_pos dollar]
  simp only [List.drop_succ_cons,List.drop_zero,assigned]
  rfl

-- A quoted value: += appends it, and = sets it unless "+=" stands in it and there is an old
-- value, which is kept in front of it then. varval holds 1023 characters.
theorem quoted_assignment_iff (k : Kernel σ) (run : Session σ → Str → Result σ) (rounds : Nat) (s : Session σ)
    (name text : Str)
    (isName : VariableName name) (inside : 0x22 ∉ text) (room : valueOf s.vars name = none → s.vars.variableCount < 32) :
    (Leaves (processSingleCommand k run rounds s (setCommand name (quoted text))) name text ∧
      ∀ old, valueOf s.vars name = some old →
        Leaves (processSingleCommand k run rounds s (appendCommand name (quoted text))) name (old ++ text)) ↔
      (hasAppend text = true → (valueOf s.vars name).getD [] = []) := by
  have value : expandValue (valueOf s.vars) [] .plain (quoted text) = text := by
    have scanned := expand_quoted (valueOf s.vars) [] inside
    rwa [List.nil_append] at scanned
  obtain ⟨w,set_,afterSet⟩ := (assigns_set isName (quoted text)).stores isName.nonempty room
  obtain ⟨u,appended,afterAppend⟩ := (assigns_append isName (quoted text)).stores isName.nonempty room
  rw [value,hasAppend_quoted] at afterSet
  rw [value,if_pos rfl] at afterAppend
  have setRun := run_assignment k run rounds s set_
  have appendRun := run_assignment k run rounds s appended
  constructor
  · rintro ⟨⟨result,t,outs,ran,left⟩,_⟩ operator
    rw [setCommand,setRun] at ran
    cases ran
    change valueOf w name = some text at left
    rw [afterSet,Function.update_self,if_pos operator] at left
    exact List.append_left_eq_self.mp (Option.some.inj left)
  · intro free
    refine ⟨⟨_,_,_,setRun,?_⟩,?_⟩
    · change valueOf w name = some text
      rw [afterSet,Function.update_self]
      congr 1
      split
      · next operator => rw [free operator,List.nil_append]
      · exact List.nil_append text
    · intro old there
      refine ⟨_,_,_,appendRun,?_⟩
      change valueOf u name = some (old ++ text)
      rw [afterAppend,Function.update_self,there]
      rfl

end

theorem quoted_assignment_iff_first_value :
    (Leaves (processSingleCommand noDisk (fun s _ => done s []) 0 (shellStart ()) (setCommand (bytes "A") (quoted (bytes "1+=2"))))
        (bytes "A") (bytes "1+=2") ∧
      ∀ old, valueOf (shellStart ()).vars (bytes "A") = some old →
        Leaves (processSingleCommand noDisk (fun s _ => done s []) 0 (shellStart ()) (appendCommand (bytes "A") (quoted (bytes "1+=2"))))
          (bytes "A") (old ++ bytes "1+=2")) ↔
      (hasAppend (bytes "1+=2") = true → (valueOf (shellStart ()).vars (bytes "A")).getD [] = []) :=
  quoted_assignment_iff noDisk (fun s _ => done s []) 0 (shellStart ()) (bytes "A") (bytes "1+=2") ⟨by decide,by decide⟩ (by decide)
    (fun _ => by decide)

theorem quoted_operator_appends :
    ¬Leaves (processSingleCommand noDisk (fun s _ => done s []) 0
      {shellStart () with vars := ⟨fun _ => bytes "A",fun _ => bytes "x",1⟩} (bytes "$A=\"1+=2\"")) (bytes "A") (bytes "1+=2") := by
  rintro ⟨result,t,outs,ran,left⟩
  have result_ : processSingleCommand noDisk (fun s _ => done s []) 0
      {shellStart () with vars := ⟨fun _ => bytes "A",fun _ => bytes "x",1⟩} (bytes "$A=\"1+=2\"") =
        done {shellStart () with vars := ⟨fun _ => bytes "A",Function.update (fun _ => bytes "x") 0 (bytes "x1+=2"),1⟩}
          [.ran (bytes "$A=\"1+=2\"")] := rfl
  rw [result_] at ran
  cases ran
  revert left
  decide

end SantOS.Shell
