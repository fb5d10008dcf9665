import SantOS.Library.Templates
import SantOS.Shell.QuotedValues

namespace SantOS.Shell
open CStrings ParallelArrays Templates

def valueChunks (text : Str) : List (Chunk UInt8) := chunks 0x24 isNameChar text
def dollarNames (text : Str) : List Str := names 0x24 isNameChar text

def echoed (value : Str → Option Str) : Chunk UInt8 → Str
  | .char c => [c]
  | .name name => if name = [] then [0x24] else (value name).getD []

def assigned (value : Str → Option Str) : Chunk UInt8 → Str
  | .char c => [c]
  | .name name => if name = [] then [] else (value (name.take 63)).getD []

section
variable {value other : Str → Option Str} {text : Str}

theorem echoChar_fits (c : UInt8) (fits : (out ++ [c]).length < outLimit) : echoChar out c = out ++ [c] := by
  rw [List.length_append] at fits
  exact if_pos (by simp only [List.length_cons,List.length_nil] at fits; omega)

theorem echoName_fits (name : Str) (fits : (out ++ echoed value (.name name)).length < outLimit) :
    echoName value out name = out ++ echoed value (.name name) := by
  rw [echoed] at fits ⊢
  rw [echoName]
  split
  · next empty =>
    rw [if_pos empty] at fits
    exact echoChar_fits 0x24 fits
  · next named =>
    rw [if_neg named] at fits
    cases there : value name with
    | none => exact (List.append_nil out).symm
    | some found =>
      rw [there,List.length_append] at fits
      exact if_pos fits

theorem echoFrom_eq (out : Str) (name : Option Str) (text : Str)
    (fits : (out ++ expand (echoed value) (chunksFrom 0x24 isNameChar name text)).length < outLimit) :
    echoFrom value out name text = out ++ expand (echoed value) (chunksFrom 0x24 isNameChar name text) := by
  induction text generalizing out name with
  | nil =>
    cases name with
    | none => exact (List.append_nil out).symm
    | some read =>
      rw [chunksFrom,expand,List.flatMap_singleton] at fits ⊢
      exact echoName_fits read fits
  | cons c rest ih =>
    have plain : ∀ out : Str, (out ++ expand (echoed value) (chunksFrom 0x24 isNameChar none (c::rest))).length < outLimit →
        echoFrom value out none (c::rest) = out ++ expand (echoed value) (chunksFrom 0x24 isNameChar none (c::rest)) := by
      intro out fits
      rw [chunksFrom] at fits ⊢
      rw [echoFrom]
      split
      · next mark =>
        rw [if_pos mark] at fits
        exact ih out (some []) fits
      · next char =>
        rw [if_neg char,expand,List.flatMap_cons,← List.append_assoc] at fits
        have short := Nat.lt_of_le_of_lt (List.prefix_append _ _).length_le fits
        rw [echoChar_fits c short,ih (out ++ [c]) none fits,expand,expand,List.flatMap_cons,← List.append_assoc]
        rfl
    cases name with
    | none => exact plain out fits
    | some read =>
      by_cases inside : isNameChar c = true
      · rw [chunksFrom,if_pos inside] at fits ⊢
        rw [echoFrom,if_pos inside]
        exact ih out (some (read ++ [c])) fits
      · have step : echoFrom value out (some read) (c::rest) = echoFrom value (echoName value out read) none (c::rest) := by
          rw [echoFrom,if_neg inside]
          rfl
        rw [chunksFrom_stop inside,expand,List.flatMap_cons,← List.append_assoc] at fits
        have short := Nat.lt_of_le_of_lt (List.prefix_append _ _).length_le fits
        rw [step,echoName_fits read short,plain _ fits,chunksFrom_stop inside,expand,expand,List.flatMap_cons,← List.append_assoc]

def scanName : Option Str → Scan
  | none => .plain
  | some read => .name read

theorem expandValue_eq (varval : Str) (name : Option Str) (text : Str) (unquoted : 0x22 ∉ text) :
    expandValue value varval (scanName name) text = varval ++ expand (assigned value) (chunksFrom 0x24 isNameChar name text) := by
  have named : ∀ varval read, (if read = [] then varval else appendValue value varval read) = varval ++ assigned value (.name read) := by
    intro varval read
    rw [assigned]
    split
    · exact (List.append_nil varval).symm
    · rfl
  induction text generalizing varval name with
  | nil =>
    cases name with
    | none => exact (List.append_nil varval).symm
    | some read =>
      rw [chunksFrom,expand,List.flatMap_singleton,← named]
      cases read with
      | nil => rfl
      | cons c read => rfl
  | cons c rest ih =>
    have noQuote : c ≠ 0x22 := fun same => unquoted (same ▸ List.mem_cons_self)
    have later : 0x22 ∉ rest := fun member => unquoted (List.mem_cons_of_mem _ member)
    have plain : ∀ varval : Str, expandValue value (expandPlain varval c).1 (expandPlain varval c).2 rest =
        varval ++ expand (assigned value) (chunksFrom 0x24 isNameChar none (c::rest)) := by
      intro varval
      rw [chunksFrom,expandPlain,if_neg noQuote]
      split
      · exact ih varval (some []) later
      · rw [expand,List.flatMap_cons,← List.append_assoc]
        exact ih (varval ++ [c]) none later
    cases name with
    | none => exact plain varval
    | some read =>
      change expandValue value varval (.name read) (c::rest) = _
      rw [expandValue]
      by_cases inside : isNameChar c = true
      · rw [if_pos inside,chunksFrom,if_pos inside]
        exact ih varval (some (read ++ [c])) later
      · rw [if_neg inside,chunksFrom_stop inside,expand,List.flatMap_cons,← List.append_assoc,← named]
        exact plain _

theorem mem_valueChunks : .name n ∈ valueChunks text ↔ n ∈ dollarNames text := name_mem_chunks rfl

-- The two meanings differ for a lone dollar sign, and for a name that its first 63 characters
-- resolve otherwise.
theorem meanings_agree (alike : ∀ n ∈ dollarNames text, value (n.take 63) = value n) (noLone : [] ∉ dollarNames text) :
    expand (assigned value) (valueChunks text) = expand (echoed value) (valueChunks text) := by
  apply expand_congr
  intro part member
  cases part with
  | char c => rfl
  | name n =>
    have mentioned := mem_valueChunks.mp member
    have named : n ≠ [] := by
      rintro rfl
      exact noLone mentioned
    rw [assigned,echoed,if_neg named,if_neg named,alike n mentioned]

theorem lone_dollar_length (alike : ∀ n ∈ dollarNames text, value (n.take 63) = value n) (lone : [] ∈ dollarNames text) :
    (expand (assigned value) (valueChunks text)).length < (expand (echoed value) (valueChunks text)).length := by
  apply expand_length_lt
  · intro part member
    cases part with
    | char c => exact Nat.le_refl _
    | name n =>
      rw [assigned,echoed,alike n (mem_valueChunks.mp member)]
      split
      · exact Nat.zero_le _
      · exact Nat.le_refl _
  · exact ⟨.name [],mem_valueChunks.mpr lone,Nat.zero_lt_one⟩

theorem echoed_congr (same : ∀ n ∈ dollarNames text, other n = value n) :
    expand (echoed other) (valueChunks text) = expand (echoed value) (valueChunks text) := by
  apply expand_congr
  intro part member
  cases part with
  | char c => rfl
  | name n => rw [echoed,echoed,same n (mem_valueChunks.mp member)]

theorem long_name_length (known : ∀ n, value n = if n = long.take 63 then some [c] else none)
    (noLone : [] ∉ dollarNames text)
    (mentioned : long ∈ dollarNames text) (longer : 63 < long.length) :
    (expand (echoed value) (valueChunks text)).length < (expand (assigned value) (valueChunks text)).length := by
  have cut : (long.take 63).length = 63 := List.length_take_of_le (Nat.le_of_lt longer)
  apply expand_length_lt
  · intro part member
    cases part with
    | char c => exact Nat.le_refl _
    | name n =>
      have named : n ≠ [] := by
        rintro rfl
        exact noLone (mem_valueChunks.mp member)
      rw [echoed,assigned,if_neg named,if_neg named,known n]
      split
      · next short =>
        have whole : n.take 63 = n := List.take_of_length_le (by rw [short,cut])
        rw [whole,known,if_pos short]
      · exact Nat.zero_le _
  · refine ⟨.name long,mem_valueChunks.mpr mentioned,?_⟩
    have named : long ≠ [] := by
      rintro rfl
      cases longer
    have other : long ≠ long.take 63 := by
      intro same
      rw [same,cut] at longer
      exact Nat.lt_irrefl _ longer
    rw [echoed,assigned,if_neg named,if_neg named,known,known,if_neg other,if_pos rfl]
    exact Nat.zero_lt_one

theorem meaning_length (small : ∀ n x, value n = some x → x.length ≤ 1) :
    (expand (echoed value) (valueChunks text)).length ≤ text.length ∧ (expand (assigned value) (valueChunks text)).length ≤ text.length := by
  have found : ∀ n, ((value n).getD []).length ≤ 1 := by
    intro n
    cases there : value n with
    | none => exact Nat.zero_le _
    | some x => exact small n x there
  have parts := chunks_length 0x24 isNameChar text
  constructor
  · refine (expand_length_le ?_).trans parts
    intro part _
    cases part with
    | char c => exact Nat.le_refl _
    | name n =>
      rw [echoed]
      split
      · exact Nat.le_refl _
      · exact found n
  · refine (expand_length_le ?_).trans parts
    intro part _
    cases part with
    | char c => exact Nat.le_refl _
    | name n =>
      rw [assigned]
      split
      · exact Nat.zero_le _
      · exact found _

end

structure PlainText (text : Str) : Prop where
  starts : ∃ c rest, text = c::rest ∧ c ≠ 0x20
  unquoted : 0x22 ∉ text
  noAppend : hasAppend text = false

section
variable {σ : Type}

-- A variable the text does not mention, with room for it; the expansions fit varval. No
-- pipeline is running, so echo prints.
structure Comparable (s : Session σ) (name text : Str) : Prop where
  isName : VariableName name
  room : valueOf s.vars name = none → s.vars.variableCount < 32
  unmentioned : name ∉ dollarNames text
  noPipeline : s.piping = false
  echoedFits : (expand (echoed (valueOf s.vars)) (valueChunks text)).length < 1024
  assignedFits : (expand (assigned (valueOf s.vars)) (valueChunks text)).length < 1024

def echoCommand (text : Str) : Str := bytes "echo " ++ text

def Agree (k : Kernel σ) (run : Session σ → Str → Result σ) (rounds : Nat) (s : Session σ) (name text : Str) : Prop :=
  ∃ w x, processSingleCommand k run rounds s (setCommand name text) = done {s with vars := w} [.ran (setCommand name text)] ∧
    valueOf w name = some x ∧
    processSingleCommand k run rounds s (echoCommand text) = done s [.ran (echoCommand text),.text (x ++ bytes "\n")] ∧
    processSingleCommand k run rounds {s with vars := w} (echoCommand text) =
      done {s with vars := w} [.ran (echoCommand text),.text (x ++ bytes "\n")]

variable {k : Kernel σ} {run : Session σ → Str → Result σ} {rounds : Nat} {s : Session σ} {name text : Str}

theorem run_echo (plain : PlainText text) (noPipeline : s.piping = false)
    (fits : (expand (echoed (valueOf s.vars)) (valueChunks text)).length < 1024) :
    processSingleCommand k run rounds s (echoCommand text) =
      done s [.ran (echoCommand text),.text (expand (echoed (valueOf s.vars)) (valueChunks text) ++ bytes "\n")] := by
  obtain ⟨c,rest,same,_⟩ := plain.starts
  have args : commandArgs (echoCommand text) = bytes "echo"::(tokens text).take 31 := by
    have cut := @pieces_cut (· = 0x20) (bytes "echo") 0x20 (by simp [bytes]) rfl [] text
    exact congrArg (List.take 32) cut
  obtain ⟨_,noDot,noDollar⟩ := command_no_prefix args (by decide) (by decide)
  have behind : substr (echoCommand text) 6 0 = some text := by
    have long : ¬(6 < 1 ∨ 6 > (echoCommand text).length) := by
      rw [same]
      simp [echoCommand,bytes]
    rw [substr,if_neg long,if_pos rfl]
    rfl
  have printed := @echoFrom_eq (valueOf s.vars) [] none text
    (by rw [List.nil_append]; exact Nat.lt_trans fits (by decide))
  have ran : echo s (echoCommand text) = done s [.text (expand (echoed (valueOf s.vars)) (valueChunks text) ++ bytes "\n")] := by
    rw [echo,behind,noPipeline]
    dsimp only
    rw [printed,List.nil_append]
    rfl
  rw [processSingleCommand,if_neg noDot,if_neg noDollar,args]
  change printing _ (echo s (echoCommand text)) = _
  rw [ran]
  rfl

theorem run_set (plain : PlainText text) (comparable : Comparable s name text) :
    ∃ w, processSingleCommand k run rounds s (setCommand name text) = done {s with vars := w} [.ran (setCommand name text)] ∧
      valueOf w = Function.update (valueOf s.vars) name (some (expand (assigned (valueOf s.vars)) (valueChunks text))) := by
  obtain ⟨w,stored,map⟩ := (assigns_set comparable.isName text).stores comparable.isName.nonempty comparable.room
  have value := @expandValue_eq (valueOf s.vars) [] none text plain.unquoted
  rw [List.nil_append] at value
  refine ⟨w,run_assignment k run rounds s stored,?_⟩
  rw [map,plain.noAppend,if_neg Bool.false_ne_true,List.nil_append]
  exact congrArg (fun x => Function.update (valueOf s.vars) name (some x)) value

theorem agree_iff (plain : PlainText text) (comparable : Comparable s name text) :
    Agree k run rounds s name text ↔
      expand (assigned (valueOf s.vars)) (valueChunks text) = expand (echoed (valueOf s.vars)) (valueChunks text) := by
  obtain ⟨w,stored,map⟩ := @run_set σ k run rounds s name text plain comparable
  have before := @run_echo σ k run rounds s text plain comparable.noPipeline comparable.echoedFits
  have same : expand (echoed (valueOf w)) (valueChunks text) = expand (echoed (valueOf s.vars)) (valueChunks text) := by
    apply echoed_congr
    intro n mentioned
    rw [map]
    refine Function.update_of_ne ?_ ..
    rintro rfl
    exact comparable.unmentioned mentioned
  have behind := @run_echo σ k run rounds {s with vars := w} text plain comparable.noPipeline (by rw [same]; exact comparable.echoedFits)
  rw [same] at behind
  constructor
  · rintro ⟨u,x,ran,left,printed,_⟩
    rw [stored] at ran
    cases ran
    rw [map,Function.update_self] at left
    rw [before] at printed
    simp only [done,Option.some.injEq,Prod.mk.injEq,List.cons.injEq,Out.text.injEq,true_and,and_true] at printed
    exact (Option.some.inj left).trans (List.append_cancel_right printed).symm
  · intro agree
    refine ⟨w,_,stored,?_,before,behind⟩
    rw [map,Function.update_self,agree]

end

theorem agree_in_store {σ : Type} {k : Kernel σ} {run : Session σ → Str → Result σ} {rounds : Nat} {s : Session σ}
    {name text : Str}
    (plain : PlainText text) (comparable : Comparable s name text)
    (alike : ∀ n ∈ dollarNames text, valueOf s.vars (n.take 63) = valueOf s.vars n) :
    Agree k run rounds s name text ↔ [] ∉ dollarNames text := by
  rw [agree_iff plain comparable]
  constructor
  · intro agree lone
    have less := lone_dollar_length alike lone
    rw [agree] at less
    exact Nat.lt_irrefl _ less
  · exact meanings_agree alike

theorem spare_comparable {s : Session σ} {text : Str} (short : text.length < 1024) (room : s.vars.variableCount < 32)
    (noPipeline : s.piping = false) (small : ∀ n x, valueOf s.vars n = some x → x.length ≤ 1) :
    Comparable s (List.replicate (text.length + 1) 0x41) text := by
  obtain ⟨echoedShort,assignedShort⟩ := @meaning_length (valueOf s.vars) text small
  refine ⟨⟨by simp,?_⟩,fun _ => room,?_,noPipeline,by omega,by omega⟩
  · rw [List.all_replicate]
    simp [isNameChar]
  · intro mentioned
    have within := names_length 0x24 isNameChar mentioned
    rw [List.length_replicate] at within
    omega

theorem one_value (name : Str) : ∀ m, valueOf ⟨fun _ => name,fun _ => [0x78],1⟩ m = if m = name then some [0x78] else none := by
  intro m
  rw [valueOf,findVariable,find,find]
  by_cases same : name = m
  · rw [if_pos same,if_pos same.symm]
    rfl
  · rw [if_neg same,if_neg (Ne.symm same)]
    rfl

-- In a store where the cut name alone has a value, a name of more than 63 characters differs.
theorem agreeing_names {text : Str} (plain : PlainText text) (short : text.length < 1024)
    (agree : ∀ (s : Session Unit) (name : Str), Comparable s name text → Agree noDisk (fun s _ => done s []) 0 s name text) :
    ∀ n ∈ dollarNames text, n ≠ [] ∧ n.length ≤ 63 := by
  have noLone : [] ∉ dollarNames text := by
    have start : Comparable (shellStart ()) (List.replicate (text.length + 1) 0x41) text :=
      spare_comparable short (by decide) rfl (by intro n x found; cases found)
    exact (agree_in_store plain start (fun n _ => rfl)).mp (agree _ _ start)
  intro n mentioned
  refine ⟨?_,?_⟩
  · rintro rfl
    exact noLone mentioned
  · by_contra longer
    have known := one_value (n.take 63)
    have one : Comparable {shellStart () with vars := ⟨fun _ => n.take 63,fun _ => [0x78],1⟩} (List.replicate (text.length + 1) 0x41) text := by
      refine spare_comparable short (show 1 < 32 by decide) rfl ?_
      intro m x found
      rw [known] at found
      split at found
      · cases found
        exact Nat.le_refl _
      · cases found
    have same := (agree_iff plain one).mp (agree _ _ one)
    have less := long_name_length known noLone mentioned (Nat.lt_of_not_le longer)
    rw [same] at less
    exact Nat.lt_irrefl _ less

-- Where the names resolve like their first 63 characters the commands agree unless a dollar
-- sign stands alone. A text of fewer than 1024 characters is one on which they always agree
-- exactly when behind each of its dollar signs there is a name of at most 63.
theorem expanders_agree_iff (text : Str) (plain : PlainText text) :
    (∀ (σ : Type) (k : Kernel σ) (run : Session σ → Str → Result σ) (rounds : Nat) (s : Session σ) (name : Str),
      Comparable s name text → (∀ n ∈ dollarNames text, valueOf s.vars (n.take 63) = valueOf s.vars n) →
        (Agree k run rounds s name text ↔ [] ∉ dollarNames text)) ∧
    (text.length < 1024 →
      ((∀ (σ : Type) (k : Kernel σ) (run : Session σ → Str → Result σ) (rounds : Nat) (s : Session σ) (name : Str),
        Comparable s name text → Agree k run rounds s name text) ↔ ∀ n ∈ dollarNames text, n ≠ [] ∧ n.length ≤ 63)) := by
  refine ⟨fun σ k run rounds s name comparable alike => agree_in_store plain comparable alike,?_⟩
  intro short
  constructor
  · intro agree
    exact agreeing_names plain short (fun s name comparable => agree Unit noDisk (fun s _ => done s []) 0 s name comparable)
  · intro names σ k run rounds s name comparable
    refine (agree_in_store plain comparable ?_).mpr (fun lone => (names [] lone).1 rfl)
    intro n mentioned
    rw [List.take_of_length_le (names n mentioned).2]

theorem expanders_agree_iff_greeting :
    Agree noDisk (fun s _ => done s []) 0 (shellStart ()) (bytes "A") (bytes "Hello $USER") := by
  have names : dollarNames (bytes "Hello $USER") = [bytes "USER"] := by decide
  have comparable : Comparable (shellStart ()) (bytes "A") (bytes "Hello $USER") :=
    ⟨⟨by decide,by decide⟩,fun _ => by decide,by rw [names]; decide,rfl,by decide,by decide⟩
  have agree := (expanders_agree_iff (bytes "Hello $USER") ⟨⟨0x48,bytes "ello $USER",rfl,by decide⟩,by decide,by decide⟩).2 (by decide)
  exact agree.mpr (by rw [names]; decide) Unit noDisk (fun s _ => done s []) 0 (shellStart ()) (bytes "A") comparable

theorem lone_dollar_dropped :
    processSingleCommand noDisk (fun s _ => done s []) 0 (shellStart ()) (bytes "echo 5$") =
      done (shellStart ()) [.ran (bytes "echo 5$"),.text (bytes "5$\n")] ∧
    ¬Agree noDisk (fun s _ => done s []) 0 (shellStart ()) (bytes "A") (bytes "5$") := by
  refine ⟨rfl,?_⟩
  intro agree
  have names : dollarNames (bytes "5$") = [[]] := by decide
  have plain : PlainText (bytes "5$") := ⟨⟨0x35,[0x24],rfl,by decide⟩,by decide,by decide⟩
  have comparable : Comparable (shellStart ()) (bytes "A") (bytes "5$") :=
    ⟨⟨by decide,by decide⟩,fun _ => by decide,by rw [names]; decide,rfl,by decide,by decide⟩
  have same := (agree_iff plain comparable).mp agree
  revert same
  decide

end SantOS.Shell
