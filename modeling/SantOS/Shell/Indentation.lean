import SantOS.Shell.BlockRuns

namespace SantOS.Shell
open CStrings

def indented (n : Nat) (line : Str) : Str := List.replicate n 0x20 ++ line

def maxLineLen : Nat := 128

-- block_header is a buffer of MAX_LINE_LEN bytes that is read by strtok only.
structure Alike {σ : Type} (s t : Session σ) : Prop where
  rest : s = {t with blockHeader := s.blockHeader}
  header : tokens s.blockHeader = tokens t.blockHeader
  fits : s.blockHeader.length < maxLineLen ↔ t.blockHeader.length < maxLineLen

def printed (outs : List Out) : List Out := outs.filter (fun o => !isCommand o)

def SameEffect {σ : Type} (r r' : Result σ) : Prop :=
  Option.Rel (fun x y => x.1 = y.1 ∧ Alike x.2.1 y.2.1 ∧ printed x.2.2 = printed y.2.2) r r'

def opensBlock (args : List Str) : Prop :=
  (args.head? = some (bytes "if") ∨ args.head? = some (bytes "for") ∨ args.head? = some (bytes "while")) ∧
    ¬(args.length < 4) ∧ (args.head? = some (bytes "for") → args.getD 2 [] = bytes "to")

structure KeepsMeaning (line : Str) (n : Nat) : Prop where
  no_program : line.take 2 ≠ bytes "./"
  no_assignment : line.head? ≠ some 0x24
  no_echo : ∀ args, commandArgs line = bytes "echo"::args → line = bytes "echo" ∧ n = 1
  no_find : ∀ args, commandArgs line = bytes "find"::args → args ≠ [] →
    n = 1 ∨ searchTerm (line.drop 5) = (bytes "find").drop (5-n)
  no_header : ∀ name args, commandArgs line = name::args → opensBlock (name::args) → n + name.length < maxLineLen

section
variable {line text : Str} {n : Nat}

theorem indented_succ (n : Nat) (line : Str) : indented (n+1) line = 0x20::indented n line := rfl

theorem indented_tokens (n : Nat) (line : Str) : tokens (indented n line) = tokens line :=
  pieces_breaks (fun _ member => decide_eq_true (List.mem_replicate.mp member).2) line

theorem indented_trimLeft (n : Nat) (line : Str) : trimLeft (indented n line) = trimLeft line :=
  List.dropWhile_append_of_pos (fun _ member => decide_eq_true (List.mem_replicate.mp member).2)

theorem indented_trim (n : Nat) (line : Str) : trim (indented n line) = trim line := by rw [trim,indented_trimLeft,trim]

-- The spaces stay in front of the keyword.
theorem indented_afterStrtok (n : Nat) (line : Str) : afterStrtok (indented n line) = indented n (afterStrtok line) := by
  have spaces : ∀ c ∈ List.replicate n (0x20 : UInt8), (c = 0x20 : Bool) = true :=
    fun _ member => decide_eq_true (List.mem_replicate.mp member).2
  rw [afterStrtok,indented,List.takeWhile_append_of_pos spaces,List.dropWhile_append_of_pos spaces,List.append_assoc]
  rfl

theorem indented_arrow (n : Nat) (arrow : line.take 2 ≠ bytes "> ") : (indented n line).take 2 ≠ bytes "> " := by
  cases n with
  | zero => exact arrow
  | succ n =>
    intro same
    rw [indented_succ,List.take_succ_cons] at same
    exact absurd (List.cons.inj same).1 (by decide)

theorem hasPipe_space (arrow : text.take 2 ≠ bytes "> ") : hasPipe (0x20::text) = hasPipe text := by
  match text with
  | [] => rfl
  | [_] => rfl
  | b::c::rest =>
    have plain : (b = 0x3E && c = 0x20) = false := by
      rw [← Bool.not_eq_true]
      intro both
      rw [Bool.and_eq_true,decide_eq_true_eq,decide_eq_true_eq] at both
      apply arrow
      rw [both.1,both.2]
      rfl
    rw [hasPipe,Bool.and_assoc,plain,Bool.and_false,Bool.false_or]

theorem indented_pipe (n : Nat) (arrow : line.take 2 ≠ bytes "> ") : hasPipe (indented n line) = hasPipe line := by
  induction n with
  | zero => rfl
  | succ n ih => rw [indented_succ,hasPipe_space (indented_arrow n arrow),ih]

theorem segments_space (left : Nat) (seg : Str) (arrow : text.take 2 ≠ bytes "> ") :
    segments left seg (0x20::text) = segments left (seg ++ [0x20]) text := by
  match text with
  | [] => simp [segments]
  | [b] => simp [segments]
  | b::c::rest =>
    have plain : ¬((0x20 : UInt8) = 0x20 ∧ b = 0x3E ∧ c = 0x20) := by
      rintro ⟨_,rfl,rfl⟩
      exact arrow rfl
    rw [segments,if_neg plain]
    split
    · next none =>
      rw [none]
      cases rest with
      | nil => simp [segments]
      | cons d rest => rw [segments,if_pos rfl]
    · rfl

theorem indented_segments (n left : Nat) (seg : Str) (arrow : line.take 2 ≠ bytes "> ") :
    segments left seg (indented n line) = segments left (seg ++ List.replicate n 0x20) line := by
  induction n generalizing seg with
  | zero =>
    rw [List.replicate_zero,List.append_nil]
    rfl
  | succ n ih =>
    rw [indented_succ,segments_space left seg (indented_arrow n arrow),ih,List.append_assoc]
    rfl

def inFront (a : Str) : List Str → List Str
  | [] => []
  | seg::segs => (a ++ seg)::segs

theorem segments_front (left : Nat) (a seg text : Str) (more : seg ++ text ≠ []) :
    segments left (a ++ seg) text = inFront a (segments left seg text) := by
  induction left,seg,text using segments.induct with
  | case1 seg b c d rest => rw [segments,if_pos rfl,segments,if_pos rfl,inFront]
  | case2 left seg b c d rest some_ pipe ih => rw [segments,if_neg some_,if_pos pipe,segments,if_neg some_,if_pos pipe,inFront]
  | case3 left seg b c d rest some_ plain ih =>
    rw [segments,if_neg some_,if_neg plain,segments,if_neg some_,if_neg plain,List.append_assoc]
    exact ih (by simp)
  | case4 text left seg short last =>
    have more' : a ++ seg ++ text ≠ [] ∧ left > 0 := by
      refine ⟨?_,last.2⟩
      rw [List.append_assoc]
      exact List.append_ne_nil_of_right_ne_nil a more
    rw [segments.eq_2 _ _ text short,segments.eq_2 _ _ text short,if_pos last,if_pos more',List.append_assoc,inFront]
  | case5 text left seg short last =>
    have none : ¬(a ++ seg ++ text ≠ [] ∧ left > 0) := fun some_ => last ⟨more,some_.2⟩
    rw [segments.eq_2 _ _ text short,segments.eq_2 _ _ text short,if_neg last,if_neg none,inFront]

theorem indented_line_segments (n : Nat) (arrow : line.take 2 ≠ bytes "> ") (more : line ≠ []) :
    segments 16 [] (indented n line) = inFront (List.replicate n 0x20) (segments 16 [] line) := by
  have front := segments_front 16 (List.replicate n 0x20) [] line more
  rw [List.append_nil] at front
  rw [indented_segments n 16 [] arrow,List.nil_append,front]

theorem findSegment_front (n i : Nat) (segs : List Str) :
    findSegment i (inFront (List.replicate n 0x20) segs) = findSegment i segs := by
  cases segs with
  | nil => rfl
  | cons seg segs =>
    have same := indented_trimLeft n seg
    rw [indented] at same
    rw [inFront,findSegment,findSegment,same]

theorem first_word (visible : line.head? ≠ some 0x20) (args : commandArgs line = name::more) :
    name ≠ [] ∧ (∀ c ∈ name, (c = 0x20 : Bool) = false) ∧ ((line = name ∧ more = []) ∨ ∃ t, line = name ++ 0x20::t) := by
  have word : ∀ c ∈ line.takeWhile (fun c => !decide (c = 0x20)), decide (c = 0x20) = false := by
    intro c member
    have inside := List.mem_takeWhile_imp member
    simpa using inside
  have parts := @List.takeWhile_append_dropWhile _ (fun c => !decide (c = 0x20)) line
  cases behind : line.dropWhile (fun c => !decide (c = 0x20)) with
  | nil =>
    rw [behind,List.append_nil] at parts
    have one := pieces_word word []
    rw [List.nil_append,parts] at one
    rw [parts] at word
    have given : line ≠ [] := by
      rintro rfl
      cases args
    rw [commandArgs,tokens,one,if_neg given] at args
    cases args
    exact ⟨given,word,.inl ⟨rfl,rfl⟩⟩
  | cons c t =>
    have stop : c = 0x20 := by
      have first := List.head?_dropWhile_not (fun c => !decide (c = 0x20)) line
      rw [behind] at first
      simpa using first
    rw [behind,stop] at parts
    have given : line.takeWhile (fun c => !decide (c = 0x20)) ≠ [] := by
      intro empty
      rw [empty] at parts
      rw [← parts] at visible
      exact visible rfl
    have cut := @pieces_cut (· = 0x20) _ 0x20 word rfl [] t
    rw [List.nil_append,if_neg given,parts] at cut
    rw [commandArgs,tokens,cut] at args
    have first : line.takeWhile (fun c => !decide (c = 0x20)) = name := (List.cons.inj args).1
    rw [first] at given word parts
    exact ⟨given,word,.inr ⟨t,parts.symm⟩⟩

theorem afterStrtok_word (visible : line.head? ≠ some 0x20) (args : commandArgs line = name::more) :
    afterStrtok line = name := by
  obtain ⟨given,word,shape⟩ := first_word visible args
  have inside : ∀ c ∈ name, (c ≠ 0x20 : Bool) = true := by
    intro c member
    have other := word c member
    simpa using other
  have noSpace : line.takeWhile (· = 0x20) = [] ∧ line.dropWhile (· = 0x20) = line := by
    cases line with
    | nil => exact ⟨rfl,rfl⟩
    | cons c line =>
      have other : ¬decide (c = 0x20) = true := fun same => visible (by rw [of_decide_eq_true same]; rfl)
      exact ⟨List.takeWhile_cons_of_neg other,List.dropWhile_cons_of_neg other⟩
  rw [afterStrtok,noSpace.1,noSpace.2,List.nil_append]
  rcases shape with ⟨rfl,_⟩ | ⟨t,rfl⟩
  · exact List.takeWhile_eq_self_iff.mpr inside
  · rw [List.takeWhile_append_of_pos inside]
    simp

theorem searchTerm_spaces (n : Nat) (text : Str) : searchTerm (indented n text) = searchTerm text := by
  rw [searchTerm,indented_trimLeft,searchTerm]

theorem indented_find_term (t : Str) (more : 2 ≤ n) :
    searchTerm ((indented n (bytes "find" ++ 0x20::t)).drop 5) = (bytes "find").drop (5-n) := by
  by_cases far : 5 ≤ n
  · obtain ⟨m,rfl⟩ : ∃ m, n = 5 + m := ⟨n-5,by omega⟩
    have behind : (indented (5+m) (bytes "find" ++ 0x20::t)).drop 5 = indented m (bytes "find" ++ 0x20::t) := by
      rw [indented,List.replicate_add,List.append_assoc]
      rfl
    rw [behind,searchTerm_spaces,Nat.sub_eq_zero_of_le far]
    rfl
  · obtain rfl | rfl | rfl : n = 2 ∨ n = 3 ∨ n = 4 := by omega
    · rfl
    · rfl
    · rfl

theorem inFront_length (a : Str) (segs : List Str) : (inFront a segs).length = segs.length := by
  cases segs with
  | nil => rfl
  | cons seg segs => rfl

end

section
variable {σ : Type} {k : Kernel σ} {run : Session σ → Str → Result σ} {rounds fuel n : Nat} {s t : Session σ} {line : Str}

theorem Alike.refl (s : Session σ) : Alike s s := ⟨rfl,rfl,Iff.rfl⟩

theorem SameEffect.refl (r : Result σ) : SameEffect r r := by
  cases r with
  | none => exact .none
  | some r => exact .some ⟨rfl,Alike.refl r.2.1,rfl⟩

theorem SameEffect.recorded {r r' : Result σ} (same : SameEffect r r') (one : printed first = [])
    (two : printed second = []) :
    SameEffect (printing first r) (printing second r') := by
  cases same with
  | none => exact .none
  | some related =>
    obtain ⟨result,alike,outs⟩ := related
    refine .some ⟨result,alike,?_⟩
    unfold printed at one two outs ⊢
    rw [List.filter_append,List.filter_append,one,two,outs]

theorem runSegments_front (single : Session σ → Str → Result σ) (found : Option Nat) (n count i : Nat) (result : Int)
    (s : Session σ)
    (segs : List Str) :
    runSegments single found count i result s (inFront (List.replicate n 0x20) segs) = runSegments single found count i result s segs := by
  cases segs with
  | nil => rfl
  | cons seg segs =>
    have same := indented_trim n seg
    rw [indented] at same
    rw [inFront,runSegments,runSegments,same]

theorem indented_pipeline (single : Session σ → Str → Result σ) (n : Nat) (s : Session σ) (arrow : line.take 2 ≠ bytes "> ")
    (more : line ≠ []) :
    runPipeline single s (indented n line) = runPipeline single s line := by
  unfold runPipeline
  dsimp only
  rw [indented_line_segments n arrow more,findSegment_front,inFront_length,runSegments_front]

theorem indented_no_prefix (n : Nat) (line : Str) :
    (indented (n+1) line).take 2 ≠ bytes "./" ∧ (indented (n+1) line).head? ≠ some 0x24 := by
  constructor
  · intro dot
    rw [indented_succ,List.take_succ_cons] at dot
    exact absurd (List.cons.inj dot).1 (by decide)
  · intro dollar
    exact absurd (Option.some.inj dollar) (by decide)

theorem indented_args (n : Nat) (line : Str) : commandArgs (indented n line) = commandArgs line := by
  rw [commandArgs,indented_tokens,commandArgs]

def readsLine (name : Str) : Prop := name = bytes "echo" ∨ name = bytes "if" ∨ name = bytes "for" ∨ name = bytes "while" ∨ name = bytes "find"

theorem runCommand_line (blind : ¬readsLine name) (one two : Str) (args : List Str) :
    runCommand k rounds s one name args = runCommand k rounds s two name args := by
  simp only [readsLine,not_or] at blind
  obtain ⟨echo_,if_,for_,while_,find_⟩ := blind
  unfold runCommand
  simp only [if_neg echo_,if_neg if_,if_neg for_,if_neg while_,if_neg find_]

theorem openBlock_indented (visible : line.head? ≠ some 0x20) (same : commandArgs line = name::args) (kind : Nat)
    (usage : List Out)
    (short : ¬((name::args).length < 4 ∨ (kind = 2 ∧ (name::args).getD 2 [] ≠ bytes "to")) → n + name.length < maxLineLen) :
    SameEffect (openBlock kind usage s (indented n line) (name::args)) (openBlock kind usage s line (name::args)) := by
  unfold openBlock
  split
  · exact SameEffect.refl _
  · next opens =>
    have fits := short opens
    refine .some ⟨rfl,⟨rfl,?_,?_⟩,rfl⟩
    · exact (congrArg tokens (indented_afterStrtok n line)).trans (indented_tokens n _)
    · have word := afterStrtok_word visible same
      have moved := indented_afterStrtok n line
      rw [word] at moved
      change (afterStrtok (indented n line)).length < maxLineLen ↔ (afterStrtok line).length < maxLineLen
      rw [moved,word,indented,List.length_append,List.length_replicate]
      omega

theorem runCommand_indented (visible : line.head? ≠ some 0x20) (keeps : KeepsMeaning line n) (some_ : n ≠ 0)
    (same : commandArgs line = name::args) :
    SameEffect (runCommand k rounds s (indented n line) name (name::args)) (runCommand k rounds s line name (name::args)) := by
  by_cases blind : readsLine name
  · rcases blind with rfl | rfl | rfl | rfl | rfl
    · obtain ⟨rfl,rfl⟩ := keeps.no_echo args same
      exact SameEffect.refl _
    · refine openBlock_indented visible same 1 _ fun opens => keeps.no_header _ args same ⟨.inl rfl,fun few => opens (.inl few),?_⟩
      intro for_
      exact absurd (Option.some.inj for_) (by decide)
    · exact openBlock_indented visible same 2 _ fun opens => keeps.no_header _ args same
        ⟨.inr (.inl rfl),fun few => opens (.inl few),fun _ => by_contra fun other => opens (.inr ⟨rfl,other⟩)⟩
    · refine openBlock_indented visible same 3 _ fun opens => keeps.no_header _ args same ⟨.inr (.inr rfl),fun few => opens (.inl few),?_⟩
      intro for_
      exact absurd (Option.some.inj for_) (by decide)
    · change SameEffect (findCommand s (indented n line) (bytes "find"::args)) (findCommand s line (bytes "find"::args))
      unfold findCommand
      split
      · exact SameEffect.refl _
      · next several =>
        have given : args ≠ [] := by
          rintro rfl
          exact several (by decide)
        have term : searchTerm ((indented n line).drop 5) = searchTerm (line.drop 5) := by
          obtain ⟨_,_,shape⟩ := first_word visible same
          obtain ⟨t,rfl⟩ := shape.resolve_left fun alone => given alone.2
          rcases keeps.no_find args same given with rfl | found
          · exact searchTerm_spaces 1 t
          · rw [found]
            by_cases one : n = 1
            · rw [one] at found ⊢
              rw [← found]
              exact searchTerm_spaces 1 t
            · exact indented_find_term t (by omega)
        rw [term]
        exact SameEffect.refl _
  · rw [runCommand_line blind (indented n line) line]
    exact SameEffect.refl _

theorem single_indented (visible : line.head? ≠ some 0x20) (keeps : KeepsMeaning line n) (some_ : n ≠ 0) :
    SameEffect (processSingleCommand k run rounds s (indented n line)) (processSingleCommand k run rounds s line) := by
  obtain ⟨m,rfl⟩ := Nat.exists_eq_succ_of_ne_zero some_
  obtain ⟨noDot,noDollar⟩ := indented_no_prefix m line
  refine SameEffect.recorded ?_ rfl rfl
  rw [if_neg noDot,if_neg noDollar,if_neg keeps.no_program,if_neg keeps.no_assignment,indented_args]
  cases same : commandArgs line with
  | nil => exact SameEffect.refl _
  | cons name args => exact runCommand_indented visible keeps some_ same

end

-- The spaces make no difference, whatever the state of the shell.
def IndentFree (line : Str) (n : Nat) : Prop :=
  ∀ (σ : Type) (k : Kernel σ) (rounds fuel : Nat) (s : Session σ),
    SameEffect (processCommand k rounds fuel s (indented n line)) (processCommand k rounds fuel s line)

theorem indent_free_zero (line : Str) : IndentFree line 0 := fun _ _ _ _ _ => SameEffect.refl _

theorem indent_free (visible : line.head? ≠ some 0x20) (arrow : line.take 2 ≠ bytes "> ")
    (keeps : hasPipe line = false → KeepsMeaning line n) : IndentFree line n := by
  intro σ k rounds fuel s
  cases fuel with
  | zero => exact .none
  | succ fuel =>
    unfold processCommand
    refine SameEffect.recorded ?_ rfl rfl
    rw [indented_pipe n arrow]
    split
    · next pipe =>
      have more : line ≠ [] := by
        rintro rfl
        cases pipe
      rw [indented_pipeline _ n s arrow more]
      exact SameEffect.refl _
    · next plain =>
      cases n with
      | zero => exact SameEffect.refl _
      | succ n => exact single_indented visible (keeps (Bool.eq_false_iff.mpr plain)) (Nat.succ_ne_zero n)

end SantOS.Shell
