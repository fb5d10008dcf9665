import SantOS.Shell.Blocks

namespace SantOS.Shell
open CStrings

def pipeAt (line : Str) (i : Nat) : Bool := (line.drop i).take 3 = [0x20,0x3E,0x20]

-- Where process_command writes its NULs: the first 16 places, counted from i on.
def splitPoints (left i : Nat) : Str → List Nat
  | a::b::c::rest =>
    if left = 0 then []
    else if a = 0x20 ∧ b = 0x3E ∧ c = 0x20 then i::splitPoints (left-1) (i+3) rest
    else splitPoints left (i+1) (b::c::rest)
  | _ => []

def between (line : Str) (left start : Nat) : List Nat → List Str
  | [] => if line.drop start ≠ [] ∧ left > 0 then [line.drop start] else []
  | i::later => (line.take i).drop start::between line (left-1) (i+3) later

-- The places a scan from the left meets: an occurrence that starts with the last space of one
-- that was met is none.
def met (line : Str) : Nat → Bool
  | 0 => pipeAt line 0
  | 1 => pipeAt line 1
  | i+2 => pipeAt line (i+2) && !met line i

def metPlaces (line : Str) : List Nat := (List.range line.length).filter (met line)

-- Places that the grammar of a line gives to something else than a pipe.
def inQuotes (line : Str) (i : Nat) : Bool := (line.take i).count 0x22 % 2 = 1

def isOperator (line : Str) (i : Nat) : Bool :=
  match tokens (line.take i) with
  | [keyword,_] => (keyword = bytes "if" || keyword = bytes "while") && tokens (line.drop (i+3)) ≠ []
  | _ => false

def isProtected (line : Str) (i : Nat) : Bool := inQuotes line i || isComment line || isOperator line i

def joinSegments (segs : List Str) : Str := List.intercalate (bytes " > ") segs

-- The splitter as a user reads the grammar. A line with 15 places has 16 segments.
structure SplitsAtPipes (line : Str) : Prop where
  places : ∀ i ∈ splitPoints 16 0 line, isProtected line i = false
  whole : (∀ i, pipeAt line i = true → isProtected line i = true) →
    ∀ (σ : Type) (k : Kernel σ) (rounds fuel : Nat) (s : Session σ), processCommand k rounds (fuel+1) s line =
      printing [.given line] (processSingleCommand k (processCommand k rounds fuel) rounds s line)
  joined : hasPipe line = true → (metPlaces line).length ≤ 15 → joinSegments (segments 16 [] line) = line

section
variable {line text : Str} {i j left : Nat}

theorem pipeAt_length (here : pipeAt line i = true) : i + 3 ≤ line.length := by
  have long := congrArg List.length (of_decide_eq_true here)
  simp only [List.length_take,List.length_drop,List.length_cons,List.length_nil] at long
  omega

theorem pipeAt_bytes (here : pipeAt line i = true) : ∃ rest, line.drop i = 0x20::0x3E::0x20::rest := by
  refine ⟨(line.drop i).drop 3,?_⟩
  have first := of_decide_eq_true here
  calc line.drop i = (line.drop i).take 3 ++ (line.drop i).drop 3 := (List.take_append_drop 3 _).symm
    _ = _ := by rw [first]; rfl

theorem met_pipe (here : met line i = true) : pipeAt line i = true := by
  match i with
  | 0 => exact here
  | 1 => exact here
  | i+2 =>
    rw [met,Bool.and_eq_true] at here
    exact here.1

def Fresh (line : Str) (i : Nat) : Prop := ∀ j, met line j = true → j + 3 ≤ i ∨ i ≤ j

theorem fresh_start : Fresh line 0 := fun j _ => .inr (Nat.zero_le j)

theorem Fresh.met_eq (fresh : Fresh line i) : met line i = pipeAt line i := by
  match i with
  | 0 => rfl
  | 1 => rfl
  | i+2 =>
    have before : met line i = false := by
      rw [← Bool.not_eq_true]
      intro here
      rcases fresh i here with inside | behind
      · omega
      · omega
    rw [met,before]
    exact Bool.and_true _

theorem Fresh.next (fresh : Fresh line i) (other : pipeAt line i = false) : Fresh line (i+1) := by
  intro j here
  rcases fresh j here with before | behind
  · exact .inl (Nat.le_succ_of_le before)
  · right
    by_contra same
    have same' : j = i := by omega
    rw [same',fresh.met_eq,other] at here
    cases here

theorem Fresh.inside (fresh : Fresh line i) (here : pipeAt line i = true) :
    met line (i+1) = false ∧ met line (i+2) = false := by
  constructor
  · rw [← Bool.not_eq_true]
    intro inside
    obtain ⟨rest,same⟩ := pipeAt_bytes here
    obtain ⟨rest',same'⟩ := pipeAt_bytes (met_pipe inside)
    rw [← List.tail_drop,same] at same'
    exact absurd (List.cons.inj same').1 (by decide)
  · rw [met,fresh.met_eq,here]
    exact Bool.and_false _

theorem Fresh.jump (fresh : Fresh line i) (here : pipeAt line i = true) : Fresh line (i+3) := by
  intro j met_
  obtain ⟨second,third⟩ := fresh.inside here
  rcases fresh j met_ with before | behind
  · exact .inl (by omega)
  · by_cases same : j = i
    · exact .inl (by omega)
    · by_cases one : j = i+1
      · rw [one,second] at met_
        cases met_
      · by_cases two : j = i+2
        · rw [two,third] at met_
          cases met_
        · exact .inr (by omega)

theorem pipeAt_head (place : line.drop i = a::b::c::text) : pipeAt line i = decide (a = 0x20 ∧ b = 0x3E ∧ c = 0x20) := by
  simp [pipeAt,place]

theorem splitPoints_eq (left i : Nat) (text : Str) (place : line.drop i = text) (fresh : Fresh line i) :
    splitPoints left i text = ((List.range' i text.length).filter (met line)).take left := by
  induction left,i,text using splitPoints.induct with
  | case1 i a b c rest => rw [splitPoints,if_pos rfl,List.take_zero]
  | case2 left i a b c rest some_ pipe ih =>
    have here : pipeAt line i = true := by rw [pipeAt_head place]; exact decide_eq_true pipe
    obtain ⟨second,third⟩ := fresh.inside here
    have first := fresh.met_eq.trans here
    have behind : line.drop (i+3) = rest := by rw [← List.drop_drop,place]; rfl
    have length : (a::b::c::rest).length = rest.length+1+1+1 := rfl
    rw [splitPoints,if_neg some_,if_pos pipe,ih behind (fresh.jump here),length,List.range'_succ,List.range'_succ,List.range'_succ,
      List.filter_cons_of_pos first,List.filter_cons_of_neg (by rw [second]; exact Bool.false_ne_true),
      List.filter_cons_of_neg (by rw [third]; exact Bool.false_ne_true)]
    obtain ⟨n,rfl⟩ := Nat.exists_eq_succ_of_ne_zero some_
    rfl
  | case3 left i a b c rest some_ plain ih =>
    have here : pipeAt line i = false := by rw [pipeAt_head place]; exact decide_eq_false plain
    have first := fresh.met_eq.trans here
    have behind : line.drop (i+1) = b::c::rest := by rw [← List.drop_drop,place]; rfl
    have length : (a::b::c::rest).length = (b::c::rest).length+1 := rfl
    rw [splitPoints,if_neg some_,if_neg plain,ih behind (fresh.next here),length,List.range'_succ,
      List.filter_cons_of_neg (by rw [first]; exact Bool.false_ne_true)]
  | case4 text left i short =>
    have nowhere : (List.range' i text.length).filter (met line) = [] := by
      rw [List.filter_eq_nil_iff]
      intro j member here
      have inside := pipeAt_length (met_pipe here)
      have range := List.mem_range'_1.mp member
      have all := congrArg List.length place
      rw [List.length_drop] at all
      match text with
      | [] => cases member
      | [_] =>
        simp only [List.length_cons,List.length_nil] at all range
        omega
      | [_,_] =>
        simp only [List.length_cons,List.length_nil] at all range
        omega
      | a::b::c::rest => exact short a b c rest rfl
    rw [nowhere,List.take_nil]
    match text with
    | [] => rfl
    | [_] => rfl
    | [_,_] => rfl
    | a::b::c::rest => exact absurd rfl (short a b c rest)

theorem splitPoints_line (line : Str) : splitPoints 16 0 line = (metPlaces line).take 16 := by
  rw [splitPoints_eq 16 0 line rfl fresh_start,metPlaces,List.range_eq_range']

theorem place_of_split (split : i ∈ splitPoints 16 0 line) : pipeAt line i = true := by
  rw [splitPoints_line] at split
  exact met_pipe (List.mem_filter.mp (List.mem_of_mem_take split)).2

theorem split_of_pipe (some_ : left ≠ 0) (i : Nat) (pipe : hasPipe text = true) : splitPoints left i text ≠ [] := by
  induction text using hasPipe.induct generalizing i with
  | case1 a b c rest ih =>
    rw [hasPipe] at pipe
    rw [splitPoints,if_neg some_]
    split
    · exact List.cons_ne_nil _ _
    · next plain =>
      apply ih
      simp only [Bool.or_eq_true,Bool.and_eq_true,decide_eq_true_eq,and_assoc] at pipe
      exact pipe.resolve_left plain
  | case2 text short =>
    rw [hasPipe.eq_2 text short] at pipe
    cases pipe

theorem pipe_of_split (left i : Nat) (split : splitPoints left i text ≠ []) : hasPipe text = true := by
  induction left,i,text using splitPoints.induct with
  | case1 i a b c rest => exact absurd (by rw [splitPoints,if_pos rfl]) split
  | case2 left i a b c rest some_ pipe ih => simp [hasPipe,pipe]
  | case3 left i a b c rest some_ plain ih =>
    rw [splitPoints,if_neg some_,if_neg plain] at split
    rw [hasPipe,ih split,Bool.or_true]
  | case4 text left i short =>
    rw [splitPoints.eq_2 _ _ text short] at split
    exact absurd rfl split

theorem segments_between (left i start : Nat) (text : Str) (place : line.drop i = text) (inside : i ≤ line.length)
    (before : start ≤ i) :
    segments left ((line.take i).drop start) text = between line left start (splitPoints left i text) := by
  induction left,i,text using splitPoints.induct generalizing start with
  | case1 i a b c rest =>
    rw [segments,if_pos rfl,splitPoints,if_pos rfl,between]
    simp
  | case2 left i a b c rest some_ pipe ih =>
    have behind : line.drop (i+3) = rest := by rw [← List.drop_drop,place]; rfl
    have long := congrArg List.length place
    simp only [List.length_drop,List.length_cons] at long
    have later := ih (i+3) behind (by omega) (Nat.le_refl _)
    have nothing : (line.take (i+3)).drop (i+3) = [] := List.drop_eq_nil_of_le (List.length_take_le _ _)
    rw [nothing] at later
    rw [segments,if_neg some_,if_pos pipe,splitPoints,if_neg some_,if_pos pipe,between,later]
  | case3 left i a b c rest some_ plain ih =>
    have behind : line.drop (i+1) = b::c::rest := by rw [← List.drop_drop,place]; rfl
    have long := congrArg List.length place
    simp only [List.length_drop,List.length_cons] at long
    have later := ih start behind (by omega) (by omega)
    have grown : (line.take (i+1)).drop start = (line.take i).drop start ++ [a] := by
      have here : line.take (i+1) = line.take i ++ [a] := by
        rw [List.take_add,place]
        rfl
      rw [here,List.drop_append_of_le_length (by rw [List.length_take_of_le inside]; exact before)]
    rw [segments,if_neg some_,if_neg plain,splitPoints,if_neg some_,if_neg plain,← later,grown]
  | case4 text left i short =>
    have whole : (line.take i).drop start ++ text = line.drop start := by
      rw [← place,← List.drop_append_of_le_length (by rw [List.length_take_of_le inside]; exact before),List.take_append_drop]
    rw [segments.eq_2 _ _ text short,splitPoints.eq_2 _ _ text short,whole]
    rfl

theorem segments_line (line : Str) : segments 16 [] line = between line 16 0 (splitPoints 16 0 line) :=
  segments_between 16 0 0 line rfl (Nat.zero_le _) (Nat.le_refl _)

theorem segments_nonempty (some_ : left ≠ 0) (seg : Str) (more : seg ++ text ≠ []) : segments left seg text ≠ [] := by
  induction left,seg,text using segments.induct with
  | case1 seg a b c rest => exact absurd rfl some_
  | case2 left seg a b c rest some_ pipe ih =>
    rw [segments,if_neg some_,if_pos pipe]
    exact List.cons_ne_nil _ _
  | case3 left seg a b c rest some_ plain ih =>
    rw [segments,if_neg some_,if_neg plain]
    exact ih some_ (by simp)
  | case4 text left seg short last =>
    rw [segments.eq_2 _ _ text short,if_pos last]
    exact List.cons_ne_nil _ _
  | case5 text left seg short last => exact absurd ⟨more,Nat.pos_of_ne_zero some_⟩ last

theorem joinSegments_cons (seg : Str) (more : segs ≠ []) :
    joinSegments (seg::segs) = seg ++ (bytes " > " ++ joinSegments segs) := by
  cases segs with
  | nil => exact absurd rfl more
  | cons next segs =>
    rw [joinSegments,List.intercalate_cons_cons,List.append_assoc]
    rfl

theorem segments_joined (left i : Nat) (seg : Str) (few : (splitPoints left i text).length < left) :
    joinSegments (segments left seg text) ++
      (if (splitPoints left i text).getLast?.map (·+3) = some (i+text.length) then bytes " > " else []) = seg ++ text := by
  induction left,seg,text using segments.induct generalizing i with
  | case1 seg a b c rest => cases few
  | case2 left seg a b c rest some_ pipe ih =>
    rw [splitPoints,if_neg some_,if_pos pipe,List.length_cons] at few
    rw [segments,if_neg some_,if_pos pipe,splitPoints,if_neg some_,if_pos pipe]
    obtain ⟨rfl,rfl,rfl⟩ := pipe
    have later := ih (i+3) (by omega)
    have length : i + (0x20::0x3E::0x20::rest : Str).length = i + 3 + rest.length := by simp; omega
    rw [length]
    cases rest with
    | nil => simp [segments,splitPoints,joinSegments,bytes]
    | cons d rest =>
      rw [joinSegments_cons seg (segments_nonempty (by omega) [] (List.cons_ne_nil d rest))]
      have last : ((i::splitPoints (left-1) (i+3) (d::rest)).getLast?.map (·+3) = some (i+3+(d::rest).length)) ↔
          (splitPoints (left-1) (i+3) (d::rest)).getLast?.map (·+3) = some (i+3+(d::rest).length) := by
        cases splitPoints (left-1) (i+3) (d::rest) with
        | nil => simp
        | cons j js => simp [List.getLast?_cons_cons]
      simp only [last]
      rw [List.append_assoc,List.append_assoc,later]
      rfl
  | case3 left seg a b c rest some_ plain ih =>
    rw [splitPoints,if_neg some_,if_neg plain] at few
    have later := ih (i+1) few
    have length : i + (a::b::c::rest).length = i + 1 + (b::c::rest).length := by simp; omega
    rw [segments,if_neg some_,if_neg plain,splitPoints,if_neg some_,if_neg plain,length,later,List.append_assoc]
    rfl
  | case4 text left seg short last =>
    rw [segments.eq_2 _ _ text short,if_pos last,splitPoints.eq_2 _ _ text short]
    simp [joinSegments]
  | case5 text left seg short last =>
    have empty : seg ++ text = [] := by
      by_contra more
      exact last ⟨more,Nat.zero_lt_of_lt few⟩
    rw [segments.eq_2 _ _ text short,if_neg last,splitPoints.eq_2 _ _ text short,empty]
    rfl

-- Three bytes hold one place only, so the last place of the line is the one at its end.
theorem last_place (line : Str) : ((metPlaces line).getLast?.map (·+3) = some line.length) ↔ met line (line.length-3) = true := by
  constructor
  · intro last
    obtain ⟨i,found,ends⟩ := Option.map_eq_some_iff.mp last
    have here := (List.mem_filter.mp (List.mem_of_getLast? found)).2
    rwa [← ends,Nat.add_sub_cancel]
  · intro here
    have long := pipeAt_length (met_pipe here)
    obtain ⟨n,length⟩ : ∃ n, line.length = n + 3 := ⟨line.length-3,by omega⟩
    have late : ∀ i, n < i → met line i = false := by
      intro i behind
      rw [← Bool.not_eq_true]
      intro pipe
      have inside := pipeAt_length (met_pipe pipe)
      omega
    rw [length,Nat.add_sub_cancel] at here
    rw [metPlaces,length,List.range_succ,List.range_succ,List.range_succ]
    simp [here,late]

end

-- It splits at pipes only, and the segments are the line, exactly when none of the first 16
-- places is protected and the line, unless it has more, ends in none.
theorem splits_at_pipes_iff (line : Str) :
    SplitsAtPipes line ↔ (∀ i ∈ (metPlaces line).take 16, isProtected line i = false) ∧
      ((metPlaces line).length ≤ 15 → met line (line.length-3) = false) := by
  constructor
  · intro splits
    refine ⟨fun i place => splits.places i (by rw [splitPoints_line]; exact place),?_⟩
    intro few
    rw [← Bool.not_eq_true]
    intro closing
    have points : splitPoints 16 0 line = metPlaces line := by
      rw [splitPoints_line,List.take_of_length_le (by omega)]
    have joined := @segments_joined line 16 0 [] (by rw [points]; omega)
    have last := (last_place line).mpr closing
    have pipe : hasPipe line = true := by
      apply pipe_of_split 16 0
      rw [points]
      rintro nowhere
      rw [nowhere] at last
      cases last
    rw [points,Nat.zero_add,if_pos last,splits.joined pipe few,List.nil_append] at joined
    exact absurd (List.append_right_eq_self.mp joined) (by decide)
  · rintro ⟨free,openEnd⟩
    refine ⟨fun i split => free i (by rw [← splitPoints_line]; exact split),?_,?_⟩
    · intro all σ k rounds fuel s
      have noPipe : hasPipe line = false := by
        rw [← Bool.not_eq_true]
        intro pipe
        obtain ⟨i,split⟩ := List.exists_mem_of_ne_nil _ (@split_of_pipe line 16 (by decide) 0 pipe)
        have open_ := free i (by rw [← splitPoints_line]; exact split)
        rw [all i (place_of_split split)] at open_
        cases open_
      rw [processCommand]
      dsimp only
      rw [if_neg (by rw [noPipe]; exact Bool.false_ne_true)]
    · intro pipe few
      have points : splitPoints 16 0 line = metPlaces line := by
        rw [splitPoints_line,List.take_of_length_le (by omega)]
      have joined := @segments_joined line 16 0 [] (by rw [points]; omega)
      have last : ¬(metPlaces line).getLast?.map (·+3) = some line.length := by
        rw [last_place,openEnd few]
        exact Bool.false_ne_true
      rw [points,Nat.zero_add,if_neg last,List.append_nil] at joined
      exact joined

theorem if_greater_split : ¬SplitsAtPipes (bytes "if 3 > 2") ∧
    (processCommand noDisk 0 1 (shellStart ()) (bytes "if 3 > 2")).map (fun r => r.2.2) =
      some ([.given (bytes "if 3 > 2"),.ran (bytes "if 3"),.error (bytes "Usage: if <val1> <op> <val2>\n"),operators,.ran (bytes "2")] ++
        unknownCommand (bytes "2")) := by
  refine ⟨?_,rfl⟩
  intro splits
  have place : splitPoints 16 0 (bytes "if 3 > 2") = [4] := by decide
  have operator : isProtected (bytes "if 3 > 2") 4 = true := by decide
  have free := splits.places 4 (by rw [place]; exact List.mem_singleton.mpr rfl)
  rw [operator] at free
  cases free

end SantOS.Shell
