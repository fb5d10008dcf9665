import SantOS.Shell.Blocks

namespace SantOS.Shell
open CStrings

-- The kind of block a line opens: 1 if, 2 for, 3 while, 0 none.
def blockKind (trimmed : Str) : Nat :=
  if startsWith (bytes "if") trimmed then 1
  else if startsWith (bytes "for") trimmed then 2
  else if startsWith (bytes "while") trimmed then 3 else 0

-- Lines in which every block is closed by the keyword of its own kind.
inductive Nested : List Str → Prop where
  | nil : Nested []
  | line : blockKind (trimLeft input) = 0 → (∀ kind, endKeyword kind (trimLeft input) = false) →
      Nested rest → Nested (input::rest)
  | block : blockKind (trimLeft header) = kind → kind ≠ 0 → Nested body → endKeyword kind (trimLeft ending) = true →
      Nested rest → Nested (header::body ++ ending::rest)

def others (kind : Nat) (body : List Str) : Nat :=
  body.countP (fun input => blockKind (trimLeft input) ≠ 0 ∧ blockKind (trimLeft input) ≠ kind)

theorem blockStart_kind (trimmed : Str) : blockStart trimmed = true ↔ blockKind trimmed ≠ 0 := by
  unfold blockStart blockKind
  cases startsWith (bytes "if") trimmed <;> cases startsWith (bytes "for") trimmed <;>
    cases startsWith (bytes "while") trimmed <;> simp

theorem comment_shape (comment : trimmed.take 2 = bytes "##") : ∃ rest, trimmed = 0x23::0x23::rest := by
  refine ⟨trimmed.drop 2,?_⟩
  conv_lhs => rw [← List.take_append_drop 2 trimmed,comment]
  rfl

theorem comment_opens_nothing (comment : trimmed.take 2 = bytes "##") : blockKind trimmed = 0 := by
  obtain ⟨rest,rfl⟩ := comment_shape comment
  rfl

theorem endKeyword_cases (ending : endKeyword kind trimmed = true) :
    kind = 1 ∧ trimmed = bytes "endif" ∨ kind = 2 ∧ trimmed = bytes "endfor" ∨ kind = 3 ∧ trimmed = bytes "endwhile" := by
  simpa [endKeyword,or_assoc] using ending

theorem comment_ends_nothing (comment : trimmed.take 2 = bytes "##") : endKeyword kind trimmed = false := by
  obtain ⟨rest,rfl⟩ := comment_shape comment
  have head {word : Str} (same : 0x23::0x23::rest = word) : word.head? = some 0x23 := by rw [← same,List.head?_cons]
  by_contra ending
  rcases endKeyword_cases (Bool.not_eq_false _ ▸ ending) with ⟨_,same⟩ | ⟨_,same⟩ | ⟨_,same⟩ <;>
    exact absurd (head same) (by decide)

theorem end_opens_nothing (ending : endKeyword kind trimmed = true) : blockKind trimmed = 0 := by
  rcases endKeyword_cases ending with ⟨_,rfl⟩ | ⟨_,rfl⟩ | ⟨_,rfl⟩ <;> rfl

theorem opens_ends_nothing (opens : blockKind trimmed ≠ 0) : endKeyword kind trimmed = false :=
  Bool.eq_false_iff.mpr fun ending => opens (end_opens_nothing ending)

theorem endKeyword_kind (ending : endKeyword kind trimmed = true) : endKeyword other trimmed = true ↔ other = kind := by
  constructor
  · intro ending'
    rcases endKeyword_cases ending with ⟨rfl,rfl⟩ | ⟨rfl,rfl⟩ | ⟨rfl,rfl⟩ <;>
      rcases endKeyword_cases ending' with ⟨rfl,same⟩ | ⟨rfl,same⟩ | ⟨rfl,same⟩ <;> first | rfl | exact absurd same (by decide)
  · rintro rfl
    exact ending

theorem block_end_plain (closes : endKeyword kind (trimLeft closer) = true) :
    closer ≠ [] ∧ isComment closer = false ∧ blockStart (trimLeft closer) = false := by
  refine ⟨?_,Bool.eq_false_iff.mpr fun comment => ?_,Bool.eq_false_iff.mpr fun start => ?_⟩
  · rintro rfl
    rcases endKeyword_cases closes with ⟨_,same⟩ | ⟨_,same⟩ | ⟨_,same⟩ <;> exact absurd same (by decide)
  · have none_ := @comment_ends_nothing kind _ (by simpa [isComment] using comment)
    rw [closes] at none_
    cases none_
  · exact (blockStart_kind _).mp start (end_opens_nothing closes)

section
variable {σ : Type}

def Stores (s t : Session σ) : Prop := t = {s with blockLines := t.blockLines, blockNesting := t.blockNesting}

inductive Collected (run : Session σ → Str → Result σ) : Session σ → List Str → Session σ → Prop where
  | nil : Collected run s [] s
  | cons : isEnd s input = false → typeLine run s input = done t [] → Stores s t →
      Collected run t rest u → Collected run s (input::rest) u

variable {run : Session σ → Str → Result σ} {s t u : Session σ}

theorem Stores.collecting (stores : Stores s t) : t.collectingBlock = s.collectingBlock := by rw [stores]
theorem Stores.header (stores : Stores s t) : t.blockHeader = s.blockHeader := by rw [stores]

theorem Stores.trans (one : Stores s t) (two : Stores t u) : Stores s u := by
  unfold Stores
  rw [one] at two
  exact two

theorem Collected.append (first : Collected run s before t) (second : Collected run t after u) :
    Collected run s (before ++ after) u := by
  induction first with
  | nil => exact second
  | cons open_ typed kept _ ih => exact .cons open_ typed kept (ih second)

theorem Collected.unique (one : Collected run s body t) (two : Collected run s body u) : t = u := by
  induction one with
  | nil =>
    cases two
    rfl
  | cons _ typed _ _ ih =>
    cases two with
    | cons _ typed' _ rest =>
      have same := typed.symm.trans typed'
      simp only [done,Option.some.injEq,Prod.mk.injEq,true_and,and_true] at same
      subst same
      exact ih rest

theorem Collected.stores (collected : Collected run s body t) : Stores s t := by
  induction collected with
  | nil => rfl
  | cons _ _ stores _ ih => exact stores.trans ih

theorem printing_nil (r : Result σ) : printing [] r = r := by
  cases r <;> rfl

theorem Collected.typed (collected : Collected run s body t) (rest : List Str) :
    typeLines run s (body ++ rest) = typeLines run t rest := by
  induction collected with
  | nil => rfl
  | cons _ typed _ _ ih =>
    rw [List.cons_append,typeLines,typed]
    exact (printing_nil _).trans ih

variable (run) in
theorem line_collected (collecting : s.collectingBlock ≠ 0) (room : s.blockLines.length < maxBlockLines)
    (open_ : isEnd s input = false) :
    ∃ t, typeLine run s input = done t [] ∧ Stores s t ∧
      t.blockLines.length ≤ s.blockLines.length + 1 ∧ t.blockNesting = nextNesting s (trimLeft input) := by
  by_cases empty : input = []
  · subst empty
    exact ⟨s,rfl,rfl,Nat.le_succ _,by simp [nextNesting,raisedNesting,endKeyword,trimLeft,blockStart,startsWith,bytes]⟩
  · by_cases comment : isComment input
    · refine ⟨s,?_,rfl,Nat.le_succ _,?_⟩
      · rw [typeLine,if_neg empty,if_pos collecting,collectLine,if_pos comment]
      · have prefix_ : (trimLeft input).take 2 = bytes "##" := by simpa [isComment] using comment
        have quiet : blockStart (trimLeft input) = false :=
          Bool.eq_false_iff.mpr fun start => (blockStart_kind _).mp start (comment_opens_nothing prefix_)
        simp [nextNesting,raisedNesting,comment_ends_nothing prefix_,quiet]
    · refine ⟨{s with blockLines := s.blockLines ++ [input], blockNesting := nextNesting s (trimLeft input)},?_,rfl,?_,rfl⟩
      · rw [typeLine,if_neg empty,if_pos collecting,collectLine,if_neg comment,if_neg (by simp [open_]),if_pos room]
      · simp

theorem not_end (nested : 0 < raisedNesting s (trimLeft input) ∨ endKeyword s.collectingBlock (trimLeft input) = false) :
    isEnd s input = false := by
  unfold isEnd
  rcases nested with deep | plain
  · simp [Nat.ne_of_gt deep]
  · simp [plain]

variable (run) in
-- Over a body the counter rises by the inner blocks of another kind: those of the shell's
-- own kind are counted down again by their ends.
theorem body_collected (nested : Nested body) : ∀ {s : Session σ}, s.collectingBlock ≠ 0 →
    s.blockLines.length + body.length ≤ maxBlockLines →
    ∃ t, Collected run s body t ∧ t.blockLines.length ≤ s.blockLines.length + body.length ∧
      t.blockNesting = s.blockNesting + others s.collectingBlock body := by
  induction nested with
  | nil =>
    intro s _ _
    exact ⟨s,.nil,Nat.le_refl _,by simp [others]⟩
  | @line input rest opens ends _ ih =>
    intro s collecting room
    rw [List.length_cons] at room
    have start : blockStart (trimLeft input) = false :=
      Bool.eq_false_iff.mpr fun start => (blockStart_kind _).mp start opens
    have open_ : isEnd s input = false := not_end (.inr (ends _))
    obtain ⟨t,typed,stores,lines,nesting⟩ := line_collected run collecting (by omega) open_
    have kept := stores.collecting
    obtain ⟨u,collected,lines',nesting'⟩ := ih (s := t) (kept ▸ collecting) (by omega)
    refine ⟨u,.cons open_ typed stores collected,by rw [List.length_cons]; omega,?_⟩
    rw [nesting',nesting,kept]
    simp [nextNesting,raisedNesting,ends,start,others,opens]
  | @block header kind body ending rest opens someKind _ ends _ ihBody ihRest =>
    intro s collecting room
    simp only [List.cons_append,List.length_cons,List.length_append] at room
    have start : blockStart (trimLeft header) = true := (blockStart_kind _).mpr (opens ▸ someKind)
    have open_ : isEnd s header = false := not_end (.inr (opens_ends_nothing (opens ▸ someKind)))
    obtain ⟨t,typed,stores,lines,nesting⟩ := line_collected run collecting (by omega) open_
    have kept := stores.collecting
    obtain ⟨u,collected,lines',nesting'⟩ := ihBody (s := t) (kept ▸ collecting) (by omega)
    have raised : t.blockNesting = s.blockNesting + 1 := by
      rw [nesting,nextNesting,opens_ends_nothing (opens ▸ someKind),raisedNesting,if_pos start]
      rfl
    obtain ⟨_,_,quiet⟩ := block_end_plain ends
    have same : u.collectingBlock = s.collectingBlock := collected.stores.collecting.trans kept
    have deep : raisedNesting u (trimLeft ending) = s.blockNesting + 1 + others s.collectingBlock body := by
      rw [raisedNesting,quiet,nesting',raised,kept]
      rfl
    have open_' : isEnd u ending = false := not_end (.inl (by omega))
    obtain ⟨v,typed',stores',lines'',nesting''⟩ := line_collected run (same ▸ collecting) (by omega) open_'
    have kept' := stores'.collecting
    obtain ⟨w,collected',linesW,nestingW⟩ := ihRest (s := v) (kept' ▸ same ▸ collecting) (by omega)
    refine ⟨w,(Collected.cons open_ typed stores collected).append (.cons open_' typed' stores' collected'),?_,?_⟩
    · simp only [List.cons_append,List.length_cons,List.length_append]
      omega
    · have closes : endKeyword s.collectingBlock (trimLeft ending) = true ↔ s.collectingBlock = kind := endKeyword_kind ends
      rw [nestingW,nesting'',nextNesting,kept',same,deep]
      simp only [others,List.cons_append,List.countP_cons,List.countP_append,opens,end_opens_nothing ends,closes]
      by_cases own : s.collectingBlock = kind
      · simp [own]
        omega
      · simp [own,Ne.symm own,someKind]
        omega

structure Opened (kind : Nat) (s : Session σ) : Prop where
  collecting : s.collectingBlock = kind
  lines : s.blockLines = []
  nesting : s.blockNesting = 0

-- The shell takes closer, and none of the lines before it, as the end of its block.
def EndsAt (run : Session σ → Str → Result σ) (s : Session σ) (body : List Str) (closer : Str) : Prop :=
  ∃ t, Collected run s body t ∧ isEnd t closer = true

theorem others_zero : others kind body = 0 ↔
    ∀ input ∈ body, blockKind (trimLeft input) ≠ 0 → blockKind (trimLeft input) = kind := by
  unfold others
  rw [List.countP_eq_zero]
  simp

theorem ends_at_its_keyword_iff (opened : Opened kind s) (nested : Nested body) (few : body.length ≤ 8)
    (closes : endKeyword kind (trimLeft closer) = true) :
    EndsAt run s body closer ↔
      ∀ input ∈ body, blockKind (trimLeft input) ≠ 0 → blockKind (trimLeft input) = kind := by
  have collecting : s.collectingBlock ≠ 0 := by
    rw [opened.collecting]
    rcases endKeyword_cases closes with ⟨rfl,_⟩ | ⟨rfl,_⟩ | ⟨rfl,_⟩ <;> decide
  obtain ⟨t,collected,_,nesting⟩ := body_collected run nested collecting (by rw [opened.lines]; simpa [maxBlockLines])
  rw [opened.nesting,opened.collecting,Nat.zero_add] at nesting
  obtain ⟨_,comment,quiet⟩ := block_end_plain closes
  have last : isEnd t closer = true ↔ others kind body = 0 := by
    rw [isEnd,raisedNesting,quiet,nesting,collected.stores.collecting,opened.collecting,closes,comment]
    simp
  rw [← others_zero,← last]
  constructor
  · rintro ⟨u,collected',ending⟩
    rwa [collected.unique collected']
  · intro ending
    exact ⟨t,collected,ending⟩

end

def ifOpened : Session Unit := {shellStart () with blockHeader := bytes "if", collectingBlock := 1}

theorem ifOpened_typed :
    (typeLine (processCommand noDisk 0 1) (shellStart ()) (bytes "if 1 = 1")).map (fun r => r.2.1) = some ifOpened := rfl

theorem ends_at_its_keyword_iff_inner_if :
    EndsAt (processCommand noDisk 0 1) ifOpened [bytes "if 2 = 2",bytes "endif"] (bytes "endif") ↔
      ∀ input ∈ [bytes "if 2 = 2",bytes "endif"], blockKind (trimLeft input) ≠ 0 → blockKind (trimLeft input) = 1 :=
  ends_at_its_keyword_iff ⟨rfl,rfl,rfl⟩
    (.block rfl (by decide) .nil (by decide) .nil : Nested (bytes "if 2 = 2"::[] ++ bytes "endif"::[])) (by decide) (by decide)

theorem inner_for_hides_endif :
    ∃ body, Opened 1 ifOpened ∧ Nested body ∧ body.length ≤ 8 ∧ endKeyword 1 (trimLeft (bytes "endif")) = true ∧
      ¬ EndsAt (processCommand noDisk 0 1) ifOpened body (bytes "endif") := by
  refine ⟨[bytes "for 1 to 2",bytes "endfor"],⟨rfl,rfl,rfl⟩,?_,by decide,by decide,?_⟩
  · exact (.block rfl (by decide) .nil (by decide) .nil : Nested (bytes "for 1 to 2"::[] ++ bytes "endfor"::[]))
  · rintro ⟨t,collected,ending⟩
    have stored : Collected (processCommand noDisk 0 1) ifOpened [bytes "for 1 to 2",bytes "endfor"]
        {ifOpened with blockLines := [bytes "for 1 to 2",bytes "endfor"], blockNesting := 1} :=
      .cons (by decide) rfl rfl (.cons (by decide) rfl rfl .nil)
    rw [collected.unique stored] at ending
    revert ending
    decide

end SantOS.Shell
