import Mathlib.Data.List.Basic

namespace Words

-- The longest pieces of a list between breaks, each with the place it starts at.
section
variable {α : Type} (isBreak : α → Bool)

structure Maximal (s : List α) (i : Nat) (word : List α) : Prop where
  nonempty : word ≠ []
  noBreak : ∀ c ∈ word, isBreak c = false
  stands : ∃ before after, s = before ++ (word ++ after) ∧ i = before.length ∧
    (∀ c ∈ before.getLast?, isBreak c = true) ∧ ∀ c ∈ after.head?, isBreak c = true

def closed (start : Nat) (word : List α) : List (Nat × List α) := if word = [] then [] else [(start,word)]

-- word is the piece read so far and start the place of its first element.
def wordsFrom (start : Nat) (word : List α) : List α → List (Nat × List α)
  | [] => closed start word
  | c::s =>
    if isBreak c then closed start word ++ wordsFrom (start + word.length + 1) [] s
    else wordsFrom start (word ++ [c]) s

def words (s : List α) : List (Nat × List α) := wordsFrom isBreak 0 [] s

end

section
variable {α : Type} {isBreak : α → Bool} {word w s : List α}

theorem mem_closed : (i,w) ∈ closed start word ↔ word ≠ [] ∧ i = start ∧ w = word := by
  unfold closed
  split
  · next empty => simp [empty]
  · next some_ => simp [some_]

theorem plain_before {before : List α} (plain : ∀ c ∈ before, isBreak c = false)
    (ends : ∀ c ∈ before.getLast?, isBreak c = true) :
    before = [] := by
  by_contra some_
  have last := ends _ (List.getLast?_eq_some_getLast some_)
  rw [plain _ (List.getLast_mem some_)] at last
  cases last

theorem plain_after {after : List α} (plain : ∀ c ∈ after, isBreak c = false)
    (begins : ∀ c ∈ after.head?, isBreak c = true) :
    after = [] := by
  by_contra some_
  have first := begins _ (List.head?_eq_some_head some_)
  rw [plain _ (List.head_mem some_)] at first
  cases first

theorem maximal_plain (plain : ∀ c ∈ word, isBreak c = false) : Maximal isBreak word i w ↔ word ≠ [] ∧ i = 0 ∧ w = word := by
  constructor
  · rintro ⟨nonempty,_,before,after,rfl,rfl,left,right⟩
    obtain rfl := plain_before (fun c member => plain c (List.mem_append_left _ member)) left
    obtain rfl := plain_after (fun c member => plain c (by simp [member])) right
    simp [nonempty]
  · rintro ⟨some_,rfl,rfl⟩
    exact ⟨some_,plain,[],[],by simp,rfl,by simp,by simp⟩

theorem maximal_cut (plain : ∀ c ∈ word, isBreak c = false) (stop : isBreak c = true) :
    Maximal isBreak (word ++ c::s) i w ↔
      (word ≠ [] ∧ i = 0 ∧ w = word) ∨ ∃ j, i = word.length + 1 + j ∧ Maximal isBreak s j w := by
  have notPlain (member : c ∈ w) (noBreak : ∀ d ∈ w, isBreak d = false) : False := by
    have same := noBreak c member
    rw [stop] at same
    cases same
  constructor
  · rintro ⟨nonempty,noBreak,before,after,split,rfl,left,right⟩
    rcases List.append_eq_append_iff.mp split with ⟨gap,rfl,rest⟩ | ⟨gap,rfl,rest⟩
    · cases gap with
      | nil =>
        cases w with
        | nil => exact absurd rfl nonempty
        | cons d w =>
          cases rest
          exact (notPlain List.mem_cons_self noBreak).elim
      | cons d gap =>
        cases rest
        refine .inr ⟨gap.length,by simp; omega,nonempty,noBreak,gap,after,rfl,rfl,?_,right⟩
        intro d member
        apply left
        cases gap with
        | nil => cases member
        | cons e gap => simpa using member
    · obtain rfl := plain_before (fun c member => plain c (List.mem_append_left _ member)) left
      rw [List.nil_append] at plain ⊢
      rcases List.append_eq_append_iff.mp rest with ⟨more,rfl,behind⟩ | ⟨more,rfl,behind⟩
      · cases more with
        | nil => exact .inl ⟨by simpa using nonempty,rfl,by simp⟩
        | cons d more =>
          have letter := plain d (by simp)
          have stops := right d (by simp [behind])
          rw [letter] at stops
          cases stops
      · cases more with
        | nil => exact .inl ⟨by simpa using nonempty,rfl,by simp⟩
        | cons d more =>
          cases behind
          exact (notPlain (by simp) noBreak).elim
  · rintro (⟨some_,rfl,rfl⟩ | ⟨j,rfl,nonempty,noBreak,before,after,rfl,rfl,left,right⟩)
    · exact ⟨some_,plain,[],c::s,rfl,rfl,by simp,by simpa using stop⟩
    · refine ⟨nonempty,noBreak,word ++ c::before,after,by simp,by simp; omega,?_,right⟩
      intro d member
      cases before with
      | nil =>
        simp at member
        rwa [← member]
      | cons e before => exact left d (by simpa using member)

theorem mem_wordsFrom (plain : ∀ c ∈ word, isBreak c = false) (start : Nat) :
    (i,w) ∈ wordsFrom isBreak start word s ↔ ∃ j, i = start + j ∧ Maximal isBreak (word ++ s) j w := by
  induction s generalizing word start with
  | nil =>
    rw [wordsFrom,mem_closed,List.append_nil]
    simp only [maximal_plain plain]
    constructor
    · rintro ⟨some_,rfl,rfl⟩
      exact ⟨0,rfl,some_,rfl,rfl⟩
    · rintro ⟨_,rfl,some_,rfl,rfl⟩
      exact ⟨some_,rfl,rfl⟩
  | cons c s ih =>
    rw [wordsFrom]
    by_cases stop : isBreak c = true
    · have later := @ih [] (by simp) (start + word.length + 1)
      rw [List.nil_append] at later
      rw [if_pos stop,List.mem_append,mem_closed,later]
      simp only [maximal_cut plain stop]
      constructor
      · rintro (⟨some_,rfl,rfl⟩ | ⟨j,rfl,inside⟩)
        · exact ⟨0,rfl,.inl ⟨some_,rfl,rfl⟩⟩
        · exact ⟨word.length + 1 + j,by omega,.inr ⟨j,rfl,inside⟩⟩
      · rintro ⟨_,rfl,⟨some_,rfl,rfl⟩ | ⟨j,rfl,inside⟩⟩
        · exact .inl ⟨some_,rfl,rfl⟩
        · exact .inr ⟨j,by omega,inside⟩
    · have longer := @ih (word ++ [c]) (by simpa [or_imp,forall_and] using ⟨plain,(Bool.not_eq_true _).mp stop⟩) start
      rw [List.append_assoc] at longer
      rw [if_neg stop]
      exact longer

theorem mem_words : (i,w) ∈ words isBreak s ↔ Maximal isBreak s i w := by
  rw [words,mem_wordsFrom (by simp)]
  constructor
  · rintro ⟨j,rfl,inside⟩
    rwa [Nat.zero_add]
  · intro inside
    exact ⟨i,(Nat.zero_add i).symm,inside⟩

theorem wordsFrom_start (start : Nat) (word s : List α) : ∀ v ∈ wordsFrom isBreak start word s, start ≤ v.1 := by
  induction s generalizing start word with
  | nil =>
    rintro ⟨i,w⟩ member
    exact Nat.le_of_eq (mem_closed.mp member).2.1.symm
  | cons c s ih =>
    rintro ⟨i,w⟩ member
    rw [wordsFrom] at member
    split at member
    · rcases List.mem_append.mp member with first | later
      · exact Nat.le_of_eq (mem_closed.mp first).2.1.symm
      · have behind := ih _ _ _ later
        omega
    · exact ih _ _ _ member

theorem wordsFrom_ordered (start : Nat) (word s : List α) :
    (wordsFrom isBreak start word s).Pairwise (fun v w => v.1 < w.1) := by
  induction s generalizing start word with
  | nil =>
    rw [wordsFrom,closed]
    split
    · exact List.Pairwise.nil
    · exact List.pairwise_singleton ..
  | cons c s ih =>
    rw [wordsFrom]
    split
    · rw [closed]
      split
      · exact ih _ _
      · refine List.pairwise_cons.mpr ⟨?_,ih _ _⟩
        intro v member
        have behind := wordsFrom_start _ _ _ v member
        change start < v.1
        omega
    · exact ih _ _

theorem wordsFrom_gap {gap : List α} (breaks : ∀ c ∈ gap, isBreak c = true) (start : Nat) (s : List α) :
    wordsFrom isBreak start [] (gap ++ s) = wordsFrom isBreak (start + gap.length) [] s := by
  induction gap generalizing start with
  | nil => rfl
  | cons c gap ih =>
    have later := ih (fun d member => breaks d (List.mem_cons_of_mem _ member)) (start + 1)
    rw [List.cons_append,wordsFrom,if_pos (breaks c List.mem_cons_self),List.length_cons,Nat.add_comm gap.length 1,← Nat.add_assoc]
    exact later

theorem wordsFrom_word (plain : ∀ c ∈ w, isBreak c = false) (start : Nat) (word s : List α) :
    wordsFrom isBreak start word (w ++ s) = wordsFrom isBreak start (word ++ w) s := by
  induction w generalizing word with
  | nil => rw [List.nil_append,List.append_nil]
  | cons c w ih =>
    have first : ¬isBreak c = true := by simp [plain c List.mem_cons_self]
    rw [List.cons_append,wordsFrom,if_neg first,ih (fun d member => plain d (List.mem_cons_of_mem _ member)),List.append_assoc]
    rfl

inductive Rest (isBreak : α → Bool) : List α → Prop where
  | blank (gap : List α) (breaks : ∀ c ∈ gap, isBreak c = true) : Rest isBreak gap
  | last (gap w : List α) (breaks : ∀ c ∈ gap, isBreak c = true) (plain : ∀ c ∈ w, isBreak c = false) (some_ : w ≠ []) :
      Rest isBreak (gap ++ w)
  | more (gap w s : List α) (c : α) (breaks : ∀ c ∈ gap, isBreak c = true) (plain : ∀ c ∈ w, isBreak c = false) (some_ : w ≠ [])
      (stop : isBreak c = true) : Rest isBreak (gap ++ (w ++ c::s))

theorem Rest.gap (stop : isBreak c = true) (rest : Rest isBreak s) : Rest isBreak (c::s) := by
  cases rest with
  | blank gap breaks => exact .blank (c::s) (List.forall_mem_cons.mpr ⟨stop,breaks⟩)
  | last gap w breaks plain some_ => exact .last (c::gap) w (List.forall_mem_cons.mpr ⟨stop,breaks⟩) plain some_
  | more gap w s d breaks plain some_ last => exact .more (c::gap) w s d (List.forall_mem_cons.mpr ⟨stop,breaks⟩) plain some_ last

theorem Rest.letter (letter : isBreak c = false) (rest : Rest isBreak s) : Rest isBreak (c::s) := by
  have one : ∀ d ∈ [c], isBreak d = false := by simpa using letter
  cases rest with
  | blank gap breaks =>
    cases s with
    | nil => exact .last [] [c] (by simp) one (by simp)
    | cons d s => exact .more [] [c] s d (by simp) one (by simp) (breaks d List.mem_cons_self)
  | last gap w breaks plain some_ =>
    cases gap with
    | nil => exact .last [] (c::w) (by simp) (List.forall_mem_cons.mpr ⟨letter,plain⟩) (by simp)
    | cons d gap => exact .more [] [c] (gap ++ w) d (by simp) one (by simp) (breaks d List.mem_cons_self)
  | more gap w s e breaks plain some_ stop =>
    cases gap with
    | nil => exact .more [] (c::w) s e (by simp) (List.forall_mem_cons.mpr ⟨letter,plain⟩) (by simp) stop
    | cons d gap => exact .more [] [c] (gap ++ (w ++ e::s)) d (by simp) one (by simp) (breaks d List.mem_cons_self)

theorem rest (isBreak : α → Bool) (s : List α) : Rest isBreak s := by
  induction s with
  | nil => exact .blank [] (by simp)
  | cons c s ih =>
    cases letter : isBreak c with
    | true => exact ih.gap letter
    | false => exact ih.letter letter

end

end Words
