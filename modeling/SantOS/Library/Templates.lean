import Mathlib.Algebra.Order.Group.Nat
import Mathlib.Algebra.Order.BigOperators.Group.List

namespace Templates

-- A text of plain characters and of names, each behind a mark. A name may be empty.
inductive Chunk (α : Type) where
  | char (c : α)
  | name (name : List α)

section
variable {α β : Type} [DecidableEq α] (mark : α) (isName : α → Bool)

-- name is what was read behind a mark so far.
def chunksFrom (name : Option (List α)) : List α → List (Chunk α)
  | [] => match name with
    | some read => [.name read]
    | none => []
  | c::rest => match name with
    | some read =>
      if isName c then chunksFrom (some (read ++ [c])) rest
      else .name read::(if c = mark then chunksFrom (some []) rest else .char c::chunksFrom none rest)
    | none => if c = mark then chunksFrom (some []) rest else .char c::chunksFrom none rest

def chunks (text : List α) : List (Chunk α) := chunksFrom mark isName none text

def names : List α → List (List α)
  | [] => []
  | c::rest => if c = mark then rest.takeWhile isName::names rest else names rest

theorem names_length (member : n ∈ names mark isName text) : n.length ≤ text.length := by
  induction text with
  | nil => cases member
  | cons c rest ih =>
    rw [names] at member
    split at member
    · rcases List.mem_cons.mp member with here | later
      · rw [here]
        exact (List.takeWhile_prefix isName).length_le.trans (Nat.le_succ _)
      · exact (ih later).trans (Nat.le_succ _)
    · exact (ih member).trans (Nat.le_succ _)

theorem chunksFrom_length (name : Option (List α)) (text : List α) :
    (chunksFrom mark isName name text).length ≤ text.length + (if name.isSome then 1 else 0) := by
  induction text generalizing name with
  | nil => cases name <;> simp [chunksFrom]
  | cons c rest ih =>
    have reading := fun read => ih (some read)
    have plain := ih none
    simp only [Option.isSome_some,if_true,Option.isSome_none,Bool.false_eq_true,if_false] at reading plain
    cases name with
    | none =>
      rw [chunksFrom]
      split
      · exact reading []
      · exact Nat.succ_le_succ plain
    | some read =>
      rw [chunksFrom]
      split
      · exact (reading _).trans (Nat.le_succ _)
      · split
        · exact Nat.succ_le_succ (reading [])
        · exact Nat.succ_le_succ (Nat.succ_le_succ plain)

theorem chunks_length (text : List α) : (chunks mark isName text).length ≤ text.length := chunksFrom_length mark isName none text

variable {mark isName}

theorem chunksFrom_stop (stop : ¬isName c = true) (read rest : List α) :
    chunksFrom mark isName (some read) (c::rest) = .name read::chunksFrom mark isName none (c::rest) := by
  rw [chunksFrom,if_neg stop]
  rfl

theorem chunks_plain (plain : mark ∉ before) (text : List α) :
    chunks mark isName (before ++ text) = before.map .char ++ chunks mark isName text := by
  induction before with
  | nil => rfl
  | cons c before ih =>
    have other : c ≠ mark := fun same => plain (same ▸ List.mem_cons_self)
    have rest := ih fun member => plain (List.mem_cons_of_mem _ member)
    unfold chunks at rest ⊢
    rw [List.cons_append,chunksFrom,if_neg other,rest]
    rfl

theorem mem_chunksFrom (other : isName mark = false) (text : List α) :
    (∀ read n, .name n ∈ chunksFrom mark isName (some read) text ↔ n = read ++ text.takeWhile isName ∨ n ∈ names mark isName text) ∧
      ∀ n, .name n ∈ chunksFrom mark isName none text ↔ n ∈ names mark isName text := by
  induction text with
  | nil => simp [chunksFrom,names]
  | cons c rest ih =>
    obtain ⟨reading,plain⟩ := ih
    have plainChar : ∀ n, .name n ∈ chunksFrom mark isName none (c::rest) ↔ n ∈ names mark isName (c::rest) := by
      intro n
      rw [chunksFrom,names]
      split
      · rw [reading,List.nil_append,List.mem_cons]
      · simp [plain]
    refine ⟨?_,plainChar⟩
    intro read n
    by_cases inside : isName c = true
    · have noMark : c ≠ mark := by
        rintro rfl
        rw [other] at inside
        cases inside
      rw [chunksFrom,if_pos inside,reading,names,if_neg noMark,List.takeWhile_cons_of_pos inside,List.append_assoc]
      rfl
    · rw [chunksFrom_stop inside,List.mem_cons,plainChar,List.takeWhile_cons_of_neg inside,List.append_nil,Chunk.name.injEq]

theorem name_mem_chunks (other : isName mark = false) : .name n ∈ chunks mark isName text ↔ n ∈ names mark isName text :=
  (mem_chunksFrom other text).2 n

end

section
variable {α β : Type}

def expand (meaning : Chunk α → List β) (parts : List (Chunk α)) : List β := parts.flatMap meaning

variable {f g : Chunk α → List β} {parts : List (Chunk α)}

theorem expand_congr (same : ∀ part ∈ parts, f part = g part) : expand f parts = expand g parts := by
  induction parts with
  | nil => rfl
  | cons part parts ih =>
    have rest := ih fun other member => same other (List.mem_cons_of_mem _ member)
    unfold expand at rest ⊢
    rw [List.flatMap_cons,List.flatMap_cons,same part List.mem_cons_self,rest]

theorem expand_length_lt (le : ∀ part ∈ parts, (f part).length ≤ (g part).length)
    (lt : ∃ part ∈ parts, (f part).length < (g part).length) :
    (expand f parts).length < (expand g parts).length := by
  rw [expand,expand,List.length_flatMap,List.length_flatMap]
  exact List.sum_lt_sum _ _ le lt

theorem expand_length_le (short : ∀ part ∈ parts, (f part).length ≤ 1) : (expand f parts).length ≤ parts.length := by
  induction parts with
  | nil => exact Nat.le_refl _
  | cons part parts ih =>
    have first := short part List.mem_cons_self
    have rest := ih fun other member => short other (List.mem_cons_of_mem _ member)
    unfold expand at rest ⊢
    rw [List.flatMap_cons,List.length_append,List.length_cons]
    omega

end

end Templates
