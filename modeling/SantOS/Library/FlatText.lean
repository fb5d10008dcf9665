import Mathlib.Data.List.Basic
import Mathlib.Data.List.Flatten

namespace FlatText

structure View (α : Type) where
  text : List α
  offset : Nat

section
variable {α : Type}

def View.insert (v : View α) (x : α) : View α := ⟨v.text.take v.offset ++ x :: v.text.drop v.offset,v.offset + 1⟩

def View.delete (v : View α) : View α := ⟨v.text.take (v.offset - 1) ++ v.text.drop v.offset,v.offset - 1⟩

def around (before after : List α) : View α := ⟨before ++ after,before.length⟩

theorem around_insert (before after : List α) (x : α) : (around before after).insert x = around (before ++ [x]) after := by
  simp [around,View.insert]

theorem around_delete (before after : List α) (x : α) : (around (before ++ [x]) after).delete = around before after := by
  simp [around,View.delete]

def joined (sep : α) (lines : List (List α)) : List α := List.intercalate [sep] lines

def ended (sep : α) (lines : List (List α)) : List α := lines.flatMap (fun l => l ++ [sep])

theorem joined_cons (sep : α) (l : List α) (lines : List (List α)) :
    joined sep (l::lines) = l ++ lines.flatMap (fun m => sep::m) := by
  induction lines generalizing l with
  | nil => simp [joined]
  | cons m lines ih =>
    have next := ih m
    unfold joined at next ⊢
    rw [List.intercalate_cons_cons,next]
    simp

theorem joined_split (sep : α) (pre : List (List α)) (l : List α) (post : List (List α)) :
    joined sep (pre ++ l::post) = ended sep pre ++ l ++ post.flatMap (fun m => sep::m) := by
  induction pre with
  | nil => simp [ended,joined_cons]
  | cons m pre ih =>
    have shape : joined sep (m::(pre ++ l::post)) = m ++ sep :: joined sep (pre ++ l::post) := by
      cases pre with
      | nil => rw [List.nil_append,joined_cons,joined_cons,List.flatMap_cons,List.cons_append]
      | cons n pre => rw [List.cons_append,joined_cons,joined_cons,List.flatMap_cons,List.cons_append]
    rw [List.cons_append,shape,ih]
    simp [ended]

-- The view of lines with the cursor in line l at column c.
def view (sep : α) (pre : List (List α)) (l : List α) (post : List (List α)) (c : Nat) : View α :=
  ⟨joined sep (pre ++ l::post),(ended sep pre).length + c⟩

theorem view_around (sep : α) (pre post : List (List α)) (a b : List α) :
    view sep pre (a ++ b) post a.length = around (ended sep pre ++ a) (b ++ post.flatMap (fun m => sep::m)) := by
  unfold view around
  rw [joined_split,List.length_append]
  congr 1
  simp

theorem view_insert (sep : α) {pre post : List (List α)} {a b : List α} (x : α) :
    view sep pre (a ++ x::b) post (a.length + 1) = (view sep pre (a ++ b) post a.length).insert x := by
  have after := view_around sep pre post (a ++ [x]) b
  rw [List.length_append,List.append_assoc,← List.append_assoc (ended sep pre)] at after
  rw [view_around,around_insert]
  exact after

theorem view_split (sep : α) {pre post : List (List α)} {a b : List α} :
    view sep (pre ++ [a]) b post 0 = (view sep pre (a ++ b) post a.length).insert sep := by
  have after := view_around sep (pre ++ [a]) post [] b
  rw [view_around,around_insert]
  refine after.trans ?_
  simp [ended]

theorem view_delete (sep : α) {pre post : List (List α)} {a b : List α} (x : α) :
    view sep pre (a ++ b) post a.length = (view sep pre (a ++ x::b) post (a.length + 1)).delete := by
  have before := view_around sep pre post (a ++ [x]) b
  rw [List.length_append,List.append_assoc,← List.append_assoc (ended sep pre)] at before
  refine Eq.trans ?_ (congrArg View.delete before).symm
  rw [around_delete,view_around]

theorem view_join (sep : α) {pre post : List (List α)} {m l : List α} :
    view sep pre (m ++ l) post m.length = (view sep (pre ++ [m]) l post 0).delete := by
  have before := view_around sep (pre ++ [m]) post [] l
  have ends : ended sep (pre ++ [m]) ++ [] = ended sep pre ++ m ++ [sep] := by simp [ended]
  rw [ends,List.nil_append] at before
  refine Eq.trans ?_ (congrArg View.delete before).symm
  rw [around_delete,view_around]

theorem view_lineEnd (sep : α) {pre post : List (List α)} {m l : List α} :
    view sep pre m (l::post) m.length = ⟨(view sep (pre ++ [m]) l post 0).text,(view sep (pre ++ [m]) l post 0).offset - 1⟩ := by
  simp [view,ended]

theorem view_nextLine (sep : α) (pre post : List (List α)) (m l : List α) :
    view sep (pre ++ [l]) m post 0 = ⟨(view sep pre l (m::post) l.length).text,(view sep pre l (m::post) l.length).offset + 1⟩ := by
  simp [view,ended,Nat.add_assoc]

theorem view_text_line (sep : α) {pre post : List (List α)} {m l : List α} {c d : Nat} :
    (view sep pre m (l::post) c).text = (view sep (pre ++ [m]) l post d).text := by
  simp [view]

theorem view_end (sep : α) {pre : List (List α)} {l : List α} :
    (view sep pre l [] l.length).text.length = (view sep pre l [] l.length).offset := by
  simp [view,joined_split]

theorem view_offset_le (sep : α) {pre post : List (List α)} {l : List α} {c : Nat} (le : c ≤ l.length) :
    (view sep pre l post c).offset ≤ (view sep pre l post c).text.length := by
  simp only [view,joined_split,List.length_append]
  omega

theorem split_ended [BEq α] [LawfulBEq α] (sep : α) (text : List α) : ∃ pieces last,
    text = ended sep pieces ++ last ∧ text.splitOn sep = pieces ++ [last] ∧ (∀ l ∈ pieces, sep ∉ l) ∧ sep ∉ last := by
  induction text with
  | nil => exact ⟨[],[],rfl,rfl,nofun,nofun⟩
  | cons c rest ih =>
    obtain ⟨pieces,last,same,split_,free,freeLast⟩ := ih
    rw [List.splitOn_cons_eq_if_modifyHead,split_]
    by_cases break_ : c = sep
    · refine ⟨[]::pieces,last,?_,if_pos (beq_iff_eq.mpr break_),?_,freeLast⟩
      · rw [same,break_]
        rfl
      · intro l member
        rcases List.mem_cons.mp member with rfl | other
        · exact List.not_mem_nil
        · exact free l other
    · rw [if_neg (mt beq_iff_eq.mp break_)]
      have freeCons {l : List α} (freeL : sep ∉ l) : sep ∉ c::l := fun member =>
        (List.mem_cons.mp member).elim (fun same => break_ same.symm) freeL
      cases pieces with
      | nil => exact ⟨[],c::last,congrArg (c::·) same,rfl,nofun,freeCons freeLast⟩
      | cons l pieces =>
        refine ⟨(c::l)::pieces,last,congrArg (c::·) same,rfl,?_,freeLast⟩
        intro m member
        rcases List.mem_cons.mp member with rfl | other
        · exact freeCons (free l List.mem_cons_self)
        · exact free m (List.mem_cons_of_mem _ other)

end

end FlatText
