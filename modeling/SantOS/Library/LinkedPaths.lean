import Mathlib.Data.List.Nodup
import Mathlib.Logic.Function.Basic

namespace LinkedPaths

-- Path next stop x xs: following next from x visits exactly xs and then reaches
-- a stopping element. A cyclic link structure has no path at all.
inductive Path {α : Type} (next : α → α) (stop : α → Prop) : α → List α → Prop where
  | nil (done : stop x) : Path next stop x []
  | cons (more : ¬ stop x) (rest : Path next stop (next x) xs) : Path next stop x (x::xs)

variable {α : Type} {next next' : α → α} {stop : α → Prop} {x y : α} {xs ys pre post : List α}

theorem Path.unique (one : Path next stop x xs) (two : Path next stop x ys) : xs = ys := by
  induction one generalizing ys with
  | nil done =>
    cases two with
    | nil => rfl
    | cons more => exact absurd done more
  | cons more rest ih =>
    cases two with
    | nil done => exact absurd done more
    | cons _ other => rw [ih other]

theorem Path.running (path : Path next stop x xs) (member : y ∈ xs) : ¬ stop y := by
  induction path with
  | nil => cases member
  | cons more rest ih =>
    rcases List.mem_cons.mp member with rfl | later
    · exact more
    · exact ih later

theorem Path.head (path : Path next stop x (y::ys)) : y = x := by cases path; rfl

theorem Path.tail (path : Path next stop x (y::ys)) : Path next stop (next y) ys := by
  cases path with
  | cons _ rest => exact rest

theorem Path.nil_iff : Path next stop x [] ↔ stop x := by
  constructor
  · intro path; cases path with | nil done => exact done
  · exact .nil

theorem Path.congr (path : Path next stop x xs) (same : ∀ z ∈ xs, next' z = next z) :
    Path next' stop x xs := by
  induction path with
  | nil done => exact .nil done
  | @cons z zs more rest ih =>
    refine .cons more ?_
    rw [same z (List.mem_cons_self ..)]
    exact ih (fun w member => same w (List.mem_cons_of_mem _ member))

theorem Path.suffix (path : Path next stop x (pre ++ y::post)) : Path next stop y (y::post) := by
  induction pre generalizing x with
  | nil =>
    have start : y = x := path.head
    exact start ▸ path
  | cons p pre ih => exact ih path.tail

theorem Path.nodup (path : Path next stop x xs) : xs.Nodup := by
  induction path with
  | nil => exact List.nodup_nil
  | @cons z zs more rest ih =>
    refine List.nodup_cons.mpr ⟨?_,ih⟩
    intro again
    -- z starts both z::zs and a shorter suffix of zs, against uniqueness
    obtain ⟨before,after,split⟩ := List.append_of_mem again
    have whole : Path next stop z (z::zs) := .cons more rest
    have shorter : Path next stop z (z::after) := by rw [split] at rest; exact rest.suffix
    have equal := congrArg List.length (whole.unique shorter)
    rw [split] at equal
    simp only [List.length_cons,List.length_append] at equal
    omega

theorem Path.relink (path : Path next stop x (pre ++ y::post)) (same : ∀ z ∈ pre, next' z = next z)
    (fresh : Path next' stop y ys) : Path next' stop x (pre ++ ys) := by
  induction pre generalizing x with
  | nil =>
    have start : y = x := path.head
    exact start ▸ fresh
  | cons p pre ih =>
    have start : p = x := path.head
    have more : ¬ stop p := path.running (List.mem_cons_self ..)
    subst start
    refine .cons more ?_
    rw [same p (List.mem_cons_self ..)]
    exact ih path.tail (fun z member => same z (List.mem_cons_of_mem _ member))

theorem Path.unlink {p : α} (path : Path next stop x (pre ++ p::y::post)) (same : ∀ z ∈ pre ++ post, next' z = next z)
    (link : next' p = next y) : Path next' stop x (pre ++ p::post) := by
  have more : ¬ stop p := path.running (by simp)
  have after : Path next stop (next y) post := path.suffix.tail.tail
  refine path.relink (fun z member => same z (List.mem_append_left _ member)) (.cons more ?_)
  rw [link]
  exact after.congr (fun z member => same z (List.mem_append_right _ member))

end LinkedPaths
