import Mathlib.Data.List.Infix

namespace RadixTrees

-- Trees of tables stored as entries: table t holds at index i the entry entries t i,
-- and follow reads an entry at a depth as the table it refers to, if any. A path lists
-- its indices from the last to the first.
variable {T I E : Type} (follow : Nat → E → Option T)

def tableAt (entries : T → I → E) (root : T) : List I → Option T
  | [] => some root
  | i::path => (tableAt entries root path).bind (fun t => follow path.length (entries t i))

def entryAt (entries : T → I → E) (root : T) : List I → Option E
  | [] => none
  | i::path => (tableAt follow entries root path).map (fun t => entries t i)

-- Every table is referenced by one entry: no two paths reach the same table.
def Tree (entries : T → I → E) (root : T) : Prop :=
  ∀ p q t, tableAt follow entries root p = some t → tableAt follow entries root q = some t → p = q

def EditedAt (entries entries' : T → I → E) (root t : T) (i : I) : Prop :=
  ∀ q u j, tableAt follow entries root q = some u → (u ≠ t ∨ j ≠ i) → entries' u j = entries u j

variable {follow : Nat → E → Option T} {entries entries' : T → I → E} {root t n : T} {i : I} {path : List I}

theorem tableAt_cons (entries : T → I → E) (root : T) (i : I) (path : List I) :
    tableAt follow entries root (i::path) = (entryAt follow entries root (i::path)).bind (follow path.length) := by
  rw [tableAt,entryAt]
  cases tableAt follow entries root path with
  | none => rfl
  | some t => rfl

theorem EditedAt.elsewhere {rest : List I} {u : T} {j : I} (edited : EditedAt follow entries entries' root t i)
    (tree : Tree follow entries root) (found : tableAt follow entries root path = some t)
    (reached : tableAt follow entries root rest = some u) (apart : ¬ (i::path) <:+ (j::rest)) :
    entries' u j = entries u j := by
  refine edited rest u j reached ?_
  by_contra same
  obtain ⟨sameTable,sameIndex⟩ := not_or.mp same
  have sameRest : rest = path := tree rest path u reached (by rw [not_not.mp sameTable]; exact found)
  rw [not_not.mp sameIndex,sameRest] at apart
  exact apart (List.suffix_refl _)

theorem tableAt_edit (tree : Tree follow entries root) (found : tableAt follow entries root path = some t)
    (edited : EditedAt follow entries entries' root t i) (apart : ¬ (i::path) <:+ q) :
    tableAt follow entries' root q = tableAt follow entries root q := by
  induction q with
  | nil => rfl
  | cons j rest ih =>
    have before : ¬ (i::path) <:+ rest := fun inside => apart (inside.trans (List.suffix_cons j rest))
    rw [tableAt,tableAt,ih before]
    cases reached : tableAt follow entries root rest with
    | none => rfl
    | some u =>
      show follow rest.length (entries' u j) = follow rest.length (entries u j)
      rw [edited.elsewhere tree found reached apart]

theorem entryAt_edit (tree : Tree follow entries root) (found : tableAt follow entries root path = some t)
    (edited : EditedAt follow entries entries' root t i) (apart : ¬ (i::path) <:+ q) :
    entryAt follow entries' root q = entryAt follow entries root q := by
  cases q with
  | nil => rfl
  | cons j rest =>
    have before : ¬ (i::path) <:+ rest := fun inside => apart (inside.trans (List.suffix_cons j rest))
    rw [entryAt,entryAt,tableAt_edit tree found edited before]
    cases reached : tableAt follow entries root rest with
    | none => rfl
    | some u =>
      exact congrArg some (edited.elsewhere tree found reached apart)

theorem not_suffix_self (i : I) (path : List I) : ¬ (i::path) <:+ path := by
  intro inside
  have shorter := inside.length_le
  rw [List.length_cons] at shorter
  omega

theorem entryAt_edited (tree : Tree follow entries root) (found : tableAt follow entries root path = some t)
    (edited : EditedAt follow entries entries' root t i) :
    entryAt follow entries' root (i::path) = some (entries' t i) := by
  rw [entryAt,tableAt_edit tree found edited (not_suffix_self i path),found]
  rfl

theorem tableAt_below (closed : tableAt follow entries root path = none) (below : path <:+ q) :
    tableAt follow entries root q = none := by
  induction q with
  | nil =>
    rw [List.suffix_nil] at below
    exact below ▸ closed
  | cons j rest ih =>
    rcases List.suffix_cons_iff.mp below with same | inside
    · exact same ▸ closed
    · rw [tableAt,ih inside]; rfl

-- A fresh table n whose entries all refer to nothing is linked in at an entry that
-- referred to nothing.
structure Linked (follow : Nat → E → Option T) (entries entries' : T → I → E) (root t n : T) (i : I)
    (path : List I) : Prop where
  edited : EditedAt follow entries entries' root t i
  fresh : ∀ q, tableAt follow entries root q ≠ some n
  closed : follow path.length (entries t i) = none
  link : follow path.length (entries' t i) = some n
  blank : ∀ d j, follow d (entries' n j) = none

theorem Linked.was_closed (linked : Linked follow entries entries' root t n i path)
    (found : tableAt follow entries root path = some t) : tableAt follow entries root (i::path) = none := by
  rw [tableAt,found]
  exact linked.closed

theorem Linked.reaches (linked : Linked follow entries entries' root t n i path) (tree : Tree follow entries root)
    (found : tableAt follow entries root path = some t) : tableAt follow entries' root (i::path) = some n := by
  rw [tableAt,tableAt_edit tree found linked.edited (not_suffix_self i path),found]
  exact linked.link

theorem Linked.below (linked : Linked follow entries entries' root t n i path) (tree : Tree follow entries root)
    (found : tableAt follow entries root path = some t) (inside : (i::path) <:+ q) (longer : q ≠ i::path) :
    tableAt follow entries' root q = none := by
  induction q with
  | nil => exact absurd (List.suffix_nil.mp inside) (List.cons_ne_nil _ _)
  | cons j rest ih =>
    rcases List.suffix_cons_iff.mp inside with same | within
    · exact absurd same.symm longer
    · by_cases here : rest = i::path
      · rw [here,tableAt,linked.reaches tree found]
        exact linked.blank _ _
      · rw [tableAt,ih within here]; rfl

theorem Linked.tree (linked : Linked follow entries entries' root t n i path) (tree : Tree follow entries root)
    (found : tableAt follow entries root path = some t) : Tree follow entries' root := by
  have shape : ∀ p u, tableAt follow entries' root p = some u →
      (p = i::path ∧ u = n) ∨ tableAt follow entries root p = some u := by
    intro p u reached
    by_cases inside : (i::path) <:+ p
    · by_cases same : p = i::path
      · rw [same,linked.reaches tree found,Option.some.injEq] at reached
        exact .inl ⟨same,reached.symm⟩
      · rw [linked.below tree found inside same] at reached
        cases reached
    · rw [tableAt_edit tree found linked.edited inside] at reached
      exact .inr reached
  intro p q u first second
  rcases shape p u first with ⟨rfl,rfl⟩ | old
  · rcases shape q _ second with ⟨rfl,_⟩ | other
    · rfl
    · exact absurd other (linked.fresh q)
  · rcases shape q u second with ⟨rfl,rfl⟩ | other
    · exact absurd old (linked.fresh p)
    · exact tree p q u old other

-- Linking a table of blank entries shows through no reading of the entries that
-- overlooks blank ones.
theorem Linked.filtered (linked : Linked follow entries entries' root t n i path) (tree : Tree follow entries root)
    (found : tableAt follow entries root path = some t) (keep : E → Bool)
    (blank : ∀ j, keep (entries' n j) = false)
    (own : q = i::path → keep (entries t i) = false ∧ keep (entries' t i) = false) :
    (entryAt follow entries' root q).filter keep = (entryAt follow entries root q).filter keep := by
  by_cases inside : (i::path) <:+ q
  · by_cases same : q = i::path
    · obtain ⟨before,after⟩ := own same
      have old : entryAt follow entries root (i::path) = some (entries t i) := by rw [entryAt,found]; rfl
      rw [same,entryAt_edited tree found linked.edited,old,Option.filter_some,Option.filter_some,before,after]
      rfl
    · cases q with
      | nil => rfl
      | cons j rest =>
        have within : (i::path) <:+ rest := by
          rcases List.suffix_cons_iff.mp inside with equal | within
          · exact absurd equal.symm same
          · exact within
        rw [entryAt,entryAt,tableAt_below (linked.was_closed found) within]
        by_cases here : rest = i::path
        · rw [here,linked.reaches tree found]
          exact if_neg (by rw [blank j]; decide)
        · rw [linked.below tree found within here]
          rfl
  · rw [entryAt_edit tree found linked.edited inside]

theorem tableAt_leaf (tree : Tree follow entries root) (found : tableAt follow entries root path = some t)
    (edited : EditedAt follow entries entries' root t i) (leaf : ∀ e, follow path.length e = none) (q : List I) :
    tableAt follow entries' root q = tableAt follow entries root q := by
  by_cases inside : (i::path) <:+ q
  · have old : tableAt follow entries root (i::path) = none := by rw [tableAt,found]; exact leaf _
    have new : tableAt follow entries' root (i::path) = none := by
      rw [tableAt,tableAt_edit tree found edited (not_suffix_self i path),found]; exact leaf _
    rw [tableAt_below old inside,tableAt_below new inside]
  · exact tableAt_edit tree found edited inside

end RadixTrees
