import SantOS.Vmm.Tables

namespace SantOS.Vmm
open ByteMemory RadixTrees

theorem entryAt_some {s : Paging} (found : s.tableAt path = some t) (i : Fin 512) :
    s.entryAt (i::path) = some (s.entry t i) := by
  rw [Paging.tableAt] at found
  rw [Paging.entryAt,RadixTrees.entryAt,found]
  rfl

theorem entryAt_none {s : Paging} (missing : s.tableAt path = none) (i : Fin 512) : s.entryAt (i::path) = none := by
  rw [Paging.tableAt] at missing
  rw [Paging.entryAt,RadixTrees.entryAt,missing]
  rfl

theorem tableAt_none {s : Paging} (missing : s.tableAt path = none) (i : Fin 512) : s.tableAt (i::path) = none := by
  rw [Paging.tableAt] at missing
  rw [Paging.tableAt,RadixTrees.tableAt,missing]
  rfl

theorem tableAt_child {s : Paging} (found : s.tableAt path = some t) (i : Fin 512) :
    s.tableAt (i::path) = follow path.length (s.entry t i) := by
  rw [Paging.tableAt] at found
  rw [Paging.tableAt,RadixTrees.tableAt,found]
  rfl

theorem follow_some {e d : Nat} (short : d < 3) (present : e &&& pagePresent ≠ 0) (small : d = 2 → e &&& pageHuge = 0) :
    follow d e = some (e &&& pteAddrMask) :=
  if_pos ⟨short,present,fun huge => huge.2 (small huge.1)⟩

theorem follow_none {e : Nat} (absent : e &&& pagePresent = 0) (d : Nat) : follow d e = none :=
  if_neg (fun present => present.2.1 absent)

theorem hugeEntry_of {s : Paging} (found : s.tableAt [pdptSlot v,pml4Slot v] = some pd) :
    hugeEntry s v = if s.entry pd (pdSlot v) &&& pageHuge ≠ 0 then some (s.entry pd (pdSlot v)) else none := by
  rw [hugeEntry,directoryPath,entryAt_some found,Option.filter_some]
  simp only [decide_eq_true_eq]

theorem pageEntry_of {s : Paging} (found : s.tableAt (directoryPath v) = some pt) :
    pageEntry s v = if s.entry pt (ptSlot v) &&& pagePresent ≠ 0 then some (s.entry pt (ptSlot v)) else none := by
  rw [pageEntry,pagePath,entryAt_some found,Option.filter_some]
  simp only [decide_eq_true_eq]

theorem pageEntry_none {s : Paging} (missing : s.tableAt (directoryPath v) = none) : pageEntry s v = none := by
  rw [pageEntry,pagePath,entryAt_none missing]; rfl

theorem hugeEntry_none {s : Paging} (missing : s.tableAt [pdptSlot v,pml4Slot v] = none) : hugeEntry s v = none := by
  rw [hugeEntry,directoryPath,entryAt_none missing]; rfl

theorem translation_none {s : Paging} (missing : s.tableAt [pdptSlot v,pml4Slot v] = none) :
    translation s v = none := by
  rw [translation,hugeEntry_none missing,pageEntry_none (tableAt_none missing _)]
  rfl

theorem vmmGetPhysical_eq (s : Paging) (v : Nat) : vmmGetPhysical s v = (translation s v).getD 0 := by
  have low21 : v &&& 0x1FFFFF = v % 2^21 := Nat.and_two_pow_sub_one_eq_mod v 21
  have low12 : v &&& 0xFFF = v % 4096 := Nat.and_two_pow_sub_one_eq_mod v 12
  have root : s.tableAt [] = some s.pml4 := rfl
  rw [vmmGetPhysical]
  simp only [pml4Slot_val,pdptSlot_val,pdSlot_val,ptSlot_val,low21,low12]
  by_cases first : s.entry s.pml4 (pml4Slot v) &&& pagePresent = 0
  · have closed : s.tableAt [pml4Slot v] = none := (tableAt_child root _).trans (follow_none first 0)
    rw [if_pos first,translation_none (tableAt_none closed _)]
    rfl
  rw [if_neg first]
  have atPdpt : s.tableAt [pml4Slot v] = some (s.entry s.pml4 (pml4Slot v) &&& pteAddrMask) :=
    (tableAt_child root _).trans (follow_some (by decide) first (fun no => by cases no))
  generalize s.entry s.pml4 (pml4Slot v) &&& pteAddrMask = pdpt at atPdpt ⊢
  by_cases second : s.entry pdpt (pdptSlot v) &&& pagePresent = 0
  · have closed : s.tableAt [pdptSlot v,pml4Slot v] = none := (tableAt_child atPdpt _).trans (follow_none second 1)
    rw [if_pos second,translation_none closed]
    rfl
  rw [if_neg second]
  have atPd : s.tableAt [pdptSlot v,pml4Slot v] = some (s.entry pdpt (pdptSlot v) &&& pteAddrMask) :=
    (tableAt_child atPdpt _).trans (follow_some (by decide : 1 < 3) second (fun no => by cases no))
  generalize s.entry pdpt (pdptSlot v) &&& pteAddrMask = pd at atPd ⊢
  rw [translation,hugeEntry_of atPd]
  by_cases huge : s.entry pd (pdSlot v) &&& pageHuge ≠ 0
  · rw [if_pos huge,if_pos huge]
    rfl
  rw [if_neg huge,if_neg huge]
  by_cases third : s.entry pd (pdSlot v) &&& pagePresent = 0
  · have closed : s.tableAt (directoryPath v) = none := (tableAt_child atPd _).trans (follow_none third 2)
    rw [if_pos third]
    simp only [pageEntry_none closed]
    rfl
  rw [if_neg third]
  have atPt : s.tableAt (directoryPath v) = some (s.entry pd (pdSlot v) &&& pteAddrMask) :=
    (tableAt_child atPd _).trans (follow_some (by decide : 2 < 3) third (fun _ => not_not.mp huge))
  generalize s.entry pd (pdSlot v) &&& pteAddrMask = pt at atPt ⊢
  rw [pageEntry_of atPt]
  by_cases fourth : s.entry pt (ptSlot v) &&& pagePresent = 0
  · rw [if_pos fourth,if_neg (not_not.mpr fourth)]
    rfl
  · rw [if_neg fourth,if_pos fourth]
    rfl

-- The pages the coming allocations return are tables of no tree: not of this one, and
-- not those of the calls before, which may have become tables.
structure Supplied (s : Paging) : Prop where
  pages : ∀ page ∈ s.pages, page ≠ 0 → page % 4096 = 0 ∧ page < 2^32 ∧ ∀ path, s.tableAt path ≠ some page
  distinct : s.pages.Pairwise (fun a b => a ≠ 0 → a ≠ b)

-- A step that changes the tree but no translation: what was a table is one still, and new
-- tables are not at address 0.
structure Grows (s t : Paging) : Prop where
  tree : TableTree t
  supplied : Supplied t
  same : ∀ v, translation t v = translation s v
  kept : ∀ path u, s.tableAt path = some u → t.tableAt path = some u
  fresh : ∀ path u, t.tableAt path = some u → s.tableAt path = some u ∨ u ≠ 0

theorem Grows.trans (one : Grows s t) (two : Grows t u) : Grows s u := by
  refine ⟨two.tree,two.supplied,fun v => (two.same v).trans (one.same v),?_,?_⟩
  · intro path table found
    exact two.kept path table (one.kept path table found)
  · intro path table found
    rcases two.fresh path table found with old | nonzero
    · exact one.fresh path table old
    · exact .inr nonzero

theorem Grows.page_tree (grows : Grows s t) (tree : PageTree s) : PageTree t := by
  refine ⟨grows.tree.single,grows.tree.root,?_⟩
  intro i path null
  rcases grows.fresh _ _ null with old | nonzero
  · exact tree.nonnull i path old
  · exact nonzero rfl

theorem Grows.keep {s t : Paging} (tree : TableTree s) (memory : t.memory = s.memory) (root : t.pml4 = s.pml4)
    (supplied : Supplied t) : Grows s t := by
  obtain ⟨m,p,pages,console⟩ := s
  obtain ⟨m',p',pages',console'⟩ := t
  cases memory
  cases root
  exact ⟨⟨tree.single,tree.root⟩,supplied,fun _ => rfl,fun _ _ found => found,fun _ _ found => .inl found⟩

theorem Grows.printf (grows : Grows s t) (format : String) (args : List Nat) : Grows s (t.printf format args) :=
  grows.trans (.keep grows.tree rfl rfl ⟨grows.supplied.pages,grows.supplied.distinct⟩)

def Paging.link (s : Paging) (n parent i : Nat) (pages : List Nat) : Paging :=
  {s with
    memory := store (setBytes s.memory n 0 pageSize) (parent + i*8) 8 (n ||| pagePresent ||| pageWrite)
    pages := pages}

section Linking
variable {s : Paging} {n parent : Nat} {path : List (Fin 512)} {pages : List Nat}

theorem link_entries (tree : TableTree s) (found : s.tableAt path = some parent) (i : Fin 512) (pages : List Nat)
    (aligned : n % 4096 = 0) (word : n < 2^32) (fresh : ∀ q, s.tableAt q ≠ some n) :
    (∀ j, entries (s.link n parent i pages).memory n j = 0) ∧
    entries (s.link n parent i pages).memory parent i = (n ||| pagePresent ||| pageWrite) ∧
    EditedAt follow (entries s.memory) (entries (s.link n parent i pages).memory) s.pml4 parent i := by
  have here := tableAt_aligned tree.root found
  have apart : n ≠ parent := fun same => fresh path (by rw [same]; exact found)
  refine ⟨?_,(entries_stored ..).trans (Nat.mod_eq_of_lt (link_entry aligned word).2.2.2),?_⟩
  · intro j
    rw [Paging.link,entries_store here aligned (.inl apart),entries_zeroed]
  · intro q u j reached other
    have unlike : u ≠ n := fun same => fresh q (by rw [← same]; exact reached)
    rw [Paging.link,entries_store here (tableAt_aligned tree.root reached) other,
      entries_zeroed_other aligned (tableAt_aligned tree.root reached) unlike]

theorem link_linked (tree : TableTree s) (found : s.tableAt path = some parent) (i : Fin 512) (pages : List Nat)
    (short : path.length < 3) (absent : s.entry parent i &&& pagePresent = 0) (aligned : n % 4096 = 0)
    (word : n < 2^32) (fresh : ∀ q, s.tableAt q ≠ some n) :
    Linked follow (entries s.memory) (entries (s.link n parent i pages).memory) s.pml4 parent n i path := by
  obtain ⟨zeros,stored,edited⟩ := link_entries tree found i pages aligned word fresh
  obtain ⟨target,present,small,_⟩ := link_entry aligned word
  refine ⟨edited,fresh,follow_none absent _,?_,?_⟩
  · rw [stored,follow_some short present (fun _ => small),target]
  · intro d j
    rw [zeros j]
    exact follow_none rfl d

theorem link_tables (tree : TableTree s) (found : s.tableAt path = some parent) (i : Fin 512)
    (linked : Linked follow (entries s.memory) (entries (s.link n parent i pages).memory) s.pml4 parent n i path)
    (reached : (s.link n parent i pages).tableAt q = some u) : u = n ∨ s.tableAt q = some u := by
  by_cases inside : (i::path) <:+ q
  · by_cases same : q = i::path
    · have target := linked.reaches tree.single found
      rw [← same] at target
      exact .inl (Option.some.inj (reached.symm.trans target))
    · have missing := linked.below tree.single found inside same
      exact absurd (missing.symm.trans reached) (by simp)
  · have kept := tableAt_edit tree.single found linked.edited inside
    exact .inr (kept.symm.trans reached)

theorem link_grows (tree : TableTree s) (supplied : Supplied s) (listed : s.pages = n::pages) (positive : n ≠ 0)
    (found : s.tableAt path = some parent) (i : Fin 512) (short : path.length < 3)
    (absent : s.entry parent i &&& pagePresent = 0) (small : path.length = 2 → s.entry parent i &&& pageHuge = 0) :
    Grows s (s.link n parent i pages) ∧ (s.link n parent i pages).tableAt (i::path) = some n := by
  obtain ⟨aligned,word,fresh⟩ := supplied.pages n (by rw [listed]; exact List.mem_cons_self ..) positive
  have linked := link_linked tree found i pages short absent aligned word fresh
  obtain ⟨zeros,stored,_⟩ := link_entries tree found i pages aligned word fresh
  have ordered := supplied.distinct
  rw [listed,List.pairwise_cons] at ordered
  refine ⟨⟨⟨linked.tree tree.single found,tree.root⟩,⟨?_,ordered.2⟩,?_,?_,?_⟩,linked.reaches tree.single found⟩
  · intro page later nonzero
    obtain ⟨pageAligned,pageWord,pageFresh⟩ :=
      supplied.pages page (by rw [listed]; exact List.mem_cons_of_mem _ later) nonzero
    refine ⟨pageAligned,pageWord,?_⟩
    intro q reached
    rcases link_tables tree found i linked reached with equal | old
    · exact ordered.1 page later positive equal.symm
    · exact pageFresh q old
  · intro v
    -- the new entry is no huge entry, and it stands above the page tables
    have huge : hugeEntry (s.link n parent i pages) v = hugeEntry s v := by
      refine linked.filtered tree.single found _ (fun j => by rw [zeros j]; rfl) ?_
      intro same
      have depth : path.length = 2 := by
        have lengths := congrArg List.length same
        simpa [directoryPath] using lengths.symm
      exact ⟨decide_eq_false (not_not.mpr (small depth)),
        by rw [stored]; exact decide_eq_false (not_not.mpr (link_entry aligned word).2.2.1)⟩
    have page : pageEntry (s.link n parent i pages) v = pageEntry s v := by
      refine linked.filtered tree.single found _ (fun j => by rw [zeros j]; rfl) ?_
      intro same
      have lengths := congrArg List.length same
      simp only [pagePath,directoryPath,List.length_cons,List.length_nil] at lengths
      omega
    rw [translation,translation,huge,page]
  · intro q u old
    have outside : ¬ (i::path) <:+ q := by
      intro inside
      have missing := tableAt_below (linked.was_closed found) inside
      exact absurd (missing.symm.trans old) (by simp)
    exact (tableAt_edit tree.single found linked.edited outside).trans old
  · intro q u reached
    rcases link_tables tree found i linked reached with rfl | old
    · exact .inr positive
    · exact .inl old

end Linking

-- A present entry is followed, an absent one gets a fresh table or, where none is left,
-- the result is 0.
theorem get_or_create_spec {s : Paging} (tree : TableTree s) (supplied : Supplied s)
    (found : s.tableAt path = some parent) (i : Fin 512) (short : path.length < 3)
    (small : path.length = 2 → s.entry parent i &&& pageHuge = 0) :
    ∃ r t, getOrCreateTable s parent i true = (r,t) ∧ Grows s t ∧ (r ≠ 0 → t.tableAt (i::path) = some r) := by
  by_cases absent : s.entry parent i &&& pagePresent = 0
  · cases listed : s.pages with
    | nil =>
      refine ⟨0,s,?_,.keep tree rfl rfl supplied,fun no => absurd rfl no⟩
      simp [getOrCreateTable,allocPageTable,pmemAllocPage,absent,listed]
    | cons n rest =>
      by_cases zero : n = 0
      · refine ⟨0,{s with pages := rest},?_,.keep tree rfl rfl ⟨?_,?_⟩,fun no => absurd rfl no⟩
        · simp [getOrCreateTable,allocPageTable,pmemAllocPage,absent,listed,zero]
        · intro page later
          exact supplied.pages page (by rw [listed]; exact List.mem_cons_of_mem _ later)
        · have ordered := supplied.distinct
          rw [listed,List.pairwise_cons] at ordered
          exact ordered.2
      · obtain ⟨grown,reached⟩ := link_grows tree supplied listed zero found i short absent small
        refine ⟨n,s.link n parent i rest,?_,grown,fun _ => reached⟩
        simp [getOrCreateTable,allocPageTable,pmemAllocPage,absent,listed,zero,Paging.link,Paging.setEntry]
  · refine ⟨s.entry parent i &&& pteAddrMask,s,?_,.keep tree rfl rfl supplied,fun _ => ?_⟩
    · rw [getOrCreateTable,if_pos absent]
    · rw [tableAt_child found i]
      exact follow_some short absent small

theorem get_table_spec {s : Paging} (tree : PageTree s) (found : s.tableAt path = some parent) (i : Fin 512)
    (short : path.length < 3) (small : path.length = 2 → s.entry parent i &&& pageHuge = 0) :
    (getOrCreateTable s parent i false = (0,s) ∧ s.tableAt (i::path) = none) ∨
    ∃ child, child ≠ 0 ∧ getOrCreateTable s parent i false = (child,s) ∧ s.tableAt (i::path) = some child := by
  by_cases absent : s.entry parent i &&& pagePresent = 0
  · refine .inl ⟨?_,(tableAt_child found i).trans (follow_none absent _)⟩
    rw [getOrCreateTable,if_neg (not_not.mpr absent),if_pos rfl]
  · have child := (tableAt_child found i).trans (follow_some short absent small)
    refine .inr ⟨s.entry parent i &&& pteAddrMask,?_,?_,child⟩
    · intro zero
      rw [zero] at child
      exact tree.nonnull i path child
    · rw [getOrCreateTable,if_pos absent]

-- Writing one page-table entry touches no table, no huge entry and no other page.
structure EntrySet (s t : Paging) (v : Nat) : Prop where
  tree : TableTree t
  tables : ∀ path, t.tableAt path = s.tableAt path
  huge : ∀ w, hugeEntry t w = hugeEntry s w
  others : ∀ w, pageOf w ≠ pageOf v → pageEntry t w = pageEntry s w

theorem setEntry_sets {s : Paging} (tree : TableTree s) (found : s.tableAt (directoryPath v) = some pt) (e : Nat) :
    EntrySet s (s.setEntry pt (ptSlot v) e) v := by
  have here := tableAt_aligned tree.root found
  have edited : EditedAt follow (entries s.memory) (entries (s.setEntry pt (ptSlot v) e).memory) s.pml4 pt
      (ptSlot v) := by
    intro q u j reached other
    exact entries_store here (tableAt_aligned tree.root reached) other
  have leaf : ∀ e, follow (directoryPath v).length e = none := fun e => if_neg (fun deep => Nat.lt_irrefl 3 deep.1)
  have tables := tableAt_leaf tree.single found edited leaf
  refine ⟨⟨?_,tree.root⟩,tables,?_,?_⟩
  · intro p q t one two
    exact tree.single p q t ((tables p).symm.trans one) ((tables q).symm.trans two)
  · intro w
    refine congrArg (Option.filter _) (entryAt_edit tree.single found edited ?_)
    intro inside
    exact absurd inside.length_le (by simp [directoryPath])
  · intro w other
    refine congrArg (Option.filter _) (entryAt_edit tree.single found edited ?_)
    intro inside
    have same : pagePath v = pagePath w := inside.eq_of_length rfl
    exact other ((pagePath_eq_iff v w).mp same).symm

theorem EntrySet.page_tree (set : EntrySet s t v) (tree : PageTree s) : PageTree t := by
  refine ⟨set.tree.single,set.tree.root,?_⟩
  intro j q null
  exact tree.nonnull j q ((set.tables _).symm.trans null)

end SantOS.Vmm
