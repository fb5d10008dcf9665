import Mathlib.Tactic.IntervalCases
import SantOS.Vmm.Mapping

namespace SantOS.Vmm
open ByteMemory RadixTrees

theorem no_huge_above {s : Paging} (found : s.tableAt (directoryPath v) = some pt) : hugeEntry s v = none := by
  rw [Paging.tableAt,directoryPath,RadixTrees.tableAt_cons] at found
  obtain ⟨e,entry,followed⟩ := Option.bind_eq_some_iff.mp found
  have small : ¬ e &&& pageHuge ≠ 0 := by
    intro huge
    rw [follow,if_neg (fun opened => opened.2.2 ⟨rfl,huge⟩)] at followed
    cases followed
  have read : s.entryAt (directoryPath v) = some e := entry
  rw [hugeEntry,read,Option.filter_some]
  exact if_neg (by rw [decide_eq_false small]; decide)

theorem translation_above {s : Paging} (found : s.tableAt (directoryPath v) = some pt) :
    translation s v = (pageEntry s v).map (fun e => (e &&& pteAddrMask) + v % 4096) := by
  rw [translation,no_huge_above found]

theorem directoryPath_congr (same : pageOf v = pageOf w) : directoryPath v = directoryPath w :=
  congrArg List.tail ((pagePath_eq_iff v w).mpr same)

theorem pageEntry_congr (s : Paging) (same : pageOf v = pageOf w) : pageEntry s v = pageEntry s w := by
  rw [pageEntry,pageEntry,(pagePath_eq_iff v w).mpr same]

theorem EntrySet.translation (set : EntrySet s t v) (other : pageOf w ≠ pageOf v) : translation t w = translation s w := by
  rw [Vmm.translation,Vmm.translation,set.huge w,set.others w other]

theorem translation_written {s : Paging} (tree : TableTree s) (found : s.tableAt (directoryPath virt) = some pt)
    (e : Nat) (same : pageOf v = pageOf virt) :
    translation (s.setEntry pt (ptSlot virt) e) v =
      if e % 2^64 &&& pagePresent ≠ 0 then some ((e % 2^64 &&& pteAddrMask) + v % 4096) else none := by
  have kept := setEntry_sets tree found e
  have foundV : (s.setEntry pt (ptSlot virt) e).tableAt (directoryPath v) = some pt := by
    rw [kept.tables,directoryPath_congr same]; exact found
  have index : ptSlot v = ptSlot virt := (List.cons.inj ((pagePath_eq_iff v virt).mpr same)).1
  have entry : (s.setEntry pt (ptSlot virt) e).entry pt (ptSlot v) = e % 2^64 := by
    rw [index]; exact entries_stored s.memory pt e (ptSlot virt)
  rw [translation_above foundV,pageEntry_of foundV,entry]
  by_cases present : e % 2^64 &&& pagePresent ≠ 0
  · rw [if_pos present,if_pos present]; rfl
  · rw [if_neg present,if_neg present]; rfl

theorem mapped_entry {phys flags : Nat} (outside : flags &&& pteAddrMask = 0) :
    (phys &&& pteAddrMask ||| flags ||| pagePresent) % 2^64 &&& pagePresent ≠ 0 ∧
    (phys &&& pteAddrMask ||| flags ||| pagePresent) % 2^64 &&& pteAddrMask = phys &&& pteAddrMask := by
  constructor
  · rw [present_iff,Nat.testBit_mod_two_pow,Nat.testBit_or]
    simp [pagePresent]
  · have word : ∀ e : Nat, e % 2^64 &&& pteAddrMask = e &&& pteAddrMask := by
      intro e
      rw [mask_eq,mask_eq]
      omega
    have bit : pagePresent &&& pteAddrMask = 0 := by decide
    rw [word,Nat.and_or_distrib_right,Nat.and_or_distrib_right,outside,bit,Nat.and_assoc,Nat.and_self,Nat.or_zero,
      Nat.or_zero]

-- The tables on the way to an address: none of them at 0, which would read as NULL.
structure Walked (s : Paging) (v : Nat) : Prop where
  pdpt : ∃ t, t ≠ 0 ∧ s.tableAt [pml4Slot v] = some t
  pd : ∃ t, t ≠ 0 ∧ s.tableAt [pdptSlot v,pml4Slot v] = some t
  pt : ∃ t, t ≠ 0 ∧ s.tableAt (directoryPath v) = some t

theorem vmmMapPage_grows {s : Paging} (tree : TableTree s) (supplied : Supplied s) (virt phys flags : Nat) :
    (∃ t, Grows s t ∧ vmmMapPage s virt phys flags = (-1,t)) ∨
    ∃ u pt, Grows s u ∧ Walked u virt ∧ u.tableAt (directoryPath virt) = some pt ∧ pageEntry u virt = none ∧
      vmmMapPage s virt phys flags =
        (0,u.setEntry pt (ptSlot virt) (phys &&& pteAddrMask ||| flags ||| pagePresent)) := by
  have root : s.tableAt [] = some s.pml4 := rfl
  obtain ⟨pdpt,s1,one,grows1,at1⟩ := get_or_create_spec tree supplied root (pml4Slot virt) (by decide) (fun no => by cases no)
  rw [vmmMapPage]
  simp only [pml4Slot_val,pdptSlot_val,pdSlot_val,ptSlot_val,one]
  by_cases null1 : pdpt = 0
  · rw [if_pos null1]
    exact .inl ⟨_,grows1.printf _ _,rfl⟩
  rw [if_neg null1]
  obtain ⟨pd,s2,two,grows2,at2⟩ := get_or_create_spec grows1.tree grows1.supplied (at1 null1) (pdptSlot virt)
    (by simp) (fun no => by cases no)
  simp only [two]
  have reached2 := grows1.trans grows2
  by_cases null2 : pd = 0
  · rw [if_pos null2]
    exact .inl ⟨_,reached2.printf _ _,rfl⟩
  rw [if_neg null2]
  by_cases huge : s2.entry pd (pdSlot virt) &&& pageHuge ≠ 0
  · rw [if_pos huge]
    exact .inl ⟨_,reached2.printf _ _,rfl⟩
  rw [if_neg huge]
  obtain ⟨pt,s3,three,grows3,at3⟩ := get_or_create_spec grows2.tree grows2.supplied (at2 null2) (pdSlot virt)
    (by simp) (fun _ => not_not.mp huge)
  simp only [three]
  have reached3 := reached2.trans grows3
  by_cases null3 : pt = 0
  · rw [if_pos null3]
    exact .inl ⟨_,reached3.printf _ _,rfl⟩
  rw [if_neg null3]
  have entry := pageEntry_of (v := virt) (at3 null3)
  by_cases present : s3.entry pt (ptSlot virt) &&& pagePresent ≠ 0
  · rw [if_pos present]
    exact .inl ⟨_,reached3.printf _ _,rfl⟩
  · rw [if_neg present] at entry ⊢
    have walked : Walked s3 virt :=
      ⟨⟨pdpt,null1,(grows2.trans grows3).kept _ _ (at1 null1)⟩,⟨pd,null2,grows3.kept _ _ (at2 null2)⟩,pt,null3,at3 null3⟩
    exact .inr ⟨s3,pt,reached3,walked,at3 null3,entry,rfl⟩

theorem vmmUnmapPage_spec {s : Paging} (tree : PageTree s) (virt : Nat) :
    (vmmUnmapPage s virt = (-1,s) ∧ pageEntry s virt = none) ∨
    ∃ pt, s.tableAt (directoryPath virt) = some pt ∧ pageEntry s virt ≠ none ∧
      vmmUnmapPage s virt = (0,s.setEntry pt (ptSlot virt) 0) := by
  have root : s.tableAt [] = some s.pml4 := rfl
  rw [vmmUnmapPage]
  simp only [pml4Slot_val,pdptSlot_val,pdSlot_val,ptSlot_val]
  rcases get_table_spec tree root (pml4Slot virt) (by decide) (fun no => by cases no) with
    ⟨one,missing⟩ | ⟨pdpt,null1,one,at1⟩
  · rw [one,if_pos rfl]
    exact .inl ⟨rfl,pageEntry_none (tableAt_none (tableAt_none missing _) _)⟩
  simp only [one,if_neg null1]
  rcases get_table_spec tree at1 (pdptSlot virt) (by simp) (fun no => by cases no) with
    ⟨two,missing⟩ | ⟨pd,null2,two,at2⟩
  · rw [two,if_pos rfl]
    exact .inl ⟨rfl,pageEntry_none (tableAt_none missing _)⟩
  simp only [two,if_neg null2]
  by_cases huge : s.entry pd (pdSlot virt) &&& pageHuge ≠ 0
  · rw [if_pos huge]
    refine .inl ⟨rfl,pageEntry_none ((tableAt_child at2 _).trans ?_)⟩
    exact if_neg (fun opened => opened.2.2 ⟨rfl,huge⟩)
  rw [if_neg huge]
  rcases get_table_spec tree at2 (pdSlot virt) (by simp) (fun _ => not_not.mp huge) with
    ⟨three,missing⟩ | ⟨pt,null3,three,at3⟩
  · rw [three,if_pos rfl]
    exact .inl ⟨rfl,pageEntry_none missing⟩
  simp only [three,if_neg null3]
  have entry := pageEntry_of (v := virt) at3
  by_cases absent : s.entry pt (ptSlot virt) &&& pagePresent = 0
  · rw [if_neg (not_not.mpr absent)] at entry
    rw [if_pos absent]
    exact .inl ⟨rfl,entry⟩
  · rw [if_pos absent] at entry
    rw [if_neg absent]
    exact .inr ⟨pt,at3,by rw [entry]; exact Option.some_ne_none _,rfl⟩

theorem map_success {s : Paging} (tree : TableTree s) (supplied : Supplied s) {virt phys flags : Nat}
    (outside : flags &&& pteAddrMask = 0) (succeeded : (vmmMapPage s virt phys flags).1 = 0)
    (same : pageOf v = pageOf virt) :
    translation (vmmMapPage s virt phys flags).2 v = some (phys % 2^52 / 4096 * 4096 + v % 4096) := by
  rcases vmmMapPage_grows tree supplied virt phys flags with ⟨t,_,ran⟩ | ⟨u,pt,grows,_,found,_,ran⟩
  · rw [ran] at succeeded
    cases succeeded
  · obtain ⟨present,address⟩ := mapped_entry outside
    have bits : phys / 4096 % 2^40 * 4096 = phys % 2^52 / 4096 * 4096 := by omega
    rw [ran,translation_written grows.tree found _ same,if_pos present,address,mask_eq,bits]

theorem entries_setEntry {s : Paging} {t u e : Nat} {i : Fin 512} (one : t % 4096 = 0) (two : u % 4096 = 0)
    (word : e < 2^64) (j : Fin 512) :
    entries (s.setEntry t i e).memory u j = if u = t ∧ j = i then e else entries s.memory u j := by
  by_cases same : u = t ∧ j = i
  · rw [if_pos same,same.1,same.2]
    exact (entries_stored ..).trans (Nat.mod_eq_of_lt word)
  · rw [if_neg same]
    exact entries_store one two (by rwa [← not_and_or])

def lowTree (pt : Nat) : Paging :=
  (((Paging.mk (fun _ => 0) 0x1000 [] []).setEntry 0x1000 (0 : Fin 512) 0x2003).setEntry 0x2000 (0 : Fin 512) 0x3003
    |>.setEntry 0x3000 (0 : Fin 512) (pt + 3)).setEntry pt (0 : Fin 512) 0x7003

theorem lowTree_tables {pt : Nat} (place : pt = 0 ∨ pt = 0x4000) (reached : (lowTree pt).tableAt path = some t) :
    path = List.replicate path.length 0 ∧ path.length < 4 ∧ t = [0x1000,0x2000,0x3000,pt].getD path.length 0 := by
  have aligned : pt % 4096 = 0 := by omega
  have word : pt + 3 < 2^64 := by omega
  induction path generalizing t with
  | nil => cases reached; exact ⟨rfl,by decide,rfl⟩
  | cons i path ih =>
    obtain ⟨u,above,followed⟩ := Option.bind_eq_some_iff.mp (show Option.bind _ _ = some t from reached)
    obtain ⟨zeros,short,rfl⟩ := ih above
    have deep : path.length < 3 := by
      by_contra no
      rw [follow,if_neg (fun opened => no opened.1)] at followed
      cases followed
    have here : ∀ u, u % 4096 = 0 → entries (lowTree pt).memory u i =
        if u = pt ∧ i = 0 then 0x7003 else if u = 0x3000 ∧ i = 0 then pt + 3 else
          if u = 0x2000 ∧ i = 0 then 0x3003 else if u = 0x1000 ∧ i = 0 then 0x2003 else 0 := by
      intro u two
      rw [lowTree,entries_setEntry aligned two (by decide),entries_setEntry (by decide) two word,
        entries_setEntry (by decide) two (by decide),entries_setEntry (by decide) two (by decide)]
      have blank : entries (Paging.mk (fun _ => 0) 0x1000 [] []).memory u i = 0 := load_zero _ _
      rw [blank]
    have first : i = 0 := by
      by_contra other
      rw [here _ (by rcases place with rfl | rfl <;> interval_cases path.length <;> rfl)] at followed
      simp only [other,and_false,if_false] at followed
      rw [follow_none rfl] at followed
      cases followed
    subst first
    refine ⟨?_,by rw [List.length_cons]; omega,?_⟩
    · rw [List.length_cons,List.replicate_succ,← zeros]
    · rw [List.length_cons]
      generalize path.length = n at followed deep
      rcases place with rfl | rfl
      · interval_cases n <;> rw [here _ (by rfl)] at followed <;> exact (Option.some.inj followed).symm
      · interval_cases n <;> rw [here _ (by rfl)] at followed <;> exact (Option.some.inj followed).symm

theorem lowTree_single {pt : Nat} (place : pt = 0 ∨ pt = 0x4000) :
    Tree follow (entries (lowTree pt).memory) (lowTree pt).pml4 := by
  intro p q t one two
  obtain ⟨zerosP,shortP,atP⟩ := lowTree_tables place one
  obtain ⟨zerosQ,shortQ,atQ⟩ := lowTree_tables place two
  have lengths : p.length = q.length := by
    rw [atP] at atQ
    generalize p.length = n at shortP atQ
    generalize q.length = m at shortQ atQ
    rcases place with rfl | rfl <;> interval_cases n <;> interval_cases m <;> first | rfl | cases atQ
  rw [zerosP,zerosQ,lengths]

theorem lowTree_valid : PageTree (lowTree 0x4000) := by
  refine ⟨lowTree_single (.inr rfl),rfl,?_⟩
  intro i path null
  obtain ⟨_,short,place⟩ := lowTree_tables (.inr rfl) null
  rw [List.length_cons] at short place
  generalize path.length = n at short place
  have deep : n < 3 := Nat.lt_of_succ_lt_succ short
  interval_cases n <;> cases place

theorem lowTree_supplied (pt : Nat) : Supplied (lowTree pt) := by
  have empty : (lowTree pt).pages = [] := rfl
  refine ⟨?_,by rw [empty]; exact .nil⟩
  intro page member
  rw [empty] at member
  cases member

-- One mapping or unmapping call on a tree of page tables, as vmm_get_physical sees it.
-- Of phys only bits 12 to 51 enter the entry. A table at 0 reads as none where one is to be
-- left, not where one is to be made.
theorem map_and_unmap_exact {s : Paging} (tree : TableTree s) (supplied : Supplied s) (virt phys flags : Nat)
    (outside : flags &&& pteAddrMask = 0) :
    ((vmmMapPage s virt phys flags).1 = 0 ∨ (vmmMapPage s virt phys flags).1 = -1) ∧
    ((vmmMapPage s virt phys flags).1 = 0 →
      (∀ v, pageOf v = pageOf virt → translation s v = none) ∧
      (∀ v, pageOf v = pageOf virt →
        vmmGetPhysical (vmmMapPage s virt phys flags).2 v = phys % 2^52 / 4096 * 4096 + v % 4096) ∧
      (∀ v, pageOf v ≠ pageOf virt →
        vmmGetPhysical (vmmMapPage s virt phys flags).2 v = vmmGetPhysical s v)) ∧
    ((vmmMapPage s virt phys flags).1 = -1 →
      ∀ v, vmmGetPhysical (vmmMapPage s virt phys flags).2 v = vmmGetPhysical s v) ∧
    (PageTree s →
      ((vmmUnmapPage s virt).1 = 0 ↔ ∃ e, pageEntry s virt = some e) ∧
      ((vmmUnmapPage s virt).1 = 0 →
        (∀ v, pageOf v = pageOf virt → translation (vmmUnmapPage s virt).2 v = none) ∧
        (∀ v, pageOf v ≠ pageOf virt →
          vmmGetPhysical (vmmUnmapPage s virt).2 v = vmmGetPhysical s v))) := by
  simp only [vmmGetPhysical_eq]
  refine ⟨?_,?_,?_,fun nonnull => ⟨?_,?_⟩⟩
  · rcases vmmMapPage_grows tree supplied virt phys flags with ⟨t,_,ran⟩ | ⟨u,pt,_,_,_,_,ran⟩
    · exact .inr (congrArg Prod.fst ran)
    · exact .inl (congrArg Prod.fst ran)
  · intro succeeded
    rcases vmmMapPage_grows tree supplied virt phys flags with ⟨t,_,ran⟩ | ⟨u,pt,grows,_,found,absent,ran⟩
    · rw [ran] at succeeded
      cases succeeded
    rw [ran]
    have set := setEntry_sets grows.tree found (phys &&& pteAddrMask ||| flags ||| pagePresent)
    refine ⟨?_,?_,?_⟩
    · intro v same
      have foundV : u.tableAt (directoryPath v) = some pt := by rw [directoryPath_congr same]; exact found
      rw [← grows.same v,translation_above foundV,pageEntry_congr u same,absent]
      rfl
    · intro v same
      have mapped := map_success tree supplied outside (by rw [ran]) same
      rw [ran] at mapped
      rw [mapped]
      rfl
    · intro v other
      rw [set.translation other,grows.same v]
  · intro failed v
    rcases vmmMapPage_grows tree supplied virt phys flags with ⟨t,grows,ran⟩ | ⟨u,pt,_,_,_,_,ran⟩
    · rw [ran,grows.same v]
    · rw [ran] at failed
      cases failed
  · rcases vmmUnmapPage_spec nonnull virt with ⟨ran,absent⟩ | ⟨pt,_,present,ran⟩
    · rw [ran,absent]
      simp
    · rw [ran]
      exact iff_of_true rfl (Option.ne_none_iff_exists'.mp present)
  · intro succeeded
    rcases vmmUnmapPage_spec nonnull virt with ⟨ran,_⟩ | ⟨pt,found,_,ran⟩
    · rw [ran] at succeeded
      cases succeeded
    rw [ran]
    have set := setEntry_sets tree found 0
    refine ⟨?_,fun v other => by rw [set.translation other]⟩
    intro v same
    rw [translation_written tree found 0 same,if_neg (by decide)]

theorem map_and_unmap_exact_second_page :
    vmmGetPhysical (vmmMapPage (lowTree 0x4000) 0x1000 0x9000 3).2 0x1234 = 0x9234 ∧
    vmmGetPhysical (vmmUnmapPage (lowTree 0x4000) 0).2 0x1234 = vmmGetPhysical (lowTree 0x4000) 0x1234 := by
  obtain ⟨_,mapped,_⟩ := map_and_unmap_exact lowTree_valid.tables (lowTree_supplied _) 0x1000 0x9000 3 (by decide)
  obtain ⟨_,_,_,unmaps⟩ := map_and_unmap_exact lowTree_valid.tables (lowTree_supplied _) 0 0x9000 3 (by decide)
  obtain ⟨_,cleared⟩ := unmaps lowTree_valid
  exact ⟨(mapped (by decide +kernel)).2.1 0x1234 (by decide),(cleared (by decide +kernel)).2 0x1234 (by decide)⟩

-- Of a frame address at 2^52 nothing is left in the entry, and behind a page table at
-- physical address 0, which reads as NULL, a present mapping cannot be removed.
theorem high_frame_and_null_table_fail :
    (PageTree (lowTree 0x4000) ∧ Supplied (lowTree 0x4000) ∧ 3 &&& pteAddrMask = 0 ∧
      (vmmMapPage (lowTree 0x4000) 0x1000 (2^52) 3).1 = 0 ∧
      vmmGetPhysical (vmmMapPage (lowTree 0x4000) 0x1000 (2^52) 3).2 0x1000 ≠ 2^52) ∧
    (Tree follow (entries (lowTree 0).memory) (lowTree 0).pml4 ∧ Supplied (lowTree 0) ∧
      pageEntry (lowTree 0) 0 = some 0x7003 ∧ vmmGetPhysical (lowTree 0) 0 = 0x7000 ∧
      (vmmUnmapPage (lowTree 0) 0).1 ≠ 0) := by
  refine ⟨⟨lowTree_valid,lowTree_supplied _,by decide,?_,?_⟩,lowTree_single (.inl rfl),lowTree_supplied _,?_,?_,?_⟩
  all_goals decide +kernel

end SantOS.Vmm
