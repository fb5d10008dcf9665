import SantOS.Vmm.Translations

namespace SantOS.Vmm
open ByteMemory RadixTrees

def pageAt (virt i : Nat) : Nat := (virt + i*pageSize) % 2^64

theorem pageAt_page (virt i : Nat) : pageOf (pageAt virt i) = pageOf (virt + i*pageSize) := by
  unfold pageOf pageAt pageSize
  omega

theorem pageAt_distinct {virt i j : Nat} (one : i < 2^32) (two : j < 2^32)
    (same : pageOf (pageAt virt i) = pageOf (pageAt virt j)) : i = j := by
  rw [pageAt_page,pageAt_page] at same
  unfold pageOf pageSize at same
  omega

theorem Grows.walked (grows : Grows s t) (walked : Walked s v) : Walked t v := by
  obtain ⟨⟨a,nonzeroA,foundA⟩,⟨b,nonzeroB,foundB⟩,c,nonzeroC,foundC⟩ := walked
  exact ⟨⟨a,nonzeroA,grows.kept _ _ foundA⟩,⟨b,nonzeroB,grows.kept _ _ foundB⟩,c,nonzeroC,grows.kept _ _ foundC⟩

theorem EntrySet.walked (set : EntrySet s t w) (walked : Walked s v) : Walked t v := by
  obtain ⟨⟨a,nonzeroA,foundA⟩,⟨b,nonzeroB,foundB⟩,c,nonzeroC,foundC⟩ := walked
  exact ⟨⟨a,nonzeroA,(set.tables _).trans foundA⟩,⟨b,nonzeroB,(set.tables _).trans foundB⟩,c,nonzeroC,
    (set.tables _).trans foundC⟩

theorem EntrySet.supplied (set : EntrySet s t v) (supplied : Supplied s) (pages : t.pages = s.pages) : Supplied t := by
  refine ⟨?_,by rw [pages]; exact supplied.distinct⟩
  intro page member nonzero
  rw [pages] at member
  obtain ⟨aligned,word,fresh⟩ := supplied.pages page member nonzero
  exact ⟨aligned,word,fun path found => fresh path ((set.tables path).symm.trans found)⟩

theorem get_table_found {s : Paging} (found : s.tableAt path = some parent) (child : s.tableAt (i::path) = some t)
    (create : Bool) : getOrCreateTable s parent i create = (t,s) := by
  rw [tableAt_child found i,follow] at child
  split at child
  · rename_i opened
    cases child
    rw [getOrCreateTable,if_pos opened.2.1]
  · cases child

theorem unmap_walked {s : Paging} (walked : Walked s v) (present : pageEntry s v ≠ none) :
    ∃ pt, s.tableAt (directoryPath v) = some pt ∧ vmmUnmapPage s v = (0,s.setEntry pt (ptSlot v) 0) := by
  obtain ⟨⟨pdpt,null1,at1⟩,⟨pd,null2,at2⟩,pt,null3,at3⟩ := walked
  have root : s.tableAt [] = some s.pml4 := rfl
  have small : ¬ s.entry pd (pdSlot v) &&& pageHuge ≠ 0 := by
    intro huge
    have above := no_huge_above at3
    rw [hugeEntry_of at2,if_pos huge] at above
    cases above
  have mapped : ¬ s.entry pt (ptSlot v) &&& pagePresent = 0 := by
    intro absent
    rw [pageEntry_of at3,if_neg (not_not.mpr absent)] at present
    exact present rfl
  refine ⟨pt,at3,?_⟩
  rw [vmmUnmapPage]
  simp only [pml4Slot_val,pdptSlot_val,pdSlot_val,ptSlot_val,get_table_found root at1,if_neg null1,
    get_table_found at1 at2,if_neg null2,if_neg small,get_table_found at2 at3,if_neg null3,if_neg mapped]

structure Remaining (s t : Paging) (virt k i : Nat) : Prop where
  tree : TableTree t
  walked : ∀ j, k ≤ j → j < i → Walked t (pageAt virt j)
  present : ∀ j, k ≤ j → j < i → pageEntry t (pageAt virt j) ≠ none
  others : ∀ v, (∀ j, k ≤ j → j < i → pageOf v ≠ pageOf (pageAt virt j)) → translation t v = translation s v

theorem unmapFrom_restores {s t : Paging} {virt i : Nat} (small : i ≤ 2^32)
    (were : ∀ j < i, ∀ v, pageOf v = pageOf (pageAt virt j) → translation s v = none)
    (remaining : Remaining s t virt k i) (sum : k + left = i) (v : Nat) :
    translation (unmapFrom t virt k left) v = translation s v := by
  induction left generalizing t k with
  | zero => exact remaining.others v (fun j low high => by omega)
  | succ left ih =>
    obtain ⟨pt,found,ran⟩ := unmap_walked (remaining.walked k (Nat.le_refl k) (by omega))
      (remaining.present k (Nat.le_refl k) (by omega))
    have set := setEntry_sets remaining.tree found 0
    have step : vmmUnmapPage t ((virt + k*pageSize) % 2^64) = (0,t.setEntry pt (ptSlot (pageAt virt k)) 0) := ran
    rw [unmapFrom,step]
    refine ih ⟨set.tree,?_,?_,?_⟩ (by omega)
    · intro j low high
      exact set.walked (remaining.walked j (by omega) high)
    · intro j low high
      rw [set.others _ (fun same => absurd (pageAt_distinct (by omega) (by omega) same) (by omega : j ≠ k))]
      exact remaining.present j (by omega) high
    · intro w apart
      by_cases here : pageOf w = pageOf (pageAt virt k)
      · rw [translation_written remaining.tree found 0 here,if_neg (by decide),were k (by omega) w here]
      · rw [set.translation here]
        refine remaining.others w ?_
        intro j low high
        by_cases first : j = k
        · exact first ▸ here
        · exact apart j (by omega) high

structure Mapped (s t : Paging) (virt phys i : Nat) : Prop where
  tree : TableTree t
  supplied : Supplied t
  walked : ∀ j < i, Walked t (pageAt virt j)
  were : ∀ j < i, ∀ v, pageOf v = pageOf (pageAt virt j) → translation s v = none
  done : ∀ j < i, ∀ v, pageOf v = pageOf (pageAt virt j) →
    translation t v = some ((phys + j*pageSize) % 2^52 / 4096 * 4096 + v % 4096)
  others : ∀ v, (∀ j < i, pageOf v ≠ pageOf (pageAt virt j)) → translation t v = translation s v

theorem Mapped.remaining (mapped : Mapped s t virt phys i) (grows : Grows t u) : Remaining s u virt 0 i := by
  refine ⟨grows.tree,fun j _ high => grows.walked (mapped.walked j high),?_,?_⟩
  · intro j _ high
    obtain ⟨pt,_,found⟩ := (grows.walked (mapped.walked j high)).pt
    have translated := (grows.same _).trans (mapped.done j high _ rfl)
    rw [translation_above found] at translated
    intro absent
    rw [absent] at translated
    cases translated
  · intro v apart
    rw [grows.same v]
    exact mapped.others v (fun j high => apart j (Nat.zero_le j) high)

theorem Mapped.next {s t u : Paging} {virt phys flags i : Nat} (mapped : Mapped s t virt phys i) (small : i < 2^32)
    (outside : flags &&& pteAddrMask = 0) (grows : Grows t u) (walked : Walked u (pageAt virt i))
    (found : u.tableAt (directoryPath (pageAt virt i)) = some pt) (absent : pageEntry u (pageAt virt i) = none) :
    Mapped s (u.setEntry pt (ptSlot (pageAt virt i))
      ((phys + i*pageSize) % 2^64 &&& pteAddrMask ||| flags ||| pagePresent)) virt phys (i+1) := by
  have set := setEntry_sets grows.tree found
    ((phys + i*pageSize) % 2^64 &&& pteAddrMask ||| flags ||| pagePresent)
  have apart : ∀ j < i, pageOf (pageAt virt j) ≠ pageOf (pageAt virt i) := fun j low same =>
    absurd (pageAt_distinct (by omega) small same) (by omega)
  refine ⟨set.tree,set.supplied grows.supplied rfl,?_,?_,?_,?_⟩
  · intro j high
    rcases Nat.lt_succ_iff_lt_or_eq.mp high with before | rfl
    · exact set.walked (grows.walked (mapped.walked j before))
    · exact set.walked walked
  · intro j high v here
    rcases Nat.lt_succ_iff_lt_or_eq.mp high with before | rfl
    · exact mapped.were j before v here
    · have foundV : u.tableAt (directoryPath v) = some pt := by rw [directoryPath_congr here]; exact found
      rw [← mapped.others v (fun k low same => apart k low (same.symm.trans here)),← grows.same v,
        translation_above foundV,pageEntry_congr u here,absent]
      rfl
  · intro j high v here
    rcases Nat.lt_succ_iff_lt_or_eq.mp high with before | rfl
    · rw [set.translation (fun same => apart j before (here.symm.trans same)),grows.same v]
      exact mapped.done j before v here
    · obtain ⟨present,address⟩ := @mapped_entry ((phys + j*pageSize) % 2^64) _ outside
      have bits : (phys + j*pageSize) % 2^64 / 4096 % 2^40 * 4096 = (phys + j*pageSize) % 2^52 / 4096 * 4096 := by omega
      rw [translation_written grows.tree found _ here,if_pos present,address,mask_eq,bits]
  · intro v away
    rw [set.translation (away i (Nat.lt_succ_self i)),grows.same v]
    exact mapped.others v (fun j low => away j (by omega))

theorem mapFrom_spec {s t : Paging} {virt phys flags i left : Nat} (mapped : Mapped s t virt phys i)
    (small : i + left < 2^32) (outside : flags &&& pteAddrMask = 0) :
    ((mapFrom t virt phys flags i left).1 = 0 ∧ Mapped s (mapFrom t virt phys flags i left).2 virt phys (i+left)) ∨
    ((mapFrom t virt phys flags i left).1 = -1 ∧
      ∀ v, translation (mapFrom t virt phys flags i left).2 v = translation s v) := by
  induction left generalizing t i with
  | zero => exact .inl ⟨rfl,mapped⟩
  | succ left ih =>
    rw [mapFrom]
    rcases vmmMapPage_grows mapped.tree mapped.supplied (pageAt virt i) ((phys + i*pageSize) % 2^64) flags with
      ⟨u,grows,ran⟩ | ⟨u,pt,grows,walked,found,absent,ran⟩
    · have step : vmmMapPage t ((virt + i*pageSize) % 2^64) ((phys + i*pageSize) % 2^64) flags = (-1,u) := ran
      rw [step]
      refine .inr ⟨rfl,?_⟩
      intro v
      exact unmapFrom_restores (by omega) mapped.were (mapped.remaining grows) (Nat.zero_add i) v
    · have step : vmmMapPage t ((virt + i*pageSize) % 2^64) ((phys + i*pageSize) % 2^64) flags = _ := ran
      have next := ih (mapped.next (by omega) outside grows walked found absent) (by omega)
      rw [step]
      rw [Nat.add_right_comm] at next
      exact next

-- A range mapped as a whole or not at all, as vmm_get_physical sees it. Of phys and its
-- sums only bits 12 to 51 enter the entries.
theorem map_pages_exact {s : Paging} (tree : TableTree s) (supplied : Supplied s) (virt phys count flags : Nat)
    (word : count < 2^32) (outside : flags &&& pteAddrMask = 0) :
    ((vmmMapPages s virt phys count flags).1 = 0 ∨ (vmmMapPages s virt phys count flags).1 = -1) ∧
    ((vmmMapPages s virt phys count flags).1 = -1 →
      ∀ v, vmmGetPhysical (vmmMapPages s virt phys count flags).2 v = vmmGetPhysical s v) ∧
    ((vmmMapPages s virt phys count flags).1 = 0 →
      (∀ i < count, ∀ v, pageOf v = pageOf (virt + i*pageSize) →
        vmmGetPhysical (vmmMapPages s virt phys count flags).2 v =
          (phys + i*pageSize) % 2^52 / 4096 * 4096 + v % 4096) ∧
      (∀ v, (∀ i < count, pageOf v ≠ pageOf (virt + i*pageSize)) →
        vmmGetPhysical (vmmMapPages s virt phys count flags).2 v = vmmGetPhysical s v)) := by
  have start : Mapped s s virt phys 0 :=
    ⟨tree,supplied,fun _ none => absurd none (Nat.not_lt_zero _),fun _ none => absurd none (Nat.not_lt_zero _),
      fun _ none => absurd none (Nat.not_lt_zero _),fun _ _ => rfl⟩
  simp only [vmmGetPhysical_eq,vmmMapPages]
  rcases mapFrom_spec start (by omega : 0 + count < 2^32) outside with ⟨zero,mapped⟩ | ⟨failed,same⟩
  · refine ⟨.inl zero,fun failed => ?_,fun _ => ⟨?_,?_⟩⟩
    · rw [zero] at failed
      cases failed
    · intro i inside v here
      rw [mapped.done i (by omega) v (here.trans (pageAt_page virt i).symm)]
      rfl
    · intro v away
      rw [mapped.others v (fun i inside same => away i (by omega) (same.trans (pageAt_page virt i)))]
  · refine ⟨.inr failed,fun _ v => by rw [same v],fun zero => ?_⟩
    rw [failed] at zero
    cases zero

theorem map_pages_exact_page_table :
    vmmGetPhysical (vmmMapPages (lowTree 0x4000) 0x1000 0x9000 2 3).2 0x2345 = 0xA345 ∧
    ∀ v, vmmGetPhysical (vmmMapPages (lowTree 0x4000) 0x1FF000 0x9000 2 3).2 v =
      vmmGetPhysical (lowTree 0x4000) v := by
  obtain ⟨_,_,mapped⟩ := map_pages_exact lowTree_valid.tables (lowTree_supplied _) 0x1000 0x9000 2 3 (by decide) (by decide)
  obtain ⟨_,failed,_⟩ := map_pages_exact lowTree_valid.tables (lowTree_supplied _) 0x1FF000 0x9000 2 3 (by decide) (by decide)
  exact ⟨(mapped (by decide +kernel)).1 1 (by decide) 0x2345 (by decide),failed (by decide +kernel)⟩

theorem high_frames_lost :
    TableTree (lowTree 0x4000) ∧ Supplied (lowTree 0x4000) ∧ 3 &&& pteAddrMask = 0 ∧
    (vmmMapPages (lowTree 0x4000) 0x1000 (2^52) 1 3).1 = 0 ∧
    vmmGetPhysical (vmmMapPages (lowTree 0x4000) 0x1000 (2^52) 1 3).2 0x1000 ≠ 2^52 := by
  refine ⟨lowTree_valid.tables,lowTree_supplied _,by decide,?_,?_⟩
  all_goals decide +kernel

end SantOS.Vmm
