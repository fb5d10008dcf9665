import SantOS.Library.Runs
import SantOS.Vmm.Ranges

namespace SantOS.Vmm
open ByteMemory RadixTrees Runs

-- vmm_unmap_pages goes through the whole range; one page that fails makes the result -1.
def unmapPagesFrom (s : Paging) (virt i : Nat) (result : Int) : Nat → Int × Paging
  | 0 => (result,s)
  | left+1 =>
    let (failed,s) := vmmUnmapPage s ((virt + i*pageSize) % 2^64)
    unmapPagesFrom s virt (i+1) (if failed ≠ 0 then -1 else result) left

def vmmUnmapPages (s : Paging) (virt count : Nat) : Int × Paging := unmapPagesFrom s virt 0 0 count

-- What the calls are for: above an identity region that none of them touches, a finite map
-- from pages to frames.
abbrev Space := Nat → Option Nat

def frameOf (phys : Nat) : Nat := phys % 2^52 / 4096 * 4096

def Free (limit : Nat) (space : Space) (page : Nat) : Prop := limit ≤ page*4096 ∧ space page = none

def putPages (space : Space) (virt phys : Nat) : Nat → Space
  | 0 => space
  | n+1 => Function.update (putPages space virt phys n) (pageOf (pageAt virt n)) (some (frameOf (phys + n*pageSize)))

def dropPages (space : Space) (virt : Nat) : Nat → Space
  | 0 => space
  | n+1 => Function.update (dropPages space virt n) (pageOf (pageAt virt n)) none

inductive Call where
  | mapPage (virt phys flags : Nat)
  | unmapPage (virt : Nat)
  | mapPages (virt phys count flags : Nat)
  | unmapPages (virt count : Nat)

def Call.run (s : Paging) : Call → Int × Paging
  | .mapPage virt phys flags => vmmMapPage s virt phys flags
  | .unmapPage virt => vmmUnmapPage s virt
  | .mapPages virt phys count flags => vmmMapPages s virt phys count flags
  | .unmapPages virt count => vmmUnmapPages s virt count

-- The flags leave the address bits of an entry alone, and a count is a uint32_t.
def Call.Valid : Call → Prop
  | .mapPage _ _ flags => flags &&& pteAddrMask = 0
  | .unmapPage _ => True
  | .mapPages _ _ count flags => count < 2^32 ∧ flags &&& pteAddrMask = 0
  | .unmapPages _ count => count < 2^32

def Starved (supply : List Nat) (n : Nat) : Prop := ∃ i < n, supply.getD i 0 = 0

-- All pages are mapped or none is; that fails only on a page in use or for want of a table.
def Maps (limit : Nat) (space : Space) (virt phys count : Nat) (supply : List Nat) (result : Int) (after : Space) : Prop :=
  (result = 0 ∧ (∀ i < count, Free limit space (pageOf (pageAt virt i))) ∧ after = putPages space virt phys count) ∨
  (result = -1 ∧ after = space ∧
    ((∃ i < count, ¬ Free limit space (pageOf (pageAt virt i))) ∨ Starved supply (3*count)))

def Unmaps (space : Space) (virt count : Nat) (result : Int) (after : Space) : Prop :=
  after = dropPages space virt count ∧
  ((result = 0 ∧ ∀ i < count, space (pageOf (pageAt virt i)) ≠ none) ∨
   (result = -1 ∧ ∃ i < count, space (pageOf (pageAt virt i)) = none))

structure Event where
  call : Call
  result : Int
  supply : List Nat

def Steps (s : Paging) (e : Event) (t : Paging) : Prop :=
  e.call.Valid ∧ s.pages = e.supply ∧ e.call.run s = (e.result,t)

theorem Call.steps {call : Call} (valid : call.Valid) (s : Paging) : Steps s ⟨call,(call.run s).1,s.pages⟩ (call.run s).2 :=
  ⟨valid,rfl,rfl⟩

def Means (limit : Nat) (space : Space) (e : Event) (after : Space) : Prop :=
  match e.call with
  | .mapPage virt phys _ => Maps limit space virt phys 1 e.supply e.result after
  | .unmapPage virt => Unmaps space virt 1 e.result after
  | .mapPages virt phys count _ => Maps limit space virt phys count e.supply e.result after
  | .unmapPages virt count => Unmaps space virt count e.result after

-- The page tables hold the address space: huge pages below the limit, page tables above.
structure Serves (limit : Nat) (s : Paging) (space : Space) : Prop where
  tree : PageTree s
  supplied : Supplied s
  aligned : limit % 4096 = 0
  above : ∀ page, space page ≠ none → limit ≤ page*4096
  huge : ∀ v, v % 2^48 < limit → hugeEntry s v ≠ none
  tables : ∀ v, space (pageOf v) ≠ none → ∃ pt, s.tableAt (directoryPath v) = some pt
  reads : ∀ v, translation s v = if v % 2^48 < limit then some (v % 2^48) else (space (pageOf v)).map (· + v % 4096)

section Feeding
variable {s t : Paging} {path : List (Fin 512)} {parent n : Nat} {pages : List Nat}

theorem link_huge (tree : TableTree s) (found : s.tableAt path = some parent) (i : Fin 512) (short : path.length < 3)
    (absent : s.entry parent i &&& pagePresent = 0) (small : path.length = 2 → s.entry parent i &&& pageHuge = 0)
    (aligned : n % 4096 = 0) (word : n < 2^32) (fresh : ∀ q, s.tableAt q ≠ some n) (v : Nat) :
    hugeEntry (s.link n parent i pages) v = hugeEntry s v := by
  have linked := link_linked tree found i pages short absent aligned word fresh
  obtain ⟨zeros,stored,_⟩ := link_entries tree found i pages aligned word fresh
  refine linked.filtered tree.single found _ (fun j => by rw [zeros j]; rfl) ?_
  intro same
  have depth : path.length = 2 := by
    have lengths := congrArg List.length same
    simpa [directoryPath] using lengths.symm
  exact ⟨decide_eq_false (not_not.mpr (small depth)),
    by rw [stored]; exact decide_eq_false (not_not.mpr (link_entry aligned word).2.2.1)⟩

-- A step down the tree keeps the huge entries, takes at most one page, and fails only
-- where that page is missing.
structure Fed (s t : Paging) (n : Nat) : Prop where
  huge : ∀ v, hugeEntry t v = hugeEntry s v
  taken : ∃ c ≤ n, t.pages = s.pages.drop c

theorem Fed.trans (one : Fed s t n) (two : Fed t u k) : Fed s u (n+k) := by
  obtain ⟨c,few,taken⟩ := one.taken
  obtain ⟨d,more,next⟩ := two.taken
  refine ⟨fun v => (two.huge v).trans (one.huge v),c+d,Nat.add_le_add few more,?_⟩
  rw [next,taken,List.drop_drop]

theorem Fed.mono (fed : Fed s t n) (le : n ≤ k) : Fed s t k :=
  ⟨fed.huge,fed.taken.imp (fun _ few => ⟨Nat.le_trans few.1 le,few.2⟩)⟩

theorem Fed.starved (fed : Fed s t n) (starved : Starved t.pages k) : Starved s.pages (n+k) := by
  obtain ⟨c,few,taken⟩ := fed.taken
  obtain ⟨i,inside,zero⟩ := starved
  refine ⟨c+i,by omega,?_⟩
  rw [taken] at zero
  simpa [List.getD_eq_getElem?_getD,List.getElem?_drop] using zero

theorem get_or_create_fed (tree : PageTree s) (supplied : Supplied s) (found : s.tableAt path = some parent) (i : Fin 512)
    (short : path.length < 3) (small : path.length = 2 → s.entry parent i &&& pageHuge = 0)
    (ran : getOrCreateTable s parent i true = (r,t)) :
    Fed s t 1 ∧ (r = 0 → Starved s.pages 1) := by
  by_cases absent : s.entry parent i &&& pagePresent = 0
  · cases listed : s.pages with
    | nil =>
      simp [getOrCreateTable,allocPageTable,pmemAllocPage,absent,listed] at ran
      obtain ⟨_,rfl⟩ := ran
      exact ⟨⟨fun _ => rfl,0,Nat.zero_le 1,rfl⟩,fun _ => ⟨0,Nat.one_pos,rfl⟩⟩
    | cons n rest =>
      by_cases zero : n = 0
      · simp [getOrCreateTable,allocPageTable,pmemAllocPage,absent,listed,zero] at ran
        obtain ⟨_,rfl⟩ := ran
        exact ⟨⟨fun _ => rfl,1,Nat.le_refl 1,by rw [listed]; rfl⟩,fun _ => ⟨0,Nat.one_pos,zero⟩⟩
      · obtain ⟨aligned,word,fresh⟩ := supplied.pages n (by rw [listed]; exact List.mem_cons_self ..) zero
        have linked : getOrCreateTable s parent i true = (n,s.link n parent i rest) := by
          simp [getOrCreateTable,allocPageTable,pmemAllocPage,absent,listed,zero,Paging.link,Paging.setEntry]
        obtain ⟨rfl,rfl⟩ := Prod.mk.inj (linked.symm.trans ran)
        exact ⟨⟨link_huge tree.tables found i short absent small aligned word fresh,1,Nat.le_refl 1,by rw [listed]; rfl⟩,
          fun none => absurd none zero⟩
  · rw [getOrCreateTable,if_pos absent] at ran
    obtain ⟨rfl,rfl⟩ := Prod.mk.inj ran
    refine ⟨⟨fun _ => rfl,0,Nat.zero_le 1,rfl⟩,fun zero => ?_⟩
    have child := (tableAt_child found i).trans (follow_some short absent small)
    rw [zero] at child
    exact absurd child (tree.nonnull i path)

end Feeding

theorem Fed.printf (fed : Fed s t n) (format : String) (args : List Nat) : Fed s (t.printf format args) n :=
  ⟨fed.huge,fed.taken⟩

theorem Starved.mono {supply : List Nat} (starved : Starved supply n) (le : n ≤ k) : Starved supply k := by
  obtain ⟨i,inside,zero⟩ := starved
  exact ⟨i,Nat.lt_of_lt_of_le inside le,zero⟩

theorem vmmMapPage_fed {s : Paging} (tree : PageTree s) (supplied : Supplied s) (virt phys flags : Nat) :
    Fed s (vmmMapPage s virt phys flags).2 3 ∧
    ((vmmMapPage s virt phys flags).1 ≠ 0 → translation s virt ≠ none ∨ Starved s.pages 3) := by
  have root : s.tableAt [] = some s.pml4 := rfl
  obtain ⟨pdpt,s1,one,grows1,at1⟩ :=
    get_or_create_spec tree.tables supplied root (pml4Slot virt) (by decide) (fun no => by cases no)
  obtain ⟨fed1,starved1⟩ := get_or_create_fed tree supplied root (pml4Slot virt) (by decide) (fun no => by cases no) one
  rw [vmmMapPage]
  simp only [pml4Slot_val,pdptSlot_val,pdSlot_val,ptSlot_val,one]
  by_cases null1 : pdpt = 0
  · rw [if_pos null1]
    exact ⟨(fed1.printf _ _).mono (by decide),fun _ => .inr ((starved1 null1).mono (by decide))⟩
  rw [if_neg null1]
  obtain ⟨pd,s2,two,grows2,at2⟩ := get_or_create_spec grows1.tree grows1.supplied (at1 null1) (pdptSlot virt)
    (by simp) (fun no => by cases no)
  obtain ⟨fed2,starved2⟩ := get_or_create_fed (grows1.page_tree tree) grows1.supplied (at1 null1) (pdptSlot virt)
    (by simp) (fun no => by cases no) two
  have reached2 := grows1.trans grows2
  have taken2 := fed1.trans fed2
  simp only [two]
  by_cases null2 : pd = 0
  · rw [if_pos null2]
    exact ⟨(taken2.printf _ _).mono (by decide),fun _ => .inr ((fed1.starved (starved2 null2)).mono (by decide))⟩
  rw [if_neg null2]
  by_cases huge : s2.entry pd (pdSlot virt) &&& pageHuge ≠ 0
  · rw [if_pos huge]
    refine ⟨(taken2.printf _ _).mono (by decide),fun _ => .inl ?_⟩
    have entry := hugeEntry_of (v := virt) (at2 null2)
    rw [if_pos huge] at entry
    rw [← reached2.same virt,translation,entry]
    exact Option.some_ne_none _
  rw [if_neg huge]
  obtain ⟨pt,s3,three,grows3,at3⟩ := get_or_create_spec grows2.tree grows2.supplied (at2 null2) (pdSlot virt)
    (by simp) (fun _ => not_not.mp huge)
  obtain ⟨fed3,starved3⟩ := get_or_create_fed (reached2.page_tree tree) grows2.supplied (at2 null2) (pdSlot virt)
    (by simp) (fun _ => not_not.mp huge) three
  have reached3 := reached2.trans grows3
  have taken3 := taken2.trans fed3
  simp only [three]
  by_cases null3 : pt = 0
  · rw [if_pos null3]
    exact ⟨taken3.printf _ _,fun _ => .inr (taken2.starved (starved3 null3))⟩
  rw [if_neg null3]
  by_cases present : s3.entry pt (ptSlot virt) &&& pagePresent ≠ 0
  · rw [if_pos present]
    refine ⟨taken3.printf _ _,fun _ => .inl ?_⟩
    have entry := pageEntry_of (v := virt) (at3 null3)
    rw [if_pos present] at entry
    rw [← reached3.same virt,translation_above (at3 null3),entry]
    exact Option.some_ne_none _
  · rw [if_neg present]
    have set := setEntry_sets grows3.tree (at3 null3) (phys &&& pteAddrMask ||| flags ||| pagePresent)
    exact ⟨⟨fun v => (set.huge v).trans (taken3.huge v),taken3.taken⟩,fun no => absurd rfl no⟩

section Serving
variable {limit : Nat} {s t : Paging} {space : Space}

theorem below_limit (aligned : limit % 4096 = 0) (v : Nat) : v % 2^48 < limit ↔ pageOf v * 4096 < limit := by
  unfold pageOf
  omega

theorem Serves.free_iff (serves : Serves limit s space) (v : Nat) :
    Free limit space (pageOf v) ↔ translation s v = none := by
  have below := below_limit serves.aligned v
  rw [serves.reads v]
  by_cases low : v % 2^48 < limit
  · rw [if_pos low]
    exact ⟨fun free => absurd (below.mp low) (Nat.not_lt.mpr free.1),fun no => by cases no⟩
  · rw [if_neg low,Option.map_eq_none_iff]
    exact ⟨fun free => free.2,fun empty => ⟨Nat.not_lt.mp (fun high => low (below.mpr high)),empty⟩⟩

theorem Serves.grow (serves : Serves limit s space) (grows : Grows s t) (fed : Fed s t n) : Serves limit t space := by
  refine ⟨grows.page_tree serves.tree,grows.supplied,serves.aligned,serves.above,?_,?_,?_⟩
  · intro v low
    rw [fed.huge v]
    exact serves.huge v low
  · intro v mapped
    obtain ⟨pt,found⟩ := serves.tables v mapped
    exact ⟨pt,grows.kept _ _ found⟩
  · intro v
    rw [grows.same v]
    exact serves.reads v

theorem Serves.write {e : Nat} {value : Option Nat} (serves : Serves limit s space)
    (found : s.tableAt (directoryPath virt) = some pt) (above : limit ≤ pageOf virt * 4096)
    (written : ∀ v, (if e % 2^64 &&& pagePresent ≠ 0 then some ((e % 2^64 &&& pteAddrMask) + v % 4096) else none) =
      value.map (· + v % 4096)) :
    Serves limit (s.setEntry pt (ptSlot virt) e) (Function.update space (pageOf virt) value) := by
  have set := setEntry_sets serves.tree.tables found e
  refine ⟨set.page_tree serves.tree,set.supplied serves.supplied rfl,serves.aligned,?_,?_,?_,?_⟩
  · intro page mapped
    by_cases here : page = pageOf virt
    · rw [here]
      exact above
    · rw [Function.update_of_ne here] at mapped
      exact serves.above page mapped
  · intro v low
    rw [set.huge v]
    exact serves.huge v low
  · intro v mapped
    by_cases here : pageOf v = pageOf virt
    · exact ⟨pt,by rw [set.tables,directoryPath_congr here]; exact found⟩
    · rw [Function.update_of_ne here] at mapped
      obtain ⟨other,reached⟩ := serves.tables v mapped
      exact ⟨other,(set.tables _).trans reached⟩
  · intro v
    by_cases here : pageOf v = pageOf virt
    · have high : ¬ v % 2^48 < limit := by
        rw [below_limit serves.aligned,here]
        exact Nat.not_lt.mpr above
      rw [translation_written serves.tree.tables found e here,if_neg high,here,Function.update_self]
      exact written v
    · rw [set.translation here,Function.update_of_ne here]
      exact serves.reads v

theorem Serves.mapPage (serves : Serves limit s space) (virt phys : Nat) {flags : Nat}
    (outside : flags &&& pteAddrMask = 0) :
    ∃ t, Fed s t 3 ∧
      ((vmmMapPage s virt phys flags = (0,t) ∧ Free limit space (pageOf virt) ∧
          Serves limit t (Function.update space (pageOf virt) (some (frameOf phys)))) ∨
       (vmmMapPage s virt phys flags = (-1,t) ∧ Serves limit t space ∧
          (¬ Free limit space (pageOf virt) ∨ Starved s.pages 3))) := by
  obtain ⟨fed,failing⟩ := vmmMapPage_fed serves.tree serves.supplied virt phys flags
  rcases vmmMapPage_grows serves.tree.tables serves.supplied virt phys flags with
    ⟨t,grows,ran⟩ | ⟨u,pt,grows,_,found,absent,ran⟩
  · rw [ran] at fed failing
    refine ⟨t,fed,.inr ⟨ran,serves.grow grows fed,?_⟩⟩
    rw [serves.free_iff]
    exact failing (by decide : (-1 : Int) ≠ 0)
  · have set := setEntry_sets grows.tree found (phys &&& pteAddrMask ||| flags ||| pagePresent)
    obtain ⟨present,address⟩ := @mapped_entry phys _ outside
    have bits : phys / 4096 % 2^40 * 4096 = frameOf phys := by
      unfold frameOf
      omega
    rw [ran] at fed
    have grown := serves.grow grows (t := u) ⟨fun v => (set.huge v).symm.trans (fed.huge v),fed.taken⟩
    have free : Free limit space (pageOf virt) := by
      rw [grown.free_iff,translation_above found,absent]
      rfl
    refine ⟨_,fed,.inl ⟨ran,free,grown.write found free.1 ?_⟩⟩
    intro v
    rw [if_pos present,address,mask_eq,bits]
    rfl

theorem Serves.unmapPage (serves : Serves limit s space) (virt : Nat) :
    ∃ t, t.pages = s.pages ∧ Serves limit t (Function.update space (pageOf virt) none) ∧
      vmmUnmapPage s virt = (if space (pageOf virt) = none then -1 else 0,t) := by
  have reads := serves.reads virt
  rcases vmmUnmapPage_spec serves.tree virt with ⟨ran,absent⟩ | ⟨pt,found,present,ran⟩
  · have empty : space (pageOf virt) = none := by
      by_contra mapped
      obtain ⟨pt,found⟩ := serves.tables virt mapped
      have high : ¬ virt % 2^48 < limit := by
        rw [below_limit serves.aligned]
        exact Nat.not_lt.mpr (serves.above _ mapped)
      rw [translation_above found,absent,if_neg high] at reads
      exact mapped (Option.map_eq_none_iff.mp reads.symm)
    have same : Function.update space (pageOf virt) none = space := by rw [← empty,Function.update_eq_self]
    exact ⟨s,rfl,by rw [same]; exact serves,by rw [ran,if_pos empty]⟩
  · have high : ¬ virt % 2^48 < limit := fun low => serves.huge virt low (no_huge_above found)
    have mapped : space (pageOf virt) ≠ none := by
      intro empty
      rw [translation_above found,if_neg high,empty] at reads
      exact present (Option.map_eq_none_iff.mp reads)
    refine ⟨s.setEntry pt (ptSlot virt) 0,rfl,serves.write found (serves.above _ mapped) (fun v => if_neg (by decide)),?_⟩
    rw [ran,if_neg mapped]

theorem putPages_other (space : Space) {virt phys n page : Nat} (other : ∀ i < n, page ≠ pageOf (pageAt virt i)) :
    putPages space virt phys n page = space page := by
  induction n with
  | zero => rfl
  | succ n ih =>
    rw [putPages,Function.update_of_ne (other n (Nat.lt_succ_self n))]
    exact ih (fun i inside => other i (Nat.lt_succ_of_lt inside))

theorem dropPages_other (space : Space) {virt n page : Nat} (other : ∀ i < n, page ≠ pageOf (pageAt virt i)) :
    dropPages space virt n page = space page := by
  induction n with
  | zero => rfl
  | succ n ih =>
    rw [dropPages,Function.update_of_ne (other n (Nat.lt_succ_self n))]
    exact ih (fun i inside => other i (Nat.lt_succ_of_lt inside))

theorem dropPages_hit (space : Space) {virt n i : Nat} (inside : i < n) :
    dropPages space virt n (pageOf (pageAt virt i)) = none := by
  induction n with
  | zero => cases inside
  | succ n ih =>
    by_cases last : pageOf (pageAt virt i) = pageOf (pageAt virt n)
    · rw [dropPages,last,Function.update_self]
    · rw [dropPages,Function.update_of_ne last]
      refine ih (Nat.lt_of_le_of_ne (Nat.le_of_lt_succ inside) ?_)
      intro same
      rw [same] at last
      exact last rfl

theorem drop_put {virt phys n : Nat} (free : ∀ i < n, space (pageOf (pageAt virt i)) = none) :
    dropPages (putPages space virt phys n) virt n = space := by
  funext page
  by_cases member : ∃ i < n, page = pageOf (pageAt virt i)
  · obtain ⟨i,inside,rfl⟩ := member
    rw [dropPages_hit _ inside,free i inside]
  · have other : ∀ i < n, page ≠ pageOf (pageAt virt i) := fun i inside same => member ⟨i,inside,same⟩
    rw [dropPages_other _ other,putPages_other _ other]

theorem apart_before {virt i : Nat} (small : i < 2^32) : ∀ j < i, pageOf (pageAt virt i) ≠ pageOf (pageAt virt j) :=
  fun j before same => absurd (pageAt_distinct small (by omega) same) (by omega)

theorem Serves.unmapFrom (serves : Serves limit s (dropPages space virt j)) (left : Nat) :
    Serves limit (unmapFrom s virt j left) (dropPages space virt (j+left)) ∧
    (Vmm.unmapFrom s virt j left).pages = s.pages := by
  induction left generalizing s j with
  | zero => exact ⟨serves,rfl⟩
  | succ left ih =>
    obtain ⟨t,pages,next,ran⟩ := serves.unmapPage (pageAt virt j)
    have step : vmmUnmapPage s ((virt + j*pageSize) % 2^64) = (_,t) := ran
    have rest := ih (s := t) (j := j+1) next
    rw [Nat.add_right_comm] at rest
    rw [Vmm.unmapFrom,step]
    exact ⟨rest.1,rest.2.trans pages⟩

theorem Serves.mapFrom {base : Space} {supply : List Nat} {i : Nat} (serves : Serves limit s (putPages base virt phys i))
    (outside : flags &&& pteAddrMask = 0) (free : ∀ j < i, Free limit base (pageOf (pageAt virt j)))
    (taken : ∃ c ≤ 3*i, s.pages = supply.drop c) (left : Nat) (small : i + left < 2^32) :
    ∃ t result space, Vmm.mapFrom s virt phys flags i left = (result,t) ∧ Serves limit t space ∧
      Maps limit base virt phys (i+left) supply result space := by
  induction left generalizing s i with
  | zero => exact ⟨s,0,_,rfl,serves,.inl ⟨rfl,free,rfl⟩⟩
  | succ left ih =>
    have untouched : putPages base virt phys i (pageOf (pageAt virt i)) = base (pageOf (pageAt virt i)) :=
      putPages_other _ (apart_before (by omega))
    have sameFree : Free limit (putPages base virt phys i) (pageOf (pageAt virt i)) ↔
        Free limit base (pageOf (pageAt virt i)) := by rw [Free,Free,untouched]
    have frame : frameOf ((phys + i*pageSize) % 2^64) = frameOf (phys + i*pageSize) := by
      unfold frameOf
      omega
    obtain ⟨c,few,pages⟩ := taken
    obtain ⟨t,fed,⟨ran,empty,next⟩ | ⟨ran,kept,blocked⟩⟩ := serves.mapPage (pageAt virt i) ((phys + i*pageSize) % 2^64) outside
    · have step : vmmMapPage s ((virt + i*pageSize) % 2^64) ((phys + i*pageSize) % 2^64) flags = (0,t) := ran
      rw [frame] at next
      obtain ⟨d,more,leftOver⟩ := fed.taken
      have moreFree : ∀ j < i + 1, Free limit base (pageOf (pageAt virt j)) := by
        intro j inside
        rcases Nat.lt_succ_iff_lt_or_eq.mp inside with before | rfl
        · exact free j before
        · exact sameFree.mp empty
      have rest := ih (s := t) (i := i+1) next moreFree
        ⟨c+d,by omega,by rw [leftOver,pages,List.drop_drop]⟩ (by omega)
      rw [Nat.add_right_comm] at rest
      rw [Vmm.mapFrom,step]
      exact rest
    · have step : vmmMapPage s ((virt + i*pageSize) % 2^64) ((phys + i*pageSize) % 2^64) flags = (-1,t) := ran
      have put : Serves limit t (dropPages (putPages base virt phys i) virt 0) := kept
      have back := (put.unmapFrom i).1
      rw [Nat.zero_add,drop_put (fun j inside => (free j inside).2)] at back
      refine ⟨_,-1,base,by rw [Vmm.mapFrom,step]; rfl,back,.inr ⟨rfl,rfl,?_⟩⟩
      rw [sameFree] at blocked
      refine blocked.imp (fun used => ⟨i,by omega,used⟩) (fun starved => ?_)
      obtain ⟨j,inside,zero⟩ := starved
      refine ⟨c+j,by omega,?_⟩
      rw [pages] at zero
      simpa [List.getD_eq_getElem?_getD,List.getElem?_drop] using zero

theorem Serves.mapPages (serves : Serves limit s space) (virt phys : Nat) {flags count : Nat}
    (outside : flags &&& pteAddrMask = 0) (small : count < 2^32) :
    ∃ t result after, vmmMapPages s virt phys count flags = (result,t) ∧ Serves limit t after ∧
      Maps limit space virt phys count s.pages result after := by
  have put : Serves limit s (putPages space virt phys 0) := serves
  have run := put.mapFrom outside (fun j no => absurd no (Nat.not_lt_zero j))
    ⟨0,Nat.zero_le _,rfl⟩ count (by omega)
  rw [Nat.zero_add] at run
  exact run

-- vmm_unmap_pages leaves what the rollback loop would, and remembers a failure.
theorem Serves.unmapPagesFrom {base : Space} {i : Nat} (serves : Serves limit s (dropPages base virt i))
    (left : Nat) (small : i + left < 2^32) {result : Int}
    (sofar : (result = 0 ∧ ∀ j < i, base (pageOf (pageAt virt j)) ≠ none) ∨
      (result = -1 ∧ ∃ j < i, base (pageOf (pageAt virt j)) = none)) :
    ∃ t last, Vmm.unmapPagesFrom s virt i result left = (last,t) ∧ Serves limit t (dropPages base virt (i+left)) ∧
      ((last = 0 ∧ ∀ j < i + left, base (pageOf (pageAt virt j)) ≠ none) ∨
       (last = -1 ∧ ∃ j < i + left, base (pageOf (pageAt virt j)) = none)) := by
  induction left generalizing s i result with
  | zero => exact ⟨s,result,rfl,serves,sofar⟩
  | succ left ih =>
    obtain ⟨t,_,next,ran⟩ := serves.unmapPage (pageAt virt i)
    rw [dropPages_other base (apart_before (by omega))] at ran
    have step : vmmUnmapPage s ((virt + i*pageSize) % 2^64) = (_,t) := ran
    rw [Vmm.unmapPagesFrom,step]
    by_cases empty : base (pageOf (pageAt virt i)) = none
    · have rest := ih (s := t) (i := i+1) next (by omega) (.inr ⟨rfl,i,Nat.lt_succ_self i,empty⟩)
      rw [Nat.add_right_comm] at rest
      rw [if_pos empty]
      exact rest
    · have more := ih (s := t) (i := i+1) next (by omega) (by
        refine sofar.imp (fun fine => ⟨fine.1,fun j inside => ?_⟩) (fun bad => ⟨bad.1,?_⟩)
        · rcases Nat.lt_succ_iff_lt_or_eq.mp inside with before | rfl
          · exact fine.2 j before
          · exact empty
        · obtain ⟨j,before,gone⟩ := bad.2
          exact ⟨j,Nat.lt_succ_of_lt before,gone⟩)
      rw [Nat.add_right_comm] at more
      rw [if_neg empty]
      exact more

theorem Serves.unmapPages (serves : Serves limit s space) (virt : Nat) {count : Nat} (small : count < 2^32) :
    ∃ t result after, vmmUnmapPages s virt count = (result,t) ∧ Serves limit t after ∧
      Unmaps space virt count result after := by
  have dropped : Serves limit s (dropPages space virt 0) := serves
  obtain ⟨t,last,ran,next,outcome⟩ := dropped.unmapPagesFrom count (by omega)
    (.inl ⟨rfl,fun j no => absurd no (Nat.not_lt_zero j)⟩)
  rw [Nat.zero_add] at next outcome
  exact ⟨t,last,_,ran,next,rfl,outcome⟩

theorem pageOf_pageAt (virt : Nat) : pageOf (pageAt virt 0) = pageOf virt := by
  rw [pageAt_page,Nat.zero_mul,Nat.add_zero]

theorem Maps.single {supply : List Nat} {result : Int} {after : Space}
    (outcome : (result = 0 ∧ Free limit space (pageOf virt) ∧ after = Function.update space (pageOf virt) (some (frameOf phys))) ∨
      (result = -1 ∧ after = space ∧ (¬ Free limit space (pageOf virt) ∨ Starved supply 3))) :
    Maps limit space virt phys 1 supply result after := by
  have put : putPages space virt phys 1 = Function.update space (pageOf virt) (some (frameOf phys)) := by
    rw [putPages,putPages,pageOf_pageAt,Nat.zero_mul,Nat.add_zero]
  rcases outcome with ⟨zero,free,same⟩ | ⟨failed,same,blocked⟩
  · refine .inl ⟨zero,fun i inside => ?_,same.trans put.symm⟩
    rw [Nat.lt_one_iff.mp inside,pageOf_pageAt]
    exact free
  · refine .inr ⟨failed,same,blocked.imp (fun used => ⟨0,Nat.one_pos,?_⟩) id⟩
    rw [pageOf_pageAt]
    exact used

theorem Serves.step (serves : Serves limit s space) (step : Steps s e t) :
    ∃ after, Means limit space e after ∧ Serves limit t after := by
  obtain ⟨call,result,supply⟩ := e
  obtain ⟨valid,held,ran⟩ := step
  dsimp only at valid held ran
  subst held
  cases call with
  | mapPage virt phys flags =>
    obtain ⟨u,_,⟨one,free,next⟩ | ⟨one,kept,blocked⟩⟩ := serves.mapPage virt phys valid
    · obtain ⟨rfl,rfl⟩ := Prod.mk.inj (ran.symm.trans one)
      exact ⟨_,.single (.inl ⟨rfl,free,rfl⟩),next⟩
    · obtain ⟨rfl,rfl⟩ := Prod.mk.inj (ran.symm.trans one)
      exact ⟨_,.single (.inr ⟨rfl,rfl,blocked⟩),kept⟩
  | unmapPage virt =>
    obtain ⟨u,_,next,one⟩ := serves.unmapPage virt
    obtain ⟨rfl,rfl⟩ := Prod.mk.inj (ran.symm.trans one)
    refine ⟨_,⟨?_,?_⟩,next⟩
    · rw [dropPages,dropPages,pageOf_pageAt]
    · by_cases empty : space (pageOf virt) = none
      · rw [if_pos empty]
        exact .inr ⟨rfl,0,Nat.one_pos,by rw [pageOf_pageAt]; exact empty⟩
      · rw [if_neg empty]
        refine .inl ⟨rfl,fun i inside => ?_⟩
        rw [Nat.lt_one_iff.mp inside,pageOf_pageAt]
        exact empty
  | mapPages virt phys count flags =>
    obtain ⟨u,last,after,many,next,outcome⟩ := serves.mapPages virt phys valid.2 valid.1
    obtain ⟨rfl,rfl⟩ := Prod.mk.inj (ran.symm.trans many)
    exact ⟨after,outcome,next⟩
  | unmapPages virt count =>
    obtain ⟨u,last,after,many,next,outcome⟩ := serves.unmapPages virt valid
    obtain ⟨rfl,rfl⟩ := Prod.mk.inj (ran.symm.trans many)
    exact ⟨after,outcome,next⟩

theorem Serves.get_physical (serves : Serves limit s space) (v : Nat) :
    vmmGetPhysical s v = if v % 2^48 < limit then v % 2^48 else ((space (pageOf v)).map (· + v % 4096)).getD 0 := by
  rw [vmmGetPhysical_eq,serves.reads v]
  split <;> rfl

end Serving

end SantOS.Vmm
