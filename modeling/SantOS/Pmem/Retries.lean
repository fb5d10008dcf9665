import SantOS.Library.FueledLoops
import SantOS.Pmem.Exactness

namespace SantOS.Pmem
open FueledLoops

def FreeRun (p : PhysicalMemory) (start count : Nat) : Prop :=
  start + count ≤ p.totalPages ∧ ∀ i < count, bitmapIsSet p (start+i) = false

structure Lowest (p : PhysicalMemory) (page : Nat) : Prop where
  managed : page < p.totalPages
  free : bitmapIsSet p page = false
  below : ∀ other < page, bitmapIsSet p other = true

-- A request of count pages is met: a run was free and is marked, nothing else, or there was
-- none, 0 came back and no more than the history of looked-at bits is new.
def Met (p : PhysicalMemory) (count : Nat) (result : Nat × PhysicalMemory) : Prop :=
  (∃ start, FreeRun p start count ∧ result.1 = start * 4096 ∧ Taken p result.2 start count ∧
    result.2.freePages = p.freePages - count) ∨
  ((∀ start, ¬ FreeRun p start count) ∧ result.1 = 0 ∧ Looked p result.2)

def Direct (p : PhysicalMemory) (count : Nat) : Prop :=
  count = 0 ∨ (p.freePages < count ∧ ∀ start, ¬ FreeRun p start count) ∨
  (count ≤ p.freePages ∧ ∀ page, Lowest p page → FreeRun p page count)

def Glanced (p q : PhysicalMemory) : Prop := ∃ seen, q = {p with touched := seen}

theorem Glanced.of_looked (looked : Looked p q) : Glanced p q := by
  obtain ⟨seen,rfl,_⟩ := looked
  exact ⟨_,rfl⟩

theorem Glanced.trans (one : Glanced p q) (two : Glanced q r) : Glanced p r := by
  obtain ⟨_,rfl⟩ := one
  obtain ⟨seen,rfl⟩ := two
  exact ⟨seen,rfl⟩

theorem Glanced.lowest (glanced : Glanced p q) (lowest : Lowest p page) : Lowest q page := by
  obtain ⟨seen,rfl⟩ := glanced
  exact ⟨lowest.managed,lowest.free,lowest.below⟩

theorem exists_lowest (member : page ∈ clearPages p) : ∃ first, Lowest p first := by
  have nonempty : ∃ other, other ∈ clearPages p := ⟨page,member⟩
  obtain ⟨managed,free⟩ := mem_clearPages.mp (Nat.find_spec nonempty)
  refine ⟨Nat.find nonempty,managed,free,?_⟩
  intro other before
  by_contra clear
  exact Nat.find_min nonempty before (mem_clearPages.mpr ⟨by omega,by simpa using clear⟩)

theorem findFreePage_lowest (small : p.totalPages < 2^20) (lowest : Lowest p page) : (findFreePage p 0).1 = page := by
  have managed := lowest.managed
  obtain ⟨_,found,below⟩ := findFreeFrom_spec p 0 (p.totalPages - 0) (by omega)
  have first : ∀ other < p.totalPages, other < (findFreePage p 0).1 → bitmapIsSet p other = true :=
    fun other inside before => below other (Nat.zero_le _) (by omega) before
  rcases Nat.lt_trichotomy (findFreePage p 0).1 page with less | same | more
  · rcases found with none | ⟨_,clear⟩
    · have last : (findFreePage p 0).1 = 0xFFFFFFFF := none
      omega
    · have used := lowest.below _ less
      exact absurd (used.symm.trans clear) (by decide)
  · exact same
  · have used := first page managed more
    exact absurd (used.symm.trans lowest.free) (by decide)

theorem findFreePage_none (none : ∀ page, ¬ Lowest p page) : (findFreePage p 0).1 = 0xFFFFFFFF := by
  obtain ⟨_,found⟩ := findFreePage_spec p
  by_contra some
  obtain ⟨first,lowest⟩ := exists_lowest (found some).1
  exact none first lowest

theorem allFree_exact (p : PhysicalMemory) (page left : Nat) : Glanced p (allFree p page left).2 ∧
    ((allFree p page left).1 = true ↔ ∀ i < left, bitmapIsSet p ((page+i) % 2^32) = false) := by
  induction left generalizing p page with
  | zero => exact ⟨⟨p.touched,rfl⟩,by simp [allFree]⟩
  | succ left ih =>
    rw [allFree]
    by_cases used : bitmapIsSet p (page % 2^32) = true
    · rw [if_pos used]
      refine ⟨⟨_,rfl⟩,fun accepted => (by cases accepted),?_⟩
      intro clear
      exact absurd (used.symm.trans (clear 0 (Nat.succ_pos _))) (by decide)
    · rw [if_neg used]
      obtain ⟨glanced,tested⟩ := ih (p.touch (page % 2^32)) (page+1)
      have first : Glanced p (p.touch (page % 2^32)) := ⟨_,rfl⟩
      refine ⟨first.trans glanced,?_⟩
      rw [tested]
      constructor
      · intro clear i bound
        cases i with
        | zero => simpa using used
        | succ i =>
          have later := clear i (by omega)
          rwa [Nat.add_right_comm] at later
      · intro clear i bound
        have later := clear (i+1) (by omega)
        rwa [← Nat.add_assoc,Nat.add_right_comm] at later

theorem attempt (small : p.totalPages < 2^20) (positive : count ≠ 0) (enough : count ≤ p.freePages)
    (lowest : Lowest p page) : ∃ q, Glanced p q ∧
      (((allFree (findFreePage p 0).2 page count).1 = false ∧
          ∀ fuel, pmemAllocPages p count (fuel+1) = pmemAllocPages q count fuel) ∨
        ((allFree (findFreePage p 0).2 page count).1 = true ∧ ∀ fuel, pmemAllocPages p count (fuel+1) =
          some (page * 4096,{markUsed q page count with freePages := (markUsed q page count).freePages - count}))) := by
  have managed := lowest.managed
  have found := findFreePage_lowest small lowest
  have looked := (findFreePage_spec p).1
  have tested := (allFree_exact (findFreePage p 0).2 page count).1
  have address : page * 4096 % 2^32 = page * 4096 := Nat.mod_eq_of_lt (by omega)
  have sentinel : ¬ page = 0xFFFFFFFF := by omega
  refine ⟨(allFree (findFreePage p 0).2 page count).2,(Glanced.of_looked looked).trans tested,?_⟩
  cases outcome : allFree (findFreePage p 0).2 page count with
  | mk accepted q =>
    cases accepted with
    | false =>
      refine .inl ⟨rfl,fun fuel => ?_⟩
      rw [pmemAllocPages,if_neg positive,if_neg (Nat.not_lt.mpr enough)]
      simp only [found,if_neg sentinel,outcome]
    | true =>
      refine .inr ⟨rfl,fun fuel => ?_⟩
      rw [pmemAllocPages,if_neg positive,if_neg (Nat.not_lt.mpr enough)]
      simp only [found,if_neg sentinel,outcome,address]

-- A blocked first candidate is tried again for ever: no attempt changes the bitmap.
theorem retries_forever (small : p.totalPages < 2^20) (positive : count ≠ 0) (enough : count ≤ p.freePages)
    (lowest : Lowest p page) (blocked : ∃ i < count, bitmapIsSet p ((page+i) % 2^32) = true) (fuel : Nat) :
    pmemAllocPages p count fuel = none := by
  suffices stays : ∀ q, Glanced p q → ∃ r, Next (fun q => pmemAllocPages q count) q r ∧ Glanced p r from
    diverges (Glanced p) (fun _ => rfl) stays ⟨p.touched,rfl⟩ fuel
  intro q glanced
  have again := glanced.lowest lowest
  obtain ⟨seen,rfl⟩ := glanced
  obtain ⟨r,next,⟨_,retry⟩ | ⟨accepted,_⟩⟩ := attempt (p := {p with touched := seen}) small positive enough again
  · exact ⟨r,fun fuel => retry fuel,Glanced.trans ⟨seen,rfl⟩ next⟩
  · obtain ⟨i,bound,used⟩ := blocked
    obtain ⟨others,same,_⟩ := (findFreePage_spec {p with touched := seen}).1
    rw [same] at accepted
    have clear := (allFree_exact _ page count).2.mp accepted i bound
    exact absurd (used.symm.trans clear) (by decide)

theorem markUsed_keeps (p : PhysicalMemory) (page left : Nat) (used : bitmapIsSet p other = true) :
    bitmapIsSet (markUsed p page left) other = true := by
  induction left generalizing p page with
  | zero => exact used
  | succ left ih =>
    rw [markUsed]
    refine ih _ _ ?_
    rw [is_set_set,used,Bool.or_true]

theorem markUsed_first (p : PhysicalMemory) (small : page < 2^32) (positive : count ≠ 0) :
    bitmapIsSet (markUsed p page count) page = true := by
  obtain ⟨left,rfl⟩ := Nat.exists_eq_succ_of_ne_zero positive
  rw [markUsed,Nat.mod_eq_of_lt small]
  refine markUsed_keeps _ _ _ ?_
  rw [is_set_set,decide_eq_true rfl,Bool.true_or]

theorem FreeRun.lowest (free : FreeRun p start count) (positive : count ≠ 0) : ∃ page, Lowest p page := by
  have first := free.2 0 (Nat.pos_of_ne_zero positive)
  have managed := free.1
  exact exists_lowest (mem_clearPages.mpr ⟨by omega,first⟩)

theorem direct_met (small : p.totalPages < 2^20) (positive : count ≠ 0) (enough : count ≤ p.freePages)
    (lowest : Lowest p page) (free : FreeRun p page count) :
    ∃ result, pmemAllocPages p count 1 = some result ∧ Met p count result := by
  have managed := free.1
  obtain ⟨q,⟨seen,rfl⟩,⟨refused,_⟩ | ⟨_,done⟩⟩ := attempt small positive enough lowest
  · obtain ⟨others,same,_⟩ := (findFreePage_spec p).1
    rw [same] at refused
    have clear : ∀ i < count, bitmapIsSet {p with touched := others ++ p.touched} ((page+i) % 2^32) = false := by
      intro i bound
      rw [Nat.mod_eq_of_lt (by omega)]
      exact free.2 i bound
    have accepted := (allFree_exact _ page count).2.mpr clear
    exact absurd (accepted.symm.trans refused) (by decide)
  · obtain ⟨total,counter,_,_,bits⟩ := markUsed_spec {p with touched := seen} page count (by omega)
    refine ⟨_,done 0,.inl ⟨page,free,rfl,⟨total,managed,free.2,bits⟩,?_⟩⟩
    dsimp only
    rw [counter]

-- Where the lowest free page starts no run of count pages, no attempt meets the request:
-- the test fails and the call never returns, or pages behind the managed ones are marked.
theorem blocked_unmet (small : p.totalPages < 2^20) (positive : count ≠ 0) (enough : count ≤ p.freePages)
    (lowest : Lowest p page) (short : ¬ FreeRun p page count) (ran : pmemAllocPages p count fuel = some result) :
    ¬ Met p count result := by
  have managed := lowest.managed
  obtain ⟨q,⟨seen,rfl⟩,⟨refused,_⟩ | ⟨_,done⟩⟩ := attempt small positive enough lowest
  · have blocked : ∃ i < count, bitmapIsSet p ((page+i) % 2^32) = true := by
      by_contra none
      obtain ⟨others,same,_⟩ := (findFreePage_spec p).1
      rw [same] at refused
      have accepted := (allFree_exact {p with touched := others ++ p.touched} page count).2.mpr (by
        intro i bound
        by_contra clear
        have used : ¬ bitmapIsSet p ((page+i) % 2^32) = false := clear
        exact none ⟨i,bound,by simpa using used⟩)
      exact absurd (accepted.symm.trans refused) (by decide)
    rw [retries_forever small positive enough lowest blocked fuel] at ran
    cases ran
  · cases fuel with
    | zero => cases ran
    | succ fuel =>
      rw [done fuel] at ran
      cases ran
      rintro (⟨start,free,address,_⟩ | ⟨_,_,looked⟩)
      · have same : start = page := by
          dsimp only at address
          omega
        exact short (same ▸ free)
      · have first := markUsed_first {p with touched := seen} (by omega : page < 2^32) positive
        have kept : bitmapIsSet (markUsed {p with touched := seen} page count) page = bitmapIsSet p page :=
          looked.is_set page
        rw [first,lowest.free] at kept
        cases kept

-- For every bitmap and every count: the call comes back, with a free run whenever there is
-- one and with 0 and an unchanged state otherwise, exactly when its first attempt settles it.
theorem alloc_pages_returns (p : PhysicalMemory) (count : Nat) (small : p.totalPages < 2^20) :
    (∃ fuel result, pmemAllocPages p count fuel = some result ∧ (0 < count → Met p count result)) ↔ Direct p count := by
  by_cases empty : count = 0
  · subst empty
    refine ⟨fun _ => .inl rfl,fun _ => ⟨1,(0,p),?_,fun positive => absurd positive (Nat.lt_irrefl 0)⟩⟩
    rw [pmemAllocPages,if_pos rfl]
  have positive : 0 < count := Nat.pos_of_ne_zero empty
  rcases Nat.lt_or_ge p.freePages count with few | enough
  · -- the counter alone decides
    have refused : ∀ fuel, pmemAllocPages p count (fuel+1) = some (0,p) := by
      intro fuel
      rw [pmemAllocPages,if_neg empty,if_pos few]
    constructor
    · rintro ⟨fuel,result,ran,met⟩
      refine .inr (.inl ⟨few,?_⟩)
      cases fuel with
      | zero => cases ran
      | succ fuel =>
        rw [refused fuel] at ran
        cases ran
        rcases met positive with ⟨start,_,_,taken,_⟩ | ⟨none,_⟩
        · have after := taken.bits start
          have before := taken.wereClear 0 positive
          rw [Nat.add_zero] at before
          rw [before,decide_eq_true ⟨Nat.le_refl _,by omega⟩] at after
          cases after
        · exact none
    · rintro (zero | ⟨_,none⟩ | ⟨many,_⟩)
      · exact absurd zero empty
      · exact ⟨1,_,refused 0,fun _ => .inr ⟨none,rfl,.refl p⟩⟩
      · omega
  constructor
  · rintro ⟨fuel,result,ran,met⟩
    refine .inr (.inr ⟨enough,?_⟩)
    intro page lowest
    by_contra short
    exact blocked_unmet small empty enough lowest short ran (met positive)
  · rintro (zero | ⟨few,_⟩ | ⟨_,first⟩)
    · exact absurd zero empty
    · omega
    · by_cases some : ∃ page, Lowest p page
      · obtain ⟨page,lowest⟩ := some
        obtain ⟨result,ran,met⟩ := direct_met small empty enough lowest (first page lowest)
        exact ⟨1,result,ran,fun _ => met⟩
      · have none : ∀ page, ¬ Lowest p page := fun page lowest => some ⟨page,lowest⟩
        refine ⟨1,(0,(findFreePage p 0).2),?_,fun _ => .inr ⟨?_,rfl,(findFreePage_spec p).1⟩⟩
        · rw [pmemAllocPages,if_neg empty,if_neg (Nat.not_lt.mpr enough)]
          simp only [findFreePage_none none,if_true]
        · intro start free
          exact some (free.lowest empty)

theorem alloc_pages_returns_fragmented : ∃ p : PhysicalMemory, p.totalPages = 5 ∧
    ((∃ fuel result, pmemAllocPages p 2 fuel = some result ∧ (0 < 2 → Met p 2 result)) ↔ Direct p 2) :=
  ⟨⟨0x5000,fun _ => 5,5,3,1,[]⟩,rfl,alloc_pages_returns _ 2 (by decide)⟩

theorem Exact.direct_iff (exact : Exact reserved p) :
    Direct p count ↔ count = 0 ∨ p.freePages < count ∨ ∀ page, Lowest p page → FreeRun p page count := by
  have none : p.freePages < count → ∀ start, ¬ FreeRun p start count := by
    intro few start free
    have subset : Finset.Ico start (start+count) ⊆ clearPages p := by
      intro other member
      obtain ⟨low,high⟩ := Finset.mem_Ico.mp member
      have clear := free.2 (other-start) (by omega)
      rw [Nat.add_sub_cancel' low] at clear
      exact mem_clearPages.mpr ⟨Nat.lt_of_lt_of_le high free.1,clear⟩
    have card := Finset.card_le_card subset
    rw [Nat.card_Ico,Nat.add_sub_cancel_left,← exact.counted] at card
    omega
  constructor
  · rintro (zero | ⟨few,_⟩ | ⟨_,first⟩)
    · exact .inl zero
    · exact .inr (.inl few)
    · exact .inr (.inr first)
  · rintro (zero | few | first)
    · exact .inl zero
    · exact .inr (.inl ⟨few,none few⟩)
    · rcases Nat.lt_or_ge p.freePages count with few | enough
      · exact .inr (.inl ⟨few,none few⟩)
      · exact .inr (.inr ⟨enough,first⟩)

-- Five pages, the first for the bitmap: allocate two, give the first of them back, and ask
-- for two. Pages 3 and 4 are free, and the call never returns.
theorem second_gap_never_found :
    FreeRun (pmemFreePage (pmemAllocPage (pmemAllocPage (pmemInit (fun _ => 255) 0x100000 0x5000)).2).2 0x1000) 3 2 ∧
    ∀ fuel, pmemAllocPages
      (pmemFreePage (pmemAllocPage (pmemAllocPage (pmemInit (fun _ => 255) 0x100000 0x5000)).2).2 0x1000) 2 fuel = none := by
  refine ⟨⟨by decide,by decide⟩,?_⟩
  have lowest : Lowest (pmemFreePage (pmemAllocPage (pmemAllocPage (pmemInit (fun _ => 255) 0x100000 0x5000)).2).2
    0x1000) 1 := ⟨by decide,by decide,by decide⟩
  exact retries_forever (by decide) (by decide) (by decide) lowest ⟨1,by decide,by decide⟩

end SantOS.Pmem
