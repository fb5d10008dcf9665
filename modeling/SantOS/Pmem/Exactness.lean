import Mathlib.Data.Finset.Card
import Mathlib.Order.Interval.Finset.Nat
import SantOS.Pmem.Allocator

namespace SantOS.Pmem

theorem is_set_iff (p : PhysicalMemory) (page : Nat) :
    bitmapIsSet p page = (p.bitmap (page/8)).testBit (page%8) := by
  rw [bitmapIsSet,Nat.one_shiftLeft,Nat.and_two_pow]
  cases (p.bitmap (page/8)).testBit (page%8) <;> simp

theorem same_bit {page other : Nat} : (other/8 = page/8 ∧ other%8 = page%8) ↔ other = page := by omega

theorem is_set_set (p : PhysicalMemory) (page other : Nat) :
    bitmapIsSet (bitmapSet p page) other = (decide (other = page) || bitmapIsSet p other) := by
  rw [is_set_iff,is_set_iff,bitmapSet]
  by_cases byte : other/8 = page/8
  · by_cases bit : other%8 = page%8
    · have equal : other = page := same_bit.mp ⟨byte,bit⟩
      simp [equal,Nat.one_shiftLeft]
    · have apart : other ≠ page := fun equal => bit (by rw [equal])
      simp [byte,apart,Nat.one_shiftLeft,Ne.symm bit]
  · have apart : other ≠ page := fun equal => byte (by rw [equal])
    simp [byte,apart]

theorem is_set_clear (p : PhysicalMemory) (page other : Nat) :
    bitmapIsSet (bitmapClear p page) other = (decide (other ≠ page) && bitmapIsSet p other) := by
  rw [is_set_iff,is_set_iff,bitmapClear]
  have low : other%8 < 8 := Nat.mod_lt _ (by decide)
  have ones : Nat.testBit 255 (other%8) = true := by
    have mask : (255 : Nat) = 2^8 - 1 := rfl
    rw [mask,Nat.testBit_two_pow_sub_one]
    simpa using low
  by_cases byte : other/8 = page/8
  · by_cases bit : other%8 = page%8
    · have equal : other = page := same_bit.mp ⟨byte,bit⟩
      subst equal
      simp [Nat.one_shiftLeft,ones]
    · have apart : other ≠ page := fun equal => bit (by rw [equal])
      simp [byte,apart,Nat.one_shiftLeft,Ne.symm bit,ones]
  · have apart : other ≠ page := fun equal => byte (by rw [equal])
    simp [byte,apart]

def clearPages (p : PhysicalMemory) : Finset Nat :=
  (Finset.range p.totalPages).filter (fun page => bitmapIsSet p page = false)

theorem mem_clearPages {p : PhysicalMemory} {page : Nat} :
    page ∈ clearPages p ↔ page < p.totalPages ∧ bitmapIsSet p page = false := by
  simp [clearPages]

theorem clearPages_clear (p : PhysicalMemory) {page : Nat} (managed : page < p.totalPages) :
    clearPages (bitmapClear p page) = insert page (clearPages p) := by
  ext other
  rw [Finset.mem_insert,mem_clearPages,mem_clearPages,is_set_clear]
  by_cases equal : other = page <;> simp [equal,bitmapClear,PhysicalMemory.touch,managed]

-- The counter is exact, the bitmap's own pages stay used and no bit outside the
-- managed range was ever looked at. `total_pages` is a uint32_t divided by 4096.
structure Exact (reserved : Nat) (p : PhysicalMemory) : Prop where
  small : p.totalPages < 2^20
  counted : p.freePages = (clearPages p).card
  own : ∀ page < reserved, bitmapIsSet p page = true
  inside : ∀ page ∈ p.touched, page < p.totalPages

def Looked (p q : PhysicalMemory) : Prop :=
  ∃ seen, q = {p with touched := seen ++ p.touched} ∧ ∀ page ∈ seen, page < p.totalPages

theorem Looked.refl (p : PhysicalMemory) : Looked p p := ⟨[],rfl,by simp⟩

theorem Looked.trans {p q r : PhysicalMemory} (one : Looked p q) (two : Looked q r) : Looked p r := by
  obtain ⟨seen,rfl,bound⟩ := one
  obtain ⟨more,rfl,boundMore⟩ := two
  refine ⟨more ++ seen,by simp [List.append_assoc],?_⟩
  intro other listed
  rcases List.mem_append.mp listed with late | early
  · exact boundMore other late
  · exact bound other early

theorem Looked.touch {p q : PhysicalMemory} {page : Nat} (managed : page < p.totalPages)
    (rest : Looked (p.touch page) q) : Looked p q := by
  have first : Looked p (p.touch page) := ⟨[page],rfl,fun other member => List.mem_singleton.mp member ▸ managed⟩
  exact first.trans rest

theorem Looked.exact {p q : PhysicalMemory} (looked : Looked p q) (exact : Exact reserved p) : Exact reserved q := by
  obtain ⟨seen,rfl,bound⟩ := looked
  refine ⟨exact.small,exact.counted,exact.own,?_⟩
  intro page member
  rcases List.mem_append.mp member with new | old
  · exact bound page new
  · exact exact.inside page old

theorem Looked.is_set {p q : PhysicalMemory} (looked : Looked p q) (page : Nat) :
    bitmapIsSet q page = bitmapIsSet p page := by obtain ⟨seen,rfl,_⟩ := looked; rfl
theorem Looked.total {p q : PhysicalMemory} (looked : Looked p q) : q.totalPages = p.totalPages := by
  obtain ⟨seen,rfl,_⟩ := looked; rfl
theorem Looked.free {p q : PhysicalMemory} (looked : Looked p q) : q.freePages = p.freePages := by
  obtain ⟨seen,rfl,_⟩ := looked; rfl

theorem findFreeFrom_spec (p : PhysicalMemory) (page left : Nat) (managed : page + left ≤ p.totalPages) :
    Looked p (findFreeFrom p page left).2 ∧
      ((findFreeFrom p page left).1 = 0xFFFFFFFF ∨
        ((findFreeFrom p page left).1 < page + left ∧
          bitmapIsSet p (findFreeFrom p page left).1 = false)) ∧
      (∀ other, page ≤ other → other < page + left → other < (findFreeFrom p page left).1 →
        bitmapIsSet p other = true) := by
  induction left generalizing p page with
  | zero => exact ⟨.refl p,.inl rfl,fun other low high => by omega⟩
  | succ left ih =>
    rw [findFreeFrom]
    by_cases used : bitmapIsSet p page = true
    · rw [if_pos used]
      obtain ⟨looked,found,below⟩ := ih (p.touch page) (page+1) (by simpa [PhysicalMemory.touch] using by omega)
      refine ⟨looked.touch (by omega),?_,?_⟩
      · rcases found with none | ⟨bound,clear⟩
        · exact .inl none
        · exact .inr ⟨by omega,clear⟩
      · intro other low high before
        by_cases first : other = page
        · rw [first]; exact used
        · exact below other (by omega) (by omega) before
    · rw [if_neg used]
      have clear : bitmapIsSet p page = false := by simpa using used
      refine ⟨(Looked.refl _).touch (by omega),.inr ⟨by simp,clear⟩,?_⟩
      intro other low high before
      exact absurd before (Nat.not_lt.mpr low)

theorem findFreePage_spec (p : PhysicalMemory) :
    Looked p (findFreePage p 0).2 ∧
      ((findFreePage p 0).1 ≠ 0xFFFFFFFF →
        (findFreePage p 0).1 ∈ clearPages p ∧
          ∀ other ∈ clearPages p, (findFreePage p 0).1 ≤ other) := by
  have managed : 0 + (p.totalPages - 0) ≤ p.totalPages := by omega
  obtain ⟨looked,found,below⟩ := findFreeFrom_spec p _ _ managed
  refine ⟨looked,fun some => ?_⟩
  rcases found with none | ⟨bound,clear⟩
  · exact absurd none some
  · have bound : (findFreePage p 0).1 < 0 + (p.totalPages - 0) := bound
    refine ⟨mem_clearPages.mpr ⟨by omega,clear⟩,?_⟩
    intro other member
    by_contra smaller
    obtain ⟨inside,free⟩ := mem_clearPages.mp member
    have used := below other (by omega) (by omega) (by exact Nat.not_le.mp smaller)
    rw [free] at used
    cases used

structure Taken (p q : PhysicalMemory) (page count : Nat) : Prop where
  total : q.totalPages = p.totalPages
  managed : page + count ≤ p.totalPages
  wereClear : ∀ i < count, bitmapIsSet p (page+i) = false
  bits : ∀ other, bitmapIsSet q other = (decide (page ≤ other ∧ other < page+count) || bitmapIsSet p other)

theorem Taken.clearPages {p q : PhysicalMemory} (taken : Taken p q page count) :
    clearPages q = clearPages p \ Finset.Ico page (page+count) := by
  ext other
  rw [Finset.mem_sdiff,mem_clearPages,mem_clearPages,taken.bits,taken.total,Finset.mem_Ico]
  by_cases inside : page ≤ other ∧ other < page+count <;> simp [inside]

theorem Taken.card {p q : PhysicalMemory} (taken : Taken p q page count) :
    (Pmem.clearPages q).card = (Pmem.clearPages p).card - count := by
  have subset : Finset.Ico page (page+count) ⊆ Pmem.clearPages p := by
    intro other member
    obtain ⟨low,high⟩ := Finset.mem_Ico.mp member
    have clear := taken.wereClear (other-page) (by omega)
    rw [Nat.add_sub_cancel' low] at clear
    exact mem_clearPages.mpr ⟨Nat.lt_of_lt_of_le high taken.managed,clear⟩
  rw [taken.clearPages,Finset.card_sdiff_of_subset subset,Nat.card_Ico,Nat.add_sub_cancel_left]

theorem Taken.exact {p q : PhysicalMemory} (taken : Taken p q page count) (exact : Exact reserved p)
    (counted : q.freePages = p.freePages - count) (inside : ∀ other ∈ q.touched, other < p.totalPages) :
    Exact reserved q := by
  refine ⟨by rw [taken.total]; exact exact.small,?_,?_,by rw [taken.total]; exact inside⟩
  · rw [counted,taken.card,exact.counted]
  · intro other own
    rw [taken.bits,exact.own other own,Bool.or_true]

theorem markUsed_spec (p : PhysicalMemory) (page left : Nat) (fits : page + left ≤ 2^32) :
    (markUsed p page left).totalPages = p.totalPages ∧
      (markUsed p page left).freePages = p.freePages ∧
      (markUsed p page left).bitmapSize = p.bitmapSize ∧
      (∀ other ∈ (markUsed p page left).touched, other ∈ p.touched ∨ (page ≤ other ∧ other < page+left)) ∧
      ∀ other, bitmapIsSet (markUsed p page left) other =
        (decide (page ≤ other ∧ other < page+left) || bitmapIsSet p other) := by
  induction left generalizing p page with
  | zero =>
    refine ⟨rfl,rfl,rfl,fun other member => .inl member,fun other => ?_⟩
    simp [markUsed]
  | succ left ih =>
    have small : page % 2^32 = page := Nat.mod_eq_of_lt (by omega)
    rw [markUsed,small]
    obtain ⟨total,free,size,looked,bits⟩ := ih (bitmapSet p page) (page+1) (by omega)
    refine ⟨total,free,size,?_,?_⟩
    · intro other member
      rcases looked other member with before | range
      · rcases List.mem_cons.mp before with same | old
        · exact .inr (by omega)
        · exact .inl old
      · exact .inr (by omega)
    · intro other
      rw [bits,is_set_set]
      by_cases first : other = page
      · simp [first]
      · have same : (page+1 ≤ other ∧ other < page+1+left) ↔ (page ≤ other ∧ other < page+(left+1)) := by omega
        rw [decide_eq_false first,Bool.false_or]
        simp only [same]

theorem allFree_spec (p : PhysicalMemory) {page left : Nat} (managed : page + left ≤ p.totalPages)
    (small : p.totalPages < 2^20) :
    Looked p (allFree p page left).2 ∧
      ((allFree p page left).1 = true → ∀ i < left, bitmapIsSet p (page+i) = false) := by
  induction left generalizing p page with
  | zero => exact ⟨.refl p,fun _ i bound => absurd bound (Nat.not_lt_zero _)⟩
  | succ left ih =>
    have same : page % 2^32 = page := Nat.mod_eq_of_lt (by omega)
    rw [allFree,same]
    by_cases used : bitmapIsSet p page = true
    · rw [if_pos used]
      exact ⟨(Looked.refl _).touch (by omega),fun accepted => by cases accepted⟩
    · rw [if_neg used]
      have room : page+1+left ≤ (p.touch page).totalPages := by simp only [PhysicalMemory.touch]; omega
      obtain ⟨looked,clear⟩ := ih (p.touch page) room small
      refine ⟨looked.touch (by omega),?_⟩
      intro accepted i bound
      cases i with
      | zero => simpa using used
      | succ i =>
        have later := clear accepted i (by omega)
        rw [show page+(i+1) = page+1+i by omega]
        exact later

-- One spec for both allocation calls: nothing but the look-up history changes when
-- 0 is returned, and otherwise a clear managed run has been taken.
def Allocates (reserved count : Nat) (p : PhysicalMemory) (result : Nat × PhysicalMemory) : Prop :=
  Exact reserved result.2 ∧
    ((result.1 = 0 ∧ Looked p result.2) ∨
      ∃ page, result.1 = page * 4096 ∧ Taken p result.2 page count ∧ ∀ other ∈ clearPages p, page ≤ other)

theorem pmemAllocPage_spec {p : PhysicalMemory} (exact : Exact reserved p) :
    Allocates reserved 1 p (pmemAllocPage p) := by
  unfold pmemAllocPage
  split
  · exact ⟨exact,.inl ⟨rfl,.refl p⟩⟩
  · obtain ⟨looked,found⟩ := findFreePage_spec p
    generalize findFreePage p 0 = result at looked found
    rcases result with ⟨page,q⟩
    dsimp only at looked found ⊢
    by_cases none : page = 0xFFFFFFFF
    · rw [if_pos none]
      exact ⟨looked.exact exact,.inl ⟨rfl,looked⟩⟩
    · rw [if_neg none]
      obtain ⟨member,lowest⟩ := found none
      obtain ⟨managed,clear⟩ := mem_clearPages.mp member
      have small := exact.small
      have address : page * 4096 % 2^32 = page * 4096 := Nat.mod_eq_of_lt (by omega)
      have taken : Taken p {bitmapSet q page with freePages := q.freePages - 1} page 1 := by
        refine ⟨looked.total,by omega,?_,?_⟩
        · intro i bound
          rw [Nat.lt_one_iff.mp bound]
          exact clear
        · intro other
          have one : (page ≤ other ∧ other < page+1) ↔ other = page := by omega
          have bits := is_set_set q page other
          rw [looked.is_set] at bits
          simp only [one]
          exact bits
      refine ⟨taken.exact exact (by rw [← looked.free]) ?_,.inr ⟨page,address,taken,lowest⟩⟩
      intro other touched
      rcases List.mem_cons.mp touched with same | old
      · exact same ▸ managed
      · exact looked.total ▸ (looked.exact exact).inside other old

theorem Allocates.after_look (looked : Looked p q) (allocates : Allocates reserved count q result) :
    Allocates reserved count p result := by
  obtain ⟨exact,⟨zero,more⟩ | ⟨page,address,taken,lowest⟩⟩ := allocates
  · exact ⟨exact,.inl ⟨zero,looked.trans more⟩⟩
  · obtain ⟨seen,rfl,_⟩ := looked
    exact ⟨exact,.inr ⟨page,address,⟨taken.total,taken.managed,taken.wereClear,taken.bits⟩,lowest⟩⟩

theorem markUsed_taken {p : PhysicalMemory} (page count : Nat) (exact : Exact reserved p)
    (managed : page + count ≤ p.totalPages)
    (clear : ∀ i < count, bitmapIsSet p (page+i) = false) :
    Exact reserved {markUsed p page count with freePages := (markUsed p page count).freePages - count} ∧
      Taken p {markUsed p page count with freePages := (markUsed p page count).freePages - count} page count := by
  have small := exact.small
  obtain ⟨total,free,_,touched,bits⟩ := markUsed_spec p page count (by omega)
  have taken : Taken p {markUsed p page count with freePages := (markUsed p page count).freePages - count} page count :=
    ⟨total,managed,clear,bits⟩
  have counted : (markUsed p page count).freePages - count = p.freePages - count := by rw [free]
  refine ⟨taken.exact exact counted ?_,taken⟩
  intro other listed
  rcases touched other listed with old | range
  · exact exact.inside other old
  · omega

theorem Exact.fits {p : PhysicalMemory} (exact : Exact reserved p) (enough : ¬ p.freePages < count)
    (member : page ∈ clearPages p) (lowest : ∀ other ∈ clearPages p, page ≤ other) : page + count ≤ p.totalPages := by
  have subset : clearPages p ⊆ Finset.Ico page p.totalPages := by
    intro other clear
    exact Finset.mem_Ico.mpr ⟨lowest other clear,(mem_clearPages.mp clear).1⟩
  have fits := Finset.card_le_card subset
  rw [Nat.card_Ico,← exact.counted] at fits
  have below := (mem_clearPages.mp member).1
  omega

theorem pmemAllocPages_spec {p : PhysicalMemory} (exact : Exact reserved p)
    (ran : pmemAllocPages p count fuel = some result) : Allocates reserved count p result := by
  induction fuel generalizing p with
  | zero => cases ran
  | succ fuel ih =>
    unfold pmemAllocPages at ran
    split at ran
    · cases ran; exact ⟨exact,.inl ⟨rfl,.refl p⟩⟩
    · split at ran
      · cases ran; exact ⟨exact,.inl ⟨rfl,.refl p⟩⟩
      · rename_i positive enough
        obtain ⟨looked,found⟩ := findFreePage_spec p
        generalize findFreePage p 0 = searched at looked found ran
        rcases searched with ⟨page,q⟩
        dsimp only at looked found ran
        split at ran
        · cases ran; exact ⟨looked.exact exact,.inl ⟨rfl,looked⟩⟩
        · rename_i some
          obtain ⟨member,lowest⟩ := found some
          have small := exact.small
          have managed := exact.fits enough member lowest
          have room : page + count ≤ q.totalPages := by rw [looked.total]; exact managed
          obtain ⟨again,clear⟩ := allFree_spec q room (by rw [looked.total]; exact small)
          generalize allFree q page count = tested at again clear ran
          rcases tested with ⟨accepted,r⟩
          have both : Looked p r := looked.trans again
          cases accepted with
          | false => exact (ih (both.exact exact) ran).after_look both
          | true =>
            dsimp only at ran
            cases ran
            have address : page * 4096 % 2^32 = page * 4096 := Nat.mod_eq_of_lt (by omega)
            obtain ⟨exactNext,taken⟩ := markUsed_taken page count (both.exact exact)
              (by rw [both.total]; exact managed) (fun i bound => by rw [again.is_set]; exact clear rfl i bound)
            refine Allocates.after_look both ⟨exactNext,.inr ⟨page,address,taken,?_⟩⟩
            intro other free
            refine lowest other (mem_clearPages.mpr ?_)
            rw [← both.total,← both.is_set]
            exact mem_clearPages.mp free

theorem pmemFreePage_spec {p : PhysicalMemory} {addr : Nat} (exact : Exact reserved p)
    (outside : reserved ≤ addr/4096) :
    Exact reserved (pmemFreePage p addr) ∧ (pmemFreePage p addr).totalPages = p.totalPages ∧
      ∀ other, other ≠ addr/4096 →
        bitmapIsSet (pmemFreePage p addr) other = bitmapIsSet p other := by
  unfold pmemFreePage
  split
  · exact ⟨exact,rfl,fun _ _ => rfl⟩
  · split
    · exact ⟨exact,rfl,fun _ _ => rfl⟩
    · rename_i managed
      have managed : addr/4096 < p.totalPages := Nat.not_le.mp managed
      split
      · rename_i used
        have bits := is_set_clear p (addr/4096)
        have fresh : addr/4096 ∉ clearPages p := by
          intro member
          rw [(mem_clearPages.mp member).2] at used
          cases used
        refine ⟨⟨exact.small,?_,?_,?_⟩,rfl,?_⟩
        · have grown := clearPages_clear p managed
          have card := congrArg Finset.card grown
          rw [Finset.card_insert_of_notMem fresh,← exact.counted] at card
          exact card.symm
        · intro page own
          have apart : page ≠ addr/4096 := by omega
          have after := bits page
          rw [exact.own page own,decide_eq_true apart] at after
          exact after
        · intro page listed
          rcases List.mem_cons.mp listed with same | old
          · exact same ▸ managed
          · exact exact.inside page old
        · intro other apart
          have after := bits other
          rw [decide_eq_true apart,Bool.true_and] at after
          exact after
      · have looked : Looked p (p.touch (addr/4096)) := (Looked.refl _).touch managed
        exact ⟨looked.exact exact,rfl,fun other _ => looked.is_set other⟩

theorem pagesOf_lt {memorySize : Nat} (word : memorySize < 2^32) : pagesOf memorySize < 2^20 := by
  unfold pagesOf; omega

theorem bitmapPages_le (memorySize : Nat) : bitmapPages memorySize ≤ pagesOf memorySize := by
  unfold bitmapPages bitmapBytes; omega

theorem pmemInit_total (before : Nat → Nat) (memoryStart : Nat) {memorySize : Nat} (word : memorySize < 2^32) :
    (pmemInit before memoryStart memorySize).totalPages = pagesOf memorySize := by
  have small := pagesOf_lt word
  have own := bitmapPages_le memorySize
  exact (markUsed_spec _ _ _ (by omega)).1

theorem pmemInit_bits (before : Nat → Nat) (memoryStart : Nat) {memorySize : Nat} (word : memorySize < 2^32) (page : Nat)
    (managed : page < pagesOf memorySize) :
    bitmapIsSet (pmemInit before memoryStart memorySize) page = decide (page < bitmapPages memorySize) := by
  have small := pagesOf_lt word
  have own := bitmapPages_le memorySize
  have bits := (markUsed_spec (cleared before memoryStart memorySize) 0 (bitmapPages memorySize)
    (by omega)).2.2.2.2 page
  have inside : page/8 < bitmapBytes memorySize := by unfold bitmapBytes; omega
  have range : (0 ≤ page ∧ page < 0 + bitmapPages memorySize) ↔ page < bitmapPages memorySize := by omega
  have zero : bitmapIsSet (cleared before memoryStart memorySize) page = false := by
    have byte : (cleared before memoryStart memorySize).bitmap (page/8) = 0 := if_pos inside
    rw [is_set_iff,byte,Nat.zero_testBit]
  rw [zero,Bool.or_false] at bits
  simp only [range] at bits
  exact bits

theorem pmemInit_exact (before : Nat → Nat) (memoryStart : Nat) {memorySize : Nat} (word : memorySize < 2^32) :
    Exact (bitmapPages memorySize) (pmemInit before memoryStart memorySize) := by
  have small := pagesOf_lt word
  have own := bitmapPages_le memorySize
  have total := pmemInit_total before memoryStart word
  refine ⟨by rw [total]; exact small,?_,?_,?_⟩
  · have clear : clearPages (pmemInit before memoryStart memorySize) =
        Finset.Ico (bitmapPages memorySize) (pagesOf memorySize) := by
      ext page
      rw [mem_clearPages,total,Finset.mem_Ico]
      constructor
      · intro ⟨managed,clear⟩
        rw [pmemInit_bits before memoryStart word _ managed] at clear
        exact ⟨by simpa using clear,managed⟩
      · intro ⟨low,managed⟩
        exact ⟨managed,by rw [pmemInit_bits before memoryStart word _ managed]; simpa using low⟩
    rw [clear,Nat.card_Ico]
    rfl
  · intro page inside
    rw [pmemInit_bits before memoryStart word _ (by omega)]
    exact decide_eq_true inside
  · intro page listed
    have touched := (markUsed_spec (cleared before memoryStart memorySize) 0 (bitmapPages memorySize)
      (by omega)).2.2.2.1 page listed
    rw [total]
    rcases touched with old | range
    · cases old
    · omega

end SantOS.Pmem
