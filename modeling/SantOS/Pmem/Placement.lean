import SantOS.Pmem.Sharing

namespace SantOS.Pmem
open Runs

-- Where the managed pages, the bitmap and the live boot page tables lie. The bitmap
-- is stored at memory_start, and boot2 leaves PML4, PDPT and PD at 0x1000-0x3FFF.
def Placed (memoryStart memorySize a : Nat) : Prop :=
  memoryStart ≤ a ∧ a + 4096 ≤ memoryStart + memorySize ∧
  (∀ i < bitmapBytes memorySize, (memoryStart + i)/4096 ≠ a/4096) ∧
  (a + 4096 ≤ 0x1000 ∨ 0x4000 ≤ a)

-- Here a caller may free any address an allocation returned, freed already or not.
structure History where
  pmem : PhysicalMemory
  returned : List Nat

def History.start (before : Nat → Nat) (memoryStart memorySize : Nat) : History :=
  ⟨pmemInit before memoryStart memorySize,[]⟩

def returnedPages (addr count : Nat) : List Nat :=
  if addr = 0 then [] else (List.range count).map (fun i => addr + i*4096)

inductive Returns : History → Call → History → Prop where
  | allocPage (ran : pmemAllocPage h.pmem = (addr,p)) :
      Returns h (.allocPage addr) ⟨p,returnedPages addr 1 ++ h.returned⟩
  | allocPages (ran : pmemAllocPages h.pmem count fuel = some (addr,p)) :
      Returns h (.allocPages count addr) ⟨p,returnedPages addr count ++ h.returned⟩
  | freePage (returned : addr ∈ h.returned) :
      Returns h (.freePage addr) ⟨pmemFreePage h.pmem addr,h.returned⟩

-- What is actually returned: page indices times 4096, from the first page behind
-- the bitmap's own pages on. memory_start is never added.
structure Indexed (memorySize : Nat) (h : History) : Prop where
  exact : Exact (bitmapPages memorySize) h.pmem
  total : h.pmem.totalPages = pagesOf memorySize
  pages : ∀ a ∈ h.returned, ∃ page, a = page*4096 ∧ bitmapPages memorySize ≤ page ∧ page < pagesOf memorySize

theorem start_indexed (before : Nat → Nat) (memoryStart : Nat) {memorySize : Nat} (word : memorySize < 2^32) :
    Indexed memorySize (.start before memoryStart memorySize) :=
  ⟨pmemInit_exact before memoryStart word,pmemInit_total before memoryStart word,
    fun _ member => by cases member⟩

theorem allocates_indexed (valid : Indexed memorySize h)
    (allocated : Allocates (bitmapPages memorySize) count h.pmem (addr,p)) :
    Indexed memorySize ⟨p,returnedPages addr count ++ h.returned⟩ := by
  obtain ⟨exact,outcome⟩ := allocated
  dsimp only at exact outcome
  rcases outcome with ⟨rfl,looked⟩ | ⟨start,rfl,taken,_⟩
  · exact ⟨exact,looked.total.trans valid.total,by simpa [returnedPages] using valid.pages⟩
  · refine ⟨exact,taken.total.trans valid.total,?_⟩
    intro a member
    rcases List.mem_append.mp member with new | old
    · rw [returnedPages] at new
      split at new
      · cases new
      · obtain ⟨i,bound,rfl⟩ := List.mem_map.mp new
        have inside : i < count := List.mem_range.mp bound
        have managed := taken.managed
        rw [valid.total] at managed
        refine ⟨start+i,by omega,?_,by omega⟩
        by_contra own
        have set := valid.exact.own (start+i) (Nat.not_le.mp own)
        rw [taken.wereClear i inside] at set
        cases set
    · exact valid.pages a old

theorem returns_indexed (valid : Indexed memorySize h) (step : Returns h call next) : Indexed memorySize next := by
  cases step with
  | allocPage ran =>
    have allocated := pmemAllocPage_spec valid.exact
    rw [ran] at allocated
    exact allocates_indexed valid allocated
  | allocPages ran => exact allocates_indexed valid (pmemAllocPages_spec valid.exact ran)
  | @freePage addr _ returned =>
    obtain ⟨page,rfl,low,_⟩ := valid.pages _ returned
    have outside : bitmapPages memorySize ≤ page*4096/4096 := by rwa [Nat.mul_div_cancel _ (by decide)]
    obtain ⟨exact,total,_⟩ := pmemFreePage_spec valid.exact outside
    exact ⟨exact,total.trans valid.total,valid.pages⟩

theorem first_page_returned (before : Nat → Nat) (memoryStart : Nat) {memorySize : Nat} (word : memorySize < 2^32)
    (room : bitmapPages memorySize < pagesOf memorySize) :
    (pmemAllocPage (pmemInit before memoryStart memorySize)).1 = bitmapPages memorySize * 4096 := by
  have exact := pmemInit_exact before memoryStart word
  have total := pmemInit_total before memoryStart word
  have bits := pmemInit_bits before memoryStart word
  have first : bitmapPages memorySize ∈ clearPages (pmemInit before memoryStart memorySize) := by
    rw [mem_clearPages,total,bits _ room]
    exact ⟨room,decide_eq_false (Nat.lt_irrefl _)⟩
  have nonempty : (pmemInit before memoryStart memorySize).freePages ≠ 0 := by
    rw [exact.counted]
    exact Finset.card_ne_zero_of_mem first
  obtain ⟨looked,found⟩ := findFreePage_spec (pmemInit before memoryStart memorySize)
  have small := pagesOf_lt word
  have searched : (findFreePage (pmemInit before memoryStart memorySize) 0).1 = bitmapPages memorySize := by
    obtain ⟨_,candidates,below⟩ := findFreeFrom_spec (pmemInit before memoryStart memorySize) 0
      (pagesOf memorySize) (by rw [total]; omega)
    have run : findFreePage (pmemInit before memoryStart memorySize) 0 =
        findFreeFrom (pmemInit before memoryStart memorySize) 0 (pagesOf memorySize) := by
      rw [findFreePage,total,Nat.sub_zero]
    have some : (findFreePage (pmemInit before memoryStart memorySize) 0).1 ≠ 0xFFFFFFFF := by
      intro none
      have set := below _ (Nat.zero_le _) (by rw [Nat.zero_add]; exact room) (by rw [← run,none]; omega)
      rw [(mem_clearPages.mp first).2] at set
      cases set
    obtain ⟨member,least⟩ := found some
    obtain ⟨managed,clear⟩ := mem_clearPages.mp member
    rw [total] at managed
    rw [bits _ managed] at clear
    have low : bitmapPages memorySize ≤ (findFreePage (pmemInit before memoryStart memorySize) 0).1 :=
      Nat.not_lt.mp (of_decide_eq_false clear)
    exact Nat.le_antisymm (least _ first) low
  unfold pmemAllocPage
  rw [if_neg nonempty]
  generalize findFreePage (pmemInit before memoryStart memorySize) 0 = result at searched
  rcases result with ⟨page,q⟩
  dsimp only at searched ⊢
  subst searched
  rw [if_neg (by omega)]
  exact Nat.mod_eq_of_lt (by omega)

-- Every page of every run is placed correctly exactly when no page can be handed out
-- at all, or the bitmap fills the first four pages of memory and ends there.
theorem pages_placed_iff (before : Nat → Nat) {memoryStart memorySize : Nat} (word : memorySize < 2^32) :
    (∀ calls h, Run Returns (.start before memoryStart memorySize) calls h →
      ∀ a ∈ h.returned, Placed memoryStart memorySize a) ↔
    (memorySize < 8192 ∨
      (4 ≤ bitmapPages memorySize ∧
        memoryStart + bitmapBytes memorySize ≤ bitmapPages memorySize * 4096)) := by
  constructor
  · intro placed
    by_cases tiny : memorySize < 8192
    · exact .inl tiny
    · right
      have room : bitmapPages memorySize < pagesOf memorySize := by
        unfold bitmapPages bitmapBytes pagesOf; omega
      have positive : 0 < bitmapPages memorySize := by
        unfold bitmapPages bitmapBytes pagesOf; omega
      have first := first_page_returned before memoryStart word room
      have run : Run Returns (.start before memoryStart memorySize)
          [.allocPage (bitmapPages memorySize * 4096)] _ :=
        .single (.allocPage (p := (pmemAllocPage (pmemInit before memoryStart memorySize)).2)
          (by rw [← first]; rfl))
      obtain ⟨low,high,bitmap,tables⟩ := placed _ _ run (bitmapPages memorySize * 4096) (by
        have present : bitmapPages memorySize * 4096 ≠ 0 := by omega
        simp [returnedPages,present])
      refine ⟨by omega,?_⟩
      by_contra beyond
      -- the bitmap then reaches into the page it is supposed to leave free
      have holds := bitmap (bitmapPages memorySize * 4096 - memoryStart) (by omega)
      rw [Nat.add_sub_cancel' low] at holds
      exact holds rfl
  · intro condition calls h path a member
    have valid := path.invariant (fun _ _ _ valid step => returns_indexed valid step)
      (start_indexed before memoryStart word)
    obtain ⟨page,rfl,low,managed⟩ := valid.pages a member
    rcases condition with tiny | ⟨four,bottom⟩
    · unfold bitmapPages bitmapBytes pagesOf at *
      omega
    · have top : pagesOf memorySize * 4096 ≤ memorySize := Nat.div_mul_le_self _ _
      have last : (page+1) * 4096 ≤ pagesOf memorySize * 4096 := Nat.mul_le_mul_right _ managed
      rw [Nat.succ_mul] at last
      have upper : page*4096 + 4096 ≤ memoryStart + memorySize :=
        Nat.le_trans last (Nat.le_trans top (Nat.le_add_left ..))
      have lower : memoryStart + bitmapBytes memorySize ≤ page*4096 :=
        Nat.le_trans bottom (Nat.mul_le_mul_right _ low)
      have tables : 4*4096 ≤ page*4096 := Nat.mul_le_mul_right _ (Nat.le_trans four low)
      refine ⟨Nat.le_trans (Nat.le_add_right ..) lower,upper,?_,.inr tables⟩
      intro i inside
      omega

theorem pages_placed_iff_at_8mb :
    (∀ calls h, Run Returns (.start (fun _ => 0) 0x800000 0x7800000) calls h →
      ∀ a ∈ h.returned, Placed 0x800000 0x7800000 a) ↔
    (0x7800000 < 8192 ∨
      (4 ≤ bitmapPages 0x7800000 ∧ 0x800000 + bitmapBytes 0x7800000 ≤ bitmapPages 0x7800000 * 4096)) :=
  pages_placed_iff (fun _ => 0) (by decide)

-- kernel_main's call on a 128 MB machine: the first page handed out is boot2's PML4.
theorem first_page_is_pml4 : ∃ h, Run Returns (.start (fun _ => 0) 0x800000 0x7800000) [.allocPage 0x1000] h ∧
    0x1000 ∈ h.returned ∧ ¬ Placed 0x800000 0x7800000 0x1000 := by
  have ran : (pmemAllocPage (pmemInit (fun _ => 0) 0x800000 0x7800000)).1 = 0x1000 := by decide
  refine ⟨_,.single (.allocPage (p := (pmemAllocPage (pmemInit (fun _ => 0) 0x800000 0x7800000)).2) ?_),?_,?_⟩
  · rw [← ran]; rfl
  · simp [returnedPages]
  · intro placed
    exact absurd placed.1 (by decide)

end SantOS.Pmem
