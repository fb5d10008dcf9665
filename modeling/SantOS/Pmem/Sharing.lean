import Mathlib.Data.List.Nodup
import SantOS.Library.Runs
import SantOS.Pmem.Exactness

namespace SantOS.Pmem
open Runs

-- The label of an allocation carries the address the call returned.
inductive Call where
  | allocPage (returned : Nat)
  | allocPages (count returned : Nat)
  | freePage (addr : Nat)
  | freePages (addr count : Nat)

def handedOut (addr count : Nat) : List Nat :=
  if addr = 0 then [] else (List.range count).map (addr/4096 + ·)

-- The allocator beside the pages its callers hold: one entry for each time a page
-- was handed out and not freed since.
structure Ledger where
  pmem : PhysicalMemory
  held : List Nat

def Ledger.start (before : Nat → Nat) (memoryStart memorySize : Nat) : Ledger :=
  ⟨pmemInit before memoryStart memorySize,[]⟩

inductive Step : Ledger → Call → Ledger → Prop where
  | allocPage (ran : pmemAllocPage l.pmem = (addr,p)) :
      Step l (.allocPage addr) ⟨p,handedOut addr 1 ++ l.held⟩
  | allocPages (ran : pmemAllocPages l.pmem count fuel = some (addr,p)) :
      Step l (.allocPages count addr) ⟨p,handedOut addr count ++ l.held⟩
  | freePage (held : addr/4096 ∈ l.held) :
      Step l (.freePage addr) ⟨pmemFreePage l.pmem addr,l.held.filter (· ≠ addr/4096)⟩
  | freePages (held : ∀ i < count, addr/4096 + i ∈ l.held) :
      Step l (.freePages addr count)
        ⟨pmemFreePages l.pmem addr count,
          l.held.filter (fun page => ¬ (addr/4096 ≤ page ∧ page < addr/4096 + count))⟩

structure Exclusive (memorySize : Nat) (l : Ledger) : Prop where
  exact : Exact (bitmapPages memorySize) l.pmem
  total : l.pmem.totalPages = pagesOf memorySize
  distinct : l.held.Nodup
  used : ∀ page ∈ l.held, bitmapPages memorySize ≤ page ∧ page < l.pmem.totalPages ∧
    bitmapIsSet l.pmem page = true

theorem start_exclusive (before : Nat → Nat) (memoryStart : Nat) {memorySize : Nat} (word : memorySize < 2^32) :
    Exclusive memorySize (.start before memoryStart memorySize) :=
  ⟨pmemInit_exact before memoryStart word,pmemInit_total before memoryStart word,List.nodup_nil,
    fun _ member => by cases member⟩

theorem mem_handedOut {page start count : Nat} (present : start ≠ 0) :
    page ∈ handedOut (start*4096) count ↔ start ≤ page ∧ page < start + count := by
  have address : start*4096 ≠ 0 := by omega
  rw [handedOut,if_neg address,Nat.mul_div_cancel _ (by decide)]
  simp only [List.mem_map,List.mem_range]
  constructor
  · rintro ⟨i,bound,rfl⟩; omega
  · intro range; exact ⟨page - start,by omega,by omega⟩

theorem handedOut_nodup (addr count : Nat) : (handedOut addr count).Nodup := by
  unfold handedOut
  split
  · exact List.nodup_nil
  · exact List.nodup_range.map (fun i j equal => Nat.add_left_cancel equal)

theorem allocates_exclusive (valid : Exclusive memorySize l)
    (allocated : Allocates (bitmapPages memorySize) count l.pmem (addr,p)) :
    Exclusive memorySize ⟨p,handedOut addr count ++ l.held⟩ := by
  obtain ⟨exact,outcome⟩ := allocated
  dsimp only at exact outcome
  rcases outcome with ⟨rfl,looked⟩ | ⟨start,rfl,taken,_⟩
  · refine ⟨exact,looked.total.trans valid.total,by simpa [handedOut] using valid.distinct,?_⟩
    intro page member
    obtain ⟨low,high,bit⟩ := valid.used page (by simpa [handedOut] using member)
    refine ⟨low,?_,?_⟩
    · rw [looked.total]; exact high
    · rw [looked.is_set]; exact bit
  · have wasClear : ∀ page, start ≤ page → page < start + count → bitmapIsSet l.pmem page = false := by
      intro page low high
      have clear := taken.wereClear (page-start) (by omega)
      rwa [Nat.add_sub_cancel' low] at clear
    have kept : ∀ page ∈ l.held, bitmapPages memorySize ≤ page ∧ page < p.totalPages ∧
        bitmapIsSet p page = true := by
      intro page member
      obtain ⟨low,high,bit⟩ := valid.used page member
      refine ⟨low,?_,?_⟩
      · rw [taken.total]; exact high
      · rw [taken.bits,bit,Bool.or_true]
    rcases Nat.eq_zero_or_pos start with rfl | positive
    · refine ⟨exact,taken.total.trans valid.total,?_,?_⟩
      · simpa [handedOut] using valid.distinct
      · intro page member
        exact kept page (by simpa [handedOut] using member)
    · have present : start ≠ 0 := Nat.ne_of_gt positive
      refine ⟨exact,taken.total.trans valid.total,?_,?_⟩
      · refine List.nodup_append'.mpr ⟨handedOut_nodup _ _,valid.distinct,?_⟩
        intro page new old
        obtain ⟨low,high⟩ := (mem_handedOut present).mp new
        have set := (valid.used page old).2.2
        rw [wasClear page low high] at set
        cases set
      · intro page member
        rcases List.mem_append.mp member with new | old
        · obtain ⟨low,high⟩ := (mem_handedOut present).mp new
          refine ⟨?_,?_,?_⟩
          · by_contra own
            have set := valid.exact.own page (Nat.not_le.mp own)
            rw [wasClear page low high] at set
            cases set
          · have managed := taken.managed
            have total := taken.total
            show page < p.totalPages
            omega
          · rw [taken.bits,decide_eq_true ⟨low,high⟩,Bool.true_or]
        · exact kept page old

theorem freePagesFrom_spec {p : PhysicalMemory} {addr i : Nat} (exact : Exact reserved p)
    (low : reserved ≤ addr/4096 + i) (managed : left = 0 ∨ addr/4096 + i + left ≤ p.totalPages) :
    Exact reserved (freePagesFrom p addr i left) ∧
      (freePagesFrom p addr i left).totalPages = p.totalPages ∧
      ∀ page, ¬ (addr/4096 + i ≤ page ∧ page < addr/4096 + i + left) →
        bitmapIsSet (freePagesFrom p addr i left) page = bitmapIsSet p page := by
  induction left generalizing p i with
  | zero => exact ⟨exact,rfl,fun _ _ => rfl⟩
  | succ left ih =>
    have small := exact.small
    have here : (addr + i*4096) % 2^32 / 4096 = addr/4096 + i := by omega
    have outside : reserved ≤ (addr + i*4096) % 2^32 / 4096 := by rw [here]; exact low
    obtain ⟨exactNext,total,others⟩ := pmemFreePage_spec exact outside
    rw [here] at others
    obtain ⟨exactEnd,totalEnd,rest⟩ := ih exactNext (by omega) (.inr (by omega)) (i := i+1)
    refine ⟨exactEnd,totalEnd.trans total,?_⟩
    intro page outside
    rw [freePagesFrom,rest page (by omega),others page (by omega)]

theorem releases_exclusive (valid : Exclusive memorySize l) {kept : Nat → Bool} (exact : Exact (bitmapPages memorySize) p)
    (total : p.totalPages = l.pmem.totalPages) (others : ∀ page, kept page = true → bitmapIsSet p page = bitmapIsSet l.pmem page) :
    Exclusive memorySize ⟨p,l.held.filter kept⟩ := by
  refine ⟨exact,total.trans valid.total,valid.distinct.filter _,?_⟩
  intro page member
  obtain ⟨old,apart⟩ := List.mem_filter.mp member
  obtain ⟨low,high,bit⟩ := valid.used page old
  refine ⟨low,?_,?_⟩
  · rw [total]; exact high
  · rw [others page apart]; exact bit

theorem step_exclusive (valid : Exclusive memorySize l) (step : Step l call next) :
    Exclusive memorySize next := by
  cases step with
  | allocPage ran =>
    have allocated := pmemAllocPage_spec valid.exact
    rw [ran] at allocated
    exact allocates_exclusive valid allocated
  | allocPages ran => exact allocates_exclusive valid (pmemAllocPages_spec valid.exact ran)
  | @freePage addr _ held =>
    obtain ⟨low,_,_⟩ := valid.used _ held
    obtain ⟨exact,total,others⟩ := pmemFreePage_spec valid.exact low
    exact releases_exclusive valid exact total (fun page apart => others page (by simpa using apart))
  | @freePages count addr _ held =>
    have bounds : count = 0 ∨ (bitmapPages memorySize ≤ addr/4096 ∧
        addr/4096 + 0 + count ≤ l.pmem.totalPages) := by
      rcases Nat.eq_zero_or_pos count with zero | positive
      · exact .inl zero
      · have first := (valid.used _ (held 0 positive)).1
        have last := (valid.used _ (held (count-1) (by omega))).2.1
        exact .inr ⟨first,by omega⟩
    rcases bounds with rfl | ⟨low,managed⟩
    · have same : l.held.filter (fun page => ¬ (addr/4096 ≤ page ∧ page < addr/4096 + 0)) = l.held := by
        rw [List.filter_eq_self]
        intro page _
        simp only [decide_eq_true_eq]
        omega
      rw [same]
      exact valid
    · obtain ⟨exact,total,others⟩ := freePagesFrom_spec (i := 0) valid.exact low (.inr managed)
      refine releases_exclusive valid exact total (fun page apart => others page ?_)
      simpa only [Nat.add_zero] using of_decide_eq_true apart

theorem runs_exclusive (word : memorySize < 2^32)
    (path : Run Step (.start before memoryStart memorySize) calls l) : Exclusive memorySize l :=
  path.invariant (fun _ _ _ valid step => step_exclusive valid step) (start_exclusive before memoryStart word)

-- Every returned run is disjoint from the held pages: the call extends the run, and
-- the extended ledger again lists no page twice.
theorem allocation_fresh (word : memorySize < 2^32)
    (path : Run Step (.start before memoryStart memorySize) calls l)
    (step : Step l call ⟨p,handedOut addr count ++ l.held⟩) :
    ∀ page ∈ handedOut addr count, page ∉ l.held := by
  have extended := runs_exclusive word (path.append (.single step))
  intro page new old
  exact (List.nodup_append'.mp extended.distinct).2.2 new old

theorem live_pages_exclusive (word : memorySize < 2^32)
    (path : Run Step (.start before memoryStart memorySize) calls l) :
    l.pmem.totalPages = pagesOf memorySize ∧
    l.pmem.freePages = ((Finset.range l.pmem.totalPages).filter
      (fun page => bitmapIsSet l.pmem page = false)).card ∧
    (∀ page ∈ l.pmem.touched, page < l.pmem.totalPages) ∧
    (∀ page < bitmapPages memorySize, bitmapIsSet l.pmem page = true) ∧
    l.held.Nodup ∧
    (∀ addr p, pmemAllocPage l.pmem = (addr,p) → ∀ page ∈ handedOut addr 1, page ∉ l.held) ∧
    (∀ count fuel addr p, pmemAllocPages l.pmem count fuel = some (addr,p) →
      ∀ page ∈ handedOut addr count, page ∉ l.held) := by
  have valid := runs_exclusive word path
  exact ⟨valid.total,valid.exact.counted,valid.exact.inside,valid.exact.own,valid.distinct,
    fun _ _ ran => allocation_fresh word path (.allocPage ran),
    fun _ _ _ _ ran => allocation_fresh word path (.allocPages ran)⟩

theorem live_pages_exclusive_example : ∃ l : Ledger, l.held = [2,3] ∧ l.pmem.freePages = 5 ∧ l.held.Nodup := by
  have path : Run Step (.start (fun _ => 255) 0x800000 32768)
      [.allocPage 4096,.allocPages 2 8192,.freePage 4096] _ :=
    .cons (.allocPage rfl)
      (.cons (.allocPages (show pmemAllocPages _ 2 1 = some (8192,_) from rfl))
        (.cons (.freePage (.tail _ (.tail _ (.head _)))) .nil))
  exact ⟨_,by decide,by decide,(live_pages_exclusive (by decide) path).2.2.2.2.1⟩

end SantOS.Pmem
