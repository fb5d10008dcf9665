import SantOS.Boot.MemoryMap

namespace SantOS.Boot

-- What the page allocator may be given: RAM of a single entry, from 8 MB on, inside
-- boot2's identity map and beside the kernel heap at 16 MB.
structure Usable (map : List Entry) (s n : Nat) : Prop where
  ram : ∃ e ∈ map, e.type = e820Ram ∧ ∀ x, s ≤ x → x < s+n → e.base ≤ x ∧ x < e.base + e.length
  floor : 0x800000 ≤ s
  mapped : ∀ x, s ≤ x → x < s+n → x < mappedLimit map
  heap : ∀ x, s ≤ x → x < s+n → ¬ (0x1000000 ≤ x ∧ x < 0x1100000)

-- The exact condition on the largest region [start,stop). A region above 4 GB is
-- judged at the place its start is truncated to.
def Harmless (map : List Entry) (start stop : Nat) : Prop :=
  (0x800000 ≤ stop ∧ stop ≤ 0x40000000 ∧ (stop ≤ 0x1000000 ∨ 0x1100000 ≤ start)) ∨
  (2^32 ≤ start ∧ 0x800000 ≤ start % 2^32 ∧
    start % 2^32 + min (stop-start) 0x40000000 ≤ mappedLimit map ∧
    (start % 2^32 + min (stop-start) 0x40000000 ≤ 0x1000000 ∨ 0x1100000 ≤ start % 2^32) ∧
    ∃ e ∈ map, e.type = e820Ram ∧ e.base ≤ start % 2^32 ∧
      start % 2^32 + min (stop-start) 0x40000000 ≤ e.base + e.length)

theorem mappedLimit_le (map : List Entry) : mappedLimit map ≤ 0x40000000 := Nat.min_le_left ..

theorem Largest.ram (largest : Largest map start stop) :
    ∃ e ∈ map, e.type = e820Ram ∧ e.base ≤ start ∧ stop = e.base + e.length ∧ 0x100000 ≤ start ∧ 0x100000 < stop := by
  obtain ⟨before,e,after,split,cand,rfl,rfl,_,_⟩ := largest
  have above := cand.2
  exact ⟨e,by rw [split]; simp,cand.1,Nat.le_max_left ..,rfl,Nat.le_max_right ..,above⟩

def rangeStart (start : Nat) : Nat := max start 0x800000
def rangeSize (start stop : Nat) : Nat :=
  if stop < 0x800000 then 0x40000000 else min (stop - rangeStart start) 0x40000000

theorem kernelPmemRange_eq {map : List Entry} (parsed : e820Parse map = some map)
    (found : e820FindLargestRegion map = some (start,size)) (sum : start + size = stop)
    (order : start < stop) (fits : stop < 2^64) :
    kernelPmemRange map = (rangeStart start % 2^32,rangeSize start stop) := by
  unfold kernelPmemRange
  simp only [parsed,found]
  have floor : (if start > 0x800000 then start else 0x800000) = rangeStart start := by
    unfold rangeStart; split <;> omega
  rw [floor,sum,Nat.mod_eq_of_lt fits]
  unfold rangeSize rangeStart
  congr 1
  by_cases low : stop < 0x800000
  · rw [if_pos low]
    split <;> omega
  · rw [if_neg low]
    split <;> omega

theorem usable_iff_of_low (largest : Largest map start stop) (low : start < 2^32) (order : start < stop) :
    Usable map (rangeStart start % 2^32) (rangeSize start stop) ↔
      (0x800000 ≤ stop ∧ stop ≤ 0x40000000 ∧ (stop ≤ 0x1000000 ∨ 0x1100000 ≤ start)) := by
  obtain ⟨e,member,ram,base,rfl,above,_⟩ := largest.ram
  have limit := mappedLimit_le map
  have word : rangeStart start % 2^32 = rangeStart start := Nat.mod_eq_of_lt (by unfold rangeStart; omega)
  have floors : start ≤ rangeStart start ∧ 0x800000 ≤ rangeStart start ∧
      (rangeStart start = start ∨ rangeStart start = 0x800000) := by unfold rangeStart; omega
  rw [word,rangeSize]
  generalize rangeStart start = s at *
  obtain ⟨after,floor,choice⟩ := floors
  constructor
  · intro usable
    have reached : 0x800000 ≤ e.base + e.length := by
      by_contra short
      rw [if_pos (Nat.not_le.mp short)] at usable
      have top := usable.mapped (s + 0x3FFFFFFF) (by omega) (by omega)
      omega
    rw [if_neg (Nat.not_lt.mpr reached)] at usable
    have size : s ≤ e.base + e.length := by omega
    have cap : e.base + e.length ≤ 0x40000000 := by
      by_contra beyond
      have top := usable.mapped (s + (min (e.base + e.length - s) 0x40000000 - 1)) (by omega) (by omega)
      omega
    refine ⟨reached,cap,?_⟩
    by_contra overlap
    exact usable.heap (max s 0x1000000) (by omega) (by omega) (by omega)
  · intro ⟨reached,cap,beside⟩
    have inside := ram_below_limit member ram cap
    rw [if_neg (Nat.not_lt.mpr reached)]
    refine ⟨⟨e,member,ram,?_⟩,floor,?_,?_⟩
    all_goals intro x lower upper; omega

theorem usable_iff_of_high (map : List Entry) (high : 2^32 ≤ start) (order : start < stop) :
    Usable map (rangeStart start % 2^32) (rangeSize start stop) ↔
      (0x800000 ≤ start % 2^32 ∧
        start % 2^32 + min (stop-start) 0x40000000 ≤ mappedLimit map ∧
        (start % 2^32 + min (stop-start) 0x40000000 ≤ 0x1000000 ∨ 0x1100000 ≤ start % 2^32) ∧
        ∃ e ∈ map, e.type = e820Ram ∧ e.base ≤ start % 2^32 ∧
          start % 2^32 + min (stop-start) 0x40000000 ≤ e.base + e.length) := by
  have first : rangeStart start = start := Nat.max_eq_left (by omega)
  have size : rangeSize start stop = min (stop-start) 0x40000000 := by
    rw [rangeSize,if_neg (by omega),first]
  rw [first,size]
  have positive : 0 < min (stop-start) 0x40000000 := by omega
  generalize min (stop-start) 0x40000000 = n at *
  generalize start % 2^32 = s at *
  constructor
  · intro usable
    obtain ⟨e,member,ram,covers⟩ := usable.ram
    have bottom := covers s (Nat.le_refl _) (by omega)
    have top := covers (s+n-1) (by omega) (by omega)
    have mapped := usable.mapped (s+n-1) (by omega) (by omega)
    refine ⟨usable.floor,by omega,?_,e,member,ram,bottom.1,by omega⟩
    by_contra overlap
    exact usable.heap (max s 0x1000000) (by omega) (by omega) (by omega)
  · intro ⟨floor,mapped,beside,e,member,ram,base,stop⟩
    refine ⟨⟨e,member,ram,?_⟩,floor,?_,?_⟩
    all_goals intro x lower upper; omega

theorem kernel_range_usable_iff (counted : map.length ≤ 32) (fits : ∀ e ∈ map, e.base + e.length < 2^64)
    (succeeds : e820FindLargestRegion map ≠ none) :
    (∃ start stop, Largest map start stop) ∧
    ∀ start stop, Largest map start stop →
      (Usable map (kernelPmemRange map).1 (kernelPmemRange map).2 ↔ Harmless map start stop) := by
  obtain ⟨region,found⟩ := Option.ne_none_iff_exists'.mp succeeds
  obtain ⟨stop,largest,sum,order⟩ := largest_region_spec fits found
  have nonempty : map.length ≠ 0 := by
    obtain ⟨_,member,_⟩ := largest.ram
    exact List.length_pos_iff_exists_mem.mpr ⟨_,member⟩ |>.ne'
  have parsed : e820Parse map = some map := if_neg (by omega)
  refine ⟨⟨_,_,largest⟩,?_⟩
  intro start' stop' other
  obtain ⟨rfl,rfl⟩ := largest.unique other
  have bound : stop < 2^64 := by
    obtain ⟨e,member,_,_,rfl,_⟩ := largest.ram
    exact fits e member
  rw [kernelPmemRange_eq parsed found sum order bound]
  by_cases low : region.1 < 2^32
  · rw [usable_iff_of_low largest low order,Harmless]
    have small : ¬ 2^32 ≤ region.1 := Nat.not_le.mpr low
    simp only [small,false_and,or_false]
  · have high : 2^32 ≤ region.1 := Nat.not_lt.mp low
    rw [usable_iff_of_high map high order,Harmless]
    constructor
    · exact fun placed => .inr ⟨high,placed⟩
    · rintro (⟨_,cap,_⟩ | ⟨_,placed⟩)
      · omega
      · exact placed

theorem kernel_range_usable_behind_heap :
    (∃ start stop, Largest [⟨0x1100000,0x2000000,1⟩] start stop) ∧
    ∀ start stop, Largest [⟨0x1100000,0x2000000,1⟩] start stop →
      (Usable [⟨0x1100000,0x2000000,1⟩] (kernelPmemRange [⟨0x1100000,0x2000000,1⟩]).1
        (kernelPmemRange [⟨0x1100000,0x2000000,1⟩]).2 ↔ Harmless [⟨0x1100000,0x2000000,1⟩] start stop) :=
  kernel_range_usable_iff (by decide) (by decide) (by decide)

-- A 2 GB machine: the size is capped at 1 GB, not the end, so the range runs 8 MB past
-- the identity map, and it contains the kernel heap.
theorem two_gigabytes_unusable :
    [Entry.mk 0 0x9FC00 1,⟨0x100000,0x7FF00000,1⟩].length ≤ 32 ∧
    (∀ e ∈ [Entry.mk 0 0x9FC00 1,⟨0x100000,0x7FF00000,1⟩], e.base + e.length < 2^64) ∧
    e820FindLargestRegion [⟨0,0x9FC00,1⟩,⟨0x100000,0x7FF00000,1⟩] ≠ none ∧
    kernelPmemRange [⟨0,0x9FC00,1⟩,⟨0x100000,0x7FF00000,1⟩] = (0x800000,0x40000000) ∧
    ¬ Usable [⟨0,0x9FC00,1⟩,⟨0x100000,0x7FF00000,1⟩] 0x800000 0x40000000 := by
  refine ⟨by decide,by decide,by decide,by decide,?_⟩
  intro usable
  have mapped := usable.mapped 0x40000000 (by decide) (by decide)
  exact absurd mapped (by decide)

end SantOS.Boot
