import Mathlib.Algebra.Group.Nat.Defs
import Mathlib.Order.Lattice

namespace SantOS.Boot

-- e820_entry_t; the extended attributes are read by nobody.
structure Entry where
  base : Nat
  length : Nat
  type : Nat
deriving DecidableEq

def e820Ram : Nat := 1

-- boot2 stores the count at 0x500; the kernel refuses 0 and more than 32 entries.
def e820Parse (entries : List Entry) : Option (List Entry) :=
  if entries.length = 0 ∨ entries.length > 32 then none else some entries

def Entry.regionEnd (e : Entry) : Nat := (e.base + e.length) % 2^64
def Entry.regionStart (e : Entry) : Nat := if e.base < 0x100000 then 0x100000 else e.base
def Entry.usableSize (e : Entry) : Nat := (e.regionEnd + 2^64 - e.regionStart) % 2^64

def largestFrom : List Entry → Nat × Nat → Nat × Nat
  | [],best => best
  | e::rest,best =>
    if e.type = e820Ram then
      if e.regionEnd ≤ 0x100000 then largestFrom rest best
      else if e.usableSize > best.2 then largestFrom rest (e.regionStart,e.usableSize)
      else largestFrom rest best
    else largestFrom rest best

def e820FindLargestRegion (map : List Entry) : Option (Nat × Nat) :=
  let best := largestFrom map (0,0)
  if best.2 = 0 then none else some best

-- The arguments kernel_main passes to pmem_init, in 64-bit arithmetic cut to 32 bits.
def kernelPmemRange (entries : List Entry) : Nat × Nat :=
  match e820Parse entries with
  | none => (0x400000,0x400000)
  | some map =>
    match e820FindLargestRegion map with
    | none => (0x400000,0x400000)
    | some (memStart,memSize) =>
      let pmemStart := if memStart > 0x800000 then memStart else 0x800000
      let pmemSize := ((memStart + memSize) % 2^64 + 2^64 - pmemStart) % 2^64
      let pmemSize := if pmemSize > 0x40000000 then 0x40000000 else pmemSize
      (pmemStart % 2^32,pmemSize % 2^32)

-- detect_memory_e820 of boot2.asm keeps the highest RAM end whose base and length
-- have no high dword and whose 32-bit sum does not carry, starting from 128 MB.
def highestStep (highest : Nat) (e : Entry) : Nat :=
  if e.type = 1 ∧ e.base / 2^32 = 0 ∧ e.length / 2^32 = 0 ∧ e.base + e.length < 2^32 ∧
      highest < e.base + e.length then e.base + e.length
  else highest

def highestAddress (map : List Entry) : Nat := map.foldl highestStep 0x8000000

def mappedPages (highest : Nat) : Nat :=
  let ecx := ((highest + 0x1FFFFF) % 2^32) >>> 21
  if ecx ≤ 512 then ecx else 512

def mappedLimit (map : List Entry) : Nat :=
  min 0x40000000 ((highestAddress map + 0x1FFFFF) / 0x200000 * 0x200000)

theorem mappedPages_limit (map : List Entry) (fits : highestAddress map + 0x1FFFFF < 2^32) :
    mappedPages (highestAddress map) * 0x200000 = mappedLimit map := by
  unfold mappedPages mappedLimit
  dsimp only
  rw [Nat.mod_eq_of_lt fits,Nat.shiftRight_eq_div_pow]
  split <;> omega

theorem highestStep_le (highest : Nat) (e : Entry) : highest ≤ highestStep highest e := by
  unfold highestStep
  split
  · rename_i grows; exact Nat.le_of_lt grows.2.2.2.2
  · exact Nat.le_refl _

theorem foldl_highest_le (map : List Entry) (highest : Nat) : highest ≤ map.foldl highestStep highest := by
  induction map generalizing highest with
  | nil => exact Nat.le_refl _
  | cons e rest ih => exact Nat.le_trans (highestStep_le highest e) (ih _)

theorem foldl_highest_mem {map : List Entry} {highest : Nat} {e : Entry} (member : e ∈ map)
    (ram : e.type = e820Ram) (low : e.base + e.length < 2^32) :
    e.base + e.length ≤ map.foldl highestStep highest := by
  induction map generalizing highest with
  | nil => cases member
  | cons first rest ih =>
    rcases List.mem_cons.mp member with rfl | later
    · refine Nat.le_trans ?_ (foldl_highest_le rest _)
      have base : e.base / 2^32 = 0 := Nat.div_eq_of_lt (by omega)
      have length : e.length / 2^32 = 0 := Nat.div_eq_of_lt (by omega)
      unfold highestStep
      split
      · exact Nat.le_refl _
      · rename_i rejected
        exact Nat.not_lt.mp (fun grows => rejected ⟨ram,base,length,low,grows⟩)
    · exact ih later

theorem ram_below_limit {map : List Entry} {e : Entry} (member : e ∈ map) (ram : e.type = e820Ram)
    (low : e.base + e.length ≤ 0x40000000) : e.base + e.length ≤ mappedLimit map := by
  have high : e.base + e.length ≤ highestAddress map := foldl_highest_mem member ram (by omega)
  unfold mappedLimit
  omega

-- The region the search is meant to find, said without the loop: the first entry of
-- maximal size among the RAM entries that end above 1 MB, clipped at 1 MB.
def Candidate (e : Entry) : Prop := e.type = e820Ram ∧ 0x100000 < e.base + e.length
def clipped (e : Entry) : Nat := max e.base 0x100000
def clippedSize (e : Entry) : Nat := e.base + e.length - clipped e

def Largest (map : List Entry) (start stop : Nat) : Prop :=
  ∃ before e after, map = before ++ e::after ∧ Candidate e ∧
    start = clipped e ∧ stop = e.base + e.length ∧
    (∀ x ∈ before, Candidate x → clippedSize x < clippedSize e) ∧
    (∀ x ∈ after, Candidate x → clippedSize x ≤ clippedSize e)

theorem regionEnd_eq {e : Entry} (fits : e.base + e.length < 2^64) : e.regionEnd = e.base + e.length :=
  Nat.mod_eq_of_lt fits

theorem regionStart_eq (e : Entry) : e.regionStart = clipped e := by
  unfold Entry.regionStart clipped
  split <;> omega

theorem usableSize_eq {e : Entry} (fits : e.base + e.length < 2^64) (candidate : Candidate e) :
    e.usableSize = clippedSize e := by
  have above := candidate.2
  have inside : clipped e ≤ e.base + e.length := by unfold clipped; omega
  rw [Entry.usableSize,regionEnd_eq fits,regionStart_eq,clippedSize]
  omega

theorem largestFrom_cons (fits : e.base + e.length < 2^64) (rest : List Entry) (best : Nat × Nat) :
    (Candidate e ∧ best.2 < clippedSize e ∧
      largestFrom (e::rest) best = largestFrom rest (clipped e,clippedSize e)) ∨
    ((Candidate e → clippedSize e ≤ best.2) ∧ largestFrom (e::rest) best = largestFrom rest best) := by
  rw [largestFrom]
  by_cases ram : e.type = e820Ram
  · rw [if_pos ram,regionEnd_eq fits]
    by_cases low : e.base + e.length ≤ 0x100000
    · rw [if_pos low]
      exact .inr ⟨fun candidate => absurd candidate.2 (Nat.not_lt.mpr low),rfl⟩
    · have candidate : Candidate e := ⟨ram,Nat.not_le.mp low⟩
      rw [if_neg low,usableSize_eq fits candidate,regionStart_eq]
      by_cases larger : clippedSize e > best.2
      · rw [if_pos larger]; exact .inl ⟨candidate,larger,rfl⟩
      · rw [if_neg larger]; exact .inr ⟨fun _ => Nat.not_lt.mp larger,rfl⟩
  · rw [if_neg ram]
    exact .inr ⟨fun candidate => absurd candidate.1 ram,rfl⟩

theorem largestFrom_spec {map : List Entry} (fits : ∀ e ∈ map, e.base + e.length < 2^64) (best : Nat × Nat) :
    (largestFrom map best = best ∧ ∀ x ∈ map, Candidate x → clippedSize x ≤ best.2) ∨
    ∃ before e after, map = before ++ e::after ∧ Candidate e ∧ best.2 < clippedSize e ∧
      largestFrom map best = (clipped e,clippedSize e) ∧
      (∀ x ∈ before, Candidate x → clippedSize x < clippedSize e) ∧
      (∀ x ∈ after, Candidate x → clippedSize x ≤ clippedSize e) := by
  induction map generalizing best with
  | nil => exact .inl ⟨rfl,by simp⟩
  | cons f rest ih =>
    have tail : ∀ e ∈ rest, e.base + e.length < 2^64 := fun e member => fits e (List.mem_cons_of_mem _ member)
    rcases largestFrom_cons (fits f (List.mem_cons_self ..)) rest best with ⟨candidate,larger,run⟩ | ⟨notLarger,run⟩
    · rcases ih tail (clipped f,clippedSize f) with ⟨kept,bound⟩ | ⟨before,e,after,split,cand,grows,found,earlier,later⟩
      · exact .inr ⟨[],f,rest,rfl,candidate,larger,run.trans kept,by simp,bound⟩
      · refine .inr ⟨f::before,e,after,by rw [split]; rfl,cand,Nat.lt_trans larger grows,run.trans found,?_,later⟩
        intro x member
        rcases List.mem_cons.mp member with rfl | old
        · exact fun _ => grows
        · exact earlier x old
    · rcases ih tail best with ⟨kept,bound⟩ | ⟨before,e,after,split,cand,grows,found,earlier,later⟩
      · refine .inl ⟨run.trans kept,?_⟩
        intro x member
        rcases List.mem_cons.mp member with rfl | old
        · exact notLarger
        · exact bound x old
      · refine .inr ⟨f::before,e,after,by rw [split]; rfl,cand,grows,run.trans found,?_,later⟩
        intro x member
        rcases List.mem_cons.mp member with rfl | old
        · exact fun candidate => Nat.lt_of_le_of_lt (notLarger candidate) grows
        · exact earlier x old

theorem Largest.unique (one : Largest map start stop) (two : Largest map start' stop') :
    start = start' ∧ stop = stop' := by
  obtain ⟨before,e,after,split,cand,rfl,rfl,earlier,later⟩ := one
  obtain ⟨before',e',after',split',cand',rfl,rfl,earlier',later'⟩ := two
  have same : e = e' := by
    rw [split] at split'
    rcases List.append_eq_append_iff.mp split' with ⟨gap,front,back⟩ | ⟨gap,front,back⟩
    · cases gap with
      | nil => exact (List.cons.inj back).1
      | cons g gap =>
        obtain ⟨rfl,rest⟩ := List.cons.inj back
        have less := earlier' e (by rw [front]; simp) cand
        have more := later e' (by rw [rest]; simp) cand'
        omega
    · cases gap with
      | nil => exact (List.cons.inj back).1.symm
      | cons g gap =>
        obtain ⟨rfl,rest⟩ := List.cons.inj back
        have less := earlier e' (by rw [front]; simp) cand'
        have more := later' e (by rw [rest]; simp) cand
        omega
  subst same
  exact ⟨rfl,rfl⟩

theorem largest_region_spec {map : List Entry} (fits : ∀ e ∈ map, e.base + e.length < 2^64)
    (found : e820FindLargestRegion map = some region) :
    ∃ stop, Largest map region.1 stop ∧ region.1 + region.2 = stop ∧ region.1 < stop := by
  unfold e820FindLargestRegion at found
  dsimp only at found
  split at found
  · cases found
  · rename_i nonzero
    cases found
    rcases largestFrom_spec fits (0,0) with ⟨kept,_⟩ | ⟨before,e,after,split,cand,grows,run,earlier,later⟩
    · rw [kept] at nonzero; exact absurd rfl nonzero
    · rw [run]
      have above := cand.2
      have inside : clipped e ≤ e.base + e.length := by unfold clipped; omega
      have size : clipped e + clippedSize e = e.base + e.length := by unfold clippedSize; omega
      exact ⟨_,⟨before,e,after,split,cand,rfl,rfl,earlier,later⟩,size,by dsimp only at grows ⊢; omega⟩

end SantOS.Boot
