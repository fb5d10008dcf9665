import SantOS.Heap.Requests

namespace SantOS.KernelHeap
open ByteMemory LinkedPaths Runs

def Unmet (heapSize n : Nat) : Prop := n = 0 ∨ heapSize - blockHeaderSize < alignSize n

def CannotBeMet (heapSize : Nat) : Call → Prop
  | .malloc n => Unmet heapSize n
  | .calloc count n => Unmet heapSize (count * n % 2^64)
  | .realloc p n => p = 0 ∧ Unmet heapSize n
  | .free p => p = 0
  | .write .. => False

theorem mem_hand {s : Session} {k : Heap} {p m q : Nat} (member : q ∈ s.given) : q ∈ (s.hand p m k).given := by
  rw [Session.hand]
  by_cases null : p = 0
  · simpa [null] using member
  · simp [null,member]

theorem serve_keeps_given (serve : Serve s call t) (member : q ∈ s.given) : q ∈ t.given := by
  cases serve with
  | malloc => exact mem_hand member
  | calloc => exact mem_hand member
  | reallocNull => exact mem_hand member
  | realloc held word ran =>
    rw [Session.resize]
    split
    · exact member
    · split
      · exact member
      · exact List.mem_cons_of_mem _ member
  | reallocStale => exact mem_hand member
  | freeNull => exact member
  | free => exact member
  | freeStale => exact member
  | write => exact member

theorem run_keeps_given (path : Run Serve s calls t) (member : q ∈ s.given) : q ∈ t.given := by
  have keeps : ∀ s c t, q ∈ s.given → Serve s c t → q ∈ t.given := fun _ _ _ member serve => serve_keeps_given serve member
  exact path.invariant keeps member

theorem hand_null (s : Session) (m : Nat) : s.hand 0 m s.heap = s := by
  rw [Session.hand,granted,if_pos rfl,if_pos rfl]

section
variable {start size n : Nat} {memory : Memory} {k : Heap} {blocks' : List Block} {frees' : List Nat} {c : Block} {p : Nat}

theorem init_size (region : Region start size) : (Session.init memory start size).heap.size start = size - blockHeaderSize :=
  (init_served region).layout.sizes ⟨start,size - 24⟩ (List.mem_singleton_self _)

-- In a new heap a grant is the first block, whose payload begins 24 bytes behind the start.
theorem first_grant
    (taken : Granted (Session.init memory start size).heap k [⟨start,size - 24⟩] blocks' [start] frees' c m) :
    c.payload = start + 24 := by
  have first : c.addr = start := List.mem_singleton.mp taken.taken
  rw [Block.payload,first]

theorem first_malloc (region : Region start size)
    (ran : malloc (Session.init memory start size).heap n = some (p,k)) :
    (Unmet size n ∧ p = 0 ∧ k = (Session.init memory start size).heap) ∨ (¬ Unmet size n ∧ p = start + 24) := by
  by_cases empty : n = 0
  · rw [malloc,if_pos empty] at ran
    cases ran
    exact .inl ⟨.inl empty,rfl,rfl⟩
  rcases malloc_grants (init_served region).layout empty with ⟨failed,short⟩ | ⟨k',c,blocks',frees',result,room,taken,_⟩
  · cases ran.symm.trans failed
    have small := short start (List.mem_singleton_self _)
    rw [init_size region] at small
    exact .inl ⟨.inr small,rfl,rfl⟩
  · cases ran.symm.trans result
    have first : c.addr = start := List.mem_singleton.mp taken.taken
    rw [first,init_size region] at room
    refine .inr ⟨?_,first_grant taken⟩
    rintro (none | large)
    · exact empty none
    · omega

theorem first_calloc {count : Nat} (region : Region start size)
    (ran : calloc (Session.init memory start size).heap count n = some (p,k)) :
    (Unmet size (count * n % 2^64) ∧ p = 0 ∧ k = (Session.init memory start size).heap) ∨
    (¬ Unmet size (count * n % 2^64) ∧ p = start + 24) := by
  rw [calloc] at ran
  cases result : malloc (Session.init memory start size).heap (count * n % 2^64) with
  | none => simp only [result,reduceCtorEq] at ran
  | some pair =>
    obtain ⟨q,h⟩ := pair
    simp only [result] at ran
    rcases first_malloc region result with ⟨unmet,rfl,rfl⟩ | ⟨met,rfl⟩
    · rw [if_pos rfl] at ran
      cases ran
      exact .inl ⟨unmet,rfl,rfl⟩
    · rw [if_neg (by omega)] at ran
      cases ran
      exact .inr ⟨met,rfl⟩

theorem first_result {P : Prop} {m : Nat}
    (result : (P ∧ p = 0 ∧ k = (Session.init memory start size).heap) ∨ (¬ P ∧ p = start + 24)) :
    (P ∧ (Session.init memory start size).hand p m k = .init memory start size) ∨
    (¬ P ∧ start + 24 ∈ ((Session.init memory start size).hand p m k).given) := by
  rcases result with ⟨unmet,rfl,rfl⟩ | ⟨met,rfl⟩
  · exact .inl ⟨unmet,hand_null ..⟩
  · refine .inr ⟨met,?_⟩
    simp [Session.hand]

theorem first_call (region : Region start size) (serve : Serve (.init memory start size) call t) :
    (CannotBeMet size call ∧ t = .init memory start size) ∨ (¬ CannotBeMet size call ∧ start + 24 ∈ t.given) := by
  cases serve with
  | malloc word ran => exact first_result (first_malloc region ran)
  | calloc words ran zeroed => exact first_result (first_calloc region ran)
  | @reallocNull n _ p k word ran =>
    rw [realloc,if_pos rfl] at ran
    have met : CannotBeMet size (.realloc 0 n) ↔ Unmet size n := by simp [CannotBeMet]
    rw [met]
    exact first_result (first_malloc region ran)
  | realloc held => cases held
  | reallocStale stale => cases stale.1
  | freeNull => exact .inl ⟨rfl,by rw [free,if_pos rfl]⟩
  | free held => cases held
  | freeStale stale => cases stale.1
  | write held => cases held

end

-- The header has 24 bytes, so the first payload of a heap that starts at a multiple of 16
-- is none. Runs in which every pointer is one are those that never got a pointer.
theorem pointers_aligned {start size : Nat} {memory : Memory} {calls : List Call} {s : Session}
    (region : Region start size) (aligned : start % 16 = 0) (path : Run Serve (.init memory start size) calls s) :
    (∀ p ∈ s.given, p % 16 = 0) ↔ ∀ call ∈ calls, CannotBeMet size call := by
  generalize beginEq : Session.init memory start size = first at path
  induction path with
  | nil =>
    subst beginEq
    simp [Session.init]
  | cons serve rest ih =>
    subst beginEq
    rcases first_call region serve with ⟨unmet,same⟩ | ⟨met,given⟩
    · rw [ih same.symm]
      simp [unmet]
    · have known := run_keeps_given rest given
      constructor
      · intro all
        have multiple := all _ known
        omega
      · intro all
        exact absurd (all _ (List.mem_cons_self ..)) met

theorem pointers_aligned_kernel_heap : ∃ s : Session, s.given = [0x1000018] ∧
    ((∀ p ∈ s.given, p % 16 = 0) ↔ ∀ call ∈ [Call.malloc 100], CannotBeMet 0x100000 call) := by
  have path : Run Serve (.init (fun _ => 255) 0x1000000 0x100000) [.malloc 100] _ :=
    .single (.malloc (p := 0x1000018) (by decide) rfl)
  exact ⟨_,rfl,pointers_aligned (by decide) (by decide) path⟩

theorem first_pointer_misaligned : ∃ s : Session,
    Run Serve (.init (fun _ => 255) 0x1000000 0x100000) [.malloc 100] s ∧ ∃ p ∈ s.given, p ≠ 0 ∧ p % 16 = 8 :=
  ⟨_,.single (.malloc (p := 0x1000018) (by decide) rfl),0x1000018,.head _,by decide,by decide⟩

end SantOS.KernelHeap
