import SantOS.Heap.Requests

namespace SantOS.KernelHeap
open ByteMemory LinkedPaths Runs

def blockSize (h : Heap) (p : Nat) : Nat := h.size (p - blockHeaderSize)

theorem blockSize_payload (h : Heap) (b : Block) : blockSize h b.payload = h.size b.addr :=
  congrArg h.size (Nat.add_sub_cancel ..)

theorem free_sizes (layout : Layout h blocks frees) (block : b ∈ blocks) (other : d ∈ blocks) :
    (free h b.payload).size d.addr = d.size := by
  have back : b.payload - blockHeaderSize = b.addr := Nat.add_sub_cancel ..
  have running : b.payload ≠ 0 := by unfold Block.payload; omega
  have magic : ¬ h.magic b.addr ≠ heapMagic := not_not.mpr (layout.magics b block)
  rw [free,if_neg running,back,if_neg magic]
  have kept := (layout.setNext_frame (List.mem_map_of_mem block) h.freeList).1 d other
  exact kept.1.trans (layout.sizes d other)

theorem rounded_fits {n size : Nat} (word : n < 2^64) (fits : alignSize n ≤ size) (bound : size < 2^64 - 16) :
    n ≤ size ↔ n ≤ 2^64 - 16 := by
  constructor
  · intro room
    omega
  · intro small
    exact Nat.le_trans (alignSize_ge small) fits

theorem malloc_met (layout : Layout h blocks frees) (word : n < 2^64) :
    ∃ p k, malloc h n = some (p,k) ∧
      ((p ≠ 0 → n ≤ blockSize k p) ↔ (n ≤ 2^64 - 16 ∨ Exhausted h (alignSize n))) := by
  by_cases empty : n = 0
  · subst empty
    exact ⟨0,h,by rw [malloc,if_pos rfl],by simp⟩
  rcases malloc_grants layout empty with ⟨ran,short⟩ | ⟨k,c,blocks',frees',ran,room,taken,_⟩
  · exact ⟨0,h,ran,fun _ => .inr (layout.exhausted_iff.mpr short),fun _ null => absurd rfl null⟩
  · refine ⟨c.payload,k,ran,?_⟩
    have stored : blockSize k c.payload = c.size := by
      rw [blockSize_payload]; exact taken.layout.sizes c taken.member
    have listed : ¬ Exhausted h (alignSize n) := by
      intro exhausted
      have short := layout.exhausted_iff.mp exhausted c.addr taken.taken
      omega
    have fits := rounded_fits word taken.enough (taken.layout.size_lt taken.member)
    simp only [stored,listed,or_false,ne_eq,taken.nonnull,not_false_eq_true,forall_const,fits]

theorem realloc_met (layout : Layout h blocks frees) (block : b ∈ blocks) (word : n < 2^64) :
    ∃ q k, realloc h b.payload n = some (q,k) ∧ ((q ≠ 0 → n ≤ blockSize k q) ↔ n ≤ 2^64 - 16) := by
  have nonnull : b.payload ≠ 0 := by unfold Block.payload; omega
  by_cases empty : n = 0
  · subst empty
    refine ⟨0,free h b.payload,by rw [realloc,if_neg nonnull,if_pos rfl],?_⟩
    simp
  rcases realloc_moves layout block empty with ⟨fits,ran⟩ | ⟨short,_,ran⟩ | ⟨k,c,blocks',frees',moves,ran⟩
  · refine ⟨b.payload,h,ran,?_⟩
    have stored : blockSize h b.payload = b.size := by rw [blockSize_payload]; exact layout.sizes b block
    have met := rounded_fits word fits (layout.size_lt block)
    simp only [stored,ne_eq,nonnull,not_false_eq_true,forall_const,met]
  · refine ⟨0,h,ran,fun _ => ?_,fun _ null => absurd rfl null⟩
    -- a size that wrapped would have fitted the old block
    have small : n ≤ 2^64 - 16 := by
      by_contra large
      rw [alignSize_wraps (by omega) word] at short
      omega
    exact small
  · refine ⟨c.payload,free (filled k b c n) b.payload,ran,?_⟩
    have taken := moves.granted
    have stored : blockSize (free (filled k b c n) b.payload) c.payload = c.size := by
      rw [blockSize_payload]
      exact free_sizes (moves.filled_layout word) (moves.stays layout block) taken.member
    have met := rounded_fits word taken.enough (taken.layout.size_lt taken.member)
    simp only [stored,ne_eq,taken.nonnull,not_false_eq_true,forall_const,met]

theorem calloc_met (layout : Layout h blocks frees) (count n : Nat) :
    ∃ p k, calloc h count n = some (p,k) ∧
      ((p ≠ 0 → count * n ≤ blockSize k p ∧ ∀ i < count * n, k.memory (p+i) = 0) ↔
        (count * n ≤ 2^64 - 16 ∨ count * n % 2^64 = 0 ∨ Exhausted h (alignSize (count * n % 2^64)))) := by
  rcases calloc_grants layout count n with ⟨ran,none⟩ | ⟨k,c,blocks',frees',some,room,taken,_,ran⟩
  · refine ⟨0,h,ran,?_⟩
    have refused : count * n % 2^64 = 0 ∨ Exhausted h (alignSize (count * n % 2^64)) :=
      none.imp_right layout.exhausted_iff.mpr
    exact ⟨fun _ => .inr refused,fun _ null => absurd rfl null⟩
  · refine ⟨c.payload,_,ran,?_⟩
    have header : blockSize {k with memory := setBytes k.memory c.payload 0 (count * n % 2^64)} c.payload = c.size := by
      rw [blockSize_payload]
      exact (load_setBytes_disjoint _ (.inl (by unfold Block.payload; omega))).trans (taken.layout.sizes c taken.member)
    have listed : ¬ Exhausted h (alignSize (count * n % 2^64)) := by
      intro exhausted
      have short := layout.exhausted_iff.mp exhausted c.addr taken.taken
      omega
    have bound := taken.layout.size_lt taken.member
    simp only [header,listed,or_false,some,ne_eq,taken.nonnull,not_false_eq_true,forall_const]
    constructor
    · rintro ⟨room,_⟩
      omega
    · intro small
      have whole : count * n % 2^64 = count * n := Nat.mod_eq_of_lt (by omega)
      have enough := taken.enough
      rw [whole] at enough
      refine ⟨Nat.le_trans (alignSize_ge small) enough,?_⟩
      intro i inside
      rw [whole,setBytes_apply,if_pos (by omega)]

-- In every state of every sound run: which 64-bit requests are met in full. The failing
-- ones are those whose rounding or product wrapped while a block was there for the rest.
theorem requests_met {start size : Nat} {memory : Memory} {calls : List Call} {s : Session} (region : Region start size)
    (path : Run SoundServe (.init memory start size) calls s) :
    (∀ n < 2^64, ∃ p k, malloc s.heap n = some (p,k) ∧ realloc s.heap 0 n = some (p,k) ∧
      ((p ≠ 0 → n ≤ blockSize k p) ↔ (n ≤ 2^64 - 16 ∨ Exhausted s.heap (alignSize n)))) ∧
    (∀ p ∈ s.given, ∀ n < 2^64, ∃ q k, realloc s.heap p n = some (q,k) ∧
      ((q ≠ 0 → n ≤ blockSize k q) ↔ n ≤ 2^64 - 16)) ∧
    (∀ count < 2^64, ∀ n < 2^64, ∃ p k, calloc s.heap count n = some (p,k) ∧
      ((p ≠ 0 → count * n ≤ blockSize k p ∧ ∀ i < count * n, k.memory (p+i) = 0) ↔
        (count * n ≤ 2^64 - 16 ∨ count * n % 2^64 = 0 ∨ Exhausted s.heap (alignSize (count * n % 2^64))))) := by
  obtain ⟨blocks,frees,served⟩ := runs_accounted region path
  refine ⟨?_,?_,?_⟩
  · intro n word
    obtain ⟨p,k,ran,met⟩ := malloc_met served.layout word
    exact ⟨p,k,ran,by rw [realloc,if_pos rfl]; exact ran,met⟩
  · intro p member n word
    obtain ⟨b,block,rfl⟩ := served.payloads p member
    exact realloc_met served.layout block word
  · intro count _ n _
    exact calloc_met served.layout count n

theorem requests_met_kernel_heap : ∃ s : Session, s.given = [0x1000018] ∧
    ∃ q k, realloc s.heap 0x1000018 (2^64 - 1) = some (q,k) ∧
      ((q ≠ 0 → 2^64 - 1 ≤ blockSize k q) ↔ 2^64 - 1 ≤ 2^64 - 16) := by
  have path : Run SoundServe (.init (fun _ => 255) 0x1000000 0x100000) [.malloc 100] _ :=
    .cons ⟨trivial,.malloc (p := 0x1000018) (by decide) rfl⟩ .nil
  obtain ⟨_,reallocs,_⟩ := requests_met (by decide) path
  exact ⟨_,rfl,reallocs 0x1000018 (.head _) (2^64 - 1) (by decide)⟩

theorem wrapped_requests_granted :
    (malloc (Session.init (fun _ => 255) 0x1000000 0x100000).heap (2^64 - 1)).map (fun r => (r.1,blockSize r.2 r.1)) =
      some (0x1000018,0) ∧
    (calloc (Session.init (fun _ => 255) 0x1000000 0x100000).heap (2^64 - 1) (2^64 - 1)).map
      (fun r => (r.1,blockSize r.2 r.1)) = some (0x1000018,16) := by
  decide +kernel

end SantOS.KernelHeap
