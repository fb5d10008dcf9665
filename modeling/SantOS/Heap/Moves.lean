import SantOS.Heap.Sizes

namespace SantOS.KernelHeap
open ByteMemory LinkedPaths Runs

def OthersKept (s : Session) (p : Nat) (k : Heap) : Prop :=
  ∀ r n, (r,n) ∈ s.live → r ≠ p → blockSize k r = blockSize s.heap r ∧
    ∀ i < blockSize s.heap r, k.memory (r+i) = s.heap.memory (r+i)

-- How often the free list of a heap holds p's block: the list has one reading at most.
def FreeTimes (h : Heap) (p count : Nat) : Prop :=
  ∃ frees, Path h.next (· = 0) h.freeList frees ∧ frees.count (p - blockHeaderSize) = count

theorem Layout.free_times (layout : Layout h blocks frees) (b : Block) :
    FreeTimes h b.payload (if b.addr ∈ frees then 1 else 0) := by
  have back : b.payload - blockHeaderSize = b.addr := Nat.add_sub_cancel ..
  refine ⟨frees,layout.links,?_⟩
  rw [back]
  exact layout.frees_nodup.count

section
variable {h k : Heap} {blocks blocks' : List Block} {frees frees' : List Nat} {b c e : Block} {n : Nat}

-- A block in use through the whole move: the headers and bytes that malloc, the copy and
-- free touch are all elsewhere.
theorem Moves.payload_kept (moves : Moves h k blocks blocks' frees frees' b c n) (layout : Layout h blocks frees)
    (block : b ∈ blocks) (busy : b.addr ∉ frees) (word : n < 2^64) (other : e ∈ blocks) (used : e.addr ∉ frees)
    (low : e.payload ≤ x) (high : x < e.stop) : (free (filled k b c n) b.payload).memory x = h.memory x := by
  have taken := moves.granted
  have stays : e ∈ blocks' := taken.kept e other used
  have listed : b.addr ∉ frees' := fun member =>
    ((taken.listed b (moves.stays layout block)).mp member).2 b block busy rfl
  obtain ⟨_,_,_,headers⟩ := free_spec (moves.filled_layout word) (moves.stays layout block) listed
  rw [headers x (taken.layout.tiles.payload_outside stays low high)]
  have different : e ≠ c := by
    rintro rfl
    exact used taken.taken
  have apart := taken.layout.tiles.apart stays taken.member different
  rw [moves.filled_outside word x (by
    unfold Block.payload Block.stop at *
    omega)]
  exact taken.bytes e other used x low high

theorem Moves.copied (moves : Moves h k blocks blocks' frees frees' b c n) (layout : Layout h blocks frees)
    (block : b ∈ blocks) (busy : b.addr ∉ frees) (word : n < 2^64) (stored : i < b.size) (wanted : i < n) :
    (free (filled k b c n) b.payload).memory (c.payload + i) = h.memory (b.payload + i) := by
  have taken := moves.granted
  have stays := moves.stays layout block
  have enough := moves.enough word
  have listed : b.addr ∉ frees' := fun member =>
    ((taken.listed b stays).mp member).2 b block busy rfl
  obtain ⟨_,_,_,headers⟩ := free_spec (moves.filled_layout word) stays listed
  have inside : c.payload + i < c.stop := by unfold Block.payload Block.stop; omega
  rw [headers _ (taken.layout.tiles.payload_outside taken.member (Nat.le_add_right ..) inside)]
  have different : b ≠ c := by
    rintro rfl
    exact busy taken.taken
  have apart := taken.layout.tiles.apart stays taken.member different
  have size : load k.memory b.addr 8 = b.size := taken.layout.sizes b stays
  have copy : (filled k b c n).memory (c.payload + i) = k.memory (b.payload + i) := by
    refine copyFrom_inside ?_ ?_ (Nat.zero_le i) (by rw [size]; exact stored) wanted (by omega)
    · unfold Block.payload Block.stop at *
      omega
    · rw [size]
      unfold Block.payload Block.stop at *
      omega
  rw [copy]
  exact taken.bytes b block busy _ (Nat.le_add_right ..) (by unfold Block.payload Block.stop; omega)

end

-- realloc of a held pointer p to n bytes, in every state of every sound run: it fails and
-- nothing changed, or q holds the first bytes of p, and every other payload is kept. p's
-- block was in use; it is on the free list once afterwards exactly when q is another block.
theorem realloc_carries {start size : Nat} {memory : Memory} {calls : List Call} {s : Session} {p old n : Nat}
    (region : Region start size) (path : Run SoundServe (.init memory start size) calls s) (held : (p,old) ∈ s.live)
    (positive : 0 < n) (unwrapped : n ≤ 2^64 - 16) :
    ∃ q k, realloc s.heap p n = some (q,k) ∧ OthersKept s p k ∧ FreeTimes s.heap p 0 ∧
      ((q = 0 ∧ k = s.heap) ∨
        (q ≠ 0 ∧ n ≤ blockSize k q ∧
          (∀ i, i < min (blockSize s.heap p) n → k.memory (q+i) = s.heap.memory (p+i)) ∧
          FreeTimes k p (if q = p then 0 else 1))) := by
  obtain ⟨blocks,frees,served⟩ := runs_accounted region path
  have layout := served.layout
  have word : n < 2^64 := by omega
  obtain ⟨b,block,rfl,_,busy⟩ := served.toKept.busy held
  have payloadSize : blockSize s.heap b.payload = b.size := by rw [blockSize_payload]; exact layout.sizes b block
  have nonnull : b.payload ≠ 0 := by unfold Block.payload; omega
  have before : FreeTimes s.heap b.payload 0 := by
    have times := layout.free_times b
    rwa [if_neg busy] at times
  rcases realloc_moves layout block (Nat.ne_of_gt positive) with
    ⟨fits,ran⟩ | ⟨_,_,ran⟩ | ⟨k,c,blocks',frees',moves,ran⟩
  · refine ⟨b.payload,s.heap,ran,fun _ _ _ _ => ⟨rfl,fun _ _ => rfl⟩,before,.inr ⟨nonnull,?_,fun _ _ => rfl,?_⟩⟩
    · rw [payloadSize]
      exact Nat.le_trans (alignSize_ge unwrapped) fits
    · rw [if_pos rfl]
      exact before
  · exact ⟨0,s.heap,ran,fun _ _ _ _ => ⟨rfl,fun _ _ => rfl⟩,before,.inl ⟨rfl,rfl⟩⟩
  have taken := moves.granted
  have stays := moves.stays layout block
  have listed : b.addr ∉ frees' := fun member => ((taken.listed b stays).mp member).2 b block busy rfl
  have sizes : ∀ d ∈ blocks', blockSize (free (filled k b c n) b.payload) d.payload = d.size := by
    intro d member
    rw [blockSize_payload]
    exact free_sizes (moves.filled_layout word) stays member
  refine ⟨c.payload,free (filled k b c n) b.payload,ran,?_,before,.inr ⟨taken.nonnull,?_,?_,?_⟩⟩
  · intro r m held _
    obtain ⟨e,other,rfl,_,used⟩ := served.toKept.busy held
    have stored : blockSize s.heap e.payload = e.size := by rw [blockSize_payload]; exact layout.sizes e other
    rw [sizes e (taken.kept e other used),stored]
    refine ⟨rfl,?_⟩
    intro i inside
    exact moves.payload_kept layout block busy word other used (Nat.le_add_right ..)
      (by unfold Block.payload Block.stop; omega)
  · rw [sizes c taken.member]
    exact moves.enough word
  · intro i inside
    rw [payloadSize] at inside
    exact moves.copied layout block busy word (by omega) (by omega)
  · have other := moves.other layout block
    have different : c.payload ≠ b.payload := by unfold Block.payload; omega
    have freed := (free_spec (moves.filled_layout word) stays listed).1.free_times b
    rw [if_pos (List.mem_cons_self ..)] at freed
    rw [if_neg different]
    exact freed

theorem realloc_carries_kernel_heap : ∃ s : Session, s.live = [(0x10000A0,16),(0x1000018,112)] ∧
    ∃ q k, realloc s.heap 0x10000A0 40 = some (q,k) ∧ OthersKept s 0x10000A0 k := by
  have path : Run SoundServe (.init (fun _ => 255) 0x1000000 0x100000) [.malloc 100,.malloc 8] _ :=
    .cons ⟨trivial,.malloc (p := 0x1000018) (by decide) rfl⟩ (.cons ⟨trivial,.malloc (p := 0x10000A0) (by decide) rfl⟩ .nil)
  obtain ⟨q,k,ran,kept,_⟩ := realloc_carries (n := 40) (by decide) path (.head _) (by decide) (by decide)
  exact ⟨_,rfl,q,k,ran,kept⟩

end SantOS.KernelHeap
