import SantOS.Library.Runs
import SantOS.Heap.Release

namespace SantOS.KernelHeap
open ByteMemory LinkedPaths Runs

-- The allocator with its clients: every pointer handed out and not yet given back,
-- with the size last requested for it.
structure System where
  heap : Heap
  live : List (Nat × Nat)

inductive Call where
  | malloc (size : Nat)
  | calloc (nmemb size : Nat)
  | realloc (ptr size : Nat)
  | free (ptr : Nat)
  | write (ptr offset : Nat) (byte : UInt8)

def granted (ptr size : Nat) (live : List (Nat × Nat)) : List (Nat × Nat) :=
  if ptr = 0 then live else (ptr,size)::live

-- realloc gives the old pointer back when it frees it (size 0) or moves or keeps the
-- block; on failure the client still holds the old block.
def moved (ptr old result size : Nat) (live : List (Nat × Nat)) : List (Nat × Nat) :=
  if size = 0 then live.erase (ptr,old)
  else if result = 0 then live
  else (result,size)::live.erase (ptr,old)

-- The calls a correct client makes. A write stays inside the payload of a held block.
inductive Step : System → Call → System → Prop where
  | malloc (small : n < 2^64 - 16) (ran : KernelHeap.malloc s.heap n = some (p,k)) :
      Step s (.malloc n) ⟨k,granted p n s.live⟩
  | calloc (small : count * n < 2^64 - 16) (ran : KernelHeap.calloc s.heap count n = some (p,k)) :
      Step s (.calloc count n) ⟨k,granted p (count * n) s.live⟩
  | reallocNull (small : n < 2^64 - 16) (ran : KernelHeap.realloc s.heap 0 n = some (p,k)) :
      Step s (.realloc 0 n) ⟨k,granted p n s.live⟩
  | realloc (held : (p,old) ∈ s.live) (small : n < 2^64 - 16) (ran : KernelHeap.realloc s.heap p n = some (q,k)) :
      Step s (.realloc p n) ⟨k,moved p old q n s.live⟩
  | freeNull : Step s (.free 0) ⟨KernelHeap.free s.heap 0,s.live⟩
  | free (held : (p,n) ∈ s.live) : Step s (.free p) ⟨KernelHeap.free s.heap p,s.live.erase (p,n)⟩
  | write (held : (p,n) ∈ s.live) (inside : offset < s.heap.size (p - blockHeaderSize)) :
      Step s (.write p offset byte) ⟨{s.heap with memory := Function.update s.heap.memory (p + offset) byte},s.live⟩

def System.init (memory : Memory) (start size : Nat) : System := ⟨heapInit memory start size,[]⟩

-- The run invariant: exactly the blocks whose payload nobody holds are listed, and a
-- held pointer is the payload of a block with room for the request.
structure Kept (start size : Nat) (s : System) (blocks : List Block) (frees : List Nat) : Prop where
  region : s.heap.heapStart = start ∧ s.heap.heapSize = size
  layout : Layout s.heap blocks frees
  unheld : ∀ b ∈ blocks, b.addr ∈ frees ↔ ∀ n, (b.payload,n) ∉ s.live
  held : ∀ p n, (p,n) ∈ s.live → ∃ b ∈ blocks, b.payload = p ∧ n ≤ b.size
  once : (s.live.map Prod.fst).Nodup

-- The memory given to heap_init: addressable by a 64-bit pointer, not at NULL.
def Region (start size : Nat) : Prop := 0 < start ∧ start + size ≤ 2^64 ∧ 24 < size ∧ size < 2^64 - 16

instance : Decidable (Region start size) := inferInstanceAs (Decidable (_ ∧ _))

theorem init_kept (region : Region start size) : Kept start size (.init memory start size) [⟨start,size - 24⟩] [start] := by
  obtain ⟨nonnull,top,room,small⟩ := region
  have word : (size - 24) % 2^64 = size - 24 := Nat.mod_eq_of_lt (by omega)
  refine ⟨⟨rfl,rfl⟩,⟨nonnull,top,small,⟨rfl,?_⟩,?_,?_,.cons (Nat.ne_of_gt nonnull) (.nil ?_),?_⟩,?_,?_,List.nodup_nil⟩
  · show start + 24 + (size - 24) = start + size
    omega
  · intro b member
    rw [List.mem_singleton.mp member]
    simp only [System.init,heapInit,size_setMagic,size_setNext,size_setSize,blockHeaderSize,word]
  · intro b member
    rw [List.mem_singleton.mp member]
    simp only [System.init,heapInit,magic_setMagic]
    rfl
  · show Heap.next (heapInit memory start size) start = 0
    rw [heapInit,next_setMagic,next_setNext,Nat.zero_mod]
  · simp
  · intro b member
    rw [List.mem_singleton.mp member]
    simp [System.init]
  · intro p n member
    cases member

theorem Kept.busy (kept : Kept start size s blocks frees) (held : (p,n) ∈ s.live) :
    ∃ b ∈ blocks, b.payload = p ∧ n ≤ b.size ∧ b.addr ∉ frees := by
  obtain ⟨b,block,rfl,room⟩ := kept.held p n held
  exact ⟨b,block,rfl,room,fun free => (kept.unheld b block).mp free n held⟩

theorem Kept.holder (kept : Kept start size s blocks frees) (block : b ∈ blocks) (busy : b.addr ∉ frees) :
    ∃ n, (b.payload,n) ∈ s.live := by
  by_contra none
  exact busy ((kept.unheld b block).mpr (fun n member => none ⟨n,member⟩))

theorem mem_erase_once {live : List (Nat × Nat)} (once : (live.map Prod.fst).Nodup) (held : (p,n) ∈ live) :
    (q,m) ∈ live.erase (p,n) ↔ (q,m) ∈ live ∧ q ≠ p := by
  have distinct : live.Nodup := List.Nodup.of_map _ once
  rw [List.Nodup.mem_erase_iff distinct]
  constructor
  · rintro ⟨different,member⟩
    refine ⟨member,?_⟩
    rintro rfl
    exact different (List.inj_on_of_nodup_map once member held rfl)
  · rintro ⟨member,different⟩
    exact ⟨fun equal => different (congrArg Prod.fst equal),member⟩

theorem Kept.grant (kept : Kept start size s blocks frees) (granted : Granted s.heap k blocks blocks' frees frees' c n) :
    Kept start size ⟨k,(c.payload,n)::s.live⟩ blocks' frees' := by
  refine ⟨?_,granted.layout,?_,?_,?_⟩
  · exact ⟨granted.region.1.trans kept.region.1,granted.region.2.trans kept.region.2⟩
  · intro d block
    rw [granted.listed d block]
    constructor
    · rintro ⟨different,unused⟩ m member
      rcases List.mem_cons.mp member with new | old
      · have same : d.payload = c.payload := congrArg Prod.fst new
        unfold Block.payload at same
        omega
      · obtain ⟨e,inside,same,_,busy⟩ := kept.busy old
        refine unused e inside busy ?_
        unfold Block.payload at same
        omega
    · intro unheld
      refine ⟨?_,?_⟩
      · intro same
        refine unheld n (List.mem_cons.mpr (.inl ?_))
        rw [Block.payload,Block.payload,same]
      · intro e inside busy same
        obtain ⟨m,old⟩ := kept.holder inside busy
        refine unheld m (List.mem_cons_of_mem _ ?_)
        rw [Block.payload,← same]
        exact old
  · intro p m member
    rcases List.mem_cons.mp member with new | old
    · obtain ⟨rfl,rfl⟩ := Prod.mk.inj new
      exact ⟨c,granted.member,rfl,granted.enough⟩
    · obtain ⟨e,inside,same,room,busy⟩ := kept.busy old
      exact ⟨e,granted.kept e inside busy,same,room⟩
  · rw [List.map_cons,List.nodup_cons]
    refine ⟨?_,kept.once⟩
    intro again
    obtain ⟨⟨p,m⟩,old,same⟩ := List.mem_map.mp again
    obtain ⟨e,inside,payload,_,busy⟩ := kept.busy old
    have address : e.addr = c.addr := by
      have equal : e.payload = c.payload := payload.trans same
      unfold Block.payload at equal
      omega
    exact busy (address ▸ granted.taken)

theorem Kept.release (kept : Kept start size s blocks frees) (held : (p,n) ∈ s.live) :
    ∃ frees', Kept start size ⟨free s.heap p,s.live.erase (p,n)⟩ blocks frees' := by
  obtain ⟨b,block,rfl,_,busy⟩ := kept.busy held
  obtain ⟨layout,base,length,_⟩ := free_spec kept.layout block busy
  refine ⟨b.addr::frees,⟨base.trans kept.region.1,length.trans kept.region.2⟩,layout,?_,?_,?_⟩
  · intro d inside
    have payload : d.payload = b.payload ↔ d.addr = b.addr := by unfold Block.payload; omega
    simp only [List.mem_cons,mem_erase_once kept.once held,kept.unheld d inside,not_and,not_not,payload]
    constructor
    · rintro (same | unheld) m member
      · exact same
      · exact absurd member (unheld m)
    · intro gone
      by_cases same : d.addr = b.addr
      · exact .inl same
      · exact .inr (fun m member => same (gone m member))
  · intro q m member
    exact kept.held q m ((mem_erase_once kept.once held).mp member).1
  · exact kept.once.sublist (List.erase_sublist.map _)

theorem Kept.resize (kept : Kept start size s blocks frees) (held : (p,old) ∈ s.live) (block : b ∈ blocks)
    (payload : b.payload = p) (room : n ≤ b.size) : Kept start size ⟨s.heap,(p,n)::s.live.erase (p,old)⟩ blocks frees := by
  have entries : ∀ q, (∃ m, (q,m) ∈ (p,n)::s.live.erase (p,old)) ↔ ∃ m, (q,m) ∈ s.live := by
    intro q
    simp only [List.mem_cons,mem_erase_once kept.once held,Prod.mk.injEq]
    constructor
    · rintro ⟨m,⟨rfl,_⟩ | ⟨member,_⟩⟩
      · exact ⟨old,held⟩
      · exact ⟨m,member⟩
    · rintro ⟨m,member⟩
      by_cases same : q = p
      · exact ⟨n,.inl ⟨same,rfl⟩⟩
      · exact ⟨m,.inr ⟨member,same⟩⟩
  refine ⟨kept.region,kept.layout,?_,?_,?_⟩
  · intro d inside
    rw [kept.unheld d inside,← not_exists,← not_exists,entries]
  · intro q m member
    rcases List.mem_cons.mp member with new | rest
    · obtain ⟨rfl,rfl⟩ := Prod.mk.inj new
      exact ⟨b,block,payload,room⟩
    · exact kept.held q m ((mem_erase_once kept.once held).mp rest).1
  · rw [List.map_cons,List.nodup_cons]
    refine ⟨?_,kept.once.sublist (List.erase_sublist.map _)⟩
    intro again
    obtain ⟨⟨q,m⟩,member,same⟩ := List.mem_map.mp again
    exact ((mem_erase_once kept.once held).mp member).2 same

theorem Kept.write (kept : Kept start size s blocks frees) (block : c ∈ blocks)
    (outside : ∀ x, (x < c.payload ∨ c.stop ≤ x) → m x = s.heap.memory x) :
    Kept start size ⟨{s.heap with memory := m},s.live⟩ blocks frees :=
  ⟨kept.region,kept.layout.write_inside block outside,kept.unheld,kept.held,kept.once⟩

def Valid (start size : Nat) (s : System) : Prop := ∃ blocks frees, Kept start size s blocks frees

theorem Granted.nonnull (_ : Granted h k blocks blocks' frees frees' c n) : c.payload ≠ 0 := by
  unfold Block.payload; omega

theorem malloc_valid (kept : Kept start size s blocks frees) (small : n < 2^64 - 16) :
    ∃ p k, malloc s.heap n = some (p,k) ∧ Valid start size ⟨k,granted p n s.live⟩ ∧
      (0 < n → p = 0 → ∀ b ∈ blocks, b.addr ∈ frees → b.size < (n+15)/16*16) := by
  rcases malloc_spec kept.layout small with ⟨ran,short⟩ | ⟨k,c,blocks',frees',ran,_,taken⟩
  · refine ⟨0,s.heap,ran,⟨blocks,frees,?_⟩,fun positive _ => short positive⟩
    rw [granted,if_pos rfl]
    exact kept
  · refine ⟨c.payload,k,ran,⟨blocks',frees',?_⟩,fun _ null => absurd null taken.nonnull⟩
    rw [granted,if_neg taken.nonnull]
    exact kept.grant taken

theorem calloc_valid (kept : Kept start size s blocks frees) (small : count * n < 2^64 - 16) :
    ∃ p k, calloc s.heap count n = some (p,k) ∧ Valid start size ⟨k,granted p (count * n) s.live⟩ := by
  have word : count * n % 2^64 = count * n := Nat.mod_eq_of_lt (by omega)
  rcases malloc_spec kept.layout small with ⟨ran,_⟩ | ⟨k,c,blocks',frees',ran,_,taken⟩
  · have result : calloc s.heap count n = some (0,s.heap) := by rw [calloc]; simp only [word,ran,if_true]
    refine ⟨0,s.heap,result,blocks,frees,?_⟩
    rw [granted,if_pos rfl]
    exact kept
  · have result : calloc s.heap count n =
        some (c.payload,{k with memory := setBytes k.memory c.payload 0 (count * n)}) := by
      rw [calloc]; simp only [word,ran,taken.nonnull,if_false]
    refine ⟨_,_,result,blocks',frees',?_⟩
    rw [granted,if_neg taken.nonnull]
    refine (kept.grant taken).write taken.member ?_
    intro x outside
    have room := taken.enough
    unfold Block.payload Block.stop at outside
    rw [setBytes_apply,if_neg (by unfold Block.payload; omega)]

theorem realloc_valid (kept : Kept start size s blocks frees) (held : (p,old) ∈ s.live) (small : n < 2^64 - 16) :
    ∃ q k, realloc s.heap p n = some (q,k) ∧ Valid start size ⟨k,moved p old q n s.live⟩ := by
  obtain ⟨b,block,rfl,room,busy⟩ := kept.busy held
  have nonnull : b.payload ≠ 0 := by unfold Block.payload; omega
  have back : b.payload - blockHeaderSize = b.addr := Nat.add_sub_cancel ..
  by_cases empty : n = 0
  · refine ⟨0,free s.heap b.payload,by rw [realloc,if_neg nonnull,if_pos empty],blocks,?_⟩
    rw [moved,if_pos empty]
    exact kept.release held
  have magic : ¬ s.heap.magic b.addr ≠ heapMagic := not_not.mpr (kept.layout.magics b block)
  have stored := kept.layout.sizes b block
  by_cases fits : alignSize n ≤ b.size
  · refine ⟨b.payload,s.heap,?_,blocks,frees,?_⟩
    · rw [realloc,if_neg nonnull,if_neg empty]
      simp only [back,if_neg magic,stored,fits,if_true]
    · rw [moved,if_neg empty,if_neg nonnull]
      exact kept.resize held block rfl (Nat.le_trans (alignSize_ge (Nat.le_of_lt small)) fits)
  rcases malloc_spec kept.layout small with ⟨ran,_⟩ | ⟨k,c,blocks',frees',ran,_,taken⟩
  · refine ⟨0,s.heap,?_,blocks,frees,?_⟩
    · rw [realloc,if_neg nonnull,if_neg empty]
      simp only [back,if_neg magic,stored,fits,if_false,ran,if_true]
    · rw [moved,if_neg empty,if_pos rfl]
      exact kept
  · -- allocate, copy into the new payload, give the old block back
    generalize copied : copyFrom k.memory b.addr b.payload c.payload n 0 n = m
    have outside : ∀ x, (x < c.payload ∨ c.stop ≤ x) → m x = k.memory x := by
      intro x away
      have enough := taken.enough
      unfold Block.stop at away
      rw [← copied]
      exact copyFrom_outside (by unfold Block.payload at away ⊢; omega)
    have written := (kept.grant taken).write taken.member outside
    have other : c.payload ≠ b.payload := by
      intro same
      have address : c.addr = b.addr := by unfold Block.payload at same; omega
      exact busy (address ▸ taken.taken)
    refine ⟨c.payload,free {k with memory := m} b.payload,?_,blocks',?_⟩
    · rw [realloc,if_neg nonnull,if_neg empty]
      simp only [back,if_neg magic,stored,fits,if_false,ran,taken.nonnull,copied]
    · rw [moved,if_neg empty,if_neg taken.nonnull]
      obtain ⟨frees'',released⟩ := written.release (List.mem_cons_of_mem _ held)
      rw [List.erase_cons_tail (by simpa using fun same => absurd same other)] at released
      exact ⟨frees'',released⟩

theorem step_valid (valid : Valid start size s) (step : Step s call t) : Valid start size t := by
  obtain ⟨blocks,frees,kept⟩ := valid
  cases step with
  | malloc small ran =>
    obtain ⟨p,k,result,next,_⟩ := malloc_valid kept small
    rw [ran] at result
    cases result
    exact next
  | calloc small ran =>
    obtain ⟨p,k,result,next⟩ := calloc_valid kept small
    rw [ran] at result
    cases result
    exact next
  | reallocNull small ran =>
    obtain ⟨p,k,result,next,_⟩ := malloc_valid kept small
    rw [realloc,if_pos rfl,result] at ran
    cases ran
    exact next
  | realloc held small ran =>
    obtain ⟨q,k,result,next⟩ := realloc_valid kept held small
    rw [ran] at result
    cases result
    exact next
  | freeNull => exact ⟨blocks,frees,by rw [KernelHeap.free,if_pos rfl]; exact kept⟩
  | free held => exact ⟨blocks,kept.release held⟩
  | write held inside =>
    obtain ⟨b,block,rfl,_,_⟩ := kept.busy held
    have back : b.payload - blockHeaderSize = b.addr := Nat.add_sub_cancel ..
    rw [back,kept.layout.sizes b block] at inside
    refine ⟨blocks,frees,kept.write block ?_⟩
    intro x outside
    unfold Block.stop Block.payload at outside
    exact Function.update_of_ne (by unfold Block.payload; omega) _ _

theorem runs_valid (region : Region start size) (path : Run Step (.init memory start size) calls s) :
    Valid start size s :=
  path.invariant (fun _ _ _ valid step => step_valid valid step) ⟨_,_,init_kept region⟩

-- Every admissible call returns: no list walk of the allocator fails to end.
theorem calls_return (region : Region start size) (path : Run Step (.init memory start size) calls s) :
    (∀ n < 2^64 - 16, ∃ r, malloc s.heap n = some r) ∧
    (∀ count n, count * n < 2^64 - 16 → ∃ r, calloc s.heap count n = some r) ∧
    (∀ p old, (p,old) ∈ s.live → ∀ n < 2^64 - 16, ∃ r, realloc s.heap p n = some r) := by
  obtain ⟨blocks,frees,kept⟩ := runs_valid region path
  refine ⟨?_,?_,?_⟩
  · intro n small
    obtain ⟨p,k,ran,_⟩ := malloc_valid kept small
    exact ⟨_,ran⟩
  · intro count n small
    obtain ⟨p,k,ran,_⟩ := calloc_valid kept small
    exact ⟨_,ran⟩
  · intro p old held n small
    obtain ⟨q,k,ran,_⟩ := realloc_valid kept held small
    exact ⟨_,ran⟩

def payloadOf (h : Heap) (p : Nat) : Nat × Nat := (p,p + h.size (p - blockHeaderSize))

theorem Kept.payloads (kept : Kept start size s blocks frees) :
    s.live.Pairwise (fun a b => (payloadOf s.heap a.1).2 ≤ b.1 ∨ (payloadOf s.heap b.1).2 ≤ a.1) := by
  have distinct : s.live.Pairwise (fun a b => a.1 ≠ b.1) := List.pairwise_map.mp kept.once
  refine distinct.imp_of_mem ?_
  rintro ⟨p,n⟩ ⟨q,m⟩ one two different
  obtain ⟨b,block,rfl,_,_⟩ := kept.busy one
  obtain ⟨c,inside,rfl,_,_⟩ := kept.busy two
  have stops : ∀ d ∈ blocks, (payloadOf s.heap d.payload).2 = d.stop := by
    intro d member
    have back : d.payload - blockHeaderSize = d.addr := Nat.add_sub_cancel ..
    rw [payloadOf,back,kept.layout.sizes d member]
    rfl
  rw [stops b block,stops c inside]
  have apart := kept.layout.tiles.apart block inside (fun same => different (congrArg Block.payload same))
  unfold Block.payload
  omega

-- The allocator over whole histories: tiling, list, payloads, malloc's failure and the
-- statistics, and every further call returns.
theorem blocks_accounted (region : Region start size) (path : Run Step (.init memory start size) calls s) :
    ∃ blocks frees,
      Tiles start blocks (start + size) ∧ (∀ b ∈ blocks, s.heap.size b.addr = b.size) ∧
      Path s.heap.next (· = 0) s.heap.freeList frees ∧ frees.Nodup ∧
      (∀ a, a ∈ frees ↔ ∃ b ∈ blocks, b.addr = a ∧ ∀ n, (b.payload,n) ∉ s.live) ∧
      (∀ p n, (p,n) ∈ s.live → ∃ b ∈ blocks, b.payload = p ∧ n ≤ b.size) ∧
      s.live.Pairwise (fun a b => (payloadOf s.heap a.1).2 ≤ b.1 ∨ (payloadOf s.heap b.1).2 ≤ a.1) ∧
      (∀ n, 0 < n → n < 2^64 - 16 → ∃ p k, malloc s.heap n = some (p,k) ∧
        (p = 0 → ∀ b ∈ blocks, b.addr ∈ frees → b.size < (n+15)/16*16)) ∧
      (∀ count n, count * n < 2^64 - 16 → ∃ r, calloc s.heap count n = some r) ∧
      (∀ p old, (p,old) ∈ s.live → ∀ n < 2^64 - 16, ∃ r, realloc s.heap p n = some r) ∧
      (size < 2^32 → ∃ freeBytes,
        freeBytes = ((blocks.filter (fun b => b.addr ∈ frees)).map (fun b => b.size + 24)).sum ∧
        heapStats s.heap = some ⟨size,size - freeBytes,freeBytes⟩) := by
  obtain ⟨_,callocs,reallocs⟩ := calls_return region path
  obtain ⟨blocks,frees,kept⟩ := runs_valid region path
  obtain ⟨base,length⟩ := kept.region
  have tiles := kept.layout.tiles
  rw [base,length] at tiles
  refine ⟨blocks,frees,tiles,kept.layout.sizes,kept.layout.links,kept.layout.frees_nodup,?_,kept.held,kept.payloads,?_,
    callocs,reallocs,?_⟩
  · intro a
    constructor
    · intro free
      obtain ⟨b,block,rfl⟩ := kept.layout.block_of_free free
      exact ⟨b,block,rfl,(kept.unheld b block).mp free⟩
    · rintro ⟨b,block,rfl,unheld⟩
      exact (kept.unheld b block).mpr unheld
  · intro n positive small
    obtain ⟨p,k,ran,_,short⟩ := malloc_valid kept small
    exact ⟨p,k,ran,short positive⟩
  · intro word
    obtain ⟨_,stats⟩ := heapStats_spec kept.layout (by rw [length]; exact word)
    rw [length] at stats
    exact ⟨_,rfl,stats⟩

theorem blocks_accounted_kernel_heap : ∃ s : System, s.live = [(0x10000C8,40)] ∧ ∃ blocks frees,
    Tiles 0x1000000 blocks 0x1100000 ∧ Path s.heap.next (· = 0) s.heap.freeList frees := by
  have path : Run Step (.init (fun _ => 255) 0x1000000 0x100000)
      [.malloc 100,.malloc 8,.realloc 0x10000A0 40,.free 0x1000018] _ :=
    .cons (.malloc (p := 0x1000018) (by decide) rfl)
      (.cons (.malloc (p := 0x10000A0) (by decide) rfl)
        (.cons (.realloc (show (_,8) ∈ _ by decide) (by decide) (show _ = some (0x10000C8,_) from rfl))
          (.cons (.free (n := 100) (by decide)) .nil)))
  obtain ⟨blocks,frees,tiles,_,links,_⟩ := blocks_accounted (by decide) path
  exact ⟨_,rfl,blocks,frees,tiles,links⟩

end SantOS.KernelHeap
