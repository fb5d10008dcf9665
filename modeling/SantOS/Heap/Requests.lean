import SantOS.Heap.Histories

namespace SantOS.KernelHeap
open ByteMemory LinkedPaths Runs

def Exhausted (h : Heap) (m : Nat) : Prop :=
  ∀ frees, Path h.next (· = 0) h.freeList frees → ∀ a ∈ frees, h.size a < m

theorem Layout.exhausted_iff (layout : Layout h blocks frees) : Exhausted h m ↔ ∀ a ∈ frees, h.size a < m := by
  constructor
  · intro exhausted
    exact exhausted frees layout.links
  · intro short other links
    rw [links.unique layout.links]
    exact short

theorem Layout.size_lt (layout : Layout h blocks frees) (member : b ∈ blocks) : b.size < 2^64 - 16 := by
  obtain ⟨_,_,room⟩ := layout.mem_bounds member
  have small := layout.small
  omega

-- Some block has room for the rounded size, so a size whose rounding does not wrap to 0
-- is no more than the rounded one.
theorem alignSize_room {n : Nat} (word : n < 2^64) (some : alignSize n ≠ 0) : n ≤ alignSize n := by
  by_cases small : n ≤ 2^64 - 16
  · exact alignSize_ge small
  · exact absurd (alignSize_wraps (by omega) word) some

-- realloc of the payload of a block, held or not: the block is large enough, or nothing is
-- large enough, or a listed block is handed out, filled and the old one given to free.
structure Moves (h k : Heap) (blocks blocks' : List Block) (frees frees' : List Nat) (b c : Block) (n : Nat) : Prop where
  short : b.size < alignSize n
  room : alignSize n ≤ h.size c.addr
  granted : Granted h k blocks blocks' frees frees' c (alignSize n)
  others : ∀ d ∈ blocks, d.addr ≠ c.addr → d ∈ blocks'

def filled (k : Heap) (b c : Block) (n : Nat) : Heap :=
  {k with memory := copyFrom k.memory b.addr b.payload c.payload n 0 n}

theorem realloc_moves (layout : Layout h blocks frees) (block : b ∈ blocks) (positive : n ≠ 0) :
    (alignSize n ≤ b.size ∧ realloc h b.payload n = some (b.payload,h)) ∨
    (b.size < alignSize n ∧ (∀ a ∈ frees, h.size a < alignSize n) ∧ realloc h b.payload n = some (0,h)) ∨
    ∃ k c blocks' frees', Moves h k blocks blocks' frees frees' b c n ∧
      realloc h b.payload n = some (c.payload,free (filled k b c n) b.payload) := by
  have nonnull : b.payload ≠ 0 := by unfold Block.payload; omega
  have back : b.payload - blockHeaderSize = b.addr := Nat.add_sub_cancel ..
  have magic : ¬ h.magic b.addr ≠ heapMagic := not_not.mpr (layout.magics b block)
  have stored := layout.sizes b block
  by_cases fits : alignSize n ≤ b.size
  · refine .inl ⟨fits,?_⟩
    rw [realloc,if_neg nonnull,if_neg positive]
    simp only [back,if_neg magic,stored,fits,if_true]
  rcases malloc_grants layout positive with ⟨ran,short⟩ | ⟨k,c,blocks',frees',ran,room,granted,others⟩
  · refine .inr (.inl ⟨Nat.not_le.mp fits,short,?_⟩)
    rw [realloc,if_neg nonnull,if_neg positive]
    simp only [back,if_neg magic,stored,fits,if_false,ran,if_true]
  · refine .inr (.inr ⟨k,c,blocks',frees',⟨Nat.not_le.mp fits,room,granted,others⟩,?_⟩)
    rw [realloc,if_neg nonnull,if_neg positive]
    simp only [back,if_neg magic,stored,fits,if_false,ran,granted.nonnull,filled]

section
variable {h k : Heap} {blocks blocks' : List Block} {frees frees' : List Nat} {b c : Block} {n : Nat}

theorem Moves.other (moves : Moves h k blocks blocks' frees frees' b c n) (layout : Layout h blocks frees)
    (block : b ∈ blocks) : b.addr ≠ c.addr := by
  intro same
  have room := moves.room
  have short := moves.short
  rw [← same,layout.sizes b block] at room
  omega

theorem Moves.stays (moves : Moves h k blocks blocks' frees frees' b c n) (layout : Layout h blocks frees)
    (block : b ∈ blocks) : b ∈ blocks' := moves.others b block (moves.other layout block)

theorem Moves.enough (moves : Moves h k blocks blocks' frees frees' b c n) (word : n < 2^64) : n ≤ c.size := by
  have short := moves.short
  exact Nat.le_trans (alignSize_room word (by omega)) moves.granted.enough

theorem Moves.filled_outside (moves : Moves h k blocks blocks' frees frees' b c n) (word : n < 2^64) :
    ∀ x, (x < c.payload ∨ c.stop ≤ x) → (filled k b c n).memory x = k.memory x := by
  intro x away
  have enough := moves.enough word
  unfold Block.stop at away
  exact copyFrom_outside (by unfold Block.payload at away ⊢; omega)

theorem Moves.filled_layout (moves : Moves h k blocks blocks' frees frees' b c n) (word : n < 2^64) :
    Layout (filled k b c n) blocks' frees' :=
  moves.granted.layout.write_inside moves.granted.member (moves.filled_outside word)

end

theorem calloc_grants (layout : Layout h blocks frees) (count n : Nat) :
    (calloc h count n = some (0,h) ∧ (count * n % 2^64 = 0 ∨ ∀ a ∈ frees, h.size a < alignSize (count * n % 2^64))) ∨
    ∃ k c blocks' frees', count * n % 2^64 ≠ 0 ∧ alignSize (count * n % 2^64) ≤ h.size c.addr ∧
      Granted h k blocks blocks' frees frees' c (alignSize (count * n % 2^64)) ∧
      (∀ d ∈ blocks, d.addr ≠ c.addr → d ∈ blocks') ∧
      calloc h count n = some (c.payload,{k with memory := setBytes k.memory c.payload 0 (count * n % 2^64)}) := by
  by_cases empty : count * n % 2^64 = 0
  · have ran : malloc h (count * n % 2^64) = some (0,h) := by rw [empty,malloc,if_pos rfl]
    refine .inl ⟨?_,.inl empty⟩
    rw [calloc]
    simp only [ran,if_true]
  rcases malloc_grants layout empty with ⟨ran,short⟩ | ⟨k,c,blocks',frees',ran,room,granted,others⟩
  · refine .inl ⟨?_,.inr short⟩
    rw [calloc]
    simp only [ran,if_true]
  · refine .inr ⟨k,c,blocks',frees',empty,room,granted,others,?_⟩
    rw [calloc]
    simp only [ran,granted.nonnull,if_false]

-- The clients of the allocator again, now with any 64-bit size: what is held goes with the
-- rounded size of its last request, and every pointer ever handed out is remembered.
structure Session extends System where
  given : List Nat

def Session.init (memory : Memory) (start size : Nat) : Session := ⟨.init memory start size,[]⟩

def Session.hand (s : Session) (ptr size : Nat) (k : Heap) : Session :=
  ⟨⟨k,granted ptr size s.live⟩,if ptr = 0 then s.given else ptr::s.given⟩

def Session.resize (s : Session) (ptr old size result : Nat) (k : Heap) : Session :=
  if size = 0 then ⟨⟨k,s.live.erase (ptr,old)⟩,s.given⟩
  else if result = 0 then ⟨⟨k,s.live⟩,s.given⟩
  else ⟨⟨k,(result,alignSize size)::s.live.erase (ptr,old)⟩,result::s.given⟩

def Session.Stale (s : Session) (ptr : Nat) : Prop := ptr ∈ s.given ∧ ∀ n, (ptr,n) ∉ s.live

-- free and realloc come for NULL, for what is held and for what was given back. A calloc
-- that gets a block for more than 2^64-16 wrapped bytes never comes back: it zeroes the
-- whole address space, its own code included.
inductive Serve : Session → Call → Session → Prop where
  | malloc (word : n < 2^64) (ran : KernelHeap.malloc s.heap n = some (p,k)) :
      Serve s (.malloc n) (s.hand p (alignSize n) k)
  | calloc (words : count < 2^64 ∧ n < 2^64) (ran : KernelHeap.calloc s.heap count n = some (p,k))
      (zeroed : p = 0 ∨ count * n % 2^64 ≤ 2^64 - 16) :
      Serve s (.calloc count n) (s.hand p (alignSize (count * n % 2^64)) k)
  | reallocNull (word : n < 2^64) (ran : KernelHeap.realloc s.heap 0 n = some (p,k)) :
      Serve s (.realloc 0 n) (s.hand p (alignSize n) k)
  | realloc (held : (p,old) ∈ s.live) (word : n < 2^64) (ran : KernelHeap.realloc s.heap p n = some (q,k)) :
      Serve s (.realloc p n) (s.resize p old n q k)
  | reallocStale (stale : s.Stale p) (word : n < 2^64) (ran : KernelHeap.realloc s.heap p n = some (q,k)) :
      Serve s (.realloc p n) (s.hand q (alignSize n) k)
  | freeNull : Serve s (.free 0) ⟨⟨KernelHeap.free s.heap 0,s.live⟩,s.given⟩
  | free (held : (p,n) ∈ s.live) : Serve s (.free p) ⟨⟨KernelHeap.free s.heap p,s.live.erase (p,n)⟩,s.given⟩
  | freeStale (stale : s.Stale p) : Serve s (.free p) ⟨⟨KernelHeap.free s.heap p,s.live⟩,s.given⟩
  | write (held : (p,n) ∈ s.live) (inside : offset < s.heap.size (p - blockHeaderSize)) :
      Serve s (.write p offset byte)
        ⟨⟨{s.heap with memory := Function.update s.heap.memory (p + offset) byte},s.live⟩,s.given⟩

-- A pointer given back already goes to realloc alone, and only where realloc finds neither
-- the old block large enough nor another one.
def Sound (s : Session) : Call → Prop
  | .free p => ¬ s.Stale p
  | .realloc p n => s.Stale p →
      n ≠ 0 ∧ s.heap.size (p - blockHeaderSize) < alignSize n ∧ Exhausted s.heap (alignSize n)
  | _ => True

def SoundServe (s : Session) (call : Call) (t : Session) : Prop := Sound s call ∧ Serve s call t

-- The invariant of sound runs: what is held was handed out, and what was ever handed out is
-- still the payload of a block.
structure Served (start size : Nat) (s : Session) (blocks : List Block) (frees : List Nat) : Prop
    extends Kept start size s.toSystem blocks frees where
  known : ∀ p n, (p,n) ∈ s.live → p ∈ s.given
  payloads : ∀ p ∈ s.given, ∃ b ∈ blocks, b.payload = p

theorem init_served (region : Region start size) :
    Served start size (.init memory start size) [⟨start,size - 24⟩] [start] :=
  ⟨init_kept region,fun _ _ member => (by cases member),fun _ member => (by cases member)⟩

theorem Granted.addresses (taken : Granted h k blocks blocks' frees frees' c m)
    (others : ∀ d ∈ blocks, d.addr ≠ c.addr → d ∈ blocks') (block : d ∈ blocks) : ∃ e ∈ blocks', e.payload = d.payload := by
  by_cases same : d.addr = c.addr
  · exact ⟨c,taken.member,by rw [Block.payload,Block.payload,same]⟩
  · exact ⟨d,others d block same,rfl⟩

theorem Served.hand_null (served : Served start size s blocks frees) :
    Served start size (s.hand 0 m s.heap) blocks frees := by
  rw [Session.hand,granted,if_pos rfl,if_pos rfl]
  exact served

theorem Served.hand_granted (served : Served start size s blocks frees)
    (taken : Granted s.heap k blocks blocks' frees frees' c m)
    (others : ∀ d ∈ blocks, d.addr ≠ c.addr → d ∈ blocks') : Served start size (s.hand c.payload m k) blocks' frees' := by
  rw [Session.hand,granted,if_neg taken.nonnull,if_neg taken.nonnull]
  refine ⟨served.toKept.grant taken,?_,?_⟩
  · intro p n member
    rcases List.mem_cons.mp member with new | old
    · exact List.mem_cons.mpr (.inl (congrArg Prod.fst new))
    · exact List.mem_cons_of_mem _ (served.known p n old)
  · intro p member
    rcases List.mem_cons.mp member with rfl | old
    · exact ⟨c,taken.member,rfl⟩
    obtain ⟨d,block,rfl⟩ := served.payloads p old
    exact taken.addresses others block

theorem Served.write (served : Served start size s blocks frees) (block : c ∈ blocks)
    (outside : ∀ x, (x < c.payload ∨ c.stop ≤ x) → m x = s.heap.memory x) :
    Served start size ⟨⟨{s.heap with memory := m},s.live⟩,s.given⟩ blocks frees :=
  ⟨served.toKept.write block outside,served.known,served.payloads⟩

theorem Served.release (served : Served start size s blocks frees) (held : (p,n) ∈ s.live) :
    ∃ frees', Served start size ⟨⟨free s.heap p,s.live.erase (p,n)⟩,s.given⟩ blocks frees' := by
  obtain ⟨frees',kept⟩ := served.toKept.release held
  exact ⟨frees',kept,fun q m member => served.known q m (List.mem_of_mem_erase member),served.payloads⟩

def Accounted (start size : Nat) (s : Session) : Prop := ∃ blocks frees, Served start size s blocks frees

theorem malloc_served (served : Served start size s blocks frees) (n : Nat) :
    ∃ p k, malloc s.heap n = some (p,k) ∧ Accounted start size (s.hand p (alignSize n) k) := by
  by_cases empty : n = 0
  · exact ⟨0,s.heap,by rw [malloc,if_pos empty],blocks,frees,served.hand_null⟩
  rcases malloc_grants served.layout empty with ⟨ran,_⟩ | ⟨k,c,blocks',frees',ran,_,taken,others⟩
  · exact ⟨0,s.heap,ran,blocks,frees,served.hand_null⟩
  · exact ⟨c.payload,k,ran,blocks',frees',served.hand_granted taken others⟩

theorem calloc_served (served : Served start size s blocks frees) (count n : Nat) :
    ∃ p k, calloc s.heap count n = some (p,k) ∧
      ((p = 0 ∨ count * n % 2^64 ≤ 2^64 - 16) → Accounted start size (s.hand p (alignSize (count * n % 2^64)) k)) := by
  rcases calloc_grants served.layout count n with
    ⟨ran,_⟩ | ⟨k,c,blocks',frees',_,_,taken,others,ran⟩
  · exact ⟨0,s.heap,ran,fun _ => ⟨blocks,frees,served.hand_null⟩⟩
  · refine ⟨c.payload,_,ran,?_⟩
    rintro (null | inside)
    · exact absurd null taken.nonnull
    · have fresh := served.hand_granted taken others
      rw [Session.hand,granted,if_neg taken.nonnull,if_neg taken.nonnull] at fresh ⊢
      refine ⟨blocks',frees',fresh.write taken.member ?_⟩
      intro x outside
      have room : count * n % 2^64 ≤ c.size := Nat.le_trans (alignSize_ge inside) taken.enough
      unfold Block.payload Block.stop at outside
      rw [setBytes_apply,if_neg (by unfold Block.payload; omega)]

theorem realloc_served (served : Served start size s blocks frees) (held : (p,old) ∈ s.live) (word : n < 2^64) :
    ∃ q k, realloc s.heap p n = some (q,k) ∧ Accounted start size (s.resize p old n q k) := by
  obtain ⟨b,block,rfl,_,busy⟩ := served.toKept.busy held
  have nonnull : b.payload ≠ 0 := by unfold Block.payload; omega
  by_cases empty : n = 0
  · refine ⟨0,free s.heap b.payload,by rw [realloc,if_neg nonnull,if_pos empty],blocks,?_⟩
    rw [Session.resize,if_pos empty]
    exact served.release held
  rcases realloc_moves served.layout block empty with ⟨fits,ran⟩ | ⟨_,_,ran⟩ | ⟨k,c,blocks',frees',moves,ran⟩
  · refine ⟨b.payload,s.heap,ran,blocks,frees,?_⟩
    rw [Session.resize,if_neg empty,if_neg nonnull]
    refine ⟨served.toKept.resize held block rfl fits,?_,?_⟩
    · intro p m member
      rcases List.mem_cons.mp member with new | rest
      · exact List.mem_cons.mpr (.inl (congrArg Prod.fst new))
      · exact List.mem_cons_of_mem _ (served.known p m (List.mem_of_mem_erase rest))
    · intro p member
      rcases List.mem_cons.mp member with rfl | given
      · exact ⟨b,block,rfl⟩
      · exact served.payloads p given
  · refine ⟨0,s.heap,ran,blocks,frees,?_⟩
    rw [Session.resize,if_neg empty,if_pos rfl]
    exact served
  · have taken := moves.granted
    have fresh := served.hand_granted taken moves.others
    rw [Session.hand,granted,if_neg taken.nonnull,if_neg taken.nonnull] at fresh
    have written := fresh.write taken.member (moves.filled_outside word)
    have different : c.payload ≠ b.payload := by
      have other := moves.other served.layout block
      unfold Block.payload
      omega
    obtain ⟨frees'',released⟩ := written.release (List.mem_cons_of_mem _ held)
    rw [List.erase_cons_tail (by simpa using fun same => absurd same different)] at released
    refine ⟨c.payload,free (filled k b c n) b.payload,ran,blocks',frees'',?_⟩
    rw [Session.resize,if_neg empty,if_neg taken.nonnull]
    exact released

theorem stale_refused (served : Served start size s blocks frees) (stale : s.Stale p) (sound : Sound s (.realloc p n)) :
    realloc s.heap p n = some (0,s.heap) := by
  obtain ⟨positive,short,exhausted⟩ := sound stale
  obtain ⟨b,block,rfl⟩ := served.payloads p stale.1
  have back : b.payload - blockHeaderSize = b.addr := Nat.add_sub_cancel ..
  rw [back,served.layout.sizes b block] at short
  rcases realloc_moves served.layout block positive with ⟨fits,_⟩ | ⟨_,_,ran⟩ | ⟨k,c,blocks',frees',moves,_⟩
  · omega
  · exact ran
  · have room := moves.room
    have listed := exhausted frees served.layout.links c.addr moves.granted.taken
    omega

theorem step_accounted (accounted : Accounted start size s) (step : SoundServe s call t) : Accounted start size t := by
  obtain ⟨blocks,frees,served⟩ := accounted
  obtain ⟨sound,serve⟩ := step
  cases serve with
  | @malloc n _ p k word ran =>
    obtain ⟨_,_,result,next⟩ := malloc_served served n
    cases ran.symm.trans result
    exact next
  | @calloc count n _ p k words ran zeroed =>
    obtain ⟨_,_,result,next⟩ := calloc_served served count n
    cases ran.symm.trans result
    exact next zeroed
  | @reallocNull n _ p k word ran =>
    rw [realloc,if_pos rfl] at ran
    obtain ⟨_,_,result,next⟩ := malloc_served served n
    cases ran.symm.trans result
    exact next
  | realloc held word ran =>
    obtain ⟨_,_,result,next⟩ := realloc_served served held word
    cases ran.symm.trans result
    exact next
  | reallocStale stale word ran =>
    cases ran.symm.trans (stale_refused served stale sound)
    exact ⟨blocks,frees,served.hand_null⟩
  | freeNull =>
    rw [free,if_pos rfl]
    exact ⟨blocks,frees,served⟩
  | free held => exact ⟨blocks,served.release held⟩
  | freeStale stale => exact absurd stale sound
  | write held inside =>
    obtain ⟨b,block,rfl,_,_⟩ := served.toKept.busy held
    have back : b.payload - blockHeaderSize = b.addr := Nat.add_sub_cancel ..
    rw [back,served.layout.sizes b block] at inside
    refine ⟨blocks,frees,served.write block ?_⟩
    intro x outside
    unfold Block.stop Block.payload at outside
    exact Function.update_of_ne (by unfold Block.payload; omega) _ _

theorem runs_accounted (region : Region start size) (path : Run SoundServe (.init memory start size) calls s) :
    Accounted start size s :=
  path.invariant (fun _ _ _ accounted step => step_accounted accounted step) ⟨_,_,init_served region⟩

end SantOS.KernelHeap
