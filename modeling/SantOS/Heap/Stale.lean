import SantOS.Heap.Moves

namespace SantOS.KernelHeap
open ByteMemory LinkedPaths Runs

-- An element put in front of the list that already holds it closes a cycle: nothing
-- follows the links to an end any more.
theorem no_path_of_pushed {h k : Heap} {a : Nat} (links : Path h.next (· = 0) h.freeList (pre ++ a::post))
    (head : k.freeList = a) (back : k.next a = h.freeList) (same : ∀ z ∈ pre, k.next z = h.next z) :
    ¬ ∃ frees, Path k.next (· = 0) k.freeList frees := by
  rintro ⟨frees,path⟩
  have running : a ≠ 0 := links.running (by simp)
  rw [head] at path
  cases path with
  | nil done => exact running done
  | @cons _ rest _ after =>
    rw [back] at after
    -- the old list leads to a again, so the path from a would contain itself
    have whole : Path k.next (· = 0) a (a::rest) := .cons running (by rw [back]; exact after)
    have again : Path k.next (· = 0) h.freeList (pre ++ a::rest) := links.relink same whole
    have equal := congrArg List.length (after.unique again)
    simp only [List.length_append,List.length_cons] at equal
    omega

theorem freeSumFrom_path {h : Heap} {total : Nat} (ran : freeSumFrom h current total n = some result) :
    ∃ frees, Path h.next (· = 0) current frees := by
  induction n generalizing current total with
  | zero => cases ran
  | succ n ih =>
    rw [freeSumFrom] at ran
    by_cases done : current = 0
    · exact ⟨[],.nil done⟩
    · rw [if_neg done] at ran
      obtain ⟨rest,path⟩ := ih ran
      exact ⟨current::rest,.cons done path⟩

theorem freeSumFrom_returns {h : Heap} (links : Path h.next (· = 0) current frees) (fuel : frees.length < n)
    (total : Nat) : ∃ result, freeSumFrom h current total n = some result := by
  induction n generalizing current frees total with
  | zero => exact absurd fuel (Nat.not_lt_zero _)
  | succ n ih =>
    rw [freeSumFrom]
    cases links with
    | nil done =>
      rw [if_pos done]
      exact ⟨total,rfl⟩
    | cons more rest =>
      rw [if_neg more]
      exact ih rest (by simpa using fuel) _

theorem heapStats_path (ran : heapStats h = some result) : ∃ frees, Path h.next (· = 0) h.freeList frees := by
  rw [heapStats] at ran
  cases sum : freeSumFrom h h.freeList 0 h.fuel with
  | none => simp [sum] at ran
  | some total => exact freeSumFrom_path sum

theorem freed_twice (layout : Layout h blocks frees) (block : b ∈ blocks) (listed : b.addr ∈ frees) :
    ¬ ∃ other, Path (free h b.payload).next (· = 0) (free h b.payload).freeList other := by
  have atBlock : b.addr ∈ blocks.map Block.addr := List.mem_map_of_mem block
  have back : b.payload - blockHeaderSize = b.addr := Nat.add_sub_cancel ..
  have running : b.payload ≠ 0 := by unfold Block.payload; omega
  have magic : ¬ h.magic b.addr ≠ heapMagic := not_not.mpr (layout.magics b block)
  rw [free,if_neg running,back,if_neg magic]
  obtain ⟨pre,post,split⟩ := List.append_of_mem listed
  have distinct := layout.frees_nodup
  have links := layout.links
  rw [split] at links distinct
  have word : h.freeList < 2^64 := by
    cases pre with
    | nil =>
      have first : b.addr = h.freeList := links.head
      have bound := layout.mem_bounds block
      omega
    | cons q pre =>
      have first : q = h.freeList := links.head
      obtain ⟨d,member,rfl⟩ := layout.block_of_free (show q ∈ frees by rw [split]; simp)
      have bound := layout.mem_bounds member
      omega
  refine no_path_of_pushed links rfl ?_ ?_
  · show (h.setNext b.addr h.freeList).next b.addr = h.freeList
    rw [next_setNext,Nat.mod_eq_of_lt word]
  · intro z member
    obtain ⟨d,inside,rfl⟩ := layout.block_of_free (show z ∈ frees by rw [split]; exact List.mem_append_left _ member)
    exact (layout.setNext_frame atBlock h.freeList).2 d inside
      (once_of_nodup distinct (List.mem_append_left _ member))

-- The allocator in order: the list has an end and no element twice, no held block is on
-- it, no pointer is held twice, held payloads lie apart, and malloc and heap_stats return.
structure Orderly (s : Session) : Prop where
  acyclic : ∃ frees, Path s.heap.next (· = 0) s.heap.freeList frees ∧ frees.Nodup ∧
    ∀ p n, (p,n) ∈ s.live → p - blockHeaderSize ∉ frees
  once : (s.live.map Prod.fst).Nodup
  apart : s.live.Pairwise (fun a b => (payloadOf s.heap a.1).2 ≤ b.1 ∨ (payloadOf s.heap b.1).2 ≤ a.1)
  mallocReturns : ∀ n < 2^64, ∃ r, malloc s.heap n = some r
  statsReturn : ∃ r, heapStats s.heap = some r

theorem Served.orderly (served : Served start size s blocks frees) : Orderly s := by
  have layout := served.layout
  refine ⟨⟨frees,layout.links,layout.frees_nodup,?_⟩,served.once,served.toKept.payloads,?_,?_⟩
  · intro p n held
    obtain ⟨b,_,rfl,_,busy⟩ := served.toKept.busy held
    have back : b.payload - blockHeaderSize = b.addr := Nat.add_sub_cancel ..
    rwa [back]
  · intro n _
    obtain ⟨p,k,ran,_⟩ := malloc_served served n
    exact ⟨_,ran⟩
  · obtain ⟨total,summed⟩ := freeSumFrom_returns layout.links layout.frees_length 0
    exact ⟨_,by rw [heapStats,summed]⟩

theorem Served.stale_listed (served : Served start size s blocks frees) (stale : s.Stale p) :
    ∃ b ∈ blocks, b.payload = p ∧ b.addr ∈ frees := by
  obtain ⟨b,block,rfl⟩ := served.payloads p stale.1
  exact ⟨b,block,rfl,(served.unheld b block).mpr stale.2⟩

theorem stats_hang (served : Served start size s blocks frees) (stale : s.Stale p) :
    heapStats (free s.heap p) = none := by
  obtain ⟨b,block,rfl,listed⟩ := served.stale_listed stale
  by_contra returned
  obtain ⟨result,ran⟩ := Option.ne_none_iff_exists'.mp returned
  exact freed_twice served.layout block listed (heapStats_path ran)

theorem stale_free_breaks (served : Served start size s blocks frees) (stale : s.Stale p) :
    ¬ Orderly ⟨⟨free s.heap p,s.live⟩,s.given⟩ := by
  obtain ⟨b,block,rfl,listed⟩ := served.stale_listed stale
  intro orderly
  obtain ⟨other,path,_⟩ := orderly.acyclic
  exact freed_twice served.layout block listed ⟨other,path⟩

theorem stale_realloc_breaks (served : Served start size s blocks frees) (stale : s.Stale p) (word : n < 2^64)
    (ran : realloc s.heap p n = some (q,k)) (unsound : ¬ Sound s (.realloc p n)) :
    ¬ Orderly (s.hand q (alignSize n) k) := by
  obtain ⟨b,block,rfl,listed⟩ := served.stale_listed stale
  have nonnull : b.payload ≠ 0 := by unfold Block.payload; omega
  have back : b.payload - blockHeaderSize = b.addr := Nat.add_sub_cancel ..
  intro orderly
  obtain ⟨other,path,_,unlisted⟩ := orderly.acyclic
  by_cases empty : n = 0
  · rw [realloc,if_neg nonnull,if_pos empty] at ran
    cases ran
    exact freed_twice served.layout block listed ⟨other,path⟩
  rcases realloc_moves served.layout block empty with
    ⟨fits,result⟩ | ⟨short,none,result⟩ | ⟨h,c,blocks',frees',moves,result⟩
  · cases ran.symm.trans result
    have same : other = frees := path.unique served.layout.links
    have held : (b.payload,alignSize n) ∈ (s.hand b.payload (alignSize n) s.heap).live := by
      rw [Session.hand,granted,if_neg nonnull]
      exact .head _
    exact unlisted _ _ held (by rw [back,same]; exact listed)
  · refine unsound (fun _ => ⟨empty,?_,served.layout.exhausted_iff.mpr none⟩)
    rw [back,served.layout.sizes b block]
    exact short
  · cases ran.symm.trans result
    -- b was listed before the grant and is another block, so it is listed still
    have still : b.addr ∈ frees' := by
      refine (moves.granted.listed b (moves.stays served.layout block)).mpr ⟨moves.other served.layout block,?_⟩
      intro e _ busy same
      exact busy (same ▸ listed)
    exact freed_twice (moves.filled_layout word) (moves.stays served.layout block) still ⟨other,path⟩

-- Sound runs leave the allocator in order, a stale pointer they hand to realloc changes
-- nothing, and the first call that is not sound breaks the order at once.
theorem stale_calls {start size : Nat} {memory : Memory} {calls : List Call} {s : Session} (region : Region start size)
    (path : Run SoundServe (.init memory start size) calls s) :
    Orderly s ∧ (∀ p n, s.Stale p → Sound s (.realloc p n) → realloc s.heap p n = some (0,s.heap)) ∧
      (∀ p, s.Stale p → heapStats (free s.heap p) = none) ∧ ∀ call t, Serve s call t → (Orderly t ↔ Sound s call) := by
  have accounted := runs_accounted region path
  obtain ⟨blocks,frees,served⟩ := accounted
  refine ⟨served.orderly,fun p n stale sound => stale_refused served stale sound,
    fun p stale => stats_hang served stale,?_⟩
  intro call t serve
  constructor
  · intro orderly
    cases serve with
    | malloc => exact trivial
    | calloc => exact trivial
    | reallocNull =>
      intro stale
      obtain ⟨b,_,null⟩ := served.payloads 0 stale.1
      unfold Block.payload at null
      omega
    | realloc held => exact fun stale => absurd held (stale.2 _)
    | reallocStale stale word ran =>
      by_contra unsound
      exact stale_realloc_breaks served stale word ran unsound orderly
    | freeNull =>
      intro stale
      obtain ⟨b,_,null⟩ := served.payloads 0 stale.1
      unfold Block.payload at null
      omega
    | free held => exact fun stale => stale.2 _ held
    | freeStale stale => exact absurd orderly (stale_free_breaks served stale)
    | write => exact trivial
  · intro sound
    obtain ⟨_,_,next⟩ := step_accounted ⟨blocks,frees,served⟩ ⟨sound,serve⟩
    exact next.orderly

theorem stale_calls_small_heap : ∃ s : Session, s.Stale 0x1000018 ∧ Orderly s ∧
    heapStats (free s.heap 0x1000018) = none := by
  obtain ⟨s,path,given,live⟩ : ∃ s : Session, Run SoundServe (.init (fun _ => 255) 0x1000000 64)
      [.malloc 8,.free 0x1000018] s ∧ s.given = [0x1000018] ∧ s.live = [] :=
    ⟨_,.cons ⟨trivial,.malloc (p := 0x1000018) (by decide) rfl⟩
      (.cons ⟨fun stale => stale.2 16 (.head _),.free (n := 16) (.head _)⟩ .nil),rfl,rfl⟩
  have stale : s.Stale 0x1000018 := by simp [Session.Stale,given,live]
  obtain ⟨orderly,_,hangs,_⟩ := stale_calls (by decide) path
  exact ⟨_,stale,orderly,hangs _ stale⟩

-- A second free is not rejected: the list runs in a circle, a later malloc and heap_stats
-- never come back, and two mallocs of 8 bytes get the same payload.
theorem second_free_accepted : ∃ s t : Session,
    Run SoundServe (.init (fun _ => 255) 0x1000000 64) [.malloc 8,.free 0x1000018] s ∧
    Serve s (.free 0x1000018) t ∧ malloc t.heap 100 = none ∧ heapStats t.heap = none ∧
    (malloc t.heap 8).bind (fun r => (malloc r.2 8).map (fun q => (r.1,q.1))) = some (0x1000018,0x1000018) := by
  refine ⟨_,_,.cons ⟨trivial,.malloc (p := 0x1000018) (by decide) rfl⟩
      (.cons ⟨fun stale => stale.2 16 (.head _),.free (n := 16) (.head _)⟩ .nil),
    .freeStale ⟨.head _,fun n member => List.not_mem_nil (show (0x1000018,n) ∈ ([] : List (Nat × Nat)) from member)⟩,
    ?_,?_,?_⟩
  · exact Option.isNone_iff_eq_none.mp (by decide +kernel)
  · exact Option.isNone_iff_eq_none.mp (by decide +kernel)
  · decide +kernel

end SantOS.KernelHeap
