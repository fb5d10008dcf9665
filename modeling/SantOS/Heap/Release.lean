import Mathlib.Algebra.Order.BigOperators.Group.List
import SantOS.Heap.Operations

namespace SantOS.KernelHeap
open ByteMemory LinkedPaths

theorem Layout.write_inside (layout : Layout h blocks frees) (member : c ∈ blocks)
    (outside : ∀ x, (x < c.payload ∨ c.stop ≤ x) → m x = h.memory x) : Layout {h with memory := m} blocks frees := by
  refine layout.congr ?_
  intro b block i bound
  apply outside
  unfold Block.payload
  by_cases same : b = c
  · subst same; exact .inl (by omega)
  · have apart := layout.tiles.apart block member same
    unfold Block.stop at apart ⊢
    omega

theorem copyFrom_outside {m : Memory} {block src dst size i left x : Nat} (outside : x < dst + i ∨ dst + size ≤ x) :
    copyFrom m block src dst size i left x = m x := by
  induction left generalizing m i with
  | zero => rfl
  | succ left ih =>
    rw [copyFrom]
    by_cases more : i < load m block 8 ∧ i < size
    · rw [if_pos more,ih (by omega),Function.update_of_ne (by omega)]
    · rw [if_neg more]

-- The copied bytes, when the destination meets neither the source nor the size field that
-- every round reads again.
theorem copyFrom_inside {m : Memory} {block src dst size i left j : Nat} (field : dst + size ≤ block ∨ block + 8 ≤ dst)
    (apart : dst + size ≤ src ∨ src + load m block 8 ≤ dst) (later : i ≤ j) (stored : j < load m block 8)
    (wanted : j < size) (rounds : size ≤ i + left) : copyFrom m block src dst size i left (dst+j) = m (src+j) := by
  induction left generalizing m i with
  | zero => omega
  | succ left ih =>
    rw [copyFrom,if_pos ⟨Nat.lt_of_le_of_lt later stored,Nat.lt_of_le_of_lt later wanted⟩]
    by_cases last : j = i
    · subst last
      rw [copyFrom_outside (.inl (by omega)),Function.update_self]
    · have same : load (Function.update m (dst+i) (m (src+i))) block 8 = load m block 8 := by
        apply load_congr
        intro c bound
        exact Function.update_of_ne (by omega) _ _
      rw [ih (by rw [same]; exact apart) (by omega) (by rw [same]; exact stored) (by omega),
        Function.update_of_ne (by omega)]

theorem free_spec (layout : Layout h blocks frees) (member : b ∈ blocks) (busy : b.addr ∉ frees) :
    Layout (free h b.payload) blocks (b.addr::frees) ∧ (free h b.payload).heapStart = h.heapStart ∧
      (free h b.payload).heapSize = h.heapSize ∧ HeadersOnly h (free h b.payload) blocks := by
  have atBlock : b.addr ∈ blocks.map Block.addr := List.mem_map_of_mem member
  obtain ⟨positive,top,_⟩ := layout.mem_bounds member
  have back : b.payload - blockHeaderSize = b.addr := Nat.add_sub_cancel ..
  have running : b.payload ≠ 0 := by unfold Block.payload; omega
  have freed : free h b.payload = {h.setNext b.addr h.freeList with freeList := b.addr} := by
    rw [free,if_neg running,back,if_neg (by rw [layout.magics b member]; simp)]
  rw [freed]
  refine ⟨?_,rfl,rfl,setNext_headers_only h _ atBlock⟩
  have linked := layout.setNext_unlisted atBlock busy h.freeList
  refine linked.set_free_list (.cons (by omega) ?_) ?_
  · have listHead : h.freeList < 2^64 := by
      cases layout.links with
      | nil done => rw [done]; decide
      | cons _ _ =>
        obtain ⟨d,inside,same⟩ := layout.block_of_free (List.mem_cons_self ..)
        obtain ⟨_,bound,_⟩ := layout.mem_bounds inside
        omega
    rw [next_setNext,Nat.mod_eq_of_lt listHead]
    exact linked.links
  · intro a listed
    rcases List.mem_cons.mp listed with rfl | old
    · exact atBlock
    · exact layout.listed a old

-- Memory that does not belong to the heap itself: all outside it and the payloads of the
-- blocks that are not free.
def Used (h : Heap) (blocks : List Block) (frees : List Nat) (x : Nat) : Prop :=
  (x < h.heapStart ∨ h.heapStart + h.heapSize ≤ x) ∨ ∃ e ∈ blocks, e.addr ∉ frees ∧ e.payload ≤ x ∧ x < e.stop

theorem malloc_used (layout : Layout h blocks frees) (ran : malloc h n = some (p,k)) (used : Used h blocks frees x) :
    k.memory x = h.memory x := by
  rcases used with outside | ⟨e,block,busy,low,high⟩
  · exact malloc_outside layout ran outside
  by_cases empty : n = 0
  · rw [malloc,if_pos empty] at ran
    cases ran
    rfl
  · rcases malloc_grants layout empty with ⟨failed,_⟩ | ⟨j,c,blocks',frees',granted,_,grants,_⟩
    · cases ran.symm.trans failed
      rfl
    · cases ran.symm.trans granted
      exact grants.bytes e block busy x low high

theorem Granted.used (granted : Granted h k blocks blocks' frees frees' c n) (used : Used h blocks frees x) :
    Used k blocks' frees' x ∧ (x < c.payload ∨ c.stop ≤ x) := by
  obtain ⟨start,length⟩ := granted.region
  rcases used with outside | ⟨e,block,busy,low,high⟩
  · obtain ⟨first,last⟩ := granted.layout.tiles.mem granted.member
    rw [start] at first
    rw [start,length] at last
    refine ⟨.inl (by rw [start,length]; exact outside),?_⟩
    unfold Block.payload
    omega
  · have kept := granted.kept e block busy
    have other : e ≠ c := by
      rintro rfl
      exact busy granted.taken
    have stays : e.addr ∉ frees' := fun listed => ((granted.listed e kept).mp listed).2 e block busy rfl
    have apart := granted.layout.tiles.apart kept granted.member other
    refine ⟨.inr ⟨e,kept,stays,low,high⟩,?_⟩
    unfold Block.payload at low ⊢
    omega

theorem Granted.busy (granted : Granted h k blocks blocks' frees frees' c n) : c.addr ∉ frees' :=
  fun listed => ((granted.listed c granted.member).mp listed).1 rfl

theorem free_used (layout : Layout h blocks frees) (member : b ∈ blocks) (busy : b.addr ∉ frees)
    (used : Used h blocks frees x) :
    (free h b.payload).memory x = h.memory x := by
  obtain ⟨_,_,_,headers⟩ := free_spec layout member busy
  refine headers x (fun d block => ?_)
  rcases used with outside | ⟨e,inside,_,low,high⟩
  · obtain ⟨first,last⟩ := layout.tiles.mem block
    unfold Block.stop at last
    omega
  · unfold Block.payload at low
    by_cases same : d = e
    · subst same
      exact .inr low
    · have apart := layout.tiles.apart block inside same
      unfold Block.stop at apart high
      omega

theorem freeSumFrom_spec {h : Heap} (total : Nat) (links : Path h.next (· = 0) current frees) (fuel : frees.length < n)
    (bound : total + (frees.map (fun a => h.size a + 24)).sum < 2^32) :
    freeSumFrom h current total n = some (total + (frees.map (fun a => h.size a + 24)).sum) := by
  induction n generalizing current frees total with
  | zero => exact absurd fuel (Nat.not_lt_zero _)
  | succ n ih =>
    cases links with
    | nil done => rw [freeSumFrom,if_pos done]; rfl
    | @cons _ rest more links =>
      rw [List.map_cons,List.sum_cons] at bound ⊢
      have short : rest.length < n := by simpa using fuel
      have word : (total + (h.size current + blockHeaderSize)) % 2^32 = total + (h.size current + 24) :=
        Nat.mod_eq_of_lt (by simp only [blockHeaderSize]; omega)
      rw [freeSumFrom,if_neg more,word,ih _ links short (by omega),Nat.add_assoc]

theorem Tiles.sum_sizes (tiles : Tiles start blocks stop) :
    start + (blocks.map (fun b => b.size + 24)).sum = stop := by
  induction blocks generalizing start with
  | nil => exact tiles
  | cons b rest ih =>
    have later := ih tiles.2
    have here := tiles.1
    unfold Block.stop at later
    rw [List.map_cons,List.sum_cons]
    omega

theorem Layout.sum_free (layout : Layout h blocks frees) :
    (frees.map (fun a => h.size a + 24)).sum =
      ((blocks.filter (fun b => b.addr ∈ frees)).map (fun b => b.size + 24)).sum := by
  have same : List.Perm frees ((blocks.filter (fun b => b.addr ∈ frees)).map Block.addr) := by
    have distinct : ((blocks.filter (fun b => b.addr ∈ frees)).map Block.addr).Nodup :=
      layout.tiles.addr_nodup.sublist (List.filter_sublist.map _)
    refine (List.perm_ext_iff_of_nodup layout.frees_nodup distinct).mpr ?_
    intro a
    simp only [List.mem_map,List.mem_filter,decide_eq_true_eq]
    constructor
    · intro member
      obtain ⟨b,block,rfl⟩ := layout.block_of_free member
      exact ⟨b,⟨block,member⟩,rfl⟩
    · rintro ⟨b,⟨_,member⟩,rfl⟩
      exact member
  have sizes : ((blocks.filter (fun b => b.addr ∈ frees)).map Block.addr).map (fun a => h.size a + 24) =
      (blocks.filter (fun b => b.addr ∈ frees)).map (fun b => b.size + 24) := by
    rw [List.map_map]
    apply List.map_congr_left
    intro b member
    have block : b ∈ blocks := (List.mem_filter.mp member).1
    simp only [Function.comp,layout.sizes b block]
  rw [(same.map _).sum_eq,sizes]

theorem heapStats_spec (layout : Layout h blocks frees) (word : h.heapSize < 2^32) :
    let freeBytes := ((blocks.filter (fun b => b.addr ∈ frees)).map (fun b => b.size + 24)).sum
    freeBytes ≤ h.heapSize ∧ heapStats h = some ⟨h.heapSize,h.heapSize - freeBytes,freeBytes⟩ := by
  intro freeBytes
  have total := layout.tiles.sum_sizes
  have part : freeBytes ≤ (blocks.map (fun b => b.size + 24)).sum :=
    (List.filter_sublist.map _).sum_le_sum (fun _ _ => Nat.zero_le _)
  have bound : freeBytes ≤ h.heapSize := by omega
  have summed := freeSumFrom_spec 0 layout.links layout.frees_length (by rw [layout.sum_free]; omega)
  rw [layout.sum_free,Nat.zero_add] at summed
  refine ⟨bound,?_⟩
  rw [heapStats,summed]
  simp only [Option.some.injEq,Stats.mk.injEq]
  exact ⟨Nat.mod_eq_of_lt word,by omega,rfl⟩

end SantOS.KernelHeap
