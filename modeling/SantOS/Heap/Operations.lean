import SantOS.Heap.Layout

namespace SantOS.KernelHeap
open ByteMemory LinkedPaths

theorem Tiles.length_le (tiles : Tiles start blocks stop) : start + 24 * blocks.length ≤ stop := by
  induction blocks generalizing start with
  | nil => exact Nat.le_of_eq tiles
  | cons b rest ih =>
    have later := ih tiles.2
    have here := tiles.1
    unfold Block.stop at later
    rw [List.length_cons]
    omega

theorem Layout.frees_length (layout : Layout h blocks frees) : frees.length < h.fuel := by
  have sub : frees.length ≤ (blocks.map Block.addr).length :=
    (layout.frees_nodup.subperm layout.listed).length_le
  have tiled := layout.tiles.length_le
  rw [List.length_map] at sub
  unfold Heap.fuel
  omega

theorem findFreeFrom_spec {h : Heap} (size : Nat) (links : Path h.next (· = 0) current frees)
    (magics : ∀ a ∈ frees, h.magic a = heapMagic) (fuel : frees.length < n) :
    (findFreeFrom h size current n = some 0 ∧ ∀ a ∈ frees, h.size a < size) ∨
    ∃ pre a post, frees = pre ++ a::post ∧ findFreeFrom h size current n = some a ∧ size ≤ h.size a := by
  induction n generalizing current frees with
  | zero => exact absurd fuel (Nat.not_lt_zero _)
  | succ n ih =>
    cases links with
    | nil done =>
      rw [findFreeFrom,if_pos done]
      exact .inl ⟨rfl,by simp⟩
    | @cons _ rest more links =>
      rw [findFreeFrom,if_neg more,if_neg (by simpa using magics current (List.mem_cons_self ..))]
      by_cases large : h.size current ≥ size
      · rw [if_pos large]
        exact .inr ⟨[],current,rest,rfl,rfl,large⟩
      · rw [if_neg large]
        have bound : rest.length < n := by simpa using fuel
        rcases ih links (fun a member => magics a (List.mem_cons_of_mem _ member)) bound with
          ⟨found,small⟩ | ⟨pre,a,post,split,found,enough⟩
        · refine .inl ⟨found,?_⟩
          intro a member
          rcases List.mem_cons.mp member with rfl | later
          · exact Nat.not_le.mp large
          · exact small a later
        · exact .inr ⟨current::pre,a,post,by rw [split]; rfl,found,enough⟩

theorem predecessorFrom_spec {h : Heap} {p b : Nat} (links : Path h.next (· = 0) current (pre ++ p::b::post))
    (fuel : pre.length < n) : predecessorFrom h b current n = some p := by
  induction n generalizing current pre with
  | zero => exact absurd fuel (Nat.not_lt_zero _)
  | succ n ih =>
    have distinct := links.nodup
    cases pre with
    | nil =>
      have start : p = current := links.head
      have link : b = h.next p := by
        have behind : Path h.next (· = 0) (h.next p) (b::post) := links.tail
        exact behind.head
      rw [predecessorFrom,if_neg (by rw [← start,← link]; simp),start]
    | cons x pre =>
      have start : x = current := links.head
      have behind : Path h.next (· = 0) (h.next x) (pre ++ p::b::post) := links.tail
      have running : x ≠ 0 := links.running (List.mem_cons_self ..)
      have different : h.next x ≠ b := by
        intro equal
        -- b would head the rest of the list and stand in it again behind p
        rw [List.cons_append,List.nodup_cons] at distinct
        cases pre with
        | nil =>
          have first : p = h.next x := behind.head
          have twice : p = b := first.trans equal
          simp [twice] at distinct
        | cons y pre =>
          have first : y = h.next x := behind.head
          have twice : y = b := first.trans equal
          simp [twice] at distinct
      rw [← start,predecessorFrom,if_pos ⟨running,different⟩]
      exact ih behind (by simpa using fuel)

theorem once_of_nodup {pre post : List α} (distinct : (pre ++ a::post).Nodup) (member : z ∈ pre ++ post) : z ≠ a := by
  have once := List.nodup_middle.mp distinct
  rw [List.nodup_cons] at once
  rintro rfl
  exact once.1 member

theorem mem_of_sides {pre post : List α} (member : z ∈ pre ++ post) : z ∈ pre ++ a::post := by
  rcases List.mem_append.mp member with one | two
  · exact List.mem_append_left _ one
  · exact List.mem_append_right _ (List.mem_cons_of_mem _ two)

def HeadersOnly (h k : Heap) (blocks : List Block) : Prop :=
  ∀ x, (∀ b ∈ blocks, x < b.addr ∨ b.addr + 24 ≤ x) → k.memory x = h.memory x

theorem setNext_headers_only (h : Heap) (v : Nat) (atBlock : a ∈ blocks.map Block.addr) :
    HeadersOnly h (h.setNext a v) blocks := by
  obtain ⟨b,member,rfl⟩ := List.mem_map.mp atBlock
  intro x outside
  have apart := outside b member
  exact store_outside _ (by omega)

theorem next_lt (h : Heap) (a : Nat) : h.next a < 2^64 := load_lt _ _ 8

theorem Layout.set_free_list (layout : Layout h blocks frees) {v : Nat} (links : Path h.next (· = 0) v frees')
    (listed : ∀ a ∈ frees', a ∈ blocks.map Block.addr) : Layout {h with freeList := v} blocks frees' :=
  layout.relink ⟨rfl,rfl⟩ (fun _ _ => ⟨rfl,rfl⟩) links listed

theorem remove_spec (layout : Layout h blocks (pre ++ a::post)) :
    ∃ k, removeFromFreeList h a = some k ∧ Layout k blocks (pre ++ post) ∧
      k.heapStart = h.heapStart ∧ k.heapSize = h.heapSize ∧ HeadersOnly h k blocks := by
  have distinct := layout.frees_nodup
  have behind : Path h.next (· = 0) (h.next a) post := layout.links.suffix.tail
  rcases List.eq_nil_or_concat pre with rfl | ⟨front,p,rfl⟩
  · have first : a = h.freeList := layout.links.head
    have removed : removeFromFreeList h a = some {h with freeList := h.next a} := by
      rw [removeFromFreeList,if_pos first.symm]
    refine ⟨{h with freeList := h.next a},removed,?_,rfl,rfl,fun _ _ => rfl⟩
    exact layout.set_free_list behind (fun c member => layout.listed c (List.mem_cons_of_mem _ member))
  · have links : Path h.next (· = 0) h.freeList (front ++ p::a::post) := by
      simpa [List.append_assoc] using layout.links
    have distinct : (front ++ p::a::post).Nodup := links.nodup
    have later : h.freeList ≠ a := by
      intro equal
      rw [equal] at links
      cases front with
      | nil => have first : p = a := links.head; simp [first] at distinct
      | cons q front => have first : q = a := links.head; simp [first] at distinct
    have bound : front.length < h.fuel := by
      have whole := layout.frees_length
      simp only [List.length_append] at whole
      have shorter : front.length ≤ (front.concat p).length := by simp
      omega
    have found := predecessorFrom_spec links bound
    have running : p ≠ 0 := links.running (by simp)
    have atBlock : p ∈ blocks.map Block.addr := layout.listed p (by simp)
    refine ⟨h.setNext p (h.next a),?_,?_,rfl,rfl,setNext_headers_only h _ atBlock⟩
    · rw [removeFromFreeList,if_neg later,found]
      simp [running]
    · obtain ⟨kept,others⟩ := layout.setNext_frame atBlock (h.next a)
      have link : (h.setNext p (h.next a)).next p = h.next a := by
        rw [next_setNext,Nat.mod_eq_of_lt (next_lt h a)]
      have same : ∀ z ∈ front ++ post, (h.setNext p (h.next a)).next z = h.next z := by
        intro z member
        have side : z ∈ front ++ a::post := mem_of_sides member
        have inside : z ∈ front ++ p::a::post := mem_of_sides side
        obtain ⟨b,block,rfl⟩ := layout.block_of_free (by simpa [List.append_assoc] using inside)
        exact others b block (once_of_nodup distinct side)
      have shape : front.concat p ++ post = front ++ p::post := by simp
      have unlinked : Path (h.setNext p (h.next a)).next (· = 0) h.freeList (front.concat p ++ post) := by
        rw [shape]; exact links.unlink same link
      refine layout.relink ⟨rfl,rfl⟩ kept unlinked ?_
      intro c member
      exact layout.listed c (mem_of_sides member)

structure Divided (h k : Heap) (a size : Nat) : Prop where
  region : k.heapStart = h.heapStart ∧ k.heapSize = h.heapSize ∧ k.freeList = h.freeList
  first : k.header a = (size,a + 24 + size,h.magic a)
  second : k.header (a + 24 + size) = (h.size a - size - 24,h.next a,heapMagic)
  others : ∀ d, Apart (a + 24 + size) d → Apart a d → k.header d = h.header d
  bytes : ∀ x, (x < a ∨ a + 24 ≤ x) → (x < a + 24 + size ∨ a + 24 + size + 24 ≤ x) → k.memory x = h.memory x

theorem split_divides (h : Heap) (a size : Nat) (room : size + 40 ≤ h.size a) (bound : a + 24 + h.size a ≤ 2^64) :
    Divided h (splitBlock h a size) a size := by
  have taken : h.size a ≥ (size + blockHeaderSize + alignment) % 2^64 :=
    Nat.le_trans (Nat.mod_le _ _) room
  have apart : Apart (a + 24 + size) a := .inr (by omega)
  have first : (size : Nat) % 2^64 = size := Nat.mod_eq_of_lt (by omega)
  have rest : (h.size a - size - 24) % 2^64 = h.size a - size - 24 := Nat.mod_eq_of_lt (by omega)
  have target : (a + 24 + size) % 2^64 = a + 24 + size := Nat.mod_eq_of_lt (by omega)
  have link : h.next a % 2^64 = h.next a := Nat.mod_eq_of_lt (next_lt h a)
  rw [splitBlock,if_pos taken]
  simp only [blockHeaderSize]
  generalize wrote : h.setSize (a + 24 + size) (h.size a - size - 24) = h1
  have away1 : h1.header a = h.header a := by rw [← wrote]; exact header_setSize h _ apart
  rw [header_next away1]
  generalize linked : h1.setNext (a + 24 + size) (h.next a) = h2
  generalize marked : h2.setMagic (a + 24 + size) heapMagic = h3
  have away3 : h3.header a = h.header a := by
    rw [← marked,header_setMagic _ _ apart,← linked,header_setNext _ _ apart,away1]
  have made : h3.header (a + 24 + size) = (h.size a - size - 24,h.next a,heapMagic) := by
    rw [Heap.header,← marked,← linked,← wrote]
    simp only [size_setMagic,size_setNext,size_setSize,next_setMagic,next_setNext,magic_setMagic,rest,link]
    rfl
  refine ⟨by rw [← marked,← linked,← wrote]; exact ⟨rfl,rfl,rfl⟩,?_,?_,?_,?_⟩
  · rw [Heap.header]
    simp only [size_setNext,size_setSize,next_setNext,magic_setNext,magic_setSize,first,target,header_magic away3]
  · rw [header_setNext _ _ apart.symm,header_setSize _ _ apart.symm,made]
  · intro d awayNew awayOld
    rw [header_setNext _ _ awayOld,header_setSize _ _ awayOld,← marked,header_setMagic _ _ awayNew,← linked,
      header_setNext _ _ awayNew,← wrote,header_setSize _ _ awayNew]
  · intro x awayOld awayNew
    have kept3 : h3.memory x = h.memory x := by
      rw [← marked,← linked,← wrote]
      simp only [Heap.setMagic,Heap.setNext,Heap.setSize]
      rw [store_outside _ (by omega),store_outside _ (by omega),store_outside _ (by omega)]
    simp only [Heap.setNext,Heap.setSize]
    rw [store_outside _ (by omega),store_outside _ (by omega),kept3]

theorem Layout.others_apart (layout : Layout h (pre ++ b::post) frees) (member : d ∈ pre ++ post) :
    d.addr + 24 + d.size ≤ b.addr ∨ b.addr + 24 + b.size ≤ d.addr := by
  have distinct : (pre.map Block.addr ++ b.addr::post.map Block.addr).Nodup := by
    simpa using layout.tiles.addr_nodup
  have different : d.addr ≠ b.addr := once_of_nodup distinct (by
    rw [← List.map_append]; exact List.mem_map_of_mem member)
  exact layout.tiles.apart (mem_of_sides member) (by simp) (fun equal => different (by rw [equal]))

theorem header_fields {k : Heap} {a x y z : Nat} (header : k.header a = (x,y,z)) :
    k.size a = x ∧ k.next a = y ∧ k.magic a = z := by
  rw [Heap.header,Prod.mk.injEq,Prod.mk.injEq] at header
  exact header

theorem Divided.keeps (divided : Divided h k b.addr size) (layout : Layout h (pre ++ b::post) frees)
    (room : size + 40 ≤ b.size) (member : d ∈ pre ++ post) : k.header d.addr = h.header d.addr := by
  have apart := layout.others_apart member
  exact divided.others d.addr (by unfold Apart; omega) (by unfold Apart; omega)

theorem Divided.links {h k : Heap} {b : Block} {pre post : List Block} {front back : List Nat} {size : Nat}
    (divided : Divided h k b.addr size) (layout : Layout h (pre ++ b::post) (front ++ b.addr::back))
    (room : size + 40 ≤ b.size) : Path k.next (· = 0) k.freeList (front ++ b.addr::(b.addr + 24 + size)::back) := by
  have here : b ∈ pre ++ b::post := by simp
  obtain ⟨positive,_,_⟩ := layout.mem_bounds here
  have distinct := layout.links.nodup
  have kept : ∀ z ∈ front ++ back, k.next z = h.next z := by
    intro z member
    have different := once_of_nodup distinct member
    obtain ⟨d,inside,rfl⟩ := layout.block_of_free (mem_of_sides member)
    have side : d ∈ pre ++ post := by
      simp only [List.mem_append,List.mem_cons] at inside ⊢
      rcases inside with before | same | after
      · exact .inl before
      · exact absurd (congrArg Block.addr same) different
      · exact .inr after
    exact header_next (divided.keeps layout room side)
  obtain ⟨_,link,_⟩ := header_fields divided.first
  obtain ⟨_,next,_⟩ := header_fields divided.second
  have behind : Path h.next (· = 0) (h.next b.addr) back := layout.links.suffix.tail
  have rest : Path k.next (· = 0) (b.addr + 24 + size) ((b.addr + 24 + size)::back) := by
    refine .cons (by omega) ?_
    rw [next]
    exact behind.congr (fun z member => kept z (List.mem_append_right _ member))
  have fresh : Path k.next (· = 0) b.addr (b.addr::(b.addr + 24 + size)::back) := by
    refine .cons (by omega) ?_
    rw [link]
    exact rest
  rw [divided.region.2.2]
  exact layout.links.relink (fun z member => kept z (List.mem_append_left _ member)) fresh

theorem Divided.layout (divided : Divided h k b.addr size) (layout : Layout h (pre ++ b::post) (front ++ b.addr::back))
    (room : size + 40 ≤ b.size) :
    Layout k (pre ++ ⟨b.addr,size⟩::⟨b.addr + 24 + size,b.size - size - 24⟩::post)
      (front ++ b.addr::(b.addr + 24 + size)::back) := by
  have here : b ∈ pre ++ b::post := by simp
  obtain ⟨start,length,_⟩ := divided.region
  obtain ⟨firstSize,_,firstMagic⟩ := header_fields divided.first
  obtain ⟨newSize,_,newMagic⟩ := header_fields divided.second
  have members : ∀ d ∈ pre ++ ⟨b.addr,size⟩::⟨b.addr + 24 + size,b.size - size - 24⟩::post,
      d = ⟨b.addr,size⟩ ∨ d = ⟨b.addr + 24 + size,b.size - size - 24⟩ ∨ d ∈ pre ++ post := by
    intro d member
    simp only [List.mem_append,List.mem_cons] at member ⊢
    rcases member with before | first | new | after
    · exact .inr (.inr (.inl before))
    · exact .inl first
    · exact .inr (.inl new)
    · exact .inr (.inr (.inr after))
  refine ⟨by rw [start]; exact layout.nonnull,by rw [start,length]; exact layout.top,
    by rw [length]; exact layout.small,by rw [start,length]; exact layout.tiles.split (by omega),?_,?_,
    divided.links layout room,?_⟩
  · intro d member
    rcases members d member with rfl | rfl | side
    · exact firstSize
    · rw [← layout.sizes b here]; exact newSize
    · rw [header_size (divided.keeps layout room side)]; exact layout.sizes d (mem_of_sides side)
  · intro d member
    rcases members d member with rfl | rfl | side
    · exact firstMagic.trans (layout.magics b here)
    · exact newMagic
    · rw [header_magic (divided.keeps layout room side)]; exact layout.magics d (mem_of_sides side)
  · intro z member
    have listed : z = b.addr + 24 + size ∨ z ∈ (pre ++ b::post).map Block.addr := by
      by_cases new : z = b.addr + 24 + size
      · exact .inl new
      · exact .inr (layout.listed z (by simpa [new] using member))
    simp only [List.map_append,List.map_cons,List.mem_append,List.mem_cons] at listed ⊢
    rcases listed with new | before | first | after
    · exact .inr (.inr (.inl new))
    · exact .inl before
    · exact .inr (.inl first)
    · exact .inr (.inr (.inr after))

-- The chosen block shrinks or stays; what a split cuts off becomes a listed block
-- behind it, inside the old payload.
theorem split_spec {h : Heap} {b : Block} {pre post : List Block} {front back : List Nat} {size : Nat}
    (layout : Layout h (pre ++ b::post) (front ++ b.addr::back)) (fits : size ≤ b.size) :
    ∃ c tail, Layout (splitBlock h b.addr size) (pre ++ c::(tail ++ post))
        (front ++ b.addr::(tail.map Block.addr ++ back)) ∧
      c.addr = b.addr ∧ size ≤ c.size ∧ (∀ d ∈ tail, b.addr < d.addr ∧ d.addr < b.stop) ∧
      (splitBlock h b.addr size).heapStart = h.heapStart ∧
      (splitBlock h b.addr size).heapSize = h.heapSize ∧
      ∀ x, (x < b.addr ∨ b.stop ≤ x) → (splitBlock h b.addr size).memory x = h.memory x := by
  have here : b ∈ pre ++ b::post := by simp
  obtain ⟨positive,top,bound⟩ := layout.mem_bounds here
  have small := layout.small
  have stored := layout.sizes b here
  by_cases room : size + 40 ≤ b.size
  · have divided := split_divides h b.addr size (by omega) (by omega)
    refine ⟨⟨b.addr,size⟩,[⟨b.addr + 24 + size,b.size - size - 24⟩],divided.layout layout room,rfl,
      Nat.le_refl _,?_,divided.region.1,divided.region.2.1,?_⟩
    · intro d member
      rw [List.mem_singleton.mp member]
      simp only [Block.stop]
      omega
    · intro x outside
      unfold Block.stop at outside
      exact divided.bytes x (by omega) (by omega)
  · have word : (size + blockHeaderSize + alignment) % 2^64 = size + 40 := Nat.mod_eq_of_lt (by
      simp only [blockHeaderSize,alignment]; omega)
    have kept : splitBlock h b.addr size = h := by rw [splitBlock,word,if_neg (by omega)]
    rw [kept]
    exact ⟨b,[],layout,rfl,fits,by simp,rfl,rfl,fun _ _ => rfl⟩

theorem Layout.setNext_unlisted (layout : Layout h blocks frees) (atBlock : a ∈ blocks.map Block.addr)
    (unlisted : a ∉ frees) (v : Nat) : Layout (h.setNext a v) blocks frees := by
  obtain ⟨kept,others⟩ := layout.setNext_frame atBlock v
  refine layout.relink ⟨rfl,rfl⟩ kept (layout.links.congr ?_) layout.listed
  intro z member
  obtain ⟨d,inside,rfl⟩ := layout.block_of_free member
  exact others d inside (fun equal => unlisted (equal ▸ member))

theorem Tiles.payload_outside (tiles : Tiles start blocks stop) (member : e ∈ blocks) (low : e.payload ≤ x)
    (high : x < e.stop) : ∀ b ∈ blocks, x < b.addr ∨ b.addr + 24 ≤ x := by
  intro b other
  unfold Block.payload at low
  by_cases same : b = e
  · subst same; exact .inr low
  · have apart := tiles.apart other member same
    unfold Block.stop at apart high
    omega

-- What a successful allocation does: block c, listed before, is handed out with room
-- for n bytes; exactly the blocks in use before and c are in use afterwards, and the
-- payloads in use before keep their bytes.
structure Granted (h k : Heap) (blocks blocks' : List Block) (frees frees' : List Nat) (c : Block) (n : Nat) : Prop where
  layout : Layout k blocks' frees'
  region : k.heapStart = h.heapStart ∧ k.heapSize = h.heapSize
  member : c ∈ blocks'
  enough : n ≤ c.size
  taken : c.addr ∈ frees
  kept : ∀ d ∈ blocks, d.addr ∉ frees → d ∈ blocks'
  listed : ∀ d ∈ blocks', d.addr ∈ frees' ↔ d.addr ≠ c.addr ∧ ∀ e ∈ blocks, e.addr ∉ frees → e.addr ≠ d.addr
  bytes : ∀ e ∈ blocks, e.addr ∉ frees → ∀ x, e.payload ≤ x → x < e.stop → k.memory x = h.memory x

theorem busy_side {b e : Block} (member : e ∈ pre ++ b::post) (busy : e.addr ∉ front ++ b.addr::back) : e ∈ pre ++ post := by
  simp only [List.mem_append,List.mem_cons] at member ⊢
  rcases member with before | same | after
  · exact .inl before
  · subst same; exact absurd (by simp) busy
  · exact .inr after

theorem side_kept {c e : Block} {tail : List Block} (side : e ∈ pre ++ post) : e ∈ pre ++ c::(tail ++ post) := by
  rcases List.mem_append.mp side with before | after
  · exact List.mem_append_left _ before
  · exact List.mem_append_right _ (List.mem_cons_of_mem _ (List.mem_append_right _ after))

-- Once a block is cut and its front taken, the blocks that are neither the front nor in
-- use are listed, its tail among them.
theorem listed_behind_cut {tail : List Block} (layout : Layout h (pre ++ b::post) (front ++ b.addr::back))
    (address : c.addr = b.addr)
    (distinct : (front ++ b.addr::(tail.map Block.addr ++ back)).Nodup) (inside : ∀ d ∈ tail, b.addr < d.addr ∧ d.addr < b.stop) :
    ∀ d ∈ pre ++ c::(tail ++ post), d.addr ∈ front ++ (tail.map Block.addr ++ back) ↔
      d.addr ≠ c.addr ∧ ∀ e ∈ pre ++ b::post, e.addr ∉ front ++ b.addr::back → e.addr ≠ d.addr := by
  intro d member
  rw [address]
  constructor
  · intro free
    refine ⟨once_of_nodup distinct free,?_⟩
    intro e block busy equal
    have side := layout.others_apart (busy_side block busy)
    rw [← equal] at free
    simp only [List.mem_append,List.mem_cons,List.mem_map] at free busy
    rcases free with before | ⟨t,cut,same⟩ | after
    · exact busy (.inl before)
    · obtain ⟨low,high⟩ := inside t cut
      unfold Block.stop at high
      omega
    · exact busy (.inr (.inr after))
  · rintro ⟨different,unused⟩
    simp only [List.mem_append,List.mem_cons] at member
    have listed : ∀ e ∈ pre ++ post, e.addr ≠ b.addr → (∀ f ∈ pre ++ b::post,
        f.addr ∉ front ++ b.addr::back → f.addr ≠ e.addr) → e.addr ∈ front ++ (tail.map Block.addr ++ back) := by
      intro e side other free
      by_contra missing
      refine free e (mem_of_sides side) ?_ rfl
      intro free
      rw [List.mem_append,List.mem_cons] at free
      rcases free with before | same | after
      · exact missing (List.mem_append_left _ before)
      · exact other same
      · exact missing (List.mem_append_right _ (List.mem_append_right _ after))
    rcases member with before | rfl | cut | after
    · exact listed d (List.mem_append_left _ before) different unused
    · exact absurd address different
    · exact List.mem_append_right _ (List.mem_append_left _ (List.mem_map_of_mem cut))
    · exact listed d (List.mem_append_right _ after) different unused

theorem take_spec (layout : Layout h (pre ++ b::post) (front ++ b.addr::back)) (fits : size ≤ b.size) :
    ∃ k c blocks' frees', removeFromFreeList (splitBlock h b.addr size) b.addr = some k ∧ c.addr = b.addr ∧
      Granted h (k.setNext b.addr 0) (pre ++ b::post) blocks' (front ++ b.addr::back) frees' c size ∧
      ∀ d ∈ pre ++ b::post, d.addr ≠ c.addr → d ∈ blocks' := by
  obtain ⟨c,tail,split,address,enough,inside,start,length,bytes⟩ := split_spec layout fits
  obtain ⟨k,removed,layout2,start2,length2,headers⟩ := remove_spec split
  have here : c ∈ pre ++ c::(tail ++ post) := by simp
  have atBlock : b.addr ∈ (pre ++ c::(tail ++ post)).map Block.addr := by
    rw [← address]; exact List.mem_map_of_mem here
  have gone : b.addr ∉ front ++ (tail.map Block.addr ++ back) :=
    fun member => once_of_nodup split.frees_nodup member rfl
  refine ⟨k,c,pre ++ c::(tail ++ post),front ++ (tail.map Block.addr ++ back),removed,address,
    ⟨layout2.setNext_unlisted atBlock gone 0,?_,here,enough,by rw [address]; simp,
      fun e member busy => side_kept (busy_side member busy),listed_behind_cut layout address split.frees_nodup inside,?_⟩,?_⟩
  · exact ⟨start2.trans start,length2.trans length⟩
  · intro e member busy x low high
    have side := busy_side member busy
    have apart := layout.others_apart side
    have outside := split.tiles.payload_outside (side_kept side) low high
    have last : (k.setNext b.addr 0).memory x = k.memory x := setNext_headers_only k 0 atBlock x outside
    rw [last,headers x outside]
    refine bytes x ?_
    unfold Block.payload at low
    unfold Block.stop at high ⊢
    omega
  · intro d member different
    refine side_kept ?_
    simp only [List.mem_append,List.mem_cons] at member ⊢
    rcases member with before | same | after
    · exact .inl before
    · exact absurd (address ▸ congrArg Block.addr same) different
    · exact .inr after

theorem take_outside (layout : Layout h (pre ++ b::post) (front ++ b.addr::back)) (fits : size ≤ b.size)
    (removed : removeFromFreeList (splitBlock h b.addr size) b.addr = some k)
    (outside : x < h.heapStart ∨ h.heapStart + h.heapSize ≤ x) : (k.setNext b.addr 0).memory x = h.memory x := by
  obtain ⟨low,high⟩ := layout.tiles.mem (b := b) (by simp)
  obtain ⟨c,tail,split,address,_,_,start,length,bytes⟩ := split_spec layout fits
  obtain ⟨_,ran,_,_,_,headers⟩ := remove_spec split
  cases removed.symm.trans ran
  have away : ∀ d ∈ pre ++ c::(tail ++ post), x < d.addr ∨ d.addr + 24 ≤ x := by
    intro d member
    obtain ⟨below,above⟩ := split.tiles.mem member
    rw [start] at below
    rw [start,length] at above
    unfold Block.stop at above
    omega
  have atBlock : b.addr ∈ (pre ++ c::(tail ++ post)).map Block.addr := by
    rw [← address]
    exact List.mem_map_of_mem (by simp)
  rw [setNext_headers_only k 0 atBlock x away,headers x away]
  exact bytes x (by omega)

theorem malloc_outside (layout : Layout h blocks frees) (ran : malloc h n = some (p,k))
    (outside : x < h.heapStart ∨ h.heapStart + h.heapSize ≤ x) : k.memory x = h.memory x := by
  have magics : ∀ a ∈ frees, h.magic a = heapMagic := by
    intro a member
    obtain ⟨b,block,rfl⟩ := layout.block_of_free member
    exact layout.magics b block
  by_cases empty : n = 0
  · rw [malloc,if_pos empty] at ran
    cases ran
    rfl
  rw [malloc,if_neg empty,findFreeBlock] at ran
  rcases findFreeFrom_spec (alignSize n) layout.links magics layout.frees_length with
    ⟨found,_⟩ | ⟨front,a,back,split,found,enough⟩
  · rw [found] at ran
    cases ran
    rfl
  · subst split
    obtain ⟨b,block,rfl⟩ := layout.block_of_free (show a ∈ front ++ a::back by simp)
    obtain ⟨pre,post,rfl⟩ := List.append_of_mem block
    have fits : alignSize n ≤ b.size := layout.sizes b block ▸ enough
    have nonnull : b.addr ≠ 0 := by
      obtain ⟨low,_⟩ := layout.mem_bounds block
      omega
    rw [found] at ran
    simp only [nonnull,if_false] at ran
    cases removed : removeFromFreeList (splitBlock h b.addr (alignSize n)) b.addr with
    | none =>
      rw [removed] at ran
      cases ran
    | some j =>
      rw [removed] at ran
      cases ran
      exact take_outside layout fits removed outside

-- malloc for any size in terms of the rounded one: it fails when every listed block is too
-- small, else a listed block that is large enough is handed out; blocks elsewhere stay.
theorem malloc_grants (layout : Layout h blocks frees) (positive : n ≠ 0) :
    (malloc h n = some (0,h) ∧ ∀ a ∈ frees, h.size a < alignSize n) ∨
    ∃ k c blocks' frees', malloc h n = some (c.payload,k) ∧ alignSize n ≤ h.size c.addr ∧
      Granted h k blocks blocks' frees frees' c (alignSize n) ∧ ∀ d ∈ blocks, d.addr ≠ c.addr → d ∈ blocks' := by
  have magics : ∀ a ∈ frees, h.magic a = heapMagic := by
    intro a member
    obtain ⟨b,block,rfl⟩ := layout.block_of_free member
    exact layout.magics b block
  rcases findFreeFrom_spec (alignSize n) layout.links magics layout.frees_length with
    ⟨found,short⟩ | ⟨front,a,back,split,found,enough⟩
  · refine .inl ⟨?_,short⟩
    rw [malloc,if_neg positive,findFreeBlock,found]
    simp
  · subst split
    obtain ⟨b,block,rfl⟩ := layout.block_of_free (show a ∈ front ++ a::back by simp)
    obtain ⟨pre,post,rfl⟩ := List.append_of_mem block
    obtain ⟨k,c,blocks',frees',removed,address,granted,others⟩ := take_spec layout (layout.sizes b block ▸ enough)
    have nonnull : b.addr ≠ 0 := by
      obtain ⟨low,_⟩ := layout.mem_bounds block
      omega
    refine .inr ⟨k.setNext b.addr 0,c,blocks',frees',?_,address ▸ enough,granted,others⟩
    rw [malloc,if_neg positive,findFreeBlock,found]
    simp only [nonnull,if_false,removed,Block.payload,address,blockHeaderSize]

theorem malloc_spec (layout : Layout h blocks frees) (small : n < 2^64 - 16) :
    (malloc h n = some (0,h) ∧ (0 < n → ∀ b ∈ blocks, b.addr ∈ frees → b.size < (n+15)/16*16)) ∨
    ∃ k c blocks' frees', malloc h n = some (c.payload,k) ∧ 0 < n ∧ Granted h k blocks blocks' frees frees' c n := by
  by_cases empty : n = 0
  · subst empty
    exact .inl ⟨by rw [malloc,if_pos rfl],fun positive => absurd positive (Nat.lt_irrefl 0)⟩
  have fits := Nat.le_of_lt small
  rcases malloc_grants layout empty with ⟨ran,short⟩ | ⟨k,c,blocks',frees',ran,_,granted,_⟩
  · refine .inl ⟨ran,?_⟩
    intro _ b block free
    rw [← alignSize_eq fits,← layout.sizes b block]
    exact short b.addr free
  · exact .inr ⟨k,c,blocks',frees',ran,Nat.pos_of_ne_zero empty,
      {granted with enough := Nat.le_trans (alignSize_ge fits) granted.enough}⟩

end SantOS.KernelHeap
