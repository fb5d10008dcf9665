import Mathlib.Data.List.Perm.Subperm
import Mathlib.Data.Nat.Bitwise
import SantOS.Library.LinkedPaths
import SantOS.Heap.Allocator

namespace SantOS.KernelHeap
open ByteMemory LinkedPaths

theorem alignSize_eq {n : Nat} (small : n ≤ 2^64 - 16) : alignSize n = (n+15)/16*16 := by
  have mask : (2^64 - alignment : Nat) = (2^60 - 1) <<< 4 := by decide
  have word : n + alignment - 1 = n + 15 := rfl
  rw [alignSize,mask,word,Nat.mod_eq_of_lt (by omega)]
  exact round_down 4 60 (by omega)

theorem alignSize_ge {n : Nat} (small : n ≤ 2^64 - 16) : n ≤ alignSize n := by
  rw [alignSize_eq small]; omega

-- Above 2^64 - 16 the sum wraps and the mask leaves nothing.
theorem alignSize_wraps {n : Nat} (large : 2^64 - 16 < n) (word : n < 2^64) : alignSize n = 0 := by
  have sum : n + alignment - 1 = 2^64 + (n + 15 - 2^64) := by
    show n + 15 = _
    omega
  have rest : n + 15 - 2^64 < 2^4 := by omega
  rw [alignSize,sum,Nat.add_mod_left,Nat.mod_eq_of_lt (by omega)]
  have mask : (2^64 - alignment : Nat) = (2^60 - 1) <<< 4 := by decide
  rw [mask]
  apply Nat.eq_of_testBit_eq
  intro i
  rw [Nat.testBit_and,Nat.testBit_shiftLeft,Nat.zero_testBit]
  by_cases low : 4 ≤ i
  · rw [Nat.testBit_lt_two_pow (Nat.lt_of_lt_of_le rest (Nat.pow_le_pow_right (by decide) low)),Bool.false_and]
  · simp [low]

-- A block as an address and a payload size, and the address-ordered tiling of an
-- interval by 24-byte headers with their payloads.
structure Block where
  addr : Nat
  size : Nat
deriving DecidableEq

def Block.payload (b : Block) : Nat := b.addr + 24
def Block.stop (b : Block) : Nat := b.addr + 24 + b.size

def Tiles : Nat → List Block → Nat → Prop
  | start,[],stop => start = stop
  | start,b::rest,stop => b.addr = start ∧ Tiles b.stop rest stop

theorem Tiles.le (tiles : Tiles start blocks stop) : start ≤ stop := by
  induction blocks generalizing start with
  | nil => exact Nat.le_of_eq tiles
  | cons b rest ih =>
    have later := ih tiles.2
    have here := tiles.1
    unfold Block.stop at later
    omega

theorem Tiles.mem (tiles : Tiles start blocks stop) (member : b ∈ blocks) : start ≤ b.addr ∧ b.stop ≤ stop := by
  induction blocks generalizing start with
  | nil => cases member
  | cons c rest ih =>
    have later := tiles.2.le
    rcases List.mem_cons.mp member with rfl | old
    · exact ⟨Nat.le_of_eq tiles.1.symm,later⟩
    · obtain ⟨low,high⟩ := ih tiles.2 old
      have here := tiles.1
      unfold Block.stop at low
      exact ⟨by omega,high⟩

theorem Tiles.append : Tiles start (pre ++ post) stop ↔ ∃ middle, Tiles start pre middle ∧ Tiles middle post stop := by
  induction pre generalizing start with
  | nil => simp [Tiles]
  | cons b rest ih => simp [Tiles,ih,and_assoc]

theorem Tiles.ordered (tiles : Tiles start blocks stop) : blocks.Pairwise (fun b c => b.stop ≤ c.addr) := by
  induction blocks generalizing start with
  | nil => exact .nil
  | cons b rest ih => exact .cons (fun c member => (tiles.2.mem member).1) (ih tiles.2)

theorem Tiles.apart (tiles : Tiles start blocks stop) (one : b ∈ blocks) (two : c ∈ blocks) (different : b ≠ c) :
    b.stop ≤ c.addr ∨ c.stop ≤ b.addr := by
  induction blocks generalizing start with
  | nil => cases one
  | cons d rest ih =>
    rcases List.mem_cons.mp one with rfl | oneLater
    · rcases List.mem_cons.mp two with rfl | twoLater
      · exact absurd rfl different
      · exact .inl (tiles.2.mem twoLater).1
    · rcases List.mem_cons.mp two with rfl | twoLater
      · exact .inr (tiles.2.mem oneLater).1
      · exact ih tiles.2 oneLater twoLater

theorem Tiles.addr_nodup (tiles : Tiles start blocks stop) : (blocks.map Block.addr).Nodup := by
  refine List.Pairwise.map _ ?_ tiles.ordered
  intro b c before equal
  unfold Block.stop at before
  omega

theorem Tiles.split (tiles : Tiles start (pre ++ b::post) stop) (room : size + 24 ≤ b.size) :
    Tiles start (pre ++ ⟨b.addr,size⟩::⟨b.addr + 24 + size,b.size - size - 24⟩::post) stop := by
  obtain ⟨middle,front,back⟩ := Tiles.append.mp tiles
  refine Tiles.append.mpr ⟨middle,front,back.1,rfl,?_⟩
  have stops : Block.stop ⟨b.addr + 24 + size,b.size - size - 24⟩ = b.stop := by
    simp only [Block.stop]; omega
  rw [stops]
  exact back.2

def Apart (a b : Nat) : Prop := a + 24 ≤ b ∨ b + 24 ≤ a

theorem Apart.symm (apart : Apart a b) : Apart b a := Or.symm apart

@[simp] theorem size_setSize (h : Heap) (a v : Nat) : (h.setSize a v).size a = v % 2^64 :=
  load_store_same _ _ _ _
@[simp] theorem next_setSize (h : Heap) (a v : Nat) : (h.setSize a v).next a = h.next a :=
  load_store_disjoint _ (.inr (by omega))
@[simp] theorem magic_setSize (h : Heap) (a v : Nat) : (h.setSize a v).magic a = h.magic a :=
  load_store_disjoint _ (.inr (by omega))
@[simp] theorem size_setNext (h : Heap) (a v : Nat) : (h.setNext a v).size a = h.size a :=
  load_store_disjoint _ (.inl (by omega))
@[simp] theorem next_setNext (h : Heap) (a v : Nat) : (h.setNext a v).next a = v % 2^64 :=
  load_store_same _ _ _ _
@[simp] theorem magic_setNext (h : Heap) (a v : Nat) : (h.setNext a v).magic a = h.magic a :=
  load_store_disjoint _ (.inr (by omega))
@[simp] theorem size_setMagic (h : Heap) (a v : Nat) : (h.setMagic a v).size a = h.size a :=
  load_store_disjoint _ (.inl (by omega))
@[simp] theorem next_setMagic (h : Heap) (a v : Nat) : (h.setMagic a v).next a = h.next a :=
  load_store_disjoint _ (.inl (by omega))
@[simp] theorem magic_setMagic (h : Heap) (a v : Nat) : (h.setMagic a v).magic a = v % 2^32 :=
  load_store_same _ _ _ _

def Heap.header (h : Heap) (a : Nat) : Nat × Nat × Nat := (h.size a,h.next a,h.magic a)

theorem header_congr {h k : Heap} {a : Nat} (same : ∀ i < 24, k.memory (a+i) = h.memory (a+i)) :
    k.header a = h.header a := by
  have size : k.size a = h.size a := load_congr (fun i bound => same i (by omega))
  have next : k.next a = h.next a := by
    apply load_congr
    intro i bound
    rw [Nat.add_assoc]; exact same (8+i) (by omega)
  have magic : k.magic a = h.magic a := by
    apply load_congr
    intro i bound
    rw [Nat.add_assoc]; exact same (16+i) (by omega)
  rw [Heap.header,Heap.header,size,next,magic]

theorem header_store_apart (h : Heap) (offset : Nat) {a b n v : Nat} (apart : Apart a b) (inside : offset + n ≤ 24) :
    Heap.header {h with memory := store h.memory (a+offset) n v} b = h.header b := by
  apply header_congr
  intro i bound
  exact store_outside _ (by unfold Apart at apart; omega)

theorem header_setSize (h : Heap) (v : Nat) (apart : Apart a b) : (h.setSize a v).header b = h.header b :=
  header_store_apart h 0 apart (by decide)
theorem header_setNext (h : Heap) (v : Nat) (apart : Apart a b) : (h.setNext a v).header b = h.header b :=
  header_store_apart h _ apart (by decide)
theorem header_setMagic (h : Heap) (v : Nat) (apart : Apart a b) : (h.setMagic a v).header b = h.header b :=
  header_store_apart h _ apart (by decide)

theorem header_size {h k : Heap} (same : k.header a = h.header a) : k.size a = h.size a :=
  congrArg (fun t => t.1) same
theorem header_next {h k : Heap} (same : k.header a = h.header a) : k.next a = h.next a :=
  congrArg (fun t => t.2.1) same
theorem header_magic {h k : Heap} (same : k.header a = h.header a) : k.magic a = h.magic a :=
  congrArg (fun t => t.2.2) same

-- The heap as its client-independent parts: blocks tile the region, each header holds
-- its block's size and the magic number, and the free list threads exactly frees.
structure Layout (h : Heap) (blocks : List Block) (frees : List Nat) : Prop where
  nonnull : 0 < h.heapStart
  top : h.heapStart + h.heapSize ≤ 2^64
  small : h.heapSize < 2^64 - 16
  tiles : Tiles h.heapStart blocks (h.heapStart + h.heapSize)
  sizes : ∀ b ∈ blocks, h.size b.addr = b.size
  magics : ∀ b ∈ blocks, h.magic b.addr = heapMagic
  links : Path h.next (· = 0) h.freeList frees
  listed : ∀ a ∈ frees, a ∈ blocks.map Block.addr

theorem Layout.mem_bounds (layout : Layout h blocks frees) (member : b ∈ blocks) :
    0 < b.addr ∧ b.addr + 24 + b.size < 2^64 + 1 ∧ b.size + 24 ≤ h.heapSize := by
  obtain ⟨low,high⟩ := layout.tiles.mem member
  have positive := layout.nonnull
  have top := layout.top
  unfold Block.stop at high
  omega

theorem Layout.apart (layout : Layout h blocks frees) (one : b ∈ blocks) (two : c ∈ blocks)
    (different : b.addr ≠ c.addr) : Apart b.addr c.addr := by
  have apart := layout.tiles.apart one two (fun equal => different (by rw [equal]))
  unfold Block.stop at apart
  unfold Apart
  omega

theorem Layout.block_of_free (layout : Layout h blocks frees) (member : a ∈ frees) :
    ∃ b ∈ blocks, b.addr = a := by simpa using layout.listed a member

theorem Layout.frees_nodup (layout : Layout h blocks frees) : frees.Nodup := layout.links.nodup

theorem Layout.congr (layout : Layout h blocks frees)
    (same : ∀ b ∈ blocks, ∀ i < 24, m (b.addr+i) = h.memory (b.addr+i)) :
    Layout {h with memory := m} blocks frees := by
  have headers : ∀ b ∈ blocks, Heap.header {h with memory := m} b.addr = h.header b.addr :=
    fun b member => header_congr (same b member)
  refine ⟨layout.nonnull,layout.top,layout.small,layout.tiles,?_,?_,?_,layout.listed⟩
  · intro b member
    rw [header_size (headers b member)]
    exact layout.sizes b member
  · intro b member
    rw [header_magic (headers b member)]
    exact layout.magics b member
  · refine layout.links.congr ?_
    intro a member
    obtain ⟨b,inside,rfl⟩ := layout.block_of_free member
    exact header_next (headers b inside)

theorem Layout.relink (layout : Layout h blocks frees) (region : k.heapStart = h.heapStart ∧ k.heapSize = h.heapSize)
    (kept : ∀ b ∈ blocks, k.size b.addr = h.size b.addr ∧ k.magic b.addr = h.magic b.addr)
    (links : Path k.next (· = 0) k.freeList frees') (listed : ∀ a ∈ frees', a ∈ blocks.map Block.addr) :
    Layout k blocks frees' := by
  obtain ⟨start,size⟩ := region
  refine ⟨by rw [start]; exact layout.nonnull,by rw [start,size]; exact layout.top,by rw [size]; exact layout.small,
    by rw [start,size]; exact layout.tiles,?_,?_,links,listed⟩
  · intro b member
    rw [(kept b member).1]
    exact layout.sizes b member
  · intro b member
    rw [(kept b member).2]
    exact layout.magics b member

theorem Layout.setNext_frame (layout : Layout h blocks frees) (atBlock : a ∈ blocks.map Block.addr) (v : Nat) :
    (∀ b ∈ blocks, (h.setNext a v).size b.addr = h.size b.addr ∧ (h.setNext a v).magic b.addr = h.magic b.addr) ∧
    (∀ b ∈ blocks, b.addr ≠ a → (h.setNext a v).next b.addr = h.next b.addr) := by
  obtain ⟨c,inside,rfl⟩ := List.mem_map.mp atBlock
  constructor
  · intro b member
    by_cases same : b.addr = c.addr
    · rw [same]; exact ⟨size_setNext ..,magic_setNext ..⟩
    · have kept := header_setNext h v (layout.apart inside member (Ne.symm same))
      exact ⟨header_size kept,header_magic kept⟩
  · intro b member different
    exact header_next (header_setNext h v (layout.apart inside member (Ne.symm different)))

end SantOS.KernelHeap
