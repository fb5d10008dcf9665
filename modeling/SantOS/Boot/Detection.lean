import Mathlib.Data.List.GetD
import SantOS.Boot.MemoryMap
import SantOS.Library.ByteMemory

namespace SantOS.Boot
open ByteMemory

-- What one INT 0x15 with EAX = 0xE820 leaves behind: the carry flag, the registers, and
-- the bytes written at ES:DI.
structure Reply where
  carry : Bool
  eax : Nat
  ebx : Nat
  ecx : Nat
  written : Nat
  bytes : Memory

def smap : Nat := 0x534D4150

-- The registers that live across the calls: ES is 0, and DI and BP are 16 bits wide.
structure Detecting where
  memory : Memory
  di : Nat
  bp : Nat

def Detecting.atDi (s : Detecting) (k : Nat) : Nat := (s.di + k) % 2^16

-- The extended attributes are set to 1 before each call.
def int15 (s : Detecting) (r : Reply) : Detecting :=
  {s with memory := blit (store s.memory (s.atDi 20) 4 1) s.di r.written r.bytes}

-- Between .next_entry and the checks in front of it: usable RAM below 4 GB whose end does
-- not carry may raise the dword at 0x8000.
def raiseHighest (s : Detecting) : Memory :=
  if load s.memory (s.atDi 16) 4 ≠ 1 then s.memory
  else if load s.memory (s.atDi 4) 4 ≠ 0 then s.memory
  else if load s.memory (s.atDi 12) 4 ≠ 0 then s.memory
  else
    let eax := load s.memory (s.atDi 0) 4 + load s.memory (s.atDi 8) 4
    if eax ≥ 2^32 then s.memory
    else if eax ≤ load s.memory 0x8000 4 then s.memory
    else store s.memory 0x8000 4 eax

def validEntry (s : Detecting) : Detecting :=
  {memory := raiseHighest s,di := (s.di + 24) % 2^16,bp := (s.bp + 1) % 2^16}

-- The loop over what the BIOS answers; without an answer it waits for ever.
def e820Loop (s : Detecting) : List Reply → Option Detecting
  | [] => none
  | r::replies =>
    if r.carry then some (int15 s r)
    else if r.eax ≠ smap then some (int15 s r)
    else
      let s := if r.ecx < 20 then int15 s r else validEntry (int15 s r)
      if r.ebx = 0 then some s else e820Loop s replies

def detectMemoryE820 (m : Memory) (replies : List Reply) : Option Memory :=
  (e820Loop ⟨store m 0x8000 4 0x8000000,0x504,0⟩ replies).map (fun s => store s.memory 0x500 4 s.bp)

def entryAt (m : Memory) (a : Nat) : Entry := ⟨load m a 8,load m (a+8) 8,load m (a+16) 4⟩

def e820MapAddr : Nat := 0x500

def e820ParseMemory (m : Memory) : Option (List Entry) :=
  let count := load m e820MapAddr 4
  if count = 0 ∨ count > 32 then none
  else some ((List.range count).map (fun i => entryAt m (e820MapAddr + 4 + i*24)))

-- What the BIOS reported, said without addresses: the entries of at least 20 bytes, up to
-- the answer that fails or that gives back 0 in EBX.
def Reply.refused (r : Reply) : Prop := r.carry = true ∨ r.eax ≠ smap
def Reply.records (r : Reply) : List Entry := if r.ecx < 20 then [] else [entryAt r.bytes 0]

instance (r : Reply) : Decidable r.refused := inferInstanceAs (Decidable (r.carry = true ∨ r.eax ≠ smap))

def reported : List Reply → Option (List Entry)
  | [] => none
  | r::replies =>
    if r.refused then some []
    else if r.ebx = 0 then some r.records
    else (reported replies).map (r.records ++ ·)

-- A BIOS writes no more than the 24 bytes it is given, and all of an entry it counts.
structure Reply.Conforming (r : Reply) : Prop where
  room : r.written ≤ 24
  whole : ¬ r.refused → 20 ≤ r.ecx → 20 ≤ r.written

def slot (n : Nat) : Nat := 0x504 + n*24

structure Holding (m : Memory) (entries : List Entry) : Prop where
  placed : ∀ i < entries.length, entryAt m (slot i) = entries.getD i ⟨0,0,0⟩
  highest : load m 0x8000 4 = highestAddress entries

theorem entryAt_congr {m t : Memory} {a b : Nat} (same : ∀ i < 20, m (a+i) = t (b+i)) : entryAt m a = entryAt t b := by
  have base : load m a 8 = load t b 8 := load_congr (fun i inside => same i (by omega))
  have length : load m (a+8) 8 = load t (b+8) 8 :=
    load_congr (fun i inside => by rw [Nat.add_assoc,Nat.add_assoc]; exact same (8+i) (by omega))
  have type : load m (a+16) 4 = load t (b+16) 4 :=
    load_congr (fun i inside => by rw [Nat.add_assoc,Nat.add_assoc]; exact same (16+i) (by omega))
  rw [entryAt,entryAt,base,length,type]

theorem Holding.keep {m t : Memory} {entries : List Entry} (held : Holding m entries)
    (same : ∀ a, 0x504 ≤ a → a < slot entries.length → t a = m a) (highest : load t 0x8000 4 = load m 0x8000 4) :
    Holding t entries := by
  refine ⟨?_,highest.trans held.highest⟩
  intro i inside
  refine (entryAt_congr ?_).trans (held.placed i inside)
  intro j byte
  unfold slot at same ⊢
  exact same _ (by omega) (by omega)

theorem halves (m : Memory) (a : Nat) : load m a 4 = load m a 8 % 2^32 ∧ load m (a+4) 4 = load m a 8 / 2^32 := by
  have bound := load_lt m (a+4) 4
  have low := load_lt m a 4
  have whole : load m a 8 = load m a 4 + 2^32 * load m (a+4) 4 := by
    simp only [load,Nat.add_assoc,Nat.reduceAdd]
    omega
  omega

theorem highestAddress_concat (entries : List Entry) (e : Entry) :
    highestAddress (entries ++ [e]) = highestStep (highestAddress entries) e := List.foldl_append

section Entries
variable {s : Detecting} {entries : List Entry} {r : Reply}

theorem raiseHighest_step (place : s.di + 24 ≤ 0x8000) (high : load s.memory 0x8000 4 = h) :
    load (raiseHighest s) 0x8000 4 = highestStep h (entryAt s.memory s.di) ∧
    ∀ a, (a < 0x8000 ∨ 0x8004 ≤ a) → raiseHighest s a = s.memory a := by
  have at_ : ∀ k ≤ 24, s.atDi k = s.di + k := fun k small => Nat.mod_eq_of_lt (by omega)
  obtain ⟨base,baseHigh⟩ := halves s.memory s.di
  obtain ⟨length,lengthHigh⟩ := halves s.memory (s.di+8)
  have next : s.di + 8 + 4 = s.di + 12 := Nat.add_assoc ..
  rw [next] at lengthHigh
  unfold raiseHighest highestStep entryAt
  dsimp only
  rw [at_ 16 (by decide),at_ 4 (by decide),at_ 12 (by decide),at_ 0 (by decide),at_ 8 (by decide)]
  simp only [Nat.add_zero]
  rw [base,baseHigh,length,lengthHigh,high]
  generalize load s.memory s.di 8 = b
  generalize load s.memory (s.di+8) 8 = l
  by_cases ram : load s.memory (s.di+16) 4 = 1
  · rw [if_neg (not_not.mpr ram)]
    by_cases first : b / 2^32 = 0
    · rw [if_neg (not_not.mpr first)]
      by_cases second : l / 2^32 = 0
      · rw [if_neg (not_not.mpr second)]
        have small : b % 2^32 = b ∧ l % 2^32 = l := by omega
        rw [small.1,small.2]
        by_cases carries : b + l ≥ 2^32
        · rw [if_pos carries,if_neg (fun grows => absurd grows.2.2.2.1 (Nat.not_lt.mpr carries))]
          exact ⟨high,fun _ _ => rfl⟩
        · rw [if_neg carries]
          by_cases lower : b + l ≤ h
          · rw [if_pos lower,if_neg (fun grows => absurd grows.2.2.2.2 (Nat.not_lt.mpr lower))]
            exact ⟨high,fun _ _ => rfl⟩
          · rw [if_neg lower,if_pos ⟨ram,first,second,Nat.not_le.mp carries,Nat.not_le.mp lower⟩]
            exact ⟨(load_store_same ..).trans (Nat.mod_eq_of_lt (Nat.not_le.mp carries)),fun a apart => store_outside _ apart⟩
      · rw [if_pos second,if_neg (fun grows => second grows.2.2.1)]
        exact ⟨high,fun _ _ => rfl⟩
    · rw [if_pos first,if_neg (fun grows => first grows.2.1)]
      exact ⟨high,fun _ _ => rfl⟩
  · rw [if_pos ram,if_neg (fun grows => ram grows.1)]
    exact ⟨high,fun _ _ => rfl⟩

structure Collected (m : Memory) (s : Detecting) (entries : List Entry) : Prop where
  held : Holding s.memory entries
  place : s.di = slot entries.length
  count : s.bp = entries.length
  others : ∀ a, (a < 0x504 ∨ slot (entries.length + 1) ≤ a) → (a < 0x8000 ∨ 0x8004 ≤ a) → s.memory a = m a

theorem Collected.asked (here : Collected m s entries) (room : entries.length ≤ 1310) (fits : r.written ≤ 24) :
    Collected m (int15 s r) entries := by
  have place := here.place
  unfold slot at place
  have writes : ∀ a, a < s.di ∨ s.di + 24 ≤ a → (int15 s r).memory a = s.memory a := by
    intro a apart
    have target : s.atDi 20 = s.di + 20 := Nat.mod_eq_of_lt (by omega)
    exact (blit_outside _ _ (by omega)).trans (store_outside _ (by rw [target]; omega))
  refine ⟨here.held.keep ?_ ?_,here.place,here.count,?_⟩
  · intro a _ before
    exact writes a (.inl (by rw [here.place]; exact before))
  · exact load_congr (fun i inside => writes _ (by omega))
  · intro a apart outside
    refine (writes a ?_).trans (here.others a apart outside)
    unfold slot at apart
    omega

theorem validEntry_moves (place : s.di = slot n) (count : s.bp = n) (room : n < 1310) :
    (validEntry s).di = slot (n+1) ∧ (validEntry s).bp = n + 1 := by
  unfold validEntry slot at *
  dsimp only
  omega

theorem Collected.counted (here : Collected m s entries) (room : entries.length < 1310) :
    Collected m (validEntry s) (entries ++ [entryAt s.memory s.di]) := by
  have below : s.di + 24 ≤ 0x8000 := by rw [here.place]; unfold slot; omega
  have kept : ∀ i ≤ entries.length, ∀ j < 20, slot i + j < 0x8000 := by unfold slot; omega
  have before : ∀ a, a < 0x504 ∨ slot (entries.length + 1 + 1) ≤ a → a < 0x504 ∨ slot (entries.length + 1) ≤ a := by
    unfold slot; omega
  obtain ⟨highest,same⟩ := raiseHighest_step below here.held.highest
  obtain ⟨di,bp⟩ := validEntry_moves here.place here.count room
  have length : (entries ++ [entryAt s.memory s.di]).length = entries.length + 1 := List.length_append
  refine ⟨⟨?_,highest.trans (highestAddress_concat ..).symm⟩,?_,?_,?_⟩
  · intro i inside
    rw [length] at inside
    have read : entryAt (raiseHighest s) (slot i) = entryAt s.memory (slot i) :=
      entryAt_congr (fun j byte => same _ (.inl (kept i (Nat.le_of_lt_succ inside) j byte)))
    refine read.trans ?_
    rcases Nat.lt_succ_iff_lt_or_eq.mp inside with earlier | rfl
    · rw [here.held.placed i earlier,List.getD_append _ _ _ _ earlier]
    · rw [← here.place,List.getD_append_right _ _ _ _ (Nat.le_refl _),Nat.sub_self]
      rfl
  · rw [length,di]
  · rw [length,bp]
  · intro a apart outside
    rw [length] at apart
    exact (same a outside).trans (here.others a (before a apart) outside)

theorem e820Loop_cons (s : Detecting) (r : Reply) (replies : List Reply) :
    e820Loop s (r::replies) = if r.refused then some (int15 s r)
      else if r.ebx = 0 then some (if r.ecx < 20 then int15 s r else validEntry (int15 s r))
      else e820Loop (if r.ecx < 20 then int15 s r else validEntry (int15 s r)) replies := by
  rw [e820Loop]
  by_cases carry : r.carry = true
  · rw [if_pos carry,if_pos (.inl carry)]
  rw [if_neg carry]
  by_cases signed : r.eax ≠ smap
  · rw [if_pos signed,if_pos (.inr signed)]
  · have answered : ¬ r.refused := fun refused => refused.elim carry signed
    rw [if_neg signed,if_neg answered]

theorem Collected.taken {r : Reply} (here : Collected m s entries) (conforming : r.Conforming) (answered : ¬ r.refused)
    (room : entries.length + r.records.length ≤ 1310) :
    Collected m (if r.ecx < 20 then int15 s r else validEntry (int15 s r)) (entries ++ r.records) := by
  have asked := here.asked (Nat.le_of_add_right_le room) conforming.room
  unfold Reply.records at room ⊢
  by_cases short : r.ecx < 20
  · rw [if_pos short,if_pos short,List.append_nil]
    exact asked
  · rw [if_neg short] at room
    rw [if_neg short,if_neg short]
    have place := here.place
    have read : entryAt (int15 s r).memory (int15 s r).di = entryAt r.bytes 0 := by
      refine entryAt_congr fun i inside => ?_
      rw [Nat.zero_add]
      exact blit_inside _ _ (Nat.lt_of_lt_of_le inside (conforming.whole answered (Nat.not_lt.mp short)))
    have counted := asked.counted room
    rw [read] at counted
    exact counted

theorem e820Loop_spec {replies : List Reply} {later : List Entry} (conforming : ∀ r ∈ replies, r.Conforming)
    (here : Collected m s entries) (listed : reported replies = some later) (room : entries.length + later.length ≤ 1310) :
    ∃ t, e820Loop s replies = some t ∧ Collected m t (entries ++ later) := by
  induction replies generalizing s entries later with
  | nil => cases listed
  | cons r replies ih =>
    have first := conforming r (List.mem_cons_self ..)
    rw [e820Loop_cons]
    rw [reported] at listed
    by_cases refused : r.refused
    · rw [if_pos refused] at listed
      cases listed
      rw [if_pos refused,List.append_nil]
      exact ⟨_,rfl,here.asked room first.room⟩
    rw [if_neg refused] at listed ⊢
    by_cases last : r.ebx = 0
    · rw [if_pos last] at listed
      cases listed
      rw [if_pos last]
      exact ⟨_,rfl,here.taken first refused room⟩
    · rw [if_neg last] at listed
      rw [if_neg last]
      obtain ⟨rest,more,rfl⟩ := Option.map_eq_some_iff.mp listed
      rw [List.length_append] at room
      obtain ⟨t,ran,collected⟩ := ih (fun r later => conforming r (List.mem_cons_of_mem _ later))
        (here.taken first refused (by omega)) more (by rw [List.length_append]; omega)
      rw [List.append_assoc] at collected
      exact ⟨t,ran,collected⟩

end Entries

structure Detected (m t : Memory) (entries : List Entry) : Prop where
  held : Holding t entries
  count : load t 0x500 4 = entries.length
  others : ∀ a, (a < 0x500 ∨ slot (entries.length + 1) ≤ a) → (a < 0x8000 ∨ 0x8004 ≤ a) → t a = m a

theorem detect_memory_spec {replies : List Reply} {entries : List Entry} (conforming : ∀ r ∈ replies, r.Conforming)
    (listed : reported replies = some entries) (room : entries.length ≤ 1310) (m : Memory) :
    ∃ t, detectMemoryE820 m replies = some t ∧ Detected m t entries := by
  have start : Collected m ⟨store m 0x8000 4 0x8000000,0x504,0⟩ [] := by
    refine ⟨⟨fun i none => absurd none (Nat.not_lt_zero i),load_store_same ..⟩,rfl,rfl,?_⟩
    intro a _ apart
    exact store_outside m apart
  obtain ⟨s,ran,collected⟩ := e820Loop_spec conforming start listed (by rw [List.length_nil]; omega)
  rw [List.nil_append] at collected
  have outside : ∀ a, (a < 0x500 ∨ 0x504 ≤ a) → store s.memory 0x500 4 s.bp a = s.memory a :=
    fun a apart => store_outside _ apart
  refine ⟨_,by rw [detectMemoryE820,ran,Option.map_some],?_,?_,?_⟩
  · refine collected.held.keep (fun a above _ => outside a (.inr above)) ?_
    exact load_congr (fun i _ => outside _ (.inr (by omega)))
  · rw [load_store_same,collected.count]
    omega
  · intro a apart away
    have slots : 0x504 ≤ slot (entries.length + 1) := Nat.le_add_right ..
    rw [outside a (by omega)]
    exact collected.others a (by omega) away

theorem e820Parse_held {t : Memory} {entries : List Entry} (held : Holding t entries)
    (count : load t 0x500 4 = entries.length) : e820ParseMemory t = e820Parse entries := by
  unfold e820ParseMemory e820Parse
  rw [e820MapAddr,count]
  refine if_congr Iff.rfl rfl (congrArg some (List.ext_getElem (by simp) ?_))
  intro i one two
  rw [List.getElem_map,List.getElem_range]
  exact (held.placed i two).trans (List.getD_eq_getElem _ _ two)

end SantOS.Boot
