import Mathlib.Data.Nat.Bitwise
import SantOS.Fat12.Driver

namespace SantOS.Fat12
open ByteMemory

theorem load_two (m : Memory) (a : Nat) : load m a 2 = (m a).toNat + 256*(m (a+1)).toNat := by
  simp only [load]; omega

theorem store_two_low (m : Memory) (a v : Nat) : (store m a 2 v a).toNat = v % 256 := by
  have low : store m a 2 v a = UInt8.ofNat v := by
    rw [store,store_outside _ (by omega),Function.update_self]
  rw [low,UInt8.toNat_ofNat']

theorem store_two_high (m : Memory) (a v : Nat) : (store m a 2 v (a+1)).toNat = v/256 % 256 := by
  have high : store m a 2 v (a+1) = UInt8.ofNat (v/256) := by
    rw [store,store,store,Function.update_self]
  rw [high,UInt8.toNat_ofNat']

-- The two packings as arithmetic on the word that holds the entry.
theorem get_even (m : Memory) (k : Nat) : getFatEntry m (2*k) = load m (3*k) 2 % 4096 := by
  have offset : 2*k + 2*k/2 = 3*k := by omega
  have parity : 2*k % 2 = 0 := by omega
  simp only [getFatEntry,offset,Nat.and_one_is_mod,parity,ne_eq,not_true_eq_false,if_false]
  exact Nat.and_two_pow_sub_one_eq_mod _ 12

theorem get_odd (m : Memory) (k : Nat) : getFatEntry m (2*k+1) = load m (3*k+1) 2 / 16 := by
  have offset : 2*k+1 + (2*k+1)/2 = 3*k+1 := by omega
  have parity : (2*k+1) % 2 = 1 := by omega
  simp only [getFatEntry,offset,Nat.and_one_is_mod,parity,ne_eq,one_ne_zero,not_false_eq_true,if_true]
  exact Nat.shiftRight_eq_div_pow _ 4

theorem pack_even (e v : Nat) (word : e < 2^16) : (e &&& 0xF000 ||| v &&& 0x0FFF) = e/4096*4096 + v % 4096 := by
  have low : v &&& 0x0FFF = v % 2^12 := Nat.and_two_pow_sub_one_eq_mod v 12
  have high : e &&& 0xF000 = 2^12 * (e / 2^12) := by
    have mask : (0xF000 : Nat) = (2^4 - 1) <<< 12 := by decide
    have scaled : 2^12 * (e / 2^12) = (e >>> 12) <<< 12 := by
      rw [Nat.shiftRight_eq_div_pow,Nat.shiftLeft_eq,Nat.mul_comm]
    rw [mask,scaled]
    apply Nat.eq_of_testBit_eq
    intro i
    rw [Nat.testBit_and,Nat.testBit_shiftLeft,Nat.testBit_shiftLeft,Nat.testBit_two_pow_sub_one,Nat.testBit_shiftRight]
    by_cases small : 12 ≤ i
    · have back : 12 + (i-12) = i := by omega
      by_cases inside : i-12 < 4
      · simp [small,inside,back]
      · have above : e < 2^i := Nat.lt_of_lt_of_le word (Nat.pow_le_pow_right (by decide) (by omega))
        simp [small,inside,back,Nat.testBit_lt_two_pow above]
    · simp [small]
  rw [low,high,← Nat.two_pow_add_eq_or_of_lt (Nat.mod_lt _ (by decide))]
  omega

theorem pack_odd (e v : Nat) : (e &&& 0x000F ||| v <<< 4) = e % 16 + 16*v := by
  have low : e &&& 0x000F = e % 2^4 := Nat.and_two_pow_sub_one_eq_mod e 4
  have high : v <<< 4 = 2^4 * v := by rw [Nat.shiftLeft_eq,Nat.mul_comm]
  rw [low,high,Nat.lor_comm,← Nat.two_pow_add_eq_or_of_lt (Nat.mod_lt _ (by decide))]
  omega

theorem set_even (m : Memory) (k v : Nat) :
    setFatEntry m (2*k) v = store m (3*k) 2 (load m (3*k) 2 / 4096*4096 + v % 4096) := by
  have offset : 2*k + 2*k/2 = 3*k := by omega
  have parity : 2*k % 2 = 0 := by omega
  simp only [setFatEntry,offset,Nat.and_one_is_mod,parity,ne_eq,not_true_eq_false,if_false]
  rw [pack_even _ _ (load_lt m _ 2)]

theorem set_odd (m : Memory) (k v : Nat) :
    setFatEntry m (2*k+1) v = store m (3*k+1) 2 (load m (3*k+1) 2 % 16 + 16*v) := by
  have offset : 2*k+1 + (2*k+1)/2 = 3*k+1 := by omega
  have parity : (2*k+1) % 2 = 1 := by omega
  simp only [setFatEntry,offset,Nat.and_one_is_mod,parity,ne_eq,one_ne_zero,not_false_eq_true,if_true]
  rw [pack_odd]

theorem get_set_same (m : Memory) (c v : Nat) : getFatEntry (setFatEntry m c v) c = v % 4096 := by
  rcases Nat.even_or_odd' c with ⟨k,rfl | rfl⟩
  · have word := load_lt m (3*k) 2
    rw [get_even,set_even,load_store_same]
    omega
  · have word := load_lt m (3*k+1) 2
    rw [get_odd,set_odd,load_store_same]
    omega

theorem get_set_neighbour_even (m : Memory) (k v : Nat) :
    getFatEntry (setFatEntry m (2*k) v) (2*k+1) = getFatEntry m (2*k+1) := by
  have last : store m (3*k) 2 (load m (3*k) 2 / 4096*4096 + v % 4096) (3*k+1+1) = m (3*k+1+1) :=
    store_outside m (by omega)
  rw [get_odd,get_odd,set_even,load_two (store m (3*k) 2 _),store_two_high,last,load_two m (3*k),load_two m (3*k+1)]
  have one := (m (3*k)).toNat_lt
  have two := (m (3*k+1)).toNat_lt
  omega

theorem get_set_neighbour_odd (m : Memory) (k v : Nat) :
    getFatEntry (setFatEntry m (2*k+1) v) (2*k) = getFatEntry m (2*k) := by
  have first : store m (3*k+1) 2 (load m (3*k+1) 2 % 16 + 16*v) (3*k) = m (3*k) := store_outside m (by omega)
  rw [get_even,get_even,set_odd,load_two (store m (3*k+1) 2 _),store_two_low,first,load_two m (3*k+1),load_two m (3*k)]
  have one := (m (3*k)).toNat_lt
  have two := (m (3*k+1)).toNat_lt
  omega

theorem get_set_other (m : Memory) {c d : Nat} (v : Nat) (other : d ≠ c) :
    getFatEntry (setFatEntry m c v) d = getFatEntry m d := by
  rcases Nat.even_or_odd' c with ⟨k,rfl | rfl⟩ <;> rcases Nat.even_or_odd' d with ⟨j,rfl | rfl⟩
  · rw [get_even,get_even,set_even,load_store_disjoint _ (by omega)]
  · by_cases same : j = k
    · rw [same]; exact get_set_neighbour_even m k v
    · rw [get_odd,get_odd,set_even,load_store_disjoint _ (by omega)]
  · by_cases same : j = k
    · rw [same]; exact get_set_neighbour_odd m k v
    · rw [get_even,get_even,set_odd,load_store_disjoint _ (by omega)]
  · rw [get_odd,get_odd,set_odd,load_store_disjoint _ (by omega)]

theorem set_outside (m : Memory) (v : Nat) (outside : a < c + c/2 ∨ c + c/2 + 2 ≤ a) : setFatEntry m c v a = m a := by
  simp only [setFatEntry]
  split
  · exact store_outside m outside
  · exact store_outside m outside

theorem set_get (m : Memory) (c : Nat) : setFatEntry m c (getFatEntry m c) = m := by
  rcases Nat.even_or_odd' c with ⟨k,rfl | rfl⟩
  · have word : load m (3*k) 2 / 4096*4096 + load m (3*k) 2 % 4096 % 4096 = load m (3*k) 2 := by omega
    rw [get_even,set_even,word,store_load]
  · have word : load m (3*k+1) 2 % 16 + 16*(load m (3*k+1) 2 / 16) = load m (3*k+1) 2 := by omega
    rw [get_odd,set_odd,word,store_load]

-- Entries share bytes and are cells of their own all the same.
theorem fat_entries_apart (m : Memory) (c v : Nat) :
    getFatEntry (setFatEntry m c v) c = v % 4096 ∧
    (∀ d, d ≠ c → getFatEntry (setFatEntry m c v) d = getFatEntry m d) ∧
    (∀ a, a ≠ c + c/2 → a ≠ c + c/2 + 1 → setFatEntry m c v a = m a) ∧
    setFatEntry m c (getFatEntry m c) = m := by
  refine ⟨get_set_same m c v,fun d other => get_set_other m v other,?_,set_get m c⟩
  intro a first second
  apply set_outside
  omega

theorem findFreeFrom_spec (m : Memory) (cluster left : Nat) :
    (findFreeFrom m cluster left = 0 ∧ ∀ d, cluster ≤ d → d < cluster + left → getFatEntry m d ≠ 0) ∨
    (cluster ≤ findFreeFrom m cluster left ∧ findFreeFrom m cluster left < cluster + left ∧
      getFatEntry m (findFreeFrom m cluster left) = 0 ∧
      ∀ d, cluster ≤ d → d < findFreeFrom m cluster left → getFatEntry m d ≠ 0) := by
  induction left generalizing cluster with
  | zero => exact .inl ⟨rfl,fun d low high => by omega⟩
  | succ left ih =>
    rw [findFreeFrom]
    by_cases free : getFatEntry m cluster = 0
    · rw [if_pos free]
      exact .inr ⟨Nat.le_refl _,by omega,free,fun d low high => by omega⟩
    · rw [if_neg free]
      have extend : ∀ {bound d}, (∀ e, cluster + 1 ≤ e → e < bound → getFatEntry m e ≠ 0) → cluster ≤ d →
          d < bound → getFatEntry m d ≠ 0 := by
        intro bound d below low high
        by_cases here : d = cluster
        · rw [here]; exact free
        · exact below d (by omega) high
      rcases ih (cluster+1) with ⟨none,below⟩ | ⟨low,high,entry,below⟩
      · exact .inl ⟨none,fun d low high => extend below low (by omega)⟩
      · exact .inr ⟨by omega,by omega,entry,fun d above under => extend below above under⟩

theorem findFreeCluster_spec (m : Memory) :
    (findFreeCluster m = 0 ∧ ∀ d, 2 ≤ d → d < 0xFF0 → getFatEntry m d ≠ 0) ∨
    (2 ≤ findFreeCluster m ∧ findFreeCluster m < 0xFF0 ∧ getFatEntry m (findFreeCluster m) = 0 ∧
      ∀ d, 2 ≤ d → d < findFreeCluster m → getFatEntry m d ≠ 0) := findFreeFrom_spec m 2 (0xFF0 - 2)

end SantOS.Fat12
