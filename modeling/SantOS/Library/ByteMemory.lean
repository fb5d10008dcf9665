import Mathlib.Data.Nat.Bits
import Mathlib.Tactic.Ring

namespace ByteMemory

-- A flat byte array. Addresses are naturals, so an access never wraps; a client
-- whose pointers are bounded states that bound itself.
abbrev Memory := Nat → UInt8

def load (m : Memory) (a : Nat) : Nat → Nat
  | 0 => 0
  | n+1 => (m a).toNat + 256 * load m (a+1) n

def store (m : Memory) (a : Nat) : Nat → Nat → Memory
  | 0,_ => m
  | n+1,v => store (Function.update m a (UInt8.ofNat v)) (a+1) n (v/256)

theorem load_lt (m : Memory) (a n : Nat) : load m a n < 256^n := by
  induction n generalizing a with
  | zero => simp [load]
  | succ n ih =>
    have tail := ih (a+1)
    have head := (m a).toNat_lt
    rw [load,pow_succ]
    omega

theorem load_mod (m : Memory) (a n k : Nat) : load m a (n+k) % 256^n = load m a n := by
  induction n generalizing a with
  | zero => rw [Nat.pow_zero,Nat.mod_one,load]
  | succ n ih =>
    have head := (m a).toNat_lt
    rw [Nat.add_right_comm,load,load,← ih (a+1),Nat.pow_succ,Nat.mul_comm (256^n) 256]
    generalize load m (a+1) (n+k) = v
    rw [Nat.mod_mul,Nat.add_mul_mod_self_left,Nat.mod_eq_of_lt (by omega),Nat.add_mul_div_left _ _ (by decide),
      Nat.div_eq_of_lt (by omega),Nat.zero_add]

theorem load_congr {m m' : Memory} {a b n : Nat} (same : ∀ i < n, m (a+i) = m' (b+i)) :
    load m a n = load m' b n := by
  induction n generalizing a b with
  | zero => rfl
  | succ n ih =>
    have first : m a = m' b := same 0 (Nat.succ_pos _)
    have rest : load m (a+1) n = load m' (b+1) n := by
      apply ih
      intro i bound
      have shifted := same (i+1) (by omega)
      simpa only [Nat.add_assoc,Nat.add_comm 1 i] using shifted
    rw [load,load,first,rest]

theorem store_outside (m : Memory) {a n v i : Nat} (outside : i < a ∨ a+n ≤ i) :
    store m a n v i = m i := by
  induction n generalizing m a v with
  | zero => rfl
  | succ n ih =>
    rw [store,ih _ (by omega),Function.update_of_ne (by omega)]

theorem load_store_disjoint (m : Memory) {a n v b k : Nat} (apart : b+k ≤ a ∨ a+n ≤ b) :
    load (store m a n v) b k = load m b k := by
  apply load_congr
  intro i bound
  exact store_outside m (by omega)

theorem load_store_same (m : Memory) (a n v : Nat) : load (store m a n v) a n = v % 256^n := by
  induction n generalizing m a v with
  | zero => simp [load,Nat.mod_one]
  | succ n ih =>
    have head : store m a (n+1) v a = UInt8.ofNat v := by
      rw [store,store_outside _ (by omega),Function.update_self]
    have byte : (UInt8.ofNat v).toNat = v % 256 := UInt8.toNat_ofNat'
    rw [load,head,store,ih,byte,Nat.pow_succ,Nat.mul_comm (256^n) 256,Nat.mod_mul]

theorem store_load (m : Memory) (a n : Nat) : store m a n (load m a n) = m := by
  induction n generalizing a with
  | zero => rfl
  | succ n ih =>
    have head := (m a).toNat_lt
    have first : UInt8.ofNat ((m a).toNat + 256 * load m (a+1) n) = m a := by
      apply UInt8.toNat_inj.mp
      rw [UInt8.toNat_ofNat',Nat.add_mul_mod_self_left]
      exact Nat.mod_eq_of_lt head
    have rest : ((m a).toNat + 256 * load m (a+1) n) / 256 = load m (a+1) n := by omega
    rw [load,store,first,rest,Function.update_eq_self]
    exact ih (a+1)

def setBytes (m : Memory) (a : Nat) (b : UInt8) : Nat → Memory
  | 0 => m
  | n+1 => Function.update (setBytes m a b n) (a+n) b

theorem setBytes_apply (m : Memory) (a : Nat) (b : UInt8) (n i : Nat) :
    setBytes m a b n i = if a ≤ i ∧ i < a+n then b else m i := by
  induction n with
  | zero => rw [setBytes,if_neg (by omega)]
  | succ n ih =>
    by_cases here : i = a+n
    · subst here; simp [setBytes]
    · rw [setBytes,Function.update_of_ne here,ih]
      have same : (a ≤ i ∧ i < a+n) ↔ (a ≤ i ∧ i < a+(n+1)) := by omega
      simp only [same]

theorem round_down {v : Nat} (j k : Nat) (word : v < 2^(j+k)) : v &&& (2^k - 1) <<< j = v/2^j*2^j := by
  apply Nat.eq_of_testBit_eq
  intro i
  have scaled : v/2^j*2^j = (v >>> j) <<< j := by rw [Nat.shiftRight_eq_div_pow,Nat.shiftLeft_eq]
  rw [scaled,Nat.testBit_and,Nat.testBit_shiftLeft,Nat.testBit_shiftLeft,Nat.testBit_two_pow_sub_one,Nat.testBit_shiftRight]
  by_cases low : j ≤ i
  · rw [Nat.add_sub_of_le low]
    by_cases high : i - j < k
    · simp [low,high]
    · have above : v < 2^i := Nat.lt_of_lt_of_le word (Nat.pow_le_pow_right (by decide) (by omega))
      simp [low,high,Nat.testBit_lt_two_pow above]
  · simp [low]

theorem load_zero (a n : Nat) : load (fun _ => 0) a n = 0 := by
  induction n generalizing a with
  | zero => rfl
  | succ n ih =>
    rw [load,ih]
    rfl

theorem load_setBytes_zero (m : Memory) {a n b k : Nat} (inside : a ≤ b ∧ b+k ≤ a+n) :
    load (setBytes m a 0 n) b k = 0 := by
  induction k generalizing b with
  | zero => rfl
  | succ k ih =>
    rw [load,ih (by omega),setBytes_apply,if_pos (by omega)]
    rfl

theorem load_setBytes_disjoint (m : Memory) {a n b k : Nat} {v : UInt8} (apart : b+k ≤ a ∨ a+n ≤ b) :
    load (setBytes m a v n) b k = load m b k := by
  apply load_congr
  intro i bound
  rw [setBytes_apply,if_neg (by omega)]

def blit (m : Memory) (a n : Nat) (source : Memory) : Memory :=
  fun i => if a ≤ i ∧ i < a+n then source (i-a) else m i

theorem blit_outside (m source : Memory) {a n i : Nat} (outside : i < a ∨ a+n ≤ i) :
    blit m a n source i = m i := if_neg (by omega)

theorem blit_inside (m source : Memory) {a n i : Nat} (inside : i < n) :
    blit m a n source (a+i) = source i := by
  rw [blit,if_pos (by omega),Nat.add_sub_cancel_left]

theorem blit_nothing (m source : Memory) (a : Nat) : blit m a 0 source = m := funext (fun i => if_neg (by omega))

theorem blit_succ (m source : Memory) (a n : Nat) : Function.update (blit m a n source) (a+n)
    (source n) = blit m a (n+1) source := by
  funext i
  by_cases here : i = a+n
  · rw [here,Function.update_self,blit_inside m source (Nat.lt_succ_self n)]
  · rw [Function.update_of_ne here,blit,blit]
    have same : (a ≤ i ∧ i < a+n) ↔ (a ≤ i ∧ i < a+(n+1)) := by omega
    simp only [same]

theorem blit_same (m : Memory) {source other : Memory} {a n : Nat} (same : ∀ j < n, source j = other j) :
    blit m a n source = blit m a n other := by
  funext i
  simp only [blit]
  split
  · rename_i inside
    exact same _ (by omega)
  · rfl

theorem blit_append (m : Memory) {source later : Memory} {a b n k total : Nat} (next : b = a + n) (sum : total = n + k)
    (same : ∀ i, later i = source (n+i)) : blit (blit m a n source) b k later = blit m a total source := by
  subst next sum
  funext i
  by_cases second : a + n ≤ i ∧ i < a + n + k
  · rw [blit,if_pos second,blit,if_pos (by omega),same]
    congr 1
    omega
  · by_cases first : a ≤ i ∧ i < a + n
    · rw [blit,if_neg second,blit,if_pos first,blit,if_pos (by omega)]
    · rw [blit,if_neg second,blit,if_neg first,blit,if_neg (by omega)]

end ByteMemory
