import SantOS.Library.ByteMemory

namespace WrappedBytes
open ByteMemory

-- A 64-bit pointer moved past the last address goes on at 0. This is how far a lies behind
-- base on that way.
def distance (base a : Nat) : Nat := (a + (2^64 - base % 2^64)) % 2^64

def Covers (base n a : Nat) : Prop := a < 2^64 ∧ distance base a < n

instance : Decidable (Covers base n a) := inferInstanceAs (Decidable (_ ∧ _))

theorem distance_moved (base : Nat) (bound : j < 2^64) : distance base ((base+j) % 2^64) = j := by
  unfold distance
  omega

theorem moved_distance (base : Nat) (inside : a < 2^64) : (base + distance base a) % 2^64 = a := by
  unfold distance
  omega

theorem moved_iff (base : Nat) (bound : j < 2^64) : a = (base+j) % 2^64 ↔ a < 2^64 ∧ distance base a = j := by
  constructor
  · rintro rfl
    exact ⟨Nat.mod_lt _ (by decide),distance_moved base bound⟩
  · rintro ⟨inside,rfl⟩
    exact (moved_distance base inside).symm

theorem covers_iff (fits : n ≤ 2^64) : Covers base n a ↔ ∃ j < n, a = (base+j) % 2^64 := by
  constructor
  · rintro ⟨inside,less⟩
    exact ⟨distance base a,less,(moved_distance base inside).symm⟩
  · rintro ⟨j,less,rfl⟩
    refine ⟨Nat.mod_lt _ (by decide),?_⟩
    rw [distance_moved base (by omega)]
    exact less

theorem covers_interval (fits : base + n ≤ 2^64) : Covers base n a ↔ base ≤ a ∧ a < base + n := by
  unfold Covers distance
  omega

-- Bytes copied one after the other, each read when it is its turn.
def copyBytes (m : Memory) (dest src j : Nat) : Nat → Memory
  | 0 => m
  | n+1 => copyBytes (Function.update m ((dest+j) % 2^64) (m ((src+j) % 2^64))) dest src (j+1) n

def fillBytes (m : Memory) (v : UInt8) (dest j : Nat) : Nat → Memory
  | 0 => m
  | n+1 => fillBytes (Function.update m ((dest+j) % 2^64) v) v dest (j+1) n

theorem fillBytes_apply (m : Memory) (v : UInt8) (dest : Nat) (fits : j + n ≤ 2^64) (a : Nat) :
    fillBytes m v dest j n a = if Covers dest (j+n) a ∧ j ≤ distance dest a then v else m a := by
  induction n generalizing m j with
  | zero =>
    rw [fillBytes,if_neg]
    rintro ⟨⟨_,less⟩,le⟩
    omega
  | succ n ih =>
    have here := moved_iff (a := a) (j := j) dest (by omega)
    rw [fillBytes,ih _ (by omega),Function.update_apply]
    unfold Covers
    by_cases same : a = (dest+j) % 2^64
    · obtain ⟨inside,equal⟩ := here.mp same
      rw [if_pos same,ite_self,if_pos ⟨⟨inside,by omega⟩,by omega⟩]
    · have other : a < 2^64 → distance dest a ≠ j := fun inside equal => same (here.mpr ⟨inside,equal⟩)
      rw [if_neg same]
      refine if_congr ?_ rfl rfl
      constructor
      all_goals
        rintro ⟨⟨inside,less⟩,le⟩
        have different := other inside
        exact ⟨⟨inside,by omega⟩,by omega⟩

theorem copyBytes_outside (m : Memory) (src : Nat) (fits : j + n ≤ 2^64) (away : ¬ Covers dest (j+n) a) :
    copyBytes m dest src j n a = m a := by
  induction n generalizing m j with
  | zero => rfl
  | succ n ih =>
    have other : a ≠ (dest+j) % 2^64 := by
      rintro rfl
      exact away ((covers_iff fits).mpr ⟨j,by omega,rfl⟩)
    rw [copyBytes,ih _ (by omega) (by rw [Nat.add_right_comm]; exact away),Function.update_of_ne other]

theorem copyBytes_apply (m : Memory) (dest src : Nat) (fits : j + n ≤ 2^64)
    (apart : ∀ a, Covers dest (j+n) a → ¬ Covers src (j+n) a) (a : Nat) :
    copyBytes m dest src j n a =
      if Covers dest (j+n) a ∧ j ≤ distance dest a then m ((src + distance dest a) % 2^64) else m a := by
  induction n generalizing m j with
  | zero =>
    rw [copyBytes,if_neg]
    rintro ⟨⟨_,less⟩,le⟩
    omega
  | succ n ih =>
    have here := moved_iff (a := a) (j := j) dest (by omega)
    have kept (d : Nat) (less : d < j + (n+1)) : (src+d) % 2^64 ≠ (dest+j) % 2^64 := by
      intro meet
      refine apart ((dest+j) % 2^64) ((covers_iff fits).mpr ⟨j,by omega,rfl⟩) ?_
      rw [← meet]
      exact (covers_iff fits).mpr ⟨d,less,rfl⟩
    rw [copyBytes,ih _ (by omega) (by rw [Nat.add_right_comm]; exact apart),Nat.add_right_comm,Nat.add_assoc j n 1]
    by_cases same : a = (dest+j) % 2^64
    · obtain ⟨inside,equal⟩ := here.mp same
      rw [if_neg (by omega),if_pos ⟨⟨inside,by omega⟩,by omega⟩,same,Function.update_self,← same,equal]
    · have other : a < 2^64 → distance dest a ≠ j := fun inside equal => same (here.mpr ⟨inside,equal⟩)
      rw [Function.update_of_ne same]
      by_cases later : Covers dest (j+(n+1)) a ∧ j ≤ distance dest a
      · have different := other later.1.1
        have less := later.1.2
        rw [if_pos later,if_pos ⟨later.1,by omega⟩,Function.update_of_ne (kept _ less)]
      · rw [if_neg later,if_neg (fun both => later ⟨both.1,Nat.le_of_succ_le both.2⟩)]

end WrappedBytes
