import SantOS.Fat12.Mounting

namespace SantOS.Fat12
open ByteMemory

-- A cluster that the volume has and the table marks free. Cluster numbers are uint16_t.
structure Available (v : Mount) (m : Memory) (c : Nat) : Prop where
  word : c < 2^16
  existsOn : v.InVolume c
  free : getFatEntry m c = 0

def FindsAvailable (v : Mount) (m : Memory) : Prop :=
  (findFreeCluster m ≠ 0 → Available v m (findFreeCluster m)) ∧
    (findFreeCluster m = 0 ↔ ∀ c, ¬ Available v m c)

-- The scan ends at 0xFF0 whatever the volume's size is: it needs a free cluster of the volume
-- below, or no free entry below and no free cluster of the volume behind.
theorem finds_available_iff (v : Mount) (m : Memory) : FindsAvailable v m ↔
    (∃ c < 0xFF0, Available v m c) ∨
    ((∀ c, 2 ≤ c → c < 0xFF0 → getFatEntry m c ≠ 0) ∧ ∀ c, 0xFF0 ≤ c → ¬ Available v m c) := by
  unfold FindsAvailable
  rcases findFreeCluster_spec m with ⟨zero,taken⟩ | ⟨low,high,entry,taken⟩
  · rw [zero]
    have below : ∀ c < 0xFF0, ¬ Available v m c := fun c small available => taken c available.existsOn.1 small available.free
    constructor
    · rintro ⟨_,exactZero⟩
      exact .inr ⟨taken,fun c _ => exactZero.mp rfl c⟩
    · rintro (⟨c,small,available⟩ | ⟨_,behind⟩)
      · exact absurd available (below c small)
      · refine ⟨fun nonzero => absurd rfl nonzero,fun _ c => ?_,fun _ => rfl⟩
        by_cases small : c < 0xFF0
        · exact below c small
        · exact behind c (by omega)
  · have nonzero : findFreeCluster m ≠ 0 := by omega
    constructor
    · rintro ⟨found,_⟩
      exact .inl ⟨_,high,found nonzero⟩
    · rintro (⟨c,_,available⟩ | ⟨full,_⟩)
      · have first : findFreeCluster m ≤ c := by
          by_contra later
          exact taken c available.existsOn.1 (by omega) available.free
        have found : Available v m (findFreeCluster m) :=
          ⟨by omega,available.existsOn.below low first,entry⟩
        exact ⟨fun _ => found,fun zero => absurd zero nonzero,fun empty => absurd found (empty _)⟩
      · exact absurd entry (full _ low high)

def fullFloppy : Driver :=
  ⟨floppy,fun i => if i < 4273 then 0xFF else if i = 4273 then 0x0F else 0,fun _ => 0,fun _ => false⟩

-- The search goes on in the part of the table behind the last cluster, and a file is made.
theorem cluster_behind_end : Accepted fullFloppy.toMount ∧ ¬ FindsAvailable fullFloppy.toMount fullFloppy.fatBuffer ∧
    findFreeCluster fullFloppy.fatBuffer = 2849 ∧ (∀ c, ¬ Available fullFloppy.toMount fullFloppy.fatBuffer c) ∧
    (fat12Create fullFloppy [0x41] .fresh).1 = 0 := by
  have found : findFreeCluster fullFloppy.fatBuffer = 2849 := by decide +kernel
  have outside : ¬ fullFloppy.InVolume 2849 := fun member => absurd member.2 (by decide)
  refine ⟨floppy_accepted,fun finds => ?_,found,?_,by decide +kernel⟩
  · have member := (finds.1 (by rw [found]; decide)).existsOn
    rw [found] at member
    exact outside member
  intro c available
  rcases findFreeCluster_spec fullFloppy.fatBuffer with ⟨zero,_⟩ | ⟨_,_,_,taken⟩
  · rw [found] at zero
    cases zero
  · rw [found] at taken
    by_cases small : c < 2849
    · exact taken c available.existsOn.1 small available.free
    · exact outside (available.existsOn.below (by decide) (by omega))

end SantOS.Fat12
