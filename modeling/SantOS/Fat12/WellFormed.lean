import SantOS.Fat12.Outcomes

namespace SantOS.Fat12
open ByteMemory LinkedPaths

def Marked (v : Nat) : Prop := v = 1 ∨ (0xFF0 ≤ v ∧ v ≤ 0xFF7)

-- Only 0x00 first bytes behind the first one, chains inside the volume and apart, no used
-- cluster outside all chains, and a FAT on the disk that is the one in memory.
structure WellFormed (s : Driver) : Prop where
  shape : Geometry s.toMount
  sound : Sound s
  placed : ∀ a cs, Owner s a → EntryChain s a cs → ∀ c ∈ cs, s.InVolume c
  ended : ∀ slots, Directory s slots → slots.Pairwise (fun a b => s.disk a = 0 → s.disk b = 0)
  noLeak : ∀ c, s.InVolume c → s.fat c ≠ 0 → ¬ Marked (s.fat c) → ∃ a cs, Owner s a ∧ EntryChain s a cs ∧ c ∈ cs
  synced : Synced s

theorem WellFormed.with_faults {s : Driver} (volume : WellFormed s) (faults : Nat → Bool) :
    WellFormed {s with faults := faults} := by
  refine ⟨volume.shape,volume.sound.with_faults faults,?_,?_,?_,volume.synced⟩
  · intro a cs owner
    exact volume.placed a cs (owner_faults.mp owner)
  · intro slots directory
    exact volume.ended slots (directory_faults.mp directory)
  · intro c member used unmarked
    obtain ⟨a,cs,owner,rest⟩ := volume.noLeak c member used unmarked
    exact ⟨a,cs,owner_faults.mpr owner,rest⟩

theorem WellFormed.after {s : Driver} (volume : WellFormed s) : WellFormed (s.after j) := volume.with_faults _

theorem rootSlots_sorted (v : Mount) : v.rootSlots.Pairwise (· < ·) := by
  unfold Mount.rootSlots
  rw [List.pairwise_map]
  exact List.pairwise_lt_range.imp (fun less => by omega)

section
variable {s t : Driver} {r : Nat} {touched : Nat → Prop}

theorem RootEdit.ended (edit : RootEdit s t r touched) (volume : WellFormed s) (nonzero : t.disk r ≠ 0)
    (unmarked : ∀ a ∈ s.rootSlots, a < r → s.disk a ≠ 0) (directory : Directory t slots) :
    slots.Pairwise (fun a b => t.disk a = 0 → t.disk b = 0) := by
  have before := edit.directory_backward volume.shape volume.sound directory
  have ordered := volume.ended slots before
  cases before with
  | root =>
    refine (ordered.and (rootSlots_sorted s.toMount)).imp_of_mem ?_
    intro a b inA inB both zero
    obtain ⟨marks,less⟩ := both
    by_cases first : a = r
    · exact absurd (first ▸ zero) nonzero
    have zeroA : s.disk a = 0 := by
      rw [← first_byte_congr (edit.root_slot_kept volume.shape inA first)]
      exact zero
    by_cases second : b = r
    · exact absurd zeroA (unmarked a inA (second ▸ less))
    rw [first_byte_congr (edit.root_slot_kept volume.shape inB second)]
    exact marks zeroA
  | @sub _ b cs parent member owns dir chain =>
    have file : b ≠ r := by
      rintro rfl
      exact edit.fileBefore owns dir
    have kept : ∀ a ∈ s.chainSlots cs, t.disk a = s.disk a := fun a inside =>
      first_byte_congr (edit.chain_slot_kept volume.shape volume.sound ⟨⟨_,parent,member⟩,owns⟩ file chain inside).2
    refine ordered.imp_of_mem ?_
    intro a b inA inB marks zero
    rw [kept a inA] at zero
    rw [kept b inB]
    exact marks zero

-- An edit of one root file keeps the volume well-formed when the file's new chain takes
-- over every used cluster that was touched or was its own.
theorem RootEdit.well_formed (edit : RootEdit s t r touched) (volume : WellFormed s)
    (own : Owns t.disk r → ∃ cs, NewChain s t r cs ∧ ∀ c ∈ cs, s.InVolume c)
    (used : ∀ c, t.fat c ≠ 0 → (touched c ∨ ∃ cs, Owner s r ∧ EntryChain s r cs ∧ c ∈ cs) →
      ∃ cs, Owns t.disk r ∧ EntryChain t r cs ∧ c ∈ cs)
    (nonzero : t.disk r ≠ 0) (unmarked : ∀ a ∈ s.rootSlots, a < r → s.disk a ≠ 0) (synced : Synced t) :
    WellFormed t := by
  have shape := volume.shape
  have sound := volume.sound
  refine ⟨?_,?_,?_,fun slots => edit.ended volume nonzero unmarked,?_,synced⟩
  · rw [edit.mount]
    exact shape
  · refine edit.sound shape sound ?_
    intro owns
    obtain ⟨cs,new,_⟩ := own owns
    exact ⟨cs,new⟩
  · intro a cs owner chain
    rw [edit.mount]
    by_cases here : a = r
    · subst here
      obtain ⟨ds,new,inside⟩ := own owner.2
      rw [chain.unique new.chain]
      exact inside
    · obtain ⟨before,chainBefore⟩ := edit.before shape sound owner here chain
      exact volume.placed a cs before chainBefore
  · intro c member taken unmarked
    rw [edit.mount] at member
    have held : ∀ cs, Owns t.disk r ∧ EntryChain t r cs ∧ c ∈ cs →
        ∃ a cs, Owner t a ∧ EntryChain t a cs ∧ c ∈ cs := by
      rintro cs ⟨owns,chain,inside⟩
      have slot : r ∈ t.rootSlots := by rw [edit.mount]; exact edit.slot
      exact ⟨r,cs,⟨⟨_,.root,slot⟩,owns⟩,chain,inside⟩
    by_cases hit : touched c
    · obtain ⟨cs,facts⟩ := used c taken (.inl hit)
      exact held cs facts
    have same := edit.fat c hit
    rw [same] at taken unmarked
    obtain ⟨a,cs,owner,chain,inside⟩ := volume.noLeak c member taken unmarked
    by_cases here : a = r
    · subst here
      rw [← same] at taken
      obtain ⟨ds,facts⟩ := used c taken (.inr ⟨cs,owner,chain,inside⟩)
      exact held ds facts
    · exact ⟨a,cs,(edit.owner_iff shape sound here).mpr owner,(edit.chain_iff shape sound owner here).mpr chain,inside⟩

end

def floppy : Mount := ⟨⟨512,1,1,2,224,2880,9,0⟩,1,19,33⟩
def blank : Driver := ⟨floppy,fun _ => 0,fun _ => 0,fun _ => false⟩

theorem floppy_geometry : Geometry floppy := by
  refine ⟨rfl,by decide,by decide,by decide,rfl,rfl,rfl,?_⟩
  intro c member
  have last : 33 + (c-2)*1 + 1 ≤ 2880 := member.2
  show c + c/2 + 2 ≤ 9*512
  omega

theorem blank_fat (c : Nat) : blank.fat c = 0 := by
  have word : load blank.fatBuffer (c + c/2) 2 = 0 := rfl
  unfold Driver.fat getFatEntry
  simp only [word]
  split <;> rfl

theorem blank_no_owner : ¬ Owner blank a := fun owner => owner.2.live.1 rfl

theorem blank_well_formed : WellFormed blank := by
  refine ⟨floppy_geometry,⟨?_,?_,?_⟩,?_,?_,?_,fun _ _ => rfl⟩
  · exact fun a owner => absurd owner blank_no_owner
  · exact fun a cs owner => absurd owner blank_no_owner
  · exact fun a b cs ds owner => absurd owner blank_no_owner
  · exact fun a cs owner => absurd owner blank_no_owner
  · exact fun slots _ => List.pairwise_of_forall (fun _ _ _ => rfl)
  · exact fun c _ used => absurd (blank_fat c) used

theorem blank_regular (f : List UInt8) : RegularOrAbsent blank f := fun _ found => absurd rfl found.live.1

theorem floppy_in_volume (two : 2 ≤ c) (small : c ≤ 2848) : floppy.InVolume c := by
  refine ⟨two,?_⟩
  show 33 + (c-2)*1 + 1 ≤ 2880
  omega

end SantOS.Fat12
