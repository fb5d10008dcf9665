import SantOS.Printf.UserSpace

namespace SantOS.Printf
open ByteMemory CStrings FormatStrings
open Shell (isDigit)

section
variable (format : Nat → UInt8) (args : Arguments)

def kernelReader : Reader State format 0x25 0 Parts where
  run := vprintfFrom format args
  place := State.i
  reads := State.reads
  stop s fuel nul := ⟨_,by rw [vprintfFrom,if_pos nul],rfl⟩
  item s fuel item formed noNul here enough := by
    cases item with
    | plain c =>
      refine ⟨_,step_plain args here.1 (fun zero => noNul (by rw [zero])) formed fuel,rfl,?_⟩
      intro j member
      rcases List.mem_cons.mp member with rfl | old
      · exact .inr (Nat.lt_succ_self _)
      · exact .inl old
    | conversion parts letter =>
      obtain ⟨⟨o,known,rfl⟩,stops⟩ := formed
      have length : (Item.text 0x25 (.conversion o.text letter)).length = o.text.length + 2 := by simp [Item.text]
      rw [length] at enough
      have more : o.text.length < fuel := Nat.lt_of_lt_of_le (Nat.lt_add_of_pos_right (by decide)) enough
      obtain ⟨reads,ran,within⟩ := step_conversion args (s := s) known here stops more
      refine ⟨_,ran,?_,?_⟩
      · rw [length,← Nat.add_assoc]
        rfl
      · intro j member
        rcases List.mem_append.mp member with new | old
        · exact .inr (within j new)
        · exact .inl old
  read s fuel t ran := (vprintf_reads ran).1

def userReader : Reader State format 0x25 0 NoParts where
  run := formatFrom format args
  place := State.i
  reads := State.reads
  stop s fuel nul := ⟨_,by rw [formatFrom,if_pos nul],rfl⟩
  item s fuel item formed noNul here enough := by
    cases item with
    | plain c =>
      refine ⟨_,step_other args here.1 (fun zero => noNul (by rw [zero])) formed fuel,rfl,?_⟩
      intro j member
      rcases List.mem_cons.mp member with rfl | old
      · exact .inr (Nat.lt_succ_self _)
      · exact .inl old
    | conversion parts letter =>
      obtain ⟨none_,_⟩ := formed
      cases none_
      refine ⟨_,step_letter args here fuel,rfl,?_⟩
      intro j member
      rcases List.mem_cons.mp member with rfl | rest
      · exact .inr (Nat.lt_succ_self _)
      · rcases List.mem_cons.mp rest with rfl | old
        · exact .inr (Nat.lt_add_of_pos_right (by decide))
        · exact .inl old
  read s fuel t ran := (plain_reads ran).1

end

theorem no_nul_part (parts : Str) : ¬Parts (parts ++ [0]) := ends_parts (by simp [PartByte,isDigit]) parts

theorem spells_stands {m : Nat → UInt8} (spells : Spells m text) : Stands m 0 (text ++ [0]) := by
  have from_ (rest : Str) (i : Nat) (same : ∀ j ≤ rest.length, m (i + j) = rest.getD j 0) : Stands m i (rest ++ [0]) := by
    induction rest generalizing i with
    | nil => exact ⟨same 0 (Nat.le_refl _),trivial⟩
    | cons c rest ih =>
      refine ⟨same 0 (Nat.zero_le _),ih (i+1) ?_⟩
      intro j inside
      have next := same (j+1) (Nat.succ_le_succ inside)
      rwa [Nat.add_comm j 1,← Nat.add_assoc,Nat.add_comm 1 j] at next
  exact from_ text 0 fun j inside => by rw [Nat.zero_add]; exact spells.atIndex j inside

def StopsBy (run : Nat → Option State) (last : Nat) : Prop :=
  ∃ bound, ∀ fuel ≥ bound, ∃ t, run fuel = some t ∧ ∀ j ∈ t.reads, j ≤ last

theorem kernel_stops_iff (spells : Spells format text) (args : Arguments) :
    StopsBy (vprintfInternal format args) text.length ↔ Whole 0x25 Parts text := by
  have stops := (kernelReader format args).stops_iff (s := start) no_nul_part ⟨⟨false,[],none⟩,⟨by simp,by simp⟩,rfl⟩ rfl spells.noNul
    (spells_stands spells)
  have place : (kernelReader format args).place start + text.length = text.length := Nat.zero_add _
  rwa [place] at stops

theorem user_stops_iff (spells : Spells format text) (args : Arguments) :
    StopsBy (printf format args) text.length ↔ Whole 0x25 NoParts text := by
  have stops := (userReader format args).stops_iff (s := start) (fun parts => List.append_ne_nil_of_right_ne_nil _ (by simp)) rfl rfl
    spells.noNul (spells_stands spells)
  have place : (userReader format args).place start + text.length = text.length := Nat.zero_add _
  rwa [place] at stops

theorem sprintf_run (m : Memory) (str : Nat) (format : Nat → UInt8) (args : Arguments) :
    (fun fuel => (sprintf m str format args fuel).map Prod.fst) = printf format args := by
  funext fuel
  rw [sprintf,Option.map_map]
  exact congrFun Option.map_id _

-- The switch takes the NUL behind an unfinished conversion for its letter, and the step of
-- the loop goes on behind it. Every other format is read up to its NUL.
theorem stops_at_nul_iff (format : Nat → UInt8) (text : Str) (spells : Spells format text) (args : Arguments)
    (m : Memory) (str : Nat) :
    (StopsBy (vprintfInternal format args) text.length ↔ Whole 0x25 Parts text) ∧
    (StopsBy (printf format args) text.length ↔ Whole 0x25 NoParts text) ∧
    (StopsBy (fun fuel => (sprintf m str format args fuel).map Prod.fst) text.length ↔ Whole 0x25 NoParts text) := by
  refine ⟨kernel_stops_iff spells args,user_stops_iff spells args,?_⟩
  rw [sprintf_run]
  exact user_stops_iff spells args

def literal (text : Str) : Nat → UInt8 := fun i => text.getD i 0

def noArguments : Arguments := ⟨fun _ => 0,fun _ => [],fun _ _ => []⟩

theorem literal_spells (text : Str) (noNul : 0 ∉ text) : Spells (literal text) text := ⟨fun _ _ => rfl,noNul⟩

theorem stops_at_nul_iff_width : StopsBy (vprintfInternal (literal (bytes "%5d")) noArguments) 3 := by
  refine (stops_at_nul_iff _ (bytes "%5d") (literal_spells _ (by decide)) noArguments (fun _ => 0) 0).1.mpr ⟨[.conversion [0x35] 0x64],?_,rfl⟩
  intro item member
  rw [List.mem_singleton.mp member]
  have five : Parts [0x35] := ⟨⟨false,[0x35],none⟩,⟨by simp [isDigit],by simp⟩,rfl⟩
  exact ⟨five,ends_parts (by simp [PartByte,isDigit]) [0x35]⟩

theorem lone_percent_runs_on :
    ¬StopsBy (vprintfInternal (literal (bytes "100%")) noArguments) 4 ∧
    ¬StopsBy (printf (literal (bytes "100%")) noArguments) 4 ∧
    ¬StopsBy (fun fuel => (sprintf (fun _ => 0) 0 (literal (bytes "100%")) noArguments fuel).map Prod.fst) 4 := by
  have spells := literal_spells (bytes "100%") (by decide)
  have plain (Parts : Str → Prop) (empty : Parts []) : Unfinished 0x25 Parts (bytes "100%") := by
    refine ⟨[.plain 0x31,.plain 0x30,.plain 0x30],[],?_,empty,rfl⟩
    simp [Item.Formed]
  have kernel := (kernelReader _ noArguments).unfinished_goes_on (s := start) no_nul_part spells.noNul
    (plain Parts ⟨⟨false,[],none⟩,⟨by simp,by simp⟩,rfl⟩) (spells_stands spells)
  have user := (userReader _ noArguments).unfinished_goes_on (s := start) (fun parts => List.append_ne_nil_of_right_ne_nil _ (by simp))
    spells.noNul (plain NoParts rfl) (spells_stands spells)
  refine ⟨kernel,user,?_⟩
  rw [sprintf_run]
  exact user

end SantOS.Printf
