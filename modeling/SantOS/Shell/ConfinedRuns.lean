import SantOS.Shell.GuardedRuns
import SantOS.Shell.WriteBounds

namespace SantOS.Shell
open Buffers CStrings

section
variable {σ : Type} {k : Kernel σ} {rounds : Nat} {s t : Session σ} {r : Result σ} {events : List (Event σ)}

section
variable {run : Session σ → Str → Result σ} {each : Session σ → Str → List (Event σ)}
  (confined : ∀ s, Tight s → ∀ line, Confined k (run s line) (each s line))
include confined

theorem script_confined (filename : Str) (tight : Tight s) :
    Confined k (runScript k run s filename) (scriptEvents k run each s filename) := by
  unfold runScript scriptEvents
  cases k.readFile s.system filename (fun _ => 0) 4095 with
  | none => exact guarded_none
  | some read =>
    obtain ⟨scriptLen,scriptBuf,system⟩ := read
    have moved : Tight {s with system := system} := ⟨tight.header,tight.directory⟩
    dsimp only
    split
    · exact guarded_some moved
    · exact lines_keep confined _ moved

theorem program_confined (command : Str) (tight : Tight s) :
    Confined k (runProgram k run s command) (programEvents k run each s command) := by
  unfold runProgram programEvents
  cases parseArgs (command.drop 2) with
  | nil => exact guarded_some tight
  | cons filename args =>
    dsimp only
    cases k.readFile s.system filename (fun _ => 0) 7 with
    | none => exact guarded_none
    | some read =>
      obtain ⟨count,header,system⟩ := read
      have moved : Tight {s with system := system} := ⟨tight.header,tight.directory⟩
      dsimp only
      split
      · exact guarded_some moved
      · split
        · exact script_confined confined filename moved
        · refine ⟨by simp,fun _ ended ran => ?_⟩
          exact moved.inner (startProgram_quiet _ _ _ _ _ ran).inner

theorem single_confined (command : Str) (tight : Tight s) :
    Confined k (processSingleCommand k run rounds s command) (singleEvents k run each s command) := by
  refine guarded_cons (single_iff tight command) (fun fits => guarded_printing (P := fun _ t => Tight t) _ ?_)
  have fit : singleFits k s command := fits
  have alone {r : Result σ} (ends : Ends r (fun t _ => Tight t)) : Confined k r [] := ⟨by simp,fun _ _ ran => ends _ _ _ ran⟩
  unfold singleFits at fit
  split
  · exact program_confined confined command tight
  · next no_program =>
    rw [if_neg no_program] at fit
    split
    · split
      · exact guarded_none
      · exact guarded_some ⟨tight.header,tight.directory⟩
    · next noDollar =>
      rw [if_neg noDollar] at fit
      cases given : commandArgs command with
      | nil => exact keeps_done tight []
      | cons name args =>
        rw [given] at fit
        exact alone (runCommand_tight tight given fit.1 fit.2)

theorem segments_confined (findSegIndex : Option Nat) (segCount : Nat) (segs : List Str) (i : Nat) (result : Int)
    (tight : Tight s) :
    Confined k (runSegments run findSegIndex segCount i result s segs) (segmentEvents run each findSegIndex segCount i s segs) := by
  induction segs generalizing i result s with
  | nil => exact guarded_some tight
  | cons seg segs ih =>
    have moved : Tight {s with pipeRemaining := segCount - i - 1} := ⟨tight.header,tight.directory⟩
    unfold runSegments segmentEvents
    split
    · exact ih _ _ tight
    · dsimp only
      split
      · exact ih _ _ moved
      · have goesOn (code : Int) (t : Session σ) (tight : Tight t) := ih (i+1) code tight
        exact guarded_until (Q := fun _ t => Tight t) (confined _ moved (trim seg)) (fun _ _ _ _ _ tight => tight) (fun code t _ => goesOn code t)

theorem prompt_confined : Prompt (InBuffers k) (Fits k) Tight Tight run each where
  collected := collected_iff
  header _ tight := iff_of_true (header_inside tight) trivial
  stored _ _ _ tight := ⟨tight.header,tight.directory⟩
  closed _ tight := ⟨tight.header,tight.directory⟩
  opened _ _ tight _ := ⟨tight.header,tight.directory⟩
  ended _ tight := ⟨tight.header,tight.directory⟩
  blockLine := confined
  typedLine s tight _ line := (confined s tight line).imp fun ended same => ⟨ended,same,fun tight _ => tight⟩

end

theorem command_confined (fuel : Nat) (command : Str) (tight : Tight s) :
    Confined k (processCommand k rounds fuel s command) (commandEvents k rounds fuel s command) := by
  induction fuel generalizing s command with
  | zero => exact guarded_none
  | succ fuel ih =>
    refine guarded_printing (P := fun _ t => Tight t) _ ?_
    unfold commandEvents
    split
    · refine guarded_cons (iff_of_true (pipeline_inside command) trivial) (fun _ => ?_)
      have single (s : Session σ) (tight : Tight s) (line : Str) :=
        @single_confined σ k rounds s (processCommand k rounds fuel) (commandEvents k rounds fuel) (fun s tight line => ih line tight) line tight
      have started : Tight (startPipeline s (((findSegment 0 (segments 16 [] command)).map (fun f => searchTerm f.2)).getD [])) :=
        ⟨tight.header,tight.directory⟩
      refine (segments_confined single _ _ _ _ 0 started).imp ?_
      intro closed same
      unfold runPipeline at same
      dsimp only at same
      split at same
      · cases same
      · next ran =>
        cases same
        exact ⟨_,ran,fun tight => ⟨tight.header,tight.directory⟩⟩
    · exact single_confined (fun s tight line => ih line tight) command tight

theorem start_tight (system : σ) : Tight (shellStart system) := ⟨show 0 < 128 by decide,show 1 < 256 by decide⟩

-- Whatever lines the shell gets: every write of the run is inside of its buffer exactly when
-- every step of it fits.
theorem writes_inside_iff (k : Kernel σ) (rounds fuel : Nat) (system : σ) (inputs : List Str) :
    (∀ e ∈ typedEvents (processCommand k rounds fuel) (commandEvents k rounds fuel) (shellStart system) inputs, InBuffers k e) ↔
      ∀ e ∈ typedEvents (processCommand k rounds fuel) (commandEvents k rounds fuel) (shellStart system) inputs, Fits k e :=
  ((prompt_confined fun _ tight line => command_confined fuel line tight).typeLines inputs (start_tight system)).iff

theorem block_line_overrun :
    ¬ ∀ inputs : List Str, (∀ input ∈ inputs, input.length < maxInput) →
      ∀ e ∈ typedEvents (processCommand noDisk 0 1) (commandEvents noDisk 0 1) (shellStart ()) inputs, InBuffers noDisk e := by
  intro all
  have typed : ∀ input ∈ [bytes "if 1 = 1",List.replicate 200 0x61], input.length < maxInput := by
    intro input member
    rcases List.mem_cons.mp member with rfl | later
    · decide
    · rw [List.mem_singleton.mp later,List.length_replicate]
      decide
  have opened : typeLine (processCommand noDisk 0 1) (shellStart ()) (bytes "if 1 = 1") =
      done {shellStart () with blockHeader := bytes "if", collectingBlock := 1} [.given (bytes "if 1 = 1"),.ran (bytes "if 1 = 1")] := rfl
  have collected : Event.collected {shellStart () with blockHeader := bytes "if", collectingBlock := 1} (List.replicate 200 0x61) ∈
      typedEvents (processCommand noDisk 0 1) (commandEvents noDisk 0 1) (shellStart ()) [bytes "if 1 = 1",List.replicate 200 0x61] := by
    rw [typedEvents,opened]
    refine List.mem_append_right _ ?_
    change _ ∈ typedEvents _ _ {shellStart () with blockHeader := bytes "if", collectingBlock := 1} [List.replicate 200 0x61]
    rw [typedEvents]
    exact List.mem_append_left _ List.mem_cons_self
  have fits := (collected_iff _ _).mp (all _ typed _ collected)
  have short := fits (by decide +kernel) (by decide +kernel) (by decide)
  rw [List.length_replicate] at short
  exact absurd short (by decide)

end

end SantOS.Shell
