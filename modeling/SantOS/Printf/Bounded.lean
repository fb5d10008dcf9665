import SantOS.Library.FueledLoops
import SantOS.Printf.Terminators

namespace SantOS.Printf
open ByteMemory CStrings FormatStrings FueledLoops
open Shell (int32 isDigit)

section
variable {format : Nat → UInt8} {args : Arguments}

theorem numberFrom_later (ran : numberFrom format fuel i number = some r) :
    numberFrom format (fuel+1) i number = some r := by
  induction fuel generalizing i number r with
  | zero => cases ran
  | succ fuel ih =>
    rw [numberFrom] at ran ⊢
    split at ran
    · next digit =>
      obtain ⟨rest,read,rfl⟩ := Option.map_eq_some_iff.mp ran
      rw [if_pos digit,ih read]
      rfl
    · next other => rwa [if_neg other]

theorem parseConversion_later (ran : parseConversion format fuel i = some r) :
    parseConversion format (fuel+1) i = some r := by
  unfold parseConversion at ran ⊢
  dsimp only at ran ⊢
  cases width : numberFrom format fuel (if format i == 0x2D then i+1 else i) 0 with
  | none =>
    rw [width] at ran
    cases ran
  | some found =>
    obtain ⟨number,j,reads⟩ := found
    rw [width] at ran
    rw [numberFrom_later width]
    dsimp only at ran ⊢
    split at ran
    · next point =>
      obtain ⟨rest,read,rfl⟩ := Option.map_eq_some_iff.mp ran
      rw [if_pos point,numberFrom_later read]
      rfl
    · next other => rwa [if_neg other]

theorem vprintfFrom_later (ran : vprintfFrom format args fuel s = some t) : vprintfFrom format args (fuel+1) s = some t := by
  induction fuel generalizing s with
  | zero => cases ran
  | succ fuel ih =>
    rw [vprintfFrom] at ran ⊢
    split at ran
    · next ended => rwa [if_pos ended]
    · next going =>
      rw [if_neg going]
      split at ran
      · next mark =>
        rw [if_pos mark]
        cases parsed : parseConversion format fuel (s.i+1) with
        | none =>
          rw [parsed] at ran
          cases ran
        | some found =>
          rw [parsed] at ran
          rw [parseConversion_later parsed]
          exact ih ran
      · next plain =>
        rw [if_neg plain]
        exact ih ran

theorem vprintfInternal_ends (spells : Spells format text) (whole : Whole 0x25 Parts text) (args : Arguments) :
    ∃ s bound, ∀ fuel ≥ bound, vprintfInternal format args fuel = some s := by
  obtain ⟨bound,ends⟩ := (kernel_stops_iff spells args).mpr whole
  obtain ⟨s,ran,_⟩ := ends bound (Nat.le_refl _)
  exact ⟨s,bound,fun fuel enough => kept_later (fun _ _ earlier => vprintfFrom_later earlier) ran enough⟩

end

-- printf_ctx_t and the memory its buffer stands in. A size_t has 64 bits.
structure Context where
  buffer : Nat
  pos : Nat
  maxSize : Nat
  memory : Memory

def bufPutcharCb (c : UInt8) (pctx : Context) : Context :=
  if pctx.pos < (pctx.maxSize + (2^64 - 1)) % 2^64 then
    {pctx with pos := pctx.pos + 1,memory := Function.update pctx.memory (pctx.buffer + pctx.pos) c}
  else pctx

-- The putc calls of a run in turn: vprintf_internal hands ctx on and never looks at it.
def Context.put (ctx : Context) (out : Str) : Context := out.foldl (fun ctx c => bufPutcharCb c ctx) ctx

def Context.terminated (ctx : Context) : Memory := Function.update ctx.memory (ctx.buffer + ctx.pos) 0

namespace Kernel

def sprintf (m : Memory) (buf : Nat) (format : Nat → UInt8) (args : Arguments) (fuel : Nat) : Option (Int × Memory) :=
  let ctx : Context := ⟨buf,0,2^64 - 1,m⟩
  (vprintfInternal format args fuel).map (fun s => (s.count,(ctx.put s.out).terminated))

def snprintf (m : Memory) (buf size : Nat) (format : Nat → UInt8) (args : Arguments) (fuel : Nat) : Option (Int × Memory) :=
  if size = 0 then some (0,m)
  else
    let ctx : Context := ⟨buf,0,size,m⟩
    (vprintfInternal format args fuel).map (fun s => (s.count,(ctx.put s.out).terminated))

end Kernel

def filled (m : Memory) (buf size : Nat) (text : Str) : Context :=
  ⟨buf,text.length,size,blit m buf text.length (fun i => text.getD i 0)⟩

theorem filled_empty (m : Memory) (buf size : Nat) : filled m buf size [] = ⟨buf,0,size,m⟩ := by
  rw [filled,List.length_nil,blit_nothing]

theorem put_char (m : Memory) (buf : Nat) (positive : 0 < size) (fits : size < 2^64) (text : Str) (c : UInt8) :
    bufPutcharCb c (filled m buf size (text.take (size-1))) = filled m buf size ((text ++ [c]).take (size-1)) := by
  have limit : (size + (2^64 - 1)) % 2^64 = size - 1 := by omega
  rw [bufPutcharCb]
  simp only [filled,limit]
  by_cases room : text.length < size - 1
  · have before : text.take (size-1) = text := List.take_of_length_le (Nat.le_of_lt room)
    have after : (text ++ [c]).take (size-1) = text ++ [c] := List.take_of_length_le (by rw [List.length_append]; exact room)
    have old : blit m buf text.length (fun i => text.getD i 0) = blit m buf text.length (fun i => (text ++ [c]).getD i 0) :=
      blit_same m (fun j below => (List.getD_append _ _ _ _ below).symm)
    have last : (text ++ [c]).getD text.length 0 = c := by simp
    have stored := blit_succ m (fun i => (text ++ [c]).getD i 0) buf text.length
    rw [last,← old] at stored
    rw [before,after,if_pos room,stored,List.length_append]
    rfl
  · have full : (text.take (size-1)).length = size - 1 := List.length_take_of_le (Nat.le_of_not_lt room)
    rw [full,if_neg (Nat.lt_irrefl _),List.take_append_of_le_length (Nat.le_of_not_lt room),full]

theorem put_all (m : Memory) (buf : Nat) (positive : 0 < size) (fits : size < 2^64) (text out : Str) :
    (filled m buf size (text.take (size-1))).put out = filled m buf size ((text ++ out).take (size-1)) := by
  induction out generalizing text with
  | nil => rw [List.append_nil]; rfl
  | cons c out ih =>
    have next := ih (text ++ [c])
    rw [List.append_assoc] at next
    rw [Context.put,List.foldl_cons,put_char m buf positive fits]
    exact next

structure Printed (m u : Memory) (buf : Nat) (text : Str) : Prop where
  stored : Starts (fun i => u (buf + i)) text
  nul : u (buf + text.length) = 0
  rest : ∀ a, a < buf ∨ buf + text.length < a → u a = m a

theorem filled_printed (m : Memory) (buf size : Nat) (text : Str) :
    Printed m (filled m buf size text).terminated buf text := by
  refine ⟨?_,Function.update_self ..,?_⟩
  · intro i inside
    have here : buf + i ≠ buf + text.length := by omega
    have char : blit m buf text.length (fun i => text.getD i 0) (buf + i) = text.getD i 0 := blit_inside _ _ inside
    exact (Function.update_of_ne here _ _).trans char
  · intro a apart
    have other : a ≠ buf + text.length := by omega
    have old : blit m buf text.length (fun i => text.getD i 0) a = m a := blit_outside _ _ (by omega)
    exact (Function.update_of_ne other _ _).trans old

theorem put_printed (m : Memory) (buf : Nat) (positive : 0 < size) (fits : size < 2^64) (out : Str) :
    Printed m ((⟨buf,0,size,m⟩ : Context).put out).terminated buf (out.take (size-1)) := by
  have all := put_all m buf positive fits [] out
  rw [List.take_nil,filled_empty] at all
  rw [all]
  exact filled_printed m buf size _

-- The characters are those of sprintf, whatever the buffer and its size; the longest text
-- that a size_t can count is the limit of sprintf as well.
theorem snprintf_cuts (format : Nat → UInt8) (text : Str) (spells : Spells format text)
    (whole : Whole 0x25 Parts text) (args : Arguments) :
    ∃ out count bound, ∀ (m : Memory) (buf fuel : Nat), bound ≤ fuel →
      (∃ u, Kernel.sprintf m buf format args fuel = some (count,u) ∧ Printed m u buf out) ∧
      ∀ size, 1 ≤ size → size < 2^64 → ∃ w, Kernel.snprintf m buf size format args fuel = some (count,w) ∧
        Printed m w buf (out.take (size-1)) ∧ ∀ a, buf + size ≤ a → w a = m a := by
  obtain ⟨s,bound,ends⟩ := vprintfInternal_ends spells whole args
  refine ⟨s.out.take (2^64 - 1 - 1),s.count,bound,?_⟩
  intro m buf fuel enough
  have ran := ends fuel enough
  refine ⟨⟨_,by rw [Kernel.sprintf,ran]; rfl,put_printed m buf (by decide) (by decide) s.out⟩,?_⟩
  intro size positive fits
  have printed := put_printed m buf positive fits s.out
  have shorter : (s.out.take (2^64 - 1 - 1)).take (size-1) = s.out.take (size-1) := by
    rw [List.take_take,Nat.min_eq_left (by omega)]
  refine ⟨_,by rw [Kernel.snprintf,if_neg (by omega),ran]; rfl,by rw [shorter]; exact printed,?_⟩
  intro a beyond
  apply printed.rest a
  right
  have length := List.length_take_le (size-1) s.out
  omega

-- n=   0 in a buffer of four bytes.
example : (Kernel.snprintf (fun _ => 7) 100 4 (literal (bytes "n=%4d")) noArguments 20).map (fun r => (r.1,(List.range 5).map (fun i => r.2 (100+i)))) =
    some (6,bytes "n= " ++ [0,7]) := by decide

theorem snprintf_cuts_width :
    ∃ out count bound, ∀ (m : Memory) (buf fuel : Nat), bound ≤ fuel →
      (∃ u, Kernel.sprintf m buf (literal (bytes "n=%4d")) noArguments fuel = some (count,u) ∧ Printed m u buf out) ∧
      ∀ size, 1 ≤ size → size < 2^64 → ∃ w, Kernel.snprintf m buf size (literal (bytes "n=%4d")) noArguments fuel = some (count,w) ∧
        Printed m w buf (out.take (size-1)) ∧ ∀ a, buf + size ≤ a → w a = m a := by
  refine snprintf_cuts _ (bytes "n=%4d") (literal_spells _ (by decide)) ⟨[.plain 0x6E,.plain 0x3D,.conversion [0x34] 0x64],?_,rfl⟩ noArguments
  have four : Parts [0x34] := ⟨⟨false,[0x34],none⟩,⟨by simp [isDigit],by simp⟩,rfl⟩
  have last : ¬Parts [0x34,0x64] := ends_parts (by simp [PartByte,isDigit]) [0x34]
  simp [Item.Formed,four,last]

end SantOS.Printf
