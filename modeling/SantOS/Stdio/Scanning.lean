import SantOS.Library.ByteMemory
import SantOS.Library.CStrings
import SantOS.Shell.Text

namespace SantOS.Stdio
open ByteMemory CStrings
open Shell (int32 isDigit digitsToInt)

-- What scanf works on: the place in the format and among the pointers, the keys to come, what
-- was echoed, the memory behind the pointers and the number of fields read.
structure Scan where
  i : Nat
  next : Nat
  keys : Str
  echo : Str
  memory : Memory
  count : Nat

def rubs (c : UInt8) : Bool := c = 8 || c = 127
def blank (c : UInt8) : Bool := c = 0x20 || c = 0x09 || c = 0x0A

def rubOut : Str := [8,0x20,8]

-- getchar waits for a key: where none comes any more, scanf does not return. The first key
-- behind blanks is the variable c, kept at the head of the keys.
def skipBlanks : Str → Option Str
  | [] => none
  | c::keys => if blank c then skipBlanks keys else some (c::keys)

-- The loop of %d. The key that ends it is read and dropped.
def readDigits (digitBuffer echo : Str) : Str → Option (Str × Str × Str)
  | [] => none
  | c::keys =>
    if rubs c then
      if digitBuffer.length > 0 then readDigits digitBuffer.dropLast (echo ++ rubOut) keys
      else readDigits digitBuffer echo keys
    else if isDigit c then
      if digitBuffer.length < 31 then readDigits (digitBuffer ++ [c]) (echo ++ [c]) keys
      else readDigits digitBuffer echo keys
    else some (digitBuffer,echo,keys)

-- The loop of %s stores each key at once; a backspace leaves the byte in memory.
def readWord (ptr i : Nat) (m : Memory) (echo : Str) : Str → Option (Nat × Memory × Str × Str)
  | [] => none
  | c::keys =>
    if rubs c then
      if i > 0 then readWord ptr (i-1) m (echo ++ rubOut) keys else readWord ptr i m echo keys
    else if blank c || c = 0 then some (i,m,echo,keys)
    else readWord ptr (i+1) (Function.update m (ptr+i) c) (echo ++ [c]) keys

def scanInt (ptr : Nat) (s : Scan) : Option (Bool × Scan) :=
  let negative := s.keys.head? = some 0x2D
  let keys := if negative then s.keys.tail else s.keys
  let echo := if negative then s.echo ++ [0x2D] else s.echo
  (readDigits [] echo keys).map fun (digitBuffer,echo,keys) =>
    if digitBuffer.length = 0 then (false,{s with keys := keys,echo := echo})
    else
      let value := digitsToInt digitBuffer
      let value := if negative then int32 (-value) else value
      (true,{s with
        keys := keys
        echo := echo
        memory := store s.memory ptr 4 (value % 2^32).toNat
        count := s.count + 1})

def scanString (ptr : Nat) (s : Scan) : Option (Bool × Scan) :=
  (readWord ptr 0 s.memory s.echo s.keys).map fun (i,memory,echo,keys) =>
    (true,{s with keys := keys,echo := echo,memory := Function.update memory (ptr+i) 0,count := s.count + 1})

def scanChar (ptr : Nat) (s : Scan) : Option (Bool × Scan) :=
  s.keys.head?.map fun c =>
    (true,{s with keys := s.keys.tail,echo := s.echo ++ [c],memory := Function.update s.memory ptr c,count := s.count + 1})

def scanLetter (pointers : Nat → Nat) (letter : UInt8) (s : Scan) : Option (Bool × Scan) :=
  if letter = 0x64 then scanInt (pointers s.next) {s with next := s.next + 1}
  else if letter = 0x73 then scanString (pointers s.next) {s with next := s.next + 1}
  else if letter = 0x63 then scanChar (pointers s.next) {s with next := s.next + 1}
  else some (true,{s with keys := s.keys.tail})

def scanFrom (format : Nat → UInt8) (pointers : Nat → Nat) : Nat → Scan → Option Scan
  | 0,_ => none
  | fuel+1,s =>
    if format s.i = 0 then some {s with echo := s.echo ++ [0x0A]}
    else if format s.i = 0x25 then
      (skipBlanks s.keys).bind fun keys =>
        (scanLetter pointers (format (s.i+1)) {s with i := s.i + 2,keys := keys}).bind fun (further,s) =>
          if further then scanFrom format pointers fuel s else some s
    else if blank (format s.i) then scanFrom format pointers fuel {s with i := s.i + 1}
    else
      -- a key that does not match is gone all the same
      s.keys.head?.bind fun c =>
        if c = format s.i then scanFrom format pointers fuel {s with i := s.i + 1,keys := s.keys.tail}
        else some {s with keys := s.keys.tail}

def scanf (format : Nat → UInt8) (pointers : Nat → Nat) (m : Memory) (keys : Str) (fuel : Nat) : Option Scan :=
  scanFrom format pointers fuel ⟨0,0,keys,[],m,0⟩

-- What typing comes to: a text that a key lengthens, up to a limit, and backspace shortens.
def pressed (limit : Nat) (text : Str) (c : UInt8) : Str :=
  if rubs c then text.dropLast else if text.length < limit then text ++ [c] else text

def corrected (limit : Nat) (keys : Str) : Str := keys.foldl (pressed limit) []

def echoOf (limit : Nat) (text : Str) (c : UInt8) : Str :=
  if rubs c then if text.length > 0 then rubOut else [] else if text.length < limit then [c] else []

def echoed (limit : Nat) (text : Str) : Str → Str
  | [] => []
  | c::keys => echoOf limit text c ++ echoed limit (pressed limit text c) keys

theorem pressed_length (limit : Nat) (text : Str) (c : UInt8) : (pressed limit text c).length ≤ text.length + 1 := by
  unfold pressed
  split
  · rw [List.length_dropLast]; omega
  · split
    · rw [List.length_append,List.length_singleton]
    · exact Nat.le_succ _

theorem typed_length (limit : Nat) (keys text : Str) :
    (keys.foldl (pressed limit) text).length ≤ text.length + keys.length := by
  induction keys generalizing text with
  | nil => exact Nat.le_refl _
  | cons c keys ih =>
    have step := pressed_length limit text c
    have rest := ih (pressed limit text c)
    rw [List.foldl_cons,List.length_cons]
    omega

theorem skipBlanks_spec {blanks : Str} (all : ∀ c ∈ blanks, blank c = true) (first : blank c = false) (keys : Str) :
    skipBlanks (blanks ++ c::keys) = some (c::keys) := by
  induction blanks with
  | nil => simp [skipBlanks,first]
  | cons b blanks ih =>
    have here : blank b = true := all b List.mem_cons_self
    simp [skipBlanks,here,ih (fun c member => all c (List.mem_cons_of_mem _ member))]

theorem readDigits_spec {keys : Str} (all : ∀ c ∈ keys, rubs c = true ∨ isDigit c = true) (noRub : rubs stop = false)
    (noDigit : isDigit stop = false) (digits echo rest : Str) :
    readDigits digits echo (keys ++ stop::rest) = some (keys.foldl (pressed 31) digits,echo ++ echoed 31 digits keys,rest) := by
  induction keys generalizing digits echo with
  | nil => simp [readDigits,noRub,noDigit,echoed]
  | cons c keys ih =>
    have later := ih (fun c member => all c (List.mem_cons_of_mem _ member))
    rw [List.cons_append,readDigits,List.foldl_cons,echoed,← List.append_assoc]
    by_cases rub : rubs c = true
    · by_cases some_ : digits.length > 0
      · simp [rub,some_,later,pressed,echoOf]
      · have empty : digits = [] := List.length_eq_zero_iff.mp (Nat.eq_zero_of_not_pos some_)
        simp [rub,empty,later,pressed,echoOf]
    · have digit := (all c List.mem_cons_self).resolve_left rub
      by_cases room : digits.length < 31
      · simp [rub,digit,room,later,pressed,echoOf]
      · simp [rub,digit,room,later,pressed,echoOf]

theorem readWord_spec {keys : Str} (all : ∀ c ∈ keys, blank c = false ∧ c ≠ 0) (noRub : rubs stop = false)
    (ends : (blank stop || stop = 0) = true) {text : Str} {m : Memory} (starts : Starts (fun i => m (ptr+i)) text)
    (limit : text.length + keys.length ≤ n) (echo rest : Str) :
    ∃ m', readWord ptr text.length m echo (keys ++ stop::rest) =
        some ((keys.foldl (pressed n) text).length,m',echo ++ echoed n text keys,rest) ∧
      Starts (fun i => m' (ptr+i)) (keys.foldl (pressed n) text) ∧
      ∀ a, a < ptr ∨ ptr + text.length + keys.length ≤ a → m' a = m a := by
  induction keys generalizing text m echo with
  | nil =>
    refine ⟨m,?_,starts,fun _ _ => rfl⟩
    rw [List.nil_append,readWord,noRub,if_neg (by decide),if_pos ends]
    simp [echoed]
  | cons c keys ih =>
    rw [List.length_cons] at limit
    have restAll : ∀ c ∈ keys, blank c = false ∧ c ≠ 0 := fun c member => all c (List.mem_cons_of_mem _ member)
    obtain ⟨noBlank,nonzero⟩ := all c List.mem_cons_self
    rw [List.cons_append,readWord,List.foldl_cons,echoed,← List.append_assoc,List.length_cons]
    by_cases rub : rubs c = true
    · rw [if_pos rub]
      by_cases some_ : text.length > 0
      · have shorter : text.dropLast.length = text.length - 1 := List.length_dropLast
        have kept : Starts (fun i => m (ptr+i)) text.dropLast := by
          intro i inside
          rw [shorter] at inside
          have here := starts i (by omega)
          rw [here,List.dropLast_eq_take,List.getD_eq_getElem?_getD,List.getD_eq_getElem?_getD,List.getElem?_take_of_lt inside]
        obtain ⟨m',ran,starts',outside⟩ := ih restAll kept (by omega) (echo ++ rubOut)
        rw [shorter] at ran outside
        refine ⟨m',?_,?_,fun a apart => outside a (by omega)⟩
        · rw [if_pos some_,ran]
          simp [pressed,echoOf,rub,some_]
        · simpa [pressed,rub] using starts'
      · have empty : text = [] := List.length_eq_zero_iff.mp (Nat.eq_zero_of_not_pos some_)
        subst empty
        obtain ⟨m',ran,starts',outside⟩ := ih restAll starts (by omega) echo
        refine ⟨m',?_,?_,fun a apart => outside a (by omega)⟩
        · rw [if_neg some_,ran]
          simp [pressed,echoOf,rub]
        · simpa [pressed,rub] using starts'
    · have room : text.length < n := by omega
      have longer : (text ++ [c]).length = text.length + 1 := by rw [List.length_append,List.length_singleton]
      have shifted : (fun i => Function.update m (ptr + text.length) c (ptr+i)) = Function.update (fun i => m (ptr+i)) text.length c := by
        funext i
        by_cases same : i = text.length
        · rw [same,Function.update_self,Function.update_self]
        · rw [Function.update_of_ne (by omega),Function.update_of_ne same]
      have pushed : Starts (fun i => Function.update m (ptr + text.length) c (ptr+i)) (text ++ [c]) := by
        rw [shifted]
        exact starts.push c
      obtain ⟨m',ran,starts',outside⟩ := ih restAll pushed (by omega) (echo ++ [c])
      rw [longer] at ran outside
      refine ⟨m',?_,?_,?_⟩
      · rw [if_neg rub,noBlank,if_neg (by simpa using nonzero),ran]
        simp [pressed,echoOf,rub,room]
      · simpa [pressed,rub,room] using starts'
      · intro a apart
        rw [outside a (by omega),Function.update_of_ne (by omega)]

end SantOS.Stdio
