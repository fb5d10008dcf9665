import Mathlib.Data.List.TakeWhile
import SantOS.Sasm.LineLoop

namespace SantOS.Sasm
open CStrings FueledLoops

inductive Instr where
  | ret
  | push (reg : Fin 16)
  | pop (reg : Fin 16)
  | mov (dst src : Fin 16)
deriving DecidableEq

-- x86-64 as the processor reads it: an optional REX prefix 0100WRXB, an opcode, and for MOV
-- r/m64, r64 a ModRM byte whose reg field is the source. R and B are the high bits of the
-- register numbers.
def register (high low : UInt8) : Fin 16 := Fin.ofNat 16 (8*high.toNat + low.toNat)

def decodeOpcode (rex : UInt8) : List UInt8 → Option (Instr × List UInt8)
  | [] => none
  | opcode::rest =>
    if opcode = 0xC3 then some (.ret,rest)
    else if opcode &&& 0xF8 = 0x50 then some (.push (register (rex &&& 1) (opcode &&& 7)),rest)
    else if opcode &&& 0xF8 = 0x58 then some (.pop (register (rex &&& 1) (opcode &&& 7)),rest)
    else if opcode = 0x89 ∧ rex &&& 8 ≠ 0 ∧ rest.headD 0 >>> 6 = 3 then
      some (.mov (register (rex &&& 1) (rest.headD 0 &&& 7)) (register (rex >>> 2 &&& 1) (rest.headD 0 >>> 3 &&& 7)),rest.tail)
    else none

def decodeOne (code : List UInt8) : Option (Instr × List UInt8) :=
  if code.headD 0 &&& 0xF0 = 0x40 then decodeOpcode (code.headD 0) code.tail else decodeOpcode 0 code

def decode : Nat → List UInt8 → Option (List Instr)
  | _,[] => some []
  | 0,_::_ => none
  | n+1,b::code => (decodeOne (b::code)).bind (fun (instr,rest) => (decode n rest).map (instr::·))

def stackCode (opcode : UInt8) (reg : Fin 16) : List UInt8 :=
  (if needsRex (UInt8.ofNat reg) then [rexB] else []) ++ [opcode + (UInt8.ofNat reg &&& 7)]

def movRex (dst src : Fin 16) : UInt8 :=
  (rexW ||| if needsRex (UInt8.ofNat src) then 0x04 else 0) ||| if needsRex (UInt8.ofNat dst) then 0x01 else 0

def Instr.code : Instr → List UInt8
  | .ret => [opRet]
  | .push reg => stackCode opPushReg reg
  | .pop reg => stackCode opPopReg reg
  | .mov dst src => [movRex dst src,opMovRmReg,makeModrm modDirect (UInt8.ofNat src) (UInt8.ofNat dst)]

theorem mov_bytes : ∀ dst src : Fin 16, movRex dst src &&& 0xF0 = 0x40 ∧ movRex dst src &&& 8 ≠ 0 ∧
    makeModrm modDirect (UInt8.ofNat src) (UInt8.ofNat dst) >>> 6 = 3 ∧
    register (movRex dst src &&& 1) (makeModrm modDirect (UInt8.ofNat src) (UInt8.ofNat dst) &&& 7) = dst ∧
    register (movRex dst src >>> 2 &&& 1) (makeModrm modDirect (UInt8.ofNat src) (UInt8.ofNat dst) >>> 3 &&& 7) = src := by
  decide +kernel

def stackRex (reg : Fin 16) : UInt8 := if needsRex (UInt8.ofNat reg) then rexB else 0

theorem push_byte : ∀ reg : Fin 16, opPushReg + (UInt8.ofNat reg &&& 7) ≠ 0xC3 ∧
    (opPushReg + (UInt8.ofNat reg &&& 7)) &&& 0xF8 = 0x50 ∧ (opPushReg + (UInt8.ofNat reg &&& 7)) &&& 0xF0 ≠ 0x40 ∧
    register (stackRex reg &&& 1) ((opPushReg + (UInt8.ofNat reg &&& 7)) &&& 7) = reg := by
  decide +kernel

theorem pop_byte : ∀ reg : Fin 16, opPopReg + (UInt8.ofNat reg &&& 7) ≠ 0xC3 ∧
    (opPopReg + (UInt8.ofNat reg &&& 7)) &&& 0xF8 = 0x58 ∧ (opPopReg + (UInt8.ofNat reg &&& 7)) &&& 0xF0 ≠ 0x40 ∧
    register (stackRex reg &&& 1) ((opPopReg + (UInt8.ofNat reg &&& 7)) &&& 7) = reg := by
  decide +kernel

section
variable {rex opcode modrm : UInt8} {rest : List UInt8}

theorem decodeOpcode_push (other : opcode ≠ 0xC3) (push : opcode &&& 0xF8 = 0x50) :
    decodeOpcode rex (opcode::rest) = some (.push (register (rex &&& 1) (opcode &&& 7)),rest) := by
  rw [decodeOpcode,if_neg other,if_pos push]

theorem decodeOpcode_pop (other : opcode ≠ 0xC3) (pop : opcode &&& 0xF8 = 0x58) :
    decodeOpcode rex (opcode::rest) = some (.pop (register (rex &&& 1) (opcode &&& 7)),rest) := by
  have notPush : opcode &&& 0xF8 ≠ 0x50 := by
    rw [pop]
    decide
  rw [decodeOpcode,if_neg other,if_neg notPush,if_pos pop]

theorem decodeOpcode_mov (wide : rex &&& 8 ≠ 0) (direct : modrm >>> 6 = 3) :
    decodeOpcode rex (opMovRmReg::modrm::rest) =
      some (.mov (register (rex &&& 1) (modrm &&& 7)) (register (rex >>> 2 &&& 1) (modrm >>> 3 &&& 7)),rest) := by
  rw [decodeOpcode,if_neg (by decide),if_neg (by decide),if_neg (by decide)]
  exact if_pos ⟨rfl,wide,direct⟩

theorem decode_prefixed (prefixed : rex &&& 0xF0 = 0x40) : decodeOne (rex::rest) = decodeOpcode rex rest := if_pos prefixed
theorem decode_plain (plain : opcode &&& 0xF0 ≠ 0x40) :
    decodeOne (opcode::rest) = decodeOpcode 0 (opcode::rest) := if_neg plain

end

theorem decode_stack (reg : Fin 16) (opcode : UInt8) (plain : (opcode + (UInt8.ofNat reg &&& 7)) &&& 0xF0 ≠ 0x40)
    (rest : List UInt8) :
    decodeOne (stackCode opcode reg ++ rest) = decodeOpcode (stackRex reg) ((opcode + (UInt8.ofNat reg &&& 7))::rest) := by
  unfold stackCode stackRex
  split
  · exact decode_prefixed (by decide)
  · exact decode_plain plain

theorem decode_code (instr : Instr) (rest : List UInt8) : decodeOne (instr.code ++ rest) = some (instr,rest) := by
  cases instr with
  | ret => exact decode_plain (by decide)
  | push reg =>
    obtain ⟨other,push,plain,number⟩ := push_byte reg
    rw [Instr.code,decode_stack reg _ plain,decodeOpcode_push other push,number]
  | pop reg =>
    obtain ⟨other,pop,plain,number⟩ := pop_byte reg
    rw [Instr.code,decode_stack reg _ plain,decodeOpcode_pop other pop,number]
  | mov dst src =>
    obtain ⟨prefixed,wide,direct,dest,source⟩ := mov_bytes dst src
    rw [Instr.code,List.cons_append,decode_prefixed prefixed]
    refine (decodeOpcode_mov wide direct).trans ?_
    rw [dest,source]
    rfl

theorem code_length (instr : Instr) : 0 < instr.code.length := by
  cases instr <;> simp [Instr.code,stackCode]

-- Uniquely decodable: the code of a program is the code of no other.
theorem decode_program (program : List Instr) (n : Nat) (enough : program.length ≤ n) :
    decode n (program.flatMap Instr.code) = some program := by
  induction program generalizing n with
  | nil => cases n <;> rfl
  | cons instr program ih =>
    cases n with
    | zero => cases enough
    | succ n =>
      have later := ih n (Nat.le_of_succ_le_succ enough)
      have first := decode_code instr (program.flatMap Instr.code)
      rw [List.flatMap_cons]
      cases split : instr.code ++ program.flatMap Instr.code with
      | nil =>
        have longer := code_length instr
        rw [List.append_eq_nil_iff.mp split |>.1] at longer
        cases longer
      | cons b code =>
        rw [split] at first
        rw [decode,first]
        exact congrArg (Option.map (instr::·)) later

def registerName (reg : Fin 16) : Str := registerNames.getD reg []

def Instr.words : Instr → List Str
  | .ret => [bytes "ret"]
  | .push reg => [bytes "push",registerName reg]
  | .pop reg => [bytes "pop",registerName reg]
  | .mov dst src => [bytes "mov",registerName dst,registerName src]

def Separators (gap : Str) : Prop := ∀ c ∈ gap, isSeparator c = true
def Word (word : Str) : Prop := word ≠ [] ∧ ∀ c ∈ word, isSeparator c = false ∧ isText c = true

inductive Spelled : List Str → Str → Prop
  | last {word gap : Str} (all : Separators gap) : Spelled [word] (word ++ gap)
  | more {word gap line : Str} {words : List Str} (all : Separators gap) (parts : gap ≠ []) (later : Spelled words line) :
    Spelled (word::words) (word ++ (gap ++ line))

structure Writes (line : Str) (instr : Instr) : Prop where
  spelled : ∃ lead rest, line = lead ++ rest ∧ (∀ c ∈ lead, isBlank c = true) ∧ Spelled instr.words rest
  length : line.length ≤ 255

-- One instruction a line. The last line may end with the text.
inductive Source : Str → List Instr → Prop
  | nothing : Source [] []
  | last {line : Str} (written : Writes line instr) : Source line [instr]
  | more {line ending : Str} (written : Writes line instr) (ends : ending ∈ [[0x0A],[0x0D],[0x0D,0x0A]]) (later : Source text program) :
    Source (line ++ (ending ++ text)) (instr::program)

theorem parseRegister_name : ∀ reg : Fin 16, parseRegister (registerName reg) = some (UInt8.ofNat reg) := by decide +kernel

theorem registerName_word (reg : Fin 16) : Word (registerName reg) := by
  revert reg
  unfold Word
  decide +kernel

theorem words_are_words (instr : Instr) : ∀ word ∈ instr.words, Word word := by
  have mnemonics : Word (bytes "ret") ∧ Word (bytes "push") ∧ Word (bytes "pop") ∧ Word (bytes "mov") := by
    unfold Word
    decide +kernel
  cases instr <;> simp [Instr.words,mnemonics,registerName_word]

theorem encode_words (instr : Instr) : encode instr.words = .code instr.code := by
  cases instr with
  | ret => rfl
  | push reg =>
    change encodeStack opPushReg (registerName reg) = _
    rw [encodeStack,parseRegister_name]
    rfl
  | pop reg =>
    change encodeStack opPopReg (registerName reg) = _
    rw [encodeStack,parseRegister_name]
    rfl
  | mov dst src =>
    change encodeMov (registerName dst) (registerName src) = _
    rw [encodeMov,parseRegister_name,parseRegister_name]
    rfl

section
variable {first gap lead line rest : Str} {words : List Str}

-- `stops`: behind the word the line ends, or a separator follows.
theorem word_append (letters : Word first) (stops : isSeparator (rest.headD 0x20) = true) :
    word (first ++ rest) = first := by
  have inside : ∀ c ∈ first, (!isSeparator c) = true := fun c member => by rw [(letters.2 c member).1]; rfl
  rw [word,List.takeWhile_append_of_pos inside]
  cases rest with
  | nil => exact List.append_nil first
  | cons c rest =>
    have stops' : isSeparator c = true := stops
    simp [stops']

theorem afterWord_append (letters : Word first) (stops : isSeparator (rest.headD 0x20) = true) :
    afterWord (first ++ rest) = rest.tail := by
  have inside : ∀ c ∈ first, (!isSeparator c) = true := fun c member => by rw [(letters.2 c member).1]; rfl
  rw [afterWord,List.dropWhile_append_of_pos inside]
  cases rest with
  | nil => rfl
  | cons c rest =>
    have stops' : isSeparator c = true := stops
    simp [stops']

theorem Separators.head (all : Separators gap) (parts : gap ≠ []) (line : Str) :
    isSeparator ((gap ++ line).headD 0x20) = true := by
  cases gap with
  | nil => exact absurd rfl parts
  | cons c gap => exact all c List.mem_cons_self

theorem Separators.end_head (all : Separators gap) : isSeparator (gap.headD 0x20) = true := by
  cases gap with
  | nil => rfl
  | cons c gap => exact all c List.mem_cons_self

theorem Separators.tail (all : Separators gap) : Separators gap.tail := fun c member => all c (List.mem_of_mem_tail member)

theorem operands_gap (all : Separators gap) (left : Nat) : operands left gap = [] := by
  have skipped : gap.dropWhile isSeparator = [] := List.dropWhile_eq_nil_iff.mpr all
  cases left with
  | zero => rfl
  | succ left => rw [operands,skipped]

theorem operands_word (all : Separators gap) (letters : Word first) (stops : isSeparator (rest.headD 0x20) = true)
    (left : Nat) :
    operands (left+1) (gap ++ (first ++ rest)) = first::operands left rest.tail := by
  have here := word_append letters stops
  have behind := afterWord_append letters stops
  rw [operands,List.dropWhile_append_of_pos all]
  cases first with
  | nil => exact absurd rfl letters.1
  | cons c letters' =>
    have inside := (letters.2 c List.mem_cons_self).1
    rw [List.cons_append] at here behind ⊢
    rw [List.dropWhile_cons_of_neg (by rw [inside]; exact Bool.false_ne_true)]
    simp only [here,behind]

theorem operands_spelled (spelled : Spelled words line) (letters : ∀ word ∈ words, Word word) (all : Separators gap)
    (left : Nat) (few : words.length ≤ left) : operands left (gap ++ line) = words := by
  induction spelled generalizing gap left with
  | @last first behind separators =>
    cases left with
    | zero => cases few
    | succ left =>
      rw [operands_word all (letters first List.mem_cons_self) separators.end_head,operands_gap separators.tail]
  | @more first behind line words separators parts later ih =>
    cases left with
    | zero => cases few
    | succ left =>
      have rest := ih (fun word member => letters word (List.mem_cons_of_mem _ member)) separators.tail left (Nat.le_of_succ_le_succ few)
      rw [operands_word all (letters first List.mem_cons_self) (separators.head parts line),List.tail_append_of_ne_nil parts,rest]

theorem tokens_spelled (spelled : Spelled words rest) (letters : ∀ word ∈ words, Word word)
    (blank : ∀ c ∈ lead, isBlank c = true)
    (few : words.length ≤ 4) : tokens (lead ++ rest) = words := by
  have starts : ∀ first rest, Word first → (first ++ rest).dropWhile isBlank = first ++ rest := by
    intro first rest letters
    cases first with
    | nil => exact absurd rfl letters.1
    | cons c first =>
      have inside := (letters.2 c List.mem_cons_self).1
      rw [isSeparator,Bool.or_eq_false_iff] at inside
      rw [List.cons_append]
      exact List.dropWhile_cons_of_neg (by rw [inside.1]; exact Bool.false_ne_true)
  rw [tokens,List.dropWhile_append_of_pos blank]
  cases spelled with
  | @last first gap separators =>
    have letters := letters first List.mem_cons_self
    simp only [starts first gap letters,word_append letters separators.end_head,afterWord_append letters separators.end_head,
      operands_gap separators.tail]
  | @more first gap line words separators parts later =>
    have wordLetters := letters first List.mem_cons_self
    have stops := separators.head parts line
    have others := operands_spelled later (fun word member => letters word (List.mem_cons_of_mem _ member)) separators.tail 3
      (Nat.le_of_succ_le_succ few)
    simp only [starts first _ wordLetters,word_append wordLetters stops,afterWord_append wordLetters stops,
      List.tail_append_of_ne_nil parts,others]

theorem separator_isText (c : UInt8) (separator : isSeparator c = true) : isText c = true := by
  simp only [isSeparator,isBlank,Bool.or_eq_true,decide_eq_true_eq] at separator
  rcases separator with (rfl | rfl) | rfl <;> rfl

theorem Spelled.all_text (spelled : Spelled words line) (letters : ∀ word ∈ words, Word word) :
    ∀ c ∈ line, isText c = true := by
  induction spelled with
  | @last first gap separators =>
    intro c member
    rcases List.mem_append.mp member with inside | behind
    · exact ((letters first List.mem_cons_self).2 c inside).2
    · exact separator_isText c (separators c behind)
  | @more first gap line words separators parts later ih =>
    intro c member
    simp only [List.mem_append] at member
    rcases member with inside | between | behind
    · exact ((letters first List.mem_cons_self).2 c inside).2
    · exact separator_isText c (separators c between)
    · exact ih (fun word member => letters word (List.mem_cons_of_mem _ member)) c behind

theorem Spelled.length_le (spelled : Spelled words line) : words.flatten.length ≤ line.length := by
  induction spelled with
  | last separators => simp
  | more separators parts later ih =>
    simp only [List.flatten_cons,List.length_append]
    omega

end

section
variable {line ending : Str} {instr : Instr} {program : List Instr}

theorem Writes.all_text (written : Writes line instr) : ∀ c ∈ line, isText c = true := by
  obtain ⟨lead,rest,rfl,blank,spelled⟩ := written.spelled
  intro c member
  rcases List.mem_append.mp member with before | behind
  · exact separator_isText c (by rw [isSeparator,blank c before,Bool.true_or])
  · exact spelled.all_text (words_are_words instr) c behind

theorem Writes.tokens (written : Writes line instr) : tokens line = instr.words := by
  obtain ⟨lead,rest,rfl,blank,spelled⟩ := written.spelled
  exact tokens_spelled spelled (words_are_words instr) blank (by cases instr <;> simp [Instr.words])

theorem code_le_words : (∀ instr ∈ [Instr.push,Instr.pop], ∀ reg, (instr reg).code.length ≤ (instr reg).words.flatten.length) ∧
    ∀ dst src, (Instr.mov dst src).code.length ≤ (Instr.mov dst src).words.flatten.length := by
  decide +kernel

theorem Writes.length_le (written : Writes line instr) : instr.code.length ≤ line.length := by
  have longer : instr.code.length ≤ instr.words.flatten.length := by
    cases instr with
    | ret => decide
    | push reg => exact code_le_words.1 Instr.push (by simp) reg
    | pop reg => exact code_le_words.1 Instr.pop (by simp) reg
    | mov dst src => exact code_le_words.2 dst src
  obtain ⟨lead,rest,rfl,_,spelled⟩ := written.spelled
  have inside := spelled.length_le
  simp only [List.length_append]
  omega

theorem Writes.head (written : Writes line instr) (text : Str) :
    isBlank ((line ++ text).headD 0) = true ∨ (line ++ text).headD 0 ∈ bytes "rpm" := by
  obtain ⟨lead,rest,rfl,blank,spelled⟩ := written.spelled
  cases lead with
  | cons c lead => exact .inl (blank c List.mem_cons_self)
  | nil =>
    right
    cases instr <;> cases spelled <;> simp [bytes]

theorem Source.head (source : Source text program) : text.headD 0 ≠ 0x0A := by
  have notLf : ∀ {c : UInt8}, isBlank c = true ∨ c ∈ bytes "rpm" → c ≠ 0x0A := by
    rintro c starts rfl
    revert starts
    decide
  cases source with
  | nothing => decide
  | last written =>
    have starts := written.head []
    rw [List.append_nil] at starts
    exact notLf starts
  | more written ends later => exact notLf (written.head _)

theorem Source.next (source : Source text program) (ends : ending ∈ [[0x0A],[0x0D],[0x0D,0x0A]]) :
    skipByte 0x0A (skipByte 0x0D (ending ++ text)) = text := by
  have skipped : skipByte 0x0A text = text := by
    cases text with
    | nil => rfl
    | cons c text => exact if_neg source.head
  simp only [List.mem_cons,List.not_mem_nil,or_false] at ends
  rcases ends with rfl | rfl | rfl
  · rfl
  · exact skipped
  · rfl

theorem round_writes {s : State} (written : Writes line instr) (place : s.lineStart = line ++ ending)
    (stops : isText (ending.headD 0) = false) :
    ∃ t, Next assembleFrom s t ∧ t.lineStart = skipByte 0x0A (skipByte 0x0D ending) ∧ t.code = s.code ++ instr.code := by
  have whole : wholeLine s.lineStart = line := by
    rw [place,wholeLine,List.takeWhile_append_of_pos written.all_text]
    cases ending with
    | nil => exact List.append_nil line
    | cons c ending =>
      have stops' : isText c = false := stops
      simp [stops']
  have left : s.lineStart.dropWhile isText = ending := by
    rw [place,List.dropWhile_append_of_pos written.all_text]
    cases ending with
    | nil => rfl
    | cons c ending =>
      have stops' : isText c = false := stops
      simp [stops']
  have copied : lineCopy s.lineStart = line := by
    rw [lineCopy,whole]
    exact List.take_of_length_le written.length
  have starts := written.head []
  rw [List.append_nil] at starts
  have nonempty : line ≠ [] := by
    rintro rfl
    revert starts
    decide
  have first : (line ++ ending).headD 0 = line.headD 0 := by
    cases line with
    | nil => exact absurd rfl nonempty
    | cons c line => rfl
  have kept : ∀ {c : UInt8}, isBlank c = true ∨ c ∈ bytes "rpm" → c ≠ 0 ∧ c ≠ 0x3B ∧ c ≠ 0x23 := by
    intro c starts
    refine ⟨?_,?_,?_⟩
    all_goals
      rintro rfl
      revert starts
      decide
  obtain ⟨more,semicolon,hash⟩ := kept starts
  have looked : ¬isSkipped line = true := by
    intro skipped
    rcases (isSkipped_iff line).mp skipped with h | h | h
    · exact nonempty h
    · exact semicolon h
    · exact hash h
  refine ⟨(s.print (.line line s.lineNum)).advance instr.code,?_,?_,rfl⟩
  · intro fuel
    rw [assembleFrom,if_neg (by rw [place,first]; exact more)]
    simp only [copied,if_neg looked,written.tokens,encode_words]
  · change nextLine s.lineStart = _
    rw [nextLine,left]

theorem source_assembled (source : Source text program) {s : State} (place : s.lineStart = text) :
    ∃ t, (∀ fuel, text.length < fuel → assembleFrom s fuel = some t) ∧ t.code = s.code ++ program.flatMap Instr.code := by
  induction source generalizing s with
  | nothing =>
    refine ⟨s,?_,(List.append_nil _).symm⟩
    intro fuel enough
    obtain ⟨rounds,rfl⟩ := Nat.exists_eq_succ_of_ne_zero (Nat.ne_of_gt enough)
    exact ended (by rw [place]; rfl) rounds
  | @last instr line written =>
    obtain ⟨t,next,behind,code⟩ := @round_writes line [] instr s written (by rw [place,List.append_nil]) rfl
    refine ⟨t,?_,by rw [code,List.flatMap_singleton]⟩
    intro fuel enough
    have long : 0 < line.length := Nat.lt_of_lt_of_le (code_length instr) written.length_le
    obtain ⟨rounds,rfl⟩ : ∃ rounds, fuel = rounds + 2 := ⟨fuel - 2,by omega⟩
    rw [next,ended (by rw [behind]; rfl)]
  | @more instr text program line ending written ends later ih =>
    have stops : isText ((ending ++ text).headD 0) = false := by
      simp only [List.mem_cons,List.not_mem_nil,or_false] at ends
      rcases ends with rfl | rfl | rfl <;> rfl
    obtain ⟨t,next,behind,code⟩ := @round_writes line (ending ++ text) instr s written place stops
    rw [later.next ends] at behind
    obtain ⟨u,comes,codes⟩ := ih behind
    refine ⟨u,?_,by rw [codes,code,List.flatMap_cons,List.append_assoc]⟩
    intro fuel enough
    simp only [List.length_append] at enough
    have long : 0 < line.length := Nat.lt_of_lt_of_le (code_length instr) written.length_le
    obtain ⟨rounds,rfl⟩ := Nat.exists_eq_succ_of_ne_zero (Nat.ne_of_gt (Nat.zero_lt_of_lt enough))
    rw [next]
    exact comes rounds (by omega)

theorem Source.code_length_le (source : Source text program) : (program.flatMap Instr.code).length ≤ text.length := by
  induction source with
  | nothing => exact Nat.le_refl _
  | last written =>
    rw [List.flatMap_singleton]
    exact written.length_le
  | more written ends later ih =>
    have first := written.length_le
    simp only [List.flatMap_cons,List.length_append]
    omega

theorem program_length_le (program : List Instr) : program.length ≤ (program.flatMap Instr.code).length := by
  induction program with
  | nil => exact Nat.le_refl _
  | cons instr program ih =>
    have first := code_length instr
    rw [List.flatMap_cons,List.length_append,List.length_cons]
    omega

end

-- A program of such lines is assembled to bytes that the processor reads as that program, no
-- more of them than there are characters in the text.
theorem assembled_code_decodes (text : Str) (program : List Instr) (source : Source text program) :
    ∃ s, (∀ fuel, text.length < fuel → assemble text fuel = some s) ∧
      decode s.code.length s.code = some program ∧ s.code.length ≤ text.length := by
  obtain ⟨s,comes,code⟩ := source_assembled source (s := ⟨text,1,[],[]⟩) rfl
  rw [List.nil_append] at code
  refine ⟨s,comes,?_,?_⟩
  · rw [code]
    exact decode_program program _ (program_length_le program)
  · rw [code]
    exact source.code_length_le

theorem assembled_code_decodes_three_lines :
    ∃ s, (∀ fuel, (bytes "push r9\x0A mov rax, rbx\x0D\x0Aret").length < fuel → assemble (bytes "push r9\x0A mov rax, rbx\x0D\x0Aret") fuel = some s) ∧
      decode s.code.length s.code = some [.push 9,.mov 0 3,.ret] ∧ s.code.length ≤ (bytes "push r9\x0A mov rax, rbx\x0D\x0Aret").length := by
  have separators : Separators [0x20] ∧ Separators [0x2C,0x20] ∧ Separators [] := by
    simp [Separators,isSeparator,isBlank]
  have push : Writes (bytes "push r9") (.push 9) :=
    ⟨⟨[],_,rfl,by simp,.more separators.1 (by decide) (.last separators.2.2)⟩,by decide⟩
  have mov : Writes (bytes " mov rax, rbx") (.mov 0 3) :=
    ⟨⟨[0x20],_,rfl,by simp [isBlank],.more separators.1 (by decide) (.more separators.2.1 (by decide) (.last separators.2.2))⟩,by decide⟩
  have ret : Writes (bytes "ret") .ret := ⟨⟨[],_,rfl,by simp,.last separators.2.2⟩,by decide⟩
  have lf : ([0x0A] : Str) ∈ [[0x0A],[0x0D],[0x0D,0x0A]] := by decide
  have crLf : ([0x0D,0x0A] : Str) ∈ [[0x0A],[0x0D],[0x0D,0x0A]] := by decide
  exact assembled_code_decodes _ _ (.more push lf (.more mov crLf (.last ret)))

end SantOS.Sasm
