import SantOS.Library.ByteMemory
import SantOS.Library.FormatStrings
import SantOS.Library.Words
import SantOS.Shell.Text

namespace SantOS.Shell
open ByteMemory CStrings FormatStrings Words

-- The static strtok_state and the memory of the strings. A pointer is an address.
structure Cursor where
  memory : Memory
  strtokState : Option Nat

def isDelim (c : UInt8) : Str → Bool
  | [] => false
  | d::delim => if c = d then true else isDelim c delim

def skipDelims (delim : Str) (m : Memory) : Nat → Nat → Option Nat
  | 0,_ => none
  | fuel+1,p => if m p = 0 then some p else if isDelim (m p) delim then skipDelims delim m fuel (p+1) else some p

def findEnd (delim : Str) (m : Memory) : Nat → Nat → Option Cursor
  | 0,_ => none
  | fuel+1,p =>
    if m p = 0 then some ⟨m,none⟩
    else if isDelim (m p) delim then some ⟨Function.update m p 0,some (p+1)⟩
    else findEnd delim m fuel (p+1)

def strtok (s : Cursor) (str : Option Nat) (delim : Str) (fuel : Nat) : Option (Option Nat × Cursor) :=
  match str.or s.strtokState with
  | none => some (none,s)
  | some p =>
    match skipDelims delim s.memory fuel p with
    | none => none
    | some tokenStart =>
      if s.memory tokenStart = 0 then some (none,⟨s.memory,none⟩)
      else (findEnd delim s.memory fuel tokenStart).map (fun t => (some tokenStart,t))

def nextTokens (delim : Str) (fuel : Nat) : Nat → Cursor → Option (List (Option Nat) × Cursor)
  | 0,s => some ([],s)
  | n+1,s => (strtok s none delim fuel).bind (fun (token,s) => (nextTokens delim fuel n s).map (fun (tokens,s) => (token::tokens,s)))

def allTokens (s : Cursor) (str : Nat) (delim : Str) (fuel n : Nat) : Option (List (Option Nat) × Cursor) :=
  (strtok s (some str) delim fuel).bind (fun (token,s) => (nextTokens delim fuel n s).map (fun (tokens,s) => (token::tokens,s)))

structure CString (m : Memory) (p : Nat) (text : Str) : Prop where
  stands : Stands m p (text ++ [0])
  noNul : 0 ∉ text

section
variable {m : Memory} {delim text gap w : Str}

def breaks (delim : Str) (c : UInt8) : Bool := decide (c ∈ delim)

theorem isDelim_breaks (c : UInt8) (delim : Str) : isDelim c delim = breaks delim c := by
  induction delim with
  | nil => rfl
  | cons d delim ih =>
    rw [isDelim,ih]
    by_cases same : c = d <;> simp [breaks,same]

theorem CString.behind {first rest : Str} (string : CString m p (first ++ rest)) : CString m (p + first.length) rest := by
  obtain ⟨stands,noNul⟩ := string
  rw [List.append_assoc,stands_append] at stands
  exact ⟨stands.2,fun member => noNul (List.mem_append_right _ member)⟩

theorem CString.first {first rest : Str} (string : CString m p (first ++ rest)) : Stands m p first := by
  obtain ⟨stands,_⟩ := string
  rw [List.append_assoc,stands_append] at stands
  exact stands.1

theorem CString.head {c : UInt8} (string : CString m p (c::text)) : m p = c ∧ c ≠ 0 := by
  refine ⟨string.stands.1,?_⟩
  rintro rfl
  exact string.noNul List.mem_cons_self

theorem CString.tail {c : UInt8} (string : CString m p (c::text)) : CString m (p+1) text := by
  rw [← List.singleton_append] at string
  exact string.behind

theorem CString.nul (string : CString m p []) : m p = 0 := string.stands.1

theorem CString.congr {m' : Memory} (string : CString m p text)
    (same : ∀ a, p ≤ a → a < p + (text.length + 1) → m' a = m a) : CString m' p text :=
  ⟨stands_congr string.stands (by simpa using same),string.noNul⟩

theorem skip_gap (delims : ∀ c ∈ gap, breaks delim c = true) (string : CString m p (gap ++ text)) (fuel : Nat) :
    skipDelims delim m (fuel + gap.length) p = skipDelims delim m fuel (p + gap.length) := by
  induction gap generalizing p with
  | nil => rfl
  | cons c gap ih =>
    obtain ⟨here,nonzero⟩ := string.head
    have later := ih (fun d member => delims d (List.mem_cons_of_mem _ member)) string.tail
    rw [List.length_cons,← Nat.add_assoc,skipDelims,here,if_neg nonzero,isDelim_breaks,if_pos (delims c List.mem_cons_self),later]
    congr 1
    omega

theorem find_plain (plain : ∀ c ∈ w, breaks delim c = false) (string : CString m p (w ++ text)) (fuel : Nat) :
    findEnd delim m (fuel + w.length) p = findEnd delim m fuel (p + w.length) := by
  induction w generalizing p with
  | nil => rfl
  | cons c w ih =>
    obtain ⟨here,nonzero⟩ := string.head
    have later := ih (fun d member => plain d (List.mem_cons_of_mem _ member)) string.tail
    have letter : ¬breaks delim c = true := by simp [plain c List.mem_cons_self]
    rw [List.length_cons,← Nat.add_assoc,findEnd,here,if_neg nonzero,isDelim_breaks,if_neg letter,later]
    congr 1
    omega

theorem skip_ends (delims : ∀ c ∈ gap, breaks delim c = true) (string : CString m p (gap ++ text))
    (stop : ∀ c ∈ text.head?, breaks delim c = false)
    (enough : gap.length < fuel) : skipDelims delim m fuel p = some (p + gap.length) := by
  obtain ⟨left,rfl⟩ := Nat.exists_eq_add_of_lt enough
  have rounds : gap.length + left + 1 = left + 1 + gap.length := by omega
  have rest := string.behind
  rw [rounds,skip_gap delims string,skipDelims]
  cases text with
  | nil => rw [if_pos rest.nul]
  | cons c text =>
    have letter : ¬breaks delim c = true := by simp [stop c rfl]
    rw [rest.head.1,if_neg rest.head.2,isDelim_breaks,if_neg letter]

theorem find_nul (plain : ∀ c ∈ w, breaks delim c = false) (string : CString m p w) (enough : w.length < fuel) :
    findEnd delim m fuel p = some ⟨m,none⟩ := by
  obtain ⟨left,rfl⟩ := Nat.exists_eq_add_of_lt enough
  have rounds : w.length + left + 1 = left + 1 + w.length := by omega
  rw [← List.append_nil w] at string
  rw [rounds,find_plain plain string,findEnd,if_pos string.behind.nul]

theorem find_delim {c : UInt8} (plain : ∀ d ∈ w, breaks delim d = false) (stop : breaks delim c = true)
    (string : CString m p (w ++ c::text))
    (enough : w.length < fuel) :
    findEnd delim m fuel p = some ⟨Function.update m (p + w.length) 0,some (p + w.length + 1)⟩ := by
  obtain ⟨left,rfl⟩ := Nat.exists_eq_add_of_lt enough
  have rounds : w.length + left + 1 = left + 1 + w.length := by omega
  have rest := string.behind
  rw [rounds,find_plain plain string,findEnd,rest.head.1,if_neg rest.head.2,isDelim_breaks,if_pos stop]

theorem strtok_from (found : skipDelims delim m fuel p = some tokenStart) :
    strtok ⟨m,some p⟩ none delim fuel =
      if m tokenStart = 0 then some (none,⟨m,none⟩) else (findEnd delim m fuel tokenStart).map (fun t => (some tokenStart,t)) := by
  rw [strtok,Option.none_or]
  dsimp only
  rw [found]

theorem head_plain {w : Str} (plain : ∀ c ∈ w, breaks delim c = false) (some_ : w ≠ []) (text : Str) :
    ∀ c ∈ (w ++ text).head?, breaks delim c = false := by
  cases w with
  | nil => exact absurd rfl some_
  | cons c w => simpa using plain c List.mem_cons_self

theorem CString.nonzero (string : CString m p (w ++ text)) (some_ : w ≠ []) : m p ≠ 0 := by
  cases w with
  | nil => exact absurd rfl some_
  | cons c w =>
    rw [string.head.1]
    exact string.head.2

theorem strtok_blank (delims : ∀ c ∈ gap, breaks delim c = true) (string : CString m p gap) (enough : gap.length < fuel) :
    strtok ⟨m,some p⟩ none delim fuel = some (none,⟨m,none⟩) := by
  rw [← List.append_nil gap] at string
  rw [strtok_from (skip_ends delims string (by simp) enough),if_pos string.behind.nul]

theorem strtok_last (delims : ∀ c ∈ gap, breaks delim c = true) (plain : ∀ c ∈ w, breaks delim c = false) (some_ : w ≠ [])
    (string : CString m p (gap ++ w)) (enough : gap.length + w.length < fuel) :
    strtok ⟨m,some p⟩ none delim fuel = some (some (p + gap.length),⟨m,none⟩) := by
  have word := string.behind
  rw [← List.append_nil w] at string
  have skipped := skip_ends delims string (head_plain plain some_ []) (Nat.lt_of_le_of_lt (Nat.le_add_right ..) enough)
  rw [strtok_from skipped,if_neg (string.behind.nonzero some_),find_nul plain word (Nat.lt_of_le_of_lt (Nat.le_add_left ..) enough)]
  rfl

theorem strtok_more {c : UInt8} (delims : ∀ c ∈ gap, breaks delim c = true) (plain : ∀ c ∈ w, breaks delim c = false)
    (some_ : w ≠ [])
    (stop : breaks delim c = true) (string : CString m p (gap ++ (w ++ c::text))) (enough : gap.length + w.length < fuel) :
    strtok ⟨m,some p⟩ none delim fuel = some (some (p + gap.length),
      ⟨Function.update m (p + gap.length + w.length) 0,some (p + gap.length + w.length + 1)⟩) := by
  have skipped := skip_ends delims string (head_plain plain some_ _) (Nat.lt_of_le_of_lt (Nat.le_add_right ..) enough)
  rw [strtok_from skipped,if_neg (string.behind.nonzero some_),
    find_delim plain stop string.behind (Nat.lt_of_le_of_lt (Nat.le_add_left ..) enough)]
  rfl

theorem CString.cut {c : UInt8} (string : CString m p (w ++ c::text)) :
    CString (Function.update m (p + w.length) 0) p w ∧ CString (Function.update m (p + w.length) 0) (p + w.length + 1) text := by
  have kept (j : Nat) (other : j ≠ p + w.length) : Function.update m (p + w.length) 0 j = m j := Function.update_of_ne other ..
  have rest := string.behind.tail
  refine ⟨⟨stands_append .. |>.mpr ⟨?_,Function.update_self ..,trivial⟩,?_⟩,?_,rest.noNul⟩
  · exact stands_congr string.first fun j _ high => kept j (by omega)
  · exact fun member => string.noNul (List.mem_append_left _ member)
  · exact stands_congr rest.stands fun j low _ => kept j (by omega)

def pointers (str : Nat) (words : List (Nat × Str)) (n : Nat) : List (Option Nat) :=
  (List.range n).map (fun k => words[k]?.map (fun word => str + word.1))

theorem pointers_nil (str n : Nat) : pointers str [] (n+1) = none::pointers str [] n := by
  rw [pointers,List.range_succ_eq_map,List.map_cons,List.map_map]
  rfl

theorem pointers_cons (str : Nat) (word : Nat × Str) (words : List (Nat × Str)) (n : Nat) :
    pointers str (word::words) (n+1) = some (str + word.1)::pointers str words n := by
  rw [pointers,List.range_succ_eq_map,List.map_cons,List.map_map]
  rfl

theorem nextTokens_step {s t u : Cursor} (call : strtok s none delim fuel = some (token,t))
    (later : nextTokens delim fuel n t = some (found,u)) :
    nextTokens delim fuel (n+1) s = some (token::found,u) := by
  rw [nextTokens,call,Option.bind_some]
  dsimp only
  rw [later]
  rfl

theorem nextTokens_null (delim : Str) (fuel : Nat) (m : Memory) (str n : Nat) :
    nextTokens delim fuel n ⟨m,none⟩ = some (pointers str [] n,⟨m,none⟩) := by
  induction n with
  | zero => rfl
  | succ n ih =>
    rw [pointers_nil]
    exact nextTokens_step rfl ih

-- Every word returned so far can be read, and nothing before the place q has changed.
structure Cut (m u : Memory) (q str : Nat) (words : List (Nat × Str)) (n : Nat) : Prop where
  word : ∀ k < n, ∀ v, words[k]? = some v → CString u (str + v.1) v.2
  before : ∀ a < q, u a = m a

theorem Cut.none (m : Memory) (q str n : Nat) : Cut m m q str [] n := ⟨fun k _ v found => by simp at found,fun _ _ => rfl⟩

theorem nextTokens_words (delim : Str) (string : CString m (str + o) text) (enough : text.length < fuel) (n : Nat) :
    ∃ u, nextTokens delim fuel n ⟨m,some (str + o)⟩ = some (pointers str (wordsFrom (breaks delim) o [] text) n,u) ∧
      Cut m u.memory (str + o) str (wordsFrom (breaks delim) o [] text) n := by
  induction n generalizing m o text with
  | zero => exact ⟨_,rfl,by simp,fun _ _ => rfl⟩
  | succ n ih =>
    cases rest (breaks delim) text with
    | blank _ delims =>
      have none_ : wordsFrom (breaks delim) o [] text = [] := by
        have skipped := wordsFrom_gap delims o []
        rwa [List.append_nil] at skipped
      rw [none_,pointers_nil]
      exact ⟨_,nextTokens_step (strtok_blank delims string enough) (nextTokens_null delim fuel m str n),.none ..⟩
    | last gap w delims plain some_ =>
      rw [List.length_append] at enough
      have word := string.behind
      have one : wordsFrom (breaks delim) o [] (gap ++ w) = [(o + gap.length,w)] := by
        have read := wordsFrom_word plain (o + gap.length) [] []
        rw [List.append_nil,List.nil_append] at read
        rw [wordsFrom_gap delims,read]
        exact if_neg some_
      rw [one,pointers_cons,← Nat.add_assoc]
      refine ⟨_,nextTokens_step (strtok_last delims plain some_ string enough) (nextTokens_null delim fuel m str n),?_,fun _ _ => rfl⟩
      intro k _ v found
      cases k with
      | zero =>
        cases found
        rwa [Nat.add_assoc] at word
      | succ k => simp at found
    | more gap w s c delims plain some_ stop =>
      rw [List.length_append,List.length_append,List.length_cons] at enough
      obtain ⟨word,later⟩ := string.behind.cut
      have first : wordsFrom (breaks delim) o [] (gap ++ (w ++ c::s)) =
          (o + gap.length,w)::wordsFrom (breaks delim) (o + gap.length + w.length + 1) [] s := by
        rw [wordsFrom_gap delims,wordsFrom_word plain,List.nil_append,wordsFrom,if_pos stop,closed,if_neg some_]
        rfl
      have place : str + o + gap.length + w.length + 1 = str + (o + gap.length + w.length + 1) := by omega
      have room : gap.length + w.length < fuel := by omega
      have call := strtok_more delims plain some_ stop string room
      rw [place] at later call
      obtain ⟨u,ran,cut⟩ := ih later (by omega)
      rw [first,pointers_cons,← Nat.add_assoc]
      refine ⟨u,nextTokens_step call ran,?_,?_⟩
      · intro k below v found
        cases k with
        | zero =>
          cases found
          rw [← Nat.add_assoc]
          exact word.congr fun a low high => cut.before a (by omega)
        | succ k => exact cut.word k (Nat.lt_of_succ_lt_succ below) v found
      · intro a low
        have other : a ≠ str + o + gap.length + w.length := by omega
        rw [cut.before a (by omega),Function.update_of_ne other]

-- The calls return the maximal words in their order and then NULL, whatever the cursor was.
theorem strtok_words (delim text : Str) (m : Memory) (str : Nat) (string : CString m str text) (old : Option Nat) :
    ∃ words : List (Nat × Str), (∀ i word, (i,word) ∈ words ↔ Maximal (breaks delim) text i word) ∧
      words.Pairwise (fun v w => v.1 < w.1) ∧
      ∀ fuel > text.length, ∀ n, ∃ u, allTokens ⟨m,old⟩ str delim fuel n = some (pointers str words (n+1),u) ∧
        ∀ k ≤ n, ∀ v, words[k]? = some v → CString u.memory (str + v.1) v.2 := by
  refine ⟨words (breaks delim) text,fun i word => mem_words,wordsFrom_ordered 0 [] text,?_⟩
  intro fuel enough n
  obtain ⟨u,ran,cut⟩ := nextTokens_words (o := 0) delim string enough (n+1)
  exact ⟨u,ran,fun k le => cut.word k (Nat.lt_succ_of_le le)⟩

theorem strtok_words_three : ∃ words : List (Nat × Str),
    (∀ i word, (i,word) ∈ words ↔ Maximal (breaks (bytes " ,")) (bytes ", a b") i word) ∧ words.Pairwise (fun v w => v.1 < w.1) ∧
      ∀ fuel > 5, ∀ n, ∃ u, allTokens ⟨fun a => (bytes ", a b").getD (a - 10) 0,some 3⟩ 10 (bytes " ,") fuel n = some (pointers 10 words (n+1),u) ∧
        ∀ k ≤ n, ∀ v, words[k]? = some v → CString u.memory (10 + v.1) v.2 := by
  have stands : Stands (fun a => (bytes ", a b").getD (a - 10) 0) 10 [0x2C,0x20,0x61,0x20,0x62,0] :=
    ⟨rfl,rfl,rfl,rfl,rfl,rfl,trivial⟩
  exact strtok_words _ _ _ _ ⟨stands,by decide⟩ _

example : (allTokens ⟨fun a => (bytes ", a b").getD (a - 10) 0,some 3⟩ 10 (bytes " ,") 6 3).map Prod.fst = some [some 12,some 14,none,none] := by
  decide

theorem pieces_words (isBreak : UInt8 → Bool) (start : Nat) (word s : Str) :
    pieces isBreak word s = (wordsFrom isBreak start word s).map Prod.snd := by
  induction s generalizing start word with
  | nil =>
    rw [pieces,wordsFrom,closed]
    split <;> rfl
  | cons c s ih =>
    rw [pieces,wordsFrom]
    split
    · rw [closed]
      split
      · exact ih _ _
      · exact congrArg (word::·) (ih _ _)
    · exact ih _ _

theorem tokens_words (text : Str) : tokens text = (words (breaks (bytes " ")) text).map Prod.snd := by
  have space : (fun c : UInt8 => decide (c = 0x20)) = breaks (bytes " ") := by
    funext c
    exact decide_eq_decide.mpr List.mem_singleton.symm
  rw [tokens,space,pieces_words _ 0]
  rfl

-- The tokens of a command line are what the shell reads at the pointers of strtok.
theorem strtok_tokens (string : CString m str text) (old : Option Nat) (enough : text.length < fuel) (n : Nat) :
    ∃ found u, allTokens ⟨m,old⟩ str (bytes " ") fuel n = some (found,u) ∧
      ∀ k ≤ n, (tokens text)[k]? = none ∧ found[k]? = some none ∨
        ∃ word p, (tokens text)[k]? = some word ∧ found[k]? = some (some p) ∧ CString u.memory p word := by
  obtain ⟨u,ran,cut⟩ := nextTokens_words (o := 0) (bytes " ") string enough (n+1)
  refine ⟨_,u,ran,?_⟩
  intro k le
  rw [tokens_words,List.getElem?_map,words,pointers,List.getElem?_map,List.getElem?_range (Nat.lt_succ_of_le le)]
  cases here : (wordsFrom (breaks (bytes " ")) 0 [] text)[k]? with
  | none => exact .inl ⟨rfl,by simp [here]⟩
  | some v => exact .inr ⟨v.2,str + v.1,rfl,by simp [here],cut.word k (Nat.lt_succ_of_le le) v here⟩

theorem afterStrtok_split (text : Str) (spaces : ∀ c ∈ gap, breaks (bytes " ") c = true)
    (plain : ∀ c ∈ w, breaks (bytes " ") c = false)
    (stop : ∀ c ∈ text.head?, breaks (bytes " ") c = true) (some_ : w = [] → text = []) : afterStrtok (gap ++ (w ++ text)) = gap ++ w := by
  have space (c : UInt8) : breaks (bytes " ") c = decide (c = 0x20) := decide_eq_decide.mpr List.mem_singleton
  simp only [space,decide_eq_true_eq,decide_eq_false_iff_not] at spaces plain stop
  have first : ∀ c ∈ (w ++ text).head?, ¬ c = 0x20 := by
    cases w with
    | nil => simp [some_ rfl]
    | cons c w => simpa using plain c List.mem_cons_self
  have behind : (w ++ text).takeWhile (· = 0x20) = [] ∧ (w ++ text).dropWhile (· = 0x20) = w ++ text := by
    cases rest : w ++ text with
    | nil => exact ⟨rfl,rfl⟩
    | cons c s =>
      have letter := first c (by simp [rest])
      simp [letter]
  have last : text.takeWhile (· ≠ 0x20) = [] := by
    cases text with
    | nil => rfl
    | cons c s => simp [stop c rfl]
  rw [afterStrtok,List.takeWhile_append_of_pos (by simpa using spaces),List.dropWhile_append_of_pos (by simpa using spaces),behind.1,behind.2,
    List.takeWhile_append_of_pos (by simpa using plain),last,List.append_nil,List.append_nil]

theorem strtok_leaves (string : CString m str text) (old : Option Nat) (enough : text.length < fuel) :
    ∃ token u, strtok ⟨m,old⟩ (some str) (bytes " ") fuel = some (token,u) ∧ CString u.memory str (afterStrtok text) := by
  have given : strtok ⟨m,old⟩ (some str) (bytes " ") fuel = strtok ⟨m,some str⟩ none (bytes " ") fuel := rfl
  rw [given]
  cases rest (breaks (bytes " ")) text with
  | blank _ delims =>
    have same := afterStrtok_split (w := []) [] delims (by simp) (by simp) (fun _ => rfl)
    rw [List.append_nil,List.append_nil] at same
    rw [same]
    exact ⟨_,_,strtok_blank delims string enough,string⟩
  | last gap w delims plain some_ =>
    have same := afterStrtok_split [] delims plain (by simp) (fun _ => rfl)
    rw [List.append_nil] at same
    rw [same]
    exact ⟨_,_,strtok_last delims plain some_ string (by rwa [List.length_append] at enough),string⟩
  | more gap w s c delims plain some_ stop =>
    have room : gap.length + w.length < fuel := by
      simp at enough
      omega
    rw [afterStrtok_split _ delims plain (by simpa using stop) (fun empty => absurd empty some_)]
    refine ⟨_,_,strtok_more delims plain some_ stop string room,?_⟩
    rw [← List.append_assoc] at string
    have cut := string.cut.1
    rwa [List.length_append,← Nat.add_assoc] at cut

end

end SantOS.Shell
