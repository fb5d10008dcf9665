import SantOS.Sedit.Saves

namespace SantOS.Sedit
open ArrayShifts CStrings Fat12 FlatText

def pieces (text : Str) : List Str := text.splitOn 10
def keptLine (piece : Str) : Str := (piece.filter (· ≠ 13)).take (maxLineLen - 1)

structure Loaded (rows : Rows) (lineCount : Nat) (text : Str) : Prop where
  count : lineCount = min maxLines (pieces text).length
  lines : ∀ i < lineCount, Spells (rows i) (keptLine ((pieces text).getD i []))

section
variable {rows : Rows} {row : Row} {text l cur last : Str} {done init : List Str} {e : Editor}

theorem parse_bytes (below : lc < maxLines) (starts : Starts (rows lc) cur) (short : cur.length ≤ maxLineLen - 1)
    (noLf : 10 ∉ l)
    (rest : Str) : ∃ row, Starts row ((cur ++ l.filter (· ≠ 13)).take (maxLineLen - 1)) ∧
      parseFrom rows lc cur.length (l ++ rest) =
        parseFrom (Function.update rows lc row) lc ((cur ++ l.filter (· ≠ 13)).take (maxLineLen - 1)).length rest := by
  induction l generalizing rows cur with
  | nil =>
    refine ⟨rows lc,?_,?_⟩
    · rw [List.filter_nil,List.append_nil,List.take_of_length_le short]
      exact starts
    · rw [Function.update_eq_self,List.filter_nil,List.append_nil,List.take_of_length_le short,List.nil_append]
  | cons b l ih =>
    have notLf : b ≠ 10 := fun same => noLf (same ▸ List.mem_cons_self)
    have others : 10 ∉ l := fun later => noLf (List.mem_cons_of_mem _ later)
    rw [List.cons_append,parseFrom,if_pos below,if_neg notLf]
    by_cases cr : b = 13
    · rw [if_pos cr,List.filter_cons_of_neg (by simp [cr])]
      exact ih starts short others
    · rw [if_neg cr,List.filter_cons_of_pos (by simp [cr])]
      by_cases room : cur.length < maxLineLen - 1
      · have stored : Starts (Function.update rows lc (Function.update (rows lc) cur.length b) lc) (cur ++ [b]) := by
          rw [Function.update_self]
          exact starts.push b
        have longer : (cur ++ [b]).length = cur.length + 1 := by rw [List.length_append,List.length_singleton]
        obtain ⟨row,begun,parsed⟩ := ih stored (by omega) others
        rw [Function.update_idem,longer,List.append_assoc,List.singleton_append] at parsed
        rw [List.append_assoc,List.singleton_append] at begun
        have inside : lc < maxLines ∧ cur.length < maxLineLen := ⟨below,by omega⟩
        rw [if_pos room,store,if_pos inside]
        exact ⟨row,begun,parsed⟩
      · have full (more : Str) : (cur ++ more).take (maxLineLen - 1) = cur := by
          rw [List.take_append_of_le_length (by omega),List.take_of_length_le short]
        have same := ih starts short others
        rw [full] at same ⊢
        rw [if_neg room]
        exact same

theorem kept_length (l : Str) : (keptLine l).length ≤ maxLineLen - 1 := List.length_take_le ..

theorem kept_no_nul (noNul : 0 ∉ l) : 0 ∉ keptLine l := fun member => noNul (List.mem_of_mem_filter (List.mem_of_mem_take member))

theorem parse_piece (rows : Rows) (below : lc < maxLines) (noLf : 10 ∉ l) (rest : Str) :
    ∃ row, Starts row (keptLine l) ∧
      parseFrom rows lc 0 (l ++ rest) = parseFrom (Function.update rows lc row) lc (keptLine l).length rest := by
  have untouched : Starts (rows lc) [] := nofun
  exact parse_bytes below untouched (Nat.zero_le _) noLf rest

theorem parse_pieces (holds : ArrayShifts.Holds Spells rows done) (noLf : ∀ l ∈ init, 10 ∉ l) (noNul : ∀ l ∈ init, 0 ∉ l)
    (few : done.length + init.length ≤ maxLines) (rest : Str) :
    ∃ rows', ArrayShifts.Holds Spells rows' (done ++ init.map keptLine) ∧
      parseFrom rows done.length 0 (ended 10 init ++ rest) = parseFrom rows' (done.length + init.length) 0 rest := by
  induction init generalizing rows done with
  | nil =>
    rw [List.map_nil,List.append_nil]
    exact ⟨rows,holds,rfl⟩
  | cons l init ih =>
    rw [List.length_cons] at few
    have below : done.length < maxLines := by omega
    have shape : ended 10 (l::init) ++ rest = l ++ 10::(ended 10 init ++ rest) := by simp [ended]
    obtain ⟨row,starts,parsed⟩ := parse_piece rows below (noLf l List.mem_cons_self) (10::(ended 10 init ++ rest))
    have short := kept_length l
    have inside : done.length < maxLines ∧ (keptLine l).length < maxLineLen := ⟨below,by unfold maxLineLen at *; omega⟩
    have spells := starts.ended (kept_no_nul (noNul l List.mem_cons_self))
    obtain ⟨rows',final,ran⟩ := ih (holds.push spells) (fun m later => noLf m (List.mem_cons_of_mem _ later))
      (fun m later => noNul m (List.mem_cons_of_mem _ later)) (by rw [List.length_append,List.length_singleton]; omega)
    rw [List.length_append,List.length_singleton,Nat.add_assoc,Nat.add_comm 1] at ran
    rw [List.append_assoc] at final
    rw [shape,parsed,parseFrom,if_pos below,if_pos rfl,store,if_pos inside,Function.update_self,Function.update_idem]
    exact ⟨rows',final,ran⟩

theorem parse_full (rows : Rows) (col : Nat) (rest : Str) : parseFrom rows maxLines col rest = some (rows,maxLines,col) := by
  cases rest with
  | nil => rfl
  | cons b rest => exact if_neg (Nat.lt_irrefl _)

theorem ends_break (init : List Str) (noLf : 10 ∉ last) :
    (ended 10 init ++ last).getLast? = some 10 ↔ last = [] ∧ init ≠ [] := by
  by_cases empty : last = []
  · rw [empty,List.append_nil]
    constructor
    · rintro same
      refine ⟨rfl,?_⟩
      rintro rfl
      cases same
    · rintro ⟨_,some_⟩
      obtain ⟨front,l,rfl⟩ := (List.eq_nil_or_concat init).resolve_left some_
      simp [ended]
  · rw [List.getLast?_append_of_ne_nil _ empty]
    constructor
    · intro same
      exact absurd (List.mem_of_getLast? same) noLf
    · rintro ⟨same,_⟩
      exact absurd same empty

theorem loaded_of (holds : ArrayShifts.Holds Spells rows (((pieces text).take maxLines).map keptLine)) :
    Loaded rows (min maxLines (pieces text).length) text := by
  refine ⟨rfl,?_⟩
  intro i below
  have inside : i < (pieces text).length := by omega
  refine holds i _ ?_
  rw [List.getElem?_map,List.getElem?_take_of_lt (by omega),List.getElem?_eq_getElem inside,List.getD_eq_getElem _ _ inside]
  rfl

def lastPiece (text : Str) : Str := (pieces text).getLastD []

structure Lined (text : Str) (init : List Str) (last : Str) : Prop where
  whole : text = ended 10 init ++ last
  split_ : pieces text = init ++ [last]
  noLf : ∀ l ∈ init, 10 ∉ l
  noLfLast : 10 ∉ last
  noNul : ∀ l ∈ init, 0 ∉ l
  noNulLast : 0 ∉ last

theorem lined (noNul : 0 ∉ text) : ∃ init last, Lined text init last := by
  obtain ⟨init,last,whole,split_,noLf,noLfLast⟩ := split_ended (10 : UInt8) text
  refine ⟨init,last,whole,split_,noLf,noLfLast,?_,?_⟩
  · intro l member nul
    exact noNul (by rw [whole]; exact List.mem_append_left _ (List.mem_flatMap.mpr ⟨l,member,List.mem_append_left _ nul⟩))
  · exact fun nul => noNul (by rw [whole]; exact List.mem_append_right _ nul)

theorem Lined.length (lined : Lined text init last) : (pieces text).length = init.length + 1 := by
  rw [lined.split_,List.length_append]
  rfl

theorem Lined.lastPiece (lined : Lined text init last) : lastPiece text = last := by
  rw [Sedit.lastPiece,lined.split_]
  simp

theorem Lined.ends_break (lined : Lined text init last) : text.getLast? = some 10 ↔ last = [] ∧ init ≠ [] := by
  rw [lined.whole]
  exact Sedit.ends_break init lined.noLfLast

-- A newline ends the file when all rows are taken.
def Overfull (text : Str) : Prop := maxLines < (pieces text).length ∧ lastPiece text = []

-- Behind the last newline there are only CRs.
def Unseen (text : Str) : Prop :=
  1 < (pieces text).length ∧ (pieces text).length ≤ maxLines ∧ lastPiece text ≠ [] ∧ ∀ c ∈ lastPiece text, c = 13

instance (text : Str) : Decidable (Overfull text) := inferInstanceAs (Decidable (_ ∧ _))
instance (text : Str) : Decidable (Unseen text) := inferInstanceAs (Decidable (_ ∧ _ ∧ _ ∧ _))

theorem parse_long (rows : Rows) (lined : Lined text init last) (long : maxLines ≤ init.length) :
    (last = [] → parseLines rows text = none) ∧
    (last ≠ [] → ∃ rows', parseLines rows text = some (rows',maxLines) ∧ Loaded rows' maxLines text) := by
  have length : (init.take maxLines).length = maxLines := List.length_take_of_le long
  have nonempty : init ≠ [] := List.ne_nil_of_length_pos (Nat.lt_of_lt_of_le (by decide) long)
  have start : ArrayShifts.Holds Spells rows [] := nofun
  have front : ∀ l ∈ init.take maxLines, 10 ∉ l := fun l member => lined.noLf l (List.mem_of_mem_take member)
  obtain ⟨rows',holds,ran⟩ := parse_pieces start front (fun l member => lined.noNul l (List.mem_of_mem_take member))
    (by rw [length]; exact Nat.le_of_eq (Nat.zero_add _)) (ended 10 (init.drop maxLines) ++ last)
  have all : ended 10 (init.take maxLines) ++ (ended 10 (init.drop maxLines) ++ last) = text := by
    rw [← List.append_assoc,ended,ended,← List.flatMap_append,List.take_append_drop]
    exact lined.whole.symm
  have looped : parseFrom rows 0 0 text = some (rows',maxLines,0) := by
    rw [all,length,List.length_nil,Nat.zero_add] at ran
    exact ran.trans (parse_full rows' 0 _)
  unfold parseLines
  rw [looped]
  constructor
  · intro empty
    have stores : 0 > 0 ∨ text.getLast? = some 10 := .inr (lined.ends_break.mpr ⟨empty,nonempty⟩)
    simp only [if_pos stores,store,if_neg (fun inside : maxLines < maxLines ∧ 0 < maxLineLen => Nat.lt_irrefl _ inside.1)]
    rfl
  · intro some_
    have done : ¬ (0 > 0 ∨ text.getLast? = some 10) := by
      rintro (absurd_ | last_)
      · exact absurd absurd_ (Nat.lt_irrefl 0)
      · exact some_ (lined.ends_break.mp last_).1
    have counted : min maxLines (pieces text).length = maxLines := by
      rw [lined.length]
      exact Nat.min_eq_left (Nat.le_add_right_of_le long)
    have kept : ((pieces text).take maxLines).map keptLine = (init.take maxLines).map keptLine := by
      rw [lined.split_,List.take_append_of_le_length long]
    rw [List.nil_append,← kept] at holds
    have loaded := loaded_of holds
    rw [counted] at loaded
    refine ⟨rows',?_,loaded⟩
    simp only [if_neg done]
    rfl

theorem Lined.stored (lined : Lined text init last) (below : init.length < maxLines)
    (holds : ArrayShifts.Holds Spells rows (init.map keptLine))
    (starts : Starts row (keptLine last)) :
    Loaded (Function.update rows init.length (Function.update row (keptLine last).length 0)) (init.length + 1) text := by
  have counted : min maxLines (pieces text).length = init.length + 1 := by
    rw [lined.length]
    exact Nat.min_eq_right below
  have all : ((pieces text).take maxLines).map keptLine = init.map keptLine ++ [keptLine last] := by
    rw [lined.split_,List.take_of_length_le (by rw [List.length_append,List.length_singleton]; exact below),List.map_append]
    rfl
  have final := holds.push (starts.ended (kept_no_nul lined.noNulLast))
  rw [List.length_map,← all] at final
  have loaded := loaded_of final
  rwa [counted] at loaded

theorem parse_short (rows : Rows) (lined : Lined text init last) (below : init.length < maxLines) :
    (keptLine last ≠ [] ∨ last = [] ∨ init = [] → ∃ rows', parseLines rows text = some (rows',init.length + 1) ∧
      Loaded rows' (init.length + 1) text) ∧
    (keptLine last = [] → last ≠ [] → init ≠ [] → ∃ rows', parseLines rows text = some (rows',init.length)) := by
  have start : ArrayShifts.Holds Spells rows [] := nofun
  obtain ⟨rows',holds,ran⟩ := parse_pieces start lined.noLf lined.noNul
    (by rw [List.length_nil,Nat.zero_add]; exact Nat.le_of_lt below) last
  rw [List.length_nil,Nat.zero_add,← lined.whole] at ran
  obtain ⟨row,starts,parsed⟩ := parse_piece rows' below lined.noLfLast []
  rw [List.append_nil] at parsed
  have looped := ran.trans parsed
  rw [parseFrom] at looped
  have short := kept_length last
  have inside : init.length < maxLines ∧ (keptLine last).length < maxLineLen := ⟨below,by unfold maxLineLen at *; omega⟩
  have stored := lined.stored below holds starts
  unfold parseLines
  rw [looped]
  constructor
  · intro seen
    by_cases stores : (keptLine last).length > 0 ∨ text.getLast? = some 10
    · refine ⟨_,?_,stored⟩
      simp only [if_pos stores,store,if_pos inside,Function.update_self,Function.update_idem]
      exact if_neg (Nat.succ_ne_zero _)
    · obtain ⟨nothing,open_⟩ := not_or.mp stores
      have noneKept : keptLine last = [] := List.eq_nil_of_length_eq_zero (Nat.eq_zero_of_not_pos nothing)
      have one : init = [] := by
        rcases seen with some_ | empty | one
        · exact absurd noneKept some_
        · exact by_contra fun more => open_ (lined.ends_break.mpr ⟨empty,more⟩)
        · exact one
      subst one
      rw [noneKept] at stored
      refine ⟨_,?_,stored⟩
      simp only [if_neg stores,List.length_nil,if_true,store]
      rw [if_pos ⟨by decide,by decide⟩,Function.update_self,Function.update_idem]
      rfl
  · intro nothing some_ more
    have open_ : ¬ ((keptLine last).length > 0 ∨ text.getLast? = some 10) := by
      rintro (kept | last_)
      · rw [nothing] at kept
        exact absurd kept (Nat.lt_irrefl 0)
      · exact some_ (lined.ends_break.mp last_).1
    refine ⟨Function.update rows' init.length row,?_⟩
    simp only [if_neg open_]
    exact if_neg (fun none_ => more (List.eq_nil_of_length_eq_zero none_))

theorem kept_nil_iff (piece : Str) : keptLine piece = [] ↔ ∀ c ∈ piece, c = 13 := by
  unfold keptLine
  rw [List.take_eq_nil_iff]
  simp [maxLineLen,List.filter_eq_nil_iff]

-- Every text but the two kinds is parsed to its lines, and no store is outside the array.
theorem parseLines_iff (rows : Rows) (noNul : 0 ∉ text) :
    (∃ rows' n, parseLines rows text = some (rows',n) ∧ Loaded rows' n text) ↔ ¬ Overfull text ∧ ¬ Unseen text := by
  obtain ⟨init,last,lined⟩ := lined noNul
  have length := lined.length
  unfold Overfull Unseen
  rw [lined.lastPiece,length]
  by_cases long : maxLines ≤ init.length
  · obtain ⟨full,fits⟩ := parse_long rows lined long
    by_cases empty : last = []
    · rw [full empty]
      constructor
      · rintro ⟨rows',n,absurd_,_⟩
        cases absurd_
      · rintro ⟨room,_⟩
        exact absurd ⟨Nat.lt_succ_of_le long,empty⟩ room
    · obtain ⟨rows',ran,loaded⟩ := fits empty
      refine ⟨fun _ => ⟨fun full_ => empty full_.2,fun unseen => ?_⟩,fun _ => ⟨rows',_,ran,loaded⟩⟩
      have few := unseen.2.1
      omega
  · obtain ⟨seen,hidden⟩ := parse_short rows lined (Nat.lt_of_not_le long)
    by_cases kept : keptLine last ≠ [] ∨ last = [] ∨ init = []
    · obtain ⟨rows',ran,loaded⟩ := seen kept
      refine ⟨fun _ => ⟨fun full_ => ?_,?_⟩,fun _ => ⟨rows',_,ran,loaded⟩⟩
      · have many := full_.1
        omega
      · rintro ⟨more,_,some_,crs⟩
        rcases kept with bytes | empty | one
        · exact bytes ((kept_nil_iff last).mpr crs)
        · exact some_ empty
        · rw [one] at more
          exact absurd more (Nat.lt_irrefl 1)
    · obtain ⟨nothing,others⟩ := not_or.mp kept
      obtain ⟨some_,more⟩ := not_or.mp others
      have crs := (kept_nil_iff last).mp (by_contra nothing)
      obtain ⟨rows',ran⟩ := hidden (by_contra nothing) some_ more
      rw [ran]
      constructor
      · rintro ⟨_,n,same,loaded⟩
        cases same
        have count := loaded.count
        rw [length] at count
        omega
      · rintro ⟨_,unseen⟩
        have positive := List.length_pos_iff.mpr more
        exact absurd ⟨by omega,by omega,some_,crs⟩ unseen

-- Opening a file that is read as the text, however long.
theorem load_file_lines_iff (e : Editor) {disk u : Driver} {fname : Str} {buf : Nat → UInt8}
    (read : syscallReadFile disk fname (fun _ => 0) (32768 - 1) = some (((text.length : Nat) : Int),buf,u))
    (content : (List.range text.length).map buf = text) (noNul : 0 ∉ text) :
    (∃ e', loadFile e fname disk = some (0,e',u) ∧ Loaded e'.lines e'.lineCount text) ↔ ¬ Overfull text ∧ ¬ Unseen text := by
  have loading : loadFile e fname disk =
      (parseLines e.lines text).map (fun parsed => (0,{e with lines := parsed.1, lineCount := parsed.2},u)) := by
    unfold loadFile
    rw [read]
    dsimp only
    rw [if_neg (by omega),Int.toNat_natCast,content]
    cases parseLines e.lines text with
    | none => rfl
    | some parsed => rfl
  rw [loading,← parseLines_iff e.lines noNul]
  constructor
  · rintro ⟨e',ran,loaded⟩
    obtain ⟨parsed,found,result⟩ := Option.map_eq_some_iff.mp ran
    cases result
    exact ⟨_,_,found,loaded⟩
  · rintro ⟨rows',n,found,loaded⟩
    exact ⟨_,by rw [found]; rfl,loaded⟩

theorem load_file_lines_iff_letter : ∃ t e' u, loadFile emptyEditor [0x41] t = some (0,e',u) ∧ Loaded e'.lines e'.lineCount [97,10] := by
  obtain ⟨t,_,back⟩ := blank_saves letter_valid (by decide) (by decide)
  obtain ⟨out,u,ran,bytes⟩ := back 32767 (fun _ => 0)
  have content : (List.range 2).map out = [97,10] := by
    rw [show List.range 2 = [0,1] from rfl,List.map_cons,List.map_cons,List.map_nil,bytes 0 (by decide),bytes 1 (by decide)]
    rfl
  have loads := (@load_file_lines_iff [97,10] emptyEditor _ _ _ _ ran content (by decide)).mpr (by decide)
  obtain ⟨e',loaded,same⟩ := loads
  exact ⟨t,e',u,loaded,same⟩

theorem newlines_outside (rows : Rows) (full : n = maxLines) : parseLines rows (List.replicate n 10) = none := by
  have lines : ended (10 : UInt8) (List.replicate n []) = List.replicate n 10 := by
    rw [ended,List.flatMap_replicate,List.nil_append]
    exact List.flatten_replicate_singleton
  have plain : ∀ l ∈ List.replicate n ([] : Str), Plain l := by
    intro l member
    rw [List.eq_of_mem_replicate member]
    exact ⟨by decide,List.not_mem_nil,List.not_mem_nil,List.not_mem_nil⟩
  have length : (List.replicate n ([] : Str)).length = n := List.length_replicate ..
  have some_ : List.replicate n ([] : Str) ≠ [] := List.ne_nil_of_length_pos (by rw [length,full]; decide)
  have outside := parse_saved rows plain some_ (by rw [length]; exact Nat.le_of_eq full)
  rwa [if_neg (by rw [length,full]; decide),lines] at outside

theorem thousand_newlines :
    ∃ t, ReadsBack t [0x41] (fun i => (List.replicate 1000 10).getD i 0) 1000 ∧ loadFile emptyEditor [0x41] t = none := by
  have named : Nameable [0x41] := by decide
  obtain ⟨t,_,back⟩ := blank_takes named (by decide : 0 < 1000) (by decide) (fun i => (List.replicate 1000 10).getD i 0)
  refine ⟨t,back,?_⟩
  have length : (List.replicate 1000 (10 : UInt8)).length = 1000 := List.length_replicate ..
  have whole : ReadsBack t [0x41] (fun i => (List.replicate 1000 10).getD i 0) (List.replicate 1000 (10 : UInt8)).length := by
    rw [length]
    exact back
  have fits : (List.replicate 1000 (10 : UInt8)).length ≤ saveLimit + 1 := by
    rw [length]
    decide
  obtain ⟨u,loaded⟩ := load_saved whole fits emptyEditor
  rw [loaded,newlines_outside (n := 1000) _ rfl]
  rfl

end

end SantOS.Sedit
