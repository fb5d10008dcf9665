import Mathlib.Data.List.Basic

namespace FormatStrings

-- A text of plain characters and of conversions: a mark, optional parts that are read as
-- far as they go, and the letter behind them.
inductive Item (α : Type) where
  | plain (c : α)
  | conversion (parts : List α) (letter : α)

section
variable {α : Type} (mark : α) (Parts : List α → Prop)

def Item.text : Item α → List α
  | .plain c => [c]
  | .conversion parts letter => mark::(parts ++ [letter])

def Item.Formed : Item α → Prop
  | .plain c => c ≠ mark
  | .conversion parts letter => Parts parts ∧ ¬Parts (parts ++ [letter])

def spelled (items : List (Item α)) : List α := items.flatMap (Item.text mark)

def Whole (text : List α) : Prop := ∃ items : List (Item α), (∀ item ∈ items, item.Formed mark Parts) ∧ text = spelled mark items

def Unfinished (text : List α) : Prop :=
  ∃ (items : List (Item α)) (parts : List α), (∀ item ∈ items, item.Formed mark Parts) ∧ Parts parts ∧
    text = spelled mark items ++ mark::parts

variable {mark Parts}

theorem Item.text_nonempty (mark : α) (item : Item α) : 0 < (item.text mark).length := by
  cases item <;> simp [Item.text]

theorem spelled_cons (item : Item α) (items : List (Item α)) :
    spelled mark (item::items) = item.text mark ++ spelled mark items := rfl

theorem Whole.cons {item : Item α} (formed : item.Formed mark Parts) (whole : Whole mark Parts text) :
    Whole mark Parts (item.text mark ++ text) := by
  obtain ⟨items,all,rfl⟩ := whole
  exact ⟨item::items,List.forall_mem_cons.mpr ⟨formed,all⟩,rfl⟩

theorem Unfinished.cons {item : Item α} (formed : item.Formed mark Parts) (unfinished : Unfinished mark Parts text) :
    Unfinished mark Parts (item.text mark ++ text) := by
  obtain ⟨items,parts,all,known,rfl⟩ := unfinished
  exact ⟨item::items,parts,List.forall_mem_cons.mpr ⟨formed,all⟩,known,by rw [spelled_cons,List.append_assoc]⟩

-- The parts are read to the end of the text, or up to the first letter they do not go on with.
theorem longest_parts (known : Parts parts) (text : List α) :
    Parts (parts ++ text) ∨ ∃ more letter rest, text = more ++ letter::rest ∧ Parts (parts ++ more) ∧ ¬Parts (parts ++ more ++ [letter]) := by
  induction text generalizing parts with
  | nil => exact .inl (by rwa [List.append_nil])
  | cons c text ih =>
    by_cases further : Parts (parts ++ [c])
    · rcases ih further with all | ⟨more,letter,rest,rfl,longer,stops⟩
      · exact .inl (by rwa [List.append_assoc] at all)
      · refine .inr ⟨c::more,letter,rest,rfl,?_,?_⟩
        · rwa [List.append_assoc] at longer
        · rwa [List.append_assoc parts [c]] at stops
    · exact .inr ⟨[],c,text,rfl,by rwa [List.append_nil],by rwa [List.append_nil]⟩

theorem whole_or_unfinished (empty : Parts []) (text : List α) : Whole mark Parts text ∨ Unfinished mark Parts text := by
  induction length : text.length using Nat.strongRecOn generalizing text with
  | ind n ih =>
    have shorter (item : Item α) (rest : List α) (same : text = item.text mark ++ rest) (formed : item.Formed mark Parts) :
        Whole mark Parts text ∨ Unfinished mark Parts text := by
      have less : rest.length < n := by
        have positive := item.text_nonempty mark
        rw [← length,same,List.length_append]
        omega
      rw [same]
      rcases ih _ less rest rfl with whole | unfinished
      · exact .inl (whole.cons formed)
      · exact .inr (unfinished.cons formed)
    cases text with
    | nil => exact .inl ⟨[],by simp,rfl⟩
    | cons c text =>
      by_cases marked : c = mark
      · subst marked
        rcases longest_parts empty text with all | ⟨more,letter,rest,rfl,longer,stops⟩
        · exact .inr ⟨[],text,by simp,all,rfl⟩
        · exact shorter (.conversion more letter) rest (by simp [Item.text]) ⟨longer,stops⟩
      · exact shorter (.plain c) text rfl marked

end

def Stands {α : Type} (m : Nat → α) (i : Nat) (text : List α) : Prop :=
  match text with
  | [] => True
  | c::text => m i = c ∧ Stands m (i+1) text

theorem stands_append {α : Type} {m : Nat → α} (a b : List α) :
    Stands m i (a ++ b) ↔ Stands m i a ∧ Stands m (i + a.length) b := by
  induction a generalizing i with
  | nil => simp [Stands]
  | cons c a ih =>
    rw [List.cons_append,Stands,Stands,ih,and_assoc,List.length_cons]
    have place : i + 1 + a.length = i + (a.length + 1) := by omega
    rw [place]

theorem stands_congr {α : Type} {m m' : Nat → α} {text : List α} (here : Stands m i text)
    (same : ∀ j, i ≤ j → j < i + text.length → m' j = m j) :
    Stands m' i text := by
  induction text generalizing i with
  | nil => trivial
  | cons c text ih =>
    rw [List.length_cons] at same
    refine ⟨(same i (Nat.le_refl _) (by omega)).trans here.1,ih here.2 ?_⟩
    intro j low high
    exact same j (by omega) (by omega)

-- A loop over a format held in an array: it stops at a NUL where an item should start, and
-- reads an item with no more rounds than the item is long. The letter of a conversion may
-- be the NUL. A run that ends has read the place it started from.
structure Reader {α : Type} (σ : Type) (m : Nat → α) (mark nul : α) (Parts : List α → Prop) where
  run : Nat → σ → Option σ
  place : σ → Nat
  reads : σ → List Nat
  stop : ∀ s fuel, m (place s) = nul → ∃ t, run (fuel+1) s = some t ∧ reads t = place s::reads s
  item : ∀ s fuel (item : Item α), item.Formed mark Parts → item ≠ .plain nul → Stands m (place s) (item.text mark) →
    (item.text mark).length ≤ fuel →
    ∃ t, run (fuel+1) s = run fuel t ∧ place t = place s + (item.text mark).length ∧ ∀ j ∈ reads t, j ∈ reads s ∨ j < place t
  read : ∀ s fuel t, run fuel s = some t → place s ∈ reads t

section
variable {α σ : Type} {m : Nat → α} {mark nul : α} {Parts : List α → Prop} (reader : Reader σ m mark nul Parts) {s : σ}

theorem Reader.items (fuel : Nat) (items : List (Item α)) (formed : ∀ item ∈ items, item.Formed mark Parts)
    (plain : .plain nul ∉ items)
    (here : Stands m (reader.place s) (spelled mark items)) (enough : (spelled mark items).length ≤ fuel) :
    ∃ t, reader.run (fuel + items.length) s = reader.run fuel t ∧ reader.place t = reader.place s + (spelled mark items).length ∧
      ∀ j ∈ reader.reads t, j ∈ reader.reads s ∨ j < reader.place t := by
  induction items generalizing s with
  | nil => exact ⟨s,rfl,rfl,fun j member => .inl member⟩
  | cons item items ih =>
    rw [spelled_cons,stands_append] at here
    rw [spelled_cons,List.length_append] at enough
    obtain ⟨t,first,place,reads⟩ := reader.item s (fuel + items.length) item (formed item List.mem_cons_self)
      (fun same => plain (same ▸ List.mem_cons_self)) here.1 (by omega)
    obtain ⟨u,rest,place',reads'⟩ := @ih t (fun other member => formed other (List.mem_cons_of_mem _ member))
      (fun member => plain (List.mem_cons_of_mem _ member)) (by rw [place]; exact here.2) (by omega)
    refine ⟨u,first.trans rest,by rw [place',place,spelled_cons,List.length_append,Nat.add_assoc],?_⟩
    intro j member
    rcases reads' j member with before | after
    · rcases reads j before with old | new
      · exact .inl old
      · exact .inr (by omega)
    · exact .inr after

-- With enough rounds the run ends, and it has read no place behind the last one.
def Reader.StopsBy (s : σ) (last : Nat) : Prop :=
  ∃ bound, ∀ fuel ≥ bound, ∃ t, reader.run fuel s = some t ∧ ∀ j ∈ reader.reads t, j ≤ last

theorem Reader.whole_stops (noneRead : reader.reads s = []) (noNul : nul ∉ text) (whole : Whole mark Parts text)
    (here : Stands m (reader.place s) (text ++ [nul])) : reader.StopsBy s (reader.place s + text.length) := by
  obtain ⟨items,formed,rfl⟩ := whole
  rw [stands_append] at here
  have plain : .plain nul ∉ items := fun member => noNul (List.mem_flatMap.mpr ⟨_,member,List.mem_singleton.mpr rfl⟩)
  refine ⟨(spelled mark items).length + 1 + items.length,?_⟩
  intro fuel enough
  obtain ⟨left,rfl⟩ : ∃ left, fuel = (left + 1) + items.length := ⟨fuel - items.length - 1,by omega⟩
  obtain ⟨t,ran,place,reads⟩ := reader.items (left + 1) items formed plain here.1 (by omega)
  obtain ⟨u,stopped,reads'⟩ := reader.stop t left (by rw [place]; exact here.2.1)
  refine ⟨u,ran.trans stopped,?_⟩
  intro j member
  rw [reads'] at member
  rcases List.mem_cons.mp member with rfl | before
  · exact Nat.le_of_eq place
  · rcases reads j before with old | new
    · rw [noneRead] at old
      cases old
    · omega

-- At the end of an unfinished conversion the NUL is taken as its letter, and the run goes on.
theorem Reader.unfinished_goes_on (noPart : ∀ parts, ¬Parts (parts ++ [nul])) (noNul : nul ∉ text)
    (unfinished : Unfinished mark Parts text)
    (here : Stands m (reader.place s) (text ++ [nul])) : ¬reader.StopsBy s (reader.place s + text.length) := by
  rintro ⟨bound,ends⟩
  obtain ⟨items,parts,formed,known,rfl⟩ := unfinished
  have all : ∀ item ∈ items ++ [.conversion parts nul], item.Formed mark Parts := by
    intro item member
    rcases List.mem_append.mp member with old | last
    · exact formed item old
    · rw [List.mem_singleton.mp last]
      exact ⟨known,noPart parts⟩
  have plain : .plain nul ∉ items ++ [.conversion parts nul] := by
    intro member
    rcases List.mem_append.mp member with old | last
    · exact noNul (List.mem_append_left _ (List.mem_flatMap.mpr ⟨_,old,List.mem_singleton.mpr rfl⟩))
    · cases List.mem_singleton.mp last
  have text : spelled mark (items ++ [.conversion parts nul]) = spelled mark items ++ mark::parts ++ [nul] := by
    simp [spelled,Item.text]
  rw [← text] at here
  obtain ⟨t,ran,place,_⟩ := reader.items (bound + (spelled mark (items ++ [.conversion parts nul])).length) _ all plain here (by omega)
  obtain ⟨u,ended,reads⟩ := ends _ (Nat.le_add_right_of_le (Nat.le_add_right bound _))
  rw [ran] at ended
  have beyond := reads _ (reader.read _ _ _ ended)
  rw [place,text,List.length_append] at beyond
  have one : ([nul] : List α).length = 1 := rfl
  omega

theorem Reader.stops_iff (noPart : ∀ parts, ¬Parts (parts ++ [nul])) (empty : Parts []) (noneRead : reader.reads s = [])
    (noNul : nul ∉ text) (here : Stands m (reader.place s) (text ++ [nul])) :
    reader.StopsBy s (reader.place s + text.length) ↔ Whole mark Parts text := by
  refine ⟨?_,fun whole => reader.whole_stops noneRead noNul whole here⟩
  intro stops
  rcases whole_or_unfinished empty text with whole | unfinished
  · exact whole
  · exact absurd stops (reader.unfinished_goes_on noPart noNul unfinished here)

end

end FormatStrings
