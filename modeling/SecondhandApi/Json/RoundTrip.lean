import SecondhandApi.Json.Bounds
import Mathlib.Data.List.TakeWhile

/-! `JSON.parse` reads every value back from its text, and no string from its own. -/
namespace Json
open JavaScript (Number)

/-- The values that a text of JSON can show: finite numbers, and objects as JavaScript has them. -/
inductive Representable : Value → Prop
  | null : Representable .null
  | bool (b : Bool) : Representable (.bool b)
  | number {q : Rat} (stored : Stored q) : Representable (.number (.finite q))
  | string (s : Text) : Representable (.string s)
  | array {vs : List Value} (all : ∀ v ∈ vs, Representable v) : Representable (.array vs)
  | object {entries : List (Text × Value)} (ordered : Ordered entries)
      (all : ∀ e ∈ entries, Representable e.2) : Representable (.object entries)

/-! Properties in their order. -/

section Properties
variable {α : Type}

theorem define_last {entries : List (Text × α)} {key : Text}
    (before : ∀ k ∈ entries.map Prod.fst, Precedes k key) (v : α) :
    define entries key v = entries ++ [(key, v)] := by
  have new : key ∉ entries.map Prod.fst := fun listed => (before key listed).1 rfl
  unfold define
  rw [if_neg new]
  split
  next => rfl
  next i index =>
    have smaller : ∀ e ∈ entries, (arrayIndex e.1).any (· < i) := by
      intro e listed
      obtain ⟨j, given, less⟩ := (before e.1 (List.mem_map_of_mem listed)).2 i index
      simp [Option.mem_def.mp given, less]
    simp [List.takeWhile_eq_self_iff.mpr smaller, List.dropWhile_eq_nil_iff.mpr smaller]

theorem foldl_define {entries : List (Text × α)} (ordered : Ordered entries) :
    entries.foldl (fun done e => define done e.1 e.2) [] = entries := by
  induction entries using List.reverseRecOn with
  | nil => rfl
  | append_singleton entries e ih =>
    simp only [Ordered, List.map_append, List.pairwise_append] at ordered
    rw [List.foldl_append, ih ordered.1, List.foldl_cons, List.foldl_nil]
    exact define_last (fun k listed => ordered.2.2 k listed e.1 (by simp)) e.2

theorem lookup_replace_self {entries : List (Text × α)} {key : Text}
    (listed : key ∈ entries.map Prod.fst) (v : α) :
    (entries.map fun e => if e.1 = key then (key, v) else e).lookup key = some v := by
  induction entries with
  | nil => cases listed
  | cons e entries ih =>
    obtain ⟨name, old⟩ := e
    by_cases here : name = key
    · simp [here]
    · have later : key ∈ entries.map Prod.fst := by simpa [Ne.symm here] using listed
      have apart : (key == name) = false := beq_false_of_ne (Ne.symm here)
      simp [here, List.lookup_cons, apart, ih later]

theorem lookup_replace_other (entries : List (Text × α)) {key k : Text} (other : k ≠ key) (v : α) :
    (entries.map fun e => if e.1 = key then (key, v) else e).lookup k = entries.lookup k := by
  have apart : (k == key) = false := beq_false_of_ne other
  induction entries with
  | nil => rfl
  | cons e entries ih =>
    obtain ⟨name, old⟩ := e
    by_cases here : name = key
    · simp [here, List.lookup_cons, apart, ih]
    · simp [here, List.lookup_cons, ih]

/-- Defining a property changes this one only. -/
theorem lookup_define (entries : List (Text × α)) (key k : Text) (v : α) :
    (define entries key v).lookup k = if k = key then some v else entries.lookup k := by
  unfold define
  by_cases listed : key ∈ entries.map Prod.fst
  · rw [if_pos listed]
    split_ifs with same
    · exact same ▸ lookup_replace_self listed v
    · exact lookup_replace_other entries same v
  · have inserted (front back : List (Text × α)) (split : front ++ back = entries) :
        (front ++ (key, v) :: back).lookup k = if k = key then some v else entries.lookup k := by
      have new : front.lookup key = none := by
        refine List.lookup_eq_none_iff.mpr fun e among => ?_
        have other : e.1 ≠ key := fun same =>
          listed (same ▸ List.mem_map_of_mem (split ▸ List.mem_append_left back among))
        simpa using other.symm
      split_ifs with same
      · simp [List.lookup_append, same, new]
      · have apart : (k == key) = false := beq_false_of_ne same
        simp [← split, List.lookup_append, List.lookup_cons, apart]
    rw [if_neg listed]
    split
    · exact inserted entries [] (List.append_nil entries)
    · exact inserted _ _ List.takeWhile_append_dropWhile

end Properties

/-! Lists. -/

theorem skip_cons {c : UInt16} (mark : blank c = false) (t : Text) : skip (c :: t) = c :: t := by
  simp [skip, mark]

theorem expect_here {c : UInt16} (mark : blank c = false) (t : Text) :
    expect c (c :: t) = some t := by
  simp [expect, skip_cons mark]

theorem expect_other {c d : UInt16} (mark : blank d = false) (other : d ≠ c) (t : Text) :
    expect c (d :: t) = none := by
  simp [expect, skip_cons mark, other]

/-- Nothing that could continue a value stands in front of the text. -/
def Closed (t : Text) : Prop := ∀ c ∈ t.head?, c = unit ',' ∨ c = unit ']' ∨ c = unit '}'

theorem Closed.nil : Closed [] := by
  intro c first
  cases first

theorem Closed.ended {t : Text} (closed : Closed t) : Ended t := by
  intro c first
  rcases closed c first with rfl | rfl | rfl <;> decide

/-- The text starts with a character that neither a blank nor the end of a list is. -/
def Opens (t : Text) : Prop :=
  ∃ c cs, t = c :: cs ∧ blank c = false ∧ c ≠ unit ']' ∧ c ≠ unit '}'

theorem count_le_commas {ts : List Text} (opens : ∀ t ∈ ts, Opens t) :
    ts.length ≤ (commas ts).length := by
  induction ts using commas.induct with
  | case1 => simp
  | case2 t =>
    obtain ⟨c, cs, rfl, -⟩ := opens t (by simp)
    simp [commas]
  | case3 t ts _ ih =>
    have := ih fun s listed => opens s (List.mem_cons_of_mem t listed)
    simp only [commas, List.length_append, List.length_cons]
    omega

section Lists
variable {α : Type} {item : Reader α} {write : α → Text} {close : UInt16}

/-- Each of the items is read from its text, whatever part of a list follows. -/
def Reads (item : Reader α) (write : α → Text) (a : α) : Prop :=
  ∀ t, Closed t → item (write a ++ t) = some (a, t)

theorem items_commas (ends : close = unit ']' ∨ close = unit '}') (t : Text) {a : α} {as : List α}
    (reads : ∀ b ∈ a :: as, Reads item write b) {n : Nat} (bound : as.length < n) :
    items item close n (commas ((a :: as).map write) ++ close :: t) = some (a :: as, t) := by
  have mark : blank close = false ∧ close ≠ unit ',' := by
    rcases ends with rfl | rfl <;> decide
  obtain ⟨m, rfl⟩ : ∃ m, n = m + 1 := ⟨n - 1, by omega⟩
  induction as generalizing a m with
  | nil =>
    have closed : Closed (close :: t) := by
      intro c first
      cases first
      exact .inr ends
    simp [items, commas, reads a (by simp) _ closed, expect_other mark.1 mark.2,
      expect_here mark.1]
  | cons b as ih =>
    have closed (t : Text) : Closed (unit ',' :: t) := by
      intro c first
      cases first
      exact .inl rfl
    obtain ⟨k, rfl⟩ : ∃ k, m = k + 1 := ⟨m - 1, by simp at bound; omega⟩
    have rest := ih (fun c listed => reads c (List.mem_cons_of_mem a listed)) k
      (by simp at bound; omega)
    have comma (t : Text) : expect (unit ',') (unit ',' :: t) = some t :=
      expect_here (by decide) t
    simp only [List.map_cons] at rest
    rw [items]
    simp [commas, reads a (by simp) _ (closed _), comma, rest]

theorem listUpTo_commas (ends : close = unit ']' ∨ close = unit '}') (t : Text) {as : List α}
    (reads : ∀ a ∈ as, Reads item write a) (opens : ∀ a ∈ as, Opens (write a)) :
    listUpTo item close (commas (as.map write) ++ close :: t) = some (as, t) := by
  cases as with
  | nil =>
    have mark : blank close = false := by rcases ends with rfl | rfl <;> decide
    simp [listUpTo, commas, expect_here mark]
  | cons a as =>
    have count := @count_le_commas ((a :: as).map write) (by simpa using opens)
    have bound : as.length < (commas ((a :: as).map write) ++ close :: t).length := by
      simp only [List.length_map, List.length_cons, List.length_append] at count ⊢
      omega
    have none : expect close (commas ((a :: as).map write) ++ close :: t) = none := by
      obtain ⟨c, cs, first, mark, bracket, brace⟩ := opens a (by simp)
      have other : c ≠ close := by rcases ends with rfl | rfl <;> assumption
      cases as <;> simp [commas, first, expect_other mark other]
    simp only [listUpTo, none, items_commas ends t reads bound]

end Lists

/-! Values. -/

theorem elementTexts_eq (vs : List Value) : elementTexts vs = vs.map stringify := by
  induction vs with
  | nil => rfl
  | cons v vs ih => simp [elementTexts, ih]

theorem memberTexts_eq (entries : List (Text × Value)) :
    memberTexts entries = entries.map fun e => memberText e.1 (stringify e.2) := by
  induction entries with
  | nil => rfl
  | cons e entries ih => simp [memberTexts, ih]

/-- A number starts with its sign or a digit. -/
theorem numberText_head {q : Rat} (stored : Stored q) :
    ∃ c cs, numberText (.finite q) = c :: cs ∧ (c = unit '-' ∨ ∃ d < 10, c = digitUnit d) := by
  simp only [numberText]
  split_ifs with negative
  · exact ⟨_, _, rfl, .inl rfl⟩
  · obtain ⟨d, digit, cs, first⟩ :=
      numeral_text_head (numeral_spec (not_lt.mp negative) stored.exact).1
    exact ⟨_, cs, first, .inr ⟨d, digit, rfl⟩⟩

/-- What else a value can start with. -/
def marks : Text := [unit '"', unit '[', unit '{', unit 'n', unit 't', unit 'f', unit ']', unit '}']

theorem number_start {c : UInt16} (h : c = unit '-' ∨ ∃ d < 10, c = digitUnit d) :
    blank c = false ∧ c ∉ marks := by
  have digits : ∀ d < 10, blank (digitUnit d) = false ∧ digitUnit d ∉ marks := by decide
  rcases h with rfl | ⟨d, digit, rfl⟩
  · decide
  · exact digits d digit

theorem stringify_opens {v : Value} (h : Representable v) : Opens (stringify v) := by
  cases h with
  | null => exact ⟨_, _, rfl, by decide⟩
  | bool b => cases b <;> exact ⟨_, _, rfl, by decide⟩
  | number stored =>
    obtain ⟨c, cs, first, start⟩ := numberText_head stored
    obtain ⟨mark, other⟩ := number_start start
    exact ⟨c, cs, first, mark, (ne_of_mem_of_not_mem (by decide) other).symm,
      (ne_of_mem_of_not_mem (by decide) other).symm⟩
  | string s => exact ⟨_, _, rfl, by decide⟩
  | array all => exact ⟨_, _, rfl, by decide⟩
  | object ordered all => exact ⟨_, _, rfl, by decide⟩

theorem memberText_opens (key value : Text) : Opens (memberText key value) :=
  ⟨_, _, rfl, by decide⟩

theorem member_text {value : Reader Value} {v : Value} (reads : Reads value stringify v)
    (key : Text) : Reads (member value) (fun e => memberText e.1 (stringify e.2)) (key, v) := by
  intro t closed
  have mark : blank (unit '"') = false ∧ blank (unit ':') = false := by decide
  simp [member, memberText, quote, expect_here mark.1, expect_here mark.2, unquote_quoteUnits,
    reads t closed]

theorem readValue_literal (value : Reader Value) {l : Text × Value} (h : l ∈ literals) (t : Text) :
    readValue value (l.1 ++ t) = some (l.2, t) := by
  simp only [literals, List.mem_cons, List.not_mem_nil, or_false] at h
  rcases h with rfl | rfl | rfl <;> rfl

theorem readValue_number (value : Reader Value) {c : UInt16}
    (h : c = unit '-' ∨ ∃ d < 10, c = digitUnit d) (cs : Text) :
    readValue value (c :: cs) = (readNumber (c :: cs)).map fun p => (.number p.1, p.2) := by
  obtain ⟨mark, other⟩ := number_start h
  have none : (literals.find? fun l => l.1.isPrefixOf (c :: cs)) = none := by
    have letters : ∀ l ∈ literals, ∃ m ∈ marks, ∃ rest, l.1 = m :: rest := by
      simp only [literals, List.forall_mem_cons]
      exact ⟨⟨unit 'n', by decide, _, rfl⟩, ⟨unit 't', by decide, _, rfl⟩,
        ⟨unit 'f', by decide, _, rfl⟩, by simp⟩
    refine List.find?_eq_none.mpr fun l listed => ?_
    obtain ⟨m, among, rest, first⟩ := letters l listed
    simp [first, ne_of_mem_of_not_mem among other]
  have quotation : c ≠ unit '"' := (ne_of_mem_of_not_mem (by decide) other).symm
  have bracket : c ≠ unit '[' := (ne_of_mem_of_not_mem (by decide) other).symm
  have brace : c ≠ unit '{' := (ne_of_mem_of_not_mem (by decide) other).symm
  simp [readValue, skip_cons mark, quotation, bracket, brace, none]

theorem anyValue_stringify {v : Value} (h : Representable v) : Reads anyValue stringify v := by
  induction h with
  | null =>
    intro t _
    rw [anyValue_eq]
    exact readValue_literal _ (l := (ascii "null", .null)) (by simp [literals]) t
  | bool b =>
    intro t _
    rw [anyValue_eq]
    exact readValue_literal _ (l := (word b, .bool b)) (by cases b <;> simp [literals]) t
  | number stored =>
    intro t closed
    obtain ⟨c, cs, first, start⟩ := numberText_head stored
    have read := readNumber_text stored closed.ended
    rw [anyValue_eq, stringify]
    rw [first, List.cons_append] at read ⊢
    rw [readValue_number _ start, read]
    rfl
  | string s =>
    intro t _
    rw [anyValue_eq]
    simp +decide [readValue, stringify, quote, skip_cons, unquote_quoteUnits]
  | @array vs all ih =>
    intro t _
    have list := listUpTo_commas (.inl rfl) t ih fun v listed => stringify_opens (all v listed)
    rw [anyValue_eq]
    simp +decide [readValue, stringify, elementTexts_eq, skip_cons, list]
  | @object entries ordered all ih =>
    intro t _
    have inner : ∀ e ∈ entries, Reads (member anyValue) (fun e => memberText e.1 (stringify e.2)) e :=
      fun e listed => member_text (ih e listed) e.1
    have list := listUpTo_commas (.inr rfl) t inner fun e _ => memberText_opens _ _
    rw [anyValue_eq]
    simp +decide [readValue, stringify, memberTexts_eq, skip_cons, list, foldl_define ordered]

theorem parse_stringify {v : Value} (h : Representable v) : parse (stringify v) = some v := by
  have read := anyValue_stringify h [] Closed.nil
  rw [List.append_nil] at read
  rw [parse_eq, read, Option.bind_some]
  exact if_pos rfl

theorem readValue_string {value : Reader Value} {t s rest : Text}
    (h : readValue value t = some (.string s, rest)) : s.length < t.length := by
  have shorter := skip_length t
  unfold readValue at h
  split at h
  next => cases h
  next c cs first =>
    rw [first, List.length_cons] at shorter
    split_ifs at h
    · obtain ⟨p, found, same⟩ := Option.map_eq_some_iff.mp h
      cases same
      have := unquote_length found
      omega
    · obtain ⟨p, -, same⟩ := Option.map_eq_some_iff.mp h
      cases same
    · obtain ⟨p, -, same⟩ := Option.map_eq_some_iff.mp h
      cases same
    · split at h
      next l found =>
        have listed := List.mem_of_find?_eq_some found
        simp only [literals, List.mem_cons, List.not_mem_nil, or_false] at listed
        rcases listed with rfl | rfl | rfl <;> cases h
      next =>
        obtain ⟨p, -, same⟩ := Option.map_eq_some_iff.mp h
        cases same

/-- No string is read from a text that is the string itself. -/
theorem parse_ne_self (s : Text) : parse s ≠ some (.string s) := by
  intro h
  obtain ⟨⟨v, rest⟩, read, ended⟩ := Option.bind_eq_some_iff.mp h
  split_ifs at ended
  cases ended
  exact absurd (readValue_string read) (lt_irrefl _)

end Json
