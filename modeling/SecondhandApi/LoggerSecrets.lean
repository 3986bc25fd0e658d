import SecondhandApi.LoggerConfig
import Mathlib.Logic.Relation

/-! The masked message of a log says nothing about the value of a password: the texts of
`JSON.stringify` are read by an automaton that follows their strings, and where it has a state no
two matches of the expressions for the passwords overlap. -/
namespace SecondhandApi.LoggerConfig
open Json (Text Value unit ascii stringify)

/-! Where a text of `JSON.stringify` has its strings. -/

/-- `value` tells a string behind a colon; after a backslash the next character is `escaped`. -/
inductive Place where
  | outside
  | colon
  | inside (value escaped : Bool)
  | closed (value : Bool)
  deriving DecidableEq

def places : List Place :=
  [.outside, .colon, .inside false false, .inside false true, .inside true false,
    .inside true true, .closed false, .closed true]

theorem mem_places (s : Place) : s ∈ places := by
  cases s with
  | inside value escaped => cases value <;> cases escaped <;> decide
  | closed value => cases value <;> decide
  | _ => decide

/-- A string behind a colon is followed by no colon. After an asterisk the place may count as
escaped, so that a masked text can be read as well. -/
def next : Place → UInt16 → List Place
  | .outside, c => if c = unit '"' then [.inside false false] else [.outside]
  | .colon, c =>
    if c = unit '"' then [.inside true false] else if space c then [.colon] else [.outside]
  | .inside value true, _ => [.inside value false]
  | .inside value false, c =>
    if c = unit '\\' then [.inside value true]
    else if c = unit '"' then [.closed value]
    else if c = unit '*' then [.inside value false, .inside value true]
    else [.inside value false]
  | .closed value, c =>
    if c = unit ':' then (if value then [] else [.colon])
    else if c = unit '"' ∨ c = unit 'p' then [] else [.outside]

/-- The text leads from `s` to `s'`. -/
def Reads (s : Place) (t : Text) (s' : Place) : Prop := s' ∈ Automaton.ends next [s] t

instance (s : Place) (t : Text) (s' : Place) : Decidable (Reads s t s') :=
  inferInstanceAs (Decidable (s' ∈ Automaton.ends next [s] t))

theorem Reads.append {s s' s'' : Place} {t u : Text} (h : Reads s t s') (h' : Reads s' u s'') :
    Reads s (t ++ u) s'' := by
  unfold Reads
  rw [Automaton.ends_append]
  exact Automaton.ends_mono (List.cons_subset.2 ⟨h, List.nil_subset _⟩) u h'

theorem Reads.cons {s s' s'' : Place} {c : UInt16} {t : Text} (h : s' ∈ next s c)
    (h' : Reads s' t s'') : Reads s (c :: t) s'' :=
  Reads.append (t := [c]) (by simpa [Reads] using h) h'

/-- Where a value can begin, and where its text can end. -/
def free : List Place := [.outside, .colon]
def settled : List Place := [.outside, .colon, .closed false, .closed true]

theorem reads_plain {t : Text} (plain : unit '"' ∉ t) : ∀ s ∈ free, ∃ s' ∈ settled, Reads s t s' := by
  intro s hs
  have step : ∀ c ∈ t, ∀ s ∈ free, ∃ s' ∈ free, s' ∈ next s c := by
    intro c hc s hs
    have other : c ≠ unit '"' := (ne_of_mem_of_not_mem hc plain)
    rcases List.mem_pair.1 hs with rfl | rfl
    · exact ⟨.outside, by decide, by simp [next, other]⟩
    · by_cases blank : space c = true
      · exact ⟨.colon, by decide, by simp [next, other, blank]⟩
      · exact ⟨.outside, by decide, by simp [next, other, blank]⟩
  have run : ∃ s' ∈ free, Reads s t s' := by
    clear plain
    induction t generalizing s with
    | nil => exact ⟨s, hs, List.mem_singleton_self s⟩
    | cons c t ih =>
      obtain ⟨s', hs', first⟩ := step c (List.mem_cons_self ..) s hs
      obtain ⟨s'', hs'', rest⟩ := ih s' hs' fun c hc => step c (List.mem_cons_of_mem _ hc)
      exact ⟨s'', hs'', .cons first rest⟩
  obtain ⟨s', hs', run⟩ := run
  exact ⟨s', List.mem_append_left _ hs', run⟩

theorem inside_next (value : Bool) {c : UInt16} (quotation : c ≠ unit '"') (slash : c ≠ unit '\\') :
    Place.inside value false ∈ next (.inside value false) c := by
  by_cases mark : c = unit '*'
  · subst mark
    cases value <;> decide
  · simp [next, quotation, slash, mark]

theorem reads_inside (value : Bool) {t : Text} (quotation : unit '"' ∉ t) (slash : unit '\\' ∉ t) :
    Reads (.inside value false) t (.inside value false) := by
  induction t with
  | nil => exact List.mem_singleton_self _
  | cons c t ih =>
    obtain ⟨quotation, hq⟩ := not_or.1 (List.mem_cons.not.1 quotation)
    obtain ⟨slash, hs⟩ := not_or.1 (List.mem_cons.not.1 slash)
    exact .cons (inside_next value (Ne.symm quotation) (Ne.symm slash)) (ih hq hs)

theorem reads_escape (value : Bool) (c : UInt16) :
    Reads (.inside value false) [unit '\\', c] (.inside value false) := by
  have slash : Place.inside value true ∈ next (.inside value false) (unit '\\') := by simp [next]
  exact .cons slash (.cons (List.mem_singleton_self _) (List.mem_singleton_self _))

theorem hexDigit_plain : ∀ n < 16, Json.hexDigit n ≠ unit '"' ∧ Json.hexDigit n ≠ unit '\\' := by
  decide

theorem reads_quoteUnit (value : Bool) (u : UInt16) :
    Reads (.inside value false) (Json.quoteUnit u) (.inside value false) := by
  unfold Json.quoteUnit
  cases short : Json.shortEscapes.lookup u with
  | some e => exact reads_escape value e
  | none =>
    simp only
    split_ifs with control
    · have digits := hexDigit_plain
      have small : u.toNat / 4096 < 16 := by
        have := u.toNat_lt
        omega
      have first := digits _ small
      have second := digits (u.toNat / 256 % 16) (by omega)
      have third := digits (u.toNat / 16 % 16) (by omega)
      have fourth := digits (u.toNat % 16) (by omega)
      have tail : Reads (.inside value false) [Json.hexDigit (u.toNat / 4096),
          Json.hexDigit (u.toNat / 256 % 16), Json.hexDigit (u.toNat / 16 % 16),
          Json.hexDigit (u.toNat % 16)] (.inside value false) := by
        apply reads_inside
        · simp [first.1.symm, second.1.symm, third.1.symm, fourth.1.symm]
        · simp [first.2.symm, second.2.symm, third.2.symm, fourth.2.symm]
      exact (reads_escape value (unit 'u')).append tail
    · apply reads_inside
      · rw [List.mem_singleton]
        rintro rfl
        cases short
      · rw [List.mem_singleton]
        rintro rfl
        cases short

theorem reads_quoteUnits (value : Bool) (s : Text) :
    Reads (.inside value false) (Json.quoteUnits s) (.inside value false) := by
  fun_induction Json.quoteUnits s with
  | case1 => exact List.mem_singleton_self _
  | case2 u => exact reads_quoteUnit value u
  | case3 u v us pair ih =>
    have pair := Bool.and_eq_true_iff.1 pair
    have high : ∀ c, Json.leading c = true ∨ Json.trailing c = true →
        c ≠ unit '"' ∧ c ≠ unit '\\' := by
      intro c h
      constructor
      · rintro rfl
        revert h
        decide
      · rintro rfl
        revert h
        decide
    have first := high u (.inl pair.1)
    have second := high v (.inr pair.2)
    exact .cons (inside_next value first.1 first.2) (.cons (inside_next value second.1 second.2) ih)
  | case4 u v us _ ih => exact (reads_quoteUnit value u).append ih

theorem reads_quote (value : Bool) (s : Text) :
    Reads (if value then .colon else .outside) (Json.quote s) (.closed value) := by
  have opening : Place.inside value false ∈
      next (if value then .colon else .outside) (unit '"') := by
    cases value <;> decide
  have closing : Reads (.inside value false) [unit '"'] (.closed value) := by
    cases value <;> decide
  exact .cons opening ((reads_quoteUnits value s).append closing)

theorem digits_plain {ds : List Nat} (small : ∀ d ∈ ds, d < 10) :
    unit '"' ∉ ds.map Json.digitUnit := by
  have plain : ∀ d < 10, Json.digitUnit d ≠ unit '"' := by decide
  intro h
  obtain ⟨d, hd, quotation⟩ := List.mem_map.1 h
  exact plain d (small d hd) quotation

theorem numeral_plain {m : Json.Numeral} (whole : ∀ d ∈ m.whole, d < 10)
    (fraction : ∀ d ∈ m.fraction, d < 10) : unit '"' ∉ m.text := by
  have places : unit '"' ∉ Json.Numeral.fractionText m.fraction := by
    cases h : m.fraction with
    | nil => simp [Json.Numeral.fractionText]
    | cons d ds =>
      rw [Json.Numeral.fractionText]
      exact List.not_mem_cons_of_ne_of_not_mem (by decide) (digits_plain (h ▸ fraction))
  have scale : unit '"' ∉ Json.Numeral.exponentText m.exponent := by
    cases m.exponent with
    | none => simp [Json.Numeral.exponentText]
    | some e =>
      have digits := digits_plain fun d (h : d ∈ Json.decimal e.natAbs) => Json.decimal_lt h
      rw [Json.Numeral.exponentText]
      apply List.not_mem_cons_of_ne_of_not_mem (by decide)
      apply List.not_mem_cons_of_ne_of_not_mem _ digits
      split_ifs <;> decide
  simp [Json.Numeral.text, digits_plain whole, places, scale]

theorem significant_lt {s d : Nat} (h : d ∈ Json.significant s) : d < 10 := by
  rw [Json.significant, List.mem_reverse] at h
  exact Nat.digits_lt_base (by decide) ((List.dropWhile_sublist _).subset h)

theorem layout_lt {ds : List Nat} (small : ∀ d ∈ ds, d < 10) (n : Int) :
    (∀ d ∈ (Json.layout ds n).whole, d < 10) ∧ ∀ d ∈ (Json.layout ds n).fraction, d < 10 := by
  have zeros : ∀ (k : Nat), ∀ d ∈ List.replicate k 0, d < 10 := by
    intro k d h
    rw [List.eq_of_mem_replicate h]
    decide
  have front : ∀ k, ∀ d ∈ ds.take k, d < 10 := fun k d h => small d (List.mem_of_mem_take h)
  have back : ∀ k, ∀ d ∈ ds.drop k, d < 10 := fun k d h => small d (List.mem_of_mem_drop h)
  unfold Json.layout
  split_ifs
  · exact ⟨List.forall_mem_append.2 ⟨small, zeros _⟩, by simp⟩
  · exact ⟨front _, back _⟩
  · exact ⟨by simp, List.forall_mem_append.2 ⟨zeros _, small⟩⟩
  · exact ⟨front _, back _⟩

theorem number_plain (n : JavaScript.Number) : unit '"' ∉ Json.numberText n := by
  have numeral : ∀ q, unit '"' ∉ (Json.numeral q).text := by
    intro q
    unfold Json.numeral
    split_ifs
    · decide
    · have small := layout_lt (fun d h => significant_lt (s := (Json.shortest q).1) h)
        ((Json.shortest q).2 + (Nat.digits 10 (Json.shortest q).1).length)
      exact numeral_plain small.1 small.2
  cases n with
  | finite q =>
    rw [Json.numberText]
    split_ifs
    · exact List.not_mem_cons_of_ne_of_not_mem (by decide) (numeral _)
    · exact numeral _
  | _ =>
    simp only [Json.numberText]
    decide

/-- Texts of values with commas between them, and the bracket that closes them. -/
theorem reads_commas {ts : List Text} (each : ∀ t ∈ ts, ∃ s ∈ settled, Reads .outside t s)
    {c : UInt16} (close : c ∈ [unit ']', unit '}']) :
    Reads .outside (Json.commas ts ++ [c]) .outside := by
  have after : ∀ s ∈ settled, ∀ d ∈ [unit ',', unit ']', unit '}'], Reads s [d] .outside := by
    simp only [List.forall_mem_cons, List.not_mem_nil, false_imp_iff, implies_true,
      and_true]
    decide
  induction ts with
  | nil => exact after .outside (by decide) c (List.mem_cons_of_mem _ close)
  | cons t ts ih =>
    obtain ⟨s, hs, first⟩ := each t (List.mem_cons_self ..)
    cases ts with
    | nil => exact first.append (after s hs c (List.mem_cons_of_mem _ close))
    | cons u us =>
      have rest := ih fun t h => each t (List.mem_cons_of_mem _ h)
      have comma := after s hs (unit ',') (by decide)
      simpa [Json.commas] using first.append (comma.append rest)

theorem reads_stringify (v : Value) : ∀ s ∈ free, ∃ s' ∈ settled, Reads s (stringify v) s' := by
  induction v using Value.induction with
  | null => exact reads_plain (by decide)
  | bool b => cases b <;> exact reads_plain (by decide)
  | number n => exact reads_plain (number_plain n)
  | string t =>
    intro s hs
    rcases List.mem_pair.1 hs with rfl | rfl
    · exact ⟨.closed false, by decide, reads_quote false t⟩
    · exact ⟨.closed true, by decide, reads_quote true t⟩
  | array vs ih =>
    have inner : Reads .outside (Json.commas (Json.elementTexts vs) ++ [unit ']']) .outside := by
      apply reads_commas _ (by decide)
      rw [Json.elementTexts_eq]
      intro t h
      obtain ⟨v, hv, rfl⟩ := List.mem_map.1 h
      exact ih v hv .outside (by decide)
    have bracket : ∀ s ∈ free, Reads s [unit '['] .outside := by decide
    intro s hs
    exact ⟨.outside, by decide, (bracket s hs).append inner⟩
  | object entries ih =>
    have inner : Reads .outside (Json.commas (Json.memberTexts entries) ++ [unit '}']) .outside := by
      apply reads_commas _ (by decide)
      rw [Json.memberTexts_eq]
      intro t h
      obtain ⟨e, he, rfl⟩ := List.mem_map.1 h
      obtain ⟨s, hs, value⟩ := ih e he .colon (by decide)
      have colon : Reads (.closed false) [unit ':'] .colon := by decide
      exact ⟨s, hs, (reads_quote false e.1).append (colon.append value)⟩
    have brace : ∀ s ∈ free, Reads s [unit '{'] .outside := by decide
    intro s hs
    exact ⟨.outside, by decide, (brace s hs).append inner⟩

/-! No two matches of the first two expressions overlap. -/

def names : List String := ["password", "passwordHash"]

variable {name name' : String}

theorem mem_secret {w : Text} : w ∈ (secret name).language ↔
    ∃ blanks value, (∀ c ∈ blanks, space c = true) ∧ unit '"' ∉ value ∧
      w = tag name ++ (blanks ++ unit '"' :: (value ++ [unit '"'])) := by
  have marks : ∀ {x : Text}, x ∈ (Pattern.one quoteMark).language ↔ x = [unit '"'] := by
    intro x
    constructor
    · rintro ⟨c, hc, rfl⟩
      rw [of_decide_eq_true hc]
    · rintro rfl
      exact ⟨unit '"', by decide, rfl⟩
  have values : ∀ {x : Text}, x ∈ (Pattern.many (!quoteMark ·)).language ↔ unit '"' ∉ x := by
    intro x
    constructor
    · intro h mark
      exact absurd (h _ mark) (by decide)
    · intro h c hc
      have : c ≠ unit '"' := ne_of_mem_of_not_mem hc h
      simp [quoteMark, this]
  constructor
  · intro word
    obtain ⟨t, ht, u, hu, rfl⟩ := Language.mem_mul.1 word
    obtain ⟨blanks, hb, x, hx, rfl⟩ := Language.mem_mul.1 hu
    obtain ⟨opening, ho, y, hy, rfl⟩ := Language.mem_mul.1 hx
    obtain ⟨value, hv, closing, hc, rfl⟩ := Language.mem_mul.1 hy
    rw [Pattern.mem_literal.1 ht, marks.1 ho, marks.1 hc]
    exact ⟨blanks, value, hb, values.1 hv, rfl⟩
  · rintro ⟨blanks, value, hb, hv, rfl⟩
    exact ⟨tag name, Pattern.mem_literal.2 rfl, _, ⟨blanks, hb, _,
      ⟨_, marks.2 rfl, _, ⟨value, values.2 hv, _, marks.2 rfl, rfl⟩, rfl⟩, rfl⟩, rfl⟩

theorem secret_starts {w : Text} (word : w ∈ (secret name).language) :
    ∃ t, w = tag name ++ t ∧ t ≠ [] ∧ t.getLast? = some (unit '"') := by
  obtain ⟨blanks, value, -, -, rfl⟩ := mem_secret.1 word
  refine ⟨blanks ++ unit '"' :: value ++ [unit '"'], by simp, by simp, List.getLast?_concat ..⟩

theorem name_plain : ∀ name ∈ names, unit '"' ∉ ascii name := by decide

theorem space_plain {t : Text} (blank : ∀ c ∈ t, space c = true) : unit '"' ∉ t :=
  fun h => absurd (blank _ h) (by decide)

theorem secret_count (named : name ∈ names) {w : Text} (word : w ∈ (secret name).language) :
    w.count (unit '"') = 4 := by
  obtain ⟨blanks, value, blank, plain, rfl⟩ := mem_secret.1 word
  have front : (ascii name).count (unit '"') = 0 := List.count_eq_zero.2 (name_plain name named)
  have middle : blanks.count (unit '"') = 0 := List.count_eq_zero.2 (space_plain blank)
  have back : value.count (unit '"') = 0 := List.count_eq_zero.2 plain
  have colon : ¬unit ':' = unit '"' := by decide
  simp [tag, front, middle, back, colon]

theorem secret_longer (named : name ∈ names) (named' : name' ∈ names) {w x : Text}
    (word : w ∈ (secret name).language) (longer : w ++ x ∈ (secret name').language) : x = [] := by
  by_contra given
  obtain ⟨t, ht, some, last⟩ := secret_starts longer
  have mark : unit '"' ∈ x := by
    apply List.mem_of_getLast?
    rw [← last, ← List.getLast?_append_of_ne_nil w given, ht, List.getLast?_append_of_ne_nil _ some]
  have counts := secret_count named' longer
  rw [List.count_append, secret_count named word] at counts
  have : 0 < x.count (unit '"') := List.count_pos_iff.2 mark
  omega

theorem split_at_mark {c : UInt16} {p s u x : Text} (fresh : c ∉ p)
    (h : p ++ c :: s = u ++ c :: x) :
    (u = p ∧ x = s) ∨ ∃ u', u = p ++ c :: u' ∧ s = u' ++ c :: x := by
  induction p generalizing u with
  | nil =>
    cases u with
    | nil => exact .inl ⟨rfl, (List.cons.inj h).2.symm⟩
    | cons d u =>
      obtain ⟨rfl, rest⟩ := List.cons.inj h
      exact .inr ⟨u, rfl, rest⟩
  | cons d p ih =>
    cases u with
    | nil => exact absurd (List.cons.inj h).1 (ne_of_mem_of_not_mem (List.mem_cons_self ..) fresh)
    | cons e u =>
      obtain ⟨rfl, rest⟩ := List.cons.inj h
      obtain ⟨rfl, hx⟩ | ⟨u', rfl, hs⟩ := ih (fun h => fresh (List.mem_cons_of_mem _ h)) rest
      · exact .inl ⟨rfl, hx⟩
      · exact .inr ⟨u', rfl, hs⟩

/-- What stands in front of the second, third and fourth quotation mark of a match. -/
theorem secret_split (named : name ∈ names) {w u x : Text} (word : w ∈ (secret name).language)
    (split : w = u ++ unit '"' :: x) (given : u ≠ []) :
    u = unit '"' :: ascii name ∨
      ∃ blanks, (∀ c ∈ blanks, space c = true) ∧ (u = tag name ++ blanks ∨
        ∃ value, unit '"' ∉ value ∧ u = tag name ++ (blanks ++ unit '"' :: value)) := by
  obtain ⟨blanks, value, blank, plain, rfl⟩ := mem_secret.1 word
  have colon : unit '"' ∉ unit ':' :: blanks :=
    List.not_mem_cons_of_ne_of_not_mem (by decide) (space_plain blank)
  cases u with
  | nil => exact absurd rfl given
  | cons d u =>
    simp only [tag, List.cons_append, List.append_assoc, List.nil_append, List.cons.injEq] at split
    obtain ⟨rfl, second⟩ := split
    obtain ⟨rfl, -⟩ | ⟨u, rfl, third⟩ := split_at_mark (name_plain name named) second
    · exact .inl rfl
    · refine .inr ⟨blanks, blank, ?_⟩
      obtain ⟨rfl, -⟩ | ⟨u, rfl, fourth⟩ := split_at_mark colon third
      · exact .inl (by simp [tag])
      · obtain ⟨rfl, -⟩ | ⟨u, rfl, none⟩ := split_at_mark plain fourth
        · exact .inr ⟨_, plain, by simp [tag]⟩
        · simp at none

/-- Where the automaton can be behind the name, the blanks and the value of a match. -/
def valued : List Place := [.inside true false, .inside true true]

theorem ends_tag : ∀ name ∈ names, Automaton.ends next places (tag name) ⊆ [.colon] := by decide

theorem ends_blanks {blanks : Text} (blank : ∀ c ∈ blanks, space c = true) :
    Automaton.ends next [.colon] blanks ⊆ [.colon] := by
  apply Automaton.ends_within
  intro c hc s hs
  obtain rfl := List.mem_singleton.1 hs
  have : c ≠ unit '"' := ne_of_mem_of_not_mem hc (space_plain blank)
  simp [next, this, blank c hc]

theorem ends_value {value : Text} (plain : unit '"' ∉ value) :
    Automaton.ends next valued value ⊆ valued := by
  apply Automaton.ends_within
  intro c hc s hs
  have other : c ≠ unit '"' := ne_of_mem_of_not_mem hc plain
  rcases List.mem_pair.1 hs with rfl | rfl
  · by_cases slash : c = unit '\\'
    · subst slash
      decide
    · by_cases mark : c = unit '*'
      · subst mark
        decide
      · simp [next, other, slash, mark, valued]
  · exact List.cons_subset.2 ⟨List.mem_cons_self .., List.nil_subset _⟩

theorem ends_front (named : name ∈ names) {blanks : Text}
    (blank : ∀ c ∈ blanks, space c = true) :
    Automaton.ends next places (tag name ++ blanks) ⊆ [.colon] := by
  rw [Automaton.ends_append]
  exact List.Subset.trans (Automaton.ends_mono (ends_tag name named) _) (ends_blanks blank)

theorem ends_open {ss : List Place} {value : Text} (colon : ss ⊆ [.colon])
    (plain : unit '"' ∉ value) : Automaton.ends next ss (unit '"' :: value) ⊆ valued := by
  have opening : Automaton.ends next [.colon] [unit '"'] ⊆ valued := by decide
  have here := List.Subset.trans (Automaton.ends_mono colon [unit '"']) opening
  rw [← List.singleton_append, Automaton.ends_append]
  exact List.Subset.trans (Automaton.ends_mono here value) (ends_value plain)

/-- No name can begin inside of a match. -/
theorem overlap_dead (named : name ∈ names) (named' : name' ∈ names) {w u x : Text}
    (word : w ∈ (secret name).language) (split : w = u ++ unit '"' :: x) (given : u ≠ []) :
    Automaton.ends next places (u ++ tag name') = [] := by
  have stop : ∀ name' ∈ names,
      Automaton.ends next (.colon :: valued) (tag name') = [] := by decide
  have doubled : ∀ name ∈ names, ∀ name' ∈ names,
      Automaton.ends next places ((unit '"' :: ascii name) ++ tag name') = [] := by decide
  have dead : Automaton.ends next places u ⊆ .colon :: valued →
      Automaton.ends next places (u ++ tag name') = [] := by
    intro within
    apply List.subset_nil.1
    rw [Automaton.ends_append, ← stop name' named']
    exact Automaton.ends_mono within _
  obtain rfl | ⟨blanks, blank, rfl | ⟨value, plain, rfl⟩⟩ := secret_split named word split given
  · exact doubled name named name' named'
  · apply dead
    exact List.Subset.trans (ends_front named blank) (by decide)
  · apply dead
    rw [← List.append_assoc, Automaton.ends_append]
    exact List.Subset.trans (ends_open (ends_front named blank) plain) (List.subset_cons_self ..)

/-- The automaton reads the text. -/
def Readable (t : Text) : Prop := Automaton.ends next [.outside] t ≠ []

theorem readable_stringify (v : Value) : Readable (stringify v) := by
  obtain ⟨s, -, reads⟩ := reads_stringify v .outside (by decide)
  exact List.ne_nil_of_mem reads

theorem Readable.no_overlap {p q w u x : Text} (readable : Readable (p ++ (w ++ q)))
    (named : name ∈ names) (named' : name' ∈ names) (word : w ∈ (secret name).language)
    (inner : u <:+ p) (given : u ≠ []) : u ++ unit '"' :: x ∉ (secret name').language := by
  intro other
  obtain ⟨t, rfl, -⟩ := secret_starts word
  have dead := overlap_dead named' named other rfl given
  obtain ⟨p, rfl⟩ := inner
  exact readable (Automaton.ends_infix mem_places ⟨p, t ++ q, by simp⟩ dead)

theorem Readable.not_crosses_front {p q w : Text} (readable : Readable (p ++ (w ++ q)))
    (named : name ∈ names) (named' : name' ∈ names) (word : w ∈ (secret name).language) :
    ¬(secret name').Crosses p (w ++ q) := by
  rintro ⟨u, x, given, some, inner, front, other⟩
  obtain ⟨t, rfl, -⟩ := secret_starts word
  cases x with
  | nil => exact some rfl
  | cons c x =>
    obtain ⟨rfl, -⟩ := List.cons_prefix_cons.1 front
    exact readable.no_overlap named named' word inner given other

theorem Readable.not_crosses_back {p q w : Text} (readable : Readable (p ++ (w ++ q)))
    (named : name ∈ names) (named' : name' ∈ names) (word : w ∈ (secret name).language) :
    ¬(secret name').Crosses w q := by
  rintro ⟨u, x, given, some, ⟨u', rfl⟩, ⟨q, rfl⟩, other⟩
  obtain ⟨t, begins, -⟩ := secret_starts other
  cases u with
  | nil => exact given rfl
  | cons c u =>
    obtain ⟨rfl, -⟩ := List.cons.inj begins
    by_cases start : u' = []
    · subst start
      exact some (secret_longer named named' word other)
    · have whole : p ++ ((u' ++ unit '"' :: u) ++ (x ++ q)) =
          (p ++ u') ++ ((unit '"' :: u ++ x) ++ q) := by simp
      rw [whole] at readable
      exact readable.no_overlap named' named other (List.suffix_append ..) start word

theorem secret_proper : ([] : Text) ∉ (secret name).language := by
  intro word
  obtain ⟨t, h, -⟩ := secret_starts word
  cases h

theorem tag_apart : ∀ name ∈ names, ∀ name' ∈ names, name ≠ name' →
    ¬(tag name).isPrefixOf (tag name') := by decide

/-- The search for another name passes over the match. -/
theorem Readable.other_free {p q w : Text} (readable : Readable (p ++ (w ++ q)))
    (named : name ∈ names) (named' : name' ∈ names) (different : name ≠ name')
    (word : w ∈ (secret name).language) : ∀ w' ∈ (secret name').language, ¬w' <:+: w := by
  rintro w' other ⟨u, x, rfl⟩
  obtain ⟨t', rfl, -⟩ := secret_starts other
  by_cases start : u = []
  · subst start
    obtain ⟨t, same, -⟩ := secret_starts word
    have heads : tag name' ++ (t' ++ x) = tag name ++ t := by simpa using same
    obtain front | front := List.prefix_or_prefix_of_prefix ⟨t, rfl⟩ ⟨t' ++ x, heads⟩
    · exact tag_apart name named name' named' different (List.isPrefixOf_iff_prefix.2 front)
    · exact tag_apart name' named' name named different.symm (List.isPrefixOf_iff_prefix.2 front)
  · have whole : p ++ ((u ++ (tag name' ++ t') ++ x) ++ q) =
        (p ++ u) ++ ((tag name' ++ t') ++ (x ++ q)) := by simp
    rw [whole] at readable
    rw [List.append_assoc, List.append_assoc] at word
    exact readable.no_overlap named' named other (List.suffix_append ..) start word

/-- A match of the first two expressions is found where it stands, whatever is around it. -/
theorem replaceAll_around {p q w : Text} (readable : Readable (p ++ (w ++ q)))
    (named : name ∈ names) (named' : name' ∈ names) (word : w ∈ (secret name).language)
    (new : Text) : (secret name').replaceAll new (p ++ (w ++ q)) =
      (secret name').replaceAll new p ++
        ((if name = name' then new else w) ++ (secret name').replaceAll new q) := by
  rw [Pattern.replaceAll_append secret_proper (readable.not_crosses_front named named' word),
    Pattern.replaceAll_append secret_proper (readable.not_crosses_back named named' word)]
  congr 2
  split_ifs with same
  · subst same
    apply Pattern.replaceAll_word word
    · rintro rfl
      exact secret_proper word
    · rintro u other ⟨x, rfl⟩
      simp [secret_longer named named other word]
  · exact Pattern.replaceAll_free (readable.other_free named named' same word)

theorem mask_read (named : name ∈ names) {w : Text} (word : w ∈ (secret name).language)
    (ss : List Place) :
    Automaton.ends next ss w ⊆ Automaton.ends next ss (secretMask name) := by
  obtain ⟨blanks, value, blank, plain, rfl⟩ := mem_secret.1 word
  rw [secretMask, Automaton.ends_append ss (tag name) (blanks ++ _),
    Automaton.ends_append ss (tag name) (ascii _)]
  have front : Automaton.ends next ss (tag name) ⊆ [.colon] :=
    List.Subset.trans (Automaton.ends_mono (fun s _ => mem_places s) _) (ends_tag name named)
  generalize Automaton.ends next ss (tag name) = here at front ⊢
  cases here with
  | nil =>
    rw [Automaton.ends_none]
    exact List.nil_subset _
  | cons s here =>
    obtain rfl := List.mem_singleton.1 (front (List.mem_cons_self ..))
    have behind : Automaton.ends next [.colon] (blanks ++ unit '"' :: (value ++ [unit '"'])) ⊆
        Automaton.ends next valued [unit '"'] := by
      rw [Automaton.ends_append, ← List.cons_append, Automaton.ends_append]
      exact Automaton.ends_mono (ends_open (ends_blanks blank) plain) _
    have masked : Automaton.ends next valued [unit '"'] ⊆
        Automaton.ends next [.colon] (ascii " \"****\"") := by decide
    apply List.Subset.trans (Automaton.ends_mono front _)
    apply List.Subset.trans (List.Subset.trans behind masked)
    exact Automaton.ends_mono (List.cons_subset.2 ⟨List.mem_cons_self .., List.nil_subset _⟩) _

theorem Readable.replaceAll (named : name ∈ names) {t : Text} (readable : Readable t) :
    Readable ((secret name).replaceAll (secretMask name) t) := by
  obtain ⟨s, hs⟩ := List.exists_mem_of_ne_nil _ readable
  exact List.ne_nil_of_mem (Automaton.ends_rewritten (fun w word ss => mask_read named word ss)
    (Pattern.replaceAll_rewritten ..) _ hs)

/-- What is masked does not depend on the value of a secret. -/
theorem mask_secret (named : name ∈ names) {p q w w' : Text} (readable : Readable (p ++ (w ++ q)))
    (readable' : Readable (p ++ (w' ++ q))) (word : w ∈ (secret name).language)
    (word' : w' ∈ (secret name).language) : mask (p ++ (w ++ q)) = mask (p ++ (w' ++ q)) := by
  have first : "password" ∈ names := by decide
  have second : "passwordHash" ∈ names := by decide
  have front := fun new => replaceAll_around readable named first word new
  have front' := fun new => replaceAll_around readable' named first word' new
  rcases List.mem_pair.1 named with rfl | rfl
  · unfold mask
    simp only [front, front', if_true]
  · have later := readable.replaceAll first
    have later' := readable'.replaceAll first
    rw [front, if_neg (by decide)] at later
    rw [front', if_neg (by decide)] at later'
    have back := fun new => replaceAll_around later named second word new
    have back' := fun new => replaceAll_around later' named second word' new
    unfold mask
    simp only [front, front', back, back', if_true, if_neg (show "passwordHash" ≠ "password" by decide)]

/-! Secrets inside of values. -/

/-- The values differ in one secret, which has no quotation mark in either of them. -/
inductive SecretChange : Value → Value → Prop
  | secret {name : String} (named : name ∈ names) (before after : List (Text × Value))
      {s s' : Text} (plain : unit '"' ∉ s) (plain' : unit '"' ∉ s') :
      SecretChange (.object (before ++ (ascii name, .string s) :: after))
        (.object (before ++ (ascii name, .string s') :: after))
  | property (key : Text) (before after : List (Text × Value)) {v v' : Value}
      (h : SecretChange v v') :
      SecretChange (.object (before ++ (key, v) :: after)) (.object (before ++ (key, v') :: after))
  | element (before after : List Value) {v v' : Value} (h : SecretChange v v') :
      SecretChange (.array (before ++ v :: after)) (.array (before ++ v' :: after))

theorem quoteUnit_plain {u : UInt16} (plain : u ≠ unit '"') : unit '"' ∉ Json.quoteUnit u := by
  unfold Json.quoteUnit
  cases short : Json.shortEscapes.lookup u with
  | some e =>
    have others : ∀ p ∈ Json.shortEscapes, p.1 ≠ unit '"' → p.2 ≠ unit '"' := by
      simp only [Json.shortEscapes, List.forall_mem_cons, List.not_mem_nil, false_imp_iff,
        implies_true, and_true]
      decide
    obtain ⟨u', listed, same⟩ : ∃ u', (u', e) ∈ Json.shortEscapes ∧ u' = u := by
      obtain ⟨l, r, h, -⟩ := List.lookup_eq_some_iff.1 short
      exact ⟨u, by simp [h], rfl⟩
    have : e ≠ unit '"' := others _ listed (same ▸ plain)
    simpa [this.symm] using by decide
  | none =>
    simp only
    split_ifs
    · have digits := hexDigit_plain
      have small : u.toNat / 4096 < 16 := by
        have := u.toNat_lt
        omega
      have marks : unit '"' ≠ unit '\\' ∧ unit '"' ≠ unit 'u' := by decide
      simp [Json.unicodeEscape, marks, (digits _ small).1.symm,
        (digits (u.toNat / 256 % 16) (by omega)).1.symm,
        (digits (u.toNat / 16 % 16) (by omega)).1.symm, (digits (u.toNat % 16) (by omega)).1.symm]
    · exact fun h => plain (List.mem_singleton.1 h).symm

theorem quoteUnits_plain {s : Text} (plain : unit '"' ∉ s) : unit '"' ∉ Json.quoteUnits s := by
  fun_induction Json.quoteUnits s with
  | case1 => exact plain
  | case2 u => exact quoteUnit_plain fun h => plain (by simp [h])
  | case3 u v us _ ih =>
    intro h
    rcases List.mem_cons.1 h with h | h
    · exact plain (by simp [h])
    · rcases List.mem_cons.1 h with h | h
      · exact plain (by simp [h])
      · exact ih (fun h => plain (List.mem_cons_of_mem _ (List.mem_cons_of_mem _ h))) h
  | case4 u v us _ ih =>
    intro h
    rcases List.mem_append.1 h with h | h
    · exact quoteUnit_plain (fun same => plain (by simp [same])) h
    · exact ih (fun h => plain (List.mem_cons_of_mem _ h)) h

theorem commas_around (before after : List Text) :
    ∃ p q, ∀ t, Json.commas (before ++ t :: after) = p ++ (t ++ q) := by
  induction before with
  | nil =>
    cases after with
    | nil => exact ⟨[], [], fun t => by simp [Json.commas]⟩
    | cons u us => exact ⟨[], unit ',' :: Json.commas (u :: us), fun t => rfl⟩
  | cons x before ih =>
    obtain ⟨p, q, around⟩ := ih
    refine ⟨x ++ unit ',' :: p, q, fun t => ?_⟩
    have more : Json.commas (x :: (before ++ t :: after)) =
        x ++ unit ',' :: Json.commas (before ++ t :: after) := by
      cases before <;> rfl
    simp [more, around]

theorem object_around (before after : List (Text × Value)) (key : Text) :
    ∃ p q, ∀ v, stringify (.object (before ++ (key, v) :: after)) =
      p ++ (Json.memberText key (stringify v) ++ q) := by
  let texts := fun es : List (Text × Value) => es.map fun e => Json.memberText e.1 (stringify e.2)
  obtain ⟨p, q, around⟩ := commas_around (texts before) (texts after)
  refine ⟨unit '{' :: p, q ++ [unit '}'], fun v => ?_⟩
  have inner := around (Json.memberText key (stringify v))
  rw [stringify, Json.memberTexts_eq, List.map_append, List.map_cons]
  exact congrArg (unit '{' :: ·) (by simpa [texts] using congrArg (· ++ [unit '}']) inner)

theorem array_around (before after : List Value) :
    ∃ p q, ∀ v, stringify (.array (before ++ v :: after)) = p ++ (stringify v ++ q) := by
  obtain ⟨p, q, around⟩ := commas_around (before.map stringify) (after.map stringify)
  refine ⟨unit '[' :: p, q ++ [unit ']'], fun v => ?_⟩
  have inner := around (stringify v)
  rw [stringify, Json.elementTexts_eq, List.map_append, List.map_cons]
  exact congrArg (unit '[' :: ·) (by simpa using congrArg (· ++ [unit ']']) inner)

/-- The texts of the values differ in a match of one of the first two expressions. -/
theorem stringify_change {v v' : Value} (h : SecretChange v v') :
    ∃ name ∈ names, ∃ p q, ∃ w ∈ (secret name).language, ∃ w' ∈ (secret name).language,
      stringify v = p ++ (w ++ q) ∧ stringify v' = p ++ (w' ++ q) := by
  induction h with
  | @secret name named before after s s' plain plain' =>
    have key : ∀ name ∈ names, Json.quote (ascii name) ++ [unit ':'] = tag name := by decide
    have text : ∀ s, Json.memberText (ascii name) (stringify (.string s)) =
        tag name ++ ([] ++ unit '"' :: (Json.quoteUnits s ++ [unit '"'])) := by
      intro s
      rw [Json.memberText, ← key name named]
      simp [stringify, Json.quote]
    have word : ∀ s, unit '"' ∉ s →
        Json.memberText (ascii name) (stringify (.string s)) ∈ (secret name).language := by
      intro s plain
      exact mem_secret.2 ⟨[], Json.quoteUnits s, by simp, quoteUnits_plain plain, text s⟩
    obtain ⟨p, q, around⟩ := object_around before after (ascii name)
    exact ⟨name, named, p, q, _, word s plain, _, word s' plain', around _, around _⟩
  | property key before after h ih =>
    obtain ⟨name, named, p, q, w, word, w', word', first, second⟩ := ih
    obtain ⟨p', q', around⟩ := object_around before after key
    refine ⟨name, named, p' ++ (Json.quote key ++ unit ':' :: p), q ++ q', w, word, w', word', ?_, ?_⟩
    · simp [around, first, Json.memberText]
    · simp [around, second, Json.memberText]
  | element before after h ih =>
    obtain ⟨name, named, p, q, w, word, w', word', first, second⟩ := ih
    obtain ⟨p', q', around⟩ := array_around before after
    refine ⟨name, named, p' ++ p, q ++ q', w, word, w', word', ?_, ?_⟩
    · simp [around, first]
    · simp [around, second]

theorem mask_change {v v' : Value} (h : SecretChange v v') :
    mask (stringify v) = mask (stringify v') := by
  obtain ⟨name, named, p, q, w, word, w', word', first, second⟩ := stringify_change h
  have readable := readable_stringify v
  have readable' := readable_stringify v'
  rw [first] at readable ⊢
  rw [second] at readable' ⊢
  exact mask_secret named readable readable' word word'

theorem mask_changes {v v' : Value} (h : Relation.ReflTransGen SecretChange v v') :
    mask (stringify v) = mask (stringify v') := by
  induction h with
  | refl => rfl
  | tail _ last ih => exact ih.trans (mask_change last)

/-! The format. -/

/-- Infos that differ in passwords and password hashes alone get the same message. -/
theorem secrets_masked {info info' : List (Text × Value)}
    (h : Relation.ReflTransGen SecretChange (.object info) (.object info')) :
    (maskSensitiveData info).lookup (ascii "message") =
      (maskSensitiveData info').lookup (ascii "message") := by
  have same := mask_changes h
  rw [maskSensitiveData, maskSensitiveData, Json.lookup_define, Json.lookup_define, if_pos rfl,
    if_pos rfl, same]

theorem secrets_masked_nested :
    (maskSensitiveData [(ascii "level", .string (ascii "info")),
        (ascii "body", .object [(ascii "password", .string (ascii "p@ss, 1"))])]).lookup
        (ascii "message") =
      (maskSensitiveData [(ascii "level", .string (ascii "info")),
        (ascii "body", .object [(ascii "password", .string (ascii "\\u0022 2"))])]).lookup
        (ascii "message") := by
  apply secrets_masked
  have inner : SecretChange (.object [(ascii "password", .string (ascii "p@ss, 1"))])
      (.object [(ascii "password", .string (ascii "\\u0022 2"))]) :=
    .secret (by decide) [] [] (by decide) (by decide)
  exact .single (.property (ascii "body") [(ascii "level", .string (ascii "info"))] [] inner)

end SecondhandApi.LoggerConfig
