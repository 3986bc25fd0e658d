import Mathlib.Computability.Language

/-! Regular expressions that are tried by backtracking, as those of JavaScript are, and the
replacement of what they match. -/

inductive Pattern (α : Type) where
  | empty
  | one (p : α → Bool)
  | many (p : α → Bool)
  | opt (r : Pattern α)
  | seq (r s : Pattern α)

namespace Pattern
variable {α : Type}

def times : Nat → Pattern α → Pattern α
  | 0, _ => empty
  | n + 1, r => seq r (times n r)

def literal [DecidableEq α] : List α → Pattern α
  | [] => empty
  | a :: w => seq (one (· = a)) (literal w)

/-- The words of the expression. -/
def language : Pattern α → Language α
  | empty => 1
  | one p => {w | ∃ a, p a = true ∧ w = [a]}
  | many p => {w | ∀ a ∈ w, p a = true}
  | opt r => r.language + 1
  | seq r s => r.language * s.language

/-- What can follow a greedy run at the head of a text, the longest run first. -/
def afterRun (p : α → Bool) : List α → List (List α)
  | [] => [[]]
  | a :: t => if p a then afterRun p t ++ [a :: t] else [a :: t]

/-- What can follow a match at the head of a text, in the order in which the matches are tried. -/
def rest : Pattern α → List α → List (List α)
  | empty, t => [t]
  | one _, [] => []
  | one p, a :: t => if p a then [t] else []
  | many p, t => afterRun p t
  | opt r, t => r.rest t ++ [t]
  | seq r s, t => (r.rest t).flatMap s.rest

/-- Every match is replaced, from left to right; after an empty one the search goes on at the next
character. -/
def replaceAll (r : Pattern α) (new : List α) : List α → List α
  | [] => if r.rest [] = [] then [] else new
  | a :: t =>
    match (r.rest (a :: t)).head? with
    | none => a :: replaceAll r new t
    | some t' =>
      if t'.length ≤ t.length then new ++ replaceAll r new t' else new ++ a :: replaceAll r new t
termination_by t => t.length

/-! What an expression matches. -/

theorem mem_afterRun {p : α → Bool} {t t' : List α} :
    t' ∈ afterRun p t ↔ ∃ w, (∀ a ∈ w, p a = true) ∧ w ++ t' = t := by
  induction t with
  | nil => simp [afterRun]
  | cons a t ih =>
    unfold afterRun
    by_cases ha : p a = true
    · rw [if_pos ha]
      constructor
      · intro h
        rcases List.mem_append.1 h with h | h
        · obtain ⟨w, hw, rfl⟩ := ih.1 h
          exact ⟨a :: w, by simpa [ha] using hw, rfl⟩
        · exact ⟨[], by simp, by simpa using h⟩
      · rintro ⟨w, hw, h⟩
        apply List.mem_append.2
        cases w with
        | nil => exact .inr (by simpa using h)
        | cons b w =>
          obtain ⟨rfl, tail⟩ := List.cons.inj h
          exact .inl (ih.2 ⟨w, fun c hc => hw c (List.mem_cons_of_mem _ hc), tail⟩)
    · rw [if_neg ha]
      constructor
      · intro h
        exact ⟨[], by simp, by simpa using h⟩
      · rintro ⟨w, hw, h⟩
        cases w with
        | nil => simpa using h
        | cons b w =>
          obtain ⟨rfl, -⟩ := List.cons.inj h
          exact absurd (hw b (List.mem_cons_self ..)) ha

theorem mem_rest {r : Pattern α} {t t' : List α} :
    t' ∈ r.rest t ↔ ∃ w ∈ r.language, w ++ t' = t := by
  induction r generalizing t t' with
  | empty => simp [rest, language, Language.mem_one, eq_comm]
  | one p =>
    cases t with
    | nil =>
      simp only [rest, List.not_mem_nil, false_iff]
      rintro ⟨w, ⟨a, -, rfl⟩, h⟩
      cases h
    | cons a t =>
      unfold rest
      by_cases ha : p a = true
      · rw [if_pos ha, List.mem_singleton]
        constructor
        · rintro rfl
          exact ⟨[a], ⟨a, ha, rfl⟩, rfl⟩
        · rintro ⟨w, ⟨b, -, rfl⟩, h⟩
          exact (List.cons.inj h).2
      · rw [if_neg ha]
        simp only [List.not_mem_nil, false_iff]
        rintro ⟨w, ⟨b, hb, rfl⟩, h⟩
        obtain ⟨rfl, -⟩ := List.cons.inj h
        exact ha hb
  | many p => exact mem_afterRun
  | opt r ih =>
    simp only [rest, language, List.mem_append, List.mem_singleton, Language.mem_add,
      Language.mem_one, ih]
    constructor
    · rintro (⟨w, hw, h⟩ | rfl)
      · exact ⟨w, .inl hw, h⟩
      · exact ⟨[], .inr rfl, rfl⟩
    · rintro ⟨w, hw | rfl, h⟩
      · exact .inl ⟨w, hw, h⟩
      · exact .inr h
  | seq r s hr hs =>
    simp only [rest, language, List.mem_flatMap, Language.mem_mul, hr, hs]
    constructor
    · rintro ⟨u, ⟨w, hw, rfl⟩, v, hv, rfl⟩
      exact ⟨w ++ v, ⟨w, hw, v, hv, rfl⟩, List.append_assoc ..⟩
    · rintro ⟨_, ⟨w, hw, v, hv, rfl⟩, rfl⟩
      exact ⟨v ++ t', ⟨w, hw, (List.append_assoc ..).symm⟩, v, hv, rfl⟩

theorem rest_length {r : Pattern α} {t t' : List α} (h : t' ∈ r.rest t) :
    t'.length ≤ t.length := by
  obtain ⟨w, -, rfl⟩ := mem_rest.1 h
  simp

theorem mem_literal [DecidableEq α] {u w : List α} : w ∈ (literal u).language ↔ w = u := by
  induction u generalizing w with
  | nil => simp [literal, language, Language.mem_one]
  | cons a u ih =>
    apply Language.mem_mul.trans
    constructor
    · rintro ⟨_, ⟨b, hb, rfl⟩, v, hv, rfl⟩
      rw [ih.1 hv, of_decide_eq_true hb, List.singleton_append]
    · rintro rfl
      exact ⟨[a], ⟨a, decide_eq_true rfl, rfl⟩, u, ih.2 rfl, rfl⟩

/-- The characters that words can contain. -/
def chars : Pattern α → α → Bool
  | empty, _ => false
  | one p, a => p a
  | many p, a => p a
  | opt r, a => r.chars a
  | seq r s, a => r.chars a || s.chars a

def nullable : Pattern α → Bool
  | empty => true
  | one _ => false
  | many _ => true
  | opt _ => true
  | seq r s => r.nullable && s.nullable

/-- The characters with which words can begin. -/
def firsts : Pattern α → α → Bool
  | empty, _ => false
  | one p, a => p a
  | many p, a => p a
  | opt r, a => r.firsts a
  | seq r s, a => r.firsts a || r.nullable && s.firsts a

theorem chars_of_mem {r : Pattern α} {w : List α} (word : w ∈ r.language) {a : α} (h : a ∈ w) :
    r.chars a = true := by
  induction r generalizing w with
  | empty => exact absurd h (by simp [(Language.mem_one w).1 word])
  | one p =>
    obtain ⟨b, hb, rfl⟩ := word
    exact List.mem_singleton.1 h ▸ hb
  | many p => exact word a h
  | opt r ih =>
    obtain word | rfl := word
    · exact ih word h
    · cases h
  | seq r s hr hs =>
    obtain ⟨u, hu, v, hv, rfl⟩ := Language.mem_mul.1 word
    obtain h | h := List.mem_append.1 h
    · simp [chars, hr hu h]
    · simp [chars, hs hv h]

theorem firsts_of_mem {r : Pattern α} {w : List α} (word : w ∈ r.language) :
    (w = [] ∧ r.nullable = true) ∨ ∃ a ∈ w.head?, r.firsts a = true := by
  induction r generalizing w with
  | empty => exact .inl ⟨(Language.mem_one w).1 word, rfl⟩
  | one p =>
    obtain ⟨a, ha, rfl⟩ := word
    exact .inr ⟨a, rfl, ha⟩
  | many p =>
    cases w with
    | nil => exact .inl ⟨rfl, rfl⟩
    | cons a w => exact .inr ⟨a, rfl, word a (List.mem_cons_self ..)⟩
  | opt r ih =>
    obtain word | rfl := word
    · exact (ih word).imp (fun h => ⟨h.1, rfl⟩) id
    · exact .inl ⟨rfl, rfl⟩
  | seq r s hr hs =>
    obtain ⟨u, hu, v, hv, rfl⟩ := Language.mem_mul.1 word
    obtain ⟨rfl, hr⟩ | ⟨a, head, first⟩ := hr hu
    · obtain ⟨rfl, hs⟩ | ⟨a, head, first⟩ := hs hv
      · exact .inl ⟨rfl, by simp [nullable, hr, hs]⟩
      · exact .inr ⟨a, head, by simp [firsts, hr, first]⟩
    · refine .inr ⟨a, ?_, by simp [firsts, first]⟩
      rw [List.head?_append, Option.mem_def.1 head]
      rfl

/-! What replacing makes of a text. -/

/-- The second text has `new` in the place of words of the expression. -/
inductive Rewritten (r : Pattern α) (new : List α) : List α → List α → Prop
  | nil : Rewritten r new [] []
  | kept (a : α) {t t' : List α} (h : Rewritten r new t t') : Rewritten r new (a :: t) (a :: t')
  | replaced {w t t' : List α} (word : w ∈ r.language) (h : Rewritten r new t t') :
      Rewritten r new (w ++ t) (new ++ t')

theorem replaceAll_rewritten (r : Pattern α) (new t : List α) :
    Rewritten r new t (replaceAll r new t) := by
  induction t using replaceAll.induct r with
  | case1 none => simpa [replaceAll, none] using .nil
  | case2 some =>
    obtain ⟨t', ht'⟩ := List.exists_mem_of_ne_nil _ some
    obtain ⟨w, word, hw⟩ := mem_rest.1 ht'
    obtain ⟨rfl, rfl⟩ := List.append_eq_nil_iff.1 hw
    have whole : Rewritten r new ([] ++ []) (new ++ []) := .replaced word .nil
    simpa [replaceAll, some] using whole
  | case3 a t none ih =>
    unfold replaceAll
    rw [none]
    exact ih.kept a
  | case4 a t t' found shorter ih =>
    obtain ⟨w, word, hw⟩ := mem_rest.1 (List.mem_of_head? found)
    unfold replaceAll
    rw [found, ← hw]
    simpa [shorter] using ih.replaced word
  | case5 a t t' found longer ih =>
    obtain ⟨w, word, hw⟩ := mem_rest.1 (List.mem_of_head? found)
    have lengths := congrArg List.length hw
    rw [List.length_append, List.length_cons] at lengths
    obtain rfl : w = [] := List.eq_nil_of_length_eq_zero (by omega)
    unfold replaceAll
    simpa [found, longer] using (ih.kept a).replaced word

/-- A word that can neither begin in the new text nor reach into it. -/
structure Visible (mark : α) (new w : List α) : Prop where
  given : w ≠ []
  unmarked : mark ∉ w
  apart : ∀ s, s <:+ new → s ≠ [] → ¬s <+: w ∧ ¬w <+: s

section Masks
variable {r : Pattern α} {new w : List α} {mark : α}

theorem Visible.of_head (unmarked : mark ∉ w) {a : α} (head : a ∈ w.head?) (fresh : a ∉ new) :
    Visible mark new w := by
  obtain ⟨w, rfl⟩ := List.head?_eq_some_iff.1 head
  refine ⟨List.cons_ne_nil a w, unmarked, fun s suffix some => ?_⟩
  obtain ⟨b, s, rfl⟩ := List.exists_cons_of_ne_nil some
  have there : b ∈ new := suffix.subset (List.mem_cons_self ..)
  constructor
  · intro front
    exact fresh ((List.cons_prefix_cons.1 front).1 ▸ there)
  · intro front
    exact fresh ((List.cons_prefix_cons.1 front).1 ▸ there)

theorem Visible.of_last (given : w ≠ []) (unmarked : mark ∉ w) (last : mark ∈ new.getLast?)
    (absent : ¬w <:+: new) : Visible mark new w := by
  refine ⟨given, unmarked, fun s suffix some => ⟨fun front => ?_, fun front => ?_⟩⟩
  · have : mark ∈ s.getLast? := by
      obtain ⟨new', rfl⟩ := suffix
      rwa [List.getLast?_append_of_ne_nil _ some] at last
    exact unmarked (front.subset (List.mem_of_getLast? this))
  · exact absent (front.isInfix.trans suffix.isInfix)

theorem prefix_of_rewritten (marked : mark ∈ new.head?) {t t' : List α}
    (h : Rewritten r new t t') (unmarked : mark ∉ w) (front : w <+: t') : w <+: t := by
  induction h generalizing w with
  | nil => exact front
  | kept a h ih =>
    cases w with
    | nil => exact List.nil_prefix
    | cons b w =>
      obtain ⟨rfl, tail⟩ := List.cons_prefix_cons.1 front
      apply List.cons_prefix_cons.2
      exact ⟨rfl, ih (fun h => unmarked (List.mem_cons_of_mem _ h)) tail⟩
  | replaced word h ih =>
    cases w with
    | nil => exact List.nil_prefix
    | cons b w =>
      obtain ⟨new', rfl⟩ := List.head?_eq_some_iff.1 marked
      obtain ⟨rfl, -⟩ := List.cons_prefix_cons.1 front
      exact absurd (List.mem_cons_self ..) unmarked

theorem infix_of_append {t : List α}
    (apart : ∀ s, s <:+ new → s ≠ [] → ¬s <+: w ∧ ¬w <+: s) (h : w <:+: new ++ t) : w <:+: t := by
  induction new with
  | nil => exact h
  | cons b new ih =>
    obtain front | h := List.infix_cons_iff.1 h
    · obtain ⟨shorter, longer⟩ := apart (b :: new) List.suffix_rfl (List.cons_ne_nil b new)
      obtain front | front := List.prefix_or_prefix_of_prefix front (List.prefix_append (b :: new) t)
      · exact absurd front longer
      · exact absurd front shorter
    · exact ih (fun s suffix => apart s (suffix.trans (List.suffix_cons ..))) h

/-- What is still visible stood in the text before, where the expression matched nothing. -/
theorem replaceAll_factor (proper : [] ∉ r.language) (marked : mark ∈ new.head?)
    (visible : Visible mark new w) {t : List α} (h : w <:+: replaceAll r new t) :
    ∃ t', t' <:+ t ∧ w <+: t' ∧ r.rest t' = [] := by
  induction t using replaceAll.induct r with
  | case1 none =>
    rw [replaceAll, if_pos none, List.infix_nil] at h
    exact ⟨[], List.suffix_rfl, by rw [h], none⟩
  | case2 some =>
    obtain ⟨t', ht'⟩ := List.exists_mem_of_ne_nil _ some
    obtain ⟨w, word, hw⟩ := mem_rest.1 ht'
    exact absurd ((List.append_eq_nil_iff.1 hw).1 ▸ word) proper
  | case3 a t none ih =>
    have kept := replaceAll_rewritten r new (a :: t)
    have step : replaceAll r new (a :: t) = a :: replaceAll r new t := by
      rw [replaceAll, none]
    obtain front | h := List.infix_cons_iff.1 (step ▸ h)
    · exact ⟨a :: t, List.suffix_rfl,
        prefix_of_rewritten marked kept visible.unmarked (step ▸ front),
        List.head?_eq_none_iff.1 none⟩
    · obtain ⟨t', suffix, rest⟩ := ih h
      exact ⟨t', suffix.trans (List.suffix_cons ..), rest⟩
  | case4 a t t' found shorter ih =>
    obtain ⟨u, -, hu⟩ := mem_rest.1 (List.mem_of_head? found)
    rw [replaceAll, found] at h
    simp only [if_pos shorter] at h
    obtain ⟨t'', suffix, rest⟩ := ih (infix_of_append visible.apart h)
    exact ⟨t'', suffix.trans ⟨u, hu⟩, rest⟩
  | case5 a t t' found longer ih =>
    obtain ⟨u, word, hu⟩ := mem_rest.1 (List.mem_of_head? found)
    have lengths := congrArg List.length hu
    rw [List.length_append, List.length_cons] at lengths
    obtain rfl : u = [] := List.eq_nil_of_length_eq_zero (by omega)
    exact absurd word proper

/-- No word of the expression is visible afterwards. -/
theorem replaceAll_clean (marked : mark ∈ new.head?)
    (visible : ∀ u ∈ r.language, Visible mark new u) (word : w ∈ r.language) (t : List α) :
    ¬w <:+: replaceAll r new t := by
  intro h
  have proper : [] ∉ r.language := fun word => (visible [] word).given rfl
  obtain ⟨t', -, ⟨q, rfl⟩, none⟩ := replaceAll_factor proper marked (visible w word) h
  have : q ∈ r.rest (w ++ q) := mem_rest.2 ⟨w, word, rfl⟩
  simp [none] at this

/-- What could not be seen before cannot be seen afterwards. -/
theorem replaceAll_keeps (proper : [] ∉ r.language) (marked : mark ∈ new.head?)
    (visible : Visible mark new w) {t : List α} (h : ¬w <:+: t) : ¬w <:+: replaceAll r new t := by
  intro found
  obtain ⟨t', suffix, front, -⟩ := replaceAll_factor proper marked visible found
  exact h (front.isInfix.trans suffix.isInfix)

end Masks

/-! Texts side by side. -/

theorem afterRun_append (p : α → Bool) (s t : List α) :
    (afterRun p (s ++ t)).filter (t.length ≤ ·.length) = (afterRun p s).map (· ++ t) := by
  induction s with
  | nil =>
    cases t with
    | nil => simp [afterRun]
    | cons a t =>
      have short : (afterRun p t).filter ((a :: t).length ≤ ·.length) = [] := by
        apply List.filter_eq_nil_iff.2
        intro t' h
        have := rest_length (r := many p) h
        simpa using by omega
      by_cases ha : p a = true
      · simpa [afterRun, ha] using short
      · simp [afterRun, ha]
  | cons a s ih =>
    have long : t.length ≤ s.length + t.length + 1 := by omega
    by_cases ha : p a = true <;> simp [afterRun, ha, ih, long]

/-- The matches that end in the first text are those in this text alone. -/
theorem rest_append (r : Pattern α) (s t : List α) :
    (r.rest (s ++ t)).filter (t.length ≤ ·.length) = (r.rest s).map (· ++ t) := by
  induction r generalizing s with
  | empty => simp [rest]
  | one p =>
    cases s with
    | nil =>
      apply List.filter_eq_nil_iff.2
      intro t' h
      obtain ⟨_, ⟨a, -, rfl⟩, rfl⟩ := mem_rest.1 h
      simp
    | cons a s => by_cases ha : p a = true <;> simp [rest, ha]
  | many p => exact afterRun_append p s t
  | opt r ih => simp [rest, ih]
  | seq r q hr hq =>
    simp only [rest, List.filter_flatMap, List.map_flatMap]
    calc (r.rest (s ++ t)).flatMap (fun x => (q.rest x).filter (t.length ≤ ·.length))
        = ((r.rest (s ++ t)).filter (t.length ≤ ·.length)).flatMap
            (fun x => (q.rest x).filter (t.length ≤ ·.length)) := by
          induction r.rest (s ++ t) with
          | nil => rfl
          | cons x xs ih =>
            by_cases hx : t.length ≤ x.length
            · simp [hx, ih]
            · have short : (q.rest x).filter (t.length ≤ ·.length) = [] := by
                apply List.filter_eq_nil_iff.2
                intro t' h
                have := rest_length h
                simpa using by omega
              simp [hx, ih, short]
      _ = (r.rest s).flatMap (fun x => (q.rest x).map (· ++ t)) := by
          rw [hr, List.flatMap_map]
          simp only [hq]

/-- A word of the expression is read over the border between two texts. -/
def Crosses (r : Pattern α) (s t : List α) : Prop :=
  ∃ u v, u ≠ [] ∧ v ≠ [] ∧ u <:+ s ∧ v <+: t ∧ u ++ v ∈ r.language

theorem Crosses.of_suffix {r : Pattern α} {s s' t : List α} (h : Crosses r s' t) (tail : s' <:+ s) :
    Crosses r s t := by
  obtain ⟨u, v, hu, hv, suffix, front, word⟩ := h
  exact ⟨u, v, hu, hv, suffix.trans tail, front, word⟩

theorem rest_of_not_crosses {r : Pattern α} {s t : List α} (given : s ≠ [])
    (apart : ¬Crosses r s t) : r.rest (s ++ t) = (r.rest s).map (· ++ t) := by
  rw [← rest_append]
  symm
  apply List.filter_eq_self.2
  intro t' h
  obtain ⟨w, word, hw⟩ := mem_rest.1 h
  by_contra short
  have short : t'.length < t.length := by simpa using short
  obtain ⟨v, rfl, rfl⟩ | ⟨v, rfl, rfl⟩ := List.append_eq_append_iff.1 hw
  · simp only [List.length_append] at short
    omega
  · apply apart
    refine ⟨s, v, given, ?_, List.suffix_rfl, List.prefix_append .., word⟩
    rintro rfl
    simp at short

theorem replaceAll_append {r : Pattern α} {new s t : List α} (proper : [] ∉ r.language)
    (apart : ¬Crosses r s t) :
    replaceAll r new (s ++ t) = replaceAll r new s ++ replaceAll r new t := by
  have nothing : r.rest [] = [] := by
    apply List.eq_nil_iff_forall_not_mem.2
    intro t' h
    obtain ⟨w, word, hw⟩ := mem_rest.1 h
    exact proper ((List.append_eq_nil_iff.1 hw).1 ▸ word)
  induction s using replaceAll.induct r with
  | case1 none => simp [replaceAll, nothing]
  | case2 some => exact absurd nothing some
  | case3 a s none ih =>
    have rest := rest_of_not_crosses (List.cons_ne_nil a s) apart
    rw [List.cons_append] at rest ⊢
    rw [replaceAll, rest, List.head?_map, none, replaceAll, none]
    simpa using ih fun h => apart (h.of_suffix (List.suffix_cons ..))
  | case4 a s s' found shorter ih =>
    have rest := rest_of_not_crosses (List.cons_ne_nil a s) apart
    obtain ⟨u, -, hu⟩ := mem_rest.1 (List.mem_of_head? found)
    rw [List.cons_append] at rest ⊢
    rw [replaceAll, rest, List.head?_map, found, replaceAll, found]
    simpa [shorter] using ih fun h => apart (h.of_suffix ⟨u, hu⟩)
  | case5 a s s' found longer ih =>
    obtain ⟨u, word, hu⟩ := mem_rest.1 (List.mem_of_head? found)
    have lengths := congrArg List.length hu
    rw [List.length_append, List.length_cons] at lengths
    obtain rfl : u = [] := List.eq_nil_of_length_eq_zero (by omega)
    exact absurd word proper

theorem replaceAll_word {r : Pattern α} {new w : List α} (word : w ∈ r.language) (given : w ≠ [])
    (only : ∀ u ∈ r.language, u <+: w → u = w) : replaceAll r new w = new := by
  have ends : ∀ t' ∈ r.rest w, t' = [] := by
    intro t' h
    obtain ⟨u, hu, rfl⟩ := mem_rest.1 h
    simpa using only u hu (List.prefix_append ..)
  have found : (r.rest w).head? = some [] := by
    have some : ([] : List α) ∈ r.rest w := mem_rest.2 ⟨w, word, by simp⟩
    cases rests : r.rest w with
    | nil => simp [rests] at some
    | cons t' ts =>
      rw [ends t' (by simp [rests])]
      rfl
  have nothing : r.rest [] = [] := by
    apply List.eq_nil_iff_forall_not_mem.2
    intro t' h
    obtain ⟨u, hu, h⟩ := mem_rest.1 h
    obtain ⟨rfl, rfl⟩ := List.append_eq_nil_iff.1 h
    exact given (only [] hu List.nil_prefix).symm
  cases w with
  | nil => exact absurd rfl given
  | cons a w =>
    rw [replaceAll, found]
    simp [replaceAll, nothing]

/-- A text in which nothing matches stays as it is. -/
theorem replaceAll_free {r : Pattern α} {new t : List α} (free : ∀ w ∈ r.language, ¬w <:+: t) :
    replaceAll r new t = t := by
  have none : ∀ t', t' <:+ t → r.rest t' = [] := by
    intro t' suffix
    apply List.eq_nil_iff_forall_not_mem.2
    intro t'' h
    obtain ⟨w, word, rfl⟩ := mem_rest.1 h
    exact free w word ((List.prefix_append ..).isInfix.trans suffix.isInfix)
  induction t with
  | nil => rw [replaceAll, if_pos (none [] List.suffix_rfl)]
  | cons a t ih =>
    rw [replaceAll, none _ List.suffix_rfl]
    simp only [List.head?_nil, List.cons.injEq, true_and]
    apply ih
    · intro w word h
      exact free w word (h.trans (List.suffix_cons ..).isInfix)
    · intro t' suffix
      exact none t' (suffix.trans (List.suffix_cons ..))

end Pattern

/-! Texts that a nondeterministic automaton reads. -/

namespace Automaton
variable {α σ : Type} (next : σ → α → List σ)

/-- The states in which the automaton can be behind the text. -/
def ends (ss : List σ) (t : List α) : List σ := t.foldl (fun ss a => ss.flatMap (next · a)) ss

variable {next}

@[simp] theorem ends_nil (ss : List σ) : ends next ss [] = ss := rfl

@[simp] theorem ends_cons (ss : List σ) (a : α) (t : List α) :
    ends next ss (a :: t) = ends next (ss.flatMap (next · a)) t := rfl

theorem ends_append (ss : List σ) (s t : List α) :
    ends next ss (s ++ t) = ends next (ends next ss s) t := List.foldl_append

theorem ends_mono {ss ss' : List σ} (h : ss ⊆ ss') (t : List α) :
    ends next ss t ⊆ ends next ss' t := by
  induction t generalizing ss ss' with
  | nil => exact h
  | cons a t ih =>
    apply ih
    intro u hu
    obtain ⟨s, hs, hu⟩ := List.mem_flatMap.1 hu
    exact List.mem_flatMap.2 ⟨s, h hs, hu⟩

theorem ends_none (t : List α) : ends next [] t = [] := by
  induction t with
  | nil => rfl
  | cons a t ih => exact ih

/-- The automaton stays in states that each character of the text keeps. -/
theorem ends_within {ss : List σ} {t : List α} (keeps : ∀ a ∈ t, ∀ s ∈ ss, next s a ⊆ ss) :
    ends next ss t ⊆ ss := by
  induction t with
  | nil => exact List.Subset.refl ss
  | cons a t ih =>
    have stay : ss.flatMap (next · a) ⊆ ss := by
      intro u hu
      obtain ⟨s, hs, hu⟩ := List.mem_flatMap.1 hu
      exact keeps a (List.mem_cons_self ..) s hs hu
    intro u hu
    exact ih (fun b hb => keeps b (List.mem_cons_of_mem _ hb)) (ends_mono stay t hu)

/-- No text that the automaton reads has a part that it can read from no state. -/
theorem ends_infix {all ss : List σ} (total : ∀ s, s ∈ all) {u t : List α} (h : u <:+: t)
    (dead : ends next all u = []) : ends next ss t = [] := by
  obtain ⟨p, q, rfl⟩ := h
  rw [ends_append, ends_append]
  have : ends next (ends next ss p) u = [] := by
    apply List.subset_nil.1
    rw [← dead]
    exact ends_mono (fun s _ => total s) u
  rw [this, ends_none]

theorem ends_rewritten {r : Pattern α} {new t t' : List α}
    (word : ∀ w ∈ r.language, ∀ ss, ends next ss w ⊆ ends next ss new)
    (h : r.Rewritten new t t') (ss : List σ) : ends next ss t ⊆ ends next ss t' := by
  induction h generalizing ss with
  | nil => exact List.Subset.refl ss
  | kept a h ih => exact ih _
  | replaced hw h ih =>
    rw [ends_append, ends_append]
    exact List.Subset.trans (ends_mono (word _ hw ss) _) (ih _)

end Automaton
