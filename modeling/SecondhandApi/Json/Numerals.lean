import SecondhandApi.JavaScript
import SecondhandApi.Json.Strings
import Mathlib.Data.Nat.Digits.Lemmas

/-! Numbers as JSON writes and reads them. -/
namespace Json
open Binary64 JavaScript

def digitUnit (d : Nat) : UInt16 := (48 + d).toUInt16

def digitOf (c : UInt16) : Option Nat :=
  if 48 ≤ c.toNat ∧ c.toNat ≤ 57 then some (c.toNat - 48) else none

/-- The longest run of digits in front of a text. -/
def takeDigits : Text → List Nat × Text
  | [] => ([], [])
  | c :: cs =>
    match digitOf c with
    | some d => (d :: (takeDigits cs).1, (takeDigits cs).2)
    | none => ([], c :: cs)

def someDigits (t : Text) : Option (List Nat × Text) :=
  if (takeDigits t).1 = [] then none else some (takeDigits t)

/-- The decimal digits of a number, those of zero included. -/
def decimal (n : Nat) : List Nat := if n = 0 then [0] else (Nat.digits 10 n).reverse

structure Numeral where
  whole : List Nat
  fraction : List Nat
  exponent : Option Int

namespace Numeral

def value (m : Numeral) : Rat :=
  positional 10 (m.whole ++ m.fraction) * 10 ^ (m.exponent.getD 0 - m.fraction.length)

/-- `whole` has no zero in front, except for zero itself. -/
structure Proper (m : Numeral) : Prop where
  front : m.whole = [0] ∨ ∃ d ds, m.whole = d :: ds ∧ d ≠ 0
  whole : ∀ d ∈ m.whole, d < 10
  fraction : ∀ d ∈ m.fraction, d < 10

def fractionText : List Nat → Text
  | [] => []
  | d :: ds => unit '.' :: (d :: ds).map digitUnit

def exponentText : Option Int → Text
  | none => []
  | some e => unit 'e' :: (if e < 0 then unit '-' else unit '+') :: (decimal e.natAbs).map digitUnit

def text (m : Numeral) : Text :=
  m.whole.map digitUnit ++ (fractionText m.fraction ++ exponentText m.exponent)

end Numeral

def readWhole : Text → Option (List Nat × Text)
  | [] => none
  | c :: cs => if c = unit '0' then some ([0], cs) else someDigits (c :: cs)

def readFraction : Text → Option (List Nat × Text)
  | [] => some ([], [])
  | c :: cs => if c = unit '.' then someDigits cs else some ([], c :: cs)

def readSign : Text → Bool × Text
  | [] => (false, [])
  | c :: cs =>
    if c = unit '-' then (true, cs) else if c = unit '+' then (false, cs) else (false, c :: cs)

def readExponent : Text → Option (Option Int × Text)
  | [] => some (none, [])
  | c :: cs =>
    if c = unit 'e' ∨ c = unit 'E' then
      (someDigits (readSign cs).2).map fun p =>
        (some (if (readSign cs).1 then -positional 10 p.1 else positional 10 p.1), p.2)
    else some (none, c :: cs)

def readNumeral (t : Text) : Option (Numeral × Text) := do
  let (whole, t) ← readWhole t
  let (fraction, t) ← readFraction t
  let (exponent, t) ← readExponent t
  return (⟨whole, fraction, exponent⟩, t)

/-! Reading back a numeral. -/

theorem digitOf_digitUnit : ∀ d < 10, digitOf (digitUnit d) = some d := by decide

theorem positional_reverse (base : Nat) (ds : List Nat) :
    positional base ds.reverse = Nat.ofDigits base ds := by
  induction ds with
  | nil => rfl
  | cons d ds ih =>
    simp only [positional, List.foldl_reverse, List.foldr_cons, Nat.ofDigits_cons] at ih ⊢
    rw [ih, Nat.add_comm]

theorem positional_decimal (n : Nat) : positional 10 (decimal n) = n := by
  unfold decimal
  split_ifs with zero
  · simp [positional, zero]
  · rw [positional_reverse, Nat.ofDigits_digits]

theorem decimal_lt {n d : Nat} (h : d ∈ decimal n) : d < 10 := by
  unfold decimal at h
  split_ifs at h
  · simp_all
  · exact Nat.digits_lt_base (by omega) (List.mem_reverse.mp h)

theorem decimal_ne_nil (n : Nat) : decimal n ≠ [] := by
  unfold decimal
  split_ifs with zero
  · simp
  · simpa [Nat.digits_eq_nil_iff_eq_zero] using zero

/-- Nothing that could continue a numeral stands in front of the text. -/
def Ended (t : Text) : Prop :=
  ∀ c ∈ t.head?, digitOf c = none ∧ c ≠ unit '.' ∧ c ≠ unit 'e' ∧ c ≠ unit 'E'

theorem digitUnit_ne_zero : ∀ d < 10, d ≠ 0 → digitUnit d ≠ unit '0' := by decide

theorem takeDigits_append {ds : List Nat} (small : ∀ d ∈ ds, d < 10) {t : Text}
    (stop : ∀ c ∈ t.head?, digitOf c = none) : takeDigits (ds.map digitUnit ++ t) = (ds, t) := by
  induction ds with
  | nil =>
    cases t with
    | nil => rfl
    | cons c cs => simp [takeDigits, stop c rfl]
  | cons d ds ih =>
    have rest := ih fun e listed => small e (List.mem_cons_of_mem d listed)
    simp [takeDigits, digitOf_digitUnit d (small d List.mem_cons_self), rest]

theorem someDigits_append {ds : List Nat} (small : ∀ d ∈ ds, d < 10) (given : ds ≠ []) {t : Text}
    (stop : ∀ c ∈ t.head?, digitOf c = none) :
    someDigits (ds.map digitUnit ++ t) = some (ds, t) := by
  simp [someDigits, takeDigits_append small stop, given]

theorem readExponent_text (e : Option Int) {t : Text} (ended : Ended t) :
    readExponent (Numeral.exponentText e ++ t) = some (e, t) := by
  cases e with
  | none =>
    cases t with
    | nil => rfl
    | cons c cs => simp [Numeral.exponentText, readExponent, (ended c rfl).2]
  | some e =>
    have digits := someDigits_append (fun d => decimal_lt) (decimal_ne_nil e.natAbs)
      fun c first => (ended c first).1
    by_cases negative : e < 0
    · simp +decide [Numeral.exponentText, readExponent, readSign, negative, digits,
        positional_decimal]
      have size := abs_of_neg negative
      omega
    · simp +decide [Numeral.exponentText, readExponent, readSign, negative, digits,
        positional_decimal]
      omega

theorem exponentText_head {e : Option Int} {t : Text} (ended : Ended t) :
    ∀ c ∈ (Numeral.exponentText e ++ t).head?, digitOf c = none ∧ c ≠ unit '.' := by
  intro c first
  cases e with
  | none => exact ⟨(ended c first).1, (ended c first).2.1⟩
  | some e =>
    cases first
    decide

theorem readFraction_text {ds : List Nat} (small : ∀ d ∈ ds, d < 10) {t : Text}
    (stop : ∀ c ∈ t.head?, digitOf c = none ∧ c ≠ unit '.') :
    readFraction (Numeral.fractionText ds ++ t) = some (ds, t) := by
  cases ds with
  | nil =>
    cases t with
    | nil => rfl
    | cons c cs => simp [Numeral.fractionText, readFraction, (stop c rfl).2]
  | cons d ds =>
    simpa [Numeral.fractionText, readFraction] using
      someDigits_append small (List.cons_ne_nil d ds) fun c first => (stop c first).1

theorem fractionText_head {ds : List Nat} {t : Text} (stop : ∀ c ∈ t.head?, digitOf c = none) :
    ∀ c ∈ (Numeral.fractionText ds ++ t).head?, digitOf c = none := by
  intro c first
  cases ds with
  | nil => exact stop c first
  | cons d ds =>
    cases first
    decide

theorem readWhole_text {m : Numeral} (proper : m.Proper) {t : Text}
    (stop : ∀ c ∈ t.head?, digitOf c = none) :
    readWhole (m.whole.map digitUnit ++ t) = some (m.whole, t) := by
  rcases proper.front with zero | ⟨d, ds, split, nonzero⟩
  · simp +decide [zero, readWhole]
  · have digits := someDigits_append proper.whole (by simp [split]) stop
    have first := digitUnit_ne_zero d (proper.whole d (by simp [split])) nonzero
    simp only [split, List.map_cons, List.cons_append, readWhole, first, if_false] at digits ⊢
    exact digits

theorem readNumeral_text {m : Numeral} (proper : m.Proper) {t : Text} (ended : Ended t) :
    readNumeral (m.text ++ t) = some (m, t) := by
  have exponent := exponentText_head (e := m.exponent) ended
  have fraction := @fractionText_head m.fraction _ fun c first => (exponent c first).1
  simp [readNumeral, Numeral.text, readWhole_text proper fraction,
    readFraction_text proper.fraction exponent, readExponent_text m.exponent ended]

/-! `Number::toString`. -/

/-- The decimals of `k` digits below and above `q`, as a whole number and a power of ten; the
closer one is first. -/
def neighbours (q : Rat) (k : Nat) : List (Nat × Int) :=
  let e := Int.log 10 q + 1 - k
  let close := roundHalfEven (q / 10 ^ e)
  [(close.toNat, e), ((2 * (q / 10 ^ e).floor + 1 - close).toNat, e)]

/-- No number has more digits than this, as it is a multiple of the smallest one. -/
def digitBound (q : Rat) : Nat := (Int.log 10 q + 1075).toNat + 1

/-- The shortest decimal that is rounded to `q`. -/
def shortest (q : Rat) : Nat × Int :=
  ((List.range' 1 (digitBound q)).findSome? fun k =>
    (neighbours q k).find? fun p => nearest (p.1 * 10 ^ p.2) = q).getD (0, 0)

/-- The digits of `s` up to the last one that is not zero. -/
def significant (s : Nat) : List Nat := ((Nat.digits 10 s).dropWhile (· = 0)).reverse

/-- Where the point stands in front of the digit number `n` of `ds`. -/
def layout (ds : List Nat) (n : Int) : Numeral :=
  if ds.length ≤ n ∧ n ≤ 21 then ⟨ds ++ List.replicate (n - ds.length).toNat 0, [], none⟩
  else if 0 < n ∧ n ≤ 21 then ⟨ds.take n.toNat, ds.drop n.toNat, none⟩
  else if -6 < n ∧ n ≤ 0 then ⟨[0], List.replicate (-n).toNat 0 ++ ds, none⟩
  else ⟨ds.take 1, ds.drop 1, some (n - 1)⟩

/-- The numeral of a number from 0 on. -/
def numeral (q : Rat) : Numeral :=
  if q = 0 then ⟨[0], [], none⟩
  else layout (significant (shortest q).1)
    ((shortest q).2 + (Nat.digits 10 (shortest q).1).length)

/-- What `JSON.stringify` makes of a number. -/
def numberText : Number → Text
  | .finite q => if q < 0 then unit '-' :: (numeral (-q)).text else (numeral q).text
  | _ => ascii "null"

def readNumber : Text → Option (Number × Text)
  | [] => none
  | c :: cs =>
    if c = unit '-' then (readNumeral cs).map fun p => (.ofRat (-p.1.value), p.2)
    else (readNumeral (c :: cs)).map fun p => (.ofRat p.1.value, p.2)

/-- A finite number of 64 bits. -/
structure Stored (q : Rat) : Prop where
  exact : nearest q = q
  bounded : |q| < 2 ^ 1024

theorem multiple_of_smallest {q : Rat} (positive : 0 < q) (exact : nearest q = q) {e : Int}
    (small : e ≤ -1074) : ∃ n : Nat, q / 10 ^ e = n := by
  have place : -1074 ≤ lastPlace q := le_max_right _ _
  obtain ⟨a, ha⟩ := Int.eq_ofNat_of_zero_le (show 0 ≤ -e by omega)
  obtain ⟨b, hb⟩ := Int.eq_ofNat_of_zero_le (show 0 ≤ lastPlace q - e by omega)
  obtain ⟨n, hn⟩ := Int.eq_ofNat_of_zero_le
    (roundHalfEven_nonneg (div_nonneg positive.le (unit_pos q).le))
  refine ⟨n * 2 ^ b * 5 ^ a, ?_⟩
  have tens : (10 : Rat) ^ (-e) = 2 ^ (-e) * 5 ^ (-e) := by
    rw [← mul_zpow]
    norm_num
  calc q / 10 ^ e = n * 2 ^ lastPlace q * (2 ^ (-e) * 5 ^ (-e)) := by
        rw [← tens, div_eq_mul_inv, ← zpow_neg]
        nth_rewrite 1 [← exact]
        rw [nearest, hn]
        norm_cast
    _ = n * 2 ^ (lastPlace q - e) * 5 ^ (-e) := by
        rw [sub_eq_add_neg, zpow_add₀ (by norm_num)]
        ring
    _ = _ := by
        rw [hb, ha]
        norm_cast

theorem neighbour_exact {q : Rat} (positive : 0 < q) (exact : nearest q = q) :
    ∃ p ∈ neighbours q (digitBound q), nearest (p.1 * 10 ^ p.2) = q := by
  obtain ⟨n, multiple⟩ := multiple_of_smallest positive exact
    (e := Int.log 10 q + 1 - digitBound q) (by unfold digitBound; omega)
  refine ⟨_, List.mem_cons_self, ?_⟩
  have whole : roundHalfEven (n : Rat) = n := by exact_mod_cast roundHalfEven_int n
  have scale : (10 : Rat) ^ (Int.log 10 q + 1 - digitBound q) ≠ 0 := zpow_ne_zero _ (by norm_num)
  simp only [multiple, whole, Int.toNat_natCast]
  rw [← multiple, div_mul_cancel₀ _ scale, exact]

/-- The search for the shortest decimal ends with one. -/
theorem nearest_shortest {q : Rat} (positive : 0 < q) (exact : nearest q = q) :
    nearest ((shortest q).1 * 10 ^ (shortest q).2) = q := by
  have ends : ((List.range' 1 (digitBound q)).findSome? fun k =>
      (neighbours q k).find? fun p => nearest (p.1 * 10 ^ p.2) = q).isSome := by
    obtain ⟨p, listed, back⟩ := neighbour_exact positive exact
    simp only [List.findSome?_isSome_iff, List.find?_isSome]
    refine ⟨digitBound q, ?_, p, listed, by simpa using back⟩
    simp only [List.mem_range'_1]
    unfold digitBound
    omega
  obtain ⟨p, found⟩ := Option.isSome_iff_exists.mp ends
  obtain ⟨k, -, chosen⟩ := List.exists_of_findSome?_eq_some found
  rw [shortest, found]
  simpa using List.find?_some chosen

theorem shortest_pos {q : Rat} (positive : 0 < q) (exact : nearest q = q) :
    (shortest q).1 ≠ 0 := by
  intro zero
  have rounded := nearest_shortest positive exact
  have none : nearest 0 = 0 := by simpa using nearest_int (n := 0) (by norm_num)
  rw [zero, Nat.cast_zero, zero_mul, none] at rounded
  exact positive.ne rounded

theorem positional_append (base : Nat) (ds es : List Nat) :
    positional base (ds ++ es) = positional base ds * base ^ es.length + positional base es := by
  induction es using List.reverseRecOn with
  | nil => simp [positional]
  | append_singleton es e ih =>
    simp only [positional, ← List.append_assoc, List.foldl_append, List.foldl_cons,
      List.foldl_nil, List.length_append, List.length_singleton, pow_succ] at ih ⊢
    rw [ih]
    ring

theorem positional_zeros (base k : Nat) : positional base (List.replicate k 0) = 0 := by
  induction k with
  | zero => rfl
  | succ k ih => simpa [positional, List.replicate_succ] using ih

theorem layout_value {ds : List Nat} (given : ds ≠ []) (n : Int) :
    (layout ds n).value = positional 10 ds * 10 ^ (n - ds.length) := by
  have length : 0 < ds.length := List.length_pos_of_ne_nil given
  unfold layout Numeral.value
  split_ifs with whole inside small
  · obtain ⟨k, hk⟩ := Int.eq_ofNat_of_zero_le (sub_nonneg.mpr whole.1)
    simp [positional_append, positional_zeros, hk]
  · have size : ((ds.drop n.toNat).length : Int) = ds.length - n := by
      rw [List.length_drop]
      omega
    simp only [List.take_append_drop, size, Option.getD_none, zero_sub, neg_sub]
  · have size : ((List.replicate (-n).toNat 0 ++ ds).length : Int) = ds.length - n := by
      rw [List.length_append, List.length_replicate]
      omega
    have digits : positional 10 ([0] ++ (List.replicate (-n).toNat 0 ++ ds)) = positional 10 ds := by
      rw [positional_append, positional_append, positional_zeros]
      simp [positional]
    simp only [size, digits, Option.getD_none, zero_sub, neg_sub]
  · have size : ((ds.drop 1).length : Int) = ds.length - 1 := by
      rw [List.length_drop]
      omega
    simp only [List.take_append_drop, size, Option.getD_some]
    congr 2
    omega

theorem layout_proper {d : Nat} {ds : List Nat} (nonzero : d ≠ 0) (digits : ∀ e ∈ d :: ds, e < 10)
    (n : Int) : (layout (d :: ds) n).Proper := by
  have zeros : ∀ k, ∀ e ∈ List.replicate k 0, e < 10 := by
    intro k e listed
    rw [List.eq_of_mem_replicate listed]
    omega
  unfold layout
  split_ifs with whole inside small
  · exact ⟨.inr ⟨d, _, List.cons_append, nonzero⟩, by
      intro e listed
      rcases List.mem_append.mp listed with given | zero
      · exact digits e given
      · exact zeros _ e zero, by simp⟩
  · obtain ⟨k, hk⟩ : ∃ k, n.toNat = k + 1 := ⟨n.toNat - 1, by omega⟩
    exact ⟨.inr ⟨d, ds.take k, by simp [hk], nonzero⟩,
      fun e listed => digits e (List.mem_of_mem_take listed),
      fun e listed => digits e (List.mem_of_mem_drop listed)⟩
  · exact ⟨.inl rfl, by simp, by
      intro e listed
      rcases List.mem_append.mp listed with zero | given
      · exact zeros _ e zero
      · exact digits e given⟩
  · exact ⟨.inr ⟨d, [], rfl, nonzero⟩, fun e listed => digits e (List.mem_of_mem_take listed),
      fun e listed => digits e (List.mem_of_mem_drop listed)⟩

theorem ofDigits_dropWhile (ds : List Nat) :
    Nat.ofDigits 10 ds = Nat.ofDigits 10 (ds.dropWhile (· = 0)) *
      10 ^ (ds.length - (ds.dropWhile (· = 0)).length) := by
  induction ds with
  | nil => rfl
  | cons d ds ih =>
    by_cases zero : d = 0
    · have shorter := (ds.dropWhile_sublist (· = 0)).length_le
      have step : ds.length + 1 - (ds.dropWhile (· = 0)).length =
          ds.length - (ds.dropWhile (· = 0)).length + 1 := by omega
      simp only [zero, List.dropWhile_cons, decide_true, if_true, List.length_cons, step,
        Nat.ofDigits_cons, pow_succ]
      rw [ih]
      simp
      ring
    · simp [zero]

/-- The digits of `s` with fewer zeros: the first of them is not zero. -/
theorem significant_shape {s : Nat} (nonzero : s ≠ 0) :
    ∃ d ds, significant s = d :: ds ∧ d ≠ 0 ∧ ∀ e ∈ d :: ds, e < 10 := by
  have value : Nat.ofDigits 10 ((Nat.digits 10 s).dropWhile (· = 0)) ≠ 0 := by
    intro zero
    have all := ofDigits_dropWhile (Nat.digits 10 s)
    rw [Nat.ofDigits_digits, zero, zero_mul] at all
    exact nonzero all
  cases shape : significant s with
  | nil =>
    have none : (Nat.digits 10 s).dropWhile (· = 0) = [] := by simpa [significant] using shape
    exact absurd (by simp [none]) value
  | cons d ds =>
    have kept : (Nat.digits 10 s).dropWhile (· = 0) = ds.reverse ++ [d] := by
      simpa [significant] using congrArg List.reverse shape
    obtain ⟨front, split⟩ : ∃ front, Nat.digits 10 s = (front ++ ds.reverse) ++ [d] := by
      refine ⟨(Nat.digits 10 s).takeWhile (· = 0), ?_⟩
      rw [List.append_assoc, ← kept, List.takeWhile_append_dropWhile]
    have last := Nat.getLast_digit_ne_zero 10 nonzero
    simp only [split, List.getLast_append_singleton] at last
    refine ⟨d, ds, rfl, last, fun e listed => ?_⟩
    refine Nat.digits_lt_base (show 1 < 10 by omega) (m := s) ?_
    rw [split]
    simp only [List.mem_append, List.mem_reverse, List.mem_singleton]
    rcases List.mem_cons.mp listed with first | other
    · exact .inr first
    · exact .inl (.inr other)

theorem significant_value (s : Nat) :
    s = positional 10 (significant s) * 10 ^ ((Nat.digits 10 s).length - (significant s).length) := by
  rw [significant, positional_reverse, List.length_reverse, ← ofDigits_dropWhile,
    Nat.ofDigits_digits]

theorem numeral_spec {q : Rat} (nonneg : 0 ≤ q) (exact : nearest q = q) :
    (numeral q).Proper ∧ nearest (numeral q).value = q := by
  unfold numeral
  split_ifs with zero
  · refine ⟨⟨.inl rfl, by simp, by simp⟩, ?_⟩
    simpa [Numeral.value, positional, zero] using nearest_int (n := 0) (by norm_num)
  · have positive := lt_of_le_of_ne nonneg (Ne.symm zero)
    obtain ⟨d, ds, shape, nonzero, digits⟩ := significant_shape (shortest_pos positive exact)
    have shorter : (significant (shortest q).1).length ≤ (Nat.digits 10 (shortest q).1).length := by
      simpa [significant] using ((Nat.digits 10 (shortest q).1).dropWhile_sublist (· = 0)).length_le
    refine ⟨shape ▸ layout_proper nonzero digits _, ?_⟩
    have value : (layout (significant (shortest q).1)
        ((shortest q).2 + (Nat.digits 10 (shortest q).1).length)).value =
          (shortest q).1 * 10 ^ (shortest q).2 := by
      conv_rhs => rw [significant_value (shortest q).1]
      rw [layout_value (by simp [shape]), add_sub_assoc, zpow_add₀ (by norm_num)]
      push_cast [← Nat.cast_sub shorter]
      rw [zpow_natCast]
      ring
    rw [value, nearest_shortest positive exact]

/-- A numeral starts with a digit. -/
theorem numeral_text_head {m : Numeral} (proper : m.Proper) :
    ∃ d < 10, ∃ cs, m.text = digitUnit d :: cs := by
  rcases proper.front with zero | ⟨d, ds, split, -⟩
  · exact ⟨0, by omega, _, by rw [Numeral.text, zero]; rfl⟩
  · exact ⟨d, proper.whole d (by simp [split]), _, by rw [Numeral.text, split]; rfl⟩

theorem digitUnit_ne_minus : ∀ d < 10, digitUnit d ≠ unit '-' := by decide

/-- A number is read back from its text. -/
theorem readNumber_text {q : Rat} (stored : Stored q) {t : Text} (ended : Ended t) :
    readNumber (numberText (.finite q) ++ t) = some (.finite q, t) := by
  have size : |nearest q| < 2 ^ 1024 := stored.exact.symm ▸ stored.bounded
  simp only [numberText]
  split_ifs with negative
  · have exact : nearest (-q) = -q := by rw [nearest_neg, stored.exact]
    obtain ⟨proper, rounded⟩ := numeral_spec (neg_nonneg.mpr negative.le) exact
    have back : nearest (-(numeral (-q)).value) = q := by rw [nearest_neg, rounded, neg_neg]
    have number := Number.ofRat_finite (back.symm ▸ stored.bounded)
    simp [readNumber, readNumeral_text proper ended, number, back]
  · obtain ⟨proper, rounded⟩ := numeral_spec (not_lt.mp negative) stored.exact
    obtain ⟨d, digit, cs, first⟩ := numeral_text_head proper
    have number := Number.ofRat_finite (rounded.symm ▸ stored.bounded)
    have read := readNumeral_text proper ended
    rw [first, List.cons_append] at read ⊢
    simp [readNumber, digitUnit_ne_minus d digit, read, number, rounded]

/-! A numeral takes at least one character. -/

theorem takeDigits_length (t : Text) :
    (takeDigits t).1.length + (takeDigits t).2.length = t.length := by
  induction t with
  | nil => rfl
  | cons c cs ih =>
    unfold takeDigits
    split
    · simp
      omega
    · simp

theorem someDigits_length {t rest : Text} {ds : List Nat} (h : someDigits t = some (ds, rest)) :
    rest.length < t.length := by
  unfold someDigits at h
  split_ifs at h with empty
  have length := takeDigits_length t
  have given := List.length_pos_of_ne_nil empty
  rw [Option.some.inj h] at length given
  simp only at length given
  omega

theorem readWhole_length {t rest : Text} {ds : List Nat} (h : readWhole t = some (ds, rest)) :
    rest.length < t.length := by
  cases t with
  | nil => cases h
  | cons c cs =>
    simp only [readWhole] at h
    split_ifs at h
    · cases h
      simp
    · exact someDigits_length h

theorem readFraction_length {t rest : Text} {ds : List Nat} (h : readFraction t = some (ds, rest)) :
    rest.length ≤ t.length := by
  cases t with
  | nil =>
    cases h
    simp
  | cons c cs =>
    simp only [readFraction] at h
    split_ifs at h
    · have := someDigits_length h
      simp only [List.length_cons]
      omega
    · cases h
      simp

theorem readSign_length (t : Text) : (readSign t).2.length ≤ t.length := by
  cases t with
  | nil => simp [readSign]
  | cons c cs =>
    simp only [readSign]
    split_ifs <;> simp

theorem readExponent_length {t rest : Text} {e : Option Int}
    (h : readExponent t = some (e, rest)) : rest.length ≤ t.length := by
  cases t with
  | nil =>
    cases h
    simp
  | cons c cs =>
    simp only [readExponent] at h
    split at h
    · obtain ⟨p, found, same⟩ := Option.map_eq_some_iff.mp h
      cases same
      have digits := someDigits_length found
      have sign := readSign_length cs
      simp only [List.length_cons]
      omega
    · cases h
      simp

theorem readNumeral_length {t rest : Text} {m : Numeral} (h : readNumeral t = some (m, rest)) :
    rest.length < t.length := by
  simp only [readNumeral, Option.bind_eq_bind, Option.bind_eq_some_iff, Option.pure_def,
    Option.some.injEq, Prod.mk.injEq] at h
  obtain ⟨⟨whole, t₁⟩, first, ⟨fraction, t₂⟩, second, ⟨exponent, t₃⟩, third, -, rfl⟩ := h
  have whole_part : t₁.length < t.length := readWhole_length first
  have fraction_part : t₂.length ≤ t₁.length := readFraction_length second
  have exponent_part : t₃.length ≤ t₂.length := readExponent_length third
  exact exponent_part.trans_lt (fraction_part.trans_lt whole_part)

theorem readNumber_length {t rest : Text} {n : Number} (h : readNumber t = some (n, rest)) :
    rest.length < t.length := by
  cases t with
  | nil => cases h
  | cons c cs =>
    simp only [readNumber] at h
    split_ifs at h
    · obtain ⟨p, found, same⟩ := Option.map_eq_some_iff.mp h
      cases same
      have := readNumeral_length found
      simp only [List.length_cons]
      omega
    · obtain ⟨p, found, same⟩ := Option.map_eq_some_iff.mp h
      cases same
      exact readNumeral_length found

end Json
