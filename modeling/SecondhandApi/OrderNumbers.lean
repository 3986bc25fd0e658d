import SecondhandApi.Binary64
import SecondhandApi.Calls
import SecondhandApi.Operations

/-! `OrdersRepository.generateOrderNumber` on a sequence of draws: when it returns and which
numbers it makes. Other requests may change the orders between its checks. -/
namespace SecondhandApi
open Keyed Interleaving Binary64

/-- A date with a year of four digits, and what `Math.random()` answers. -/
structure Draw.Valid (d : Draw) : Prop where
  year : d.year ≤ 9999
  month : 1 ≤ d.month ∧ d.month ≤ 12
  day : 1 ≤ d.day ∧ d.day ≤ 31
  random : 0 ≤ d.random ∧ d.random < 1

namespace Draw

/-- `Math.floor(Math.random() * 1000000)` -/
def drawn (d : Draw) : Nat := (d.random * 1000000).floor.toNat

def SameDate (d d' : Draw) : Prop := d.year = d'.year ∧ d.month = d'.month ∧ d.day = d'.day

theorem Valid.drawn_lt {d : Draw} (valid : d.Valid) : d.drawn < 1000000 := by
  have floor : (d.random * 1000000).floor < 1000000 :=
    Rat.floor_lt_iff.mpr (by push_cast; linarith [valid.random.2])
  unfold drawn
  omega

end Draw

/-! The product with a number of 64 bits is rounded; what the program takes the floor of is the
product of a draw again. -/

theorem product_lt {r : Rat} (double : nearest r = r) (nonneg : 0 ≤ r) (below : r < 1) :
    nearest (r * 1000000) < 1000000 := by
  have top := le_of_lt_one double nonneg below
  have small : |r * 1000000| < 2 ^ 20 := by
    rw [abs_of_nonneg (by positivity)]
    norm_num
    linarith
  have most : nearest (r * 1000000) ≤ ((1000000 : Int) : Rat) :=
    nearest_le (small.trans (by norm_num)) (by push_cast; linarith)
  push_cast at most
  refine lt_of_le_of_ne most (fun same => ?_)
  have place : lastPlace (r * 1000000) ≤ -33 := by
    rcases eq_or_ne (r * 1000000) 0 with zero | nonzero
    · simp [zero, lastPlace]
    · have log : Int.log 2 |r * 1000000| < 20 :=
        (Int.lt_zpow_iff_log_lt (by norm_num) (abs_pos.mpr nonzero)).mp (by exact_mod_cast small)
      unfold lastPlace
      omega
  have unit : (2 : Rat) ^ lastPlace (r * 1000000) ≤ 2 ^ (-33 : Int) :=
    zpow_le_zpow_right₀ (by norm_num) place
  have error := (le_abs_self _).trans (abs_nearest_sub (r * 1000000))
  rw [same] at error
  norm_num at unit top
  linarith

namespace Draw

/-- The draw whose exact product is the rounded one of `d`. -/
def rounded (d : Draw) : Draw := { d with random := nearest (d.random * 1000000) / 1000000 }

theorem Valid.rounded {d : Draw} (valid : d.Valid) (double : nearest d.random = d.random) :
    d.rounded.Valid where
  year := valid.year
  month := valid.month
  day := valid.day
  random := by
    have below := product_lt double valid.random.1 valid.random.2
    have nonneg : 0 ≤ nearest (d.random * 1000000) :=
      nearest_nonneg (mul_nonneg valid.random.1 (by norm_num))
    exact ⟨div_nonneg nonneg (by norm_num), (div_lt_one (by norm_num)).mpr below⟩

end Draw

/-! The digits of a number, with zeros in front up to a width. -/

theorem padStart_toList (width n : Nat) : (padStart width n).toList =
    List.replicate (width - (Nat.toDigits 10 n).length) '0' ++ Nat.toDigits 10 n := by
  simp [padStart, List.leftpad]

theorem padStart_length {width n : Nat} (positive : 0 < width) (small : n < 10 ^ width) :
    (padStart width n).toList.length = width := by
  have fits := (Nat.length_toDigits_le_iff (by decide) positive).mpr small
  simp [padStart_toList]
  omega

theorem padStart_isDigit {width n : Nat} {c : Char} (member : c ∈ (padStart width n).toList) :
    c.isDigit = true := by
  rw [padStart_toList, List.mem_append] at member
  rcases member with zero | digit
  · rw [List.eq_of_mem_replicate zero]
    rfl
  · exact Nat.isDigit_of_mem_toDigits (by decide) (by decide) digit

/-- Read back after other digits. -/
theorem ofDigitChars_padStart {width n : Nat} (positive : 0 < width) (small : n < 10 ^ width)
    (init : Nat) :
    Nat.ofDigitChars 10 (padStart width n).toList init = 10 ^ width * init + n := by
  have fits := (Nat.length_toDigits_le_iff (by decide) positive).mpr small
  have whole : width - (Nat.toDigits 10 n).length + (Nat.toDigits 10 n).length = width := by omega
  rw [padStart_toList, Nat.ofDigitChars_append, Nat.ofDigitChars_eq_ofDigitChars_zero]
  simp only [Nat.ofDigitChars_replicate_zero, Nat.ofDigitChars_ten_toDigits]
  rw [← Nat.mul_assoc, ← Nat.pow_add, Nat.add_comm _ (width - _), whole]

/-- `prefix-YYYYMMDD-dddddd` with the date of a draw and its number. -/
def HasForm (stem number : String) (d : Draw) : Prop :=
  ∃ date six : List Char, number.toList = stem.toList ++ '-' :: date ++ '-' :: six ∧
    date.length = 8 ∧ six.length = 6 ∧ (∀ c ∈ date ++ six, c.isDigit = true) ∧
    Nat.ofDigitChars 10 date 0 = d.year * 10000 + d.month * 100 + d.day ∧
    Nat.ofDigitChars 10 six 0 = d.drawn

theorem orderNumber_hasForm {d : Draw} (valid : d.Valid) (stem : String) :
    HasForm stem (d.orderNumber stem) d := by
  have year : d.year < 10 ^ 4 := by have := valid.year; omega
  have month : d.month < 10 ^ 2 := by have := valid.month; omega
  have day : d.day < 10 ^ 2 := by have := valid.day; omega
  have drawn : d.drawn < 10 ^ 6 := valid.drawn_lt
  refine ⟨(padStart 4 d.year ++ padStart 2 d.month ++ padStart 2 d.day).toList,
    (padStart 6 d.drawn).toList, ?_, ?_, ?_, ?_, ?_, ?_⟩
  · simp [Draw.orderNumber, Draw.drawn]
  · simp only [String.toList_append, List.length_append]
    rw [padStart_length (by decide) year, padStart_length (by decide) month,
      padStart_length (by decide) day]
  · exact padStart_length (by decide) drawn
  · intro c member
    simp only [String.toList_append, List.mem_append] at member
    rcases member with ((digit | digit) | digit) | digit <;> exact padStart_isDigit digit
  · simp only [String.toList_append, Nat.ofDigitChars_append]
    rw [ofDigitChars_padStart (by decide) year, ofDigitChars_padStart (by decide) month,
      ofDigitChars_padStart (by decide) day]
    omega
  · rw [ofDigitChars_padStart (by decide) drawn]
    omega

/-- The number tells what was drawn. -/
theorem HasForm.drawn_eq {stem number : String} {d d' : Draw} (form : HasForm stem number d)
    (form' : HasForm stem number d') : d.drawn = d'.drawn := by
  obtain ⟨date, six, text, eight, _, _, _, value⟩ := form
  obtain ⟨date', six', text', eight', _, _, _, value'⟩ := form'
  have same : date ++ '-' :: six = date' ++ '-' :: six' := by simpa [text] using text'
  have parts := List.append_inj same (eight.trans eight'.symm)
  have sixes := (List.cons.inj parts.2).2
  rw [← value, ← value', sixes]

/-! The loop, with the orders as they are at each of its checks. -/

section
variable (dbs : Nat → Db) (stem : String) (draws : Nat → Draw)

/-- The check of each turn reads the orders of that moment. -/
def checks (c : Call) (turn : Nat) : Nat × c.Reply := (turn + 1, (exec c (dbs turn)).2)

/-- An order has the number drawn in that turn. -/
def NumberTaken (turn : Nat) : Prop :=
  ∃ o order, (dbs turn).orders.find? o = some order ∧
    order.orderNumber = (draws turn).orderNumber stem

/-- The loop from a turn on, if it comes to an end within so many turns. -/
def generated (turn turns : Nat) : Nat × Except ApiError String :=
  (OrdersRepository.generateOrderNumber ((List.range' turn turns).map draws) stem).alone
    (checks dbs) turn

theorem numberTaken_iff (turn : Nat) : NumberTaken dbs stem draws turn ↔
    ((dbs turn).orders.findBy fun o => o.orderNumber = (draws turn).orderNumber stem).isSome =
      true := by
  unfold Table.findBy
  rw [List.find?_isSome]
  constructor
  · rintro ⟨o, order, found, number⟩
    exact ⟨(o, order), (dbs turn).orders.mem_rows.mpr found, by simpa using number⟩
  · rintro ⟨⟨o, order⟩, member, number⟩
    exact ⟨o, order, (dbs turn).orders.mem_rows.mp member, by simpa using number⟩

variable {dbs stem draws}

theorem findByOrderNumber_checks (number : String) (turn : Nat) :
    (OrdersRepository.findByOrderNumber number).alone (checks dbs) turn =
      (turn + 1, .ok ((dbs turn).orders.findBy fun o => o.orderNumber = number)) := rfl

theorem generated_taken {turn : Nat} (taken : NumberTaken dbs stem draws turn) (turns : Nat) :
    generated dbs stem draws turn (turns + 1) = generated dbs stem draws (turn + 1) turns := by
  rw [numberTaken_iff] at taken
  simp only [generated, List.range'_succ, List.map_cons, OrdersRepository.generateOrderNumber,
    Request.alone_bind, findByOrderNumber_checks, if_pos taken]

theorem generated_free {turn : Nat} (free : ¬ NumberTaken dbs stem draws turn) (turns : Nat) :
    generated dbs stem draws turn (turns + 1) =
      (turn + 1, .ok ((draws turn).orderNumber stem)) := by
  rw [numberTaken_iff] at free
  simp only [generated, List.range'_succ, List.map_cons, OrdersRepository.generateOrderNumber,
    Request.alone_bind, findByOrderNumber_checks, if_neg free]
  rfl

/-- From a turn on, by the turns left: the loop ends after the first free number, and has made
all its checks while there is none. -/
theorem generated_cases (turn turns : Nat) :
    (∃ k, turn ≤ k ∧ k < turn + turns ∧ (∀ i, turn ≤ i → i < k → NumberTaken dbs stem draws i) ∧
      ¬ NumberTaken dbs stem draws k ∧
      generated dbs stem draws turn turns = (k + 1, .ok ((draws k).orderNumber stem))) ∨
    (∀ i, turn ≤ i → i < turn + turns → NumberTaken dbs stem draws i) ∧
      generated dbs stem draws turn turns = (turn + turns, .error .unfinished) := by
  induction turns generalizing turn with
  | zero => exact Or.inr ⟨fun i from_ below => by omega, rfl⟩
  | succ turns ih =>
    by_cases taken : NumberTaken dbs stem draws turn
    · have earlier {P : Nat → Prop} (later : ∀ i, turn + 1 ≤ i → P i → NumberTaken dbs stem draws i)
          (i : Nat) (from_ : turn ≤ i) (below : P i) : NumberTaken dbs stem draws i := by
        by_cases here : i = turn
        · exact here ▸ taken
        · exact later i (by omega) below
      rw [generated_taken taken]
      rcases ih (turn + 1) with ⟨k, after, below, before, free, ends⟩ | ⟨all, goes_on⟩
      · exact Or.inl ⟨k, by omega, by omega, earlier before, free, ends⟩
      · refine Or.inr ⟨earlier fun i from_ below => all i from_ (by omega), ?_⟩
        rw [goes_on, Nat.add_right_comm, Nat.add_assoc]
    · exact Or.inl ⟨turn, by omega, by omega, fun i from_ below => by omega, taken,
        generated_free taken turns⟩

end

section
variable (dbs : Nat → Db) (stem : String) (draws : Nat → Draw)

/-- The first turn whose number no order has at its check. -/
def FirstFree (k : Nat) : Prop :=
  (∀ i < k, NumberTaken dbs stem draws i) ∧ ¬ NumberTaken dbs stem draws k

/-- What the generation of order numbers is for. -/
structure Generates : Prop where
  returns : ∀ turns k number, generated dbs stem draws 0 turns = (k + 1, .ok number) ↔
    k < turns ∧ FirstFree dbs stem draws k ∧ number = (draws k).orderNumber stem
  goes_on : ∀ turns, (∀ i < turns, NumberTaken dbs stem draws i) →
    generated dbs stem draws 0 turns = (turns, .error .unfinished)
  absent : ∀ turns k number, generated dbs stem draws 0 turns = (k + 1, .ok number) →
    ∀ o order, (dbs k).orders.find? o = some order → order.orderNumber ≠ number
  form : ∀ k, HasForm stem ((draws k).orderNumber stem) (draws k)
  distinct : ∀ k l, (draws k).SameDate (draws l) → (draws k).drawn ≠ (draws l).drawn →
    (draws k).orderNumber stem ≠ (draws l).orderNumber stem

end

theorem generated_iff {dbs : Nat → Db} {stem : String} {draws : Nat → Draw} {turns k : Nat}
    {number : String} : generated dbs stem draws 0 turns = (k + 1, .ok number) ↔
      k < turns ∧ FirstFree dbs stem draws k ∧ number = (draws k).orderNumber stem := by
  constructor
  · intro ends
    rcases generated_cases 0 turns with ⟨j, _, below, before, free, ends'⟩ | ⟨_, goes_on⟩
    · cases ends'.symm.trans ends
      exact ⟨by omega, ⟨fun i => before i (Nat.zero_le i), free⟩, rfl⟩
    · cases congrArg Prod.snd (goes_on.symm.trans ends)
  · rintro ⟨below, ⟨before, free⟩, rfl⟩
    rcases generated_cases 0 turns with ⟨j, _, _, before', free', ends⟩ | ⟨all, _⟩
    · rcases Nat.lt_trichotomy j k with less | same | more
      · exact absurd (before j less) free'
      · rw [ends, same]
      · exact absurd (before' k (Nat.zero_le k) more) free
    · exact absurd (all k (Nat.zero_le k) (by omega)) free

/-- The loop returns after the first draw whose number is not in the orders, and only then. -/
theorem generates (dbs : Nat → Db) (stem : String) (draws : Nat → Draw)
    (valid : ∀ k, (draws k).Valid) : Generates dbs stem draws where
  returns _ _ _ := generated_iff
  goes_on turns all := by
    rcases generated_cases 0 turns with ⟨k, _, below, _, free, _⟩ | ⟨_, goes_on⟩
    · exact absurd (all k (by omega)) free
    · rw [goes_on, Nat.zero_add]
  absent turns k number ends o order found same := by
    obtain ⟨_, ⟨_, free⟩, rfl⟩ := generated_iff.mp ends
    exact free ⟨o, order, found, same⟩
  form k := orderNumber_hasForm (valid k) stem
  distinct k l _ other same := by
    have form := orderNumber_hasForm (valid l) stem
    rw [← same] at form
    exact other ((orderNumber_hasForm (valid k) stem).drawn_eq form)

/-- The numbers of two draws. -/
def draw (turn : Nat) : Draw := ⟨2025, 1, 31, if turn = 0 then 1 / 2 else 3 / 4⟩

theorem draw_double (turn : Nat) : nearest (draw turn).random = (draw turn).random := by
  have half := nearest_exact (m := 1) (e := -1) (by norm_num) (by norm_num)
  have most := nearest_exact (m := 3) (e := -2) (by norm_num) (by norm_num)
  norm_num at half most
  unfold draw
  split
  · exact half
  · exact most

theorem draw_rounded (turn : Nat) : (draw turn).rounded = draw turn := by
  have half := nearest_int (n := 500000) (by norm_num)
  have most := nearest_int (n := 750000) (by norm_num)
  norm_num at half most
  unfold draw Draw.rounded
  split <;> norm_num [half, most]

theorem draw_valid (turn : Nat) : (draw turn).Valid where
  year := by norm_num [draw]
  month := by norm_num [draw]
  day := by norm_num [draw]
  random := by
    unfold draw
    split <;> norm_num

/-- An order has the number that is drawn first. -/
def numbered : Db :=
  { market with
    orders := ⟨[("order-0", {
      buyerId := "bob"
      sellerId := "ann"
      productId := "lamp"
      orderNumber := "ORD-20250131-500000"
      totalAmount := 10
      createdAt := 0 })], by decide⟩
    linked := by decide }

theorem generates_second : generated (fun _ => numbered) "ORD" (fun turn => (draw turn).rounded) 0 2 =
    (2, .ok "ORD-20250131-750000") := by
  apply ((generates (fun _ => numbered) "ORD" (fun turn => (draw turn).rounded)
    fun turn => (draw_valid turn).rounded (draw_double turn)).returns 2 1 _).mpr
  simp only [FirstFree, numberTaken_iff, draw_rounded]
  decide +kernel

end SecondhandApi
