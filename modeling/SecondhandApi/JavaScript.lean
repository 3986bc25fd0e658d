import SecondhandApi.Binary64

/-! Values of JavaScript as far as a query string and arithmetic on it need them: numbers,
the conversion of a string to a number, and the operators that treat the two differently. -/
namespace JavaScript
open Binary64

inductive Number where
  | nan
  | infinity (negative : Bool)
  | finite (q : Rat)
  deriving DecidableEq

namespace Number

/-- The number closest to `q`, or an infinity. -/
def ofRat (q : Rat) : Number :=
  if 2 ^ 1024 ≤ |nearest q| then infinity (q < 0) else finite (nearest q)

def neg : Number → Number
  | nan => nan
  | infinity negative => infinity (!negative)
  | finite q => finite (-q)

def add : Number → Number → Number
  | finite a, finite b => ofRat (a + b)
  | finite _, infinity b => infinity b
  | infinity a, finite _ => infinity a
  | infinity a, infinity b => if a = b then infinity a else nan
  | nan, _ | _, nan => nan

def sub (a b : Number) : Number := a.add b.neg

def mul : Number → Number → Number
  | finite a, finite b => ofRat (a * b)
  | finite a, infinity b => if a = 0 then nan else infinity (b != decide (a < 0))
  | infinity a, finite b => if b = 0 then nan else infinity (a != decide (b < 0))
  | infinity a, infinity b => infinity (a != b)
  | nan, _ | _, nan => nan

def div : Number → Number → Number
  | finite a, finite b =>
    if b = 0 then (if a = 0 then nan else infinity (a < 0)) else ofRat (a / b)
  | finite _, infinity _ => finite 0
  | infinity a, finite b => infinity (a != decide (b < 0))
  | infinity _, infinity _ => nan
  | nan, _ | _, nan => nan

/-- `a < b`; nothing is in order with `NaN`. -/
def lt : Number → Number → Bool
  | finite a, finite b => a < b
  | finite _, infinity b => !b
  | infinity a, finite _ => a
  | infinity a, infinity b => a && !b
  | nan, _ | _, nan => false

/-- `a <= b` -/
def le : Number → Number → Bool
  | nan, _ | _, nan => false
  | a, b => lt a b || a = b

/-- What a condition takes for true. -/
def truthy : Number → Bool
  | finite q => q ≠ 0
  | infinity _ => true
  | nan => false

/-- `Math.ceil` -/
def ceil : Number → Number
  | finite q => finite q.ceil
  | other => other

theorem ofRat_finite {q : Rat} (small : |nearest q| < 2 ^ 1024) :
    ofRat q = finite (nearest q) :=
  if_neg (not_le.mpr small)

theorem ofRat_int {n : Int} (bits : |n| < 2 ^ 53) : ofRat n = finite n := by
  have exact := nearest_int bits
  have small : |(n : Rat)| < 2 ^ 1024 := by
    have cast : |(n : Rat)| < 2 ^ 53 := by exact_mod_cast bits
    exact cast.trans (pow_lt_pow_right₀ (by norm_num) (by norm_num))
  rw [ofRat_finite (exact.symm ▸ small), exact]

theorem ofRat_holds {n : Nat} (h : Holds n) : ofRat n = finite n := by
  have exact := nearest_holds h
  have small : |nearest (n : Rat)| < 2 ^ 1024 := by
    rw [exact, Nat.abs_cast]
    exact h.1
  rw [ofRat_finite small, exact]

theorem holds_ofRat {q : Rat} {n : Nat} (rounded : ofRat q = finite n) : Holds n := by
  unfold ofRat at rounded
  split_ifs at rounded with large
  have same := finite.inj rounded
  have below : |(n : Rat)| < 2 ^ 1024 := same ▸ not_le.mp large
  exact ⟨by rwa [Nat.abs_cast] at below, bits_nearest same⟩

theorem ofRat_small {q : Rat} (small : |q| < 2 ^ 53) : ofRat q = finite (nearest q) :=
  ofRat_finite ((abs_nearest_small small).trans (pow_lt_pow_right₀ (by norm_num) (by norm_num)))

/-- Among the integers that are exact, a quotient that is not an integer is not rounded to one
below it. -/
theorem lt_nearest_div {a b k : Nat} (positive : 1 ≤ b) (few : a < 2 ^ 53) (small : b < 2 ^ 53)
    (above : k * b < a) : (k : Rat) < nearest (a / b) := by
  have divisor : (1 : Rat) ≤ b := by exact_mod_cast positive
  have dividend : (1 : Rat) ≤ a := by exact_mod_cast (Nat.zero_le _).trans_lt above
  have top : (a : Rat) < 2 ^ 53 := by exact_mod_cast few
  have bottom : (b : Rat) < 2 ^ 53 := by exact_mod_cast small
  have whole : (k : Rat) * b + 1 ≤ a := by exact_mod_cast above
  have quotient : (0 : Rat) < a / b := by positivity
  have normal : (2 : Rat) ^ (-1022 : Int) ≤ |(a : Rat) / b| := by
    rw [abs_of_pos quotient, le_div_iff₀ (by linarith)]
    have tiny : (2 : Rat) ^ (-1022 : Int) * 2 ^ 53 ≤ 1 := by
      rw [← zpow_natCast (2 : Rat) 53, ← zpow_add₀ (by norm_num)]
      exact zpow_le_one_of_nonpos₀ (by norm_num) (by norm_num)
    have unit : (0 : Rat) < 2 ^ (-1022 : Int) := by positivity
    have scaled : (2 : Rat) ^ (-1022 : Int) * b ≤ 2 ^ (-1022 : Int) * 2 ^ 53 :=
      mul_le_mul_of_nonneg_left bottom.le unit.le
    linarith
  have error := abs_nearest_sub_le normal
  rw [abs_of_pos quotient, div_div] at error
  have less : (a : Rat) / (b * 2 ^ 53) < 1 / b := by
    rw [div_lt_div_iff₀ (by positivity) (by positivity), one_mul, mul_comm]
    exact mul_lt_mul_of_pos_left top (by linarith)
  have distance : (k : Rat) + 1 / b ≤ a / b := by
    rw [le_div_iff₀ (by linarith), add_mul, div_mul_cancel₀ _ (by linarith : (b : Rat) ≠ 0)]
    exact whole
  have low := (abs_le.mp error).1
  linarith

theorem ceil_div {a b : Nat} (positive : 1 ≤ b) (few : a < 2 ^ 53) (small : b < 2 ^ 53) :
    ((finite a).div (finite b)).ceil = finite ((a + (b - 1)) / b : Nat) := by
  have divisor : (1 : Rat) ≤ b := by exact_mod_cast positive
  have top : (a : Rat) < 2 ^ 53 := by exact_mod_cast few
  have nonneg : (0 : Rat) ≤ a / b := by positivity
  have bits : |(a : Rat) / b| < 2 ^ 53 := by
    rw [abs_of_nonneg nonneg]
    exact (div_le_self (Nat.cast_nonneg a) divisor).trans_lt top
  have quotient : (finite a).div (finite b) = finite (nearest (a / b)) := by
    rw [div, if_neg (by linarith : (b : Rat) ≠ 0), ofRat_small bits]
  rw [quotient, ceil]
  generalize counted : (a + (b - 1)) / b = k
  have split := Nat.div_add_mod (a + (b - 1)) b
  have rest := Nat.mod_lt (a + (b - 1)) positive
  rw [counted, Nat.mul_comm] at split
  have upper : nearest (a / b) ≤ ((k : Int) : Rat) := by
    refine nearest_le bits ((div_le_iff₀ (by linarith)).mpr ?_)
    have : a ≤ k * b := by omega
    exact_mod_cast this
  have lower : (((k : Int) - 1 : Int) : Rat) < nearest (a / b) := by
    cases k with
    | zero => exact lt_of_lt_of_le (by norm_num) (nearest_nonneg nonneg)
    | succ j =>
      have above : j * b < a := by
        rw [Nat.succ_mul] at split
        omega
      simpa using lt_nearest_div positive few small above
  have same : (nearest (a / b)).ceil = (k : Int) :=
    le_antisymm (Rat.ceil_le_iff.mpr upper) (Int.sub_one_lt_iff.mp (Rat.lt_ceil_iff.mpr lower))
  rw [same]
  norm_cast

end Number

/-! `StringToNumber`. -/

def whiteSpace : List Char :=
  ['\t', '\n', '\x0b', '\x0c', '\r', ' ', '\u00a0', '\u1680', '\u2000', '\u2001', '\u2002',
    '\u2003', '\u2004', '\u2005', '\u2006', '\u2007', '\u2008', '\u2009', '\u200a', '\u2028',
    '\u2029', '\u202f', '\u205f', '\u3000', '\ufeff']

def trim (cs : List Char) : List Char :=
  ((cs.dropWhile (· ∈ whiteSpace)).reverse.dropWhile (· ∈ whiteSpace)).reverse

def digitValue (c : Char) : Option Nat :=
  if '0' ≤ c ∧ c ≤ '9' then some (c.toNat - 48)
  else if 'a' ≤ c ∧ c ≤ 'f' then some (c.toNat - 87)
  else if 'A' ≤ c ∧ c ≤ 'F' then some (c.toNat - 55)
  else none

/-- The longest run of digits of a base in front of a text. -/
def digits (base : Nat) : List Char → List Nat × List Char
  | [] => ([], [])
  | c :: cs =>
    match digitValue c with
    | some d => if d < base then ((digits base cs).1.cons d, (digits base cs).2) else ([], c :: cs)
    | none => ([], c :: cs)

def positional (base : Nat) (ds : List Nat) : Nat := ds.foldl (fun n d => base * n + d) 0

/-- `0x1f`, `0o17` and `0b11` after their first two characters. -/
def radixLiteral (base : Nat) (cs : List Char) : Number :=
  match digits base cs with
  | (d :: ds, []) => .ofRat (positional base (d :: ds))
  | _ => .nan

def signed : List Char → Bool × List Char
  | '-' :: cs => (true, cs)
  | '+' :: cs => (false, cs)
  | cs => (false, cs)

/-- The exponent at the end of a literal; `none` if something else stands there. -/
def exponentPart : List Char → Option Int
  | [] => some 0
  | c :: cs =>
    if c = 'e' ∨ c = 'E' then
      match digits 10 (signed cs).2 with
      | (d :: ds, []) =>
        some (if (signed cs).1 then -positional 10 (d :: ds) else positional 10 (d :: ds))
      | _ => none
    else none

def fraction : List Char → List Nat × List Char
  | '.' :: cs => digits 10 cs
  | cs => ([], cs)

def decimalLiteral (cs : List Char) : Number :=
  let negative := (signed cs).1
  let rest := (signed cs).2
  if rest = "Infinity".toList then .infinity negative
  else
    let whole := digits 10 rest
    let part := fraction whole.2
    match whole.1 ++ part.1, exponentPart part.2 with
    | d :: ds, some e =>
      let q : Rat := positional 10 (d :: ds) * 10 ^ (e - part.1.length)
      .ofRat (if negative then -q else q)
    | _, _ => .nan

def stringToNumber (s : String) : Number :=
  match trim s.toList with
  | [] => .finite 0
  | '0' :: 'x' :: cs | '0' :: 'X' :: cs => radixLiteral 16 cs
  | '0' :: 'o' :: cs | '0' :: 'O' :: cs => radixLiteral 8 cs
  | '0' :: 'b' :: cs | '0' :: 'B' :: cs => radixLiteral 2 cs
  | cs => decimalLiteral cs

/-- A value of a query string on its way: absent, a text, the texts of a repeated name, or what
became of it as a number. -/
inductive Value where
  | undefined
  | text (s : String)
  | texts (ss : List String)
  | number (n : Number)
  deriving DecidableEq

namespace Value

/-- An array is the text of its elements with commas between. -/
def toNumber : Value → Number
  | undefined => .nan
  | text s => stringToNumber s
  | texts ss => stringToNumber (",".intercalate ss)
  | number n => n

/-- `v + 1`, which concatenates unless `v` is a number. -/
def plusOne : Value → Value
  | undefined => number .nan
  | text s => text (s ++ "1")
  | texts ss => text (",".intercalate ss ++ "1")
  | number n => number (n.add (.finite 1))

/-- `v ?? other`, also the default of a parameter, as `null` does not occur. -/
def orElse : Value → Number → Value
  | undefined, other => number other
  | v, _ => v

end Value

/-! A function that awaits a call goes on with its result; what the call throws, it throws. -/

section Exceptions
variable {E A B : Type}

@[simp] theorem ok_bind (a : A) (f : A → Except E B) : (Except.ok a >>= f) = f a := rfl

@[simp] theorem pure_eq_ok (a : A) : (pure a : Except E A) = .ok a := rfl

theorem ok_of_bind {x : Except E A} {f : A → Except E B} {b : B} (ok : (x >>= f) = .ok b) :
    ∃ a, x = .ok a ∧ f a = .ok b := by
  cases x with
  | error e => cases ok
  | ok a => exact ⟨a, rfl, ok⟩

end Exceptions

end JavaScript
