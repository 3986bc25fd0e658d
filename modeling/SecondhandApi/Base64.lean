import SecondhandApi.Json.Strings

/-! Bytes as six bits a character. The reader is that of Node: it ends at the padding and passes
over what is not of an alphabet. -/
namespace Base64

open Json

def digit (n : Nat) : UInt16 :=
  if n < 26 then (65 + n).toUInt16
  else if n < 52 then (71 + n).toUInt16
  else if n < 62 then (n - 4).toUInt16
  else if n = 62 then unit '+' else unit '/'

/-- The number of a character, of the alphabet for URLs as well. -/
def value (c : UInt16) : Option Nat :=
  if 65 ≤ c.toNat ∧ c.toNat ≤ 90 then some (c.toNat - 65)
  else if 97 ≤ c.toNat ∧ c.toNat ≤ 122 then some (c.toNat - 71)
  else if 48 ≤ c.toNat ∧ c.toNat ≤ 57 then some (c.toNat + 4)
  else if c = unit '+' ∨ c = unit '-' then some 62
  else if c = unit '/' ∨ c = unit '_' then some 63
  else none

/-- Three bytes are four numbers of six bits. -/
def sextets : List UInt8 → List Nat
  | [] => []
  | [a] => [a.toNat / 4, a.toNat % 4 * 16]
  | [a, b] => [a.toNat / 4, a.toNat % 4 * 16 + b.toNat / 16, b.toNat % 16 * 4]
  | a :: b :: c :: bytes =>
    a.toNat / 4 :: (a.toNat % 4 * 16 + b.toNat / 16) :: (b.toNat % 16 * 4 + c.toNat / 64) ::
      (c.toNat % 64) :: sextets bytes

/-- The bytes of the numbers; what is left of less than a byte is dropped. -/
def join : List Nat → List UInt8
  | p :: q :: r :: s :: more =>
    UInt8.ofNat (p * 4 + q / 16) :: UInt8.ofNat (q % 16 * 16 + r / 4) ::
      UInt8.ofNat (r % 4 * 64 + s) :: join more
  | [p, q, r] => [UInt8.ofNat (p * 4 + q / 16), UInt8.ofNat (q % 16 * 16 + r / 4)]
  | [p, q] => [UInt8.ofNat (p * 4 + q / 16)]
  | _ => []

def digits (bytes : List UInt8) : Text := (sextets bytes).map digit

/-- The padding of so many bytes. -/
def padding (n : Nat) : Text := List.replicate ((3 - n % 3) % 3) (unit '=')

/-- `toString('base64')` -/
def encode (bytes : List UInt8) : Text := digits bytes ++ padding bytes.length

def numbers (t : Text) : List Nat := (t.takeWhile (· != unit '=')).filterMap value

/-- `Buffer.from(t, 'base64')` -/
def decode (t : Text) : List UInt8 := join (numbers t)

theorem value_digit : ∀ n < 64, value (digit n) = some n := by decide

theorem digit_ne_pad : ∀ n < 64, digit n ≠ unit '=' := by decide

theorem sextets_lt (bytes : List UInt8) : ∀ n ∈ sextets bytes, n < 64 := by
  induction bytes using sextets.induct with
  | case1 => simp [sextets]
  | case2 a =>
    have := a.toNat_lt
    simp [sextets]
    omega
  | case3 a b =>
    have := a.toNat_lt
    have := b.toNat_lt
    simp [sextets]
    omega
  | case4 a b c bytes ih =>
    have := a.toNat_lt
    have := b.toNat_lt
    have := c.toNat_lt
    simp only [sextets, List.forall_mem_cons]
    exact ⟨by omega, by omega, by omega, by omega, ih⟩

theorem byte_eq {a : UInt8} {n : Nat} (h : n = a.toNat) : UInt8.ofNat n = a := by
  simp [h]

theorem join_sextets (bytes : List UInt8) : join (sextets bytes) = bytes := by
  induction bytes using sextets.induct with
  | case1 => rfl
  | case2 a =>
    simp only [sextets, join]
    rw [byte_eq (a := a) (by omega)]
  | case3 a b =>
    have := b.toNat_lt
    simp only [sextets, join]
    rw [byte_eq (a := a) (by omega), byte_eq (a := b) (by omega)]
  | case4 a b c bytes ih =>
    have := b.toNat_lt
    have := c.toNat_lt
    simp only [sextets, join, ih]
    rw [byte_eq (a := a) (by omega), byte_eq (a := b) (by omega), byte_eq (a := c) (by omega)]

/-- The number of characters alone says how many are missing to a multiple of four. -/
theorem padding_eq (bytes : List UInt8) :
    padding bytes.length = List.replicate ((4 - (digits bytes).length % 4) % 4) (unit '=') := by
  have count : (3 - bytes.length % 3) % 3 = (4 - (sextets bytes).length % 4) % 4 := by
    induction bytes using sextets.induct with
    | case1 => rfl
    | case2 a => rfl
    | case3 a b => rfl
    | case4 a b c bytes ih =>
      simp only [sextets, List.length_cons]
      omega
  simp [padding, digits, count]

theorem digits_plain (bytes : List UInt8) : ∀ c ∈ digits bytes, c ≠ unit '=' := by
  simp only [digits, List.forall_mem_map]
  exact fun n listed => digit_ne_pad n (sextets_lt bytes n listed)

theorem numbers_encode (bytes : List UInt8) : numbers (encode bytes) = sextets bytes := by
  have plain : (encode bytes).takeWhile (· != unit '=') = digits bytes := by
    rw [encode, List.takeWhile_append_of_pos (by simpa using digits_plain bytes)]
    simp [padding]
  have back : (sextets bytes).filterMap (fun n => value (digit n)) = sextets bytes := by
    rw [List.filterMap_congr (fun n listed => value_digit n (sextets_lt bytes n listed)),
      List.filterMap_some]
  rw [numbers, plain, digits, List.filterMap_map]
  exact back

theorem decode_encode (bytes : List UInt8) : decode (encode bytes) = bytes := by
  rw [decode, numbers_encode, join_sextets]

end Base64
