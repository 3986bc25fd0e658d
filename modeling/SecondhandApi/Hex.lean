import SecondhandApi.Json.Strings

/-! Bytes as two hexadecimal digits each. The reader is that of Node: it ends at the first pair that
is incomplete or not of digits. -/
namespace Hex

open Json

def isDigit (c : UInt16) : Bool := (hexValue c).isSome

/-- `toString('hex')` -/
def encode (bytes : List UInt8) : Text :=
  bytes.flatMap fun b => [hexDigit (b.toNat / 16), hexDigit (b.toNat % 16)]

/-- `Buffer.from(t, 'hex')` -/
def decode : Text → List UInt8
  | a :: b :: t =>
    match hexValue a, hexValue b with
    | some high, some low => UInt8.ofNat (16 * high + low) :: decode t
    | _, _ => []
  | _ => []

/-- Nothing stands after the pairs of digits. -/
def Whole (t : Text) : Prop := t.length = 2 * (decode t).length

instance (t : Text) : Decidable (Whole t) := inferInstanceAs (Decidable (_ = _))

theorem decode_encode (bytes : List UInt8) : decode (encode bytes) = bytes := by
  induction bytes with
  | nil => rfl
  | cons b bytes ih =>
    have size := b.toNat_lt
    have back : UInt8.ofNat (16 * (b.toNat / 16) + b.toNat % 16) = b := by
      rw [Nat.div_add_mod, UInt8.ofNat_toNat]
    have rest : decode (encode (b :: bytes)) =
        UInt8.ofNat (16 * (b.toNat / 16) + b.toNat % 16) :: decode (encode bytes) := by
      simp only [encode, List.flatMap_cons, List.cons_append, List.nil_append, decode,
        hexValue_hexDigit _ (show b.toNat / 16 < 16 by omega),
        hexValue_hexDigit _ (show b.toNat % 16 < 16 by omega)]
    rw [rest, back, ih]

theorem encode_length (bytes : List UInt8) : (encode bytes).length = 2 * bytes.length := by
  induction bytes with
  | nil => rfl
  | cons b bytes ih =>
    simp only [encode, List.flatMap_cons, List.length_append, List.length_cons] at *
    simp only [ih, List.length_nil]
    omega

theorem whole_encode (bytes : List UInt8) : Whole (encode bytes) := by
  rw [Whole, decode_encode, encode_length]

/-- The reader reads all of a text if that has an even number of characters, all digits. -/
theorem whole_iff (t : Text) : Whole t ↔ (∀ c ∈ t, isDigit c = true) ∧ t.length % 2 = 0 := by
  unfold Whole
  fun_induction decode t with
  | case1 a b t high low first second ih =>
    have digits : isDigit a = true ∧ isDigit b = true := by simp [isDigit, first, second]
    have count : t.length + 1 + 1 = 2 * ((decode t).length + 1) ↔
        t.length = 2 * (decode t).length := by omega
    have parity : (t.length + 1 + 1) % 2 = 0 ↔ t.length % 2 = 0 := by omega
    simp only [List.length_cons, List.forall_mem_cons, digits, true_and, count, parity, ih]
  | case2 a b t bad =>
    have some_bad : ¬(isDigit a = true ∧ isDigit b = true) := by
      rintro ⟨first, second⟩
      obtain ⟨high, first⟩ := Option.isSome_iff_exists.mp first
      obtain ⟨low, second⟩ := Option.isSome_iff_exists.mp second
      exact bad high low first second
    simp only [List.length_cons, List.length_nil, List.forall_mem_cons]
    exact ⟨fun none => by omega, fun all => absurd ⟨all.1.1, all.1.2.1⟩ some_bad⟩
  | case3 t short =>
    match t, short with
    | [], _ => simp
    | [a], _ => simp
    | a :: b :: t, short => exact (short a b t rfl).elim

theorem whole_of_length_iff (t : Text) (n : Nat) :
    (decode t).length = n ∧ Whole t ↔ (∀ c ∈ t, isDigit c = true) ∧ t.length = 2 * n := by
  have all := whole_iff t
  constructor
  · rintro ⟨bytes, whole⟩
    exact ⟨(all.mp whole).1, by rw [Whole] at whole; omega⟩
  · rintro ⟨digits, length⟩
    have whole := all.mpr ⟨digits, by omega⟩
    exact ⟨by rw [Whole] at whole; omega, whole⟩

end Hex
