import SecondhandApi.Json.Strings

/-! The characters of a text of UTF-16 code units, and the bytes of UTF-8 with the decoder that
puts U+FFFD for what is malformed. -/
namespace Utf8

open Json

def surrogate (u : UInt16) : Bool := leading u || trailing u

/-- `isWellFormed`: every surrogate is part of a pair. -/
def wellFormed : Text → Bool
  | [] => true
  | [u] => !surrogate u
  | u :: v :: us =>
    if leading u && trailing v then wellFormed us else !surrogate u && wellFormed (v :: us)

def replacement : Char := Char.ofNat 0xfffd

def single (u : UInt16) : Char := if surrogate u then replacement else Char.ofNat u.toNat

def paired (u v : UInt16) : Char :=
  Char.ofNat (0x10000 + (u.toNat - 0xd800) * 0x400 + (v.toNat - 0xdc00))

/-- The characters of a text, with the replacement character for a lone surrogate. -/
def characters : Text → List Char
  | [] => []
  | [u] => [single u]
  | u :: v :: us =>
    if leading u && trailing v then paired u v :: characters us
    else single u :: characters (v :: us)

/-- The code units of a character. -/
def units (c : Char) : Text :=
  if c.toNat < 0x10000 then [c.toNat.toUInt16]
  else [(0xd800 + (c.toNat - 0x10000) / 0x400).toUInt16,
    (0xdc00 + (c.toNat - 0x10000) % 0x400).toUInt16]

theorem leading_iff {u : UInt16} : leading u = true ↔ 0xd800 ≤ u.toNat ∧ u.toNat ≤ 0xdbff := by
  simp [leading, UInt16.le_iff_toNat_le]

theorem trailing_iff {u : UInt16} : trailing u = true ↔ 0xdc00 ≤ u.toNat ∧ u.toNat ≤ 0xdfff := by
  simp [trailing, UInt16.le_iff_toNat_le]

theorem surrogate_iff {u : UInt16} : surrogate u = true ↔ 0xd800 ≤ u.toNat ∧ u.toNat ≤ 0xdfff := by
  simp only [surrogate, Bool.or_eq_true, leading_iff, trailing_iff]
  omega

theorem toNat_ofNat {n : Nat} (valid : n < 0xd800 ∨ 0xdfff < n ∧ n < 0x110000) :
    (Char.ofNat n).toNat = n := by
  rw [Char.ofNat, dif_pos (show n.isValidChar from valid)]
  rfl

theorem units_single {u : UInt16} (plain : surrogate u = false) : units (single u) = [u] := by
  have size := u.toNat_lt
  have outside : u.toNat < 0xd800 ∨ 0xdfff < u.toNat := by
    have := surrogate_iff.not.mp (Bool.eq_false_iff.mp plain)
    omega
  have code : (single u).toNat = u.toNat := by
    simp only [single, plain]
    exact toNat_ofNat (by omega)
  simp [units, code, size]

theorem units_paired {u v : UInt16} (first : leading u = true) (second : trailing v = true) :
    units (paired u v) = [u, v] := by
  have first := leading_iff.mp first
  have second := trailing_iff.mp second
  have code : (paired u v).toNat = 0x10000 + (u.toNat - 0xd800) * 0x400 + (v.toNat - 0xdc00) :=
    toNat_ofNat (by omega)
  have high : 0xd800 + ((paired u v).toNat - 0x10000) / 0x400 = u.toNat := by omega
  have low : 0xdc00 + ((paired u v).toNat - 0x10000) % 0x400 = v.toNat := by omega
  have large : ¬(paired u v).toNat < 0x10000 := by omega
  simp [units, large, high, low]

/-- A well-formed text is the code units of its characters. -/
theorem units_characters {t : Text} (well : wellFormed t = true) :
    (characters t).flatMap units = t := by
  induction t using characters.induct with
  | case1 => rfl
  | case2 u => simp [characters, units_single (u := u) (by simpa [wellFormed] using well)]
  | case3 u v us pair ih =>
    have halves : leading u ∧ trailing v := by simpa using pair
    have rest : wellFormed us = true := by simpa [wellFormed, pair] using well
    simp [characters, pair, units_paired halves.1 halves.2, ih rest]
  | case4 u v us lone ih =>
    have parts : surrogate u = false ∧ wellFormed (v :: us) = true := by
      simpa [wellFormed, lone] using well
    simp [characters, lone, units_single parts.1, ih parts.2]

/-- A sequence of bytes that has begun: how many bytes are to come, between which bounds the next
one has to be, and the bits so far. -/
structure Begun where
  missing : Nat
  lower : Nat
  upper : Nat
  point : Nat

/-- The byte that begins a sequence. -/
def first (b : UInt8) : List Char × Option Begun :=
  if b.toNat ≤ 0x7f then ([Char.ofNat b.toNat], none)
  else if 0xc2 ≤ b.toNat ∧ b.toNat ≤ 0xdf then ([], some ⟨1, 0x80, 0xbf, b.toNat - 0xc0⟩)
  else if 0xe0 ≤ b.toNat ∧ b.toNat ≤ 0xef then
    ([], some ⟨2, if b.toNat = 0xe0 then 0xa0 else 0x80, if b.toNat = 0xed then 0x9f else 0xbf,
      b.toNat - 0xe0⟩)
  else if 0xf0 ≤ b.toNat ∧ b.toNat ≤ 0xf4 then
    ([], some ⟨3, if b.toNat = 0xf0 then 0x90 else 0x80, if b.toNat = 0xf4 then 0x8f else 0xbf,
      b.toNat - 0xf0⟩)
  else ([replacement], none)

/-- A byte that cannot go on with the sequence ends it malformed and begins the next one. -/
def feed : Option Begun → UInt8 → List Char × Option Begun
  | none, b => first b
  | some s, b =>
    if s.lower ≤ b.toNat ∧ b.toNat ≤ s.upper then
      if s.missing ≤ 1 then ([Char.ofNat (s.point * 64 + b.toNat % 64)], none)
      else ([], some ⟨s.missing - 1, 0x80, 0xbf, s.point * 64 + b.toNat % 64⟩)
    else (replacement :: (first b).1, (first b).2)

def decode : Option Begun → List UInt8 → List Char
  | none, [] => []
  | some _, [] => [replacement]
  | s, b :: bs => (feed s b).1 ++ decode (feed s b).2 bs

/-- `Buffer.from(t, 'utf8')` -/
def toBytes (t : Text) : List UInt8 := (characters t).flatMap String.utf8EncodeChar

/-- `toString('utf8')` -/
def ofBytes (bs : List UInt8) : Text := (decode none bs).flatMap units

theorem decode_last {s : Begun} {b : UInt8} (one : s.missing = 1)
    (fits : s.lower ≤ b.toNat ∧ b.toNat ≤ s.upper) (bs : List UInt8) :
    decode (some s) (b :: bs) = Char.ofNat (s.point * 64 + b.toNat % 64) :: decode none bs := by
  simp [decode, feed, fits, one]

theorem decode_more {s : Begun} {b : UInt8} (more : 1 < s.missing)
    (fits : s.lower ≤ b.toNat ∧ b.toNat ≤ s.upper) (bs : List UInt8) :
    decode (some s) (b :: bs) =
      decode (some ⟨s.missing - 1, 0x80, 0xbf, s.point * 64 + b.toNat % 64⟩) bs := by
  have : ¬s.missing ≤ 1 := by omega
  simp [decode, feed, fits, this]

theorem decode_begun {b : UInt8} {s : Begun} (h : first b = ([], some s)) (bs : List UInt8) :
    decode none (b :: bs) = decode (some s) bs := by
  simp [decode, feed, h]

theorem first_two {b : UInt8} (range : 0xc2 ≤ b.toNat ∧ b.toNat ≤ 0xdf) :
    first b = ([], some ⟨1, 0x80, 0xbf, b.toNat - 0xc0⟩) := by
  have : ¬b.toNat ≤ 0x7f := by omega
  simp [first, this, range]

theorem first_three {b : UInt8} (range : 0xe0 ≤ b.toNat ∧ b.toNat ≤ 0xef) :
    first b = ([], some ⟨2, if b.toNat = 0xe0 then 0xa0 else 0x80,
      if b.toNat = 0xed then 0x9f else 0xbf, b.toNat - 0xe0⟩) := by
  have : ¬b.toNat ≤ 0x7f := by omega
  have : ¬b.toNat ≤ 0xdf := by omega
  simp [first, *]

theorem first_four {b : UInt8} (range : 0xf0 ≤ b.toNat ∧ b.toNat ≤ 0xf4) :
    first b = ([], some ⟨3, if b.toNat = 0xf0 then 0x90 else 0x80,
      if b.toNat = 0xf4 then 0x8f else 0xbf, b.toNat - 0xf0⟩) := by
  have : ¬b.toNat ≤ 0x7f := by omega
  have : ¬b.toNat ≤ 0xdf := by omega
  have : ¬b.toNat ≤ 0xef := by omega
  simp [first, *]

/-- The bytes with which UTF-8 goes on with a sequence. -/
theorem following_toNat (n : Nat) : (UInt8.ofNat (n % 64 + 0x80)).toNat = n % 64 + 0x80 := by
  simp
  omega

theorem decode_two {n : Nat} (least : 0x80 ≤ n) (most : n ≤ 0x7ff) (bs : List UInt8) :
    decode none (UInt8.ofNat (n / 64 % 32 + 0xc0) :: UInt8.ofNat (n % 64 + 0x80) :: bs) =
      Char.ofNat n :: decode none bs := by
  have byte : (UInt8.ofNat (n / 64 % 32 + 0xc0)).toNat = n / 64 % 32 + 0xc0 := by
    simp
    omega
  have next := following_toNat n
  have point : (n / 64 % 32 + 0xc0 - 0xc0) * 64 + (n % 64 + 0x80) % 64 = n := by omega
  rw [decode_begun (first_two (by omega)), decode_last rfl (by simp only; omega)]
  simp only [byte, next, point]

theorem decode_three {n : Nat} (least : 0x800 ≤ n) (most : n ≤ 0xffff)
    (valid : n < 0xd800 ∨ 0xdfff < n) (bs : List UInt8) :
    decode none (UInt8.ofNat (n / 4096 % 16 + 0xe0) :: UInt8.ofNat (n / 64 % 64 + 0x80) ::
      UInt8.ofNat (n % 64 + 0x80) :: bs) = Char.ofNat n :: decode none bs := by
  have byte : (UInt8.ofNat (n / 4096 % 16 + 0xe0)).toNat = n / 4096 % 16 + 0xe0 := by
    simp
    omega
  have second := following_toNat (n / 64)
  have third := following_toNat n
  have point : ((n / 4096 % 16 + 0xe0 - 0xe0) * 64 + (n / 64 % 64 + 0x80) % 64) * 64
      + (n % 64 + 0x80) % 64 = n := by omega
  -- no overlong sequence and no surrogate: the second byte is between the bounds of the first
  rw [decode_begun (first_three (by omega)), decode_more (by simp)
    (by simp only [byte, second]; split_ifs <;> omega), decode_last rfl (by simp only; omega)]
  simp only [byte, second, third, point]

theorem decode_four {n : Nat} (least : 0x10000 ≤ n) (most : n < 0x110000) (bs : List UInt8) :
    decode none (UInt8.ofNat (n / 262144 % 8 + 0xf0) :: UInt8.ofNat (n / 4096 % 64 + 0x80) ::
      UInt8.ofNat (n / 64 % 64 + 0x80) :: UInt8.ofNat (n % 64 + 0x80) :: bs) =
      Char.ofNat n :: decode none bs := by
  have byte : (UInt8.ofNat (n / 262144 % 8 + 0xf0)).toNat = n / 262144 % 8 + 0xf0 := by
    simp
    omega
  have second := following_toNat (n / 4096)
  have third := following_toNat (n / 64)
  have fourth := following_toNat n
  have point : (((n / 262144 % 8 + 0xf0 - 0xf0) * 64 + (n / 4096 % 64 + 0x80) % 64) * 64
      + (n / 64 % 64 + 0x80) % 64) * 64 + (n % 64 + 0x80) % 64 = n := by omega
  rw [decode_begun (first_four (by omega)), decode_more (by simp)
    (by simp only [byte, second]; split_ifs <;> omega),
    decode_more (by simp) (by simp only; omega), decode_last rfl (by simp only; omega)]
  simp only [byte, second, third, fourth, point]

/-- What UTF-8 makes of a character is read back as the character. -/
theorem decode_encodeChar (c : Char) (bs : List UInt8) :
    decode none (String.utf8EncodeChar c ++ bs) = c :: decode none bs := by
  have valid : c.toNat < 0xd800 ∨ 0xdfff < c.toNat ∧ c.toNat < 0x110000 := c.valid
  have back : Char.ofNat c.toNat = c := Char.ofNat_toNat c
  have code : c.val.toNat = c.toNat := rfl
  simp only [String.utf8EncodeChar, code]
  generalize c.toNat = n at valid back
  split_ifs with one two three
  · have byte : (UInt8.ofNat n).toNat = n := by
      simp
      omega
    simp [decode, feed, first, byte, one, back]
  · rw [← back]
    exact decode_two (by omega) two bs
  · rw [← back]
    exact decode_three (by omega) three (by omega) bs
  · rw [← back]
    exact decode_four (by omega) (by omega) bs

theorem decode_encode (cs : List Char) :
    decode none (cs.flatMap String.utf8EncodeChar) = cs := by
  induction cs with
  | nil => rfl
  | cons c cs ih => rw [List.flatMap_cons, decode_encodeChar, ih]

/-- The bytes of a well-formed text are read back as the text. -/
theorem ofBytes_toBytes {t : Text} (well : wellFormed t = true) : ofBytes (toBytes t) = t := by
  rw [ofBytes, toBytes, decode_encode, units_characters well]

end Utf8
