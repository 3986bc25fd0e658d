import Mathlib.Data.List.Basic

/-! The texts of JavaScript are sequences of UTF-16 code units, lone surrogates included. Here are
the strings of `JSON.stringify` and of `JSON.parse`. -/
namespace Json

abbrev Text := List UInt16

/-- The code unit of an ASCII character. -/
def unit (c : Char) : UInt16 := c.toNat.toUInt16

def ascii (s : String) : Text := s.toList.map unit

def hexDigit (n : Nat) : UInt16 := (if n < 10 then 48 + n else 87 + n).toUInt16

def hexValue (c : UInt16) : Option Nat :=
  if 48 ≤ c.toNat ∧ c.toNat ≤ 57 then some (c.toNat - 48)
  else if 97 ≤ c.toNat ∧ c.toNat ≤ 102 then some (c.toNat - 87)
  else if 65 ≤ c.toNat ∧ c.toNat ≤ 70 then some (c.toNat - 55)
  else none

theorem hexValue_hexDigit : ∀ n < 16, hexValue (hexDigit n) = some n := by decide

/-- The code units with an escape of two characters, and its second character. -/
def shortEscapes : List (UInt16 × UInt16) :=
  [(8, unit 'b'), (9, unit 't'), (10, unit 'n'), (12, unit 'f'), (13, unit 'r'),
    (unit '"', unit '"'), (unit '\\', unit '\\')]

def unicodeEscape (u : UInt16) : Text :=
  [unit '\\', unit 'u', hexDigit (u.toNat / 4096), hexDigit (u.toNat / 256 % 16),
    hexDigit (u.toNat / 16 % 16), hexDigit (u.toNat % 16)]

def leading (u : UInt16) : Bool := 0xd800 ≤ u && u ≤ 0xdbff
def trailing (u : UInt16) : Bool := 0xdc00 ≤ u && u ≤ 0xdfff

/-- A code unit that is not part of a surrogate pair. -/
def quoteUnit (u : UInt16) : Text :=
  match shortEscapes.lookup u with
  | some e => [unit '\\', e]
  | none => if u < 0x20 || leading u || trailing u then unicodeEscape u else [u]

def quoteUnits : Text → Text
  | [] => []
  | [u] => quoteUnit u
  | u :: v :: us =>
    if leading u && trailing v then u :: v :: quoteUnits us
    else quoteUnit u ++ quoteUnits (v :: us)

/-- `QuoteJSONString` -/
def quote (s : Text) : Text := unit '"' :: (quoteUnits s ++ [unit '"'])

/-- The code unit that four hexadecimal digits stand for. -/
def codeUnit (a b c d : UInt16) : Option UInt16 := do
  let a ← hexValue a
  let b ← hexValue b
  let c ← hexValue c
  let d ← hexValue d
  return (4096 * a + 256 * b + 16 * c + d).toUInt16

/-- What the character after a backslash stands for, if it is not `u`. -/
def shortUnescape (e : UInt16) : Option UInt16 :=
  if e = unit '/' then some e else (shortEscapes.find? fun p => p.2 == e).map Prod.fst

def prepend (u : UInt16) (read : Option (Text × Text)) : Option (Text × Text) :=
  read.map fun p => (u :: p.1, p.2)

/-- The string up to the closing quotation mark, and what follows that. -/
def unquote : Text → Option (Text × Text)
  | [] => none
  | c :: cs =>
    if c = unit '"' then some ([], cs)
    else if c = unit '\\' then
      match cs with
      | [] => none
      | e :: cs =>
        if e = unit 'u' then
          match cs with
          | a :: b :: c :: d :: cs => (codeUnit a b c d).bind fun u => prepend u (unquote cs)
          | _ => none
        else (shortUnescape e).bind fun u => prepend u (unquote cs)
    else if c < 0x20 then none
    else prepend c (unquote cs)

theorem unquote_close (cs : Text) : unquote (unit '"' :: cs) = some ([], cs) := by
  rw [unquote.eq_def]
  simp

theorem unquote_unicode (a b c d : UInt16) (cs : Text) :
    unquote (unit '\\' :: unit 'u' :: a :: b :: c :: d :: cs) =
      (codeUnit a b c d).bind fun u => prepend u (unquote cs) := by
  rw [unquote.eq_def]
  simp +decide

theorem unquote_short {e : UInt16} (plain : e ≠ unit 'u') (cs : Text) :
    unquote (unit '\\' :: e :: cs) =
      (shortUnescape e).bind fun u => prepend u (unquote cs) := by
  rw [unquote.eq_def]
  simp +decide [plain]

theorem unquote_plain {u : UInt16} (special : shortEscapes.lookup u = none) (printable : ¬u < 0x20)
    (cs : Text) : unquote (u :: cs) = prepend u (unquote cs) := by
  have mark : u ≠ unit '"' := by rintro rfl; exact absurd special (by decide)
  have slash : u ≠ unit '\\' := by rintro rfl; exact absurd special (by decide)
  rw [unquote.eq_def]
  simp [mark, slash, printable]

theorem codeUnit_hexDigits (u : UInt16) :
    codeUnit (hexDigit (u.toNat / 4096)) (hexDigit (u.toNat / 256 % 16))
      (hexDigit (u.toNat / 16 % 16)) (hexDigit (u.toNat % 16)) = some u := by
  have size := u.toNat_lt
  have sum : 4096 * (u.toNat / 4096) + 256 * (u.toNat / 256 % 16) + 16 * (u.toNat / 16 % 16)
      + u.toNat % 16 = u.toNat := by omega
  simp only [codeUnit, hexValue_hexDigit _ (show u.toNat / 4096 < 16 by omega),
    hexValue_hexDigit _ (Nat.mod_lt _ (show 16 > 0 by omega)), Option.bind_eq_bind,
    Option.bind_some, Option.pure_def, sum]
  simp

theorem shortUnescape_of_lookup {u e : UInt16} (h : shortEscapes.lookup u = some e) :
    e ≠ unit 'u' ∧ shortUnescape e = some u := by
  have all : (shortEscapes.all fun p =>
      decide (p.2 ≠ unit 'u' ∧ shortUnescape p.2 = some p.1)) = true := by decide
  have listed : (u, e) ∈ shortEscapes := by
    obtain ⟨front, back, split, -⟩ := List.lookup_eq_some_iff.mp h
    simp [split]
  simpa using List.all_eq_true.mp all (u, e) listed

theorem unquote_quoteUnit (u : UInt16) (cs : Text) :
    unquote (quoteUnit u ++ cs) = prepend u (unquote cs) := by
  unfold quoteUnit
  split
  next e listed =>
    obtain ⟨plain, back⟩ := shortUnescape_of_lookup listed
    simp [unquote_short plain, back]
  next special =>
    split_ifs with escaped
    · simp [unicodeEscape, unquote_unicode, codeUnit_hexDigits]
    · exact unquote_plain special (by simp_all) cs

/-- A unit of a surrogate pair stands for itself. -/
theorem unquote_surrogate {u : UInt16} (h : 0xd800 ≤ u) (cs : Text) :
    unquote (u :: cs) = prepend u (unquote cs) := by
  have large : 0xd800 ≤ u.toNat := UInt16.le_iff_toNat_le.mp h
  have all : (shortEscapes.all fun p => decide (p.1.toNat < 0xd800)) = true := by decide
  have special : shortEscapes.lookup u = none := by
    refine List.lookup_eq_none_iff.mpr fun p listed => ?_
    have small : p.1.toNat < 0xd800 := by simpa using List.all_eq_true.mp all p listed
    have apart : u ≠ p.1 := by rintro rfl; omega
    simpa using apart
  have printable : ¬u < 0x20 := by
    simp [UInt16.lt_iff_toNat_lt]
    omega
  exact unquote_plain special printable cs

theorem unquote_quoteUnits (s rest : Text) :
    unquote (quoteUnits s ++ unit '"' :: rest) = some (s, rest) := by
  induction s using quoteUnits.induct with
  | case1 => simp [quoteUnits, unquote_close]
  | case2 u => simp [quoteUnits, unquote_quoteUnit, unquote_close, prepend]
  | case3 u v us pair ih =>
    have halves : leading u ∧ trailing v := by simpa using pair
    have first : 0xd800 ≤ u := by simp_all [leading]
    have second : 0xd800 ≤ v := by
      have low : (0xdc00 : UInt16) ≤ v := by simp_all [trailing]
      exact UInt16.le_trans (by decide) low
    simp [quoteUnits, pair, unquote_surrogate first, unquote_surrogate second, ih, prepend]
  | case4 u v us single ih => simp [quoteUnits, single, unquote_quoteUnit, ih, prepend]

theorem prepend_length {u : UInt16} {read : Option (Text × Text)} {s rest : Text} {n : Nat}
    (short : ∀ {s}, read = some (s, rest) → s.length + rest.length < n)
    (h : prepend u read = some (s, rest)) : s.length + rest.length < n + 1 := by
  obtain ⟨p, found, joined⟩ := Option.map_eq_some_iff.mp h
  cases joined
  have := short found
  simp only [List.length_cons]
  omega

/-- A string is shorter than the text it was read from. -/
theorem unquote_length {t s rest : Text} (h : unquote t = some (s, rest)) :
    s.length + rest.length < t.length := by
  fun_induction unquote t generalizing s with
  | case1 | case3 | case5 | case7 => cases h
  | case2 cs =>
    cases h
    simp
  | case4 cs a b c d _ ih =>
    obtain ⟨u, -, read⟩ := Option.bind_eq_some_iff.mp h
    have := prepend_length ih read
    simp only [List.length_cons]
    omega
  | case6 e cs _ _ ih =>
    obtain ⟨u, -, read⟩ := Option.bind_eq_some_iff.mp h
    have := prepend_length ih read
    simp only [List.length_cons]
    omega
  | case8 c cs _ _ _ ih =>
    have := prepend_length ih h
    simp only [List.length_cons]
    omega

end Json
