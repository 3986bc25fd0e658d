import SecondhandApi.Base64
import SecondhandApi.Utf8

/-! The Base64 texts of `CryptoUtil`. -/
namespace SecondhandApi.CryptoUtil

open Json

/-- `replace` with a global expression for one character. -/
def replaceAll (t : Text) (c : UInt16) (new : Text) : Text :=
  t.flatMap fun u => if u = c then new else [u]

def base64Encode (text : Text) : Text := Base64.encode (Utf8.toBytes text)

def base64Decode (encoded : Text) : Text := Utf8.ofBytes (Base64.decode encoded)

/-- The characters that have a meaning in a URL replaced, and the padding removed. -/
def urlSafe (base64 : Text) : Text :=
  replaceAll (replaceAll (replaceAll base64 (unit '+') [unit '-']) (unit '/') [unit '_'])
    (unit '=') []

def base64UrlEncode (text : Text) : Text := urlSafe (base64Encode text)

def standard (encoded : Text) : Text :=
  replaceAll (replaceAll encoded (unit '-') [unit '+']) (unit '_') [unit '/']

/-- `while (base64.length % 4)`, for at most as many tests as there is fuel. -/
def pad : Nat → Text → Option Text
  | 0, _ => none
  | fuel + 1, base64 =>
    if base64.length % 4 ≠ 0 then pad fuel (base64 ++ [unit '=']) else some base64

def base64UrlDecode (fuel : Nat) (encoded : Text) : Option Text :=
  (pad fuel (standard encoded)).map base64Decode

/-- The characters of the encoding for URLs. -/
def urlAlphabet : Text :=
  ascii "ABCDEFGHIJKLMNOPQRSTUVWXYZabcdefghijklmnopqrstuvwxyz0123456789-_"

/-- The loop ends on every text and puts in what is missing to a multiple of four. -/
theorem pad_eq (t : Text) {fuel : Nat} (enough : (4 - t.length % 4) % 4 < fuel) :
    pad fuel t = some (t ++ List.replicate ((4 - t.length % 4) % 4) (unit '=')) := by
  induction fuel generalizing t with
  | zero => omega
  | succ fuel ih =>
    simp only [pad]
    split_ifs with missing
    · have one : (4 - t.length % 4) % 4 =
          (4 - (t ++ [unit '=']).length % 4) % 4 + 1 := by
        simp only [List.length_append, List.length_singleton]
        omega
      rw [ih _ (by omega), one, List.replicate_succ]
      simp
    · have none : (4 - t.length % 4) % 4 = 0 := by omega
      simp [none]

@[simp]
theorem replaceAll_append (s t : Text) (c : UInt16) (new : Text) :
    replaceAll (s ++ t) c new = replaceAll s c new ++ replaceAll t c new := by
  simp [replaceAll]

theorem urlSafe_append (s t : Text) : urlSafe (s ++ t) = urlSafe s ++ urlSafe t := by
  simp [urlSafe]

theorem standard_append (s t : Text) : standard (s ++ t) = standard s ++ standard t := by
  simp [standard]

def urlDigit (n : Nat) : UInt16 :=
  if n = 62 then unit '-' else if n = 63 then unit '_' else Base64.digit n

theorem urlSafe_digit : ∀ n < 64, urlSafe [Base64.digit n] = [urlDigit n] := by decide

/-- The replacements lose nothing on the alphabet. -/
theorem standard_urlDigit : ∀ n < 64, standard [urlDigit n] = [Base64.digit n] := by decide

theorem urlDigit_mem : ∀ n < 64, urlDigit n ∈ urlAlphabet := by decide

theorem urlSafe_padding (n : Nat) : urlSafe (Base64.padding n) = [] := by
  unfold Base64.padding
  generalize (3 - n % 3) % 3 = pads
  induction pads with
  | zero => rfl
  | succ pads ih =>
    have one : urlSafe [unit '='] = [] := by decide
    rw [List.replicate_succ, ← List.singleton_append, urlSafe_append, one, ih]
    rfl

/-- What is replaced character by character is replaced in the whole text. -/
theorem replaced_digits {f : Text → Text} (nil : f [] = [])
    (append : ∀ s t, f (s ++ t) = f s ++ f t) {old new : Nat → UInt16}
    (each : ∀ n < 64, f [old n] = [new n]) {ns : List Nat} (small : ∀ n ∈ ns, n < 64) :
    f (ns.map old) = ns.map new := by
  induction ns with
  | nil => exact nil
  | cons n ns ih =>
    have rest := ih fun m listed => small m (List.mem_cons_of_mem _ listed)
    rw [List.map_cons, ← List.singleton_append, append, each n (small n List.mem_cons_self), rest]
    rfl

theorem urlSafe_digits {ns : List Nat} (small : ∀ n ∈ ns, n < 64) :
    urlSafe (ns.map Base64.digit) = ns.map urlDigit :=
  replaced_digits rfl urlSafe_append urlSafe_digit small

theorem standard_urlDigits {ns : List Nat} (small : ∀ n ∈ ns, n < 64) :
    standard (ns.map urlDigit) = ns.map Base64.digit :=
  replaced_digits rfl standard_append standard_urlDigit small

theorem base64UrlEncode_eq (t : Text) :
    base64UrlEncode t = (Base64.sextets (Utf8.toBytes t)).map urlDigit := by
  rw [base64UrlEncode, base64Encode, Base64.encode, urlSafe_append, urlSafe_padding,
    List.append_nil, Base64.digits, urlSafe_digits (Base64.sextets_lt _)]

/-- The loop puts back the padding that was removed. -/
theorem pad_standard (t : Text) {fuel : Nat} (enough : 4 ≤ fuel) :
    pad fuel (standard (base64UrlEncode t)) = some (base64Encode t) := by
  have digits : standard (base64UrlEncode t) = Base64.digits (Utf8.toBytes t) := by
    rw [base64UrlEncode_eq, standard_urlDigits (Base64.sextets_lt _), Base64.digits]
  rw [digits, pad_eq _ (by omega), ← Base64.padding_eq]
  rfl

theorem base64Decode_base64Encode {t : Text} (well : Utf8.wellFormed t = true) :
    base64Decode (base64Encode t) = t := by
  rw [base64Decode, base64Encode, Base64.decode_encode, Utf8.ofBytes_toBytes well]

theorem base64Url_round_trip {t : Text} (well : Utf8.wellFormed t = true) :
    (∀ c ∈ base64UrlEncode t, c ∈ urlAlphabet) ∧
    ∀ fuel ≥ 4, pad fuel (standard (base64UrlEncode t)) = some (base64Encode t) ∧
      base64UrlDecode fuel (base64UrlEncode t) = some t := by
  refine ⟨?_, fun fuel enough => ?_⟩
  · rw [base64UrlEncode_eq]
    simp only [List.forall_mem_map]
    exact fun n listed => urlDigit_mem n (Base64.sextets_lt _ n listed)
  · have padded := pad_standard t enough
    exact ⟨padded, by
      rw [base64UrlDecode, padded, Option.map_some, base64Decode_base64Encode well]⟩

theorem base64Url_round_trip_tildes :
    base64UrlDecode 4 (base64UrlEncode (ascii "~~?")) = some (ascii "~~?") :=
  ((base64Url_round_trip (t := ascii "~~?") (by decide)).2 4 (by decide)).2

end SecondhandApi.CryptoUtil
