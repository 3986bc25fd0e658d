import SecondhandApi.CryptoUtil
import SecondhandApi.Hex

/-! `CryptoUtil.encrypt` and `decrypt`. What Node calls is read leniently: hexadecimal digits up to
the first pair that is none, and tags of less than 16 bytes. -/
namespace SecondhandApi

open Json

/-- `aes-256-gcm`: a mode that undoes itself, the tag of what was encrypted, and the lengths of
initialization vectors that are taken. -/
structure Gcm where
  crypt (key iv bytes : List UInt8) : List UInt8
  tag (key iv encrypted : List UInt8) : List UInt8
  takesIv (length : Nat) : Bool
  crypt_crypt {key : List UInt8} (long : key.length = 32) (iv bytes : List UInt8) :
    crypt key iv (crypt key iv bytes) = bytes
  tag_length (key iv encrypted : List UInt8) : (tag key iv encrypted).length = 16
  takesIv_sixteen : takesIv 16 = true

namespace CryptoUtil

def ivLength : Nat := 16

def fail (condition : Prop) [Decidable condition] (message : String) : Except String Unit :=
  if condition then .error message else .ok ()

def checkKey (key : List UInt8) : Except String Unit :=
  fail (key.length ≠ 32) "Secret key must be 32 bytes (64 hex characters)"

variable (G : Gcm)

/-- The text under the initialization vector that `randomBytes` draws. -/
def encrypt (iv : Vector UInt8 ivLength) (text secretKey : Text) : Except String Text :=
  Except.mapError ("Encryption failed: " ++ ·) do
    let key := Hex.decode secretKey
    checkKey key
    let encrypted := G.crypt key iv.toList (Utf8.toBytes text)
    let authTag := G.tag key iv.toList encrypted
    return Hex.encode iv.toList ++ unit ':' :: Hex.encode authTag ++
      unit ':' :: Hex.encode encrypted

def createDecipheriv (iv : List UInt8) : Except String Unit :=
  fail (G.takesIv iv.length = false) "Invalid initialization vector"

/-- The lengths of a tag that are taken when none was configured. -/
def authTagLengths : List Nat := [4, 8, 12, 13, 14, 15, 16]

def setAuthTag (authTag : List UInt8) : Except String Unit :=
  fail (authTag.length ∉ authTagLengths)
    ("Invalid authentication tag length: " ++ toString authTag.length)

/-- `decipher.update` with the encoding `hex`. -/
def update (key iv : List UInt8) (encrypted : Text) : Except String (List UInt8) := do
  fail (encrypted.length % 2 ≠ 0) ("The argument 'encoding' is invalid for data of length " ++
    toString encrypted.length ++ ". Received 'hex'")
  return G.crypt key iv (Hex.decode encrypted)

/-- `decipher.final`: the tag that was set has to begin the one of the message. -/
def final (key iv authTag encrypted : List UInt8) : Except String Unit :=
  fail (¬authTag <+: G.tag key iv encrypted) "Unsupported state or unable to authenticate data"

def decrypt (encryptedData secretKey : Text) : Except String Text :=
  Except.mapError ("Decryption failed: " ++ ·) do
    match encryptedData.splitOn (unit ':') with
    | [ivHex, authTagHex, encrypted] =>
      let iv := Hex.decode ivHex
      let authTag := Hex.decode authTagHex
      let key := Hex.decode secretKey
      checkKey key
      createDecipheriv G iv
      setAuthTag authTag
      let decrypted ← update G key iv encrypted
      final G key iv authTag (Hex.decode encrypted)
      return Utf8.ofBytes decrypted
    | _ => throw "Invalid encrypted data format"

/-- The cipher takes the bytes and finds them authentic. -/
structure Verifies (key iv tag encrypted : List UInt8) : Prop where
  key_length : key.length = 32
  takes_iv : G.takesIv iv.length = true
  tag_length : tag.length ∈ authTagLengths
  authentic : tag <+: G.tag key iv encrypted

/-- The form that `encrypt` gives a text. -/
def Formed (data : Text) : Prop :=
  ∃ iv tag encrypted, data = iv ++ unit ':' :: tag ++ unit ':' :: encrypted ∧
    ((∀ c ∈ iv, Hex.isDigit c = true) ∧ iv.length = 32) ∧
    ((∀ c ∈ tag, Hex.isDigit c = true) ∧ tag.length = 32) ∧
    (∀ c ∈ encrypted, Hex.isDigit c = true) ∧ encrypted.length % 2 = 0

/-- Exactly 64 hexadecimal characters. -/
def HexKey (key : Text) : Prop := (∀ c ∈ key, Hex.isDigit c = true) ∧ key.length = 64

/-- What is promised of a key and of a string to decrypt. -/
structure Sound (data key : Text) : Prop where
  round_trip (of_form : HexKey key) (iv : Vector UInt8 ivLength) (text : Text)
    (well : Utf8.wellFormed text = true) :
    ∃ made, encrypt G iv text key = .ok made ∧ decrypt G made key = .ok text
  formed (text : Text) (accepted : decrypt G data key = .ok text) : Formed data
  encrypts (iv : Vector UInt8 ivLength) (text : Text) :
    (∃ made, encrypt G iv text key = .ok made) ↔ HexKey key
  decrypts : (∃ made text, decrypt G made key = .ok text) ↔ HexKey key

/-- Something stands after the 64 hexadecimal characters of a key. -/
def Overlong (key : Text) : Prop := (Hex.decode key).length = 32 ∧ ¬Hex.Whole key

/-- A string of three parts whose leading digits the cipher finds authentic, with another
initialization vector than one of 16 bytes, with a tag cut short, or with something after the
digits of a part. -/
def Loose (data key : Text) : Prop :=
  ∃ iv tag encrypted, data.splitOn (unit ':') = [iv, tag, encrypted] ∧
    encrypted.length % 2 = 0 ∧
    Verifies G (Hex.decode key) (Hex.decode iv) (Hex.decode tag) (Hex.decode encrypted) ∧
    ((Hex.decode iv).length ≠ 16 ∨ (Hex.decode tag).length < 16 ∨
      ¬Hex.Whole iv ∨ ¬Hex.Whole tag ∨ ¬Hex.Whole encrypted)

variable {G} {key data text : Text}

theorem mapError_eq_ok {A : Type} {f : String → String} {x : Except String A} {a : A} :
    x.mapError f = .ok a ↔ x = .ok a := by
  cases x <;> simp [Except.mapError]

theorem fail_bind {A : Type} {condition : Prop} [Decidable condition] {message : String}
    {next : Unit → Except String A} {a : A} :
    (fail condition message >>= next) = .ok a ↔ ¬condition ∧ next () = .ok a := by
  unfold fail
  split_ifs with h <;> simp [h, bind, Except.bind]

theorem encrypt_eq_ok {iv : Vector UInt8 ivLength} :
    encrypt G iv text key = .ok data ↔ (Hex.decode key).length = 32 ∧
      Hex.encode iv.toList ++
        unit ':' :: Hex.encode (G.tag (Hex.decode key) iv.toList
          (G.crypt (Hex.decode key) iv.toList (Utf8.toBytes text))) ++
        unit ':' :: Hex.encode (G.crypt (Hex.decode key) iv.toList (Utf8.toBytes text)) = data := by
  simp only [encrypt, mapError_eq_ok, checkKey, fail_bind, not_not]
  simp [pure, Except.pure]

theorem decrypt_eq_ok : decrypt G data key = .ok text ↔
    ∃ iv tag encrypted, data.splitOn (unit ':') = [iv, tag, encrypted] ∧
      encrypted.length % 2 = 0 ∧
      Verifies G (Hex.decode key) (Hex.decode iv) (Hex.decode tag) (Hex.decode encrypted) ∧
      Utf8.ofBytes (G.crypt (Hex.decode key) (Hex.decode iv) (Hex.decode encrypted)) = text := by
  rw [decrypt, mapError_eq_ok]
  split
  next iv tag encrypted split =>
    simp only [checkKey, createDecipheriv, setAuthTag, update, final, fail_bind, bind_assoc,
      pure_bind, not_not, Bool.not_eq_false]
    constructor
    · rintro ⟨key_length, takes_iv, tag_length, even, authentic, done⟩
      exact ⟨iv, tag, encrypted, split, even, ⟨key_length, takes_iv, tag_length, authentic⟩,
        Except.ok.inj done⟩
    · rintro ⟨iv', tag', encrypted', same, even, verifies, rfl⟩
      obtain ⟨rfl, rfl, rfl⟩ : iv = iv' ∧ tag = tag' ∧ encrypted = encrypted' := by
        simpa [split] using same
      exact ⟨verifies.key_length, verifies.takes_iv, verifies.tag_length, even,
        verifies.authentic, rfl⟩
  next other =>
    constructor
    · intro h
      cases h
    · rintro ⟨iv, tag, encrypted, split, -⟩
      exact (other iv tag encrypted split).elim

theorem hexKey_iff : HexKey key ↔ (Hex.decode key).length = 32 ∧ Hex.Whole key :=
  (Hex.whole_of_length_iff key 32).symm

theorem parts_eq {iv tag encrypted : Text} (split : data.splitOn (unit ':') = [iv, tag, encrypted]) :
    data = iv ++ unit ':' :: tag ++ unit ':' :: encrypted := by
  have joined : [unit ':'].intercalate (data.splitOn (unit ':')) = data :=
    List.intercalate_splitOn _
  rw [split] at joined
  simp [← joined, List.intercalate]

theorem splitOn_parts {iv tag encrypted : Text} (first : unit ':' ∉ iv) (second : unit ':' ∉ tag)
    (third : unit ':' ∉ encrypted) :
    (iv ++ unit ':' :: tag ++ unit ':' :: encrypted).splitOn (unit ':') =
      [iv, tag, encrypted] := by
  rw [List.append_assoc, List.cons_append, List.splitOn_append_cons_self_of_not_mem first,
    List.splitOn_append_cons_self_of_not_mem second, List.splitOn_eq_singleton third]

theorem colon_not_mem {t : Text} (digits : ∀ c ∈ t, Hex.isDigit c = true) : unit ':' ∉ t :=
  fun member => absurd (digits _ member) (by decide)

theorem formed_iff {iv tag encrypted : Text}
    (split : data.splitOn (unit ':') = [iv, tag, encrypted]) :
    Formed data ↔ ((Hex.decode iv).length = 16 ∧ Hex.Whole iv) ∧
      ((Hex.decode tag).length = 16 ∧ Hex.Whole tag) ∧ Hex.Whole encrypted := by
  rw [Hex.whole_of_length_iff, Hex.whole_of_length_iff, Hex.whole_iff]
  constructor
  · rintro ⟨iv', tag', encrypted', joined, first, second, third⟩
    rw [joined, splitOn_parts (colon_not_mem first.1) (colon_not_mem second.1)
      (colon_not_mem third.1)] at split
    obtain ⟨rfl, rfl, rfl⟩ : iv' = iv ∧ tag' = tag ∧ encrypted' = encrypted := by
      simpa using split
    exact ⟨first, second, third⟩
  · rintro ⟨first, second, third⟩
    exact ⟨iv, tag, encrypted, parts_eq split, first, second, third⟩

theorem colon_not_mem_encode (bytes : List UInt8) : unit ':' ∉ Hex.encode bytes :=
  colon_not_mem ((Hex.whole_iff _).mp (Hex.whole_encode bytes)).1

theorem decrypt_encrypt (bytes : (Hex.decode key).length = 32) (iv : Vector UInt8 ivLength)
    (well : Utf8.wellFormed text = true) :
    ∃ made, encrypt G iv text key = .ok made ∧ decrypt G made key = .ok text := by
  refine ⟨_, encrypt_eq_ok.mpr ⟨bytes, rfl⟩, decrypt_eq_ok.mpr ⟨_, _, _,
    splitOn_parts (colon_not_mem_encode _) (colon_not_mem_encode _) (colon_not_mem_encode _),
    ?_, ?_, ?_⟩⟩
  · simp [Hex.encode_length]
  · simp only [Hex.decode_encode]
    have taken : G.takesIv iv.toList.length = true := by
      rw [Vector.length_toList]
      exact G.takesIv_sixteen
    exact ⟨bytes, taken, by simp [G.tag_length, authTagLengths], List.prefix_refl _⟩
  · simp only [Hex.decode_encode, G.crypt_crypt bytes, Utf8.ofBytes_toBytes well]

/-- A string is accepted as `encrypt` would have made it, or loosely. -/
theorem formed_or_loose (accepted : decrypt G data key = .ok text) :
    Formed data ∨ Loose G data key := by
  obtain ⟨iv, tag, encrypted, split, even, verifies, -⟩ := decrypt_eq_ok.mp accepted
  refine or_iff_not_imp_left.mpr fun unformed => ⟨iv, tag, encrypted, split, even, verifies, ?_⟩
  have most : (Hex.decode tag).length ≤ 16 := by
    rw [← G.tag_length (Hex.decode key) (Hex.decode iv) (Hex.decode encrypted)]
    exact verifies.authentic.length_le
  rw [formed_iff split] at unformed
  by_contra strict
  simp only [not_or, not_not, Nat.not_lt] at strict
  obtain ⟨iv_length, tag_length, iv_whole, tag_whole, encrypted_whole⟩ := strict
  exact unformed ⟨⟨iv_length, iv_whole⟩, ⟨by omega, tag_whole⟩, encrypted_whole⟩

theorem Loose.accepted (loose : Loose G data key) :
    ¬Formed data ∧ ∃ text, decrypt G data key = .ok text := by
  obtain ⟨iv, tag, encrypted, split, even, verifies, more⟩ := loose
  refine ⟨fun formed => ?_, _, decrypt_eq_ok.mpr ⟨iv, tag, encrypted, split, even, verifies, rfl⟩⟩
  obtain ⟨first, second, third⟩ := (formed_iff split).mp formed
  rcases more with other | short | rest | rest | rest
  · exact other first.1
  · omega
  · exact rest first.2
  · exact rest second.2
  · exact rest third

theorem ciphertext_sound_iff (G : Gcm) (data key : Text) :
    Sound G data key ↔ ¬Overlong key ∧ ¬Loose G data key := by
  constructor
  · refine fun sound => ⟨fun ⟨bytes, rest⟩ => ?_, fun loose => ?_⟩
    · have made := (sound.encrypts (.replicate _ 0) []).mp ⟨_, encrypt_eq_ok.mpr ⟨bytes, rfl⟩⟩
      exact rest (hexKey_iff.mp made).2
    · obtain ⟨unformed, text, accepted⟩ := loose.accepted
      exact unformed (sound.formed text accepted)
  · rintro ⟨short, strict⟩
    have of_bytes (bytes : (Hex.decode key).length = 32) : HexKey key :=
      hexKey_iff.mpr ⟨bytes, not_not.mp fun rest => short ⟨bytes, rest⟩⟩
    refine ⟨fun of_form iv text => decrypt_encrypt (hexKey_iff.mp of_form).1 iv,
      fun text accepted => (formed_or_loose accepted).resolve_right strict,
      fun iv text => ⟨?_, fun of_form => ?_⟩, ⟨?_, fun of_form => ?_⟩⟩
    · rintro ⟨made, accepted⟩
      exact of_bytes (encrypt_eq_ok.mp accepted).1
    · exact ⟨_, encrypt_eq_ok.mpr ⟨(hexKey_iff.mp of_form).1, rfl⟩⟩
    · rintro ⟨made, text, accepted⟩
      obtain ⟨iv, tag, encrypted, -, -, verifies, -⟩ := decrypt_eq_ok.mp accepted
      exact of_bytes verifies.key_length
    · obtain ⟨made, -, accepted⟩ := decrypt_encrypt (G := G) (hexKey_iff.mp of_form).1
        (.replicate _ 0) (show Utf8.wellFormed [] = true from rfl)
      exact ⟨made, [], accepted⟩

/-- The cipher with the stream and the tag of `hi` under the key and the vector of zeros. -/
def zeroGcm : Gcm where
  crypt _ _ bytes := bytes.mapIdx fun i b => b ^^^ [0xdf, 0x53].getD i 0
  tag _ _ _ := Hex.decode (ascii "a68f0dc1f1ff016a1e5bf0beb831040b")
  takesIv length := 1 ≤ length && length ≤ 128
  crypt_crypt _ _ bytes := List.ext_getElem (by simp) (by simp [UInt8.xor_assoc])
  tag_length _ _ _ := by decide
  takesIv_sixteen := rfl

def zeros (n : Nat) : Text := List.replicate n (unit '0')

/-- The tag of `hi` cut to its first four bytes. -/
def shortTag : Text := zeros 32 ++ ascii ":a68f0dc1:b73a"

theorem shortTag_accepted : ¬Sound zeroGcm shortTag (zeros 64) := by
  intro sound
  have accepted : decrypt zeroGcm shortTag (zeros 64) = .ok (ascii "hi") := by decide
  have split : shortTag.splitOn (unit ':') = [zeros 32, ascii "a68f0dc1", ascii "b73a"] := by
    decide
  have tag := ((formed_iff split).mp (sound.formed _ accepted)).2.1.1
  exact absurd tag (by decide)

end CryptoUtil

end SecondhandApi
