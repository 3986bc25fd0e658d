import SecondhandApi.Json.RoundTrip
import SecondhandApi.Patterns

/-! The format `maskSensitiveData` of the log files. -/
namespace SecondhandApi.LoggerConfig
open Json (Text Value unit ascii stringify)
open Pattern (times literal)

/-! `\d`, `\s` and the other classes of the expressions. -/

def digit (c : UInt16) : Bool := 48 ≤ c && c ≤ 57

def space (c : UInt16) : Bool :=
  (9 ≤ c && c ≤ 13) || c = 32 || c = 0xa0 || c = 0x1680 || (0x2000 ≤ c && c ≤ 0x200a) ||
    c = 0x2028 || c = 0x2029 || c = 0x202f || c = 0x205f || c = 0x3000 || c = 0xfeff

def separator (c : UInt16) : Bool := c = unit '-' || space c

def nameChar (c : UInt16) : Bool :=
  (97 ≤ c && c ≤ 122) || (65 ≤ c && c ≤ 90) || digit c || c = unit '.' || c = unit '_' ||
    c = unit '-'

def quoteMark (c : UInt16) : Bool := c = unit '"'

/-! The expressions, and what stands in the place of their matches. -/

/-- The name of a property with its colon. -/
def tag (name : String) : Text := unit '"' :: (ascii name ++ [unit '"', unit ':'])

/-- `/"name":\s*"[^"]*"/` -/
def secret (name : String) : Pattern UInt16 :=
  .seq (literal (tag name)) (.seq (.many space)
    (.seq (.one quoteMark) (.seq (.many (!quoteMark ·)) (.one quoteMark))))

def secretMask (name : String) : Text := tag name ++ ascii " \"****\""

/-- `/\d{4}[-\s]?\d{4}[-\s]?\d{4}[-\s]?\d{4}/` -/
def card : Pattern UInt16 :=
  .seq (times 4 (.one digit)) (.seq (.opt (.one separator)) (.seq (times 4 (.one digit))
    (.seq (.opt (.one separator)) (.seq (times 4 (.one digit))
      (.seq (.opt (.one separator)) (times 4 (.one digit)))))))

def cardMask : Text := ascii "****-****-****-****"

/-- `/([a-zA-Z0-9._-]+)@/` -/
def email : Pattern UInt16 :=
  .seq (.one nameChar) (.seq (.many nameChar) (.one (· = unit '@')))

def emailMask : Text := ascii "***@"

/-- `/\d{3}[-\s]?\d{3,4}[-\s]?\d{4}/` -/
def phone : Pattern UInt16 :=
  .seq (times 3 (.one digit)) (.seq (.opt (.one separator))
    (.seq (.seq (times 3 (.one digit)) (.opt (.one digit)))
      (.seq (.opt (.one separator)) (times 4 (.one digit)))))

def phoneMask : Text := ascii "***-****-****"

/-- The five replacements, one after the other. -/
def mask (message : Text) : Text :=
  let message := (secret "password").replaceAll (secretMask "password") message
  let message := (secret "passwordHash").replaceAll (secretMask "passwordHash") message
  let message := card.replaceAll cardMask message
  let message := email.replaceAll emailMask message
  phone.replaceAll phoneMask message

/-- `info` is the list of the properties that `JSON.stringify` writes. -/
def maskSensitiveData (info : List (Text × Value)) : List (Text × Value) :=
  Json.define info (ascii "message") (.string (mask (stringify (.object info))))

/-! Nothing that looks like a card number, like the name of a mail address or like a phone number
is left. -/

theorem card_unmarked {w : Text} (word : w ∈ card.language) : unit '*' ∉ w :=
  fun h => absurd (Pattern.chars_of_mem word h) (by decide)

theorem phone_unmarked {w : Text} (word : w ∈ phone.language) : unit '*' ∉ w :=
  fun h => absurd (Pattern.chars_of_mem word h) (by decide)

theorem email_unmarked {w : Text} (word : w ∈ email.language) : unit '*' ∉ w :=
  fun h => absurd (Pattern.chars_of_mem word h) (by decide)

theorem card_head {w : Text} (word : w ∈ card.language) : ∃ c ∈ w.head?, digit c = true := by
  obtain ⟨-, null⟩ | ⟨c, head, first⟩ := Pattern.firsts_of_mem word
  · cases null
  · exact ⟨c, head, by simpa [card, times, Pattern.firsts, Pattern.nullable] using first⟩

theorem phone_head {w : Text} (word : w ∈ phone.language) : ∃ c ∈ w.head?, digit c = true := by
  obtain ⟨-, null⟩ | ⟨c, head, first⟩ := Pattern.firsts_of_mem word
  · cases null
  · exact ⟨c, head, by simpa [phone, times, Pattern.firsts, Pattern.nullable] using first⟩

theorem email_head {w : Text} (word : w ∈ email.language) : ∃ c ∈ w.head?, nameChar c = true := by
  obtain ⟨-, null⟩ | ⟨c, head, first⟩ := Pattern.firsts_of_mem word
  · cases null
  · exact ⟨c, head, by simpa [email, Pattern.firsts, Pattern.nullable] using first⟩

theorem email_at {w : Text} (word : w ∈ email.language) : unit '@' ∈ w := by
  obtain ⟨u, -, v, hv, rfl⟩ := Language.mem_mul.1 word
  obtain ⟨v, -, x, ⟨c, hc, rfl⟩, rfl⟩ := Language.mem_mul.1 hv
  simp [of_decide_eq_true hc]

theorem visible_of_class {p : UInt16 → Bool} {new w : Text} (unmarked : unit '*' ∉ w)
    (head : ∃ c ∈ w.head?, p c = true) (foreign : new.all (fun c => !p c) = true) :
    Pattern.Visible (unit '*') new w := by
  obtain ⟨c, head, hc⟩ := head
  apply Pattern.Visible.of_head unmarked head
  intro h
  have outside := List.all_eq_true.1 foreign c h
  simp [hc] at outside

theorem email_visible {w : Text} (word : w ∈ email.language) :
    Pattern.Visible (unit '*') phoneMask w := by
  apply Pattern.Visible.of_last _ (email_unmarked word) (by decide)
  · intro part
    exact absurd (part.subset (email_at word)) (by decide)
  · rintro rfl
    cases email_at word

theorem mask_card {w : Text} (word : w ∈ card.language) (message : Text) :
    ¬w <:+: mask message := by
  have visible : ∀ new : Text, new.all (fun c => !digit c) = true →
      ∀ u ∈ card.language, Pattern.Visible (unit '*') new u :=
    fun new foreign u hu => visible_of_class (card_unmarked hu) (card_head hu) foreign
  apply Pattern.replaceAll_keeps _ (by decide) (visible phoneMask (by decide) w word)
  · apply Pattern.replaceAll_keeps _ (by decide) (visible emailMask (by decide) w word)
    · exact Pattern.replaceAll_clean (by decide) (visible cardMask (by decide)) word _
    · intro h
      cases email_at h
  · intro h
    obtain ⟨c, head, -⟩ := phone_head h
    cases head

theorem mask_email {w : Text} (word : w ∈ email.language) (message : Text) :
    ¬w <:+: mask message := by
  apply Pattern.replaceAll_keeps _ (by decide) (email_visible word)
  · have visible : ∀ u ∈ email.language, Pattern.Visible (unit '*') emailMask u :=
      fun u hu => visible_of_class (email_unmarked hu) (email_head hu) (by decide)
    exact Pattern.replaceAll_clean (by decide) visible word _
  · intro h
    obtain ⟨c, head, -⟩ := phone_head h
    cases head

theorem mask_phone {w : Text} (word : w ∈ phone.language) (message : Text) :
    ¬w <:+: mask message :=
  Pattern.replaceAll_clean (by decide)
    (fun _ hu => visible_of_class (phone_unmarked hu) (phone_head hu) (by decide)) word _

/-! The format. -/

/-- The new message shows no card number, no name of a mail address and no phone number. The other
properties are logged as they are. -/
theorem message_masked (info : List (Text × Value)) :
    (∃ message, (maskSensitiveData info).lookup (ascii "message") = some (.string message) ∧
      ∀ w, w ∈ card.language ∨ w ∈ email.language ∨ w ∈ phone.language → ¬w <:+: message) ∧
    ∀ key ≠ ascii "message", (maskSensitiveData info).lookup key = info.lookup key := by
  constructor
  · refine ⟨_, by rw [maskSensitiveData, Json.lookup_define, if_pos rfl], fun w word => ?_⟩
    obtain word | word | word := word
    · exact mask_card word _
    · exact mask_email word _
    · exact mask_phone word _
  · intro key other
    rw [maskSensitiveData, Json.lookup_define, if_neg other]

end SecondhandApi.LoggerConfig
