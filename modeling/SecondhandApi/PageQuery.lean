import SecondhandApi.JavaScript

/-! `page` and `limit` from the query string to the repository. The two product lists declare
them as numbers, which the global `ValidationPipe` converts; the two lists of the chat declare
an interface, whose fields it lets through as they were sent. -/
namespace SecondhandApi
open JavaScript Binary64

/-- What a client can put in a query string under one name. -/
inductive QueryParam where
  | absent
  | once (s : String)
  | repeated (ss : List String)

def QueryParam.value : QueryParam → Value
  | absent => .undefined
  | once s => .text s
  | repeated ss => .texts ss

/-- `ValidationPipe.transformPrimitive` on a parameter of type `number`. -/
def QueryParam.asNumber : QueryParam → Value
  | absent => .undefined
  | sent => .number sent.value.toNumber

/-- The answer of a `count`: an integer that numbers hold exactly. -/
structure Count where
  rows : Nat
  safe : rows < 2 ^ 53

def Count.number (total : Count) : Number := .finite total.rows

/-- The numbers of one page, as they reach the repository and the response. -/
structure PageNumbers where
  page : Value
  limit : Value
  skip : Number
  totalPages : Number
  nextPage : Option Value

/-- `(page - 1) * limit` -/
def skipOf (page limit : Value) : Number := (page.toNumber.sub (.finite 1)).mul limit.toNumber

/-- `Math.ceil(total / limit)` -/
def totalPagesOf (total : Count) (limit : Value) : Number :=
  (total.number.div limit.toNumber).ceil

/-- `findAll` and `findMyProducts` of the products service, whose parameters have defaults. -/
def productPage (page limit : Value) (total : Count) : PageNumbers :=
  let page := page.orElse (.finite 1)
  let limit := limit.orElse (.finite 20)
  { page := page
    limit := limit
    skip := skipOf page limit
    totalPages := totalPagesOf total limit
    nextPage := none }

/-- `PaginationPipe` and what the repositories of the chat make of its result, with
`PaginationUtil.createMeta`. -/
def chatPage (page limit : Value) (total : Count) : PageNumbers :=
  let page := page.orElse (.finite 1)
  let limit := limit.orElse (.finite 10)
  let totalPages := totalPagesOf total limit
  { page := page
    limit := limit
    skip := skipOf page limit
    totalPages := totalPages
    nextPage := if page.toNumber.lt totalPages then some page.plusOne else none }

inductive PagedEndpoint where
  | products
  | myProducts
  | chatRoomList
  | roomMessages

/-- What reaches the paged query, if anything does: only the messages of a room are asked for
after another check, `ensureUserCanAccessChatRoom`, which may throw. -/
def PagedEndpoint.request (e : PagedEndpoint) (admitted : Bool) (page limit : QueryParam)
    (total : Count) : Option PageNumbers :=
  match e with
  | products | myProducts => some (productPage page.asNumber limit.asNumber total)
  | chatRoomList => some (chatPage page.value limit.value total)
  | roomMessages => if admitted then some (chatPage page.value limit.value total) else none

/-- What the numbers of page `n` with `m` rows are, computed exactly. -/
structure PageNumbers.Shows (p : PageNumbers) (total : Count) (n m : Nat) : Prop where
  page : p.page = .number (.finite n)
  limit : p.limit = .number (.finite m)
  skip : p.skip = .finite ((n - 1) * m)
  totalPages : p.totalPages = .finite ⌈(total.rows / m : Rat)⌉
  nextPage : ∀ next ∈ p.nextPage, next = .number (.finite (n + 1))

/-- They are those of some page, and in range. -/
def PageNumbers.Sound (p : PageNumbers) (total : Count) : Prop :=
  ∃ n m : Nat, 1 ≤ n ∧ 1 ≤ m ∧ m ≤ 100 ∧ p.Shows total n m

/-- The parameter converts to `n`, or is absent and `n` is the default. -/
def QueryParam.Asks (p : QueryParam) (default n : Nat) : Prop :=
  p = .absent ∧ n = default ∨ p.value.toNumber = .finite n

/-- Which requests are sound: those of the product lists whose parameters convert to numbers in
range, with a skip that a number can hold; those of the chat without parameters; and those that
are refused before. -/
def PagedEndpoint.Accepts (e : PagedEndpoint) (admitted : Bool) (page limit : QueryParam) : Prop :=
  match e with
  | products | myProducts => ∃ n m : Nat, page.Asks 1 n ∧ limit.Asks 20 m ∧
      1 ≤ n ∧ 1 ≤ m ∧ m ≤ 100 ∧ Holds ((n - 1) * m)
  | chatRoomList => page = .absent ∧ limit = .absent
  | roomMessages => admitted = false ∨ page = .absent ∧ limit = .absent

/-- The skip is rounded nowhere exactly when a number can hold it. -/
theorem skipOf_iff {page limit : Nat} (one : 1 ≤ page) (positive : 1 ≤ limit) :
    skipOf (.number (.finite page)) (.number (.finite limit)) = .finite ((page - 1) * limit) ↔
      Holds ((page - 1) * limit) := by
  obtain ⟨before, rfl⟩ := Nat.exists_eq_add_of_le' one
  have minus : ((before + 1 : Nat) : Rat) + -1 = before := by push_cast; ring
  have exact : (((before + 1 : Nat) : Rat) - 1) * limit = (before * limit : Nat) := by push_cast; ring
  rw [Nat.add_sub_cancel, exact]
  change (Number.ofRat (((before + 1 : Nat) : Rat) + -1)).mul (.finite limit) = _ ↔ _
  rw [minus]
  constructor
  · intro same
    cases first : Number.ofRat before with
    | finite q =>
      rw [first] at same
      exact Number.holds_ofRat same
    | nan => rw [first] at same; cases same
    | infinity negative =>
      rw [first, Number.mul] at same
      split_ifs at same
  · intro held
    rw [Number.ofRat_holds (holds_factor positive held), ← Number.ofRat_holds held]
    push_cast
    rfl

theorem ceil_natCast_div {a b : Nat} (positive : 1 ≤ b) :
    ⌈((a : Rat) / b)⌉ = ((a + (b - 1)) / b : Nat) := by
  have divisor : (0 : Rat) < b := by exact_mod_cast positive
  have split := Nat.div_add_mod (a + (b - 1)) b
  have rest := Nat.mod_lt (a + (b - 1)) positive
  generalize (a + (b - 1)) / b = k at split ⊢
  rw [Int.ceil_eq_iff, lt_div_iff₀ divisor, div_le_iff₀ divisor]
  have below : b * k < a + b := by omega
  have above : a ≤ b * k := by omega
  have below_cast : (b : Rat) * k < a + b := by exact_mod_cast below
  have above_cast : (a : Rat) ≤ b * k := by exact_mod_cast above
  push_cast
  constructor <;> linarith

theorem totalPagesOf_eq (total : Count) {limit : Nat} (positive : 1 ≤ limit) (few : limit ≤ 100) :
    totalPagesOf total (.number (.finite limit)) = .finite ⌈(total.rows / limit : Rat)⌉ := by
  have divided := Number.ceil_div positive total.safe (few.trans_lt (by norm_num))
  rw [ceil_natCast_div positive]
  exact_mod_cast divided

theorem asks_iff {p : QueryParam} {default n : Nat} :
    p.asNumber.orElse (.finite default) = .number (.finite n) ↔ p.Asks default n := by
  cases p with
  | absent =>
    constructor
    · intro same
      have cast : (default : Rat) = n := Number.finite.inj (Value.number.inj same)
      exact .inl ⟨rfl, by exact_mod_cast cast.symm⟩
    · rintro (⟨_, rfl⟩ | sent)
      · rfl
      · cases sent
  | once s =>
    constructor
    · exact fun same => .inr (Value.number.inj same)
    · rintro (⟨absent, _⟩ | sent)
      · cases absent
      · exact congrArg Value.number sent
  | repeated ss =>
    constructor
    · exact fun same => .inr (Value.number.inj same)
    · rintro (⟨absent, _⟩ | sent)
      · cases absent
      · exact congrArg Value.number sent

/-- What was sent to the chat stays a text. -/
theorem absent_of_number {p : QueryParam} {default : Number} {n : Number}
    (h : p.value.orElse default = .number n) : p = .absent := by
  cases p with
  | absent => rfl
  | once s => cases h
  | repeated ss => cases h

theorem productPage_sound_iff (page limit : QueryParam) (total : Count) :
    (productPage page.asNumber limit.asNumber total).Sound total ↔
      ∃ n m : Nat, page.Asks 1 n ∧ limit.Asks 20 m ∧ 1 ≤ n ∧ 1 ≤ m ∧ m ≤ 100 ∧
        Holds ((n - 1) * m) := by
  constructor
  · rintro ⟨n, m, one, low, high, shows⟩
    refine ⟨n, m, asks_iff.mp shows.page, asks_iff.mp shows.limit, one, low, high, ?_⟩
    rw [← skipOf_iff one low, ← shows.page, ← shows.limit]
    exact shows.skip
  · rintro ⟨n, m, pageIs, limitIs, one, low, high, held⟩
    have page_number := asks_iff.mpr pageIs
    have limit_number := asks_iff.mpr limitIs
    refine ⟨n, m, one, low, high, page_number, limit_number, ?_, ?_, fun _ none => nomatch none⟩
    · rw [← skipOf_iff one low, ← page_number, ← limit_number] at held
      exact held
    · rw [← totalPagesOf_eq total low high, ← limit_number]
      rfl

theorem chatPage_sound_iff (page limit : QueryParam) (total : Count) :
    (chatPage page.value limit.value total).Sound total ↔ page = .absent ∧ limit = .absent := by
  constructor
  · rintro ⟨n, m, one, low, high, shows⟩
    exact ⟨absent_of_number shows.page, absent_of_number shows.limit⟩
  · rintro ⟨rfl, rfl⟩
    have skip := (skipOf_iff (Nat.le_refl 1) (by decide : 1 ≤ 10)).mpr (holds_small (by decide))
    have pages := totalPagesOf_eq total (by decide : 1 ≤ 10) (by decide)
    have next : Number.ofRat (1 + 1) = .finite (1 + 1) := by
      have two := Number.ofRat_holds (holds_small (by decide : 2 < 2 ^ 53))
      rw [one_add_one_eq_two]
      exact_mod_cast two
    refine ⟨1, 10, Nat.le_refl 1, by decide, by decide, ?_⟩
    constructor
    all_goals simp only [Nat.cast_one, Nat.cast_ofNat] at skip pages ⊢
    · rfl
    · rfl
    · exact skip
    · exact pages
    · intro v given
      unfold chatPage at given
      dsimp only at given
      split at given
      · cases given
        exact congrArg Value.number next
      · cases given

/-- Whatever is sent, the page is sound exactly for the requests that are accepted above. -/
theorem page_sound_iff (e : PagedEndpoint) (admitted : Bool) (page limit : QueryParam)
    (total : Count) : (∀ p, e.request admitted page limit total = some p → p.Sound total) ↔
      e.Accepts admitted page limit := by
  have reached (p : PageNumbers) : (∀ q, some p = some q → q.Sound total) ↔ p.Sound total :=
    ⟨fun all => all p rfl, fun sound q same => Option.some.inj same ▸ sound⟩
  cases e with
  | products => exact (reached _).trans (productPage_sound_iff page limit total)
  | myProducts => exact (reached _).trans (productPage_sound_iff page limit total)
  | chatRoomList => exact (reached _).trans (chatPage_sound_iff page limit total)
  | roomMessages =>
    cases admitted with
    | false => exact iff_of_true (fun _ none => nomatch none) (Or.inl rfl)
    | true =>
      refine (reached _).trans ((chatPage_sound_iff page limit total).trans ?_)
      exact ⟨Or.inr, fun accepts => accepts.resolve_left (nomatch ·)⟩

/-- `?page=0` asks for the rows before the first. -/
theorem page_zero : ¬ ∀ (e : PagedEndpoint) (admitted : Bool) (page limit : QueryParam)
    (total : Count) (p : PageNumbers), e.request admitted page limit total = some p →
      p.Sound total := by
  intro always
  have sound := always .products true (.once "0") .absent ⟨0, by decide⟩ _ rfl
  obtain ⟨n, _, one, _, _, shows⟩ := sound
  have value := shows.page
  have zero : stringToNumber "0" = .finite 0 := by decide +kernel
  have same : (0 : Rat) = n := Number.finite.inj (zero.symm.trans (Value.number.inj value))
  have none : n = 0 := by exact_mod_cast same.symm
  omega

end SecondhandApi
