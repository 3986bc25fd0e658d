import SecondhandApi.JavaScript
import SecondhandApi.ProductLists

/-! `ProductsService.search`: five branches, each with conditions of its own, against one
predicate for all the filters of the request. -/
namespace SecondhandApi
open Keyed JavaScript

structure SearchProductDto where
  keyword : Option String := none
  categoryId : Option Id := none
  minPrice : Option Number := none
  maxPrice : Option Number := none
  status : Option ProductStatus := none
  sellerId : Option Id := none
  latitude : Option Number := none
  longitude : Option Number := none
  radiusKm : Option Number := some (.finite 5)
  page : Option Number := some (.finite 1)
  limit : Option Number := some (.finite 20)

/-- `IsNumber` with `Min` and `Max`; without `IsOptional` a number would be required. -/
def inBounds (low : Rat) (high : Option Rat) : Option Number → Bool
  | none => true
  | some (.finite q) => low ≤ q && high.all (q ≤ ·)
  | some _ => false

/-- What the decorators of the class check. -/
structure SearchProductDto.Valid (dto : SearchProductDto) : Prop where
  minPrice : inBounds 0 none dto.minPrice = true
  maxPrice : inBounds 0 none dto.maxPrice = true
  latitude : inBounds (-90) (some 90) dto.latitude = true
  longitude : inBounds (-180) (some 180) dto.longitude = true
  radiusKm : inBounds 1 (some 50) dto.radiusKm = true
  page : inBounds 1 none dto.page = true
  limit : inBounds 1 (some 100) dto.limit = true

/-- The functions of `Math` whose last digits are left to the implementation. -/
structure MathFunctions where
  pi : Number
  sin : Number → Number
  cos : Number → Number
  sqrt : Number → Number
  atan2 : Number → Number → Number

/-- What the search asks of others: `Math`, and the lower case in which the database compares. -/
structure SearchContext where
  math : MathFunctions
  lower : Char → Char

/-- `contains` with the mode `insensitive` -/
def SearchContext.contains (ctx : SearchContext) (text word : String) : Bool :=
  word.toList.map ctx.lower <:+: text.toList.map ctx.lower

section
variable (ctx : SearchContext)

def deg2rad (deg : Number) : Number := deg.mul (ctx.math.pi.div (.finite 180))

def calculateDistance (lat1 lon1 lat2 lon2 : Number) : Number :=
  let m := ctx.math
  let dLat := deg2rad ctx (lat2.sub lat1)
  let dLon := deg2rad ctx (lon2.sub lon1)
  let sinLat := m.sin (dLat.div (.finite 2))
  let sinLon := m.sin (dLon.div (.finite 2))
  let a := (sinLat.mul sinLat).add
    ((((m.cos (deg2rad ctx lat1)).mul (m.cos (deg2rad ctx lat2))).mul sinLon).mul sinLon)
  let c := (Number.finite 2).mul (m.atan2 (m.sqrt a) (m.sqrt ((Number.finite 1).sub a)))
  (Number.finite 6371).mul c

namespace ProductWhere

def sellerId (id : Id) : ProductWhere := ⟨fun p => p.sellerId = id, true⟩
def categoryId (id : Id) : ProductWhere := ⟨fun p => p.categoryId = id, true⟩
def located : ProductWhere := ⟨fun p => p.latitude.isSome && p.longitude.isSome, true⟩

def keyword (word : String) : ProductWhere :=
  ⟨fun p => ctx.contains p.title word || ctx.contains p.description word, true⟩

/-- A bound of an `Int` column, without what it has after the point. -/
def intBound : Number → Option Int
  | .finite q => toInt q
  | _ => none

def priceGte (bound : Number) : ProductWhere :=
  ⟨fun p => (intBound bound).any (· ≤ p.price), (intBound bound).isSome⟩

def priceLte (bound : Number) : ProductWhere :=
  ⟨fun p => (intBound bound).any (p.price ≤ ·), (intBound bound).isSome⟩

end ProductWhere

/-- `skip` and `take` are 64-bit integers, without what they have after the point. -/
def Prisma.intArgument : Number → Except PrismaError Int
  | .finite q =>
    if -2 ^ 63 ≤ truncated q ∧ truncated q < 2 ^ 63 then .ok (truncated q)
    else .error .invalidValue
  | _ => .error .invalidValue

namespace ProductsRepository

def findMany (db : Tables) (wheres : List ProductWhere) (skip take : Number) (ties : Id → Nat) :
    Except PrismaError (List (Id × Product)) := do
  Prisma.productFindMany db wheres (← Prisma.intArgument skip) (← Prisma.intArgument take) ties

def findBySeller (db : Tables) (sellerId : Id) (skip take : Number)
    (status : Option ProductStatus) (ties : Id → Nat) : Except PrismaError (List (Id × Product)) :=
  findMany db ([.sellerId sellerId] ++ status.toList.map .status) skip take ties

def findByCategory (db : Tables) (categoryId : Id) (skip take : Number)
    (status : Option ProductStatus) (ties : Id → Nat) : Except PrismaError (List (Id × Product)) :=
  findMany db [.categoryId categoryId, .status (status.getD .active)] skip take ties

/-- A text or a number that does not count as absent. -/
def givenText (s : Option String) : Option String := s.filter (· ≠ "")
def givenNumber (n : Option Number) : Option Number := n.filter Number.truthy

def searchWhere (keyword : String) (categoryId : Option Id) (minPrice maxPrice : Option Number)
    (status : Option ProductStatus) : List ProductWhere :=
  (givenText (some keyword)).toList.map (.keyword ctx) ++ (givenText categoryId).toList.map .categoryId ++
    (givenNumber minPrice).toList.map .priceGte ++ (givenNumber maxPrice).toList.map .priceLte ++
    [.status (status.getD .active)]

def search (db : Tables) (keyword : String) (skip take : Number) (categoryId : Option Id)
    (minPrice maxPrice : Option Number) (status : Option ProductStatus) (ties : Id → Nat) :
    Except PrismaError (List (Id × Product)) :=
  findMany db (searchWhere ctx keyword categoryId minPrice maxPrice status) skip take ties

/-- A coordinate of zero counts as absent. -/
def isNear (latitude longitude radiusKm : Number) (p : Product) : Bool :=
  match p.latitude, p.longitude with
  | some lat, some lon =>
    lat ≠ 0 && lon ≠ 0 &&
      (calculateDistance ctx latitude longitude (.finite lat) (.finite lon)).le radiusKm
  | _, _ => false

/-- The distance is looked at after the page was taken. -/
def findByLocation (db : Tables) (latitude longitude radiusKm : Number) (skip take : Number)
    (status : Option ProductStatus) (ties : Id → Nat) :
    Except PrismaError (List (Id × Product)) := do
  let products ← findMany db [.located, .status (status.getD .active)] skip take ties
  return products.filter (fun row => isNear ctx latitude longitude radiusKm row.2)

end ProductsRepository

structure ProductSearchResponse where
  items : List (Id × Product)
  total : Nat
  page : Number
  limit : Number
  totalPages : Number
  deriving DecidableEq

namespace SearchProductDto

def skip (dto : SearchProductDto) : Number :=
  ((dto.page.getD (.finite 1)).sub (.finite 1)).mul (dto.limit.getD (.finite 20))

def take (dto : SearchProductDto) : Number := dto.limit.getD (.finite 20)

/-- `searchDto.latitude && searchDto.longitude` -/
def atLocation (dto : SearchProductDto) : Option (Number × Number) :=
  match dto.latitude, dto.longitude with
  | some lat, some lon => if lat.truthy && lon.truthy then some (lat, lon) else none
  | _, _ => none

/-- `searchDto.radiusKm || 5` -/
def radius (dto : SearchProductDto) : Number :=
  match dto.radiusKm with
  | some radius => if radius.truthy then radius else .finite 5
  | none => .finite 5

end SearchProductDto

open ProductsRepository

def ProductsService.search (db : Tables) (dto : SearchProductDto) (ties : Id → Nat) :
    Except PrismaError ProductSearchResponse := do
  let respond (items : List (Id × Product)) (total : Nat) : ProductSearchResponse :=
    { items := items
      total := total
      page := dto.page.getD (.finite 1)
      limit := dto.limit.getD (.finite 20)
      totalPages := ((Number.finite total).div (dto.limit.getD (.finite 20))).ceil }
  match dto.atLocation with
  | some (latitude, longitude) =>
    let products ← findByLocation ctx db latitude longitude dto.radius dto.skip dto.take dto.status
      ties
    return respond products products.length
  | none =>
  match givenText dto.keyword with
  | some keyword =>
    let products ← ProductsRepository.search ctx db keyword dto.skip dto.take dto.categoryId
      dto.minPrice dto.maxPrice dto.status ties
    let total ← Prisma.productCount db
      ([.keyword ctx keyword] ++ (givenText dto.categoryId).toList.map .categoryId ++
        (givenNumber dto.minPrice).toList.map .priceGte ++
        (givenNumber dto.maxPrice).toList.map .priceLte ++ [.status (dto.status.getD .active)])
    return respond products total
  | none =>
  match givenText dto.sellerId with
  | some sellerId =>
    let products ← findBySeller db sellerId dto.skip dto.take dto.status ties
    let total ← Prisma.productCount db
      ([.sellerId sellerId] ++ dto.status.toList.map .status)
    return respond products total
  | none =>
  match givenText dto.categoryId with
  | some categoryId =>
    let products ← findByCategory db categoryId dto.skip dto.take dto.status ties
    let total ← Prisma.productCount db
      [.categoryId categoryId, .status (dto.status.getD .active)]
    return respond products total
  | none =>
    let products ← findMany db [.status (dto.status.getD .active)] dto.skip dto.take ties
    let total ← Prisma.productCount db [.status (dto.status.getD .active)]
    return respond products total

/-- The conditions of the branches without a location. -/
def SearchProductDto.branchWhere (dto : SearchProductDto) : List ProductWhere :=
  match givenText dto.keyword with
  | some keyword =>
    searchWhere ctx keyword dto.categoryId dto.minPrice dto.maxPrice dto.status
  | none =>
    match givenText dto.sellerId with
    | some sellerId => [.sellerId sellerId] ++ dto.status.toList.map .status
    | none =>
      match givenText dto.categoryId with
      | some categoryId => [.categoryId categoryId, .status (dto.status.getD .active)]
      | none => [.status (dto.status.getD .active)]

/-- The filters of the request, all of them. -/
@[mk_iff]
structure SearchProductDto.Satisfied (dto : SearchProductDto) (p : Product) : Prop where
  keyword : ∀ word ∈ dto.keyword,
    ctx.contains p.title word = true ∨ ctx.contains p.description word = true
  categoryId : ∀ id ∈ dto.categoryId, p.categoryId = id
  minPrice : ∀ bound ∈ dto.minPrice, bound.le (.finite p.price) = true
  maxPrice : ∀ bound ∈ dto.maxPrice, (Number.finite p.price).le bound = true
  sellerId : ∀ id ∈ dto.sellerId, p.sellerId = id
  distance : ∀ latitude ∈ dto.latitude, ∀ longitude ∈ dto.longitude,
    ∃ lat ∈ p.latitude, ∃ lon ∈ p.longitude,
      (calculateDistance ctx latitude longitude (.finite lat) (.finite lon)).le
        (dto.radiusKm.getD (.finite 5)) = true
  status : p.status = dto.status.getD .active

instance (dto : SearchProductDto) : DecidablePred (dto.Satisfied ctx) := fun _ =>
  haveI (o : Option Rat) (P : Rat → Prop) [DecidablePred P] : Decidable (∃ x ∈ o, P x) :=
    decidable_of_iff (o.any P = true) (by cases o <;> simp)
  decidable_of_iff _ (SearchProductDto.satisfied_iff ..).symm

/-- Every item satisfies every filter, and the total is that of the products that do. -/
structure SearchRight (db : Tables) (dto : SearchProductDto) (result : ProductSearchResponse) :
    Prop where
  items : ∀ row ∈ result.items, dto.Satisfied ctx row.2
  total : result.total = db.products.rows.countP (fun row => dto.Satisfied ctx row.2)

/-! Which filters a request is searched by depends on the first of location, keyword, seller and
category that it gives. -/

inductive SearchBranch where
  | location
  | keyword
  | seller
  | category
  | rest
  deriving DecidableEq

namespace SearchProductDto

/-- A coordinate of zero and an empty text are not given. -/
def branch (dto : SearchProductDto) : SearchBranch :=
  if dto.latitude.any Number.truthy && dto.longitude.any Number.truthy then .location
  else if dto.keyword.any (· ≠ "") then .keyword
  else if dto.sellerId.any (· ≠ "") then .seller
  else if dto.categoryId.any (· ≠ "") then .category
  else .rest

/-- The filters that the branch of the request looks at. -/
@[mk_iff]
structure Met (dto : SearchProductDto) (p : Product) : Prop where
  keyword : dto.branch = .keyword → ∀ word ∈ dto.keyword,
    ctx.contains p.title word = true ∨ ctx.contains p.description word = true
  categoryId : dto.branch = .keyword ∨ dto.branch = .category →
    ∀ id ∈ dto.categoryId, id ≠ "" → p.categoryId = id
  minPrice : dto.branch = .keyword → ∀ q, q ≠ 0 → dto.minPrice = some (.finite q) →
    truncated q ≤ p.price
  maxPrice : dto.branch = .keyword → ∀ q, q ≠ 0 → dto.maxPrice = some (.finite q) →
    p.price ≤ truncated q
  sellerId : dto.branch = .seller → ∀ id ∈ dto.sellerId, p.sellerId = id
  distance : dto.branch = .location → ∀ latitude ∈ dto.latitude, ∀ longitude ∈ dto.longitude,
    ∃ lat ∈ p.latitude, ∃ lon ∈ p.longitude, lat ≠ 0 ∧ lon ≠ 0 ∧
      (calculateDistance ctx latitude longitude (.finite lat) (.finite lon)).le
        (dto.radiusKm.getD (.finite 5)) = true
  status : dto.branch ≠ .seller ∨ dto.status ≠ none → p.status = dto.status.getD .active

/-- Those that it leaves out: also a lowest price that has digits after the point, and a highest
price of zero. -/
structure LeftOut (dto : SearchProductDto) (p : Product) : Prop where
  keyword : dto.branch = .location → ∀ word ∈ dto.keyword,
    ctx.contains p.title word = true ∨ ctx.contains p.description word = true
  categoryId : dto.branch ≠ .keyword ∧ dto.branch ≠ .category ∨ dto.categoryId = some "" →
    ∀ id ∈ dto.categoryId, p.categoryId = id
  minPrice : ∀ q, dto.minPrice = some (.finite q) →
    dto.branch ≠ .keyword ∨ q = 0 ∨ q ≠ truncated q → q ≤ p.price
  maxPrice : ∀ q, dto.maxPrice = some (.finite q) → dto.branch ≠ .keyword ∨ q = 0 →
    (p.price : Rat) ≤ q
  sellerId : dto.branch ≠ .seller → ∀ id ∈ dto.sellerId, p.sellerId = id
  distance : dto.branch ≠ .location → ∀ latitude ∈ dto.latitude, ∀ longitude ∈ dto.longitude,
    ∃ lat ∈ p.latitude, ∃ lon ∈ p.longitude,
      (calculateDistance ctx latitude longitude (.finite lat) (.finite lon)).le
        (dto.radiusKm.getD (.finite 5)) = true
  status : dto.branch = .seller → dto.status = none → p.status = .active

/-- The products with coordinates and the requested status, newest first. -/
def located (dto : SearchProductDto) (db : Tables) (ties : Id → Nat) : List (Id × Product) :=
  (db.products.rows.filter fun row => row.2.latitude.isSome && row.2.longitude.isSome &&
    decide (row.2.status = dto.status.getD .active)).insertionSort (newestFirst ties)

/-- The row stands where the asked page is cut from them. -/
def OnPage (dto : SearchProductDto) (db : Tables) (ties : Id → Nat) (row : Id × Product) : Prop :=
  ∃ skip take : Rat, dto.skip = .finite skip ∧ dto.take = .finite take ∧
    ∃ i : Nat, truncated skip ≤ i ∧ i < truncated skip + truncated take ∧
      (dto.located db ties)[i]? = some row

end SearchProductDto

/-- The filters that are left out exclude no product that meets the others; and at a location,
where only a page is looked at, all products that satisfy the filters are on it, and at no
coordinate of zero. -/
structure FiltersKept (db : Tables) (dto : SearchProductDto) (ties : Id → Nat) : Prop where
  leftOut : ∀ row ∈ db.products.rows, (dto.branch = .location → dto.OnPage db ties row) →
    dto.Met ctx row.2 → dto.LeftOut ctx row.2
  listed : dto.branch = .location → ∀ row ∈ db.products.rows, dto.Satisfied ctx row.2 →
    dto.OnPage db ties row ∧ row.2.latitude ≠ some 0 ∧ row.2.longitude ≠ some 0

variable {ctx} {db : Tables} {dto : SearchProductDto} {ties : Id → Nat}

theorem givenText_some {s : Option String} {word : String} (h : givenText s = some word) :
    s = some word ∧ word ≠ "" := by
  obtain ⟨same, given⟩ := Option.filter_eq_some_iff.mp h
  exact ⟨same, of_decide_eq_true given⟩

theorem givenText_again {s : Option String} {word : String} (h : givenText s = some word) :
    givenText (some word) = some word :=
  Option.filter_eq_some_iff.mpr ⟨rfl, decide_eq_true (givenText_some h).2⟩

theorem givenText_met {s : Option String} {P : String → Prop} :
    (∀ word ∈ givenText s, P word) ↔ ∀ word ∈ s, word ≠ "" → P word := by
  constructor
  · exact fun met word asked full =>
      met word (Option.filter_eq_some_iff.mpr ⟨asked, decide_eq_true full⟩)
  · exact fun met word given => met word (givenText_some given).1 (givenText_some given).2

theorem givenText_none {s : Option String} (h : givenText s = none) : ¬ s.any (· ≠ "") = true := by
  cases s with
  | none => exact Bool.false_ne_true
  | some word =>
    intro given
    have kept : givenText (some word) = some word := Option.filter_some_pos given
    cases h.symm.trans kept

theorem truncated_int (n : Int) : truncated n = n := Int.tdiv_one n

theorem truncated_floor {q : Rat} (nonneg : 0 ≤ q) : truncated q = ⌊q⌋ :=
  (Int.tdiv_eq_ediv_of_nonneg (Rat.num_nonneg.mpr nonneg)).trans (Rat.floor_def q).symm

theorem finite_le {a b : Rat} : (Number.finite a).le (.finite b) = true ↔ a ≤ b := by
  simp only [Number.le, Number.lt, Bool.or_eq_true, decide_eq_true_eq, Number.finite.injEq]
  exact le_iff_lt_or_eq.symm

theorem inBounds_finite {low : Rat} {high : Option Rat} {n : Number}
    (h : inBounds low high (some n) = true) : ∃ q, n = .finite q ∧ low ≤ q := by
  cases n with
  | finite q => exact ⟨q, rfl, of_decide_eq_true (Bool.and_eq_true_iff.mp h).1⟩
  | nan => cases h
  | infinity negative => cases h

theorem contains_empty (text : String) : ctx.contains text "" = true :=
  decide_eq_true List.nil_infix

/-- What the other branches are taken for has no keyword. -/
theorem no_keyword (nowhere : dto.branch ≠ .location) (wordless : dto.branch ≠ .keyword) :
    ∀ word ∈ dto.keyword, word = "" := by
  intro word asked
  by_contra full
  have given : dto.keyword.any (· ≠ "") = true := by
    rw [asked]
    exact decide_eq_true full
  unfold SearchProductDto.branch at nowhere wordless
  split_ifs at nowhere wordless
  · exact nowhere rfl
  · exact wordless rfl

/-- A filter is looked at or left out; of a lowest price the part before the point is looked at. -/
theorem satisfied_of_met (valid : dto.Valid) {p : Product} (met : dto.Met ctx p)
    (rest : dto.LeftOut ctx p) : dto.Satisfied ctx p where
  keyword word asked := by
    by_cases here : dto.branch = .location
    · exact rest.keyword here word asked
    by_cases worded : dto.branch = .keyword
    · exact met.keyword worded word asked
    · rw [no_keyword here worded word asked]
      exact .inl (contains_empty _)
  categoryId id asked := by
    by_cases looked : dto.branch = .keyword ∨ dto.branch = .category
    · by_cases empty : id = ""
      · exact rest.categoryId (.inr (empty ▸ asked)) id asked
      · exact met.categoryId looked id asked empty
    · exact rest.categoryId (.inl (not_or.mp looked)) id asked
  minPrice bound asked := by
    have bounds := valid.minPrice
    rw [asked] at bounds
    obtain ⟨q, rfl, _⟩ := inBounds_finite bounds
    rw [finite_le]
    by_cases looked : dto.branch = .keyword ∧ q ≠ 0 ∧ q = truncated q
    · obtain ⟨worded, nonzero, whole⟩ := looked
      rw [whole]
      exact_mod_cast met.minPrice worded q nonzero asked
    · exact rest.minPrice q asked (by tauto)
  maxPrice bound asked := by
    have bounds := valid.maxPrice
    rw [asked] at bounds
    obtain ⟨q, rfl, nonneg⟩ := inBounds_finite bounds
    rw [finite_le]
    by_cases looked : dto.branch = .keyword ∧ q ≠ 0
    · have below := met.maxPrice looked.1 q looked.2 asked
      rw [truncated_floor nonneg] at below
      exact Int.le_floor.mp below
    · exact rest.maxPrice q asked (by tauto)
  sellerId id asked := by
    by_cases looked : dto.branch = .seller
    · exact met.sellerId looked id asked
    · exact rest.sellerId looked id asked
  distance latitude asked longitude asked' := by
    by_cases looked : dto.branch = .location
    · obtain ⟨lat, stored, lon, stored', _, _, near⟩ :=
        met.distance looked latitude asked longitude asked'
      exact ⟨lat, stored, lon, stored', near⟩
    · exact rest.distance looked latitude asked longitude asked'
  status := by
    by_cases looked : dto.branch ≠ .seller ∨ dto.status ≠ none
    · exact met.status looked
    · have absent : dto.status = none := by tauto
      rw [absent]
      exact rest.status (by tauto) absent

theorem leftOut_of_satisfied {p : Product} (h : dto.Satisfied ctx p) : dto.LeftOut ctx p where
  keyword _ := h.keyword
  categoryId _ := h.categoryId
  minPrice _ asked _ := finite_le.mp (h.minPrice _ asked)
  maxPrice _ asked _ := finite_le.mp (h.maxPrice _ asked)
  sellerId _ := h.sellerId
  distance _ := h.distance
  status _ absent := by rw [h.status, absent]; rfl

/-- What satisfies all filters meets those of every branch, at a location unless one of its
coordinates is zero. -/
theorem met_of_satisfied (valid : dto.Valid) {p : Product} (h : dto.Satisfied ctx p)
    (off : dto.branch = .location → p.latitude ≠ some 0 ∧ p.longitude ≠ some 0) :
    dto.Met ctx p where
  keyword _ := h.keyword
  categoryId _ id asked _ := h.categoryId id asked
  minPrice _ q _ asked := by
    have bounds := valid.minPrice
    rw [asked] at bounds
    obtain ⟨_, ⟨⟩, nonneg⟩ := inBounds_finite bounds
    have above := finite_le.mp (h.minPrice _ asked)
    rw [truncated_floor nonneg]
    exact_mod_cast (Int.floor_le q).trans above
  maxPrice _ q _ asked := by
    have bounds := valid.maxPrice
    rw [asked] at bounds
    obtain ⟨_, ⟨⟩, nonneg⟩ := inBounds_finite bounds
    rw [truncated_floor nonneg]
    exact Int.le_floor.mpr (finite_le.mp (h.maxPrice _ asked))
  sellerId _ := h.sellerId
  distance here latitude asked longitude asked' := by
    obtain ⟨lat, stored, lon, stored', near⟩ := h.distance latitude asked longitude asked'
    obtain ⟨north, east⟩ := off here
    exact ⟨lat, stored, lon, stored', fun zero => north (zero ▸ stored),
      fun zero => east (zero ▸ stored'), near⟩
  status _ := h.status

theorem givenText_given {s : Option String} {word : String} (h : givenText s = some word) :
    s.any (· ≠ "") = true := by
  obtain ⟨same, full⟩ := givenText_some h
  rw [same]
  exact decide_eq_true full

theorem atLocation_none (nowhere : dto.atLocation = none) :
    ¬ (dto.latitude.any Number.truthy && dto.longitude.any Number.truthy) = true := by
  unfold SearchProductDto.atLocation at nowhere
  cases lat : dto.latitude with
  | none => exact Bool.false_ne_true
  | some latitude =>
    cases lon : dto.longitude with
    | none => simp
    | some longitude =>
      simp only [lat, lon, ite_eq_right_iff] at nowhere
      intro both
      cases nowhere both

theorem branch_elsewhere (nowhere : dto.atLocation = none) : dto.branch ≠ .location := by
  rw [SearchProductDto.branch, if_neg (atLocation_none nowhere)]
  split_ifs <;> decide

theorem branch_keyword (nowhere : dto.atLocation = none) {keyword : String}
    (word : givenText dto.keyword = some keyword) : dto.branch = .keyword := by
  rw [SearchProductDto.branch, if_neg (atLocation_none nowhere), if_pos (givenText_given word)]

/-- A price bound that the client takes, unless it counts as absent. -/
theorem bounds_met {n : Option Number} (cond : Int → Bool)
    (accepted : ∀ bound ∈ givenNumber n, (ProductWhere.intBound bound).isSome = true) :
    (∀ bound ∈ givenNumber n, (ProductWhere.intBound bound).any cond = true) ↔
      ∀ q, q ≠ 0 → n = some (.finite q) → cond (truncated q) = true := by
  have taken {q : Rat} (nonzero : q ≠ 0) (asked : n = some (.finite q)) :
      Number.finite q ∈ givenNumber n :=
    Option.filter_eq_some_iff.mpr ⟨asked, decide_eq_true nonzero⟩
  have kept {q : Rat} (fits : (toInt q).isSome = true) : toInt q = some (truncated q) := by
    unfold toInt at fits ⊢
    split_ifs at fits ⊢
    · rfl
    · cases fits
  constructor
  · intro met q nonzero asked
    have given := taken nonzero asked
    have holds := met _ given
    rwa [ProductWhere.intBound, kept (accepted _ given)] at holds
  · intro met bound given
    obtain ⟨asked, full⟩ := Option.filter_eq_some_iff.mp given
    cases bound with
    | finite q =>
      rw [ProductWhere.intBound, kept (accepted _ given)]
      exact met q (of_decide_eq_true full) asked
    | nan => cases accepted _ given
    | infinity negative => cases accepted _ given

/-- Without a location the conditions of the query are the filters of the branch. -/
theorem admits_iff (nowhere : dto.atLocation = none)
    (accepted : (dto.branchWhere ctx).all (·.accepted) = true) (p : Product) :
    (dto.branchWhere ctx).all (·.admits p) = true ↔ dto.Met ctx p := by
  have away := atLocation_none nowhere
  rw [SearchProductDto.met_iff]
  unfold SearchProductDto.branchWhere at accepted ⊢
  cases word : givenText dto.keyword with
  | some keyword =>
    have worded := branch_keyword nowhere word
    have asked := (givenText_some word).1
    have again := givenText_again word
    simp only [word, searchWhere, again, List.all_append, List.all_map, Bool.and_eq_true,
      List.all_eq_true, Option.mem_toList, Function.comp_apply] at accepted
    obtain ⟨⟨⟨_, lowest⟩, highest⟩, _⟩ := accepted
    have low := bounds_met (· ≤ p.price) lowest
    have high := bounds_met (p.price ≤ ·) highest
    simp only [decide_eq_true_eq] at low high
    simp only [worded, asked, ← low, ← high, searchWhere, again, List.all_append,
      List.all_map, Bool.and_eq_true, List.all_eq_true, Option.mem_toList, Function.comp_apply,
      Option.mem_def]
    simp [ProductWhere.keyword, ProductWhere.categoryId, ProductWhere.priceGte,
      ProductWhere.priceLte, ProductWhere.status, and_assoc]
    exact fun _ _ _ _ => givenText_met
  | none =>
    cases seller : givenText dto.sellerId with
    | some id =>
      have sold : dto.branch = .seller := by
        rw [SearchProductDto.branch, if_neg away, if_neg (givenText_none word),
          if_pos (givenText_given seller)]
      cases dto.status <;>
        simp [sold, (givenText_some seller).1, ProductWhere.sellerId, ProductWhere.status]
    | none =>
      cases shelf : givenText dto.categoryId with
      | some id =>
        have shelved : dto.branch = .category := by
          rw [SearchProductDto.branch, if_neg away, if_neg (givenText_none word),
            if_neg (givenText_none seller), if_pos (givenText_given shelf)]
        have given := givenText_some shelf
        simp [shelved, given.1, given.2, ProductWhere.categoryId, ProductWhere.status]
      | none =>
        have rest : dto.branch = .rest := by
          rw [SearchProductDto.branch, if_neg away, if_neg (givenText_none word),
            if_neg (givenText_none seller), if_neg (givenText_none shelf)]
        simp [rest, ProductWhere.status]

/-- Without a location the search is one query and one count, under the same conditions. -/
theorem search_branch (nowhere : dto.atLocation = none) :
    ProductsService.search ctx db dto ties = do
      let products ← findMany db (dto.branchWhere ctx) dto.skip dto.take ties
      let total ← Prisma.productCount db (dto.branchWhere ctx)
      return {
        items := products
        total := total
        page := dto.page.getD (.finite 1)
        limit := dto.limit.getD (.finite 20)
        totalPages := ((Number.finite total).div (dto.limit.getD (.finite 20))).ceil } := by
  rw [ProductsService.search, nowhere]
  unfold SearchProductDto.branchWhere
  cases word : givenText dto.keyword with
  | some keyword =>
    have again := givenText_again word
    dsimp only
    rw [ProductsRepository.search, searchWhere, again]
    rfl
  | none =>
    cases seller : givenText dto.sellerId with
    | some id => rfl
    | none =>
      cases shelf : givenText dto.categoryId with
      | some id => rfl
      | none => rfl

theorem search_elsewhere (nowhere : dto.atLocation = none) {result : ProductSearchResponse}
    (ok : ProductsService.search ctx db dto ties = .ok result) :
    findMany db (dto.branchWhere ctx) dto.skip dto.take ties = .ok result.items ∧
      Prisma.productCount db (dto.branchWhere ctx) = .ok result.total := by
  rw [search_branch nowhere] at ok
  obtain ⟨products, listed, ok⟩ := ok_of_bind ok
  obtain ⟨total, counted, ok⟩ := ok_of_bind ok
  cases ok
  exact ⟨listed, counted⟩

/-- At a location it is a page of the located products, and those of it that are near. -/
theorem search_located {latitude longitude : Number}
    (here : dto.atLocation = some (latitude, longitude)) {result : ProductSearchResponse}
    (ok : ProductsService.search ctx db dto ties = .ok result) :
    ∃ products, findMany db [.located, .status (dto.status.getD .active)] dto.skip dto.take ties =
        .ok products ∧
      result.items = products.filter (fun row => isNear ctx latitude longitude dto.radius row.2) ∧
      result.total = result.items.length := by
  simp only [ProductsService.search, here] at ok
  obtain ⟨near, found, ok⟩ := ok_of_bind ok
  cases ok
  obtain ⟨products, listed, ok⟩ := ok_of_bind found
  cases ok
  exact ⟨products, listed, rfl, rfl⟩

theorem intArgument_ok {n : Number} {k : Int} (ok : Prisma.intArgument n = .ok k) :
    ∃ q, n = .finite q ∧ truncated q = k := by
  cases n with
  | finite q =>
    rw [Prisma.intArgument] at ok
    split at ok
    · cases ok
      exact ⟨q, rfl, rfl⟩
    · cases ok
  | nan => cases ok
  | infinity negative => cases ok

/-- The rows of a page that was answered. -/
theorem findMany_ok {wheres : List ProductWhere} {skip take : Number}
    {products : List (Id × Product)} (ok : findMany db wheres skip take ties = .ok products) :
    wheres.all (·.accepted) = true ∧ products ⊆ db.productsWhere wheres ∧
      ∃ s t : Rat, skip = .finite s ∧ take = .finite t ∧ 0 ≤ truncated s ∧
        (0 ≤ truncated t → products = (((db.productsWhere wheres).insertionSort
          (newestFirst ties)).drop (truncated s).toNat).take (truncated t).toNat) := by
  obtain ⟨_, first, ok⟩ := ok_of_bind ok
  obtain ⟨_, many, ok⟩ := ok_of_bind ok
  obtain ⟨s, skip_s, rfl⟩ := intArgument_ok first
  obtain ⟨t, take_t, rfl⟩ := intArgument_ok many
  simp only [Prisma.productFindMany] at ok
  split at ok
  · cases ok
  rename_i valid
  obtain ⟨positive, taken⟩ := not_or.mp valid
  have accepted : wheres.all (·.accepted) = true := by simpa using taken
  have sorted := List.perm_insertionSort (newestFirst ties) (db.productsWhere wheres)
  split at ok
  · cases ok
    refine ⟨accepted, fun row member => ?_, s, t, skip_s, take_t, Int.not_lt.mp positive,
      fun _ => rfl⟩
    exact sorted.subset (List.mem_of_mem_drop (List.mem_of_mem_take member))
  · rename_i negative
    cases ok
    refine ⟨accepted, fun row member => ?_, s, t, skip_s, take_t, Int.not_lt.mp positive,
      fun many => absurd many negative⟩
    have inside := List.mem_of_mem_drop (List.mem_of_mem_take (List.mem_reverse.mp member))
    exact sorted.subset (List.mem_reverse.mp inside)

theorem productCount_ok {wheres : List ProductWhere} {total : Nat}
    (ok : Prisma.productCount db wheres = .ok total) :
    total = db.products.rows.countP (fun row => wheres.all (·.admits row.2)) := by
  rw [Prisma.productCount] at ok
  split at ok <;> cases ok
  exact List.countP_eq_length_filter.symm

/-- The number of those that satisfy the weaker of two predicates is that of the stronger one
only if they are the same. -/
theorem countP_eq_iff {A : Type} {l : List A} {p q : A → Bool}
    (weaker : ∀ a ∈ l, p a = true → q a = true) :
    l.countP q = l.countP p ↔ ∀ a ∈ l, q a = true → p a = true := by
  have both : l.countP p = (l.filter q).countP p := by
    rw [List.countP_filter]
    refine List.countP_congr (fun a member => ?_)
    simp only [Bool.and_eq_true]
    exact ⟨fun holds => ⟨holds, weaker a member holds⟩, And.left⟩
  rw [both, List.countP_eq_length_filter (p := q), eq_comm, List.countP_eq_length]
  simp only [List.mem_filter, and_imp]

theorem elsewhere_right_iff (valid : dto.Valid) (nowhere : dto.atLocation = none)
    {result : ProductSearchResponse} (ok : ProductsService.search ctx db dto ties = .ok result) :
    SearchRight ctx db dto result ↔ FiltersKept ctx db dto ties := by
  obtain ⟨listed, counted⟩ := search_elsewhere nowhere ok
  obtain ⟨accepted, inside, _⟩ := findMany_ok listed
  have admits := admits_iff nowhere accepted
  have away := branch_elsewhere nowhere
  have totals := countP_eq_iff (l := db.products.rows)
    (p := fun row => decide (dto.Satisfied ctx row.2))
    (q := fun row => (dto.branchWhere ctx).all (·.admits row.2))
    (fun row _ holds => (admits row.2).mpr (met_of_satisfied valid (of_decide_eq_true holds)
      (fun here => absurd here away)))
  simp only [decide_eq_true_eq, admits] at totals
  constructor
  · rintro ⟨_, total⟩
    have all := totals.mp ((productCount_ok counted).symm.trans total)
    exact ⟨fun row stored _ met => leftOut_of_satisfied (all row stored met),
      fun here => absurd here away⟩
  · intro kept
    have all (row : Id × Product) (stored : row ∈ db.products.rows) (met : dto.Met ctx row.2) :
        dto.Satisfied ctx row.2 :=
      satisfied_of_met valid met (kept.leftOut row stored (fun here => absurd here away) met)
    refine ⟨fun row member => ?_, (productCount_ok counted).trans (totals.mpr all)⟩
    obtain ⟨stored, admitted⟩ := List.mem_filter.mp (inside member)
    exact all row stored ((admits row.2).mp admitted)

theorem atLocation_some {latitude longitude : Number}
    (here : dto.atLocation = some (latitude, longitude)) :
    latitude ∈ dto.latitude ∧ longitude ∈ dto.longitude := by
  unfold SearchProductDto.atLocation at here
  cases lat : dto.latitude with
  | none => simp [lat] at here
  | some x =>
    cases lon : dto.longitude with
    | none => simp [lat, lon] at here
    | some y =>
      simp only [lat, lon, Option.ite_none_right_eq_some, Option.some.injEq,
        Prod.mk.injEq] at here
      exact ⟨congrArg some here.2.1, congrArg some here.2.2⟩

/-- A valid radius is not zero. -/
theorem radius_eq (valid : dto.Valid) : dto.radius = dto.radiusKm.getD (.finite 5) := by
  have bounds := valid.radiusKm
  unfold SearchProductDto.radius
  cases asked : dto.radiusKm with
  | none => rfl
  | some radius =>
    rw [asked] at bounds
    cases radius with
    | finite q =>
      have least : 1 ≤ q := of_decide_eq_true (Bool.and_eq_true_iff.mp bounds).1
      have nonzero : q ≠ 0 := by linarith
      exact if_pos (decide_eq_true nonzero)
    | nan => cases bounds
    | infinity negative => cases bounds

theorem take_positive (valid : dto.Valid) {t : Rat} (take : dto.take = .finite t) :
    0 ≤ truncated t := by
  have bounds := valid.limit
  unfold SearchProductDto.take at take
  have nonneg : 0 ≤ t := by
    cases asked : dto.limit with
    | none =>
      rw [asked] at take
      have twenty : 20 = t := Number.finite.inj take
      rw [← twenty]
      norm_num
    | some limit =>
      rw [asked] at take bounds
      obtain ⟨q, rfl, least⟩ := inBounds_finite bounds
      cases take
      exact zero_le_one.trans least
  rw [truncated_floor nonneg]
  exact Int.floor_nonneg.mpr nonneg

theorem branch_located {place : Number × Number} (here : dto.atLocation = some place) :
    dto.branch = .location := by
  obtain ⟨latitude, longitude⟩ := place
  obtain ⟨lat, lon⟩ := atLocation_some here
  unfold SearchProductDto.atLocation at here
  rw [Option.mem_def] at lat lon
  simp only [lat, lon, Option.ite_none_right_eq_some] at here
  rw [SearchProductDto.branch, lat, lon]
  exact if_pos here.1

/-- The filter of the page keeps what meets the filters of the branch. -/
theorem isNear_iff (valid : dto.Valid) {latitude longitude : Number}
    (here : dto.atLocation = some (latitude, longitude)) {p : Product}
    (status : p.status = dto.status.getD .active) :
    isNear ctx latitude longitude dto.radius p = true ↔ dto.Met ctx p := by
  obtain ⟨asked, asked'⟩ := atLocation_some here
  rw [Option.mem_def] at asked asked'
  rw [SearchProductDto.met_iff, radius_eq valid]
  simp only [branch_located here, asked, asked', isNear]
  cases p.latitude with
  | none => simp
  | some lat =>
    cases p.longitude with
    | none => simp
    | some lon => simp [status, and_assoc]

theorem located_eq : (db.productsWhere [.located, .status (dto.status.getD .active)]).insertionSort
    (newestFirst ties) = dto.located db ties := by
  simp [Tables.productsWhere, SearchProductDto.located, ProductWhere.located, ProductWhere.status]

/-- The page that was answered has the rows that stand there. -/
theorem mem_products_iff (valid : dto.Valid) {products : List (Id × Product)}
    (listed : findMany db [.located, .status (dto.status.getD .active)] dto.skip dto.take ties =
      .ok products) (row : Id × Product) : row ∈ products ↔ dto.OnPage db ties row := by
  obtain ⟨_, _, s, t, skip, take, first, page⟩ := findMany_ok listed
  have many := take_positive valid take
  rw [page many, Paging.mem_drop_take, located_eq]
  constructor
  · rintro ⟨i, after, before, at_i⟩
    exact ⟨s, t, skip, take, i, by omega, by omega, at_i⟩
  · rintro ⟨s', t', skip', take', i, after, before, at_i⟩
    cases skip.symm.trans skip'
    cases take.symm.trans take'
    exact ⟨i, by omega, by omega, at_i⟩

theorem located_right_iff (valid : dto.Valid) {latitude longitude : Number}
    (here : dto.atLocation = some (latitude, longitude)) {result : ProductSearchResponse}
    (ok : ProductsService.search ctx db dto ties = .ok result) :
    SearchRight ctx db dto result ↔ FiltersKept ctx db dto ties := by
  obtain ⟨products, listed, items, total⟩ := search_located here ok
  obtain ⟨_, inside, s, t, _, take, _, taken⟩ := findMany_ok listed
  have page := mem_products_iff valid listed
  have at_place := branch_located here
  have stored {row : Id × Product} (on : dto.OnPage db ties row) :
      row ∈ db.products.rows ∧ row.2.status = dto.status.getD .active := by
    have admitted := List.mem_filter.mp (inside ((page row).mpr on))
    simp only [List.all_cons, List.all_nil, Bool.and_true, Bool.and_eq_true] at admitted
    exact ⟨admitted.1, of_decide_eq_true admitted.2.2⟩
  have member (row : Id × Product) : row ∈ result.items ↔
      dto.OnPage db ties row ∧ dto.Met ctx row.2 := by
    rw [items, List.mem_filter, page]
    exact and_congr_right (fun on => isNear_iff valid here (stored on).2)
  have rows : db.products.rows.Nodup := List.Nodup.of_map Prod.fst db.products.unique
  have once : result.items.Nodup := by
    have sorted := (List.perm_insertionSort (newestFirst ties)
      (db.productsWhere [.located, .status (dto.status.getD .active)])).nodup_iff.mpr
        (rows.filter _)
    rw [items, taken (take_positive valid take)]
    exact ((sorted.sublist (List.drop_sublist _ _)).sublist (List.take_sublist _ _)).filter _
  have count : db.products.rows.countP (fun row => decide (dto.Satisfied ctx row.2)) =
      (db.products.rows.filter (fun row => decide (dto.Satisfied ctx row.2))).length :=
    List.countP_eq_length_filter
  constructor
  · rintro ⟨right, all⟩
    refine ⟨fun row _ on met => leftOut_of_satisfied
      (right row ((member row).mpr ⟨on at_place, met⟩)), fun _ row inside holds => ?_⟩
    have within : result.items ⊆
        db.products.rows.filter (fun row => decide (dto.Satisfied ctx row.2)) := fun row here =>
      List.mem_filter.mpr ⟨(stored ((member row).mp here).1).1, decide_eq_true (right row here)⟩
    have same := (once.subperm within).perm_of_length_le (by rw [← count, ← all, total])
    have listed := same.symm.subset (List.mem_filter.mpr ⟨inside, decide_eq_true holds⟩)
    obtain ⟨on, met⟩ := (member row).mp listed
    obtain ⟨asked, asked'⟩ := atLocation_some here
    obtain ⟨lat, north, lon, east, lat_off, lon_off, _⟩ :=
      met.distance at_place latitude asked longitude asked'
    rw [Option.mem_def] at north east
    exact ⟨on, by simpa [north] using lat_off, by simpa [east] using lon_off⟩
  · intro kept
    have holds (row : Id × Product) (inside : row ∈ result.items) : dto.Satisfied ctx row.2 := by
      obtain ⟨on, met⟩ := (member row).mp inside
      exact satisfied_of_met valid met (kept.leftOut row (stored on).1 (fun _ => on) met)
    refine ⟨holds, ?_⟩
    rw [total, count]
    refine ((List.perm_ext_iff_of_nodup once (rows.filter _)).mpr (fun row => ?_)).length_eq
    rw [List.mem_filter, decide_eq_true_eq]
    constructor
    · exact fun inside => ⟨(stored ((member row).mp inside).1).1, holds row inside⟩
    · rintro ⟨inside, satisfied⟩
      obtain ⟨on, nonzero⟩ := kept.listed at_place row inside satisfied
      exact (member row).mpr ⟨on, met_of_satisfied valid satisfied (fun _ => nonzero)⟩

end

/-- The lower case of ASCII, and a `Math` for requests without a location. -/
def plainContext : SearchContext where
  math := ⟨.finite 3, id, id, id, fun y _ => y⟩
  lower := Char.toLower

def lampSearch : SearchProductDto := { keyword := some "LAMP", categoryId := some "home" }

def lampFound : ProductSearchResponse :=
  { items := [("lamp", lamp)], total := 1, page := .finite 1, limit := .finite 20
    totalPages := .finite 1 }

/-- A category and a highest price: the branch of the category leaves the price out. -/
def cheapSearch : SearchProductDto := { categoryId := some "home", maxPrice := some (.finite 5) }

end SecondhandApi
