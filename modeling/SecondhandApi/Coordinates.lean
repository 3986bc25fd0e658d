import SecondhandApi.LocationPages
import SecondhandApi.Effects

/-! The coordinates of a product, from the request that brings them to the search that is centred
at them. -/
namespace SecondhandApi
open Keyed JavaScript Interleaving

def coordinatesApart : ApiError := .badRequest "위도와 경도는 함께 제공되어야 합니다"

def CreateProductDto.placed (dto : CreateProductDto) (latitude longitude : Field Rat) :
    CreateProductDto :=
  { dto with latitude := latitude, longitude := longitude }

def UpdateProductDto.placed (dto : UpdateProductDto) (latitude longitude : Field Rat) :
    UpdateProductDto :=
  { dto with latitude := latitude, longitude := longitude }

/-- A property with a number. -/
def Given (coordinate : Field Rat) : Prop := ∃ q, coordinate = .value q

def BothOrNeither (latitude longitude : Field Rat) : Prop := Given latitude ↔ Given longitude

/-- Both coordinates or neither. -/
def Product.Whole (p : Product) : Prop := p.latitude.isSome = p.longitude.isSome

instance (p : Product) : Decidable p.Whole := inferInstanceAs (Decidable (_ = _))

def Tables.NoHalves (t : Tables) : Prop := ∀ id p, t.products.find? id = some p → p.Whole

/-- A search centred at the place is a search at a location, and an active product there passes
its filter, whatever the distances to other places. -/
def FoundAt (lat lon : Rat) : Prop :=
  ∀ (distance : Number → Number → Number → Number → Number) (dto : SearchProductDto) (p : Product),
    distance (.finite lat) (.finite lon) (.finite lat) (.finite lon) = .finite 0 →
    (Number.finite 0).le (dto.radiusKm.getD (.finite 5)) = true →
    dto.status.getD .active = .active → p.status = .active →
    p.latitude = some lat → p.longitude = some lon →
      (dto.around (.finite lat) (.finite lon)).atLocation = some (.finite lat, .finite lon) ∧
      [ProductWhere.located, dto.statusWhere].all (·.admits p) = true ∧
      nearBy distance (.finite lat) (.finite lon) dto.radius p = true

/-- What a request with these coordinates has to do. -/
structure CoordinatesRight (latitude longitude : Field Rat) : Prop where
  created : ∀ db sellerId (dto : CreateProductDto) id now,
    ((ProductsService.create sellerId (dto.placed latitude longitude) id now).alone exec db).2 ≠
      .error coordinatesApart ↔ BothOrNeither latitude longitude
  edited : ∀ (db : Db) id userId (dto : UpdateProductDto) product, db.products.find? id = some product →
    product.sellerId = userId → product.status ≠ .deleted →
    (((ProductsService.update id userId (dto.placed latitude longitude)).alone exec db).2 ≠
      .error coordinatesApart ↔ BothOrNeither latitude longitude)
  createdWhole : ∀ (db : Db) sellerId (dto : CreateProductDto) id now, db.NoHalves →
    ((ProductsService.create sellerId (dto.placed latitude longitude) id now).alone
      exec db).1.NoHalves
  editedWhole : ∀ (db : Db) id userId (dto : UpdateProductDto), db.NoHalves →
    ((ProductsService.update id userId (dto.placed latitude longitude)).alone exec db).1.NoHalves
  found : ∀ lat lon, latitude = .value lat → longitude = .value lon → FoundAt lat lon

/-- No coordinate of zero, and no null beside an absent property. -/
def Unambiguous (latitude longitude : Field Rat) : Prop :=
  latitude ≠ .value 0 ∧ longitude ≠ .value 0 ∧
    ¬ (latitude = .null ∧ longitude = .undefined) ∧ ¬ (latitude = .undefined ∧ longitude = .null)

section
variable {latitude longitude : Field Rat} {db : Db} {id userId : Id}

theorem create_apart_iff (sellerId : Id) (dto : CreateProductDto) (now : Date) :
    ((ProductsService.create sellerId (dto.placed latitude longitude) id now).alone exec db).2 =
      .error coordinatesApart ↔ oneCoordinate latitude longitude = true := by
  have place : oneCoordinate (dto.placed latitude longitude).latitude
      (dto.placed latitude longitude).longitude = oneCoordinate latitude longitude := rfl
  cases one : oneCoordinate latitude longitude with
  | true => simp [ProductsService.create, place, one, coordinatesApart]
  | false =>
    have enters : (ProductsService.create sellerId (dto.placed latitude longitude) id now).alone
        exec db = (ProductsRepository.create id now
          ((dto.placed latitude longitude).toInput sellerId)).alone exec db := by
      simp [ProductsService.create, place, one]
    rw [enters]
    rcases productCreate_alone db id now ((dto.placed latitude longitude).toInput sellerId) with
      ⟨e, _, done⟩ | ⟨mid, product, _, done⟩
    · simp [done, coordinatesApart]
    · simp [done]

theorem update_apart_iff {product : Product} (found : db.products.find? id = some product)
    (seller : product.sellerId = userId) (listed : product.status ≠ .deleted)
    (dto : UpdateProductDto) :
    ((ProductsService.update id userId (dto.placed latitude longitude)).alone exec db).2 =
      .error coordinatesApart ↔ oneCoordinate latitude longitude = true := by
  have place : oneCoordinate (dto.placed latitude longitude).latitude
      (dto.placed latitude longitude).longitude = oneCoordinate latitude longitude := rfl
  cases one : oneCoordinate latitude longitude with
  | true =>
    simp [ProductsService.update, Request.alone_bind, found, seller, listed, place, one,
      coordinatesApart]
  | false =>
    have enters : (ProductsService.update id userId (dto.placed latitude longitude)).alone exec db =
        (ProductsRepository.update id
          (ProductsService.changes (dto.placed latitude longitude))).alone exec db := by
      simp [ProductsService.update, Request.alone_bind, found, seller, listed, place, one]
    rw [enters]
    rcases productUpdate_split db id
      (ProductsService.changes (dto.placed latitude longitude)) with
        ⟨e, _, done⟩ | ⟨mid, new, _, done⟩
    · simp [done, coordinatesApart]
    · simp [done]

/-- Off zero, the truth of a coordinate is its presence. -/
theorem given_iff {coordinate : Field Rat} (off : coordinate ≠ .value 0) :
    Given coordinate ↔ coordinate.isTruthy nonzero = true := by
  cases coordinate with
  | undefined => simp [Given, Field.isTruthy]
  | null => simp [Given, Field.isTruthy]
  | value q =>
    have nonzero_q : q ≠ 0 := fun zero => off (congrArg Field.value zero)
    simp [Given, Field.isTruthy, nonzero, nonzero_q]

theorem apart_iff (off : latitude ≠ .value 0) (off' : longitude ≠ .value 0) :
    oneCoordinate latitude longitude = true ↔ ¬ BothOrNeither latitude longitude := by
  rw [BothOrNeither, given_iff off, given_iff off', oneCoordinate, bne_iff_ne, ne_eq, Bool.eq_iff_iff]

/-- Where the check and presence agree, no coordinate of zero is alone. -/
theorem zero_alone (agree : oneCoordinate latitude longitude = true ↔ ¬ BothOrNeither latitude longitude) :
    latitude = .value 0 ↔ longitude = .value 0 := by
  cases latitude <;> cases longitude <;>
    simp_all [oneCoordinate, BothOrNeither, Given, Field.isTruthy, nonzero]

theorem not_found_at_zero (lon : Rat) : ¬ FoundAt 0 lon := by
  intro found
  have here := (found (fun _ _ _ _ => .finite 0) {}
    { lamp with latitude := some 0, longitude := some lon } rfl (by decide) rfl rfl rfl rfl).1
  cases here

theorem found_at {lat lon : Rat} (off : lat ≠ 0) (off' : lon ≠ 0) : FoundAt lat lon := by
  intro distance dto p itself within status active at_lat at_lon
  have reach : InReach distance dto (.finite lat) (.finite lon) p :=
    ⟨active.trans status.symm, lat, at_lat, lon, at_lon, by rw [itself]; exact within⟩
  have here : ((Number.finite lat).truthy && (Number.finite lon).truthy) = true := by
    simp [Number.truthy, off, off']
  refine ⟨by rw [atLocation_around, if_pos here], ?_, (nearBy_iff reach).mpr ?_⟩
  · simp [ProductWhere.located, SearchProductDto.statusWhere, ProductWhere.status, at_lat, at_lon,
      active, status]
  · simp [at_lat, at_lon, off, off']

/-- A new row has what the request gave. -/
theorem create_noHalves (off : latitude ≠ .value 0) (off' : longitude ≠ .value 0)
    (whole : db.NoHalves) (sellerId : Id) (dto : CreateProductDto) (now : Date) :
    ((ProductsService.create sellerId (dto.placed latitude longitude) id now).alone
      exec db).1.NoHalves := by
  rcases list_outcome db sellerId (dto.placed latitude longitude) id now with
    ⟨product, db', granted, done, after⟩ | ⟨⟨same, _⟩, _⟩
  · rw [done]
    intro k p there
    rw [show db'.products = db.products.insert id product from congrArg Tables.products after]
      at there
    rcases Table.find?_insert_cases there with old | ⟨_, rfl⟩
    · exact whole k p old
    · obtain ⟨t, made⟩ := granted.made
      obtain ⟨price, row, _⟩ := Prisma.productCreate_ok made
      have paired : BothOrNeither latitude longitude := by
        by_contra alone
        cases granted.place.symm.trans ((apart_iff off off').mpr alone)
      rw [row]
      change latitude.orNull.isSome = longitude.orNull.isSome
      cases latitude <;> cases longitude <;>
        simp_all [BothOrNeither, Given, Field.orNull, Field.nullable]
  · rw [same]
    exact whole

theorem update_noHalves (clear : Unambiguous latitude longitude) (whole : db.NoHalves)
    (dto : UpdateProductDto) :
    ((ProductsService.update id userId (dto.placed latitude longitude)).alone
      exec db).1.NoHalves := by
  rcases edit_outcome db id userId (dto.placed latitude longitude) with
    ⟨product, new, db', granted, done, after⟩ | ⟨⟨same, _⟩, _⟩
  · rw [done]
    intro k p there
    rw [show db'.products = db.products.set id new from congrArg Tables.products after] at there
    rcases Table.find?_set_cases there with old | ⟨_, rfl⟩
    · exact whole k p old
    · obtain ⟨off, off', left, right⟩ := clear
      have before := whole id product granted.found
      have paired : BothOrNeither latitude longitude := by
        by_contra alone
        cases granted.place.symm.trans ((apart_iff off off').mpr alone)
      have written := granted.made
      simp only [ProductUpdateInput.apply, Option.bind_eq_bind, Option.bind_eq_some_iff] at written
      obtain ⟨_, _, _, _, _, _, _, _, _, _, _, _, _, _, made⟩ := written
      cases made
      change (latitude.nullable product.latitude).isSome =
        (longitude.nullable product.longitude).isSome
      cases latitude <;> cases longitude <;>
        simp_all [BothOrNeither, Given, Field.nullable, Product.Whole]
  · rw [same]
    exact whole

end

def placedLamp : CreateProductDto :=
  { title := "lamp", description := "a lamp", price := 10, categoryId := "home", condition := .good
    latitude := .value 1, longitude := .value 1 }

/-- The market with a lamp at a place. -/
def placedMarket : Db := ((ProductsService.create "ann" placedLamp "placed" 0).alone exec market).1

theorem market_noHalves : market.NoHalves := by
  intro id p found
  have all : market.products.all (fun _ p => decide p.Whole) = true := by decide
  exact of_decide_eq_true (Table.all_iff.mp all id p found)

theorem placedMarket_noHalves : placedMarket.NoHalves := by
  have placed : placedLamp.placed (.value 1) (.value 1) = placedLamp := rfl
  have whole : ((ProductsService.create "ann" (placedLamp.placed (.value 1) (.value 1)) "placed"
      0).alone exec market).1.NoHalves :=
    create_noHalves (by decide) (by decide) market_noHalves "ann" placedLamp 0
  rwa [placed] at whole

/-- A null beside an absent property leaves half of a place. -/
theorem null_halves :
    ¬ ((ProductsService.update "placed" "ann" (({} : UpdateProductDto).placed .null
      .undefined)).alone exec placedMarket).1.NoHalves ∧
    ¬ ((ProductsService.update "placed" "ann" (({} : UpdateProductDto).placed .undefined
      .null)).alone exec placedMarket).1.NoHalves := by
  have half {t : Tables}
      (there : (t.products.find? "placed").all (fun p => decide p.Whole) = false) :
      ¬ t.NoHalves := by
    intro whole
    cases found : t.products.find? "placed" with
    | none =>
      rw [found] at there
      cases there
    | some p =>
      rw [found, Option.all_some, decide_eq_true (whole "placed" p found)] at there
      cases there
  exact ⟨half (by decide +kernel), half (by decide +kernel)⟩

/-- Requests with coordinates do right exactly when none is zero and no null stands beside an
absent property. -/
theorem coordinates_right_iff (latitude longitude : Field Rat) :
    CoordinatesRight latitude longitude ↔ Unambiguous latitude longitude := by
  constructor
  · intro right
    have agree : oneCoordinate latitude longitude = true ↔ ¬ BothOrNeither latitude longitude := by
      rw [← right.created market "ann" placedLamp "new" 0, not_not, create_apart_iff]
    have off : ¬ (latitude = .value 0 ∧ longitude = .value 0) := by
      rintro ⟨rfl, rfl⟩
      exact not_found_at_zero 0 (right.found 0 0 rfl rfl)
    have off_latitude : latitude ≠ .value 0 :=
      fun zero => off ⟨zero, (zero_alone agree).mp zero⟩
    have off_longitude : longitude ≠ .value 0 :=
      fun zero => off ⟨(zero_alone agree).mpr zero, zero⟩
    refine ⟨off_latitude, off_longitude, ?_, ?_⟩
    · rintro ⟨rfl, rfl⟩
      exact null_halves.1 (right.editedWhole placedMarket "placed" "ann" {} placedMarket_noHalves)
    · rintro ⟨rfl, rfl⟩
      exact null_halves.2 (right.editedWhole placedMarket "placed" "ann" {} placedMarket_noHalves)
  · intro clear
    have off := clear.1
    have off' := clear.2.1
    exact
      { created := fun db sellerId dto id now => by
          rw [ne_eq, create_apart_iff, apart_iff off off', not_not]
        edited := fun db id userId dto product found seller listed => by
          rw [ne_eq, update_apart_iff found seller listed, apart_iff off off', not_not]
        createdWhole := fun db sellerId dto id now whole =>
          create_noHalves off off' whole sellerId dto now
        editedWhole := fun db id userId dto whole => update_noHalves clear whole dto
        found := fun lat lon at_lat at_lon =>
          found_at (fun zero => off (zero ▸ at_lat)) (fun zero => off' (zero ▸ at_lon)) }

/-- A place on the equator is refused, although both of its coordinates are given. -/
theorem equator_refused : ¬ ∀ lat lon : Rat, -90 ≤ lat ∧ lat ≤ 90 → -180 ≤ lon ∧ lon ≤ 180 →
    CoordinatesRight (.value lat) (.value lon) := by
  intro always
  have right := always 0 127 (by norm_num) (by norm_num)
  have accepted := (right.created market "ann" placedLamp "new" 0).mpr
    (iff_of_true ⟨0, rfl⟩ ⟨127, rfl⟩)
  exact accepted ((create_apart_iff "ann" placedLamp 0).mpr (by decide))

end SecondhandApi
