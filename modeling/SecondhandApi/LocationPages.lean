import SecondhandApi.ProductSearch

/-! The pages of a search at a location. The database takes the page and the distance is looked
at afterwards, so the total is that of what is left of one page. Pages and totals are integers
here, and the distance is any function. -/
namespace SecondhandApi
open Keyed JavaScript ProductsRepository

section
variable (ctx : SearchContext) (distance : Number → Number → Number → Number → Number)

/-- The filter of `findByLocation`. -/
def nearBy (latitude longitude radiusKm : Number) (p : Product) : Bool :=
  p.latitude.any fun lat => p.longitude.any fun lon =>
    lat ≠ 0 && lon ≠ 0 && (distance latitude longitude (.finite lat) (.finite lon)).le radiusKm

def SearchProductDto.statusWhere (dto : SearchProductDto) : ProductWhere :=
  .status (dto.status.getD .active)

/-- `ProductsService.search` for page `page`. -/
def searchPage (db : Tables) (dto : SearchProductDto) (limit : Nat) (ties : Id → Nat)
    (page : Nat) : Except PrismaError ProductListResponse := do
  let skip := PaginationUtil.getSkip page limit
  let respond (items : List (Id × Product)) (total : Nat) : ProductListResponse :=
    { items := items
      total := total
      page := page
      limit := limit
      totalPages := PaginationUtil.getTotalPages total limit }
  match dto.atLocation with
  | some (latitude, longitude) =>
    let products ← Prisma.productFindMany db [.located, dto.statusWhere] skip limit ties
    let near := products.filter (fun row => nearBy distance latitude longitude dto.radius row.2)
    return respond near near.length
  | none =>
    let products ← Prisma.productFindMany db (dto.branchWhere ctx) skip limit ties
    let total ← Prisma.productCount db (dto.branchWhere ctx)
    return respond products total

/-- The pages from the first to the last, in one order of the database. -/
def searchPages (db : Tables) (dto : SearchProductDto) (limit : Nat) (ties : Id → Nat) :
    Except PrismaError (List ProductListResponse) := do
  let first ← searchPage ctx distance db dto limit ties 1
  (List.range first.totalPages).mapM (fun n => searchPage ctx distance db dto limit ties (n + 1))

/-- A search around a centre. -/
def SearchProductDto.around (dto : SearchProductDto) (latitude longitude : Number) :
    SearchProductDto :=
  { dto with latitude := some latitude, longitude := some longitude }

/-- A product of the requested status with coordinates within the radius. -/
def InReach (dto : SearchProductDto) (latitude longitude : Number) (p : Product) : Prop :=
  p.status = dto.status.getD .active ∧ ∃ lat ∈ p.latitude, ∃ lon ∈ p.longitude,
    (distance latitude longitude (.finite lat) (.finite lon)).le (dto.radiusKm.getD (.finite 5)) =
      true

/-- The pages have every product in reach once, and are full but for the last. -/
structure ReachListed (db : Tables) (dto : SearchProductDto) (latitude longitude : Number)
    (limit : Nat) (pages : List ProductListResponse) : Prop where
  once : ∀ row ∈ db.products.rows, InReach distance dto latitude longitude row.2 →
    ((pages.flatMap (·.items)).map Prod.fst).count row.1 = 1
  full : ∀ page ∈ pages.dropLast, page.items.length = limit

/-- The price bounds of a search by keyword, cut to integers, fit the column. -/
def SearchProductDto.BoundsFit (dto : SearchProductDto) : Prop :=
  dto.branch = .keyword → ∀ bound, bound ∈ dto.minPrice ∨ bound ∈ dto.maxPrice →
    bound.truthy = true → ∃ q, bound = .finite q ∧ fitsInt (truncated q) = true

/-- Around a centre off the equator and the prime meridian, every product in reach is among the
first located products, and at no coordinate of zero; around another centre, it meets the filters
of the branch that is taken instead, whose bounds fit. -/
def ReachInFront (db : Tables) (dto : SearchProductDto) (latitude longitude : Number) (limit : Nat)
    (ties : Id → Nat) : Prop :=
  if latitude.truthy && longitude.truthy then
    ∀ row ∈ db.products.rows, InReach distance dto latitude longitude row.2 →
      row ∈ (dto.located db ties).take limit ∧
      row.2.latitude ≠ some 0 ∧ row.2.longitude ≠ some 0
  else (dto.around latitude longitude).BoundsFit ∧
    ∀ row ∈ db.products.rows, InReach distance dto latitude longitude row.2 →
      (dto.around latitude longitude).Met ctx row.2

end

section
variable {ctx : SearchContext} {distance : Number → Number → Number → Number → Number}
  {db : Tables} {dto : SearchProductDto} {latitude longitude : Number} {limit : Nat}
  {ties : Id → Nat}

theorem atLocation_around : (dto.around latitude longitude).atLocation =
    if latitude.truthy && longitude.truthy then some (latitude, longitude) else none := rfl

theorem intBound_isSome {bound : Number} : (ProductWhere.intBound bound).isSome = true ↔
    ∃ q, bound = .finite q ∧ fitsInt (truncated q) = true := by
  cases bound with
  | finite q => simp [ProductWhere.intBound, toInt]
  | nan => simp [ProductWhere.intBound]
  | infinity negative => simp [ProductWhere.intBound]

theorem boundsFit_iff (nowhere : dto.atLocation = none) :
    (dto.branchWhere ctx).all (·.accepted) = true ↔ dto.BoundsFit := by
  have away := atLocation_none nowhere
  have given (n : Option Number) : (∀ bound ∈ givenNumber n,
      (ProductWhere.intBound bound).isSome = true) ↔ ∀ bound ∈ n, bound.truthy = true →
        ∃ q, bound = .finite q ∧ fitsInt (truncated q) = true := by
    simp only [givenNumber, Option.mem_def, Option.filter_eq_some_iff, intBound_isSome, and_imp]
  unfold SearchProductDto.branchWhere SearchProductDto.BoundsFit
  cases word : givenText dto.keyword with
  | some keyword =>
    have worded := branch_keyword nowhere word
    simp only [searchWhere, List.all_append, List.all_map, Bool.and_eq_true, List.all_eq_true,
      Option.mem_toList, Function.comp_apply, worded, true_implies, or_imp, forall_and]
    rw [← given, ← given]
    simp [ProductWhere.keyword, ProductWhere.categoryId, ProductWhere.priceGte,
      ProductWhere.priceLte, ProductWhere.status]
  | none =>
    have wordless : dto.branch ≠ .keyword := by
      rw [SearchProductDto.branch, if_neg away, if_neg (givenText_none word)]
      split_ifs <;> decide
    refine iff_of_true ?_ (fun worded => absurd worded wordless)
    cases givenText dto.sellerId with
    | some id => cases dto.status <;> rfl
    | none =>
      cases givenText dto.categoryId with
      | some id => rfl
      | none => rfl

theorem isNear_eq (latitude longitude radiusKm : Number) (p : Product) :
    ProductsRepository.isNear ctx latitude longitude radiusKm p =
      nearBy (calculateDistance ctx) latitude longitude radiusKm p := by
  unfold ProductsRepository.isNear nearBy
  cases p.latitude with
  | none => rfl
  | some lat =>
    cases p.longitude with
    | none => rfl
    | some lon => rfl

theorem le_five {d : Number} (h : d.le (.finite 0) = true) : d.le (.finite 5) = true := by
  cases d with
  | nan => cases h
  | infinity negative =>
    cases negative with
    | true => rfl
    | false => exact absurd h (by decide)
  | finite a =>
    simp only [Number.le, Number.lt, Bool.or_eq_true, decide_eq_true_eq, Number.finite.injEq] at h ⊢
    left
    rcases h with less | same
    · linarith
    · linarith

/-- A radius that does not count as one is read as 5, which leaves out nothing in reach. -/
theorem le_radius {d : Number} (h : d.le (dto.radiusKm.getD (.finite 5)) = true) :
    d.le dto.radius = true := by
  unfold SearchProductDto.radius
  cases asked : dto.radiusKm with
  | none => rwa [asked] at h
  | some radius =>
    rw [asked] at h
    change d.le (if radius.truthy then radius else .finite 5) = true
    split_ifs with given
    · exact h
    · cases radius with
      | finite q =>
        have zero : q = 0 := by simpa [Number.truthy] using given
        exact le_five (zero ▸ h)
      | infinity negative => exact absurd rfl given
      | nan => cases d <;> cases h

/-- What is in reach passes the filter unless one of its coordinates is zero. -/
theorem nearBy_iff {p : Product} (reach : InReach distance dto latitude longitude p) :
    nearBy distance latitude longitude dto.radius p = true ↔
      p.latitude ≠ some 0 ∧ p.longitude ≠ some 0 := by
  obtain ⟨_, lat, stored, lon, stored', within⟩ := reach
  rw [Option.mem_def] at stored stored'
  simp [nearBy, stored, stored', le_radius within]

/-- Among rows of the table, each under its own id, a row stands once if it does at all. -/
theorem count_once {rows : List (Id × Product)} (distinct : (rows.map Prod.fst).Nodup)
    (inside : rows ⊆ db.products.rows) {row : Id × Product} (stored : row ∈ db.products.rows) :
    (rows.map Prod.fst).count row.1 = 1 ↔ row ∈ rows := by
  rw [distinct.count]
  constructor
  · intro once
    have member : row.1 ∈ rows.map Prod.fst := by
      by_contra absent
      rw [if_neg absent] at once
      cases once
    obtain ⟨r, there, same⟩ := List.mem_map.mp member
    rwa [← List.inj_on_of_nodup_map db.products.unique (inside there) stored same]
  · intro there
    rw [if_pos (List.mem_map_of_mem there)]

/-- The rows of a query, in the order of the database. -/
def Tables.productsSorted (db : Tables) (wheres : List ProductWhere) (ties : Id → Nat) :
    List (Id × Product) :=
  (db.productsWhere wheres).insertionSort (newestFirst ties)

theorem productsSorted_distinct (wheres : List ProductWhere) :
    ((db.productsSorted wheres ties).map Prod.fst).Nodup :=
  ((List.perm_insertionSort _ _).map Prod.fst).nodup_iff.mpr
    (db.products.unique.sublist (List.filter_sublist.map Prod.fst))

theorem mem_productsSorted {wheres : List ProductWhere} {row : Id × Product} :
    row ∈ db.productsSorted wheres ties ↔
      row ∈ db.products.rows ∧ wheres.all (·.admits row.2) = true := by
  rw [Tables.productsSorted, List.mem_insertionSort, Tables.productsWhere, List.mem_filter]

/-- What is near of page `n + 1` of the located products. -/
def nearPage (distance : Number → Number → Number → Number → Number) (db : Tables)
    (dto : SearchProductDto) (latitude longitude : Number) (limit : Nat) (ties : Id → Nat)
    (n : Nat) : List (Id × Product) :=
  (Paging.page limit (db.productsSorted [.located, dto.statusWhere] ties) n).filter
    (fun row => nearBy distance latitude longitude dto.radius row.2)

theorem searchPage_located (here : (latitude.truthy && longitude.truthy) = true) (n : Nat) :
    searchPage ctx distance db (dto.around latitude longitude) limit ties (n + 1) =
      let near := nearPage distance db dto latitude longitude limit ties n
      .ok { items := near
            total := near.length
            page := n + 1
            limit := limit
            totalPages := PaginationUtil.getTotalPages near.length limit } := by
  rw [searchPage, atLocation_around, if_pos here, getSkip_succ]
  change (Prisma.productFindMany db [.located, dto.statusWhere] ((n * limit : Nat) : Int) limit
    ties >>= _) = _
  rw [productFindMany_page rfl]
  rfl

/-- At a location there is one page at most, and it is cut from the first located products. -/
theorem searchPages_located (positive : 1 ≤ limit)
    (here : (latitude.truthy && longitude.truthy) = true) :
    ∃ pages, searchPages ctx distance db (dto.around latitude longitude) limit ties = .ok pages ∧
      pages.flatMap (·.items) = nearPage distance db dto latitude longitude limit ties 0 ∧
      pages.length ≤ 1 := by
  rw [searchPages, searchPage_located here 0]
  have few : (nearPage distance db dto latitude longitude limit ties 0).length ≤ limit :=
    (List.length_filter_le _ _).trans (List.length_take_le _ _)
  change ∃ pages, (List.range (PaginationUtil.getTotalPages (nearPage distance db dto latitude
    longitude limit ties 0).length limit)).mapM _ = _ ∧ _
  cases empty : nearPage distance db dto latitude longitude limit ties 0 with
  | nil =>
    have none : PaginationUtil.getTotalPages ([] : List (Id × Product)).length limit = 0 :=
      Nat.div_eq_of_lt (by simp; omega)
    rw [none]
    exact ⟨[], rfl, rfl, Nat.zero_le 1⟩
  | cons row rows =>
    rw [empty] at few
    have one : PaginationUtil.getTotalPages (row :: rows).length limit = 1 := by
      rw [PaginationUtil.getTotalPages, Nat.div_eq_iff (by omega)]
      simp at few ⊢
      omega
    rw [one]
    simp only [List.range_one, List.mapM_cons, List.mapM_nil, searchPage_located here, empty]
    exact ⟨_, rfl, List.append_nil _, Nat.le_refl 1⟩

theorem accepted_iff {wheres : List ProductWhere} :
    wheres.any (fun w => !w.accepted) = false ↔ wheres.all (·.accepted) = true := by
  rw [List.any_eq_false, List.all_eq_true]
  simp

/-- Page `n + 1` of the branch that is taken without a location. -/
def branchPage (ctx : SearchContext) (db : Tables) (dto : SearchProductDto) (limit : Nat)
    (ties : Id → Nat) (n : Nat) : ProductListResponse :=
  { items := Paging.page limit (db.productsSorted (dto.branchWhere ctx) ties) n
    total := (db.productsSorted (dto.branchWhere ctx) ties).length
    page := n + 1
    limit := limit
    totalPages := PaginationUtil.getTotalPages
      (db.productsSorted (dto.branchWhere ctx) ties).length limit }

theorem searchPage_elsewhere (away : ¬ (latitude.truthy && longitude.truthy) = true) (n : Nat) :
    searchPage ctx distance db (dto.around latitude longitude) limit ties (n + 1) =
      if (dto.branchWhere ctx).all (·.accepted) then .ok (branchPage ctx db dto limit ties n)
      else .error .invalidValue := by
  rw [searchPage, atLocation_around, if_neg away, getSkip_succ]
  change (Prisma.productFindMany db (dto.branchWhere ctx) ((n * limit : Nat) : Int) limit ties >>=
    fun products => Prisma.productCount db (dto.branchWhere ctx) >>= fun total => _) = _
  split_ifs with all
  · have accepted := accepted_iff.mpr all
    have counted : Prisma.productCount db (dto.branchWhere ctx) =
        .ok (db.productsSorted (dto.branchWhere ctx) ties).length := by
      rw [Prisma.productCount, accepted, Tables.productsSorted, List.length_insertionSort]
      rfl
    rw [productFindMany_page accepted, counted]
    rfl
  · have refused : (dto.branchWhere ctx).any (fun w => !w.accepted) = true := by
      rw [← Bool.not_eq_false, accepted_iff]
      exact all
    rw [Prisma.productFindMany, if_pos (.inr refused)]
    rfl

theorem searchPages_elsewhere (away : ¬ (latitude.truthy && longitude.truthy) = true) :
    searchPages ctx distance db (dto.around latitude longitude) limit ties =
      if (dto.branchWhere ctx).all (·.accepted) then
        .ok ((List.range (PaginationUtil.getTotalPages
          (db.productsSorted (dto.branchWhere ctx) ties).length limit)).map
            (branchPage ctx db dto limit ties))
      else .error .invalidValue := by
  rw [searchPages]
  simp only [searchPage_elsewhere away]
  split_ifs with all
  · exact List.mapM_pure
  · rfl

/-- A page before the last is full. -/
theorem page_full {A : Type} {l : List A} {limit n : Nat} (positive : 1 ≤ limit)
    (before : n + 1 < PaginationUtil.getTotalPages l.length limit) :
    (Paging.page limit l n).length = limit := by
  have covered : (n + 2) * limit ≤ l.length + (limit - 1) :=
    (Nat.le_div_iff_mul_le positive).mp before
  have split : (n + 2) * limit = n * limit + limit + limit := by ring
  rw [Paging.page, List.length_take, List.length_drop]
  omega

theorem located_listed_iff (positive : 1 ≤ limit)
    (here : (latitude.truthy && longitude.truthy) = true) :
    (∃ pages, searchPages ctx distance db (dto.around latitude longitude) limit ties = .ok pages ∧
      ReachListed distance db dto latitude longitude limit pages) ↔
    ∀ row ∈ db.products.rows, InReach distance dto latitude longitude row.2 →
      row ∈ (dto.located db ties).take limit ∧
        row.2.latitude ≠ some 0 ∧ row.2.longitude ≠ some 0 := by
  obtain ⟨pages, listed, items, few⟩ :=
    @searchPages_located ctx distance db dto latitude longitude limit ties positive here
  have first : Paging.page limit (db.productsSorted [.located, dto.statusWhere] ties) 0 =
      (db.productsSorted [.located, dto.statusWhere] ties).take limit := by
    rw [Paging.page, Nat.zero_mul, List.drop_zero]
  have sub : (nearPage distance db dto latitude longitude limit ties 0).Sublist
      (db.productsSorted [.located, dto.statusWhere] ties) := by
    rw [nearPage, first]
    exact List.filter_sublist.trans (List.take_sublist _ _)
  have once {row : Id × Product} (stored : row ∈ db.products.rows)
      (reach : InReach distance dto latitude longitude row.2) :
      ((pages.flatMap (·.items)).map Prod.fst).count row.1 = 1 ↔
        row ∈ (dto.located db ties).take limit ∧
          row.2.latitude ≠ some 0 ∧ row.2.longitude ≠ some 0 := by
    rw [← located_eq]
    change _ ↔ row ∈ (db.productsSorted [.located, dto.statusWhere] ties).take limit ∧ _
    rw [items, count_once ((productsSorted_distinct _).sublist (sub.map Prod.fst))
      (fun r member => (mem_productsSorted.mp (sub.subset member)).1) stored, nearPage, first,
      List.mem_filter, nearBy_iff reach]
  constructor
  · rintro ⟨pages', same, right⟩ row stored reach
    cases listed.symm.trans same
    exact (once stored reach).mp (right.once row stored reach)
  · intro front
    refine ⟨pages, listed, fun row stored reach => (once stored reach).mpr (front row stored reach),
      fun page member => ?_⟩
    have none : pages.dropLast = [] := List.length_eq_zero_iff.mp (by rw [List.length_dropLast]; omega)
    rw [none] at member
    cases member

theorem elsewhere_listed_iff (positive : 1 ≤ limit)
    (away : ¬ (latitude.truthy && longitude.truthy) = true) :
    (∃ pages, searchPages ctx distance db (dto.around latitude longitude) limit ties = .ok pages ∧
      ReachListed distance db dto latitude longitude limit pages) ↔
    (dto.around latitude longitude).BoundsFit ∧
      ∀ row ∈ db.products.rows, InReach distance dto latitude longitude row.2 →
        (dto.around latitude longitude).Met ctx row.2 := by
  have nowhere : (dto.around latitude longitude).atLocation = none := if_neg away
  have fit : (dto.branchWhere ctx).all (·.accepted) = true ↔
      (dto.around latitude longitude).BoundsFit := boundsFit_iff nowhere
  rw [← fit, searchPages_elsewhere away]
  by_cases all : (dto.branchWhere ctx).all (·.accepted) = true
  swap
  · rw [if_neg all]
    exact iff_of_false (fun ⟨_, refused, _⟩ => nomatch refused) (fun ⟨accepted, _⟩ => all accepted)
  rw [if_pos all]
  have fits := totalPages_fits (db.productsSorted (dto.branchWhere ctx) ties).length
    (Nat.ne_of_gt positive)
  have once {row : Id × Product} (stored : row ∈ db.products.rows) :
      ((((List.range (PaginationUtil.getTotalPages
        (db.productsSorted (dto.branchWhere ctx) ties).length limit)).map
          (branchPage ctx db dto limit ties)).flatMap (·.items)).map Prod.fst).count row.1 = 1 ↔
        (dto.around latitude longitude).Met ctx row.2 := by
    rw [List.flatMap_map]
    change ((((List.range _).flatMap (Paging.page limit _)).map Prod.fst).count row.1 = 1) ↔ _
    rw [Paging.pages_all fits, count_once (productsSorted_distinct _)
      (fun r member => (mem_productsSorted.mp member).1) stored, mem_productsSorted]
    exact (and_iff_right stored).trans (admits_iff nowhere all row.2)
  constructor
  · rintro ⟨pages, same, right⟩
    cases same
    exact ⟨all, fun row stored reach => (once stored).mp (right.once row stored reach)⟩
  · rintro ⟨_, met⟩
    refine ⟨_, rfl, fun row stored reach => (once stored).mpr (met row stored reach), ?_⟩
    intro page member
    cases pages : PaginationUtil.getTotalPages
        (db.productsSorted (dto.branchWhere ctx) ties).length limit with
    | zero =>
      rw [pages] at member
      cases member
    | succ k =>
      rw [pages, List.range_succ, List.map_append, List.map_singleton, List.dropLast_concat] at member
      obtain ⟨n, before, rfl⟩ := List.mem_map.mp member
      exact page_full positive (by rw [pages]; have := List.mem_range.mp before; omega)

end

/-- The pages of a search around a centre have everything in reach, once, exactly when it stands
in front. -/
theorem reach_listed_iff (ctx : SearchContext)
    (distance : Number → Number → Number → Number → Number) (db : Tables)
    (dto : SearchProductDto) (latitude longitude : Number) (limit : Nat) (ties : Id → Nat)
    (positive : 1 ≤ limit) :
    (∃ pages, searchPages ctx distance db (dto.around latitude longitude) limit ties = .ok pages ∧
      ReachListed distance db dto latitude longitude limit pages) ↔
    ReachInFront ctx distance db dto latitude longitude limit ties := by
  unfold ReachInFront
  split_ifs with here
  · exact located_listed_iff positive here
  · exact elsewhere_listed_iff positive here

/-- A lamp nearby, and one further north that was listed later. -/
def lampsApart : Tables :=
  market.toTables.withProducts
    ⟨[("lamp", { lamp with latitude := some 1, longitude := some 1 }),
      ("far", { lamp with latitude := some 50, longitude := some 1, createdAt := 1 })], by decide⟩

def northward (lat1 _lon1 lat2 _lon2 : Number) : Number := (lat2.sub lat1).mul (.finite 111)

/-- On one page the nearby lamp is found. -/
theorem reach_listed_lamp : ∃ pages,
    searchPages plainContext northward lampsApart
      (({} : SearchProductDto).around (.finite 1) (.finite 1)) 2 (fun _ => 0) = .ok pages ∧
    ReachListed northward lampsApart {} (.finite 1) (.finite 1) 2 pages := by
  refine (reach_listed_iff plainContext northward lampsApart {} (.finite 1) (.finite 1) 2
    (fun _ => 0) (by decide)).mpr ?_
  have front : lampsApart.products.rows.all (fun row =>
      decide (row ∈ (lampsApart.productsSorted [.located, .status .active] (fun _ => 0)).take 2) &&
        decide (row.2.latitude ≠ some 0) && decide (row.2.longitude ≠ some 0)) = true := by
    decide +kernel
  rw [ReachInFront, if_pos (by decide)]
  intro row stored _
  have row_front := List.all_eq_true.mp front row stored
  simp only [Bool.and_eq_true, decide_eq_true_eq] at row_front
  exact ⟨row_front.1.1, row_front.1.2, row_front.2⟩

/-- With one product a page it is on none: the first page has the other lamp, which is too far. -/
theorem lamp_in_reach_lost : ¬ ∀ (ctx : SearchContext)
    (distance : Number → Number → Number → Number → Number) (db : Tables) (dto : SearchProductDto)
    (latitude longitude : Number) (limit : Nat) (ties : Id → Nat), 1 ≤ limit →
      ∃ pages, searchPages ctx distance db (dto.around latitude longitude) limit ties = .ok pages ∧
        ReachListed distance db dto latitude longitude limit pages := by
  intro always
  obtain ⟨pages, listed, right⟩ := always plainContext northward lampsApart {} (.finite 1)
    (.finite 1) 1 (fun _ => 0) (Nat.le_refl 1)
  have none : (searchPages plainContext northward lampsApart
      (({} : SearchProductDto).around (.finite 1) (.finite 1)) 1 (fun _ => 0)).toOption.map
        List.length = some 0 := by decide +kernel
  rw [listed] at none
  cases List.length_eq_zero_iff.mp (Option.some.inj none)
  have once := right.once ("lamp", { lamp with latitude := some 1, longitude := some 1 })
    List.mem_cons_self ⟨rfl, 1, rfl, 1, rfl, by decide +kernel⟩
  cases once

/-! The numbers of the code count these pages exactly while they are below 2^53. -/

namespace SearchProductDto

/-- The request for one page. -/
def paged (dto : SearchProductDto) (page limit : Nat) : SearchProductDto :=
  { dto with page := some (.finite page), limit := some (.finite limit) }

end SearchProductDto

def ProductListResponse.inNumbers (r : ProductListResponse) : ProductSearchResponse :=
  { items := r.items
    total := r.total
    page := .finite r.page
    limit := .finite r.limit
    totalPages := .finite r.totalPages }

section
variable {ctx : SearchContext} {db : Tables} {dto : SearchProductDto} {limit n : Nat}
  {ties : Id → Nat}

theorem intArgument_natCast {n : Nat} (small : n < 2 ^ 53) :
    Prisma.intArgument (.finite n) = .ok (n : Int) := by
  have cut : truncated (n : Rat) = n := truncated_int n
  rw [Prisma.intArgument, cut, if_pos (by omega)]

theorem paged_skip (few : n * limit < 2 ^ 53) (small : n < 2 ^ 53) :
    (dto.paged (n + 1) limit).skip = .finite (n * limit : Nat) := by
  change (((Number.finite ((n + 1 : Nat) : Rat)).sub (.finite 1)).mul (.finite limit)) = _
  have before : (Number.finite ((n + 1 : Nat) : Rat)).sub (.finite 1) = .finite n := by
    have exact : ((n + 1 : Nat) : Rat) + -1 = ((n : Int) : Rat) := by push_cast; ring
    change Number.ofRat (((n + 1 : Nat) : Rat) + -1) = _
    rw [exact, Number.ofRat_int (by rw [Nat.abs_cast]; exact_mod_cast small)]
    norm_cast
  rw [before]
  have exact : (n : Rat) * limit = ((n * limit : Nat) : Int) := by push_cast; rfl
  change Number.ofRat (n * limit) = _
  rw [exact, Number.ofRat_int (by rw [Nat.abs_cast]; exact_mod_cast few)]
  norm_cast

theorem findMany_paged (few : n * limit < 2 ^ 53) (page : n < 2 ^ 53) (small : limit < 2 ^ 53)
    (wheres : List ProductWhere) :
    ProductsRepository.findMany db wheres (dto.paged (n + 1) limit).skip
        (dto.paged (n + 1) limit).take ties =
      Prisma.productFindMany db wheres (PaginationUtil.getSkip (n + 1) limit) limit ties := by
  rw [paged_skip few page, getSkip_succ]
  change (Prisma.intArgument (.finite (n * limit : Nat)) >>= fun s =>
    Prisma.intArgument (.finite limit) >>= fun t => Prisma.productFindMany db wheres s t ties) = _
  rw [intArgument_natCast few, intArgument_natCast small]
  rfl

theorem productFindMany_length {wheres : List ProductWhere} {skip take : Int}
    {products : List (Id × Product)}
    (ok : Prisma.productFindMany db wheres skip take ties = .ok products) :
    products.length ≤ db.products.rows.length := by
  have all : ((db.productsWhere wheres).insertionSort (newestFirst ties)).length ≤
      db.products.rows.length := by
    rw [List.length_insertionSort]
    exact List.length_filter_le _ _
  unfold Prisma.productFindMany at ok
  dsimp only at ok
  split_ifs at ok
  · cases ok
    simp only [List.length_take, List.length_drop]
    omega
  · cases ok
    simp only [List.length_reverse, List.length_take, List.length_drop]
    omega

/-- A page of the search, in the numbers of the code. -/
theorem search_paged (positive : 1 ≤ limit) (small : limit < 2 ^ 53) (page : n < 2 ^ 53)
    (few : n * limit < 2 ^ 53) (rows : db.products.rows.length < 2 ^ 53) :
    ProductsService.search ctx db (dto.paged (n + 1) limit) ties =
      (searchPage ctx (calculateDistance ctx) db dto limit ties (n + 1)).map
        ProductListResponse.inNumbers := by
  have pages {total : Nat} (bound : total < 2 ^ 53) :
      ((Number.finite total).div (.finite limit)).ceil =
        .finite (PaginationUtil.getTotalPages total limit) := Number.ceil_div positive bound small
  have listed (wheres : List ProductWhere) : ProductsRepository.findMany db wheres
      (dto.paged (n + 1) limit).skip (dto.paged (n + 1) limit).take ties =
        Prisma.productFindMany db wheres (PaginationUtil.getSkip (n + 1) limit) limit ties :=
    findMany_paged few page small wheres
  cases here : dto.atLocation with
  | some place =>
    have at_place : (dto.paged (n + 1) limit).atLocation = some place := here
    rw [ProductsService.search, at_place, searchPage, here]
    dsimp only
    rw [ProductsRepository.findByLocation, listed]
    change (Prisma.productFindMany db [.located, dto.statusWhere] _ limit ties >>= _) >>= _ =
      Except.map _ (Prisma.productFindMany db [.located, dto.statusWhere] _ limit ties >>= _)
    cases found : Prisma.productFindMany db [.located, dto.statusWhere]
        (PaginationUtil.getSkip (n + 1) limit) limit ties with
    | error e => rfl
    | ok products =>
      have bound : (products.filter (fun row =>
          nearBy (calculateDistance ctx) place.1 place.2 dto.radius row.2)).length < 2 ^ 53 :=
        ((List.length_filter_le _ _).trans (productFindMany_length found)).trans_lt rows
      have counted := pages bound
      simp only [← isNear_eq] at counted ⊢
      exact congrArg (fun k => Except.ok (⟨_, _, _, _, k⟩ : ProductSearchResponse)) counted
  | none =>
    have nowhere : (dto.paged (n + 1) limit).atLocation = none := here
    have branch : (dto.paged (n + 1) limit).branchWhere ctx = dto.branchWhere ctx := rfl
    rw [search_branch nowhere, branch, listed, searchPage, here]
    cases found : Prisma.productFindMany db (dto.branchWhere ctx)
        (PaginationUtil.getSkip (n + 1) limit) limit ties with
    | error e => rfl
    | ok products =>
      cases counted : Prisma.productCount db (dto.branchWhere ctx) with
      | error e => rfl
      | ok total =>
        have bound : total < 2 ^ 53 := by
          rw [productCount_ok counted]
          exact List.countP_le_length.trans_lt rows
        exact congrArg (fun k => Except.ok (⟨_, _, _, _, k⟩ : ProductSearchResponse)) (pages bound)

end

end SecondhandApi
