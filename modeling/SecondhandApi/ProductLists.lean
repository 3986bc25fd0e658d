import SecondhandApi.Paging
import SecondhandApi.Pagination
import SecondhandApi.Operations

/-! Lists of products: the query of `src/modules/products/repositories/products.repository.ts`
and the list of all active products of the service, page by page. -/
namespace SecondhandApi
open Keyed

/-- A condition of a `where`: which rows meet it, and whether the client takes its values. -/
structure ProductWhere where
  admits : Product → Bool
  accepted : Bool := true

namespace ProductWhere

def status (s : ProductStatus) : ProductWhere := ⟨fun p => p.status = s, true⟩

end ProductWhere

/-- `orderBy: { createdAt: 'desc' }`; rows of one time stand in an order that each query draws
anew. -/
def newestFirst (ties : Id → Nat) (a b : Id × Product) : Prop :=
  b.2.createdAt < a.2.createdAt ∨ a.2.createdAt = b.2.createdAt ∧ ties a.1 ≤ ties b.1

instance (ties : Id → Nat) : DecidableRel (newestFirst ties) :=
  fun _ _ => inferInstanceAs (Decidable (_ ∨ _))

/-- The rows that meet every condition. -/
def Tables.productsWhere (db : Tables) (wheres : List ProductWhere) : List (Id × Product) :=
  db.products.rows.filter (fun row => wheres.all (·.admits row.2))

namespace Prisma

/-- A negative `take` counts from the end. -/
def productFindMany (db : Tables) (wheres : List ProductWhere) (skip take : Int)
    (ties : Id → Nat) : Except PrismaError (List (Id × Product)) :=
  let rows := (db.productsWhere wheres).insertionSort (newestFirst ties)
  if skip < 0 ∨ wheres.any (fun w => !w.accepted) then .error .invalidValue
  else if 0 ≤ take then .ok ((rows.drop skip.toNat).take take.toNat)
  else .ok ((rows.reverse.drop skip.toNat).take take.natAbs).reverse

def productCount (db : Tables) (wheres : List ProductWhere) : Except PrismaError Nat :=
  if wheres.any (fun w => !w.accepted) then .error .invalidValue
  else .ok (db.productsWhere wheres).length

end Prisma

structure ProductListResponse where
  items : List (Id × Product)
  total : Nat
  page : Nat
  limit : Nat
  totalPages : Nat

namespace ProductsService

def findAll (db : Tables) (page limit : Nat) (ties : Id → Nat) :
    Except PrismaError ProductListResponse := do
  let products ← Prisma.productFindMany db [.status .active] (PaginationUtil.getSkip page limit)
    limit ties
  let total ← Prisma.productCount db [.status .active]
  return {
    items := products
    total := total
    page := page
    limit := limit
    totalPages := PaginationUtil.getTotalPages total limit }

/-- The pages from the first to the last, each query with ties of its own. -/
def allPages (db : Tables) (limit : Nat) (ties : Nat → Id → Nat) :
    Except PrismaError (List (Id × Product)) := do
  let first ← findAll db 1 limit (ties 0)
  let pages ← (List.range first.totalPages).mapM (fun n => findAll db (n + 1) limit (ties n))
  return pages.flatMap (·.items)

end ProductsService

def Tables.activeProducts (db : Tables) : List (Id × Product) :=
  db.products.rows.filter (fun row => row.2.status = .active)

/-- Whatever the order of equal times, the pages have every active product once. -/
def PagesComplete (db : Tables) (limit : Nat) : Prop :=
  ∀ ties, ∃ products, ProductsService.allPages db limit ties = .ok products ∧
    products.Perm db.activeProducts

/-- No page ends between two active products of one time. -/
def PagesSplitTimes (db : Tables) (limit : Nat) : Prop :=
  ∀ n, Paging.Splits (fun row : Id × Product => row.2.createdAt) db.activeProducts (n * limit)

section
variable {db : Tables} {limit : Nat}

theorem productsWhere_active (db : Tables) :
    db.productsWhere [.status .active] = db.activeProducts := by
  simp [Tables.productsWhere, Tables.activeProducts, ProductWhere.status]

theorem productFindMany_page {wheres : List ProductWhere}
    (accepted : wheres.any (fun w => !w.accepted) = false) (n : Nat) (ties : Id → Nat) :
    Prisma.productFindMany db wheres ((n * limit : Nat) : Int) limit ties =
      .ok (Paging.page limit ((db.productsWhere wheres).insertionSort (newestFirst ties)) n) := by
  have valid : ¬ (((n * limit : Nat) : Int) < 0 ∨ wheres.any (fun w => !w.accepted) = true) := by
    rw [accepted]
    exact not_or.mpr ⟨Int.not_lt.mpr (Int.natCast_nonneg _), Bool.false_ne_true⟩
  rw [Prisma.productFindMany, if_neg valid, if_pos (Int.natCast_nonneg limit)]
  rfl

/-- Page `n + 1` of the active products. -/
def Tables.activePage (db : Tables) (limit : Nat) (ties : Id → Nat) (n : Nat) :
    ProductListResponse :=
  { items := Paging.page limit (db.activeProducts.insertionSort (newestFirst ties)) n
    total := db.activeProducts.length
    page := n + 1
    limit := limit
    totalPages := PaginationUtil.getTotalPages db.activeProducts.length limit }

theorem findAll_page (db : Tables) (limit : Nat) (ties : Id → Nat) (n : Nat) :
    ProductsService.findAll db (n + 1) limit ties = .ok (db.activePage limit ties n) := by
  have skip : PaginationUtil.getSkip (n + 1) limit = ((n * limit : Nat) : Int) := by
    rw [PaginationUtil.getSkip, Int.natCast_mul, Int.natCast_add, Int.natCast_one,
      Int.add_sub_cancel]
  rw [ProductsService.findAll, skip, productFindMany_page rfl, Prisma.productCount,
    productsWhere_active]
  rfl

theorem allPages_items (db : Tables) (limit : Nat) (ties : Nat → Id → Nat) :
    ProductsService.allPages db limit ties = .ok ((List.range
      (PaginationUtil.getTotalPages db.activeProducts.length limit)).flatMap (fun n =>
        Paging.page limit (db.activeProducts.insertionSort (newestFirst (ties n))) n)) := by
  have pages (k : Nat) : (List.range k).mapM
      (fun n => ProductsService.findAll db (n + 1) limit (ties n)) =
        .ok ((List.range k).map (fun n => db.activePage limit (ties n) n)) := by
    simp only [findAll_page]
    exact List.mapM_pure
  rw [ProductsService.allPages, findAll_page db limit (ties 0) 0]
  refine (congrArg (· >>= fun pages => Except.ok (pages.flatMap (·.items))) (pages _)).trans ?_
  exact congrArg Except.ok (List.flatMap_map ..)

theorem activeProducts_distinct (db : Tables) : (db.activeProducts.map Prod.fst).Nodup :=
  db.products.unique.sublist (List.filter_sublist.map Prod.fst)

end

/-- The pages are complete exactly when none of them ends between two products of one time. -/
theorem pages_complete_iff (db : Tables) (limit : Nat) (positive : 1 ≤ limit) :
    PagesComplete db limit ↔ PagesSplitTimes db limit := by
  have fits := totalPages_fits db.activeProducts.length (Nat.ne_of_gt positive)
  refine Iff.trans ?_ (Paging.pages_perm (fun _ _ _ => Iff.rfl) (activeProducts_distinct db)
    positive fits)
  refine forall_congr' (fun ties => ?_)
  rw [allPages_items]
  constructor
  · rintro ⟨products, same, perm⟩
    rwa [← Except.ok.inj same] at perm
  · intro perm
    exact ⟨_, rfl, perm⟩

/-- Two lamps that were listed at one time. -/
def twoLamps : Tables :=
  market.toTables.withProducts ⟨[("lamp", lamp), ("lamp-2", lamp)], by decide⟩

theorem pages_complete_two : PagesComplete twoLamps 2 := by
  refine (pages_complete_iff twoLamps 2 (by decide)).mpr (fun n t => ?_)
  have all : Paging.notEarlier (fun row : Id × Product => row.2.createdAt)
      twoLamps.activeProducts t ≤ 2 := List.countP_le_length
  omega

/-- Each page puts the first lamp where it is shown. -/
theorem lamp_twice : ¬ ∀ (db : Tables) (limit : Nat), 1 ≤ limit → PagesComplete db limit := by
  intro always
  obtain ⟨products, listed, perm⟩ := always twoLamps 1 (Nat.le_refl 1)
    (fun n id => if id = "lamp" then n else 1 - n)
  have twice : ProductsService.allPages twoLamps 1
      (fun n id => if id = "lamp" then n else 1 - n) = .ok [("lamp", lamp), ("lamp", lamp)] := by
    decide
  rw [twice] at listed
  cases listed
  exact absurd perm (by decide)

end SecondhandApi
