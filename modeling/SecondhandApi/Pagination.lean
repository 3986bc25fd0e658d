/-! `src/common`: the pagination pipe and the arithmetic of pages, for numbers from 1 on. -/
namespace SecondhandApi

inductive SortOrder where
  | asc | desc
  deriving DecidableEq, Repr

/- The query of a list, as it reaches the pipe. -/
structure PaginationQuery where
  page : Option Nat := none
  limit : Option Nat := none
  sortBy : Option String := none
  sortOrder : Option SortOrder := none

structure PaginationOptions where
  page : Nat
  limit : Nat
  sortBy : String
  sortOrder : SortOrder

structure PaginationMeta where
  total : Nat
  page : Nat
  limit : Nat
  totalPages : Nat
  hasNextPage : Bool
  hasPreviousPage : Bool
  nextPage : Option Nat
  previousPage : Option Nat
  deriving DecidableEq

structure PaginatedResult (A : Type) where
  items : List A
  pages : PaginationMeta

structure CursorPaginationOptions (K : Type) where
  cursor : Option K := none
  limit : Nat

structure CursorPaginatedResult (A K : Type) where
  items : List A
  nextCursor : Option K
  hasNextPage : Bool

/-- An entry of a `(number | string)[]`. -/
inductive PageLabel where
  | number (n : Int)
  | string (s : String)
  deriving DecidableEq

def PaginationPipe.transform (value : PaginationQuery) : PaginationOptions :=
  { page := value.page.getD 1
    limit := value.limit.getD 10
    sortBy := value.sortBy.getD "updatedAt"
    sortOrder := value.sortOrder.getD .desc }

namespace PaginationUtil

def getSkip (page limit : Nat) : Int := ((page : Int) - 1) * limit

/- `Math.ceil(total / limit)`. -/
def getTotalPages (total limit : Nat) : Nat := (total + (limit - 1)) / limit

def createMeta (total page limit : Nat) : PaginationMeta :=
  let totalPages := getTotalPages total limit
  { total := total
    page := page
    limit := limit
    totalPages := totalPages
    hasNextPage := page < totalPages
    hasPreviousPage := page > 1
    nextPage := if page < totalPages then some (page + 1) else none
    previousPage := if page > 1 then some (page - 1) else none }

def paginate {A : Type} (items : List A) (total page limit : Nat) : PaginatedResult A :=
  { items := items, pages := createMeta total page limit }

def isValidPage (page total limit : Nat) : Bool :=
  page ≥ 1 && page ≤ getTotalPages total limit

def cursorPaginate {A K : Type} (data : List A) (options : CursorPaginationOptions K)
    (getCursor : A → K) : CursorPaginatedResult A K :=
  let hasNextPage := data.length > options.limit
  let paginatedData := if hasNextPage then data.take options.limit else data
  { items := paginatedData
    nextCursor := if hasNextPage then paginatedData.getLast?.map getCursor else none
    hasNextPage := hasNextPage }

def getPageRange (currentPage totalPages : Int) (delta : Int := 2) : List PageLabel :=
  let left := max 2 (currentPage - delta)
  let right := min (totalPages - 1) (currentPage + delta)
  [.number 1] ++
    (if left > 2 then [.string "..."] else []) ++
    (List.range (right + 1 - left).toNat).map (fun i : Nat => .number (left + i)) ++
    (if right < totalPages - 1 then [.string "..."] else []) ++
    (if totalPages > 1 then [.number totalPages] else [])

end PaginationUtil

theorem getSkip_succ (n limit : Nat) :
    PaginationUtil.getSkip (n + 1) limit = ((n * limit : Nat) : Int) := by
  rw [PaginationUtil.getSkip, Int.natCast_mul, Int.natCast_add, Int.natCast_one,
    Int.add_sub_cancel]

theorem totalPages_fits (total : Nat) {limit : Nat} (positive : limit ≠ 0) :
    total ≤ PaginationUtil.getTotalPages total limit * limit := by
  rw [PaginationUtil.getTotalPages]
  have split := Nat.div_add_mod (total + (limit - 1)) limit
  have small := Nat.mod_lt (total + (limit - 1)) (Nat.pos_of_ne_zero positive)
  rw [Nat.mul_comm] at split
  omega

/-- A page is before the last one exactly when items remain after it. -/
theorem lt_totalPages_iff {page total limit : Nat} (positive : 1 ≤ limit) :
    page < PaginationUtil.getTotalPages total limit ↔ page * limit < total := by
  have count : page + 1 ≤ (total + (limit - 1)) / limit ↔
      (page + 1) * limit ≤ total + (limit - 1) := Nat.le_div_iff_mul_le positive
  rw [Nat.add_mul] at count
  unfold PaginationUtil.getTotalPages
  omega

end SecondhandApi
