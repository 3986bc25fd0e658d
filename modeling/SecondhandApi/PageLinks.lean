import SecondhandApi.Pagination
import SecondhandApi.Paging
import SecondhandApi.Walks

/-! The pages that `nextPage` leads through from the first one on, and what is on them. -/
namespace SecondhandApi
open PaginationUtil Walks

variable {A : Type}

def itemsOn (xs : List A) (limit page : Nat) : List A :=
  (xs.drop (getSkip page limit).toNat).take limit

/-- The link of a page of `total` items. -/
def nextPage (total limit page : Nat) : Option Nat := (createMeta total page limit).nextPage

@[simp] theorem getSkip_toNat (n limit : Nat) : (getSkip (n + 1) limit).toNat = n * limit := by
  rw [getSkip_succ, Int.toNat_natCast]

theorem itemsOn_succ (xs : List A) (limit n : Nat) :
    itemsOn xs limit (n + 1) = Paging.page limit xs n := by
  simp [itemsOn, Paging.page]

theorem nextPage_of_lt {total limit page : Nat} (inside : page < getTotalPages total limit) :
    nextPage total limit page = some (page + 1) := by
  simp [nextPage, createMeta, inside]

theorem nextPage_of_le {total limit page : Nat} (past : getTotalPages total limit ≤ page) :
    nextPage total limit page = none := by
  simp [nextPage, createMeta, past]

/-- From any page on the links lead through the pages left, the induction being on their number. -/
theorem walk_from (total limit left page : Nat)
    (last : page + left = max page (getTotalPages total limit)) :
    Walk (nextPage total limit) page (List.range' page (left + 1)) := by
  induction left generalizing page with
  | zero => exact .last (nextPage_of_le (by omega))
  | succ left ih =>
    have inside : page < getTotalPages total limit := by omega
    exact .link (nextPage_of_lt inside) (ih (page + 1) (by omega))

theorem walk_first (total limit : Nat) :
    Walk (nextPage total limit) 1 (List.range' 1 (max 1 (getTotalPages total limit))) := by
  have walk := walk_from total limit (max 1 (getTotalPages total limit) - 1) 1 (by omega)
  have count : max 1 (getTotalPages total limit) - 1 + 1 = max 1 (getTotalPages total limit) := by
    omega
  rwa [count] at walk

theorem pages_complete (xs : List A) {limit : Nat} (positive : 1 ≤ limit) :
    (List.range' 1 (max 1 (getTotalPages xs.length limit))).flatMap (itemsOn xs limit) = xs := by
  have fits : xs.length ≤ max 1 (getTotalPages xs.length limit) * limit :=
    (totalPages_fits xs.length (by omega)).trans (Nat.mul_le_mul_right _ (Nat.le_max_right ..))
  rw [List.range'_eq_map_range, List.flatMap_map]
  simp only [Nat.add_comm 1, itemsOn_succ]
  exact Paging.pages_all fits

theorem hasNextPage_iff (xs : List A) {limit page : Nat} (positive : 1 ≤ limit) :
    (createMeta xs.length page limit).hasNextPage = true ↔
      xs.drop (getSkip (page + 1) limit).toNat ≠ [] := by
  simp [createMeta, lt_totalPages_iff positive]

theorem isValidPage_iff (xs : List A) {limit page : Nat} (positive : 1 ≤ limit) (first : 1 ≤ page) :
    isValidPage page xs.length limit = true ↔ itemsOn xs limit page ≠ [] := by
  obtain ⟨n, rfl⟩ : ∃ n, page = n + 1 := ⟨page - 1, by omega⟩
  have before : n + 1 ≤ getTotalPages xs.length limit ↔ n * limit < xs.length :=
    lt_totalPages_iff positive
  simp [isValidPage, before, itemsOn_succ, Paging.page]
  omega

/-- The links lead through all pages and end, the pages make up the list, and the two tests of a
page say what is on it and after it. -/
theorem pages_linked (xs : List A) {limit : Nat} (positive : 1 ≤ limit) :
    (∀ fuel ≥ max 1 (getTotalPages xs.length limit),
      follow (nextPage xs.length limit) fuel 1 =
        some (List.range' 1 (max 1 (getTotalPages xs.length limit)))) ∧
    (List.range' 1 (max 1 (getTotalPages xs.length limit))).flatMap (itemsOn xs limit) = xs ∧
    ∀ page ≥ 1,
      ((createMeta xs.length page limit).hasNextPage = true ↔
        xs.drop (getSkip (page + 1) limit).toNat ≠ []) ∧
      (isValidPage page xs.length limit = true ↔ itemsOn xs limit page ≠ []) := by
  refine ⟨fun fuel enough => ?_, pages_complete xs positive, fun page first => ?_⟩
  · exact (walk_first xs.length limit).follow (by simpa using enough)
  · exact ⟨hasNextPage_iff xs positive, isValidPage_iff xs positive first⟩

/-- Five items on pages of two. -/
theorem pages_linked_five :
    follow (nextPage 5 2) 3 1 = some [1, 2, 3] ∧
      [1, 2, 3].flatMap (itemsOn ['a', 'b', 'c', 'd', 'e'] 2) = ['a', 'b', 'c', 'd', 'e'] :=
  have linked := pages_linked ['a', 'b', 'c', 'd', 'e'] (show 1 ≤ 2 by decide)
  ⟨linked.1 3 (by decide), linked.2.1⟩

end SecondhandApi
