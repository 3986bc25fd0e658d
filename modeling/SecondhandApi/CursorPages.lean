import Mathlib.Order.Lattice
import Mathlib.Order.Nat
import SecondhandApi.Pagination
import SecondhandApi.Walks

/-! The pages that `nextCursor` leads through. Each page is made of a query for one item more
than it shows, beyond the cursor of the page before. -/
namespace SecondhandApi
open PaginationUtil Walks

variable {A K : Type} [LinearOrder K] (key : A → K) (xs : List A)

/-- The items with a greater key than the cursor, or all of them. -/
def beyond (cursor : Option K) : List A :=
  xs.filter fun x => cursor.all fun c => decide (c < key x)

/-- The query that `cursorPaginate` is documented with. -/
def fetch (options : CursorPaginationOptions K) : List A :=
  (beyond key xs options.cursor).take (options.limit + 1)

def pageAt (limit : Nat) (cursor : Option K) : CursorPaginatedResult A K :=
  cursorPaginate (fetch key xs ⟨cursor, limit⟩) ⟨cursor, limit⟩ key

/-- The cursor to go on with. -/
def nextAt (limit : Nat) (cursor : Option K) : Option (Option K) :=
  (pageAt key xs limit cursor).nextCursor.map some

section
variable {key xs} {limit : Nat} {cursor : Option K}

theorem hasNextPage_pageAt :
    (pageAt key xs limit cursor).hasNextPage = true ↔ limit < (beyond key xs cursor).length := by
  simp only [pageAt, cursorPaginate, fetch, List.length_take, decide_eq_true_eq]
  omega

theorem items_pageAt :
    (pageAt key xs limit cursor).items = (beyond key xs cursor).take limit := by
  by_cases more : limit < (beyond key xs cursor).length
  · have extra : limit < min (limit + 1) (beyond key xs cursor).length := by omega
    simp [pageAt, cursorPaginate, fetch, extra, List.take_take]
  · have short : ¬ limit < min (limit + 1) (beyond key xs cursor).length := by omega
    simp [pageAt, cursorPaginate, fetch, short]
    omega

theorem nextCursor_pageAt : (pageAt key xs limit cursor).nextCursor =
    if limit < (beyond key xs cursor).length then
      ((beyond key xs cursor).take limit).getLast?.map key else none := by
  have extra : limit < min (limit + 1) (beyond key xs cursor).length ↔
      limit < (beyond key xs cursor).length := by omega
  by_cases more : limit < (beyond key xs cursor).length
  · simp [pageAt, cursorPaginate, fetch, extra, more, List.take_take]
  · simp [pageAt, cursorPaginate, fetch, extra, more]

theorem nextCursor_eq_none_iff (positive : 1 ≤ limit) :
    (pageAt key xs limit cursor).nextCursor = none ↔
      (pageAt key xs limit cursor).hasNextPage = false := by
  rw [← Bool.not_eq_true, hasNextPage_pageAt, nextCursor_pageAt]
  split
  · rename_i more
    have some : (beyond key xs cursor).take limit ≠ [] := by
      intro empty
      simp at empty
      rcases empty with zero | none
      · omega
      · simp [none] at more
    simp [some, more]
  · rename_i last
    simp [last]

variable (rising : xs.Pairwise (fun a b => key a < key b))
include rising

theorem rising_beyond (cursor : Option K) :
    (beyond key xs cursor).Pairwise (fun a b => key a < key b) :=
  rising.filter _

/-- Items remain exactly when one of those beyond the cursor is not on the page. -/
theorem hasNextPage_iff_remains : (pageAt key xs limit cursor).hasNextPage = true ↔
    ∃ x ∈ beyond key xs cursor, x ∉ (pageAt key xs limit cursor).items := by
  rw [hasNextPage_pageAt, items_pageAt]
  constructor
  · intro more
    refine ⟨(beyond key xs cursor)[limit], List.getElem_mem more, fun member => ?_⟩
    have split := rising_beyond rising cursor
    rw [← List.take_append_drop limit (beyond key xs cursor), List.pairwise_append] at split
    have itself := split.2.2 _ member (beyond key xs cursor)[limit] (by
      rw [List.drop_eq_getElem_cons more]
      exact List.mem_cons_self)
    exact lt_irrefl _ itself
  · rintro ⟨x, member, away⟩
    by_contra few
    rw [List.take_of_length_le (by omega)] at away
    exact away member

omit rising in
/-- What is beyond an item is beyond every cursor in front of it. -/
theorem beyond_item {last : A} (member : last ∈ beyond key xs cursor) :
    beyond key xs (some (key last)) =
      (beyond key xs cursor).filter (fun x => decide (key last < key x)) := by
  have passes := (List.mem_filter.mp member).2
  unfold beyond
  rw [List.filter_filter]
  refine List.filter_congr (fun x _ => ?_)
  cases cursor with
  | none => simp
  | some c =>
    have first : c < key last := by simpa using passes
    by_cases above : key last < key x
    · simp [above, lt_trans first above]
    · simp [above]

omit rising in
theorem filter_after {front back : List A} {last : A}
    (sorted : (front ++ [last] ++ back).Pairwise (fun a b => key a < key b)) :
    (front ++ [last] ++ back).filter (fun x => decide (key last < key x)) = back := by
  obtain ⟨shown, _, after⟩ := List.pairwise_append.mp sorted
  have before := (List.pairwise_append.mp shown).2.2
  have out : (front ++ [last]).filter (fun x => decide (key last < key x)) = [] := by
    simp only [List.filter_eq_nil_iff, decide_eq_true_eq]
    intro x there
    rcases List.mem_append.mp there with earlier | itself
    · exact not_lt_of_gt (before x earlier last (List.mem_singleton_self last))
    · rw [List.mem_singleton.mp itself]
      exact lt_irrefl _
  have inside : back.filter (fun x => decide (key last < key x)) = back := by
    simp only [List.filter_eq_self, decide_eq_true_eq]
    exact fun x there => after last (by simp) x there
  rw [List.filter_append, out, inside, List.nil_append]

/-- Beyond the last item of a page stand the items that are not on it. -/
theorem beyond_last {last : A} (ends : ((beyond key xs cursor).take limit).getLast? = some last) :
    beyond key xs (some (key last)) = (beyond key xs cursor).drop limit := by
  obtain ⟨front, page⟩ := List.getLast?_eq_some_iff.mp ends
  have split : beyond key xs cursor = front ++ [last] ++ (beyond key xs cursor).drop limit := by
    rw [← page, List.take_append_drop]
  have member : last ∈ beyond key xs cursor := by
    rw [split]
    simp
  have sorted := rising_beyond rising cursor
  rw [split] at sorted
  rw [beyond_item member]
  conv => lhs; rw [split]
  exact filter_after sorted

/-- From any cursor on, by the number of items beyond it, which every page makes smaller. -/
theorem walk_beyond (positive : 1 ≤ limit) (n : Nat) (cursor : Option K)
    (size : (beyond key xs cursor).length ≤ n) :
    ∃ cursors, Walk (nextAt key xs limit) cursor cursors ∧ cursors.length ≤ n + 1 ∧
      cursors.flatMap (fun c => (pageAt key xs limit c).items) = beyond key xs cursor := by
  induction n generalizing cursor with
  | zero =>
    have empty : beyond key xs cursor = [] := List.length_eq_zero_iff.mp (by omega)
    have final : nextAt key xs limit cursor = none := by
      simp [nextAt, nextCursor_pageAt, empty]
    refine ⟨[cursor], .last final, by simp, ?_⟩
    simp [items_pageAt, empty]
  | succ n ih =>
    by_cases more : limit < (beyond key xs cursor).length
    · cases ends : ((beyond key xs cursor).take limit).getLast? with
      | none =>
        have short : ((beyond key xs cursor).take limit).length = 0 := by
          simp [List.getLast?_eq_none_iff.mp ends]
        rw [List.length_take] at short
        omega
      | some last =>
        have later := beyond_last rising ends
        have link : nextAt key xs limit cursor = some (some (key last)) := by
          simp [nextAt, nextCursor_pageAt, more, ends]
        obtain ⟨cursors, walk, few, items⟩ := ih (some (key last)) (by
          rw [later, List.length_drop]
          omega)
        refine ⟨cursor :: cursors, .link link walk, by simp; omega, ?_⟩
        rw [List.flatMap_cons, items, later, items_pageAt, List.take_append_drop]
    · have final : nextAt key xs limit cursor = none := by
        simp [nextAt, nextCursor_pageAt, more]
      refine ⟨[cursor], .last final, by simp, ?_⟩
      simp only [List.flatMap_singleton, items_pageAt]
      exact List.take_of_length_le (by omega)

end

/-- Following the cursors ends with the whole list on the pages, in its order, and both marks of
a page say whether items remain. -/
theorem cursor_pages_whole {limit : Nat} (positive : 1 ≤ limit)
    (rising : xs.Pairwise (fun a b => key a < key b)) :
    (∃ cursors, (∀ fuel ≥ xs.length + 1, follow (nextAt key xs limit) fuel none = some cursors) ∧
      cursors.flatMap (fun c => (pageAt key xs limit c).items) = xs) ∧
    ∀ cursor, ((pageAt key xs limit cursor).hasNextPage = true ↔
        ∃ x ∈ beyond key xs cursor, x ∉ (pageAt key xs limit cursor).items) ∧
      ((pageAt key xs limit cursor).nextCursor = none ↔
        (pageAt key xs limit cursor).hasNextPage = false) := by
  have all : beyond key xs none = xs := by simp [beyond]
  refine ⟨?_, fun cursor => ⟨hasNextPage_iff_remains rising, nextCursor_eq_none_iff positive⟩⟩
  obtain ⟨cursors, walk, few, items⟩ :=
    walk_beyond rising positive xs.length none (by simp [all])
  refine ⟨cursors, fun fuel enough => walk.follow (by omega), ?_⟩
  rw [items, all]

/-- Five keys on pages of two. -/
theorem cursor_pages_whole_five :
    ∃ cursors, (∀ fuel ≥ 6, follow (nextAt id [1, 3, 4, 7, 9] 2) fuel none = some cursors) ∧
      cursors.flatMap (fun c => (pageAt id [1, 3, 4, 7, 9] 2 c).items) = [1, 3, 4, 7, 9] :=
  (cursor_pages_whole (K := Nat) id [1, 3, 4, 7, 9] (show 1 ≤ 2 by decide) (by decide)).1

end SecondhandApi
