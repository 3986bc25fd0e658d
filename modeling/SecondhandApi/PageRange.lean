import Mathlib.Algebra.Order.Group.Abs
import Mathlib.Algebra.Order.Group.Int
import Mathlib.Data.List.Infix
import SecondhandApi.Pagination

/-! The row of page numbers around the current page, with an ellipsis for the pages left out. -/
namespace SecondhandApi
open PaginationUtil

abbrev PageLabel.ellipsis : PageLabel := .string "..."

def pageNumbers (labels : List PageLabel) : List Int :=
  labels.filterMap fun
    | .number n => some n
    | .string _ => none

@[simp] theorem pageNumbers_number (n : Int) (labels : List PageLabel) :
    pageNumbers (.number n :: labels) = n :: pageNumbers labels := rfl
@[simp] theorem pageNumbers_string (s : String) (labels : List PageLabel) :
    pageNumbers (.string s :: labels) = pageNumbers labels := rfl

/-- Rising numbers, each followed by the next one or, over an ellipsis, by a later one. -/
inductive Spaced : List PageLabel → Prop where
  | last (a : Int) : Spaced [.number a]
  | next {a b : Int} {rest : List PageLabel} (follows : b = a + 1)
      (tail : Spaced (.number b :: rest)) : Spaced (.number a :: .number b :: rest)
  | gap {a b : Int} {rest : List PageLabel} (later : a + 1 < b)
      (tail : Spaced (.number b :: rest)) : Spaced (.number a :: .ellipsis :: .number b :: rest)

/-- A row of labels for the pages around the current one. -/
structure ShowsPages (labels : List PageLabel) (currentPage totalPages delta : Int) : Prop where
  head : labels.head? = some (.number 1)
  getLast : labels.getLast? = some (.number totalPages)
  rising : (pageNumbers labels).Pairwise (· < ·)
  within : ∀ p ∈ pageNumbers labels, 1 ≤ p ∧ p ≤ totalPages
  near : ∀ p, 1 ≤ p → p ≤ totalPages → |p - currentPage| ≤ delta → .number p ∈ labels
  gaps : ∀ a b, [a, b] <:+: pageNumbers labels →
    ([.number a, .ellipsis, .number b] <:+: labels ↔ a + 1 < b)
  single : ∀ s x, [.string s, x] <:+: labels → s = "..." ∧ ∃ p, x = .number p

namespace Spaced

variable {labels : List PageLabel}

theorem rising (spaced : Spaced labels) : (pageNumbers labels).Pairwise (· < ·) := by
  rw [← List.isChain_iff_pairwise]
  induction spaced with
  | last a => exact .singleton a
  | next follows tail ih =>
    rw [pageNumbers_number, pageNumbers_number] at *
    exact .cons_cons (by omega) ih
  | gap later tail ih =>
    rw [pageNumbers_number, pageNumbers_string, pageNumbers_number] at *
    exact .cons_cons (by omega) ih

theorem adjacent (spaced : Spaced labels) {a b : Int}
    (together : [.number a, .number b] <:+: labels) : b = a + 1 := by
  induction spaced with
  | last c => simp [List.infix_cons_iff] at together
  | next follows tail ih =>
    rcases List.infix_cons_iff.mp together with here | after
    · simp at here
      omega
    · exact ih after
  | gap later tail ih =>
    rcases List.infix_cons_iff.mp together with here | after
    · simp at here
    rcases List.infix_cons_iff.mp after with here | after
    · simp at here
    · exact ih after

theorem dotted (spaced : Spaced labels) {a b : Int}
    (apart : [.number a, .ellipsis, .number b] <:+: labels) : a + 1 < b := by
  induction spaced with
  | last c => simp [List.infix_cons_iff] at apart
  | next follows tail ih =>
    rcases List.infix_cons_iff.mp apart with here | after
    · simp at here
    · exact ih after
  | gap later tail ih =>
    rcases List.infix_cons_iff.mp apart with here | after
    · simp at here
      omega
    rcases List.infix_cons_iff.mp after with here | after
    · simp at here
    · exact ih after

/-- Two numbers in a row stand next to each other, or with one ellipsis between them. -/
theorem consecutive (spaced : Spaced labels) {a b : Int} (row : [a, b] <:+: pageNumbers labels) :
    [.number a, .number b] <:+: labels ∨ [.number a, .ellipsis, .number b] <:+: labels := by
  induction spaced with
  | last c => simp [List.infix_cons_iff, pageNumbers] at row
  | next follows tail ih =>
    rcases List.infix_cons_iff.mp row with here | after
    · left
      simp at here
      simp [List.infix_cons_iff, here]
    · exact (ih after).imp List.infix_cons List.infix_cons
  | gap apart tail ih =>
    rcases List.infix_cons_iff.mp row with here | after
    · right
      simp at here
      simp [List.infix_cons_iff, here]
    · exact (ih after).imp (fun next => List.infix_cons (List.infix_cons next))
        (fun gap => List.infix_cons (List.infix_cons gap))

/-- Every text is an ellipsis in front of a number. -/
theorem single (spaced : Spaced labels) {s : String} {x : PageLabel}
    (text : [.string s, x] <:+: labels) : s = "..." ∧ ∃ p, x = .number p := by
  induction spaced with
  | last c => simp [List.infix_cons_iff] at text
  | next follows tail ih =>
    rcases List.infix_cons_iff.mp text with here | after
    · simp at here
    · exact ih after
  | gap later tail ih =>
    rcases List.infix_cons_iff.mp text with here | after
    · simp at here
    rcases List.infix_cons_iff.mp after with here | after
    · simp at here
      simp [here]
    · exact ih after

theorem cons_next (spaced : Spaced labels) {a : Int}
    (front : labels.head? = some (.number (a + 1))) : Spaced (.number a :: labels) := by
  cases labels with
  | nil => cases front
  | cons label labels =>
    cases front
    exact .next rfl spaced

theorem cons_gap (spaced : Spaced labels) {a b : Int} (front : labels.head? = some (.number b))
    (later : a + 1 < b) : Spaced (.number a :: .ellipsis :: labels) := by
  cases labels with
  | nil => cases front
  | cons label labels =>
    cases front
    exact .gap later spaced

/-- Numbers one after the other, in front of what their last one may stand before. -/
theorem run (a : Int) (n : Nat) {rest : List PageLabel}
    (tail : Spaced (.number (a + n) :: rest)) :
    Spaced ((List.range (n + 1)).map (fun i : Nat => .number (a + i)) ++ rest) := by
  induction n generalizing a with
  | zero => simpa using tail
  | succ n ih =>
    have shift : a + ((n + 1 : Nat) : Int) = a + 1 + n := by omega
    rw [shift] at tail
    have spaced := cons_next (a := a) (ih (a + 1) tail) (by simp [List.range_succ_eq_map])
    simpa [List.range_succ_eq_map, Function.comp_def, Int.add_assoc, Int.add_comm 1] using spaced

end Spaced

theorem mem_pageNumbers {labels : List PageLabel} {p : Int} :
    p ∈ pageNumbers labels ↔ .number p ∈ labels := by
  induction labels with
  | nil => simp [pageNumbers]
  | cons label labels ih =>
    cases label <;> simp [ih]

theorem mem_getPageRange {currentPage totalPages delta p : Int} :
    .number p ∈ getPageRange currentPage totalPages delta ↔ p = 1 ∨
      (max 2 (currentPage - delta) ≤ p ∧ p ≤ min (totalPages - 1) (currentPage + delta)) ∨
      (1 < totalPages ∧ p = totalPages) := by
  unfold getPageRange
  generalize max 2 (currentPage - delta) = left
  generalize min (totalPages - 1) (currentPage + delta) = right
  have middle : (∃ i : Nat, (i : Int) < right + 1 - left ∧ left + i = p) ↔
      left ≤ p ∧ p ≤ right := by
    constructor
    · rintro ⟨i, bound, rfl⟩
      omega
    · intro between
      exact ⟨(p - left).toNat, by omega, by omega⟩
  simp [middle]

theorem getPageRange_one {delta : Int} (nonneg : 0 ≤ delta) :
    getPageRange 1 1 delta = [.number 1] := by
  have left : max 2 (1 - delta) = 2 := by omega
  have right : min 0 (1 + delta) = 0 := by omega
  simp [getPageRange, left, right]

section
variable {currentPage totalPages delta : Int} (first : 1 ≤ currentPage)
  (last : currentPage ≤ totalPages) (nonneg : 0 ≤ delta)
include first last nonneg

theorem getPageRange_spaced : Spaced (getPageRange currentPage totalPages delta) := by
  by_cases one : totalPages = 1
  · obtain rfl : currentPage = 1 := by omega
    rw [one, getPageRange_one nonneg]
    exact .last 1
  unfold getPageRange
  generalize left_eq : max 2 (currentPage - delta) = left
  generalize right_eq : min (totalPages - 1) (currentPage + delta) = right
  have ends : totalPages > 1 := by omega
  simp only [if_pos ends]
  by_cases empty : right < left
  · -- the current page is at an end and `delta` is 0, or there are two pages
    have none : (right + 1 - left).toNat = 0 := by omega
    rw [none]
    rcases (by omega : (left > 2 ∧ ¬ right < totalPages - 1 ∧ 2 < totalPages) ∨
        (¬ left > 2 ∧ right < totalPages - 1 ∧ 2 < totalPages) ∨
        (¬ left > 2 ∧ ¬ right < totalPages - 1 ∧ totalPages = 2)) with
      ⟨above, under, three⟩ | ⟨above, under, three⟩ | ⟨above, under, two⟩
    · simpa [above, under] using Spaced.gap (by omega) (.last totalPages)
    · simpa [above, under] using Spaced.gap (by omega) (.last totalPages)
    · simpa [above, under] using Spaced.next (a := 1) (by omega) (.last totalPages)
  · have count : (right + 1 - left).toNat = (right - left).toNat + 1 := by omega
    have end_run : left + (right - left).toNat = right := by omega
    have tail : Spaced (.number (left + (right - left).toNat) ::
        ((if right < totalPages - 1 then [.string "..."] else []) ++ [.number totalPages])) := by
      rw [end_run]
      split
      · exact .gap (by omega) (.last totalPages)
      · exact .next (by omega) (.last totalPages)
    have middle := Spaced.run left _ tail
    rw [count]
    by_cases above : left > 2
    · have spaced := middle.cons_gap (a := 1) (b := left) (by simp [List.range_succ_eq_map])
        (by omega)
      simpa [above] using spaced
    · have two : left = 2 := by omega
      have spaced := middle.cons_next (a := 1) (by simp [List.range_succ_eq_map, two])
      simpa [above] using spaced

theorem getPageRange_shows : ShowsPages (getPageRange currentPage totalPages delta)
    currentPage totalPages delta := by
  have spaced := getPageRange_spaced first last nonneg
  constructor
  case head => rfl
  case getLast =>
    by_cases one : totalPages = 1
    · obtain rfl : currentPage = 1 := by omega
      rw [one, getPageRange_one nonneg]
      rfl
    · have ends : totalPages > 1 := by omega
      unfold getPageRange
      rw [if_pos ends]
      exact List.getLast?_concat
  case rising => exact spaced.rising
  case within =>
    intro p member
    rw [mem_pageNumbers, mem_getPageRange] at member
    omega
  case near =>
    intro p above below distance
    have sides := abs_le.mp distance
    rw [mem_getPageRange]
    omega
  case gaps =>
    intro a b row
    constructor
    · exact spaced.dotted
    · intro later
      rcases spaced.consecutive row with together | apart
      · have := spaced.adjacent together
        omega
      · exact apart
  case single => exact fun s x => spaced.single

end

/-- The fifth of ten pages. -/
theorem getPageRange_shows_ten : ShowsPages (getPageRange 5 10 2) 5 10 2 :=
  getPageRange_shows (by decide) (by decide) (by decide)

end SecondhandApi
