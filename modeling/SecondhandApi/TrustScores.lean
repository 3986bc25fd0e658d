import Mathlib.Algebra.BigOperators.Group.List.Basic
import Mathlib.Tactic.FieldSimp
import Mathlib.Tactic.Linarith
import Mathlib.Tactic.Positivity
import SecondhandApi.ReviewsService

/-! The score that `calculateTrustScore` makes of the ratings of a user, in exact arithmetic: in
which range it lies, and how it moves when a rating is raised or a review is added. -/
namespace SecondhandApi

theorem jsRound_mono {p q : Rat} (h : p ≤ q) : jsRound p ≤ jsRound q :=
  Rat.floor_monotone (by linarith)

@[simp] theorem jsRound_intCast (n : Int) : jsRound n = n := by
  apply le_antisymm
  · rw [← Int.lt_add_one_iff, jsRound, Rat.floor_lt_iff]
    push_cast
    linarith
  · rw [jsRound, Rat.le_floor_iff]
    linarith

theorem oneDecimal_mono {p q : Rat} (h : p ≤ q) : oneDecimal p ≤ oneDecimal q := by
  have rounded : ((jsRound (p * 10) : Int) : Rat) ≤ jsRound (q * 10) :=
    Int.cast_le.mpr (jsRound_mono (by linarith))
  rw [oneDecimal, oneDecimal]
  linarith

@[simp] theorem oneDecimal_intCast (n : Int) : oneDecimal n = n := by
  have tenfold : ((n : Rat) * 10) = ((n * 10 : Int) : Rat) := by push_cast; rfl
  rw [oneDecimal, tenfold, jsRound_intCast]
  push_cast
  linarith

/-- Rounding to one decimal leaves a value between two integers. -/
theorem oneDecimal_between {m n : Int} {q : Rat} (low : (m : Rat) ≤ q) (high : q ≤ n) :
    (m : Rat) ≤ oneDecimal q ∧ oneDecimal q ≤ n :=
  ⟨(oneDecimal_intCast m).symm.trans_le (oneDecimal_mono low),
    (oneDecimal_mono high).trans_eq (oneDecimal_intCast n)⟩

namespace TrustScore

/- The mean of no ratings is 0, as `calculateTrustScore` has it. -/
def mean (ratings : List Int) : Rat := (ratings.sum : Rat) / ratings.length

/-- The score before it is rounded: of the mean, and of the number of reviews. -/
def unrounded (ratings : List Int) : Rat :=
  mean ratings / 5 * 80 + min ((ratings.length : Rat) / 50) 1 * 20

theorem of_eq (ratings : List Int) : of ratings =
    { trustScore := oneDecimal (unrounded ratings)
      averageRating := oneDecimal (mean ratings)
      totalReviews := ratings.length
      ratingDistribution := distribution ratings } := by
  cases ratings with
  | nil =>
    have none : mean [] = ((0 : Int) : Rat) := by simp [mean]
    have zero : unrounded [] = ((0 : Int) : Rat) := by simp [unrounded, mean]
    rw [none, zero, oneDecimal_intCast]
    rfl
  | cons rating ratings => rfl

theorem of_perm {ratings others : List Int} (same : others.Perm ratings) :
    of others = of ratings := by
  have counts : distribution others = distribution ratings :=
    List.map_congr_left fun n _ => congrArg (Prod.mk n) (same.count_eq n)
  have means : mean others = mean ratings := by rw [mean, mean, same.sum_eq, same.length_eq]
  rw [of_eq, of_eq, unrounded, unrounded, counts, means, same.length_eq]

/-! The distribution of ratings in 1..5. -/

theorem distribution_counts {ratings : List Int} (range : ∀ r ∈ ratings, 1 ≤ r ∧ r ≤ 5) :
    ((distribution ratings).map Prod.snd).sum = ratings.length := by
  induction ratings with
  | nil => rfl
  | cons rating ratings ih =>
    have counted := ih (fun r member => range r (List.mem_cons_of_mem _ member))
    obtain ⟨low, high⟩ := range rating List.mem_cons_self
    have cases : rating = 1 ∨ rating = 2 ∨ rating = 3 ∨ rating = 4 ∨ rating = 5 := by omega
    simp only [distribution, List.map_cons, List.map_nil, List.sum_cons, List.sum_nil] at counted ⊢
    rcases cases with rfl | rfl | rfl | rfl | rfl <;> simp <;> omega

theorem distribution_weights {ratings : List Int} (range : ∀ r ∈ ratings, 1 ≤ r ∧ r ≤ 5) :
    ((distribution ratings).map fun (n, count) => n * (count : Int)).sum = ratings.sum := by
  induction ratings with
  | nil => rfl
  | cons rating ratings ih =>
    have weighed := ih (fun r member => range r (List.mem_cons_of_mem _ member))
    obtain ⟨low, high⟩ := range rating List.mem_cons_self
    have cases : rating = 1 ∨ rating = 2 ∨ rating = 3 ∨ rating = 4 ∨ rating = 5 := by omega
    simp only [distribution, List.map_cons, List.map_nil, List.sum_cons, List.sum_nil] at weighed ⊢
    rcases cases with rfl | rfl | rfl | rfl | rfl <;> simp <;> omega

/-! The range of the mean and of the score. -/

theorem sum_between {ratings : List Int} (range : ∀ r ∈ ratings, 1 ≤ r ∧ r ≤ 5) :
    (ratings.length : Int) ≤ ratings.sum ∧ ratings.sum ≤ 5 * ratings.length := by
  induction ratings with
  | nil => decide
  | cons rating ratings ih =>
    obtain ⟨low, high⟩ := ih (fun r member => range r (List.mem_cons_of_mem _ member))
    have here := range rating List.mem_cons_self
    rw [List.sum_cons, List.length_cons]
    push_cast
    omega

theorem mean_between {ratings : List Int} (range : ∀ r ∈ ratings, 1 ≤ r ∧ r ≤ 5)
    (some : ratings ≠ []) : 1 ≤ mean ratings ∧ mean ratings ≤ 5 := by
  have many : (0 : Rat) < ratings.length := Nat.cast_pos.mpr (List.length_pos_iff.mpr some)
  obtain ⟨low, high⟩ := sum_between range
  have low : (ratings.length : Rat) ≤ (ratings.sum : Rat) := by exact_mod_cast low
  have high : (ratings.sum : Rat) ≤ 5 * ratings.length := by exact_mod_cast high
  rw [mean, le_div_iff₀ many, div_le_iff₀ many]
  constructor <;> linarith

theorem mean_nonneg {ratings : List Int} (range : ∀ r ∈ ratings, 1 ≤ r ∧ r ≤ 5) :
    0 ≤ mean ratings ∧ mean ratings ≤ 5 := by
  by_cases none : ratings = []
  · subst none
    norm_num [mean]
  · obtain ⟨low, high⟩ := mean_between range none
    exact ⟨by linarith, high⟩

theorem unrounded_between {ratings : List Int} (range : ∀ r ∈ ratings, 1 ≤ r ∧ r ≤ 5) :
    0 ≤ unrounded ratings ∧ unrounded ratings ≤ 100 := by
  obtain ⟨low, high⟩ := mean_nonneg range
  have few : min ((ratings.length : Rat) / 50) 1 ≤ 1 := min_le_right _ _
  have some : 0 ≤ min ((ratings.length : Rat) / 50) 1 := le_min (by positivity) zero_le_one
  rw [unrounded]
  constructor <;> linarith

/-! How the score moves. -/

theorem unrounded_mono {ratings others : List Int} (means : mean ratings ≤ mean others)
    (reviews : ratings.length ≤ others.length) : unrounded ratings ≤ unrounded others := by
  have more : (ratings.length : Rat) / 50 ≤ others.length / 50 := by
    have : (ratings.length : Rat) ≤ others.length := Nat.cast_le.mpr reviews
    linarith
  have bonus : min ((ratings.length : Rat) / 50) 1 ≤ min ((others.length : Rat) / 50) 1 :=
    min_le_min_right 1 more
  rw [unrounded, unrounded]
  linarith

theorem mean_raised {before after : List Int} {old new : Int} (higher : old ≤ new) :
    mean (before ++ old :: after) ≤ mean (before ++ new :: after) := by
  have sums : ((before ++ old :: after).sum : Rat) ≤ (before ++ new :: after).sum := by
    apply Int.cast_le.mpr
    rw [List.sum_append, List.sum_append, List.sum_cons, List.sum_cons]
    omega
  have lengths : (before ++ old :: after).length = (before ++ new :: after).length := by
    rw [List.length_append, List.length_append, List.length_cons, List.length_cons]
  rw [mean, mean, lengths]
  exact div_le_div_of_nonneg_right sums (Nat.cast_nonneg _)

/-- A rating that is not under the mean does not lower it. -/
theorem mean_joined {ratings : List Int} {rating : Int} (good : mean ratings ≤ rating) :
    mean ratings ≤ mean (rating :: ratings) := by
  by_cases none : ratings = []
  · subst none
    simpa [mean] using good
  · have many : (0 : Rat) < ratings.length := Nat.cast_pos.mpr (List.length_pos_iff.mpr none)
    have sum : (ratings.sum : Rat) = mean ratings * ratings.length := by
      rw [mean, div_mul_cancel₀ _ many.ne']
    have whole : ((rating :: ratings).sum : Rat) = rating + mean ratings * ratings.length := by
      rw [List.sum_cons, Int.cast_add, sum]
    have next : mean (rating :: ratings) =
        (rating + mean ratings * ratings.length) / (ratings.length + 1) := by
      rw [← whole, mean, List.length_cons, Nat.cast_add, Nat.cast_one]
    rw [next, le_div_iff₀ (by linarith)]
    linarith

end TrustScore

/-- What a score of ratings in 1..5 is to satisfy. -/
structure TrustScore.Sound (ratings : List Int) : Prop where
  unordered : ∀ others, others.Perm ratings → of others = of ratings
  counts : ((of ratings).ratingDistribution.map Prod.snd).sum = (of ratings).totalReviews
  weights : ((of ratings).ratingDistribution.map fun (n, count) => n * (count : Int)).sum =
    ratings.sum
  score : 0 ≤ (of ratings).trustScore ∧ (of ratings).trustScore ≤ 100
  average : ratings ≠ [] → 1 ≤ (of ratings).averageRating ∧ (of ratings).averageRating ≤ 5
  raised : ∀ before old after new, ratings = before ++ old :: after → old ≤ new →
    (of ratings).trustScore ≤ (of (before ++ new :: after)).trustScore ∧
      (of ratings).averageRating ≤ (of (before ++ new :: after)).averageRating
  joined : ∀ rating : Int, mean ratings ≤ rating → ∀ others, others.Perm (rating :: ratings) →
    (of ratings).trustScore ≤ (of others).trustScore

open TrustScore in
theorem trustScore_sound {ratings : List Int} (range : ∀ r ∈ ratings, 1 ≤ r ∧ r ≤ 5) :
    Sound ratings where
  unordered others same := of_perm same
  counts := by
    rw [of_eq]
    exact distribution_counts range
  weights := by
    rw [of_eq]
    exact distribution_weights range
  score := by
    rw [of_eq]
    obtain ⟨low, high⟩ := unrounded_between range
    exact_mod_cast @oneDecimal_between 0 100 _ (by exact_mod_cast low) (by exact_mod_cast high)
  average some := by
    rw [of_eq]
    obtain ⟨low, high⟩ := mean_between range some
    exact_mod_cast @oneDecimal_between 1 5 _ (by exact_mod_cast low) (by exact_mod_cast high)
  raised before old after new same higher := by
    subst same
    rw [of_eq, of_eq]
    have means := @mean_raised before after old new higher
    exact ⟨oneDecimal_mono (unrounded_mono means (by simp)), oneDecimal_mono means⟩
  joined rating good others same := by
    rw [of_perm same, of_eq, of_eq]
    exact oneDecimal_mono (unrounded_mono (mean_joined good) (Nat.le_succ _))

/-- Two reviews, of 5 and of 2. -/
theorem trustScore_sound_two : TrustScore.Sound [5, 2] :=
  trustScore_sound (by decide)

end SecondhandApi
