import Mathlib.Data.List.Basic

/-! Attempts that are made one after another, as long as they are to be made again and retries are
left. -/
namespace Retries

/-- Of at most `n` retries, `k` are made when `again i` says that attempt `i` calls for another. -/
structure Last (again : Nat → Prop) (n k : Nat) : Prop where
  bound : k ≤ n
  before : ∀ i < k, again i
  ends : again k → k = n

namespace Last

variable {again : Nat → Prop} {n k : Nat}

theorem of_stop (stop : ¬again 0) (n : Nat) : Last again n 0 :=
  ⟨Nat.zero_le n, fun i below => absurd below (Nat.not_lt_zero i), fun more => absurd more stop⟩

theorem none_left : Last again 0 0 :=
  ⟨Nat.le_refl 0, fun i below => absurd below (Nat.not_lt_zero i), fun _ => rfl⟩

theorem retry (first : again 0) (rest : Last (fun i => again (i + 1)) n k) :
    Last again (n + 1) (k + 1) where
  bound := Nat.succ_le_succ rest.bound
  before i below := by
    cases i with
    | zero => exact first
    | succ i => exact rest.before i (Nat.lt_of_succ_lt_succ below)
  ends more := congrArg (· + 1) (rest.ends more)

/-- The attempts from number `m` on, one of them made. -/
theorem retry_from (again : Nat → Prop) {m : Nat} (first : again m)
    (rest : Last (fun i => again (m + 1 + i)) n k) :
    Last (fun i => again (m + i)) (n + 1) (k + 1) := by
  refine retry first ?_
  have shift : (fun i => again (m + 1 + i)) = fun i => again (m + (i + 1)) :=
    funext fun i => by rw [Nat.add_right_comm, Nat.add_assoc]
  rwa [← shift]

variable (last : Last again n k)
include last

theorem eq_of {l : Nat} (bound : l ≤ n) (before : ∀ i < l, again i) (ends : again l → l = n) :
    k = l := by
  rcases Nat.lt_trichotomy k l with less | same | more
  · have := last.ends (before k less)
    omega
  · exact same
  · have := ends (last.before l more)
    have := last.bound
    omega

theorem eq_zero_iff : k = 0 ↔ n = 0 ∨ ¬again 0 := by
  constructor
  · rintro rfl
    by_cases more : again 0
    · exact .inl (last.ends more).symm
    · exact .inr more
  · rintro (none | stop)
    · exact Nat.le_zero.mp (none ▸ last.bound)
    · by_contra made
      exact stop (last.before 0 (Nat.pos_of_ne_zero made))

/-- The last attempt calls for another one only if all that are allowed do. -/
theorem again_iff : again k ↔ ∀ i < n + 1, again i := by
  constructor
  · intro more i below
    have all := last.ends more
    by_cases same : i = k
    · rwa [same]
    · exact last.before i (by omega)
  · intro all
    exact all k (Nat.lt_succ_of_le last.bound)

theorem not_again_iff : ¬again k ↔ ∃ i < n + 1, ¬again i := by
  rw [last.again_iff]
  simp

/-- The attempts end with the first that does not call for another. -/
theorem count_eq {l : Nat} (stop : ¬again l) (first : ∀ i < l, again i) :
    k + 1 = min (l + 1) (n + 1) := by
  by_cases small : l ≤ n
  · have := last.eq_of small first (fun more => absurd more stop)
    omega
  · have := last.eq_of (Nat.le_refl n) (fun i below => first i (by omega)) (fun _ => rfl)
    omega

end Last

/-- The attempts, with a wait after each but the last. -/
def schedule {W : Type} (waits : List W) : List (Option W) :=
  none :: waits.flatMap fun w => [some w, none]

section
variable {W : Type}

theorem schedule_cons (w : W) (waits : List W) :
    schedule (w :: waits) = none :: some w :: schedule waits := rfl

theorem schedule_waits (waits : List W) : (schedule waits).filterMap id = waits := by
  induction waits with
  | nil => rfl
  | cons w waits ih =>
    rw [schedule_cons]
    simpa using ih

theorem schedule_attempts [DecidableEq W] (waits : List W) :
    (schedule waits).count none = waits.length + 1 := by
  induction waits with
  | nil => rfl
  | cons w waits ih =>
    rw [schedule_cons]
    simpa using ih

end

end Retries
