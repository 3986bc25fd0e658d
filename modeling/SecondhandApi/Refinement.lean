import SecondhandApi.Interleaving.Runs

/-! A machine that answers each command and another that does the same in other terms: from one
command to all the answers of a run. -/
namespace Refinement
open Interleaving

variable {S T Q A B C D E : Type}

/-- Both end in the same error, or with results that are related. -/
inductive Both (R : A → B → Prop) : Except E A → Except E B → Prop
  | ok {a b} (related : R a b) : Both R (.ok a) (.ok b)
  | error (e) : Both R (.error e) (.error e)

theorem Both.bind {R : A → B → Prop} {P : C → D → Prop} {x : Except E A} {y : Except E B}
    {f : A → Except E C} {g : B → Except E D} (h : Both R x y)
    (rest : ∀ a b, R a b → Both P (f a) (g b)) : Both P (x >>= f) (y >>= g) := by
  cases h with
  | ok related => exact rest _ _ related
  | error e => exact .error e

variable (serve : S → Q → S × A) (specified : T → Q → T × B)

/-- The state after a command, without the answer. -/
def after (s : S) (q : Q) : S := (serve s q).1

def replies : S → List Q → List A
  | _, [] => []
  | s, q :: qs => (serve s q).2 :: replies (serve s q).1 qs

/-- Commands that are `allowed` are answered alike in states that are related, and lead to such
states again. -/
structure Simulates (allowed : Q → Prop) (related : S → T → Prop) (alike : A → B → Prop) : Prop where
  answer : ∀ {s t q}, allowed q → related s t → alike (serve s q).2 (specified t q).2
  next : ∀ {s t q}, allowed q → related s t → related (serve s q).1 (specified t q).1

variable {serve specified} {allowed : Q → Prop} {related : S → T → Prop} {alike : A → B → Prop}

theorem Simulates.replies (sim : Simulates serve specified allowed related alike) {s : S} {t : T}
    {qs : List Q} (all : ∀ q ∈ qs, allowed q) (h : related s t) :
    List.Forall₂ alike (replies serve s qs) (replies specified t qs) := by
  induction qs generalizing s t with
  | nil => exact .nil
  | cons q qs ih =>
    obtain ⟨first, all⟩ := List.forall_mem_cons.mp all
    exact .cons (sim.answer first h) (ih all (sim.next first h))

end Refinement
