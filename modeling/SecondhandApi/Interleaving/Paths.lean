import Mathlib.Data.List.Chain
import Mathlib.Data.List.Induction
import SecondhandApi.Interleaving.Runs

/-! Paths of a graph, and runs whose histories are paths: a history is what an
observation of the state has been along the run, without immediate repeats. -/
namespace Interleaving

variable {S A B : Type} {step : S → A → S}

/-- A list that starts at `start`, moves along `R` and has come to `b`. -/
structure Path (R : B → B → Prop) (start : B) (seen : List B) (b : B) : Prop where
  starts : seen.head? = some start
  moves : seen.IsChain R
  ends : seen.getLast? = some b

theorem Path.snoc {R : B → B → Prop} {start b b' : B} {seen : List B}
    (h : Path R start seen b) (edge : R b b') : Path R start (seen ++ [b']) b' where
  starts := by rw [List.head?_append_of_ne_nil _ (by rintro rfl; cases h.starts)]; exact h.starts
  moves := List.isChain_append.mpr ⟨h.moves, List.isChain_singleton b', by
    intro x hx y hy
    rw [h.ends] at hx
    cases hx
    cases hy
    exact edge⟩
  ends := List.getLast?_concat

/-- Where each value of a line has one way to it, a path to it is that way. -/
theorem Path.unique {R : B → B → Prop} {start : B} {trail : B → Option (List B)}
    (first : trail start = some [start])
    (back : ∀ b b' l, R b b' → trail b' = some l → ∃ l₀, trail b = some l₀ ∧ l = l₀ ++ [b'])
    {seen : List B} : ∀ {b : B} {l : List B}, Path R start seen b → trail b = some l → seen = l := by
  induction seen using List.reverseRecOn with
  | nil => intro b l h _; cases h.starts
  | append_singleton seen c ih =>
    intro b l h line
    have last : c = b := Option.some.inj (List.getLast?_concat.symm.trans h.ends)
    subst last
    cases hs : seen.getLast? with
    | none =>
      have empty : seen = [] := List.getLast?_eq_none_iff.mp hs
      subst empty
      cases h.starts
      exact Option.some.inj (first.symm.trans line)
    | some d =>
      have chain := List.isChain_append.mp h.moves
      have edge : R d c := chain.2.2 d hs c rfl
      obtain ⟨l₀, before, rfl⟩ := back d c l edge line
      have nonempty : seen ≠ [] := by rintro rfl; cases hs
      have path : Path R start seen d :=
        ⟨(List.head?_append_of_ne_nil seen nonempty).symm.trans h.starts, chain.1, hs⟩
      rw [ih path before]

section
variable [DecidableEq B]

def note (seen : List B) : Option B → List B
  | none => seen
  | some b => if seen.getLast? = some b then seen else seen ++ [b]

def history (f : S → Option B) (states : List S) : List B :=
  states.foldl (fun seen s => note seen (f s)) []

theorem history_snoc (f : S → Option B) (states : List S) (s : S) :
    history f (states ++ [s]) = note (history f states) (f s) := by
  simp only [history, List.foldl_append, List.foldl_cons, List.foldl_nil]

/-- As long as a first value is `start` and later ones follow `R`, the history is a path. -/
theorem history_path {f : S → Option B} {ok : S → A → Prop} {R : B → B → Prop} {start : B}
    (moves : ∀ s a b', ok s a → f (step s a) = some b' →
      f s = none ∧ b' = start ∨ ∃ b, f s = some b ∧ (b' = b ∨ R b b'))
    (stays : ∀ s a, ok s a → f (step s a) = none → f s = none)
    {s : S} (initial : f s = none) {as : List A} (h : Along step ok s as) {b : B}
    (now : f (run step s as) = some b) : Path R start (history f (visited step s as)) b := by
  have kept := history_invariant
    (I := fun past t => (f t = none → history f past = []) ∧
      ∀ b, f t = some b → Path R start (history f past) b)
    (fun past s a both here => by
      rw [history_snoc]
      refine ⟨fun none => ?_, fun b' now => ?_⟩
      · rw [none]
        exact both.1 (stays s a here none)
      · rw [now]
        rcases moves s a b' here now with ⟨absent, rfl⟩ | ⟨b, was, rfl | edge⟩
        · rw [both.1 absent]
          exact ⟨rfl, List.isChain_singleton _, rfl⟩
        · have path := both.2 b' was
          have same : note (history f past) (some b') = history f past := if_pos path.ends
          rw [same]
          exact path
        · have path := both.2 b was
          by_cases same : b' = b
          · subst same
            have same : note (history f past) (some b') = history f past := if_pos path.ends
            rw [same]
            exact path
          · have grown : note (history f past) (some b') = history f past ++ [b'] :=
              if_neg (by rw [path.ends]; exact fun h => same (Option.some.inj h).symm)
            rw [grown]
            exact path.snoc edge)
    (s := s) ⟨fun _ => by simp [history, initial, note], fun b now => by
      cases initial.symm.trans now⟩ h
  exact kept.2 b now

end

end Interleaving
