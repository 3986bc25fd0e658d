import Mathlib.Logic.Relation

/-! Forests, given by the relation from a node to what stands right above it: no node is
above itself. What becomes of that when a node is put under another one, when a node is
added and when some nodes lose what is above them. -/
namespace Forest
open Relation

variable {K : Type} {up up' : K → K → Prop}

def Acyclic (up : K → K → Prop) : Prop := ∀ k, ¬ TransGen up k k

theorem Acyclic.mono (h : Acyclic up) (sub : ∀ a b, up' a b → up a b) : Acyclic up' :=
  fun k cycle => h k (TransGen.mono sub _ _ cycle)

/-- No cycle where the way up is a way to smaller numbers. -/
theorem acyclic_of_depth (depth : K → Nat) (less : ∀ a b, up a b → depth b < depth a) :
    Acyclic up := by
  have down {a b : K} (way : TransGen up a b) : depth b < depth a := by
    induction way with
    | single edge => exact less _ _ edge
    | tail _ edge ih => exact Nat.lt_trans (less _ _ edge) ih
  exact fun k cycle => Nat.lt_irrefl _ (down cycle)

/-- A way up that does not start at `x` and never comes to it uses the other nodes only. -/
theorem way_around {x a b : K} (others : ∀ a b, a ≠ x → up' a b → up a b) (below : ∀ a, ¬ up' a x)
    (start : a ≠ x) (way : TransGen up' a b) : TransGen up a b ∧ b ≠ x := by
  induction way with
  | single edge => exact ⟨.single (others _ _ start edge), fun same => below _ (same ▸ edge)⟩
  | tail _ edge ih => exact ⟨ih.1.tail (others _ _ ih.2 edge), fun same => below _ (same ▸ edge)⟩

/-- A new node that nothing stands under. -/
theorem Acyclic.leaf (h : Acyclic up) {x : K} (others : ∀ a b, a ≠ x → up' a b → up a b)
    (below : ∀ a, ¬ up' a x) : Acyclic up' := by
  intro k cycle
  by_cases same : k = x
  · subst same
    obtain ⟨a, _, edge⟩ := TransGen.tail'_iff.mp cycle
    exact below a edge
  · exact h k (way_around others below same cycle).1

/-! A node `x` that is put under `p`. -/

section
variable {x p : K}

/-- A way to `x` that has not come through `x` has only used other nodes. -/
theorem way_to (others : ∀ a b, a ≠ x → up a b → up' a b) {a : K} (way : ReflTransGen up a x) :
    ReflTransGen up' a x := by
  induction way using ReflTransGen.head_induction_on with
  | refl => exact .refl
  | @head a b edge _ ih =>
    by_cases same : a = x
    · rw [same]
    · exact .head (others a b same edge) ih

/-- A way up is an old one, or it comes through `p`. -/
theorem way_cases (moved : ∀ b, up' x b → b = p) (others : ∀ a b, a ≠ x → up' a b → up a b)
    {a b : K} (way : TransGen up' a b) : TransGen up a b ∨ ReflTransGen up' p b := by
  have step {c d : K} (edge : up' c d) : up c d ∨ d = p := by
    by_cases same : c = x
    · exact Or.inr (moved d (same ▸ edge))
    · exact Or.inl (others c d same edge)
  induction way with
  | single edge =>
    rcases step edge with old | rfl
    · exact Or.inl (.single old)
    · exact Or.inr .refl
  | tail _ edge ih =>
    rcases ih with old | after
    · rcases step edge with edge | rfl
      · exact Or.inl (old.tail edge)
      · exact Or.inr .refl
    · exact Or.inr (after.tail edge)

/-- Where `x` is not above `p`, what stands above `p` is what stood there. -/
theorem way_up (others : ∀ a b, a ≠ x → up' a b → up a b) (apart : ¬ ReflTransGen up p x)
    {a b : K} (above : ReflTransGen up p a) (way : TransGen up' a b) : TransGen up a b := by
  have step {c d : K} (above : ReflTransGen up p c) (edge : up' c d) : up c d :=
    others c d (fun same => apart (same ▸ above)) edge
  induction way with
  | single edge => exact .single (step above edge)
  | tail _ edge ih => exact ih.tail (step (above.trans ih.to_reflTransGen) edge)

/-- Putting `x` under `p` closes a cycle exactly when `x` is `p` or above it. -/
theorem acyclic_moved_iff (h : Acyclic up) (moved : ∀ b, up' x b ↔ b = p)
    (others : ∀ a b, a ≠ x → (up' a b ↔ up a b)) : Acyclic up' ↔ ¬ ReflTransGen up p x := by
  constructor
  · intro acyclic way
    have back : ReflTransGen up' p x := way_to (fun a b apart => (others a b apart).mpr) way
    exact acyclic x (TransGen.head' ((moved p).mpr rfl) back)
  · intro apart k cycle
    have old {a b : K} (other : a ≠ x) : up' a b → up a b := (others a b other).mp
    rcases way_cases (fun b => (moved b).mp) (fun _ _ => old) cycle with before | after
    · exact h k before
    · have above : ReflTransGen up p k := by
        rcases reflTransGen_iff_eq_or_transGen.mp after with rfl | way
        · exact .refl
        · exact (way_up (fun _ _ => old) apart .refl way).to_reflTransGen
      exact h k (way_up (fun _ _ => old) apart above cycle)

end

/-! A walk down from a node, through everything that stands right below it. -/

/-- The walk has ended after as many levels. -/
def Ends (up : K → K → Prop) : Nat → K → Prop
  | 0, _ => False
  | levels + 1, k => ∀ child, up child k → Ends up levels child

/-- Without a cycle, there is more below a node than below its children, so a walk ends when it
may go through more levels than there are nodes with a node above them. -/
theorem Acyclic.ends (h : Acyclic up) {nodes : List K} (known : ∀ a b, up a b → a ∈ nodes)
    {levels : Nat} (enough : nodes.length < levels) (k : K) : Ends up levels k := by
  classical
  let below (k : K) : List K := nodes.filter (fun a => TransGen up a k)
  have fewer : ∀ levels k, (below k).length < levels → Ends up levels k := by
    intro levels
    induction levels with
    | zero => exact fun k few => absurd few (Nat.not_lt_zero _)
    | succ levels ih =>
      intro k few child edge
      have part : below child = (below k).filter (fun a => TransGen up a child) := by
        rw [List.filter_filter]
        refine List.filter_congr (fun a _ => ?_)
        have on : TransGen up a child → TransGen up a k := fun way => way.tail edge
        by_cases way : TransGen up a child
        · simp [way, on way]
        · simp [way]
      have less : (below child).length < (below k).length := by
        rw [part, List.length_filter_lt_length_iff_exists]
        refine ⟨child, List.mem_filter.mpr ⟨known child k edge, ?_⟩, ?_⟩
        · exact decide_eq_true (.single edge)
        · exact fun cycle => h child (of_decide_eq_true cycle)
      exact ih child (by omega)
  exact fewer levels k (Nat.lt_of_le_of_lt (List.length_filter_le _ _) enough)

end Forest
