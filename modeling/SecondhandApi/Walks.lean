/-! Places with a link to the next one, followed from a first place until there is no link. -/
namespace Walks

variable {A : Type} (next : A → Option A)

/-- The places visited from `a` on; `none` if a link is left after `fuel` of them. -/
def follow : Nat → A → Option (List A)
  | 0, _ => none
  | fuel + 1, a =>
    match next a with
    | none => some [a]
    | some b => (follow fuel b).map (a :: ·)

inductive Walk : A → List A → Prop where
  | last {a : A} (none : next a = none) : Walk a [a]
  | link {a b : A} {l : List A} (step : next a = some b) (rest : Walk b l) : Walk a (a :: l)

variable {next} {a : A} {l : List A}

/-- A walk ends, and following the links finds it as soon as there is fuel for its places. -/
theorem Walk.follow (walk : Walk next a l) {fuel : Nat} (enough : l.length ≤ fuel) :
    follow next fuel a = some l := by
  induction walk generalizing fuel with
  | last none =>
    cases fuel with
    | zero => simp at enough
    | succ fuel => simp [Walks.follow, none]
  | link step rest ih =>
    cases fuel with
    | zero => simp at enough
    | succ fuel =>
      have fits := ih (Nat.le_of_succ_le_succ enough)
      simp [Walks.follow, step, fits]

end Walks
