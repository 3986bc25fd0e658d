import Mathlib.Data.List.Basic

/-! Runs of a deterministic step function over a list of inputs: the states visited,
conditions that every step meets, and the induction rules that pass from one step to
the whole run. -/
namespace Interleaving

variable {S A : Type} (step : S → A → S)

def run (s : S) (as : List A) : S := as.foldl step s

@[simp] theorem run_nil (s : S) : run step s [] = s := rfl
@[simp] theorem run_cons (s : S) (a : A) (as : List A) :
    run step s (a :: as) = run step (step s a) as := rfl

theorem run_append (s : S) (as bs : List A) :
    run step s (as ++ bs) = run step (run step s as) bs := List.foldl_append ..

/-- Every state of the run, the first and the last included. -/
def visited (s : S) : List A → List S
  | [] => [s]
  | a :: as => s :: visited (step s a) as

theorem run_mem_visited (s : S) (as : List A) : run step s as ∈ visited step s as := by
  induction as generalizing s with
  | nil => exact List.mem_singleton_self s
  | cons a as ih => exact List.mem_cons_of_mem _ (ih _)

theorem visited_snoc (s : S) (as : List A) (a : A) :
    visited step s (as ++ [a]) = visited step s as ++ [step (run step s as) a] := by
  induction as generalizing s with
  | nil => rfl
  | cons b as ih => exact congrArg (s :: ·) (ih _)

theorem last_mem_visited (s : S) (as : List A) (a : A) :
    step (run step s as) a ∈ visited step s (as ++ [a]) := by
  have last := run_mem_visited step s (as ++ [a])
  rwa [run_append] at last

/-- A state that was visited is one that a first part of the run comes to. -/
theorem visited_split {s t : S} {as : List A} (h : t ∈ visited step s as) :
    ∃ before after, as = before ++ after ∧ t = run step s before := by
  induction as generalizing s with
  | nil => exact ⟨[], [], rfl, List.mem_singleton.mp h⟩
  | cons a as ih =>
    rcases List.mem_cons.mp h with rfl | later
    · exact ⟨[], a :: as, rfl, rfl⟩
    · obtain ⟨before, after, rfl, rfl⟩ := ih later
      exact ⟨a :: before, after, rfl, rfl⟩

/-- Every step of the run, taken in the state it is taken in, satisfies `P`. -/
def Along (P : S → A → Prop) : S → List A → Prop
  | _, [] => True
  | s, a :: as => P s a ∧ Along P (step s a) as

instance Along.decidable (P : S → A → Prop) [∀ s a, Decidable (P s a)] :
    ∀ (as : List A) (s : S), Decidable (Along step P s as)
  | [], _ => .isTrue trivial
  | a :: as, s =>
    haveI := Along.decidable P as (step s a)
    inferInstanceAs (Decidable (_ ∧ _))

variable {step}

theorem Along.mono {P Q : S → A → Prop} (imp : ∀ s a, P s a → Q s a) {s : S} {as : List A}
    (h : Along step P s as) : Along step Q s as := by
  induction as generalizing s with
  | nil => trivial
  | cons a as ih => exact ⟨imp _ _ h.1, ih h.2⟩

theorem Along.and {P Q : S → A → Prop} {s : S} {as : List A}
    (hp : Along step P s as) (hq : Along step Q s as) :
    Along step (fun s a => P s a ∧ Q s a) s as := by
  induction as generalizing s with
  | nil => trivial
  | cons a as ih => exact ⟨⟨hp.1, hq.1⟩, ih hp.2 hq.2⟩

theorem along_append {P : S → A → Prop} {s : S} {as bs : List A} :
    Along step P s (as ++ bs) ↔ Along step P s as ∧ Along step P (run step s as) bs := by
  induction as generalizing s with
  | nil => exact ⟨fun h => ⟨trivial, h⟩, fun h => h.2⟩
  | cons a as ih =>
    rw [List.cons_append, run_cons]
    exact ⟨fun h => ⟨⟨h.1, (ih.mp h.2).1⟩, (ih.mp h.2).2⟩, fun h => ⟨h.1.1, ih.mpr ⟨h.1.2, h.2⟩⟩⟩

/-- A condition on every step, step by step. -/
theorem along_iff_at {P : S → A → Prop} {s : S} {as : List A} :
    Along step P s as ↔ ∀ before a after, as = before ++ a :: after → P (run step s before) a := by
  constructor
  · rintro h before a after rfl
    exact (along_append.mp h).2.1
  · intro h
    induction as generalizing s with
    | nil => trivial
    | cons a as ih =>
      refine ⟨h [] a as rfl, ih (fun before b after split => ?_)⟩
      exact h (a :: before) b after (by rw [split, List.cons_append])

theorem along_of_forall {P : A → Prop} {s : S} {as : List A} (h : ∀ a ∈ as, P a) :
    Along step (fun _ a => P a) s as := by
  induction as generalizing s with
  | nil => trivial
  | cons a as ih =>
    exact ⟨h a List.mem_cons_self, ih (fun b hb => h b (List.mem_cons_of_mem _ hb))⟩

section
variable {I : S → Prop} {ok : S → A → Prop} (preserves : ∀ s a, I s → ok s a → I (step s a))
include preserves

/-- The invariant rule, at the end of the run and at every state of it. -/
theorem run_invariant {s : S} (initial : I s) {as : List A} (h : Along step ok s as) :
    I (run step s as) := by
  induction as generalizing s with
  | nil => exact initial
  | cons a as ih => exact ih (preserves s a initial h.1) h.2

theorem visited_invariant {s : S} (initial : I s) {as : List A} (h : Along step ok s as) :
    ∀ t ∈ visited step s as, I t := by
  induction as generalizing s with
  | nil => intro t ht; exact List.mem_singleton.mp ht ▸ initial
  | cons a as ih =>
    intro t ht
    rcases List.mem_cons.mp ht with rfl | ht
    · exact initial
    · exact ih (preserves s a initial h.1) h.2 t ht

/-- What an invariant gives for single steps holds along the run. -/
theorem along_of_invariant {P : S → A → Prop} (use : ∀ s a, I s → ok s a → P s a)
    {s : S} (initial : I s) {as : List A} (h : Along step ok s as) : Along step P s as := by
  induction as generalizing s with
  | nil => trivial
  | cons a as ih => exact ⟨use s a initial h.1, ih (preserves s a initial h.1) h.2⟩

end

/-- What every step keeps, every run keeps. -/
theorem run_keeps {I : S → Prop} (keeps : ∀ s a, I s → I (step s a)) {s : S} (initial : I s)
    (as : List A) : I (run step s as) :=
  run_invariant (fun s a h _ => keeps s a h) initial
    (along_of_forall (P := fun _ => True) (fun _ _ => trivial))

/-- What holds of every state visited holds after every step. -/
theorem along_of_visited {P : S → Prop} {s : S} {as : List A}
    (h : ∀ t ∈ visited step s as, P t) : Along step (fun s a => P (step s a)) s as := by
  induction as generalizing s with
  | nil => trivial
  | cons a as ih =>
    have next : step s a ∈ visited step (step s a) as := by cases as <;> simp [visited]
    exact ⟨h _ (List.mem_cons_of_mem _ next), ih (fun t ht => h t (List.mem_cons_of_mem _ ht))⟩

/-- An exact condition: as long as it is met the invariant gives `good`, and the first
step that does not meet it leaves `good`. -/
theorem always_iff_along_within {I : S → Prop} {scope ok : S → A → Prop} {good : S → Prop}
    (preserves : ∀ s a, I s → scope s a → ok s a → I (step s a)) (holds : ∀ s, I s → good s)
    (breaks : ∀ s a, I s → scope s a → ¬ ok s a → ¬ good (step s a)) {s : S} (initial : I s)
    {as : List A} (inScope : Along step scope s as) :
    (∀ t ∈ visited step s as, good t) ↔ Along step ok s as := by
  constructor
  · intro always
    induction as generalizing s with
    | nil => trivial
    | cons a as ih =>
      have next : step s a ∈ visited step (step s a) as := by cases as <;> simp [visited]
      have met : ok s a := by
        by_contra h
        exact breaks s a initial inScope.1 h (always _ (List.mem_cons_of_mem _ next))
      exact ⟨met, ih (preserves s a initial inScope.1 met) inScope.2
        (fun t ht => always t (List.mem_cons_of_mem _ ht))⟩
  · intro h t ht
    have kept := visited_invariant (fun s a hs both => preserves s a hs both.1 both.2) initial
      (inScope.and h)
    exact holds t (kept t ht)

/-- The same where the scope is one of single inputs. -/
theorem always_iff_along {I : S → Prop} {scope : A → Prop} {ok : S → A → Prop} {good : S → Prop}
    (preserves : ∀ s a, I s → scope a → ok s a → I (step s a)) (holds : ∀ s, I s → good s)
    (breaks : ∀ s a, I s → scope a → ¬ ok s a → ¬ good (step s a)) {s : S} (initial : I s)
    {as : List A} (inScope : ∀ a ∈ as, scope a) :
    (∀ t ∈ visited step s as, good t) ↔ Along step ok s as :=
  always_iff_along_within preserves holds breaks initial (along_of_forall inScope)

/-- The condition is needed for the end of the run: a step that does not meet it loses what no
later step brings back. -/
theorem along_of_run {J L : S → Prop} {ok : S → A → Prop} (kept : ∀ s a, J s → J (step s a))
    (breaks : ∀ s a, J s → ¬ ok s a → L (step s a))
    (stays : ∀ s a, J s → L s → L (step s a)) {s : S} (initial : J s) {as : List A}
    (fine : ¬ L (run step s as)) : Along step ok s as := by
  induction as generalizing s with
  | nil => trivial
  | cons a as ih =>
    refine ⟨?_, ih (kept s a initial) fine⟩
    by_contra broken
    have all : ∀ b ∈ as, True := fun _ _ => trivial
    have never := run_invariant (I := fun t => J t ∧ L t)
      (fun t a h _ => ⟨kept t a h.1, stays t a h.1 h.2⟩) ⟨kept s a initial, breaks s a initial broken⟩
      (along_of_forall all)
    exact fine never.2

/-- An invariant may also look at the states visited so far. -/
theorem history_invariant {I : List S → S → Prop} {ok : S → A → Prop}
    (preserves : ∀ past s a, I past s → ok s a → I (past ++ [step s a]) (step s a))
    {s : S} (initial : I [s] s) {as : List A} (h : Along step ok s as) :
    I (visited step s as) (run step s as) := by
  suffices general : ∀ (as : List A) (past : List S) (s : S), I (past ++ [s]) s →
      Along step ok s as → I (past ++ visited step s as) (run step s as) by
    simpa using general as [] s (by simpa using initial) h
  intro as
  induction as with
  | nil => intro past s hs _; exact hs
  | cons a as ih =>
    intro past s hs h
    have next := ih (past ++ [s]) (step s a) (preserves _ s a hs h.1) h.2
    simpa [visited] using next

/-! What has been going on since something was the case. -/

section
variable {P : List A → Prop} {Q : A → Prop}

/-- `P` held of some first part of the list, and every entry since satisfies `Q`. -/
def Since (P : List A → Prop) (Q : A → Prop) (as : List A) : Prop :=
  ∃ before after, as = before ++ after ∧ P before ∧ ∀ a ∈ after, Q a

theorem since_now {as : List A} (h : P as) : Since P Q as :=
  ⟨as, [], (List.append_nil as).symm, h, fun _ none => by cases none⟩

theorem since_snoc {as : List A} {a : A} :
    Since P Q (as ++ [a]) ↔ P (as ++ [a]) ∨ Q a ∧ Since P Q as := by
  constructor
  · rintro ⟨before, after, split, held, all⟩
    rcases List.eq_nil_or_concat after with rfl | ⟨after, b, rfl⟩
    · rw [List.append_nil] at split
      exact Or.inl (split ▸ held)
    · rw [List.concat_eq_append, ← List.append_assoc] at split
      obtain ⟨rfl, same⟩ := List.append_inj' split rfl
      cases same
      refine Or.inr ⟨all a (by simp), before, after, rfl, held, fun b member => all b ?_⟩
      simp [member]
  · rintro (held | ⟨last, before, after, rfl, held, all⟩)
    · exact since_now held
    · refine ⟨before, after ++ [a], List.append_assoc _ _ _, held, fun b member => ?_⟩
      rcases List.mem_append.mp member with old | new
      · exact all b old
      · exact List.mem_singleton.mp new ▸ last

end

end Interleaving
