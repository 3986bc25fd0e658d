import Mathlib.Algebra.Order.Ring.Nat
import SecondhandApi.Interleaving.Pool

/-! Answers of one kind, counted over all requests. -/
namespace Interleaving

variable {S Q C : Type} {R : C → Type} {E A : Type}

def tally (f : Answer C R → Bool) (p : Pool S Q C R E A) : Nat :=
  (p.threads.map fun t => t.log.countP f).sum

theorem sum_map_set {B : Type} (f : B → Nat) {l : List B} {i : Nat} {b : B}
    (h : l[i]? = some b) (n : B) : ((l.set i n).map f).sum + f b = (l.map f).sum + f n := by
  induction l generalizing i with
  | nil => cases h
  | cons a l ih =>
    cases i with
    | zero =>
      cases h
      simp only [List.set_cons_zero, List.map_cons, List.sum_cons]
      omega
    | succ i =>
      have rest := ih (i := i) h
      simp only [List.set_cons_succ, List.map_cons, List.sum_cons]
      omega

theorem sum_ite_eq_countP {B : Type} (f : B → Bool) (l : List B) :
    (l.map fun b => if f b then 1 else 0).sum = l.countP f := by
  induction l with
  | nil => rfl
  | cons b l ih =>
    rw [List.map_cons, List.sum_cons, ih, List.countP_cons, Nat.add_comm]

theorem Service.tally_call (svc : Service S Q C R E A) (f : Answer C R → Bool)
    {p : Pool S Q C R E A} {i : Nat} {t : Thread Q C R E A} {c : C} {next : R c → Request C R E A}
    (ht : p.threads[i]? = some t) (hr : t.rest = .call c next) :
    tally f (svc.step p (.call i)) =
      tally f p + if f ⟨c, (svc.exec c p.store).2⟩ then 1 else 0 := by
  have changed := sum_map_set (fun t : Thread Q C R E A => t.log.countP f) ht
    (svc.answered t c next p.store)
  simp only [answered, List.countP_cons] at changed
  rw [svc.step_call ht hr]
  simp only [tally, answered]
  omega

/-- The rule for a store whose content depends on how many answers of each kind were given. -/
theorem Service.tally_step (svc : Service S Q C R E A)
    {I : S → ((Answer C R → Bool) → Nat) → Prop} {p : Pool S Q C R E A}
    (h : I p.store fun f => tally f p) (turn : Turn Q)
    (call : ∀ i t c next, turn = .call i → p.threads[i]? = some t → t.rest = .call c next →
      I (svc.exec c p.store).1
        fun f => tally f p + if f ⟨c, (svc.exec c p.store).2⟩ then 1 else 0) :
    I (svc.step p turn).store fun f => tally f (svc.step p turn) := by
  rcases svc.step_cases p turn with hs | ⟨op, rfl, hs⟩ | ⟨i, t, c, next, called, ht, hr, hs⟩
  · rw [hs]
    exact h
  · have same (f : Answer C R → Bool) : tally f (svc.step p (.arrive op)) = tally f p := by
      simp [hs, tally, newcomer]
    simp only [same]
    rw [hs]
    exact h
  · subst called
    simp only [svc.tally_call _ ht hr]
    rw [svc.step_call ht hr]
    exact call i t c next rfl ht hr

/-! Answers that count as so many each. -/

def total (f : Answer C R → Nat) (p : Pool S Q C R E A) : Nat :=
  (p.threads.map fun t => (t.log.map f).sum).sum

theorem Service.total_call (svc : Service S Q C R E A) (f : Answer C R → Nat)
    {p : Pool S Q C R E A} {i : Nat} {t : Thread Q C R E A} {c : C} {next : R c → Request C R E A}
    (ht : p.threads[i]? = some t) (hr : t.rest = .call c next) :
    total f (svc.step p (.call i)) = total f p + f ⟨c, (svc.exec c p.store).2⟩ := by
  have changed := sum_map_set (fun t : Thread Q C R E A => (t.log.map f).sum) ht
    (svc.answered t c next p.store)
  simp only [answered, List.map_cons, List.sum_cons] at changed
  rw [svc.step_call ht hr]
  simp only [total, answered]
  omega

theorem Service.total_arrive (svc : Service S Q C R E A) (f : Answer C R → Nat)
    (p : Pool S Q C R E A) (op : Q) : total f (svc.step p (.arrive op)) = total f p := by
  simp [total, step, newcomer]

/-- The rule for a store whose content depends on what the answers count as. -/
theorem Service.total_step (svc : Service S Q C R E A) {I : S → ((Answer C R → Nat) → Nat) → Prop}
    {p : Pool S Q C R E A} (h : I p.store fun f => total f p) (turn : Turn Q)
    (call : ∀ i t c next, turn = .call i → p.threads[i]? = some t → t.rest = .call c next →
      I (svc.exec c p.store).1 fun f => total f p + f ⟨c, (svc.exec c p.store).2⟩) :
    I (svc.step p turn).store fun f => total f (svc.step p turn) := by
  rcases svc.step_cases p turn with hs | ⟨op, rfl, hs⟩ | ⟨i, t, c, next, called, ht, hr, hs⟩
  · rw [hs]
    exact h
  · simp only [svc.total_arrive]
    rw [hs]
    exact h
  · subst called
    simp only [svc.total_call _ ht hr]
    rw [svc.step_call ht hr]
    exact call i t c next rfl ht hr

end Interleaving
