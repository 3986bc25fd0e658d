import SecondhandApi.Interleaving.Pool

/-! One request among others. Between two of its calls the store may change, but only as the others
are relied upon to change it; what holds of every answer under that assumption holds of the answer
that the request gets in a pool. -/
namespace Interleaving

variable {S Q C : Type} {R : C → Type} {E A B : Type}

/-- The request may end with this result when it goes on in this store. -/
inductive MayAnswer (exec : (c : C) → S → S × R c) (rely : S → S → Prop) :
    Request C R E A → S → Except E A → Prop where
  | done {a s} : MayAnswer exec rely (.done a) s (.ok a)
  | fail {e s} : MayAnswer exec rely (.fail e) s (.error e)
  | call {c next s r} (s' : S) (others : rely s s')
      (rest : MayAnswer exec rely (next (exec c s').2) (exec c s').1 r) :
      MayAnswer exec rely (.call c next) s r

namespace MayAnswer

variable {exec : (c : C) → S → S × R c} {rely : S → S → Prop}

/-- What the others do before the next call counts as relied upon. -/
theorem earlier (trans : ∀ s s' s'', rely s s' → rely s' s'' → rely s s'') {p : Request C R E A}
    {s s' : S} (others : rely s s') {r : Except E A} (h : MayAnswer exec rely p s' r) :
    MayAnswer exec rely p s r := by
  cases h with
  | done => exact .done
  | fail => exact .fail
  | call s'' later rest => exact .call s'' (trans _ _ _ others later) rest

theorem of_map {f : B → A} {p : Request C R E B} {s : S} {a : A}
    (h : MayAnswer exec rely (f <$> p) s (.ok a)) :
    ∃ b, MayAnswer exec rely p s (.ok b) ∧ f b = a := by
  induction p generalizing s with
  | done b =>
    cases h
    exact ⟨b, .done, rfl⟩
  | fail e => cases h
  | call c next ih =>
    cases h with
    | call s' others rest =>
      obtain ⟨b, answers, same⟩ := ih _ rest
      exact ⟨b, .call s' others answers, same⟩

end MayAnswer

namespace Service

variable (svc : Service S Q C R E A) {rely : S → S → Prop}

/-- The request at place `i` may answer from store `s` on whatever it may answer from here on. -/
def OnItsWay (rely : S → S → Prop) (op : Q) (s : S) (i : Nat) (p : Pool S Q C R E A) : Prop :=
  ∃ t, p.threads[i]? = some t ∧ t.op = op ∧ ∀ r, MayAnswer svc.exec rely t.rest p.store r →
    MayAnswer svc.exec rely (svc.program op) s r

/-- A turn is relied upon if it is one of a request that does to the store what is relied upon. -/
theorem onItsWay_step (refl : ∀ s, rely s s)
    (trans : ∀ s s' s'', rely s s' → rely s' s'' → rely s s'') {op : Q} {s : S} {i : Nat}
    {p : Pool S Q C R E A} (h : svc.OnItsWay rely op s i p) (turn : Turn Q)
    (others : rely p.store (svc.step p turn).store) :
    svc.OnItsWay rely op s i (svc.step p turn) := by
  obtain ⟨t, ht, same, answers⟩ := h
  have later (u : Thread Q C R E A) (hu : (svc.step p turn).threads[i]? = some u)
      (unmoved : u.op = t.op ∧ u.rest = t.rest) : svc.OnItsWay rely op s i (svc.step p turn) :=
    ⟨u, hu, unmoved.1.trans same, fun r h => answers r (MayAnswer.earlier trans others
      (unmoved.2 ▸ h))⟩
  rcases svc.step_cases p turn with hs | ⟨op', _, hs⟩ | ⟨j, u, c, next, _, hu, hr, hs⟩
  · exact later t (by rw [hs]; exact ht) ⟨rfl, rfl⟩
  · refine later t ?_ ⟨rfl, rfl⟩
    rw [hs, List.getElem?_append_left (List.getElem?_eq_some_iff.mp ht).1]
    exact ht
  · by_cases here : j = i
    · subst here
      cases hu.symm.trans ht
      refine ⟨svc.answered t c next p.store, ?_, same, fun r rest => answers r ?_⟩
      · rw [hs, List.getElem?_set_self (List.getElem?_eq_some_iff.mp ht).1]
      · rw [hs] at rest
        rw [hr]
        exact .call p.store (refl _) rest
    · refine later t ?_ ⟨rfl, rfl⟩
      rw [hs, List.getElem?_set_ne here]
      exact ht

/-- In a pool whose turns do what is relied upon, a request that has arrived ends as it may end by
itself. -/
theorem answers_of_run (rely : S → S → Prop) (refl : ∀ s, rely s s)
    (trans : ∀ s s' s'', rely s s' → rely s' s'' → rely s s'') {op : Q} {p : Pool S Q C R E A}
    {after : List (Turn Q)}
    (others : Along svc.step (fun q turn => rely q.store (svc.step q turn).store)
      (svc.step p (.arrive op)) after) {t : Thread Q C R E A} {a : A}
    (ht : (run svc.step p (.arrive op :: after)).threads[p.threads.length]? = some t)
    (ended : t.rest = .done a) : MayAnswer svc.exec rely (svc.program op) p.store (.ok a) := by
  have arrived : svc.OnItsWay rely op p.store p.threads.length (svc.step p (.arrive op)) := by
    refine ⟨svc.newcomer op, ?_, rfl, fun r h => h⟩
    simp [step]
  have way : svc.OnItsWay rely op p.store p.threads.length
      (run svc.step (svc.step p (.arrive op)) after) :=
    run_invariant (I := svc.OnItsWay rely op p.store p.threads.length)
      (fun q turn h relied => svc.onItsWay_step refl trans h turn relied) arrived others
  obtain ⟨t', ht', -, answers⟩ := way
  cases ht'.symm.trans ht
  exact answers _ (ended ▸ .done)

end Service

end Interleaving
