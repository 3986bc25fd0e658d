import Mathlib.Data.List.Induction
import SecondhandApi.Interleaving.Pool

/-! Requests that go through phases. Where what is left of a request is one of a few trees, a
pool can be told by the phase that each request is in. -/
namespace Interleaving

variable {S Q C : Type} {R : C → Type} {E A F : Type}

/-- The phases of the requests of a service: what is left in each, and which one an answer
leads to. -/
structure Phases (svc : Service S Q C R E A) (F : Type) where
  first : F
  rest : Q → F → Request C R E A
  after : Q → F → S → F
  starts : ∀ op, svc.program op = rest op first
  moves : ∀ op f c next, rest op f = .call c next → ∀ s,
    next (svc.exec c s).2 = rest op (after op f s)

/-- A store, and the requests with their phases in the order in which they arrived. -/
structure Crew (S Q F : Type) where
  store : S
  members : List (Q × F)

namespace Phases

variable {svc : Service S Q C R E A} (ph : Phases svc F)

def step (a : Crew S Q F) : Turn Q → Crew S Q F
  | .arrive op => ⟨a.store, a.members ++ [(op, ph.first)]⟩
  | .call i =>
    match a.members[i]? with
    | none => a
    | some m =>
      match ph.rest m.1 m.2 with
      | .call c _ => ⟨(svc.exec c a.store).1, a.members.set i (m.1, ph.after m.1 m.2 a.store)⟩
      | _ => a

theorem step_call {a : Crew S Q F} {i : Nat} {op : Q} {f : F} {c : C} {next : R c → Request C R E A}
    (hm : a.members[i]? = some (op, f)) (hr : ph.rest op f = .call c next) :
    ph.step a (.call i) = ⟨(svc.exec c a.store).1, a.members.set i (op, ph.after op f a.store)⟩ := by
  simp only [step, hm, hr]

/-- Everything a turn can do. -/
theorem step_cases (a : Crew S Q F) (turn : Turn Q) :
    ph.step a turn = a ∨
    (∃ op, turn = .arrive op ∧ ph.step a turn = ⟨a.store, a.members ++ [(op, ph.first)]⟩) ∨
    (∃ i op f c next, turn = .call i ∧ a.members[i]? = some (op, f) ∧ ph.rest op f = .call c next ∧
      ph.step a turn = ⟨(svc.exec c a.store).1, a.members.set i (op, ph.after op f a.store)⟩) := by
  cases turn with
  | arrive op => exact Or.inr (Or.inl ⟨op, rfl, rfl⟩)
  | call i =>
    cases hm : a.members[i]? with
    | none => left; simp only [step, hm]
    | some m =>
      cases hr : ph.rest m.1 m.2 with
      | done r => left; simp only [step, hm, hr]
      | fail e => left; simp only [step, hm, hr]
      | call c next =>
        exact Or.inr (Or.inr ⟨i, m.1, m.2, c, next, rfl, hm, hr, ph.step_call hm hr⟩)

/-- The pool shows the store and, of each request, the operation and what is left of it. -/
structure Shown (p : Pool S Q C R E A) (a : Crew S Q F) : Prop where
  store : p.store = a.store
  threads : p.threads.map (fun t => (t.op, t.rest)) =
    a.members.map (fun m => (m.1, ph.rest m.1 m.2))

section
variable {ph} {p : Pool S Q C R E A} {a : Crew S Q F}

theorem Shown.at (h : ph.Shown p a) (i : Nat) :
    (p.threads[i]?).map (fun t => (t.op, t.rest)) =
      (a.members[i]?).map (fun m => (m.1, ph.rest m.1 m.2)) := by
  rw [← List.getElem?_map, h.threads, List.getElem?_map]

theorem Shown.mem (h : ph.Shown p a) {t : Thread Q C R E A} (member : t ∈ p.threads) :
    ∃ f, (t.op, f) ∈ a.members ∧ t.rest = ph.rest t.op f := by
  have shown := List.mem_map_of_mem (f := fun t : Thread Q C R E A => (t.op, t.rest)) member
  rw [h.threads] at shown
  obtain ⟨m, inside, same⟩ := List.mem_map.mp shown
  obtain ⟨op, rest⟩ := Prod.mk.inj same
  exact ⟨m.2, op ▸ inside, by rw [← rest, ← op]⟩

theorem Shown.thread (h : ph.Shown p a) {op : Q} {f : F} (member : (op, f) ∈ a.members) :
    ∃ t ∈ p.threads, t.op = op ∧ t.rest = ph.rest op f := by
  have shown := List.mem_map_of_mem (f := fun m : Q × F => (m.1, ph.rest m.1 m.2)) member
  rw [← h.threads] at shown
  obtain ⟨t, inside, same⟩ := List.mem_map.mp shown
  obtain ⟨opSame, rest⟩ := Prod.mk.inj same
  exact ⟨t, inside, opSame, rest⟩

/-- The thread and the member of one place. -/
theorem Shown.thread_at (h : ph.Shown p a) {i : Nat} {op : Q} {f : F}
    (hm : a.members[i]? = some (op, f)) :
    ∃ t, p.threads[i]? = some t ∧ t.op = op ∧ t.rest = ph.rest op f := by
  have here := h.at i
  rw [hm] at here
  obtain ⟨t, ht, same⟩ := Option.map_eq_some_iff.mp here
  obtain ⟨opSame, rest⟩ := Prod.mk.inj same
  exact ⟨t, ht, opSame, rest⟩

theorem Shown.member_at (h : ph.Shown p a) {i : Nat} {t : Thread Q C R E A}
    (ht : p.threads[i]? = some t) :
    ∃ f, a.members[i]? = some (t.op, f) ∧ t.rest = ph.rest t.op f := by
  have here := h.at i
  rw [ht] at here
  obtain ⟨m, hm, same⟩ := Option.map_eq_some_iff.mp here.symm
  obtain ⟨opSame, rest⟩ := Prod.mk.inj same
  exact ⟨m.2, opSame ▸ hm, by rw [← rest, ← opSame]⟩

/-- A turn of the pool is a turn of the requests in their phases. -/
theorem Shown.step (h : ph.Shown p a) (turn : Turn Q) :
    ph.Shown (svc.step p turn) (ph.step a turn) := by
  cases turn with
  | arrive op =>
    refine ⟨h.store, ?_⟩
    change (p.threads ++ [svc.newcomer op]).map _ = (a.members ++ [(op, ph.first)]).map _
    rw [List.map_append, List.map_append, h.threads, List.map_singleton, List.map_singleton,
      Service.newcomer, ph.starts]
  | call i =>
    have here := h.at i
    cases ht : p.threads[i]? with
    | none =>
      rw [ht] at here
      have hm : a.members[i]? = none := Option.map_eq_none_iff.mp here.symm
      simp only [Service.step, Phases.step, ht, hm]
      exact h
    | some t =>
      rw [ht] at here
      obtain ⟨m, hm, same⟩ := Option.map_eq_some_iff.mp here.symm
      obtain ⟨op, rest⟩ := Prod.mk.inj same
      simp only [Service.step, Phases.step, ht, hm, ← rest]
      cases hr : ph.rest m.1 m.2 with
      | done r => exact h
      | fail e => exact h
      | call c next =>
        refine ⟨by rw [h.store], ?_⟩
        rw [List.map_set, List.map_set, h.threads]
        refine congrArg (List.set _ i) ?_
        rw [Service.answered, ← op, h.store, ph.moves _ _ _ _ hr]

end

/-- A run of the pool is a run of the requests in their phases. -/
theorem shown_run (s : S) (turns : List (Turn Q)) :
    ph.Shown (run svc.step (Pool.idle s) turns) (run ph.step ⟨s, []⟩ turns) := by
  suffices general : ∀ (p : Pool S Q C R E A) (a : Crew S Q F), ph.Shown p a →
      ph.Shown (run svc.step p turns) (run ph.step a turns) from general _ _ ⟨rfl, rfl⟩
  induction turns with
  | nil => exact fun p a h => h
  | cons turn turns ih => exact fun p a h => ih _ _ (h.step turn)

end Phases

/-! One member of a list of requests, all of them different, goes to another phase. -/

section
variable {members : List (Q × F)} {i : Nat} {op : Q} {f : F}

theorem mem_moved (apart : (members.map Prod.fst).Nodup) (here : members[i]? = some (op, f))
    (f' : F) (op' : Q) (g : F) :
    (op', g) ∈ members.set i (op, f') ↔ op' = op ∧ g = f' ∨ op' ≠ op ∧ (op', g) ∈ members := by
  induction members generalizing i with
  | nil => cases here
  | cons m members ih =>
    rw [List.map_cons, List.nodup_cons] at apart
    cases i with
    | zero =>
      obtain rfl : m = (op, f) := Option.some.inj here
      have other (inside : (op', g) ∈ members) : op' ≠ op := fun same =>
        apart.1 (List.mem_map.mpr ⟨(op', g), inside, same⟩)
      rw [List.set_cons_zero, List.mem_cons, List.mem_cons, Prod.mk.injEq, Prod.mk.injEq]
      grind
    | succ i =>
      have there : members[i]? = some (op, f) := here
      have other : m.1 ≠ op := fun same =>
        apart.1 (List.mem_map.mpr ⟨(op, f), List.mem_of_getElem? there, same.symm⟩)
      rw [List.set_cons_succ, List.mem_cons, List.mem_cons, ih apart.2 there]
      grind

theorem moved_ops (here : members[i]? = some (op, f)) (f' : F) :
    (members.set i (op, f')).map Prod.fst = members.map Prod.fst := by
  obtain ⟨inside, same⟩ := List.getElem?_eq_some_iff.mp here
  have inside' : i < (members.map Prod.fst).length := by rwa [List.length_map]
  have key : op = (members.map Prod.fst)[i] := by rw [List.getElem_map, same]
  rw [List.map_set]
  exact (congrArg ((members.map Prod.fst).set i) key).trans (List.set_getElem_self inside')

end

def Turn.arrival : Turn Q → Option Q
  | arrive op => some op
  | call _ => none

/-- The requests of a schedule, in the order in which they arrive. -/
def arrivals (turns : List (Turn Q)) : List Q := turns.filterMap Turn.arrival

@[simp] theorem arrivals_append (turns turns' : List (Turn Q)) :
    arrivals (turns ++ turns') = arrivals turns ++ arrivals turns' := List.filterMap_append

theorem Phases.ops_run {svc : Service S Q C R E A} (ph : Phases svc F) (s : S)
    (turns : List (Turn Q)) :
    (run ph.step ⟨s, []⟩ turns).members.map Prod.fst = arrivals turns := by
  induction turns using List.reverseRecOn with
  | nil => rfl
  | append_singleton turns turn ih =>
    rw [run_append, run_cons, run_nil, arrivals_append, ← ih]
    generalize run ph.step ⟨s, []⟩ turns = a
    cases turn with
    | arrive op => exact List.map_append
    | call i =>
      refine Eq.trans ?_ (List.append_nil _).symm
      rcases ph.step_cases a (.call i) with hs | ⟨op, arrives, _⟩ | ⟨j, op, f, c, next, _, hm, hr, hs⟩
      · rw [hs]
      · cases arrives
      · rw [hs, moved_ops hm]

end Interleaving
