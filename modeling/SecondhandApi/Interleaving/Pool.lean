import SecondhandApi.Interleaving.Request
import SecondhandApi.Interleaving.Runs

/-! Interleaved requests. A pool is the store and the requests that have arrived, each
with the answers it has had; a turn lets a new request arrive or lets one request make
its next call. Every list of turns is a schedule, so a theorem about all lists of turns
is about any number of requests in any order. -/
namespace Interleaving

variable {S Q C : Type} {R : C → Type} {E A : Type}

/-- What the store does on a call, and the program of each kind of request. -/
structure Service (S Q C : Type) (R : C → Type) (E A : Type) where
  exec : (c : C) → S → S × R c
  program : Q → Request C R E A

structure Thread (Q C : Type) (R : C → Type) (E A : Type) where
  op : Q
  log : List (Answer C R)
  rest : Request C R E A

structure Pool (S Q C : Type) (R : C → Type) (E A : Type) where
  store : S
  threads : List (Thread Q C R E A)

/-- The store before any request has arrived. -/
def Pool.idle (s : S) : Pool S Q C R E A := ⟨s, []⟩

inductive Turn (Q : Type) where
  | arrive (op : Q)
  | call (i : Nat)

namespace Service

variable (svc : Service S Q C R E A)

def newcomer (op : Q) : Thread Q C R E A := ⟨op, [], svc.program op⟩

/-- The thread after the call it stands before was answered in store `s`. -/
def answered (t : Thread Q C R E A) (c : C) (next : R c → Request C R E A) (s : S) :
    Thread Q C R E A :=
  ⟨t.op, ⟨c, (svc.exec c s).2⟩ :: t.log, next (svc.exec c s).2⟩

/-- A turn given to a missing or finished thread does nothing. -/
def step (p : Pool S Q C R E A) : Turn Q → Pool S Q C R E A
  | .arrive op => ⟨p.store, p.threads ++ [svc.newcomer op]⟩
  | .call i =>
    match p.threads[i]? with
    | none => p
    | some t =>
      match t.rest with
      | .call c next => ⟨(svc.exec c p.store).1, p.threads.set i (svc.answered t c next p.store)⟩
      | _ => p

theorem step_call {p : Pool S Q C R E A} {i : Nat} {t : Thread Q C R E A} {c : C}
    {next : R c → Request C R E A} (ht : p.threads[i]? = some t) (hr : t.rest = .call c next) :
    svc.step p (.call i) =
      ⟨(svc.exec c p.store).1, p.threads.set i (svc.answered t c next p.store)⟩ := by
  simp only [step, ht, hr]

/-- A condition on the calls made: `allowed` speaks of the pool before the call, of the
thread that makes it and of the call. -/
def OnCalls (allowed : Pool S Q C R E A → Thread Q C R E A → C → Prop)
    (p : Pool S Q C R E A) : Turn Q → Prop
  | .arrive _ => True
  | .call i => ∀ t c, p.threads[i]? = some t → t.rest.pending = some c → allowed p t c

instance {allowed : Pool S Q C R E A → Thread Q C R E A → C → Prop}
    [∀ p t c, Decidable (allowed p t c)] (p : Pool S Q C R E A) (turn : Turn Q) :
    Decidable (OnCalls allowed p turn) :=
  match turn with
  | .arrive _ => .isTrue trivial
  | .call i =>
    decidable_of_iff (∀ t ∈ p.threads[i]?, ∀ c ∈ t.rest.pending, allowed p t c)
      ⟨fun h t c ht pending => h t ht c pending, fun h t ht c pending => h t c ht pending⟩

/-- Everything a turn can do. -/
theorem step_cases (p : Pool S Q C R E A) (turn : Turn Q) :
    svc.step p turn = p ∨
    (∃ op, turn = .arrive op ∧ svc.step p turn = ⟨p.store, p.threads ++ [svc.newcomer op]⟩) ∨
    (∃ i t c next, turn = .call i ∧ p.threads[i]? = some t ∧ t.rest = .call c next ∧
      svc.step p turn =
        ⟨(svc.exec c p.store).1, p.threads.set i (svc.answered t c next p.store)⟩) := by
  cases turn with
  | arrive op => exact Or.inr (Or.inl ⟨op, rfl, rfl⟩)
  | call i =>
    cases ht : p.threads[i]? with
    | none => left; simp only [step, ht]
    | some t =>
      cases hr : t.rest with
      | done a => left; simp only [step, ht, hr]
      | fail e => left; simp only [step, ht, hr]
      | call c next =>
        exact Or.inr (Or.inr ⟨i, t, c, next, rfl, ht, hr, svc.step_call ht hr⟩)

/-- The rule for what the store keeps. -/
theorem store_step {I : S → Prop} {p : Pool S Q C R E A} (h : I p.store) (turn : Turn Q)
    (call : ∀ i t c next, turn = .call i → p.threads[i]? = some t → t.rest = .call c next →
      I (svc.exec c p.store).1) : I (svc.step p turn).store := by
  rcases svc.step_cases p turn with hs | ⟨op, _, hs⟩ | ⟨i, t, c, next, called, ht, hr, hs⟩
  · rw [hs]
    exact h
  · rw [hs]
    exact h
  · rw [hs]
    exact call i t c next called ht hr

/-- The rule for what every thread keeps, whatever the others do to the store. -/
theorem threads_step {P : S → Thread Q C R E A → Prop} {p : Pool S Q C R E A}
    (h : ∀ t ∈ p.threads, P p.store t) (turn : Turn Q)
    (arrive : ∀ op, turn = .arrive op → P p.store (svc.newcomer op))
    (call : ∀ i t c next, turn = .call i → p.threads[i]? = some t → t.rest = .call c next →
      (∀ u ∈ p.threads, P (svc.exec c p.store).1 u) ∧
        P (svc.exec c p.store).1 (svc.answered t c next p.store)) :
    ∀ t ∈ (svc.step p turn).threads, P (svc.step p turn).store t := by
  rcases svc.step_cases p turn with hs | ⟨op, arrived, hs⟩ | ⟨i, t, c, next, called, ht, hr, hs⟩
  · rw [hs]
    exact h
  · rw [hs]
    intro t member
    rcases List.mem_append.mp member with before | new
    · exact h t before
    · exact List.mem_singleton.mp new ▸ arrive op arrived
  · rw [hs]
    obtain ⟨others, here⟩ := call i t c next called ht hr
    intro u member
    rcases List.mem_or_eq_of_mem_set member with before | rfl
    · exact others u before
    · exact here

/-- The same by the place of the thread in the pool, which it keeps. -/
theorem threads_step_at {P : S → Nat → Thread Q C R E A → Prop} {p : Pool S Q C R E A}
    (h : ∀ j t, p.threads[j]? = some t → P p.store j t) (turn : Turn Q)
    (arrive : ∀ op, turn = .arrive op → P p.store p.threads.length (svc.newcomer op))
    (call : ∀ i t c next, turn = .call i → p.threads[i]? = some t → t.rest = .call c next →
      (∀ j u, p.threads[j]? = some u → P (svc.exec c p.store).1 j u) ∧
        P (svc.exec c p.store).1 i (svc.answered t c next p.store)) :
    ∀ j t, (svc.step p turn).threads[j]? = some t → P (svc.step p turn).store j t := by
  rcases svc.step_cases p turn with hs | ⟨op, arrived, hs⟩ | ⟨i, t, c, next, called, ht, hr, hs⟩
  · rw [hs]
    exact h
  · rw [hs]
    intro j t at'
    rcases Nat.lt_trichotomy j p.threads.length with before | rfl | beyond
    · rw [List.getElem?_append_left before] at at'
      exact h j t at'
    · rw [List.getElem?_append_right (Nat.le_refl _), Nat.sub_self] at at'
      cases at'
      exact arrive op arrived
    · rw [List.getElem?_append_right (Nat.le_of_lt beyond)] at at'
      simp [show j - p.threads.length ≠ 0 by omega] at at'
  · rw [hs]
    obtain ⟨others, here⟩ := call i t c next called ht hr
    intro j u at'
    by_cases same : i = j
    · subst same
      rw [List.getElem?_set_self (List.getElem?_eq_some_iff.mp ht).1] at at'
      cases at'
      exact here
    · rw [List.getElem?_set_ne same] at at'
      exact others j u at'

theorem onCalls_at {allowed : Pool S Q C R E A → Thread Q C R E A → C → Prop}
    {p : Pool S Q C R E A} {i : Nat} (h : OnCalls allowed p (.call i)) {t : Thread Q C R E A}
    (ht : p.threads[i]? = some t) {c : C} {next : R c → Request C R E A}
    (hr : t.rest = .call c next) : allowed p t c :=
  h t c ht (by rw [hr, Request.pending_call])

/-- An exact condition on calls: where, by what `J` says of the pool, each call keeps `I` of the
store exactly when it is allowed, a run keeps `I` exactly when all its calls are. -/
theorem store_iff_along {J : Pool S Q C R E A → Prop} {scope : Turn Q → Prop} {I : S → Prop}
    {allowed : Pool S Q C R E A → Thread Q C R E A → C → Prop}
    (kept : ∀ p turn, J p → scope turn → J (svc.step p turn))
    (call : ∀ (p : Pool S Q C R E A) (i : Nat) (t : Thread Q C R E A) c next, J p → I p.store →
      p.threads[i]? = some t → t.rest = .call c next → (I (svc.exec c p.store).1 ↔ allowed p t c))
    {p : Pool S Q C R E A} (initial : J p) (start : I p.store) {turns : List (Turn Q)}
    (inScope : ∀ turn ∈ turns, scope turn) :
    (∀ q ∈ visited svc.step p turns, I q.store) ↔ Along svc.step (OnCalls allowed) p turns := by
  refine always_iff_along (I := fun q => J q ∧ I q.store) (fun p turn h here ok => ?_)
    (fun p h => h.2) (fun p turn h _ broken after => broken ?_) ⟨initial, start⟩ inScope
  · refine ⟨kept p turn h.1 here, svc.store_step h.2 turn (fun i t c next called ht hr => ?_)⟩
    subst called
    exact (call p i t c next h.1 h.2 ht hr).mpr (onCalls_at ok ht hr)
  · cases turn with
    | arrive op => trivial
    | call i =>
      intro t c ht pending
      obtain ⟨next, hr⟩ := Request.pending_eq_some pending
      rw [svc.step_call ht hr] at after
      exact (call p i t c next h.1 h.2 ht hr).mp after

/-- Every thread still obeys what its program obeys from the start. -/
def Obedient (may : Q → List (Answer C R) → C → Prop)
    (ends : Q → List (Answer C R) → Except E A → Prop) (p : Pool S Q C R E A) : Prop :=
  ∀ t ∈ p.threads, Request.Obeys (may t.op) (ends t.op) t.log t.rest

section
variable {svc} {may : Q → List (Answer C R) → C → Prop}
  {ends : Q → List (Answer C R) → Except E A → Prop}

/-- Obedience is an invariant by itself, as long as only obedient requests arrive. -/
theorem obedient_step {scope : Q → Prop}
    (programs : ∀ op, scope op → Request.Obeys (may op) (ends op) [] (svc.program op))
    (p : Pool S Q C R E A) (turn : Turn Q) (h : Obedient may ends p)
    (arrives : ∀ op, turn = .arrive op → scope op) : Obedient may ends (svc.step p turn) := by
  refine svc.threads_step (P := fun _ t => Request.Obeys (may t.op) (ends t.op) t.log t.rest) h turn
    (fun op arrived => programs op (arrives op arrived)) (fun i t c next _ ht hr => ⟨h, ?_⟩)
  have obeys := h t (List.mem_of_getElem? ht)
  rw [hr] at obeys
  exact obeys.2 _

/-- What the call a thread stands before owes to the answers it had. -/
theorem obedient_pending {p : Pool S Q C R E A} (h : Obedient may ends p) {i : Nat}
    {t : Thread Q C R E A} {c : C} {next : R c → Request C R E A}
    (ht : p.threads[i]? = some t) (hr : t.rest = .call c next) : may t.op t.log c := by
  have obeys := h t (List.mem_of_getElem? ht)
  rw [hr] at obeys
  exact obeys.1

end

/- A turn of one thread leaves the others in the pool. -/
theorem mem_set_of_ne {p : Pool S Q C R E A} {i : Nat} {t u : Thread Q C R E A}
    (hu : u ∈ p.threads) (ht : p.threads[i]? = some t) (other : u ≠ t) (v : Thread Q C R E A) :
    u ∈ p.threads.set i v := by
  obtain ⟨j, hj⟩ := List.mem_iff_getElem?.mp hu
  have apart : i ≠ j := by
    rintro rfl
    exact other (Option.some.inj (hj.symm.trans ht))
  exact List.mem_iff_getElem?.mpr ⟨j, by rw [List.getElem?_set_ne apart, hj]⟩

/-! A run of requests one after the other is one of the schedules: each request
arrives and then gets turns until it has finished. -/

theorem alone_turns (p : Pool S Q C R E A) (t : Thread Q C R E A) (before : List (Thread Q C R E A))
    (shape : p.threads = before ++ [t]) :
    ∃ k log, run svc.step p (List.replicate k (.call before.length)) =
      ⟨(t.rest.alone svc.exec p.store).1, before ++ [⟨t.op, log,
        match (t.rest.alone svc.exec p.store).2 with
        | .ok a => .done a
        | .error e => .fail e⟩]⟩ := by
  obtain ⟨s, threads⟩ := p
  obtain ⟨op, log, rest⟩ := t
  simp only at shape
  subst shape
  induction rest generalizing s log with
  | done a => exact ⟨0, log, rfl⟩
  | fail e => exact ⟨0, log, rfl⟩
  | call c next ih =>
    obtain ⟨k, log', h⟩ := ih (svc.exec c s).2 (svc.exec c s).1 (⟨c, (svc.exec c s).2⟩ :: log)
    refine ⟨k + 1, log', ?_⟩
    rw [List.replicate_succ, run_cons]
    simpa [step, answered] using h

/-- The requests `ops` one after the other, each alone. -/
def sequential (s : S) (op : Q) : S := ((svc.program op).alone svc.exec s).1

theorem sequential_is_schedule (s : S) (ops : List Q) :
    ∃ turns, (run svc.step ⟨s, []⟩ turns).store = run svc.sequential s ops := by
  suffices general : ∀ (ops : List Q) (p : Pool S Q C R E A),
      ∃ turns, (run svc.step p turns).store = run svc.sequential p.store ops from
    general ops ⟨s, []⟩
  intro ops
  induction ops with
  | nil => exact fun p => ⟨[], rfl⟩
  | cons op ops ih =>
    intro p
    obtain ⟨k, log, h⟩ := svc.alone_turns ⟨p.store, p.threads ++ [svc.newcomer op]⟩
      (svc.newcomer op) p.threads rfl
    obtain ⟨turns, ht⟩ := ih ⟨(svc.sequential p.store op), p.threads ++ [⟨op, log,
      match ((svc.program op).alone svc.exec p.store).2 with
        | .ok a => .done a
        | .error e => .fail e⟩]⟩
    refine ⟨.arrive op :: (List.replicate k (.call p.threads.length) ++ turns), ?_⟩
    rw [run_cons, run_append]
    exact (congrArg (fun q => (run svc.step q turns).store) h).trans ht

end Service

end Interleaving
