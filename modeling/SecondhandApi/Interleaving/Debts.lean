import SecondhandApi.Interleaving.Pool

/-! What requests still owe. A property of the store may be broken for a while, as long as
some request on its way is going to restore it; once every request has ended it holds. -/
namespace Interleaving

variable {S Q C : Type} {R : C → Type} {E A B : Type}

namespace Request

/-- At every call that the request may come to, `follow` holds of the calls before it
(newest first), of the call and of what the request does with its answer. -/
def Follows (follow : List (Answer C R) → (c : C) → (R c → Request C R E A) → Prop) :
    List (Answer C R) → Request C R E A → Prop
  | _, done _ => True
  | _, fail _ => True
  | log, call c next => follow log c next ∧ ∀ r, Follows follow (⟨c, r⟩ :: log) (next r)

section
variable {follow : List (Answer C R) → (c : C) → (R c → Request C R E A) → Prop}
  {log : List (Answer C R)}

/-- A first part whose calls are free, whatever it answers. -/
theorem follows_bind {P : C → Prop} (imp : ∀ log c next, P c → follow log c next)
    {p : Request C R E B} {f : B → Request C R E A} (first : Makes P p)
    (rest : ∀ b log, Follows follow log (f b)) : Follows follow log (p >>= f) := by
  induction p generalizing log with
  | done b => exact rest b log
  | fail e => trivial
  | call c next ih => exact ⟨imp _ _ _ first.1, fun r => ih r (first.2 r)⟩

/-- Calls that are free once the log holds what it holds now. -/
theorem Makes.follows {P : C → Prop}
    (imp : ∀ later c next, (∀ a ∈ log, a ∈ later) → P c → follow later c next)
    {p : Request C R E A} (h : Makes P p) : Follows follow log p := by
  suffices general : ∀ later, (∀ a ∈ log, a ∈ later) → Follows follow later p from
    general log (fun _ => id)
  induction p with
  | done a => exact fun _ _ => trivial
  | fail e => exact fun _ _ => trivial
  | call c next ih =>
    intro later kept
    refine ⟨imp later c next kept h.1, fun r => ih r (h.2 r) _ (fun a seen => ?_)⟩
    exact List.mem_cons_of_mem _ (kept a seen)

theorem Follows.makes {P : C → Prop} (imp : ∀ log c next, follow log c next → P c)
    {p : Request C R E A} (h : Follows follow log p) : Makes P p := by
  induction p generalizing log with
  | done a => trivial
  | fail e => trivial
  | call c next ih => exact ⟨imp _ _ _ h.1, fun r => ih r (h.2 r)⟩

end

end Request

namespace Service

variable (svc : Service S Q C R E A)

/-- Every thread follows what its operation follows. -/
def Following (follow : Q → List (Answer C R) → (c : C) → (R c → Request C R E A) → Prop)
    (p : Pool S Q C R E A) : Prop :=
  ∀ t ∈ p.threads, Request.Follows (follow t.op) t.log t.rest

section
variable {svc} {follow : Q → List (Answer C R) → (c : C) → (R c → Request C R E A) → Prop}
  {p : Pool S Q C R E A}

theorem following_step {scope : Q → Prop}
    (programs : ∀ op, scope op → Request.Follows (follow op) [] (svc.program op)) {turn : Turn Q}
    (h : Following follow p) (arrives : ∀ op, turn = .arrive op → scope op) :
    Following follow (svc.step p turn) :=
  svc.threads_step (P := fun _ t => Request.Follows (follow t.op) t.log t.rest) h turn
    (fun op arrived => programs op (arrives op arrived)) (fun i t c next _ ht hr => by
      have follows := h t (List.mem_of_getElem? ht)
      rw [hr] at follows
      exact ⟨h, follows.2 _⟩)

theorem following_pending (h : Following follow p) {i : Nat} {t : Thread Q C R E A} {c : C}
    {next : R c → Request C R E A} (ht : p.threads[i]? = some t) (hr : t.rest = .call c next) :
    follow t.op t.log c next := by
  have follows := h t (List.mem_of_getElem? ht)
  rw [hr] at follows
  exact follows.1

end

/-- Every request has ended. -/
def Quiet (p : Pool S Q C R E A) : Prop := ∀ t ∈ p.threads, t.rest.pending = none

instance (p : Pool S Q C R E A) : Decidable (Quiet p) :=
  inferInstanceAs (Decidable (∀ t ∈ p.threads, t.rest.pending = none))

/-- The property holds, or one of the requests is going to restore it. -/
def Covered (good : S → Prop) (owes : Thread Q C R E A → Prop) (p : Pool S Q C R E A) : Prop :=
  good p.store ∨ ∃ t ∈ p.threads, owes t

section
variable {svc} {good : S → Prop} {owes : Thread Q C R E A → Prop} {p : Pool S Q C R E A}

/-- The other threads go on owing what they owe. -/
theorem Covered.goes_on {i : Nat} {t t' : Thread Q C R E A} {s : S} (ht : p.threads[i]? = some t)
    (owed : ∃ u ∈ p.threads, owes u)
    (here : owes t → Covered good owes ⟨s, p.threads.set i t'⟩) :
    Covered good owes ⟨s, p.threads.set i t'⟩ := by
  obtain ⟨u, member, debt⟩ := owed
  by_cases same : u = t
  · exact here (same ▸ debt)
  · exact Or.inr ⟨u, mem_set_of_ne member ht same _, debt⟩

/-- Only a turn that finds the property, or a thread that owes it, has to be looked at. -/
theorem covered_step (h : Covered good owes p) (turn : Turn Q)
    (call : ∀ i t c next, turn = .call i → p.threads[i]? = some t → t.rest = .call c next →
      good p.store ∨ owes t → Covered good owes
        ⟨(svc.exec c p.store).1, p.threads.set i (svc.answered t c next p.store)⟩) :
    Covered good owes (svc.step p turn) := by
  rcases svc.step_cases p turn with hs | ⟨op, rfl, hs⟩ | ⟨i, t, c, next, rfl, ht, hr, hs⟩
  · rw [hs]
    exact h
  · rw [hs]
    rcases h with fine | ⟨t, member, debt⟩
    · exact Or.inl fine
    · exact Or.inr ⟨t, List.mem_append_left _ member, debt⟩
  · rw [hs]
    rcases h with fine | owed
    · exact call i t c next rfl ht hr (Or.inl fine)
    · exact Covered.goes_on ht owed (fun debt => call i t c next rfl ht hr (Or.inr debt))

theorem Covered.quiet (h : Covered good owes p) (ended : Quiet p)
    (stands : ∀ t, owes t → t.rest.pending ≠ none) : good p.store := by
  rcases h with fine | ⟨t, member, debt⟩
  · exact fine
  · exact absurd (ended t member) (stands t debt)

/-- The other threads are in the pool after a turn, and so is the one that was answered. -/
theorem mem_set_of_index {i j : Nat} {t u : Thread Q C R E A} (apart : j ≠ i)
    (hu : p.threads[j]? = some u) : u ∈ p.threads.set i t :=
  List.mem_of_getElem? ((List.getElem?_set_ne apart.symm).trans hu)

theorem mem_set_cases {i : Nat} {t u : Thread Q C R E A} (member : u ∈ p.threads.set i t) :
    (∃ j, j ≠ i ∧ p.threads[j]? = some u) ∨ u = t := by
  obtain ⟨j, hj⟩ := List.mem_iff_getElem?.mp member
  by_cases same : i = j
  · subst same
    rw [List.getElem?_set] at hj
    split at hj
    · split at hj
      · exact Or.inr (Option.some.inj hj).symm
      · cases hj
    · exact absurd rfl ‹_›
  · rw [List.getElem?_set_ne same] at hj
    exact Or.inl ⟨j, Ne.symm same, hj⟩

theorem answered_mem {i : Nat} {t t' : Thread Q C R E A} (ht : p.threads[i]? = some t) :
    t' ∈ p.threads.set i t' := by
  have inside : i < p.threads.length := (List.getElem?_eq_some_iff.mp ht).1
  exact List.mem_of_getElem? (List.getElem?_set_self inside)

end

/-- A request stays what it is and forgets no answer. -/
theorem thread_grows {p : Pool S Q C R E A} {t : Thread Q C R E A} (member : t ∈ p.threads)
    (turn : Turn Q) :
    ∃ t' ∈ (svc.step p turn).threads, t'.op = t.op ∧ ∀ a ∈ t.log, a ∈ t'.log := by
  rcases svc.step_cases p turn with hs | ⟨op, _, hs⟩ | ⟨i, u, c, next, _, ht, hr, hs⟩
  · rw [hs]
    exact ⟨t, member, rfl, fun _ => id⟩
  · rw [hs]
    exact ⟨t, List.mem_append_left _ member, rfl, fun _ => id⟩
  · rw [hs]
    by_cases same : t = u
    · subst same
      exact ⟨_, answered_mem ht, rfl, fun a => List.mem_cons_of_mem _⟩
    · exact ⟨t, mem_set_of_ne member ht same _, rfl, fun _ => id⟩

/-- A request that has ended stays as it is. -/
theorem ended_stays {p : Pool S Q C R E A} {t : Thread Q C R E A} (member : t ∈ p.threads)
    (ended : t.rest.pending = none) (turn : Turn Q) : t ∈ (svc.step p turn).threads := by
  rcases svc.step_cases p turn with hs | ⟨op, _, hs⟩ | ⟨i, u, c, next, _, ht, hr, hs⟩
  · rw [hs]
    exact member
  · rw [hs]
    exact List.mem_append_left _ member
  · rw [hs]
    refine mem_set_of_ne member ht (fun same => ?_) _
    rw [same, hr] at ended
    cases ended

/-- Every request was there before or has just arrived. -/
theorem thread_came {p : Pool S Q C R E A} {turn : Turn Q} :
    ∀ t' ∈ (svc.step p turn).threads,
      (∃ t ∈ p.threads, t.op = t'.op) ∨ turn = .arrive t'.op := by
  apply svc.threads_step (P := fun _ t' => (∃ t ∈ p.threads, t.op = t'.op) ∨ turn = .arrive t'.op)
    (fun t member => Or.inl ⟨t, member, rfl⟩) turn
  · exact fun op arrived => Or.inr arrived
  · intro i t c next _ ht _
    exact ⟨fun u member => Or.inl ⟨u, member, rfl⟩, Or.inl ⟨t, List.mem_of_getElem? ht, rfl⟩⟩

/-! What every request is: one of the operations that arrived, and its program as long as
nothing was answered. -/

section
variable {p : Pool S Q C R E A}

theorem scoped_step {scope : Q → Bool} (h : ∀ t ∈ p.threads, scope t.op = true) {turn : Turn Q}
    (arrives : ∀ op, turn = .arrive op → scope op = true) :
    ∀ t ∈ (svc.step p turn).threads, scope t.op = true :=
  svc.threads_step (P := fun _ t => scope t.op = true) h turn arrives
    (fun _ t _ _ _ ht _ => ⟨h, h t (List.mem_of_getElem? ht)⟩)

theorem unanswered_step (h : ∀ t ∈ p.threads, t.log = [] → t.rest = svc.program t.op)
    (turn : Turn Q) : ∀ t ∈ (svc.step p turn).threads, t.log = [] → t.rest = svc.program t.op :=
  svc.threads_step (P := fun _ t => t.log = [] → t.rest = svc.program t.op) h turn
    (fun _ _ _ => rfl) (fun _ _ _ _ _ _ _ => ⟨h, fun none => by cases none⟩)

/-- Every answer that a request has had satisfies `P` in the store as it is now. -/
def Logged (P : S → Answer C R → Prop) (p : Pool S Q C R E A) : Prop :=
  ∀ t ∈ p.threads, ∀ a ∈ t.log, P p.store a

theorem logged_step {P : S → Answer C R → Prop} (h : Logged P p) (turn : Turn Q)
    (call : ∀ i t c next, turn = .call i → p.threads[i]? = some t → t.rest = .call c next →
      P (svc.exec c p.store).1 ⟨c, (svc.exec c p.store).2⟩ ∧
      ∀ u ∈ p.threads, ∀ a ∈ u.log, P p.store a → P (svc.exec c p.store).1 a) :
    Logged P (svc.step p turn) := by
  refine svc.threads_step (P := fun s t => ∀ a ∈ t.log, P s a) h turn
    (fun _ _ a none => by cases none) (fun i t c next called ht hr => ?_)
  obtain ⟨answer, stable⟩ := call i t c next called ht hr
  have kept (u : Thread Q C R E A) (inside : u ∈ p.threads) : ∀ a ∈ u.log,
      P (svc.exec c p.store).1 a := fun a seen => stable u inside a seen (h u inside a seen)
  refine ⟨kept, fun a seen => ?_⟩
  rcases List.mem_cons.mp seen with rfl | tail
  · exact answer
  · exact kept t (List.mem_of_getElem? ht) a tail

end

/-! What requests have read. An answer may be old when it is used; of an attribute that is
never changed it still tells what is stored, as long as no key is used again. -/

section
variable {K V : Type} {saw : Answer C R → K → V → Prop} {holds : S → K → V → Prop}
  {p : Pool S Q C R E A}

/-- What a request has read of a key is what the store holds of it, if it holds any. -/
def Remembers (saw : Answer C R → K → V → Prop) (holds : S → K → V → Prop)
    (p : Pool S Q C R E A) : Prop :=
  ∀ t ∈ p.threads, ∀ a ∈ t.log, ∀ k v w, saw a k v → holds p.store k w → w = v

theorem remembers_idle (s : S) : Remembers saw holds (Pool.idle s : Pool S Q C R E A) :=
  fun _ none => by cases none

theorem remembers_step (h : Remembers saw holds p) (turn : Turn Q)
    (call : ∀ i t c next, turn = .call i → p.threads[i]? = some t → t.rest = .call c next →
      (∀ k v w, saw ⟨c, (svc.exec c p.store).2⟩ k v → holds (svc.exec c p.store).1 k w → w = v) ∧
      ∀ k w, holds (svc.exec c p.store).1 k w →
        holds p.store k w ∨ ∀ u ∈ p.threads, ∀ a ∈ u.log, ∀ v, ¬ saw a k v) :
    Remembers saw holds (svc.step p turn) := by
  refine svc.logged_step (P := fun s a => ∀ k v w, saw a k v → holds s k w → w = v) h turn
    (fun i t c next called ht hr => ?_)
  obtain ⟨answer, stable⟩ := call i t c next called ht hr
  refine ⟨answer, fun u inside a seen before k v w tells after => ?_⟩
  rcases stable k w after with still | unseen
  · exact before k v w tells still
  · exact absurd tells (unseen u inside a seen v)

end

end Service

end Interleaving
