/-! Requests over a shared store, as trees of atomic calls. A tree says which call
the request makes next for every answer it may get; nothing else of the program is
kept, so one definition serves the run alone, the run with failing calls and the
interleaved run. -/
namespace Interleaving

/-- What is left of a request: its answer, its error, or the next atomic call. -/
inductive Request (C : Type) (R : C → Type) (E A : Type) where
  | done (a : A)
  | fail (e : E)
  | call (c : C) (next : R c → Request C R E A)

/-- One call made, with the answer it got. -/
structure Answer (C : Type) (R : C → Type) where
  call : C
  reply : R call

variable {C : Type} {R : C → Type} {E A B S : Type}

namespace Request

def bind : Request C R E A → (A → Request C R E B) → Request C R E B
  | done a, f => f a
  | fail e, _ => fail e
  | call c next, f => call c (fun r => (next r).bind f)

def tryCatch : Request C R E A → (E → Request C R E A) → Request C R E A
  | done a, _ => done a
  | fail e, handle => handle e
  | call c next, handle => call c (fun r => (next r).tryCatch handle)

instance : Monad (Request C R E) where
  pure := done
  bind := bind

instance : MonadExcept E (Request C R E) where
  throw := fail
  tryCatch := tryCatch

@[simp] theorem pure_eq (a : A) : (pure a : Request C R E A) = done a := rfl
@[simp] theorem throw_eq (e : E) : (throw e : Request C R E A) = fail e := rfl
@[simp] theorem done_bind (a : A) (f : A → Request C R E B) : (done a >>= f) = f a := rfl
@[simp] theorem fail_bind (e : E) (f : A → Request C R E B) :
    ((fail e : Request C R E A) >>= f) = fail e := rfl
@[simp] theorem call_bind (c : C) (next : R c → Request C R E A) (f : A → Request C R E B) :
    (call c next >>= f) = call c (fun r => next r >>= f) := rfl
@[simp] theorem map_eq (f : A → B) (p : Request C R E A) :
    f <$> p = p >>= fun a => done (f a) := rfl

theorem bind_assoc {D : Type} (p : Request C R E A) (f : A → Request C R E B)
    (g : B → Request C R E D) : (p >>= f) >>= g = p >>= fun a => f a >>= g := by
  induction p with
  | done a => rfl
  | fail e => rfl
  | call c next ih =>
    rw [call_bind, call_bind, call_bind]
    exact congrArg (call c) (funext fun r => ih r)

/-- A request that hands its error on as a value. -/
def settled : Request C R E A → Request C R E (Except E A)
  | done a => done (.ok a)
  | fail e => done (.error e)
  | call c next => call c (fun r => (next r).settled)

/-- A request whose calls are requests themselves. -/
def translate {C' : Type} {R' : C' → Type} (f : (c : C) → Request C' R' E (R c)) :
    Request C R E A → Request C' R' E A
  | done a => done a
  | fail e => fail e
  | call c next => f c >>= fun r => (next r).translate f

theorem tryCatch_throw (p : Request C R E A) : MonadExcept.tryCatch p throw = p := by
  induction p with
  | done a => rfl
  | fail e => rfl
  | call c next ih => exact congrArg (call c) (funext fun r => ih r)

theorem settled_bind {p : Request C R E A} {f : Except E A → Request C R E A}
    {handle : E → Request C R E A} (ok : ∀ a, f (.ok a) = done a)
    (error : ∀ e, f (.error e) = handle e) :
    p.settled >>= f = MonadExcept.tryCatch p handle := by
  induction p with
  | done a => exact ok a
  | fail e => exact error e
  | call c next ih => exact congrArg (call c) (funext fun r => ih r)

/-- The call a request stands before. -/
def pending : Request C R E A → Option C
  | call c _ => some c
  | _ => none

@[simp] theorem pending_done (a : A) : (done a : Request C R E A).pending = none := rfl
@[simp] theorem pending_fail (e : E) : (fail e : Request C R E A).pending = none := rfl
@[simp] theorem pending_call (c : C) (next : R c → Request C R E A) :
    (call c next).pending = some c := rfl

theorem pending_eq_some {p : Request C R E A} {c : C} (h : p.pending = some c) :
    ∃ next, p = call c next := by
  cases p with
  | done a => cases h
  | fail e => cases h
  | call d next => cases h; exact ⟨next, rfl⟩

/-! The run of one request alone, with the effect `exec` of each call. -/

section
variable (exec : (c : C) → S → S × R c)

def alone : Request C R E A → S → S × Except E A
  | done a, s => (s, .ok a)
  | fail e, s => (s, .error e)
  | call c next, s => (next (exec c s).2).alone (exec c s).1

@[simp] theorem alone_done (a : A) (s : S) :
    (done a : Request C R E A).alone exec s = (s, .ok a) := rfl
@[simp] theorem alone_fail (e : E) (s : S) :
    (fail e : Request C R E A).alone exec s = (s, .error e) := rfl
@[simp] theorem alone_call (c : C) (next : R c → Request C R E A) (s : S) :
    (call c next).alone exec s = (next (exec c s).2).alone exec (exec c s).1 := rfl

theorem alone_bind (p : Request C R E A) (f : A → Request C R E B) (s : S) :
    (p >>= f).alone exec s =
      match p.alone exec s with
      | (t, .ok a) => (f a).alone exec t
      | (t, .error e) => (t, .error e) := by
  induction p generalizing s with
  | done a => rfl
  | fail e => rfl
  | call c next ih => exact ih _ _

theorem alone_settled (p : Request C R E A) (s : S) :
    p.settled.alone exec s = ((p.alone exec s).1, .ok (p.alone exec s).2) := by
  induction p generalizing s with
  | done a => rfl
  | fail e => rfl
  | call c next ih => exact ih _ _

theorem alone_tryCatch (p : Request C R E A) (handle : E → Request C R E A) (s : S) :
    (MonadExcept.tryCatch p handle).alone exec s =
      match p.alone exec s with
      | (t, .ok a) => (t, .ok a)
      | (t, .error e) => (handle e).alone exec t := by
  induction p generalizing s with
  | done a => rfl
  | fail e => rfl
  | call c next ih => exact ih _ _

theorem alone_map (f : A → B) (p : Request C R E A) (s : S) :
    (f <$> p).alone exec s = ((p.alone exec s).1, (p.alone exec s).2.map f) := by
  induction p generalizing s with
  | done a => rfl
  | fail e => rfl
  | call c next ih => exact ih _ _

/-- A part that leaves the store alone either ends the request or hands it on. -/
theorem alone_after {p : Request C R E A} {f : A → Request C R E B} {s : S}
    (same : (p.alone exec s).1 = s) {P : S → Prop} (stays : P s)
    (goes : ∀ a, P ((f a).alone exec s).1) : P ((p >>= f).alone exec s).1 := by
  rw [alone_bind]
  cases h : p.alone exec s with
  | mk t r =>
    rw [h] at same
    cases same
    cases r with
    | ok a => exact goes a
    | error e => exact stays

/-- A check lets the rest run in the same store, or ends the request there. -/
theorem alone_check {p : Request C R E A} {f : A → Request C R E B} {s : S} {holds : Bool} {a : A}
    {e : E} (checks : p.alone exec s = (s, if holds then .ok a else .error e)) :
    (p >>= f).alone exec s = if holds then (f a).alone exec s else (s, .error e) := by
  rw [alone_bind, checks]
  cases holds <;> rfl

/-- Parts that only answer, one for each element of a list. -/
theorem alone_mapM {f : A → Request C R E B} {g : A → B} {s : S}
    (each : ∀ a, (f a).alone exec s = (s, .ok (g a))) (l : List A) :
    (l.mapM f).alone exec s = (s, .ok (l.map g)) := by
  suffices loop : ∀ l acc, (List.mapM.loop f l acc).alone exec s =
      (s, .ok (acc.reverse ++ l.map g)) from loop l []
  intro l
  induction l with
  | nil =>
    intro acc
    rw [List.map_nil, List.append_nil]
    rfl
  | cons a l ih =>
    intro acc
    rw [List.mapM.loop, alone_bind, each]
    refine (ih (g a :: acc)).trans ?_
    rw [List.reverse_cons, List.append_assoc, List.map_cons, List.singleton_append]

/-- The run with failing calls: `faults n` makes the n-th call answer `fault`, and a
call that fails leaves the store alone. -/
def faulty (fault : (c : C) → R c) : (Nat → Bool) → Request C R E A → S → S × Except E A
  | _, done a, s => (s, .ok a)
  | _, fail e, s => (s, .error e)
  | faults, call c next, s =>
    if faults 0 then (next (fault c)).faulty fault (fun n => faults (n + 1)) s
    else (next (exec c s).2).faulty fault (fun n => faults (n + 1)) (exec c s).1

theorem faulty_faulted (fault : (c : C) → R c) {faults : Nat → Bool} (h : faults 0 = true) (c : C)
    (next : R c → Request C R E A) (s : S) :
    (call c next).faulty exec fault faults s =
      (next (fault c)).faulty exec fault (fun n => faults (n + 1)) s := if_pos h

theorem faulty_answered (fault : (c : C) → R c) {faults : Nat → Bool} (h : faults 0 = false) (c : C)
    (next : R c → Request C R E A) (s : S) :
    (call c next).faulty exec fault faults s =
      (next (exec c s).2).faulty exec fault (fun n => faults (n + 1)) (exec c s).1 :=
  if_neg (Bool.eq_false_iff.mp h)

theorem faulty_map (fault : (c : C) → R c) (faults : Nat → Bool) (f : A → B)
    (p : Request C R E A) (s : S) :
    (f <$> p).faulty exec fault faults s =
      ((p.faulty exec fault faults s).1, (p.faulty exec fault faults s).2.map f) := by
  induction p generalizing s faults with
  | done a => rfl
  | fail e => rfl
  | call c next ih =>
    rw [map_eq, call_bind]
    cases h : faults 0 with
    | true =>
      rw [faulty_faulted exec fault h, faulty_faulted exec fault h]
      exact ih _ _ _
    | false =>
      rw [faulty_answered exec fault h, faulty_answered exec fault h]
      exact ih _ _ _

end

/-! A request obeys `may` and `ends` when, whatever the store answers, each of its
calls is one that `may` allows after the calls before it (newest first), and it
ends only where `ends` allows. -/

section
variable (may : List (Answer C R) → C → Prop)
  (ends : List (Answer C R) → Except E A → Prop)

def Obeys : List (Answer C R) → Request C R E A → Prop
  | log, done a => ends log (.ok a)
  | log, fail e => ends log (.error e)
  | log, call c next => may log c ∧ ∀ r, Obeys (⟨c, r⟩ :: log) (next r)

@[simp] theorem obeys_done (log : List (Answer C R)) (a : A) :
    Obeys may ends log (done a) ↔ ends log (.ok a) := Iff.rfl
@[simp] theorem obeys_fail (log : List (Answer C R)) (e : E) :
    Obeys may ends log (fail e) ↔ ends log (.error e) := Iff.rfl
@[simp] theorem obeys_call (log : List (Answer C R)) (c : C) (next : R c → Request C R E A) :
    Obeys may ends log (call c next) ↔
      may log c ∧ ∀ r, Obeys may ends (⟨c, r⟩ :: log) (next r) := Iff.rfl

theorem obeys_mono {may may' : List (Answer C R) → C → Prop}
    {ends : List (Answer C R) → Except E A → Prop} (imp : ∀ log c, may log c → may' log c)
    {log : List (Answer C R)} {p : Request C R E A} (h : Obeys may ends log p) :
    Obeys may' ends log p := by
  induction p generalizing log with
  | done a => exact h
  | fail e => exact h
  | call c next ih => exact ⟨imp _ _ h.1, fun r => ih r (h.2 r)⟩

theorem obeys_weaken {ends ends' : List (Answer C R) → Except E A → Prop}
    (imp : ∀ log r, ends log r → ends' log r) {log : List (Answer C R)} {p : Request C R E A}
    (h : Obeys may ends log p) : Obeys may ends' log p := by
  induction p generalizing log with
  | done a => exact imp _ _ h
  | fail e => exact imp _ _ h
  | call c next ih => exact ⟨h.1, fun r => ih r (h.2 r)⟩

/-- The rule for a sequence: the first part ends where the second may go on. -/
theorem obeys_bind {p : Request C R E B} {f : B → Request C R E A}
    {log : List (Answer C R)}
    (h : Obeys may (fun l r => match r with
      | .ok b => Obeys may ends l (f b)
      | .error e => ends l (.error e)) log p) :
    Obeys may ends log (p >>= f) := by
  induction p generalizing log with
  | done b => exact h
  | fail e => exact h
  | call c next ih => exact ⟨h.1, fun r => ih r (h.2 r)⟩

/-- The rule for a handler: where the first part fails, the handler may go on. -/
theorem obeys_tryCatch {p : Request C R E A} {handle : E → Request C R E A}
    {log : List (Answer C R)}
    (h : Obeys may (fun l r => match r with
      | .ok a => ends l (.ok a)
      | .error e => Obeys may ends l (handle e)) log p) :
    Obeys may ends log (MonadExcept.tryCatch p handle) := by
  induction p generalizing log with
  | done a => exact h
  | fail e => exact h
  | call c next ih => exact ⟨h.1, fun r => ih r (h.2 r)⟩

/-- Every call is allowed, and only what the request answers with matters. -/
theorem obeys_map {f : B → A} {ends : List (Answer C R) → Except E A → Prop}
    (answers : ∀ log b, ends log (.ok (f b))) (fails : ∀ log e, ends log (.error e))
    {log : List (Answer C R)} {p : Request C R E B} :
    Obeys (fun _ _ => True) ends log (f <$> p) := by
  induction p generalizing log with
  | done b => exact answers log b
  | fail e => exact fails log e
  | call c next ih => exact ⟨trivial, fun r => ih r⟩

theorem obeys_settled {ends : List (Answer C R) → Except E (Except E A) → Prop}
    {p : Request C R E A} {log : List (Answer C R)}
    (h : Obeys may (fun l r => ends l (.ok r)) log p) : Obeys may ends log p.settled := by
  induction p generalizing log with
  | done a => exact h
  | fail e => exact h
  | call c next ih => exact ⟨h.1, fun r => ih r (h.2 r)⟩

end

/-! What every call of a request satisfies, whatever the store answers. -/

section
variable (P : C → Prop)

def Makes : Request C R E A → Prop
  | done _ => True
  | fail _ => True
  | call c next => P c ∧ ∀ r, Makes (next r)

variable {P}

theorem makes_done (a : A) : Makes P (done a : Request C R E A) := trivial

theorem makes_bind {p : Request C R E A} {f : A → Request C R E B} (first : Makes P p)
    (rest : ∀ a, Makes P (f a)) : Makes P (p >>= f) := by
  induction p with
  | done a => exact rest a
  | fail e => exact first
  | call c next ih => exact ⟨first.1, fun r => ih r (first.2 r)⟩

theorem makes_map {p : Request C R E A} (h : Makes P p) (f : A → B) : Makes P (f <$> p) :=
  makes_bind h (fun _ => trivial)

theorem makes_tryCatch {p : Request C R E A} {handle : E → Request C R E A} (first : Makes P p)
    (rest : ∀ e, Makes P (handle e)) : Makes P (MonadExcept.tryCatch p handle) := by
  induction p with
  | done a => exact first
  | fail e => exact rest e
  | call c next ih => exact ⟨first.1, fun r => ih r (first.2 r)⟩

theorem Makes.mono {P' : C → Prop} (imp : ∀ c, P c → P' c) {p : Request C R E A}
    (h : Makes P p) : Makes P' p := by
  induction p with
  | done a => trivial
  | fail e => trivial
  | call c next ih => exact ⟨imp c h.1, fun r => ih r (h.2 r)⟩

theorem Makes.obeys {p : Request C R E A} (h : Makes P p) (log : List (Answer C R)) :
    Obeys (fun _ c => P c) (fun _ _ => True) log p := by
  induction p generalizing log with
  | done a => trivial
  | fail e => trivial
  | call c next ih => exact ⟨h.1, fun r => ih r (h.2 r) _⟩

/-- What the answers to its calls keep of the log, the request keeps to its end. -/
theorem Makes.obeys_keeping {I : List (Answer C R) → Prop}
    (keeps : ∀ log c r, P c → I log → I (⟨c, r⟩ :: log)) {p : Request C R E A} (h : Makes P p)
    {log : List (Answer C R)} (initial : I log) :
    Obeys (fun _ c => P c) (fun l _ => I l) log p := by
  induction p generalizing log with
  | done a => exact initial
  | fail e => exact initial
  | call c next ih => exact ⟨h.1, fun r => ih r (h.2 r) (keeps log c r h.1 initial)⟩

/-- What each of the calls keeps, the request keeps. -/
theorem Makes.alone_invariant {exec : (c : C) → S → S × R c} {I : S → Prop}
    (keeps : ∀ c s, P c → I s → I (exec c s).1) {p : Request C R E A} (h : Makes P p) {s : S}
    (initial : I s) : I (p.alone exec s).1 := by
  induction p generalizing s with
  | done a => exact initial
  | fail e => exact initial
  | call c next ih => exact ih _ (h.2 _) (keeps c s h.1 initial)

end

end Request

end Interleaving
