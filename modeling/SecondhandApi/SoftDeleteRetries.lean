import SecondhandApi.Repositories
import SecondhandApi.Retries

/-! The retry loop of `UsersRepository.softDelete`, `src/modules/users/repositories/users.repository.ts`,
with its transactions as promises. `return p` in an async function ends its body with `p`, and what
`p` settles to becomes the answer outside every `try` of the body; `await p` waits for it in place. -/
namespace SecondhandApi.SoftDeleteRetries
open Interleaving

/-- A step of the loop that is outside the process: to begin a transaction, whose promise is
its number, to wait for a promise, and to wait for a time in milliseconds. -/
inductive Step where
  | transaction
  | settled (promise : Nat)
  | timeout (ms : Nat)

abbrev Step.Reply (E A : Type) : Step → Type
  | transaction => Nat
  | settled _ => Except E A
  | timeout _ => Unit

variable {E A : Type}

abbrev Async (E A B : Type) : Type := Request Step (Step.Reply E A) E B

def transaction : Async E A Nat := .call .transaction .done

def timeout (ms : Nat) : Async E A Unit := .call (.timeout ms) .done

def settled (promise : Nat) : Async E A A :=
  .call (.settled promise) fun
    | .ok a => .done a
    | .error e => .fail e

/-- An async function whose body ends with a promise. -/
def async (body : Async E A Nat) : Async E A A := do settled (← body)

def MAX_RETRIES : Nat := 3

section
variable (code : E → Option String) (limitExceeded : E)

/- The `for` loop from `attempt` on, with `left` turns to go; `once` is the body of its `try`. -/
def attempts {B : Type} (once : Async E A B) : (left attempt : Nat) → Async E A B
  | 0, _ => throw limitExceeded
  | left + 1, attempt =>
    tryCatch once fun error =>
      if code error = some "P2034" ∧ attempt < MAX_RETRIES - 1 then do
        timeout (100 * (attempt + 1))
        attempts once left (attempt + 1)
      else throw error

/-- `return this.prisma.$transaction(..)` in the `try`. -/
def softDelete : Async E A A := async (attempts code limitExceeded transaction MAX_RETRIES 0)

/-- The loop as the policy document has it: `return await this.prisma.$transaction(..)`. -/
def documented : Async E A A :=
  attempts code limitExceeded (transaction >>= settled) MAX_RETRIES 0

end

/-! The run on a sequence of outcomes, one for each transaction that begins. -/

structure Made where
  transactions : Nat := 0
  waits : List Nat := []

def exec (outcomes : Nat → Except E A) : (c : Step) → Made → Made × c.Reply E A
  | .transaction, made => ({ made with transactions := made.transactions + 1 }, made.transactions)
  | .settled promise, made => (made, outcomes promise)
  | .timeout ms, made => ({ made with waits := made.waits ++ [ms] }, ())

def run {B : Type} (outcomes : Nat → Except E A) (body : Async E A B) : Made × Except E B :=
  body.alone (exec outcomes) {}

/-- A transaction that was chosen as the victim of a deadlock. -/
def Deadlock (code : E → Option String) (outcome : Except E A) : Prop :=
  ∃ e, outcome = .error e ∧ code e = some "P2034"

/-- The retry policy: at most three attempts, the first success is the answer, and so is the
first error that is no deadlock or is the third one, with no attempt after it. -/
structure Retried (code : E → Option String) (outcomes : Nat → Except E A)
    (r : Made × Except E A) : Prop where
  atMost : r.1.transactions ≤ 3
  resolves : ∀ k a, k ≤ 2 → (∀ i < k, Deadlock code (outcomes i)) → outcomes k = .ok a →
    r.2 = .ok a ∧ r.1.transactions = k + 1
  rejects : ∀ k e, k ≤ 2 → (∀ i < k, Deadlock code (outcomes i)) → outcomes k = .error e →
    code e ≠ some "P2034" ∨ k = 2 → r.2 = .error e ∧ r.1.transactions = k + 1

@[simp] theorem settled_alone (outcomes : Nat → Except E A) (promise : Nat) (made : Made) :
    (settled promise).alone (exec outcomes) made = (made, outcomes promise) := by
  simp only [settled, Request.alone_call, exec]
  cases outcomes promise with
  | ok a => rfl
  | error e => rfl

section
variable (code : E → Option String) (limitExceeded : E) (outcomes : Nat → Except E A)

/-- The `try` ends with the promise before it is settled, so its `catch` is never entered. -/
theorem softDelete_run :
    run outcomes (softDelete code limitExceeded) = ({ transactions := 1 }, outcomes 0) := by
  change (settled 0).alone (exec outcomes) { transactions := 1 } = _
  exact settled_alone outcomes 0 _

/-- The awaited loop from `attempt` on, after as many transactions. -/
def awaited (left attempt : Nat) (waits : List Nat) : Made × Except E A :=
  (attempts code limitExceeded (transaction >>= settled) left attempt).alone (exec outcomes)
    ⟨attempt, waits⟩

theorem awaited_succ (left attempt : Nat) (waits : List Nat) :
    awaited code limitExceeded outcomes (left + 1) attempt waits =
      match outcomes attempt with
      | .ok a => (⟨attempt + 1, waits⟩, .ok a)
      | .error e =>
        (if code e = some "P2034" ∧ attempt < MAX_RETRIES - 1 then do
          timeout (100 * (attempt + 1))
          attempts code limitExceeded (transaction >>= settled) left (attempt + 1)
        else throw e : Async E A A).alone (exec outcomes) ⟨attempt + 1, waits⟩ := by
  have once : (transaction >>= settled : Async E A A).alone (exec outcomes) ⟨attempt, waits⟩ =
      (⟨attempt + 1, waits⟩, outcomes attempt) := settled_alone outcomes attempt _
  rw [awaited, attempts, Request.alone_tryCatch, once]
  cases outcomes attempt with
  | ok a => rfl
  | error e => rfl

/-- A deadlock in the first or second attempt is waited for and tried again. -/
theorem awaited_again {attempt : Nat} (dead : Deadlock code (outcomes attempt))
    (early : attempt < 2) (left : Nat) (waits : List Nat) :
    awaited code limitExceeded outcomes (left + 1) attempt waits =
      awaited code limitExceeded outcomes left (attempt + 1) (waits ++ [100 * (attempt + 1)]) := by
  obtain ⟨e, failed, deadlock⟩ := dead
  rw [awaited_succ, failed]
  simp only [if_pos (show code e = some "P2034" ∧ attempt < MAX_RETRIES - 1 from ⟨deadlock, early⟩)]
  rfl

theorem awaited_ends {attempt : Nat} (last : Deadlock code (outcomes attempt) → ¬ attempt < 2)
    (left : Nat) (waits : List Nat) :
    awaited code limitExceeded outcomes (left + 1) attempt waits =
      (⟨attempt + 1, waits⟩, outcomes attempt) := by
  rw [awaited_succ]
  cases answer : outcomes attempt with
  | ok a => rfl
  | error e =>
    have out : ¬ (code e = some "P2034" ∧ attempt < MAX_RETRIES - 1) :=
      fun h => last ⟨e, answer, h.1⟩ h.2
    simp only [if_neg out]
    rfl

/-- The awaited loop ends with the first attempt that is no deadlock, or with the third. -/
theorem awaited_last (left attempt : Nat) (waits : List Nat) (turns : attempt + left = 2) :
    ∃ retries, Retries.Last (fun i => Deadlock code (outcomes (attempt + i))) left retries ∧
      (awaited code limitExceeded outcomes (left + 1) attempt waits).1.transactions =
        attempt + retries + 1 ∧
      (awaited code limitExceeded outcomes (left + 1) attempt waits).2 =
        outcomes (attempt + retries) := by
  induction left generalizing attempt waits with
  | zero =>
    rw [awaited_ends code limitExceeded outcomes (fun _ => by omega)]
    exact ⟨0, .none_left, rfl, rfl⟩
  | succ left ih =>
    by_cases dead : Deadlock code (outcomes attempt)
    · obtain ⟨retries, last, made, answer⟩ :=
        ih (attempt + 1) (waits ++ [100 * (attempt + 1)]) (by omega)
      rw [awaited_again code limitExceeded outcomes dead (by omega), made, answer]
      exact ⟨retries + 1, .retry_from (fun i => Deadlock code (outcomes i)) dead last,
        by omega, by rw [Nat.add_right_comm]; rfl⟩
    · rw [awaited_ends code limitExceeded outcomes (fun h => absurd h dead)]
      exact ⟨0, .of_stop dead _, rfl, rfl⟩

/-- With the promise awaited in the `try`, the loop keeps the policy for every sequence of
outcomes. -/
theorem documented_retried :
    Retried code outcomes (run outcomes (documented code limitExceeded)) := by
  obtain ⟨retries, last, made, answer⟩ := awaited_last code limitExceeded outcomes 2 0 [] rfl
  change Retried code outcomes (awaited code limitExceeded outcomes 3 0 [])
  simp only [Nat.zero_add] at last made answer
  refine ⟨?_, ?_, ?_⟩
  · rw [made]
    exact Nat.succ_le_succ last.bound
  · intro k a small earlier success
    obtain rfl := last.eq_of small earlier (fun ⟨e, failed, _⟩ => by simp [success] at failed)
    exact ⟨answer.trans success, made⟩
  · intro k e small earlier failed final
    obtain rfl := last.eq_of small earlier (by
      rintro ⟨f, hf, dead⟩
      rw [failed] at hf
      cases hf
      exact final.resolve_left (fun h => h dead))
    exact ⟨answer.trans failed, made⟩

theorem softDelete_retried_iff :
    Retried code outcomes (run outcomes (softDelete code limitExceeded)) ↔
      ¬ Deadlock code (outcomes 0) := by
  rw [softDelete_run]
  constructor
  · intro kept dead
    -- the policy asks for as many attempts as the awaited loop makes, which are more than one
    obtain ⟨retries, last, -, -⟩ := awaited_last code limitExceeded outcomes 2 0 [] rfl
    simp only [Nat.zero_add] at last
    have attempts : 1 = retries + 1 := by
      cases answer : outcomes retries with
      | ok a => exact (kept.resolves retries a last.bound last.before answer).2
      | error e =>
        refine (kept.rejects retries e last.bound last.before answer ?_).2
        by_cases again : code e = some "P2034"
        · exact .inr (last.ends ⟨e, answer, again⟩)
        · exact .inl again
    obtain rfl : retries = 0 := by omega
    cases last.ends dead
  · intro alive
    have only {k : Nat} (earlier : ∀ i < k, Deadlock code (outcomes i)) : k = 0 := by
      by_contra positive
      exact alive (earlier 0 (Nat.pos_of_ne_zero positive))
    refine ⟨Nat.le_add_left 1 2, ?_, ?_⟩
    · intro k a _ earlier success
      obtain rfl := only earlier
      exact ⟨success, rfl⟩
    · intro k e _ earlier failed _
      obtain rfl := only earlier
      exact ⟨failed, rfl⟩

/-- One deadlock and then a success: the caller gets the deadlock's error. -/
theorem softDelete_not_retried :
    ¬ ∀ outcomes : Nat → Except String Unit,
      Retried some outcomes (run outcomes (softDelete some "Soft delete retry limit exceeded")) := by
  intro kept
  have policy := kept fun n => if n = 0 then .error "P2034" else .ok ()
  have success : (Except.error "P2034" : Except String Unit) = .ok () :=
    (policy.resolves 1 () (by decide) (fun i hi => ⟨"P2034", if_pos (by omega), rfl⟩) rfl).1
  cases success

end

end SecondhandApi.SoftDeleteRetries
