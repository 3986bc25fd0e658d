import Mathlib.Data.Rat.Defs
import Mathlib.Tactic.Ring
import SecondhandApi.Events
import SecondhandApi.Retries

/-! `BaseEventHandler.execute` of `src/events/handlers/base-event.handler.ts` with its calls to
the logger and its waits, and what it does for each sequence of outcomes of `handle`. -/
namespace SecondhandApi.HandlerRetries
open Interleaving

/-- What `execute` calls: the logger, with the texts after the message, `handle`, in the
execution of that retry count, and the timer. -/
inductive Step where
  | log (message handlerName : String)
  | warn (message handlerName : String)
  | error (message : String) (rest : List (Option String))
  | handle (retryCount : Nat)
  | sleep (ms : Rat)

/- The logger and `handle` may throw. -/
abbrev Step.Reply (E : Type) : Step → Type
  | sleep _ => Unit
  | _ => Except E Unit

abbrev Async (E A : Type) : Type := Request Step (Step.Reply E) E A

structure BaseEvent where
  eventType : String
  eventId : String

structure Handler where
  handlerName : String
  maxRetries : Nat
  retryDelay : Rat

/-- An error as the logger reads it. -/
class Thrown (E : Type) where
  message : E → String
  stack : E → Option String

structure Error where
  message : String
  stack : Option String
  deriving DecidableEq

instance : Thrown Error := ⟨Error.message, Error.stack⟩

variable {E : Type}

def orThrow : Except E Unit → Async E Unit
  | .ok _ => .done ()
  | .error e => .fail e

section
variable [Thrown E] (handler : Handler) (event : BaseEvent)

def subject : String := event.eventType ++ " | ID: " ++ event.eventId

def logEvent : Async E Unit := .call (.log ("이벤트 처리 시작: " ++ subject event) handler.handlerName) orThrow

def logSuccess : Async E Unit :=
  .call (.log ("✅ 이벤트 처리 완료: " ++ subject event) handler.handlerName) orThrow

def logError (error : E) : Async E Unit :=
  .call (.error ("❌ 이벤트 처리 실패: " ++ subject event ++ " | 오류: " ++ Thrown.message error)
    [Thrown.stack error, some handler.handlerName]) orThrow

def logMaxRetriesExceeded : Async E Unit :=
  .call (.error ("🚨 최대 재시도 횟수 초과: " ++ subject event) [some handler.handlerName]) orThrow

def handle (retryCount : Nat) : Async E Unit := .call (.handle retryCount) orThrow

def sleep (ms : Rat) : Async E Unit := .call (.sleep ms) .done

/- `execution` is `this.execute(event, logger, retryCount)`. -/
def retry (retryCount : Nat) (execution : Async E Unit) : Async E Unit := do
  .call (.warn ("재시도 중 (" ++ toString retryCount ++ "/" ++ toString handler.maxRetries ++ "): " ++
    subject event) handler.handlerName) orThrow
  sleep (handler.retryDelay * 2 ^ (retryCount - 1))
  execution

def execute (retryCount : Nat) : Async E Unit :=
  tryCatch (do
    logEvent handler event
    handle retryCount
    logSuccess handler event) fun error => do
    logError handler event error
    if retryCount < handler.maxRetries then
      retry handler event (retryCount + 1) (execute (retryCount + 1))
    else
      logMaxRetriesExceeded handler event
      throw error
termination_by handler.maxRetries - retryCount

end

/-! Among the other requests, where the logger is left out and `handle` makes calls of its own,
`execute` is the function of `Events`. -/

section
variable {C : Type} {R : C → Type} (body sleeping : Nat → Request C R E Unit)

/- A wait of a whole number of milliseconds, as the delays in the source are. -/
def among : (c : Step) → Request C R E (c.Reply E)
  | .handle retryCount => (body retryCount).settled
  | .sleep ms => sleeping ms.floor.toNat
  | .log .. | .warn .. | .error .. => .done (.ok ())

theorem execute_among [Thrown E] (handler : Handler) (event : BaseEvent) {delay : Nat}
    (whole : handler.retryDelay = delay) (left retryCount : Nat)
    (bound : retryCount + left = handler.maxRetries) :
    (execute handler event retryCount).translate (among body sleeping) =
      BaseEventHandler.execute body sleeping delay left retryCount := by
  induction left generalizing retryCount with
  | zero =>
    rw [execute, BaseEventHandler.execute]
    rw [← Request.tryCatch_throw (body retryCount)]
    refine Request.settled_bind (fun u => rfl) fun e => ?_
    change ((if retryCount < handler.maxRetries then _
      else do
        logMaxRetriesExceeded handler event
        throw e : Async E Unit).translate (among body sleeping)) = _
    rw [if_neg (by omega)]
    rfl
  | succ left ih =>
    rw [execute, BaseEventHandler.execute]
    refine Request.settled_bind (fun u => rfl) fun e => ?_
    change ((if retryCount < handler.maxRetries then
      retry handler event (retryCount + 1) (execute handler event (retryCount + 1))
      else _ : Async E Unit).translate (among body sleeping)) = _
    rw [if_pos (by omega), ← ih (retryCount + 1) (by omega)]
    have ms : (handler.retryDelay * 2 ^ retryCount).floor.toNat = delay * 2 ^ retryCount := by
      rw [whole]
      have : ((delay : Rat) * 2 ^ retryCount) = ((delay * 2 ^ retryCount : Nat) : Rat) := by
        push_cast
        rfl
      rw [this]
      exact congrArg Int.toNat (Rat.floor_intCast _)
    change (sleeping (handler.retryDelay * 2 ^ retryCount).floor.toNat >>= fun _ =>
      (execute handler event (retryCount + 1)).translate (among body sleeping)) = _
    rw [ms]
    rfl

end

/-! The run on a sequence of outcomes of `handle`, with a logger that answers `logger` to each
of its calls. The steps made are kept in their order. -/

structure Made where
  handled : Nat := 0
  steps : List Step := []

def exec (logger : Step → Except E Unit) (outcomes : Nat → Except E Unit) :
    (c : Step) → Made → Made × c.Reply E
  | .handle n, made => (⟨made.handled + 1, made.steps ++ [.handle n]⟩, outcomes made.handled)
  | .sleep ms, made => ({ made with steps := made.steps ++ [.sleep ms] }, ())
  | .log message name, made =>
    ({ made with steps := made.steps ++ [.log message name] }, logger (.log message name))
  | .warn message name, made =>
    ({ made with steps := made.steps ++ [.warn message name] }, logger (.warn message name))
  | .error message rest, made =>
    ({ made with steps := made.steps ++ [.error message rest] }, logger (.error message rest))

/-- The attempts and the waits among the steps, in their order. -/
def acts (steps : List Step) : List (Option Rat) :=
  steps.filterMap fun
    | .handle _ => some none
    | .sleep ms => some (some ms)
    | _ => none

def waits (steps : List Step) : List Rat := (acts steps).filterMap id

def attempts (steps : List Step) : Nat := (acts steps).count none

/-- An attempt, and then `retries` times a wait and an attempt, from the execution with that
retry count on. -/
def schedule (d : Rat) (retryCount : Nat) : (retries : Nat) → List (Option Rat)
  | 0 => [none]
  | retries + 1 => none :: some (d * 2 ^ retryCount) :: schedule d (retryCount + 1) retries

theorem schedule_count (d : Rat) (retries retryCount : Nat) :
    (schedule d retryCount retries).count none = retries + 1 := by
  induction retries generalizing retryCount with
  | zero => rfl
  | succ retries ih => simp [schedule, ih]

theorem schedule_waits (d : Rat) (retries retryCount : Nat) :
    (schedule d retryCount retries).filterMap id =
      (List.range retries).map fun i => d * 2 ^ (retryCount + i) := by
  induction retries generalizing retryCount with
  | zero => rfl
  | succ retries ih =>
    change d * 2 ^ retryCount :: (schedule d (retryCount + 1) retries).filterMap id = _
    rw [ih, List.range_succ_eq_map, List.map_cons, List.map_map, Nat.add_zero]
    refine congrArg _ (List.map_congr_left fun i _ => ?_)
    rw [Function.comp_apply, Nat.succ_eq_add_one, Nat.add_assoc, Nat.add_comm 1 i]

theorem waits_total (d : Rat) (retries : Nat) :
    ((List.range retries).map fun i => d * 2 ^ i).sum = d * (2 ^ retries - 1) := by
  induction retries with
  | zero => simp
  | succ retries ih =>
    rw [List.range_succ, List.map_append, List.sum_append, ih, List.map_singleton,
      List.sum_singleton, pow_succ]
    ring

/-- The logger does not throw. -/
def Quiet (logger : Step → Except E Unit) : Prop := ∀ c, logger c = .ok ()

@[simp] theorem acts_append (steps more : List Step) :
    acts (steps ++ more) = acts steps ++ acts more := List.filterMap_append

section
variable [Thrown E] (handler : Handler) (event : BaseEvent) {logger : Step → Except E Unit}
  (quiet : Quiet logger) (outcomes : Nat → Except E Unit)
include quiet

omit [Thrown E] in
theorem attempt_alone (retryCount : Nat) (made : Made) : ∃ steps,
    acts steps = acts made.steps ++ [none] ∧
    (do logEvent handler event; handle retryCount; logSuccess handler event : Async E Unit).alone
        (exec logger outcomes) made =
      (⟨made.handled + 1, steps⟩, outcomes made.handled) := by
  cases answer : outcomes made.handled with
  | ok u =>
    simp only [logEvent, handle, logSuccess, Request.call_bind, Request.alone_call, exec, quiet _,
      orThrow, Request.done_bind, answer]
    exact ⟨_, by simp [acts], rfl⟩
  | error e =>
    simp only [logEvent, handle, Request.call_bind, Request.alone_call, exec, quiet _, orThrow,
      Request.done_bind, answer, Request.fail_bind]
    exact ⟨_, by simp [acts], rfl⟩

/-- An execution that succeeds, or has no retries left, is its one attempt. -/
theorem execute_ends (retryCount : Nat) (made : Made)
    (final : (∃ e, outcomes made.handled = .error e) → handler.maxRetries ≤ retryCount) :
    ∃ steps, acts steps = acts made.steps ++ [none] ∧
      (execute handler event retryCount).alone (exec logger outcomes) made =
        (⟨made.handled + 1, steps⟩, outcomes made.handled) := by
  obtain ⟨steps, acted, attempted⟩ := attempt_alone handler event quiet outcomes retryCount made
  rw [execute, Request.alone_tryCatch, attempted]
  cases answer : outcomes made.handled with
  | ok u => exact ⟨steps, acted, rfl⟩
  | error e =>
    simp only [if_neg (Nat.not_lt.mpr (final ⟨e, answer⟩)), logError, logMaxRetriesExceeded,
      Request.call_bind, Request.alone_call, exec, quiet _, orThrow, Request.done_bind]
    exact ⟨_, by simp [acted]; rfl, rfl⟩

/-- An execution that fails with retries left waits and goes on as the next one. -/
theorem execute_again (retryCount : Nat) (made : Made) {e : E}
    (failed : outcomes made.handled = .error e) (more : retryCount < handler.maxRetries) :
    ∃ steps, acts steps = acts made.steps ++ [none, some (handler.retryDelay * 2 ^ retryCount)] ∧
      (execute handler event retryCount).alone (exec logger outcomes) made =
        (execute handler event (retryCount + 1)).alone (exec logger outcomes)
          ⟨made.handled + 1, steps⟩ := by
  obtain ⟨steps, acted, attempted⟩ := attempt_alone handler event quiet outcomes retryCount made
  rw [execute, Request.alone_tryCatch, attempted, failed]
  simp only [if_pos more, logError, retry, sleep, Request.call_bind, Request.alone_call, exec,
    quiet _, orThrow, Request.done_bind]
  exact ⟨_, by simp [acted]; rfl, rfl⟩

/-- The run goes on to the first attempt that succeeds, or to the last one. -/
theorem execute_last (left retryCount : Nat) (made : Made) (count : made.handled = retryCount)
    (bound : retryCount + left = handler.maxRetries) :
    ∃ retries, Retries.Last (fun i => outcomes (retryCount + i) ≠ .ok ()) left retries ∧
      ∃ made', acts made'.steps =
          acts made.steps ++ schedule handler.retryDelay retryCount retries ∧
        (execute handler event retryCount).alone (exec logger outcomes) made =
          (made', outcomes (retryCount + retries)) := by
  induction left generalizing retryCount made with
  | zero =>
    obtain ⟨steps, acted, ended⟩ := execute_ends handler event quiet outcomes
      retryCount made (fun _ => by omega)
    exact ⟨0, .none_left, _, acted, ended.trans (by rw [count]; rfl)⟩
  | succ left ih =>
    cases answer : outcomes retryCount with
    | ok u =>
      obtain ⟨steps, acted, ended⟩ := execute_ends handler event quiet outcomes
        retryCount made (by rw [count, answer]; rintro ⟨e, h⟩; cases h)
      exact ⟨0, .of_stop (fun failed => failed answer) _, _, acted,
        ended.trans (by rw [count]; rfl)⟩
    | error e =>
      obtain ⟨steps, acted, again⟩ := execute_again handler event quiet outcomes
        retryCount made (by rw [count]; exact answer) (by omega)
      obtain ⟨retries, last, made', acted', ended⟩ :=
        ih (retryCount + 1) ⟨made.handled + 1, steps⟩ (by simp [count]) (by omega)
      have failed : outcomes retryCount ≠ .ok () := by
        rw [answer]
        nofun
      refine ⟨retries + 1, .retry_from (fun i => outcomes i ≠ .ok ()) failed last, made', ?_, ?_⟩
      · rw [acted', acted, schedule, List.append_assoc]
        rfl
      · rw [again, ended, Nat.add_right_comm]
        rfl

end

/-- The retry policy of a run with the delay `d` and at most `n` retries: how often `handle` is
called, the waits, in their place after the attempts, and the answer. -/
structure Policy (n : Nat) (d : Rat) (outcomes : Nat → Except E Unit)
    (r : Made × Except E Unit) : Prop where
  succeeds : ∀ k, outcomes k = .ok () → (∀ i < k, outcomes i ≠ .ok ()) →
    attempts r.1.steps = min (k + 1) (n + 1)
  fails : (∀ k, outcomes k ≠ .ok ()) → attempts r.1.steps = n + 1
  never_again : ∀ i, i + 1 < attempts r.1.steps → outcomes i ≠ .ok ()
  resolves : r.2 = .ok () ↔ ∃ k < n + 1, outcomes k = .ok ()
  rejects : r.2 ≠ .ok () → r.2 = outcomes (attempts r.1.steps - 1)
  waited : waits r.1.steps = (List.range (attempts r.1.steps - 1)).map fun i => d * 2 ^ i
  total : (waits r.1.steps).sum = d * (2 ^ (attempts r.1.steps - 1) - 1)
  order : acts r.1.steps = schedule d 0 (attempts r.1.steps - 1)

def run [Thrown E] (handler : Handler) (event : BaseEvent) (logger : Step → Except E Unit)
    (outcomes : Nat → Except E Unit) : Made × Except E Unit :=
  (execute handler event 0).alone (exec logger outcomes) {}

theorem execute_policy [Thrown E] (handler : Handler) (event : BaseEvent)
    {logger : Step → Except E Unit} (quiet : Quiet logger) (outcomes : Nat → Except E Unit) :
    Policy handler.maxRetries handler.retryDelay outcomes (run handler event logger outcomes) := by
  obtain ⟨retries, last, made, acted, ended⟩ :=
    execute_last handler event quiet outcomes handler.maxRetries 0 {} rfl (Nat.zero_add _)
  simp only [Nat.zero_add] at last ended
  change acts made.steps = schedule handler.retryDelay 0 retries at acted
  have made_attempts : attempts made.steps = retries + 1 := by
    rw [attempts, acted, schedule_count]
  have made_waits : waits made.steps =
      (List.range retries).map fun i => handler.retryDelay * 2 ^ i := by
    rw [waits, acted, schedule_waits]
    simp only [Nat.zero_add]
  rw [run, ended]
  constructor
  case succeeds =>
    intro k success first
    rw [made_attempts]
    exact last.count_eq (not_not.mpr success) first
  case fails =>
    intro never
    rw [made_attempts, last.ends (never retries)]
  case never_again =>
    intro i below
    rw [made_attempts] at below
    exact last.before i (Nat.lt_of_succ_lt_succ below)
  case resolves => simpa only [not_not] using last.not_again_iff
  case rejects =>
    intro _
    simp only [made_attempts, Nat.add_sub_cancel]
  case waited => simpa only [made_attempts, Nat.add_sub_cancel] using made_waits
  case total =>
    simp only [made_attempts, Nat.add_sub_cancel, made_waits]
    exact waits_total _ _
  case order => simpa only [made_attempts, Nat.add_sub_cancel] using acted

/-- Two failures before a success, with the delay and the retries of the base class. -/
theorem execute_policy_recovers :
    Policy 3 1000 (fun n => if n < 2 then .error (⟨"down", none⟩ : Error) else .ok ())
      (run ⟨"UpdateLastMessageHandler", 3, 1000⟩ ⟨"message.sent", "1"⟩ (fun _ => .ok ())
        fun n => if n < 2 then .error ⟨"down", none⟩ else .ok ()) :=
  execute_policy ⟨"UpdateLastMessageHandler", 3, 1000⟩ ⟨"message.sent", "1"⟩ (fun _ => rfl)
    fun n => if n < 2 then .error (⟨"down", none⟩ : Error) else .ok ()

end SecondhandApi.HandlerRetries
