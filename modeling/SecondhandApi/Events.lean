import Mathlib.Algebra.Group.Nat.Defs
import SecondhandApi.Interleaving.Request

/-! `src/events/handlers/base-event.handler.ts`: the execution of a handler, with its
retries. A wait is whatever `sleep` makes of it; among other requests it is enough that a
wait is no call, since any turns may come between two calls. -/
namespace SecondhandApi.BaseEventHandler
open Interleaving

variable {C : Type} {R : C → Type} {E : Type}

def maxRetries : Nat := 3
def retryDelay : Nat := 1000

/- `retryCount` is that of the execution to come, so the first wait is `delay` itself. -/
def retry (sleep : Nat → Request C R E Unit) (delay retryCount : Nat)
    (execution : Request C R E Unit) : Request C R E Unit := do
  sleep (delay * 2 ^ (retryCount - 1))
  execution

/-- `handle` is the handler in the execution with that retry count; an error is thrown on
when no retries are left. -/
def execute (handle sleep : Nat → Request C R E Unit) (delay : Nat) :
    (left retryCount : Nat) → Request C R E Unit
  | 0, retryCount => handle retryCount
  | left + 1, retryCount =>
    tryCatch (handle retryCount) (fun _ =>
      retry sleep delay (retryCount + 1) (execute handle sleep delay left (retryCount + 1)))

end SecondhandApi.BaseEventHandler
