import SecondhandApi.EventPublisher
import SecondhandApi.HandlerRetries
import SecondhandApi.Retries

/-! `emitDistributed` and `retryPublish` of `src/events/publishers/event-publisher.service.ts` with
the calls they make, and the run for each sequence of outcomes of `publish`. -/
namespace SecondhandApi.PublishRetries
open Interleaving
open HandlerRetries (Thrown Error)

/-- The options with a whole number of retries. -/
structure Options where
  priority : Option Float
  expiration : Option String
  persistent : Option Bool
  maxRetries : Option Nat

def Options.plain (options : Options) : PublishOptions where
  priority := options.priority
  expiration := options.expiration
  persistent := options.persistent
  maxRetries := options.maxRetries.map Float.ofNat

/-- What is called: the pool of channels, the values that an event without an id or a time gets,
the logger, the channel and the timer. -/
inductive Step where
  | getChannel
  | identity
  | log (message : String)
  | warn (message : String)
  | error (message : String) (stack : Option String)
  | publish (channel : ChannelWrapper) (message : BaseEvent) (publication : Publication)
  | sleep (ms : Nat)
  | releaseChannel (channel : ChannelWrapper)

abbrev Step.Reply (E : Type) : Step → Type
  | getChannel => Except E ChannelWrapper
  | identity => String × Nat
  | sleep _ | releaseChannel _ => Unit
  | _ => Except E Unit

abbrev Async (E A : Type) : Type := Request Step (Step.Reply E) E A

variable {E : Type}

def orThrow {A : Type} : Except E A → Async E A
  | .ok a => .done a
  | .error e => .fail e

def retriesLeft (options : Option Options) : Nat := (options.bind (·.maxRetries)).getD 0

def oneLess (options : Option Options) : Option Options :=
  options.map fun o => { o with maxRetries := o.maxRetries.map (· - 1) }

theorem retriesLeft_oneLess (options : Option Options) :
    retriesLeft (oneLess options) = retriesLeft options - 1 := by
  rcases options with _ | ⟨priority, expiration, persistent, _ | maxRetries⟩ <;> rfl

section
variable [Thrown E]

/- `emission` is `this.emitDistributed(event, options)`. -/
def retryPublish (event : BaseEvent) (options : Option Options) (emission : Async E Unit) :
    Async E Unit := do
  .call (.warn ("재시도 중: " ++ event.eventType ++ " | 남은 재시도: " ++
    toString (retriesLeft options))) orThrow
  .call (.sleep (2 ^ retriesLeft options * 1000)) .done
  emission

/-- The body of the `try`. -/
def publishEvent (channel : ChannelWrapper) (event : BaseEvent) (publication : Publication) :
    Async E Unit := do
  .call (.log ("분산 이벤트 발행: " ++ event.eventType ++ " | ID: " ++ event.eventId.getD ""))
    orThrow
  .call (.publish channel event publication) orThrow
  .call (.log ("✅ 분산 이벤트 발행 성공: " ++ event.eventType)) orThrow

/-- The `finally` block, after the `try` with its `catch`. -/
def releasing (channel : ChannelWrapper) (body : Async E Unit) : Async E Unit := do
  let settled ← body.settled
  .call (.releaseChannel channel) .done
  orThrow settled

def emitDistributed (event : BaseEvent) (options : Option Options) : Async E Unit := do
  let channel ← .call .getChannel orThrow
  let (uuid, now) ← .call .identity .done
  let identified := event.identified uuid now
  let publication := event.publication (options.map Options.plain) now
  releasing channel (tryCatch (publishEvent channel identified publication) fun error => do
    .call (.error ("❌ 분산 이벤트 발행 실패: " ++ event.eventType) (Thrown.stack error)) orThrow
    if 0 < retriesLeft options then
      retryPublish identified (oneLess options) (emitDistributed identified (oneLess options))
    else throw error)
termination_by retriesLeft options
decreasing_by
  rw [retriesLeft_oneLess]
  omega

end

/-! The run on a sequence of outcomes of `publish`, while the pool gives a channel to each call and
the logger does not throw. The steps made are kept in their order. -/

structure Made where
  published : Nat := 0
  steps : List Step := []

def Made.add (made : Made) (step : Step) : Made := { made with steps := made.steps ++ [step] }

/-- What the pool and the source of ids and times answer after so many steps. -/
structure Surroundings where
  channel (n : Nat) : ChannelWrapper
  identity (n : Nat) : String × Nat

def exec (around : Surroundings) (outcomes : Nat → Except E Unit) :
    (c : Step) → Made → Made × c.Reply E
  | .getChannel, made => (made.add .getChannel, .ok (around.channel made.steps.length))
  | .identity, made => (made.add .identity, around.identity made.steps.length)
  | .publish channel message publication, made =>
    (⟨made.published + 1, made.steps ++ [.publish channel message publication]⟩,
      outcomes made.published)
  | .sleep ms, made => (made.add (.sleep ms), ())
  | .releaseChannel channel, made => (made.add (.releaseChannel channel), ())
  | .log message, made => (made.add (.log message), .ok ())
  | .warn message, made => (made.add (.warn message), .ok ())
  | .error message stack, made => (made.add (.error message stack), .ok ())

/-- The attempts and the waits among the steps, in their order. -/
def acts (steps : List Step) : List (Option Nat) :=
  steps.filterMap fun
    | .publish .. => some none
    | .sleep ms => some (some ms)
    | _ => none

def waits (steps : List Step) : List Nat := (acts steps).filterMap id

def attempts (steps : List Step) : Nat := (acts steps).count none

def run [Thrown E] (event : BaseEvent) (options : Option Options) (around : Surroundings)
    (outcomes : Nat → Except E Unit) : Made × Except E Unit :=
  (emitDistributed event options).alone (exec around outcomes) {}

@[simp] theorem acts_append (steps more : List Step) :
    acts (steps ++ more) = acts steps ++ acts more := List.filterMap_append

section
variable [Thrown E] (event : BaseEvent) (options : Option Options) (around : Surroundings)
  (outcomes : Nat → Except E Unit)

omit [Thrown E] in
theorem publishEvent_alone (channel : ChannelWrapper) (publication : Publication) (made : Made) :
    ∃ steps, acts steps = acts made.steps ++ [none] ∧
      (publishEvent channel event publication).alone (exec around outcomes) made =
        (⟨made.published + 1, steps⟩, outcomes made.published) := by
  cases answer : outcomes made.published with
  | ok u =>
    simp only [publishEvent, Request.call_bind, Request.alone_call, exec, Made.add, orThrow,
      Request.done_bind, answer]
    exact ⟨_, by simp [acts], rfl⟩
  | error e =>
    simp only [publishEvent, Request.call_bind, Request.alone_call, exec, Made.add, orThrow,
      Request.done_bind, Request.fail_bind, answer]
    exact ⟨_, by simp [acts], rfl⟩

omit [Thrown E] in
theorem releasing_alone (channel : ChannelWrapper) (body : Async E Unit) (made : Made) :
    (releasing channel body).alone (exec around outcomes) made =
      ((body.alone (exec around outcomes) made).1.add (.releaseChannel channel),
        (body.alone (exec around outcomes) made).2) := by
  rw [releasing, Request.alone_bind, Request.alone_settled]
  cases (body.alone (exec around outcomes) made).2 <;> rfl

/-- A call that succeeds, or has no retries left, is its one attempt. -/
theorem emitDistributed_ends (made : Made)
    (final : (∃ e, outcomes made.published = .error e) → retriesLeft options = 0) :
    ∃ steps, acts steps = acts made.steps ++ [none] ∧
      (emitDistributed event options).alone (exec around outcomes) made =
        (⟨made.published + 1, steps⟩, outcomes made.published) := by
  rw [emitDistributed]
  simp only [Request.call_bind, Request.alone_call, exec, Made.add, orThrow, Request.done_bind]
  obtain ⟨steps, acted, attempted⟩ := publishEvent_alone (event.identified _ _) around outcomes
    (around.channel made.steps.length) (event.publication (options.map Options.plain) _)
    ⟨made.published, made.steps ++ [.getChannel] ++ [.identity]⟩
  rw [releasing_alone, Request.alone_tryCatch, attempted]
  cases answer : outcomes made.published with
  | ok u => exact ⟨_, by simp [acted]; rfl, rfl⟩
  | error e =>
    have none_left : ¬0 < retriesLeft options := by
      rw [final ⟨e, answer⟩]
      exact Nat.lt_irrefl 0
    simp only [if_neg none_left, Request.alone_call, exec, Made.add, Request.done_bind]
    exact ⟨_, by simp [acted]; rfl, rfl⟩

/-- A call that fails with retries left waits, goes on as the next one and gives its channel
back. -/
theorem emitDistributed_again (made : Made) {e : E}
    (failed : outcomes made.published = .error e) (more : 0 < retriesLeft options) :
    ∃ identified channel steps,
      acts steps = acts made.steps ++ [none, some (2 ^ (retriesLeft options - 1) * 1000)] ∧
      (emitDistributed event options).alone (exec around outcomes) made =
        let retried := (emitDistributed identified (oneLess options)).alone (exec around outcomes)
          ⟨made.published + 1, steps⟩
        (retried.1.add (.releaseChannel channel), retried.2) := by
  rw [emitDistributed]
  simp only [Request.call_bind, Request.alone_call, exec, Made.add, orThrow, Request.done_bind]
  obtain ⟨steps, acted, attempted⟩ := publishEvent_alone (event.identified _ _) around outcomes
    (around.channel made.steps.length) (event.publication (options.map Options.plain) _)
    ⟨made.published, made.steps ++ [.getChannel] ++ [.identity]⟩
  rw [releasing_alone, Request.alone_tryCatch, attempted, failed]
  simp only [if_pos more, retryPublish, retriesLeft_oneLess, Request.call_bind,
    Request.alone_call, exec, Made.add, orThrow, Request.done_bind]
  exact ⟨_, _, _, by simp [acted]; rfl, rfl⟩

/-- The waits of so many retries when `left` were allowed. -/
def delays (left retries : Nat) : List Nat :=
  (List.range retries).map fun i => 2 ^ (left - 1 - i) * 1000

theorem delays_succ (left retries : Nat) :
    delays (left + 1) (retries + 1) = 2 ^ left * 1000 :: delays left retries := by
  rw [delays, List.range_succ_eq_map, List.map_cons, List.map_map]
  refine congrArg _ (List.map_congr_left fun i _ => ?_)
  rw [Function.comp_apply, show left + 1 - 1 - (i + 1) = left - 1 - i by omega]

/-- The run goes on to the first attempt that succeeds, or to the last one. -/
theorem emitDistributed_run (left : Nat) (bound : retriesLeft options = left) (made : Made) :
    ∃ retries, Retries.Last (fun i => outcomes (made.published + i) ≠ .ok ()) left retries ∧
      ∃ made', acts made'.steps =
          acts made.steps ++ Retries.schedule (delays left retries) ∧
        (emitDistributed event options).alone (exec around outcomes) made =
          (made', outcomes (made.published + retries)) := by
  induction left generalizing event options made with
  | zero =>
    obtain ⟨steps, acted, ended⟩ := emitDistributed_ends event options around outcomes made
      fun _ => bound
    exact ⟨0, .none_left, _, acted, ended⟩
  | succ left ih =>
    cases answer : outcomes made.published with
    | ok u =>
      obtain ⟨steps, acted, ended⟩ := emitDistributed_ends event options around outcomes made
        (by rw [answer]; rintro ⟨e, h⟩; cases h)
      exact ⟨0, .of_stop (fun failed => failed answer) _, _, acted, ended⟩
    | error e =>
      obtain ⟨identified, channel, steps, acted, again⟩ := emitDistributed_again event options
        around outcomes made answer (by omega)
      obtain ⟨retries, last, made', acted', ended⟩ := ih identified (oneLess options)
        (by rw [retriesLeft_oneLess, bound]; rfl) ⟨made.published + 1, steps⟩
      have failed : outcomes made.published ≠ .ok () := by
        rw [answer]
        nofun
      refine ⟨retries + 1, .retry_from (fun i => outcomes i ≠ .ok ()) failed last,
        made'.add (.releaseChannel channel), ?_, ?_⟩
      · have released : acts [Step.releaseChannel channel] = [] := rfl
        rw [delays_succ, Retries.schedule_cons, Made.add, acts_append, released, acted', acted,
          bound, List.append_nil, List.append_assoc]
        rfl
      · rw [again, ended, Nat.add_right_comm]
        rfl

end

/-- The waits of the comment: one second, and then twice as long each time. -/
def growing (retries : Nat) : List Nat := (List.range retries).map fun i => 1000 * 2 ^ i

/-- The retry policy of a run with at most `n` retries. -/
structure Policy (n : Nat) (outcomes : Nat → Except E Unit) (r : Made × Except E Unit) :
    Prop where
  bounded : attempts r.1.steps ≤ n + 1
  never_again : ∀ i, i + 1 < attempts r.1.steps → outcomes i ≠ .ok ()
  answered : r.2 = outcomes (attempts r.1.steps - 1)
  rejects : r.2 ≠ .ok () ↔ ∀ i < n + 1, outcomes i ≠ .ok ()
  last_error : r.2 ≠ .ok () → r.2 = outcomes n
  waited : acts r.1.steps = Retries.schedule (growing (attempts r.1.steps - 1))
  rising : (waits r.1.steps).Pairwise (· ≤ ·)

theorem run_eq [Thrown E] (event : BaseEvent) (options : Option Options) (around : Surroundings)
    (outcomes : Nat → Except E Unit) :
    ∃ retries, Retries.Last (fun i => outcomes i ≠ .ok ()) (retriesLeft options) retries ∧
      ∃ made, acts made.steps = Retries.schedule (delays (retriesLeft options) retries) ∧
        run event options around outcomes = (made, outcomes retries) := by
  obtain ⟨retries, last, made, acted, ended⟩ :=
    emitDistributed_run event options around outcomes _ rfl {}
  simp only [Nat.zero_add] at last ended
  exact ⟨retries, last, made, acted, ended⟩

theorem delays_eq_growing_iff {left retries : Nat} (bound : retries ≤ left) :
    delays left retries = growing retries ↔ left ≤ 1 ∨ retries = 0 := by
  constructor
  · intro same
    cases retries with
    | zero => exact .inr rfl
    | succ retries =>
      obtain ⟨left, rfl⟩ : ∃ m, left = m + 1 := ⟨left - 1, by omega⟩
      rw [delays_succ, growing, List.range_succ_eq_map, List.map_cons] at same
      have first : 2 ^ left * 1000 = 1000 * 2 ^ 0 := (List.cons.inj same).1
      have one : 2 ^ left = 1 := by omega
      cases left with
      | zero => exact .inl (Nat.le_refl 1)
      | succ left => rw [pow_succ] at one; omega
  · intro either
    cases retries with
    | zero => rfl
    | succ retries =>
      obtain ⟨rfl, rfl⟩ : left = 1 ∧ retries = 0 := by omega
      rfl

theorem growing_rises (retries : Nat) : (growing retries).Pairwise (· ≤ ·) := by
  rw [growing, List.pairwise_map]
  refine List.pairwise_lt_range.imp fun below => ?_
  exact Nat.mul_le_mul_left _ (Nat.pow_le_pow_right (by decide) (Nat.le_of_lt below))

/-- The waits are those of the comment when there is at most one to make. -/
theorem delays_last_iff {n retries : Nat} {outcomes : Nat → Except E Unit}
    (last : Retries.Last (fun i => outcomes i ≠ .ok ()) n retries) :
    delays n retries = growing retries ↔ n ≤ 1 ∨ outcomes 0 = .ok () := by
  rw [delays_eq_growing_iff last.bound, last.eq_zero_iff, not_not]
  constructor
  · rintro (few | rfl | success)
    · exact .inl few
    · exact .inl (Nat.zero_le 1)
    · exact .inr success
  · exact Or.imp_right .inr

theorem backoff_policy_iff [Thrown E] (event : BaseEvent) (options : Option Options)
    (around : Surroundings) (outcomes : Nat → Except E Unit) :
    Policy (retriesLeft options) outcomes (run event options around outcomes) ↔
      retriesLeft options ≤ 1 ∨ outcomes 0 = .ok () := by
  obtain ⟨retries, last, made, acted, ended⟩ := run_eq event options around outcomes
  have made_attempts : attempts made.steps = retries + 1 := by
    rw [attempts, acted, Retries.schedule_attempts, delays, List.length_map, List.length_range]
  have made_waits : waits made.steps = delays (retriesLeft options) retries := by
    rw [waits, acted, Retries.schedule_waits]
  rw [← delays_last_iff last, ended]
  constructor
  · intro policy
    rw [← made_waits, waits, policy.waited, Retries.schedule_waits, made_attempts,
      Nat.add_sub_cancel]
  · intro same
    constructor
    case bounded =>
      rw [made_attempts]
      exact Nat.succ_le_succ last.bound
    case never_again =>
      intro i below
      rw [made_attempts] at below
      exact last.before i (Nat.lt_of_succ_lt_succ below)
    case answered => rw [made_attempts, Nat.add_sub_cancel]
    case rejects => exact last.again_iff
    case last_error =>
      intro failed
      exact congrArg outcomes (last.ends failed)
    case waited => rw [made_attempts, acted, same, Nat.add_sub_cancel]
    case rising =>
      rw [made_waits, same]
      exact growing_rises _

/-- Three retries that all fail wait four seconds, then two, then one. -/
theorem backoff_shrinks :
    ¬Policy 3 (fun _ => .error (⟨"closed", none⟩ : Error))
      (run ⟨"order.created", none, none⟩ (some ⟨none, none, none, some 3⟩)
        ⟨fun _ => 0, fun _ => ("1", 0)⟩ fun _ => .error ⟨"closed", none⟩) := by
  intro policy
  obtain ⟨retries, last, made, acted, ended⟩ := run_eq (E := Error) ⟨"order.created", none, none⟩
    (some ⟨none, none, none, some 3⟩) ⟨fun _ => 0, fun _ => ("1", 0)⟩
    (fun _ => .error ⟨"closed", none⟩)
  obtain rfl : retries = 3 := last.ends (by nofun)
  have rising := policy.rising
  rw [ended, waits, acted, Retries.schedule_waits] at rising
  exact absurd rising (by decide)

end SecondhandApi.PublishRetries
