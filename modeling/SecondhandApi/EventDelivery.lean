import SecondhandApi.EventTopology
import SecondhandApi.Interleaving.Debts
import SecondhandApi.Interleaving.Tallies
import SecondhandApi.PublishRetries

/-! Calls of `emitDistributed` whose messages go to the broker that `setupInfrastructure` has set
up, while instances set it up again and consumers take and settle what is there. A channel keeps
what it is given and may send it again after a reconnect. -/
namespace SecondhandApi

deriving instance DecidableEq for BaseEvent

namespace EventDelivery
open Amqp Interleaving PublishRetries EventTopology
open HandlerRetries (Thrown)

variable {E : Type}

/-- What the pool, the source of ids and times, the logger and the channels answer to the n-th
call. -/
structure Surroundings (E : Type) where
  channel (n : Nat) : Except E ChannelWrapper
  identity (n : Nat) : String × Nat
  logged (n : Nat) : Except E Unit
  published (n : Nat) : Except E Unit

/-- The broker, and the events of the copies that channels have sent and no call has had a
confirmation of. -/
structure Delivery where
  broker : Broker BaseEvent
  unconfirmed : List BaseEvent
  calls : Nat

structure Emit where
  event : BaseEvent
  options : Option Options

def message (event : BaseEvent) (publication : Publication) : Message BaseEvent where
  body := event
  routingKey := publication.routingKey
  priority := (publication.priority.map (·.toUInt8.toNat)).getD 0
  expires := publication.expiration.isSome

namespace Delivery

def ticked (s : Delivery) : Delivery := { s with calls := s.calls + 1 }

def sent (s : Delivery) (event : BaseEvent) (publication : Publication) : Delivery :=
  { s with broker := s.broker.step (.publish publication.exchange (message event publication)) }

/-- A `publish` is confirmed by a copy that the channel has sent already, or sends now. -/
def confirm (s : Delivery) (event : BaseEvent) (publication : Publication) : Delivery :=
  if event ∈ s.unconfirmed then { s with unconfirmed := s.unconfirmed.erase event }
  else s.sent event publication

def exec (around : Surroundings E) : (c : Step) → Delivery → Delivery × c.Reply E
  | .getChannel, s => (s.ticked, around.channel s.calls)
  | .identity, s => (s.ticked, around.identity s.calls)
  | .publish _ event publication, s =>
    match around.published s.calls with
    | .ok _ => (s.ticked.confirm event publication, .ok ())
    | .error error => (s.ticked, .error error)
  | .sleep _, s => (s.ticked, ())
  | .releaseChannel _, s => (s.ticked, ())
  | .log _, s => (s.ticked, around.logged s.calls)
  | .warn _, s => (s.ticked, around.logged s.calls)
  | .error _ _, s => (s.ticked, around.logged s.calls)

end Delivery

abbrev EmitThread (E : Type) : Type := Thread Emit Step (Step.Reply E) E Unit

def published : Step → Option (BaseEvent × Publication)
  | .publish _ m publication => some (m, publication)
  | _ => none

/-- What a call has given to a channel: what it waits for, and what it was answered about. -/
def given (t : EmitThread E) : List (BaseEvent × Publication) :=
  (t.rest.pending.toList ++ t.log.map (·.call)).filterMap published

abbrev Deliveries (E : Type) : Type := Pool Delivery Emit Step (Step.Reply E) E Unit

section
variable [Thrown E]

def publishers (around : Surroundings E) : Service Delivery Emit Step (Step.Reply E) E Unit where
  exec := Delivery.exec around
  program e := emitDistributed e.event e.options

/-- A channel may send what it was given at any time and more than once: before it is answered, and
after a reconnect. -/
inductive Move where
  | emits (turn : Turn Emit)
  | sends (i k : Nat)
  | declares (d : Declaration) (own : d ∈ infrastructure)
  | consumes (e : Event BaseEvent) (own : e.isPublish = false)

def withBroker (p : Deliveries E) (b : Broker BaseEvent) : Deliveries E :=
  { p with store := { p.store with broker := b } }

def step (around : Surroundings E) (p : Deliveries E) : Move → Deliveries E
  | .emits turn => (publishers around).step p turn
  | .sends i k =>
    match p.threads[i]?.bind fun t => (given t)[k]? with
    | none => p
    | some (m, publication) =>
      { p with store := { p.store.sent m publication with unconfirmed := m :: p.store.unconfirmed } }
  | .declares d _ => withBroker p (Broker.exec (.declare d) p.store.broker).1
  | .consumes e _ => withBroker p (p.store.broker.step e)

end

/-! What the broker keeps once it is set up. -/

/-- A broker that went on from `b₀`, both of them set up. -/
structure Sound (b₀ b : Broker BaseEvent) : Prop where
  installed : ∀ d, b.topology.Holds d ↔ d ∈ infrastructure
  balanced : ∀ q x, b.Balanced q x
  paired : ∀ (d : ProcessedDomain), ∀ e ∈ b.ledger, e.Paired d.processQueue d.deadLetterQueue
  final : ∀ e ∈ b.ledger, e.Final "secondhand.notifications.send"
  losses : ∀ (d : ProcessedDomain) x, b.losses d.processQueue x = b₀.losses d.processQueue x

theorem sound_broker {turns : List (Turn (Client BaseEvent))}
    (ready : setUp (broker BaseEvent turns) = true) :
    Sound (broker BaseEvent turns).store (broker BaseEvent turns).store :=
  ⟨broker_installed ready, fun _ _ => balanced_run (Broker.balanced_idle _) turns,
    broker_paired turns, broker_final turns, fun _ _ => rfl⟩

variable {b₀ b : Broker BaseEvent}

theorem Sound.step (h : Sound b₀ b) (e : Event BaseEvent) : Sound b₀ (b.step e) := by
  obtain ⟨new, ledger, recorded⟩ := step_ledger b e
  constructor
  · simpa using h.installed
  · exact fun q x => Broker.balanced_step (h.balanced q x) e
  · intro d r member
    rw [ledger] at member
    rcases List.mem_append.mp member with old | fresh
    · exact h.paired d r old
    · exact paired_of_records (fun d => (h.installed d).mp) d (recorded r fresh)
  · intro r member
    rw [ledger] at member
    rcases List.mem_append.mp member with old | fresh
    · exact h.final r old
    · exact final_of_records (fun d => (h.installed d).mp) (recorded r fresh)
  · intro d x
    have none : (new.map (Entry.loses d.processQueue x)).sum = 0 := by
      refine List.sum_eq_zero_iff_forall_eq_nat.mpr fun n member => ?_
      obtain ⟨r, inside, rfl⟩ := List.mem_map.mp member
      exact not_loses_of_records h.installed d x (recorded r inside)
    rw [← h.losses d x, Broker.losses, ledger, List.map_append, List.sum_append, none, Nat.add_zero]
    rfl

/-- Another setup changes nothing. -/
theorem Sound.declare (h : Sound b₀ b) {d : Declaration} (own : d ∈ infrastructure) :
    Sound b₀ (Broker.exec (.declare d) b).1 := by
  simp only [Broker.exec]
  split
  · rename_i t declared
    have spec := Topology.declare_spec declared
    refine ⟨fun e => ?_, h.balanced, h.paired, h.final, h.losses⟩
    rw [spec, h.installed]
    exact or_iff_left_of_imp fun same => same ▸ own
  · exact h

/-! What one call publishes. -/

def confirmed (x : BaseEvent) : Answer Step (Step.Reply E) → Bool
  | ⟨.publish _ m _, .ok _⟩ => m = x
  | _ => false

def isAttempt : Answer Step (Step.Reply E) → Bool
  | ⟨.publish _ _ _, _⟩ => true
  | _ => false

/-- The event with an id and a time, where it had none. -/
structure Identifies (event m : BaseEvent) : Prop where
  eventType : m.eventType = event.eventType
  eventId : event.eventId.getD "" ≠ "" → m.eventId = event.eventId
  timestamp : ∀ time, event.timestamp = some time → m.timestamp = some time

theorem Identifies.refl (event : BaseEvent) : Identifies event event :=
  ⟨rfl, fun _ => rfl, fun _ => id⟩

theorem Identifies.identified {event m : BaseEvent} (h : Identifies event m) (uuid : String)
    (now : Nat) : Identifies event (m.identified uuid now) := by
  constructor
  · exact h.eventType
  · intro named
    have same := h.eventId named
    rw [BaseEvent.identified, same, if_neg named]
  · intro time set
    simp [BaseEvent.identified, h.timestamp time set]

/-- The event is addressed to the exchange of the events, under its type. -/
structure Addressed (event m : BaseEvent) (publication : Publication) : Prop where
  identifies : Identifies event m
  exchange : publication.exchange = "secondhand.events"
  routingKey : publication.routingKey = m.eventType

/-- A call that is allowed `n` attempts publishes its event. -/
def may (event : BaseEvent) (n : Nat) (log : List (Answer Step (Step.Reply E))) (c : Step) : Prop :=
  ∀ m publication, published c = some (m, publication) →
    log.countP isAttempt < n ∧ Addressed event m publication

/-- A call that resolves had a confirmation. -/
def ends (event : BaseEvent) (n : Nat) (log : List (Answer Step (Step.Reply E)))
    (r : Except E Unit) : Prop :=
  log.countP isAttempt ≤ n ∧
    (r = .ok () → ∃ m, Identifies event m ∧ 0 < log.countP (confirmed m))

theorem may_other {event : BaseEvent} {n : Nat} {log : List (Answer Step (Step.Reply E))} {c : Step}
    (other : published c = none) : may event n log c := by
  intro m publication same
  cases other.symm.trans same

/-- One attempt, from its first line to its last. -/
theorem publishEvent_obeys {event m : BaseEvent} {n : Nat}
    {log : List (Answer Step (Step.Reply E))} (same : Identifies event m)
    (left : log.countP isAttempt < n) (channel : ChannelWrapper) (publication : Publication)
    (exchange : publication.exchange = "secondhand.events")
    (key : publication.routingKey = m.eventType) :
    Request.Obeys (may event n) (fun l r => l.countP isAttempt ≤ log.countP isAttempt + 1 ∧
      (r = .ok () → 0 < l.countP (confirmed m))) log
      (publishEvent channel m publication : Async E Unit) := by
  simp only [publishEvent, Request.call_bind]
  refine ⟨may_other rfl, fun r => ?_⟩
  cases r with
  | error e => exact ⟨by simp [isAttempt], by simp⟩
  | ok u =>
    refine ⟨fun _ _ same' => ?_, fun r => ?_⟩
    · cases same'
      exact ⟨by simpa [isAttempt] using left, same, exchange, key⟩
    · cases r with
      | error e => exact ⟨by simp [isAttempt, List.countP_cons], by simp⟩
      | ok u =>
        refine ⟨may_other rfl, fun r => ?_⟩
        cases r with
        | error e => exact ⟨by simp [isAttempt, List.countP_cons], by simp⟩
        | ok u => exact ⟨by simp [isAttempt, List.countP_cons], by simp [confirmed]⟩

theorem ends_cons {event : BaseEvent} {n : Nat} {log : List (Answer Step (Step.Reply E))}
    {r : Except E Unit} (h : ends event n log r) (a : Answer Step (Step.Reply E))
    (other : isAttempt a = false) : ends event n (a :: log) r := by
  refine ⟨by simpa [List.countP_cons, other] using h.1, fun resolved => ?_⟩
  obtain ⟨m, same, some⟩ := h.2 resolved
  exact ⟨m, same, Nat.lt_of_lt_of_le some (by simp [List.countP_cons])⟩

theorem ends_failed {event : BaseEvent} {n : Nat} {log : List (Answer Step (Step.Reply E))} {e : E}
    (few : log.countP isAttempt ≤ n) : ends event n log (.error e) :=
  ⟨few, fun ok => by cases ok⟩

/-- An activation makes one attempt; if that fails it leaves the rest to the next. -/
theorem activation_obeys [Thrown E] {event m : BaseEvent} {options : Option Options} {n : Nat}
    {log : List (Answer Step (Step.Reply E))} (same : Identifies event m)
    (room : log.countP isAttempt < n)
    (again : 0 < retriesLeft options → ∀ m' (log' : List (Answer Step (Step.Reply E))),
      Identifies event m' → log'.countP isAttempt ≤ log.countP isAttempt + 1 →
      Request.Obeys (may event n) (ends event n) log'
        (emitDistributed m' (oneLess options) : Async E Unit)) :
    Request.Obeys (may event n) (ends event n) log (emitDistributed m options : Async E Unit) := by
  rw [emitDistributed]
  simp only [Request.call_bind]
  refine ⟨may_other rfl, fun r => ?_⟩
  cases r with
  | error e => exact ends_failed (by simpa [isAttempt] using Nat.le_of_lt room)
  | ok channel =>
    refine ⟨may_other rfl, fun identity => ?_⟩
    obtain ⟨uuid, now⟩ := identity
    change Request.Obeys _ _ _ (releasing channel _)
    rw [releasing]
    refine Request.obeys_bind _ _ (Request.obeys_settled _ (Request.obeys_weaken _
      (fun l r (ended : ends event n l r) => ?_) (Request.obeys_tryCatch _ _
        (Request.obeys_weaken _ (fun l r made => ?_)
          (publishEvent_obeys (same.identified uuid now) (by simpa [isAttempt] using room)
            channel _ rfl rfl)))))
    · -- the `finally` block
      exact ⟨may_other rfl, fun u => by cases r <;> exact ends_cons ended _ rfl⟩
    · obtain ⟨attempts, resolved⟩ := made
      have few : l.countP isAttempt ≤ log.countP isAttempt + 1 := by
        simpa [isAttempt, List.countP_cons] using attempts
      cases r with
      | ok u => exact ⟨by omega, fun _ => ⟨_, same.identified uuid now, resolved rfl⟩⟩
      | error e =>
        refine ⟨may_other rfl, fun r => ?_⟩
        cases r with
        | error e => exact ends_failed (by simp [isAttempt]; omega)
        | ok u =>
          change Request.Obeys _ _ _ (if 0 < retriesLeft options then _ else _)
          split
          · rename_i more
            refine ⟨may_other rfl, fun r => ?_⟩
            cases r with
            | error e => exact ends_failed (by simp [isAttempt]; omega)
            | ok u =>
              refine ⟨may_other rfl, fun u => ?_⟩
              exact again more _ _ (same.identified uuid now)
                (by simp [isAttempt]; omega)
          · exact ends_failed (by simp [isAttempt]; omega)

theorem emitDistributed_obeys [Thrown E] {event m : BaseEvent} {options : Option Options}
    {n left : Nat} {log : List (Answer Step (Step.Reply E))} (bound : retriesLeft options = left)
    (same : Identifies event m) (room : log.countP isAttempt + left < n) :
    Request.Obeys (may event n) (ends event n) log (emitDistributed m options : Async E Unit) := by
  induction left generalizing m options log with
  | zero => exact activation_obeys same room fun more => by omega
  | succ left ih =>
    refine activation_obeys same (by omega) fun _ m' log' same' few => ?_
    exact ih (by rw [retriesLeft_oneLess, bound]; rfl) same' (by omega)

/-! The calls and the broker together. -/

theorem publish_arrives (h : Sound b₀ b) {event m x : BaseEvent} {publication : Publication}
    {q : String} {domain : EventDomain} {action : Word}
    (named : words x.eventType = [domain.word.toList, action]) (bound : domain.queue = some q)
    (addressed : Addressed event m publication) :
    (b.step (.publish publication.exchange (message m publication))).arrivals q x =
      b.arrivals q x + if m = x then 1 else 0 := by
  rw [arrivals_step, addressed.exchange]
  change _ + (if m = x then (b.topology.route _ publication.routingKey).count q else 0) = _
  by_cases same : m = x
  · subst same
    rw [addressed.routingKey, route_domain h.installed named, bound]
    simp
  · simp [same]

/-- Other calls leave the broker alone. -/
theorem exec_other (around : Surroundings E) {c : Step} (other : published c = none) (s : Delivery) :
    (Delivery.exec around c s).1.broker = s.broker ∧
      (Delivery.exec around c s).1.unconfirmed = s.unconfirmed ∧
      ∀ x, confirmed x ⟨c, (Delivery.exec around c s).2⟩ = false := by
  cases c with
  | publish channel m publication => cases other
  | _ => exact ⟨rfl, rfl, fun _ => rfl⟩

section
variable {q : String} {x : BaseEvent} {domain : EventDomain} {action : Word}

/-- A confirmation takes a copy that was sent before, or brings one. -/
theorem confirm_arrives {s : Delivery} (h : Sound b₀ s.broker) {event m : BaseEvent}
    {publication : Publication} (named : words x.eventType = [domain.word.toList, action])
    (bound : domain.queue = some q) (addressed : Addressed event m publication) :
    Sound b₀ (s.confirm m publication).broker ∧
      (s.confirm m publication).broker.arrivals q x + s.unconfirmed.count x =
        s.broker.arrivals q x + (s.confirm m publication).unconfirmed.count x +
          (if m = x then 1 else 0) ∧
      ((s.confirm m publication).broker.arrivals q x ≠ s.broker.arrivals q x → m = x) := by
  unfold Delivery.confirm
  split
  · rename_i before
    refine ⟨h, ?_, fun changed => absurd rfl changed⟩
    by_cases same : m = x
    · subst same
      have some := List.count_pos_iff.mpr before
      simp only [List.count_erase_self, if_true]
      omega
    · rw [List.count_erase_of_ne (Ne.symm same), if_neg same, Nat.add_zero]
  · have brought := publish_arrives h named bound addressed
    have sound : Sound b₀ (s.sent m publication).broker :=
      h.step (.publish publication.exchange (message m publication))
    refine ⟨sound, ?_, fun changed => ?_⟩
    · simp only [Delivery.sent, brought]
      omega
    · by_contra other
      rw [if_neg other] at brought
      exact changed brought

/-- What holds of every state: `x` is an event of the domain whose queue is `q`. -/
structure Delivering (b₀ : Broker BaseEvent) (q : String) (x : BaseEvent) (p : Deliveries E) :
    Prop where
  sound : Sound b₀ p.store.broker
  obedient : Service.Obedient (fun e => may e.event (retriesLeft e.options + 1))
    (fun e => ends e.event (retriesLeft e.options + 1)) p
  addressed : ∀ t ∈ p.threads, ∀ a ∈ t.log, ∀ m publication,
    published a.call = some (m, publication) → Addressed t.op.event m publication
  copies : b₀.arrivals q x + tally (confirmed x) p + p.store.unconfirmed.count x ≤
    p.store.broker.arrivals q x
  came : p.store.broker.arrivals q x ≠ b₀.arrivals q x →
    ∃ t ∈ p.threads, ∃ publication, (x, publication) ∈ given t

theorem Delivering.addressed_given {p : Deliveries E} (h : Delivering b₀ q x p) {t : EmitThread E}
    (member : t ∈ p.threads) {m : BaseEvent} {publication : Publication}
    (has : (m, publication) ∈ given t) : Addressed t.op.event m publication := by
  obtain ⟨c, here, same⟩ := List.mem_filterMap.mp has
  rcases List.mem_append.mp here with standing | answered
  · obtain ⟨next, hr⟩ := Request.pending_eq_some (Option.mem_toList.mp standing)
    have obeys := h.obedient t member
    rw [hr] at obeys
    exact (obeys.1 m publication same).2
  · obtain ⟨a, seen, rfl⟩ := List.mem_map.mp answered
    exact h.addressed t member a seen m publication same

variable {around : Surroundings E}

theorem exec_arrives (around : Surroundings E)
    (named : words x.eventType = [domain.word.toList, action]) (bound : domain.queue = some q)
    {p : Deliveries E} (h : Delivering b₀ q x p) {i : Nat} {t : EmitThread E} {c : Step}
    {next : c.Reply E → Async E Unit} (ht : p.threads[i]? = some t) (hr : t.rest = .call c next) :
    Sound b₀ (Delivery.exec around c p.store).1.broker ∧
      (Delivery.exec around c p.store).1.broker.arrivals q x + p.store.unconfirmed.count x =
        p.store.broker.arrivals q x + (Delivery.exec around c p.store).1.unconfirmed.count x +
          (if confirmed x ⟨c, (Delivery.exec around c p.store).2⟩ then 1 else 0) ∧
      ((Delivery.exec around c p.store).1.broker.arrivals q x ≠ p.store.broker.arrivals q x →
        ∃ publication, published c = some (x, publication)) := by
  cases made : published c with
  | none =>
    obtain ⟨broker, unconfirmed, none⟩ := exec_other around made p.store
    rw [broker, unconfirmed, none x]
    exact ⟨h.sound, rfl, fun changed => absurd rfl changed⟩
  | some g =>
    obtain ⟨m, publication⟩ := g
    have addressed := (Service.obedient_pending h.obedient ht hr m publication made).2
    cases c with
    | publish channel m publication =>
      cases made
      cases answer : around.published p.store.calls
      all_goals simp only [Delivery.exec, answer]
      · exact ⟨h.sound, rfl, fun changed => absurd rfl changed⟩
      · obtain ⟨sound, balance, changed⟩ :=
          confirm_arrives (s := p.store.ticked) h.sound named bound addressed
        refine ⟨sound, by simpa [confirmed, Delivery.ticked] using balance, fun differs => ?_⟩
        exact ⟨publication, by rw [changed differs]⟩
    | _ => cases made

variable [Thrown E]

/-- What was given to a channel stays given. -/
theorem given_answered {t : EmitThread E} {c : Step} {next : c.Reply E → Async E Unit}
    (hr : t.rest = .call c next) (s : Delivery) :
    given t ⊆ given ((publishers around).answered t c next s) := by
  intro g member
  obtain ⟨d, here, made⟩ := List.mem_filterMap.mp member
  refine List.mem_filterMap.mpr ⟨d, List.mem_append_right _ ?_, made⟩
  rw [hr, Request.pending_call] at here
  exact here

theorem given_on {p : Deliveries E} {publication : Publication} (turn : Turn Emit)
    (has : ∃ t ∈ p.threads, (x, publication) ∈ given t) :
    ∃ t ∈ ((publishers around).step p turn).threads, ∃ publication, (x, publication) ∈ given t := by
  obtain ⟨u, inside, has⟩ := has
  rcases (publishers around).step_cases p turn with hs | ⟨op, _, hs⟩ | ⟨i, t, c, next, _, ht, hr, hs⟩
  · rw [hs]
    exact ⟨u, inside, publication, has⟩
  · rw [hs]
    exact ⟨u, List.mem_append_left _ inside, publication, has⟩
  · rw [hs]
    by_cases own : u = t
    · exact ⟨_, Service.answered_mem ht, publication, given_answered (own ▸ hr) _ (own ▸ has)⟩
    · exact ⟨u, Service.mem_set_of_ne inside ht own _, publication, has⟩

theorem Delivering.emits (named : words x.eventType = [domain.word.toList, action])
    (bound : domain.queue = some q) {p : Deliveries E} (h : Delivering b₀ q x p)
    (turn : Turn Emit) : Delivering b₀ q x ((publishers around).step p turn) where
  sound := (publishers around).store_step (I := fun s => Sound b₀ s.broker) h.sound turn
    (fun i t c next _ ht hr => (exec_arrives around named bound h ht hr).1)
  obedient := (publishers around).obedient_step (fun e (_ : True) =>
    emitDistributed_obeys rfl (.refl _) (by simp)) p turn h.obedient (fun _ _ => trivial)
  addressed := by
    apply (publishers around).threads_step (P := fun _ t => ∀ a ∈ t.log, ∀ m publication,
      published a.call = some (m, publication) → Addressed t.op.event m publication) h.addressed turn
    · exact fun op _ a none => by cases none
    · intro i t c next _ ht hr
      refine ⟨h.addressed, fun a seen m publication made => ?_⟩
      rcases List.mem_cons.mp seen with rfl | before
      · exact (Service.obedient_pending h.obedient ht hr m publication made).2
      · exact h.addressed t (List.mem_of_getElem? ht) a before m publication made
  copies := by
    refine (publishers around).tally_step (I := fun s n =>
      b₀.arrivals q x + n (confirmed x) + s.unconfirmed.count x ≤ s.broker.arrivals q x) h.copies
      turn (fun i t c next _ ht hr => ?_)
    obtain ⟨_, balance, _⟩ := exec_arrives around named bound h ht hr
    have before := h.copies
    have same : ((publishers around).exec c p.store) = Delivery.exec around c p.store := rfl
    simp only [same]
    omega
  came := by
    intro changed
    by_cases before : p.store.broker.arrivals q x = b₀.arrivals q x
    swap
    · obtain ⟨t, member, publication, has⟩ := h.came before
      exact given_on turn ⟨t, member, has⟩
    rcases (publishers around).step_cases p turn with hs | ⟨op, _, hs⟩ | ⟨i, t, c, next, _, ht, hr, hs⟩
    · rw [hs] at changed
      exact absurd before changed
    · rw [hs] at changed
      exact absurd before changed
    · rw [hs] at changed
      obtain ⟨_, _, new⟩ := exec_arrives around named bound h ht hr
      obtain ⟨publication, made⟩ := new (fun same => changed (same.trans before))
      have asks : (x, publication) ∈ given t := by
        refine List.mem_filterMap.mpr ⟨c, ?_, made⟩
        rw [hr]
        exact List.mem_append_left _ (Option.mem_toList.mpr rfl)
      exact given_on turn ⟨t, List.mem_of_getElem? ht, asks⟩

/-- A channel sends one more copy of what it was given. -/
theorem Delivering.sends (named : words x.eventType = [domain.word.toList, action])
    (bound : domain.queue = some q) {p : Deliveries E} (h : Delivering b₀ q x p) (i k : Nat) :
    Delivering b₀ q x (step around p (.sends i k)) := by
  rw [step]
  split
  · exact h
  · rename_i m publication found
    obtain ⟨t, ht, has⟩ := Option.bind_eq_some_iff.mp found
    have member := List.mem_of_getElem? ht
    have has := List.mem_of_getElem? has
    have brought := publish_arrives h.sound named bound (h.addressed_given member has)
    have counted : (m :: p.store.unconfirmed).count x =
        p.store.unconfirmed.count x + if m = x then 1 else 0 := by
      rw [List.count_cons]
      simp
    constructor
    · exact h.sound.step (.publish publication.exchange (message m publication))
    · exact h.obedient
    · exact h.addressed
    · have before := h.copies
      simp only [Delivery.sent, brought, counted]
      change b₀.arrivals q x + tally (confirmed x) p + _ ≤ _
      omega
    · intro changed
      by_cases same : m = x
      · exact ⟨t, member, publication, same ▸ has⟩
      · refine h.came (fun unchanged => changed ?_)
        rw [if_neg same] at brought
        exact brought.trans unchanged

theorem delivering_step (named : words x.eventType = [domain.word.toList, action])
    (bound : domain.queue = some q) (p : Deliveries E) (move : Move) (h : Delivering b₀ q x p) :
    Delivering b₀ q x (step around p move) := by
  cases move with
  | emits turn => exact h.emits named bound turn
  | sends i k => exact h.sends named bound i k
  | declares d own =>
    have same : (Broker.exec (.declare d) p.store.broker).1.arrivals q x =
        p.store.broker.arrivals q x := by
      simp only [Broker.exec]
      split <;> rfl
    exact ⟨h.sound.declare own, h.obedient, h.addressed, same ▸ h.copies, same ▸ h.came⟩
  | consumes e own =>
    have same : (p.store.broker.step e).arrivals q x = p.store.broker.arrivals q x := by
      rw [arrivals_step]
      cases e with
      | publish exchange m => cases own
      | _ => rfl
    exact ⟨h.sound.step e, h.obedient, h.addressed, same ▸ h.copies, same ▸ h.came⟩

/-- A call that resolves has brought its event to the broker, in at most as many attempts as it is
allowed. A queue receives an event at least once for each confirmation, since a channel may send
it again, and only if a call has given it to a channel. What the queues of a domain have received
is there still, confirmed by a consumer, or was given up twice; what the queue of the
notifications has received is there, confirmed or given up. -/
theorem events_delivered (around : Surroundings E) {setup : List (Turn (Client BaseEvent))}
    (ready : setUp (broker BaseEvent setup) = true) (moves : List Move) (x : BaseEvent)
    (named : words x.eventType = [domain.word.toList, action]) (bound : domain.queue = some q) :
    let b₀ := (broker BaseEvent setup).store
    let p := run (step around) (Pool.idle ⟨b₀, [], 0⟩) moves
    let b := p.store.broker
    (∀ t ∈ p.threads, ∀ r, t.rest = .done r →
      t.log.countP isAttempt ≤ retriesLeft t.op.options + 1 ∧
      ∃ m, Identifies t.op.event m ∧ 0 < t.log.countP (confirmed m)) ∧
    b₀.arrivals q x + tally (confirmed x) p ≤ b.arrivals q x ∧
    (b.arrivals q x ≠ b₀.arrivals q x → ∃ t ∈ p.threads, Identifies t.op.event x ∧
      ∃ publication, (x, publication) ∈ given t) ∧
    (∀ d : ProcessedDomain, q = d.processQueue →
      b.arrivals d.processQueue x + b.arrivals d.deadLetterQueue x =
        b.copies d.processQueue x + b.copies d.deadLetterQueue x +
          (b.acks d.processQueue x + b.acks d.deadLetterQueue x) +
          (b₀.losses d.processQueue x + b.losses d.deadLetterQueue x)) ∧
    (q = "secondhand.notifications.send" →
      b.arrivals q x = b.copies q x + b.acks q x + b.losses q x) := by
  intro b₀ p b
  have delivering : Delivering b₀ q x p :=
    run_keeps (I := Delivering b₀ q x) (delivering_step named bound)
      ⟨sound_broker ready, (fun _ none => by cases none), (fun _ none => by cases none),
        Nat.le_refl _, fun changed => absurd rfl changed⟩ moves
  refine ⟨fun t member r ended => ?_, ?_, fun changed => ?_, fun d same => ?_, fun same => ?_⟩
  · have obeys := delivering.obedient t member
    rw [ended] at obeys
    exact ⟨obeys.1, obeys.2 rfl⟩
  · exact Nat.le_of_add_right_le delivering.copies
  · obtain ⟨t, member, publication, has⟩ := delivering.came changed
    exact ⟨t, member, (delivering.addressed_given member has).identifies, publication, has⟩
  · subst same
    rw [← delivering.sound.losses d x]
    exact Broker.Balanced.paired (fun q => delivering.sound.balanced q x)
      (deadLetterQueue_apart d d) (delivering.sound.paired d)
  · exact Broker.Balanced.final (delivering.sound.balanced q x) (same ▸ delivering.sound.final)

end

def orderPaid : BaseEvent := ⟨EventType.orderPaid.value, some "7", some 0⟩

def oneSetup : List (Turn (Client BaseEvent)) := .arrive .setup :: List.replicate 21 (.call 0)

/-- The first attempt is not confirmed. -/
def flaky : Surroundings HandlerRetries.Error where
  channel _ := .ok 0
  identity _ := ("7", 0)
  logged _ := .ok ()
  published n := if n = 3 then .error ⟨"closed", none⟩ else .ok ()

/-- Both attempts are sent, the first one again after the reconnect, and one copy is settled. -/
def sentAgain : List Move :=
  .emits (.arrive ⟨orderPaid, some ⟨none, none, none, some 1⟩⟩) ::
    List.replicate 3 (.emits (.call 0)) ++ [.sends 0 0] ++ List.replicate 7 (.emits (.call 0)) ++
    [.sends 0 0] ++ List.replicate 4 (.emits (.call 0)) ++ [.sends 0 1,
      .consumes (.deliver "secondhand.orders.process") rfl,
      .consumes (.ack "secondhand.orders.process" 0) rfl]

theorem events_delivered_order_paid :
    let b₀ := (broker BaseEvent oneSetup).store
    let p := run (step flaky) (Pool.idle ⟨b₀, [], 0⟩) sentAgain
    let b := p.store.broker
    b₀.arrivals "secondhand.orders.process" orderPaid + tally (confirmed orderPaid) p ≤
        b.arrivals "secondhand.orders.process" orderPaid ∧
      b.arrivals "secondhand.orders.process" orderPaid +
          b.arrivals "secondhand.orders.dead-letter" orderPaid =
        b.copies "secondhand.orders.process" orderPaid +
          b.copies "secondhand.orders.dead-letter" orderPaid +
          (b.acks "secondhand.orders.process" orderPaid +
            b.acks "secondhand.orders.dead-letter" orderPaid) +
          (b₀.losses "secondhand.orders.process" orderPaid +
            b.losses "secondhand.orders.dead-letter" orderPaid) := by
  have ready : setUp (broker BaseEvent oneSetup) = true := by decide +kernel
  have named : words orderPaid.eventType = [EventDomain.order.word.toList, "paid".toList] := by
    decide
  have delivered := events_delivered flaky ready sentAgain orderPaid named rfl
  exact ⟨delivered.2.1, delivered.2.2.2.1 .orders rfl⟩

example : (run (step flaky) (Pool.idle ⟨(broker BaseEvent oneSetup).store, [], 0⟩)
    sentAgain).store.broker.ledger.length = 4 := by decide +kernel

end EventDelivery
end SecondhandApi
