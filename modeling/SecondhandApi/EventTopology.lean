import SecondhandApi.Amqp.Clients

/-! `setupInfrastructure` of `src/rabbitmq/rabbitmq-connection.service.ts` and the event types of
`src/events/types/event.types.ts`. Every instance of the application makes the same declarations,
again each time that its first channel is opened, while messages go through the broker. -/
namespace SecondhandApi
open Amqp Interleaving

/-- A domain whose events are processed, with a queue for those that failed. -/
inductive ProcessedDomain where
  | orders | payments | users | products
  deriving DecidableEq

namespace ProcessedDomain

def processQueue : ProcessedDomain → String
  | orders => "secondhand.orders.process"
  | payments => "secondhand.payments.process"
  | users => "secondhand.users.process"
  | products => "secondhand.products.process"

def deadLetterQueue : ProcessedDomain → String
  | orders => "secondhand.orders.dead-letter"
  | payments => "secondhand.payments.dead-letter"
  | users => "secondhand.users.dead-letter"
  | products => "secondhand.products.dead-letter"

def failedKey : ProcessedDomain → String
  | orders => "orders.failed"
  | payments => "payments.failed"
  | users => "users.failed"
  | products => "products.failed"

def pattern : ProcessedDomain → String
  | orders => "order.*"
  | payments => "payment.*"
  | users => "user.*"
  | products => "product.*"

def processOptions (d : ProcessedDomain) : QueueOptions where
  durable := true
  deadLetterExchange := "secondhand.dlx"
  deadLetterRoutingKey := d.failedKey

def declarations (d : ProcessedDomain) : List Declaration :=
  [.assertQueue d.processQueue d.processOptions,
   .bindQueue ⟨d.processQueue, "secondhand.events", d.pattern⟩,
   .assertQueue d.deadLetterQueue { durable := true },
   .bindQueue ⟨d.deadLetterQueue, "secondhand.dlx", d.failedKey⟩]

end ProcessedDomain

/-- The sections of the enumeration of event types. -/
inductive EventDomain where
  | user | product | order | payment | notification | message
  deriving DecidableEq

namespace EventDomain

def word : EventDomain → String
  | user => "user"
  | product => "product"
  | order => "order"
  | payment => "payment"
  | notification => "notification"
  | message => "message"

/-- No queue is bound for the events of messages. -/
def queue : EventDomain → Option String
  | user => some ProcessedDomain.users.processQueue
  | product => some ProcessedDomain.products.processQueue
  | order => some ProcessedDomain.orders.processQueue
  | payment => some ProcessedDomain.payments.processQueue
  | notification => some "secondhand.notifications.send"
  | message => none

end EventDomain

inductive EventType where
  | userRegistered | userVerified | userUpdated | userDeleted
  | productCreated | productUpdated | productDeleted | productReserved | productSold
  | orderCreated | orderPaid | orderProcessing | orderShipped | orderDelivered | orderCancelled | orderRefunded
  | paymentRequested | paymentCompleted | paymentFailed | paymentCancelled | paymentRefunded
  | notificationEmail | notificationSms | notificationPush
  | messageSent | messageRead | messageDeleted

def EventType.value : EventType → String
  | userRegistered => "user.registered"
  | userVerified => "user.verified"
  | userUpdated => "user.updated"
  | userDeleted => "user.deleted"
  | productCreated => "product.created"
  | productUpdated => "product.updated"
  | productDeleted => "product.deleted"
  | productReserved => "product.reserved"
  | productSold => "product.sold"
  | orderCreated => "order.created"
  | orderPaid => "order.paid"
  | orderProcessing => "order.processing"
  | orderShipped => "order.shipped"
  | orderDelivered => "order.delivered"
  | orderCancelled => "order.cancelled"
  | orderRefunded => "order.refunded"
  | paymentRequested => "payment.requested"
  | paymentCompleted => "payment.completed"
  | paymentFailed => "payment.failed"
  | paymentCancelled => "payment.cancelled"
  | paymentRefunded => "payment.refunded"
  | notificationEmail => "notification.email"
  | notificationSms => "notification.sms"
  | notificationPush => "notification.push"
  | messageSent => "message.sent"
  | messageRead => "message.read"
  | messageDeleted => "message.deleted"

def EventType.domain : EventType → EventDomain
  | userRegistered | userVerified | userUpdated | userDeleted => .user
  | productCreated | productUpdated | productDeleted | productReserved | productSold => .product
  | orderCreated | orderPaid | orderProcessing | orderShipped | orderDelivered | orderCancelled | orderRefunded => .order
  | paymentRequested | paymentCompleted | paymentFailed | paymentCancelled | paymentRefunded => .payment
  | notificationEmail | notificationSms | notificationPush => .notification
  | messageSent | messageRead | messageDeleted => .message

namespace EventTopology

/-- The declarations of `setupInfrastructure`, in its order. -/
def infrastructure : List Declaration :=
  [.assertExchange "secondhand.events" ⟨.topic, true⟩,
   .assertExchange "secondhand.commands" ⟨.direct, true⟩,
   .assertExchange "secondhand.dlx" ⟨.topic, true⟩] ++
  ProcessedDomain.orders.declarations ++
  ProcessedDomain.payments.declarations ++
  [.assertQueue "secondhand.notifications.send" { durable := true, maxPriority := some 10 },
   .bindQueue ⟨"secondhand.notifications.send", "secondhand.events", "notification.*"⟩] ++
  ProcessedDomain.users.declarations ++
  ProcessedDomain.products.declarations

def setupInfrastructure {M : Type} : Request (Call M) Call.Reply Amqp.Error Unit :=
  declareAll infrastructure

/-- The instances of the application, with whatever else sends, takes and settles messages. -/
def instances (M : Type) : Service (Broker M) (Client M) (Call M) Call.Reply Amqp.Error Unit :=
  clients M setupInfrastructure

abbrev Instances (M : Type) : Type :=
  Pool (Broker M) (Client M) (Call M) Call.Reply Amqp.Error Unit

theorem infrastructure_consistent : Consistent infrastructure := by
  constructor
  · decide
  · decide

theorem exchange_iff {exchange : String} {x : Exchange} :
    .assertExchange exchange x ∈ infrastructure ↔
      exchange = "secondhand.events" ∧ x = ⟨.topic, true⟩ ∨
      exchange = "secondhand.commands" ∧ x = ⟨.direct, true⟩ ∨
      exchange = "secondhand.dlx" ∧ x = ⟨.topic, true⟩ := by
  simp [infrastructure, ProcessedDomain.declarations]

theorem binding_iff {binding : Binding} : .bindQueue binding ∈ infrastructure ↔
    (∃ d : ProcessedDomain, binding = ⟨d.processQueue, "secondhand.events", d.pattern⟩ ∨
      binding = ⟨d.deadLetterQueue, "secondhand.dlx", d.failedKey⟩) ∨
    binding = ⟨"secondhand.notifications.send", "secondhand.events", "notification.*"⟩ := by
  simp only [infrastructure, ProcessedDomain.declarations, List.cons_append, List.nil_append,
    List.mem_cons, Declaration.bindQueue.injEq, reduceCtorEq, false_or, List.not_mem_nil, or_false]
  constructor
  · rintro (h | h | h | h | h | h | h | h | h)
    · exact Or.inl ⟨.orders, Or.inl h⟩
    · exact Or.inl ⟨.orders, Or.inr h⟩
    · exact Or.inl ⟨.payments, Or.inl h⟩
    · exact Or.inl ⟨.payments, Or.inr h⟩
    · exact Or.inr h
    · exact Or.inl ⟨.users, Or.inl h⟩
    · exact Or.inl ⟨.users, Or.inr h⟩
    · exact Or.inl ⟨.products, Or.inl h⟩
    · exact Or.inl ⟨.products, Or.inr h⟩
  · rintro (⟨d, h | h⟩ | h)
    · cases d <;> simp [h]
    · cases d <;> simp [h]
    · simp [h]

theorem queue_iff {queue : String} {options : QueueOptions} :
    .assertQueue queue options ∈ infrastructure ↔
      (∃ d : ProcessedDomain, queue = d.processQueue ∧ options = d.processOptions ∨
        queue = d.deadLetterQueue ∧ options = { durable := true }) ∨
      queue = "secondhand.notifications.send" ∧
        options = { durable := true, maxPriority := some 10 } := by
  simp only [infrastructure, ProcessedDomain.declarations, List.cons_append, List.nil_append,
    List.mem_cons, Declaration.assertQueue.injEq, reduceCtorEq, false_or, List.not_mem_nil, or_false]
  constructor
  · rintro (h | h | h | h | h | h | h | h | h)
    · exact Or.inl ⟨.orders, Or.inl h⟩
    · exact Or.inl ⟨.orders, Or.inr h⟩
    · exact Or.inl ⟨.payments, Or.inl h⟩
    · exact Or.inl ⟨.payments, Or.inr h⟩
    · exact Or.inr h
    · exact Or.inl ⟨.users, Or.inl h⟩
    · exact Or.inl ⟨.users, Or.inr h⟩
    · exact Or.inl ⟨.products, Or.inl h⟩
    · exact Or.inl ⟨.products, Or.inr h⟩
  · rintro (⟨d, h | h⟩ | h)
    · cases d <;> simp [h]
    · cases d <;> simp [h]
    · simp [h]

variable {t : Topology}

/-- The words that each pattern asks for. -/
theorem accepts_pattern (d : EventDomain) {key : String} :
    ExchangeType.topic.accepts (d.word ++ ".*") key = true ↔
      ∃ action, words key = [d.word.toList, action] := by
  have pattern : words (d.word ++ ".*") = [d.word.toList, ['*']] := by cases d <;> decide
  have plain : d.word.toList ≠ ['#'] ∧ d.word.toList ≠ ['*'] := by cases d <;> decide
  rw [ExchangeType.accepts, pattern, matchesWords_word plain.1 plain.2]
  simp only [matchesWords_star, matchesWords_nil]
  constructor
  · rintro ⟨rest, same, action, none, rfl, rfl⟩
    exact ⟨action, same⟩
  · rintro ⟨action, same⟩
    exact ⟨[action], same, action, [], rfl, rfl⟩

theorem accepts_failed (d : ProcessedDomain) {key : String} :
    ExchangeType.topic.accepts d.failedKey key = true ↔ words key = words d.failedKey := by
  have pattern : ∃ domain, words d.failedKey = [domain, "failed".toList] ∧
      domain ≠ ['#'] ∧ domain ≠ ['*'] := by
    refine ⟨(words d.failedKey).headD [], ?_⟩
    cases d <;> decide
  obtain ⟨domain, same, noHash, noStar⟩ := pattern
  rw [ExchangeType.accepts, same, matchesWords_word noHash noStar]
  simp only [matchesWords_word (w := "failed".toList) (by decide) (by decide), matchesWords_nil]
  constructor
  · rintro ⟨rest, here, action, rfl, rfl⟩
    exact here
  · exact fun here => ⟨_, here, _, rfl, rfl⟩

/-- The bindings of `secondhand.events`, by the domains of the events. -/
theorem binding_events_iff {queue pattern : String} :
    .bindQueue ⟨queue, "secondhand.events", pattern⟩ ∈ infrastructure ↔
      ∃ domain : EventDomain, domain.queue = some queue ∧ pattern = domain.word ++ ".*" := by
  simp only [binding_iff, Binding.mk.injEq]
  constructor
  · rintro (⟨d, ⟨rfl, -, rfl⟩ | ⟨-, other, -⟩⟩ | ⟨rfl, -, rfl⟩)
    · cases d
      · exact ⟨.order, rfl, by decide⟩
      · exact ⟨.payment, rfl, by decide⟩
      · exact ⟨.user, rfl, by decide⟩
      · exact ⟨.product, rfl, by decide⟩
    · simp at other
    · exact ⟨.notification, rfl, by decide⟩
  · rintro ⟨domain, bound, rfl⟩
    cases domain <;> cases bound
    · exact Or.inl ⟨.users, Or.inl ⟨rfl, trivial, by decide⟩⟩
    · exact Or.inl ⟨.products, Or.inl ⟨rfl, trivial, by decide⟩⟩
    · exact Or.inl ⟨.orders, Or.inl ⟨rfl, trivial, by decide⟩⟩
    · exact Or.inl ⟨.payments, Or.inl ⟨rfl, trivial, by decide⟩⟩
    · exact Or.inr ⟨rfl, trivial, by decide⟩

theorem mem_route_events (h : ∀ d, t.Holds d ↔ d ∈ infrastructure) {key queue : String} :
    queue ∈ t.route "secondhand.events" key ↔
      ∃ (domain : EventDomain) (action : Word), words key = [domain.word.toList, action] ∧
        domain.queue = some queue := by
  simp only [Topology.mem_route, h, binding_events_iff]
  constructor
  · rintro ⟨x, pattern, exchange, ⟨domain, bound, rfl⟩, accepted⟩
    have topic : x = ⟨.topic, true⟩ := by simpa using exchange_iff.mp exchange
    subst topic
    obtain ⟨action, same⟩ := (accepts_pattern domain).mp accepted
    exact ⟨domain, action, same, bound⟩
  · rintro ⟨domain, action, same, bound⟩
    exact ⟨⟨.topic, true⟩, _, exchange_iff.mpr (by simp), ⟨domain, bound, rfl⟩,
      (accepts_pattern domain).mpr ⟨action, same⟩⟩

theorem word_injective {d d' : EventDomain} (h : d.word.toList = d'.word.toList) : d = d' := by
  revert h
  cases d <;> cases d' <;> decide

theorem route_domain (h : ∀ d, t.Holds d ↔ d ∈ infrastructure) {key : String}
    {domain : EventDomain} {action : Word} (named : words key = [domain.word.toList, action]) :
    t.route "secondhand.events" key = domain.queue.toList := by
  refine Topology.route_eq_toList fun queue => ?_
  rw [mem_route_events h]
  constructor
  · rintro ⟨domain', action', named', bound⟩
    obtain rfl := word_injective (List.cons.inj (named.symm.trans named')).1
    exact bound
  · exact fun bound => ⟨domain, action, named, bound⟩

/-- A queue without a dead-letter exchange, or none of that name. -/
theorem deadLetterQueues_eq (source key : String) :
    t.deadLetterQueues source key = [] ∨ ∃ o exchange, t.Holds (.assertQueue source o) ∧
      o.deadLetterExchange = some exchange ∧
      t.deadLetterQueues source key = t.route exchange (o.deadLetterRoutingKey.getD key) := by
  unfold Topology.deadLetterQueues Topology.deadLetterKey
  cases found : t.queues.find? source with
  | none => exact Or.inl rfl
  | some o =>
    cases named : o.deadLetterExchange with
    | none => left; simp [named]
    | some exchange => exact Or.inr ⟨o, exchange, found, named, by simp [named]⟩

/-- The queues bound to the dead-letter exchange, each for the messages of one domain. -/
theorem mem_route_failed (h : ∀ d, t.Holds d → d ∈ infrastructure) {d : ProcessedDomain}
    {queue : String} (member : queue ∈ t.route "secondhand.dlx" d.failedKey) :
    queue = d.deadLetterQueue := by
  obtain ⟨x, pattern, exchange, bound, accepted⟩ := Topology.mem_route.mp member
  have topic : x = ⟨.topic, true⟩ := by simpa using exchange_iff.mp (h _ exchange)
  subst topic
  rcases binding_iff.mp (h _ bound) with ⟨d', same | same⟩ | same
  · simp at same
  · obtain ⟨rfl, -, rfl⟩ := Binding.mk.inj same
    have keys := (accepts_failed d').mp accepted
    suffices d = d' by rw [this]
    revert keys
    cases d <;> cases d' <;> decide
  · simp at same

theorem deadLetter_within (h : ∀ d, t.Holds d → d ∈ infrastructure) {source key queue : String}
    (member : queue ∈ t.deadLetterQueues source key) :
    ∃ d : ProcessedDomain, source = d.processQueue ∧ queue = d.deadLetterQueue := by
  rcases deadLetterQueues_eq (t := t) source key with none | ⟨o, exchange, holds, named, routed⟩
  · simp [none] at member
  · rw [routed] at member
    rcases queue_iff.mp (h _ holds) with ⟨d, ⟨rfl, rfl⟩ | ⟨-, rfl⟩⟩ | ⟨-, rfl⟩
    · obtain rfl := Option.some.inj named
      exact ⟨d, rfl, mem_route_failed h member⟩
    · simp at named
    · simp at named

theorem deadLetterQueues_process (h : ∀ d, t.Holds d ↔ d ∈ infrastructure) (d : ProcessedDomain)
    (key : String) : t.deadLetterQueues d.processQueue key = [d.deadLetterQueue] := by
  have found : t.queues.find? d.processQueue = some d.processOptions :=
    (h (.assertQueue d.processQueue _)).mpr (queue_iff.mpr (Or.inl ⟨d, Or.inl ⟨rfl, rfl⟩⟩))
  have routed : t.deadLetterQueues d.processQueue key = t.route "secondhand.dlx" d.failedKey := by
    simp [Topology.deadLetterQueues, Topology.deadLetterKey, found, ProcessedDomain.processOptions]
  rw [routed]
  change t.route _ _ = (some d.deadLetterQueue).toList
  refine Topology.route_eq_toList fun queue => ?_
  constructor
  · exact fun member => congrArg some (mem_route_failed (fun e => (h e).mp) member).symm
  · intro same
    obtain rfl := Option.some.inj same
    refine Topology.mem_route.mpr ⟨⟨.topic, true⟩, d.failedKey, ?_, ?_, (accepts_failed d).mpr rfl⟩
    · exact (h _).mpr (exchange_iff.mpr (by simp))
    · exact (h _).mpr (binding_iff.mpr (Or.inl ⟨d, Or.inr rfl⟩))

theorem deadLetterQueue_apart (d d' : ProcessedDomain) : d.processQueue ≠ d'.deadLetterQueue := by
  cases d <;> cases d' <;> decide

theorem deadLetterQueue_injective {d d' : ProcessedDomain}
    (h : d.deadLetterQueue = d'.deadLetterQueue) : d = d' := by
  revert h
  cases d <;> cases d' <;> decide

theorem processQueue_injective {d d' : ProcessedDomain} (h : d.processQueue = d'.processQueue) :
    d = d' := by
  revert h
  cases d <;> cases d' <;> decide

/-- No queue takes what is dead-lettered but the one of its domain. -/
theorem paired_of_records {M : Type} (h : ∀ d, t.Holds d → d ∈ infrastructure) (d : ProcessedDomain)
    {e : Entry M} (recorded : e.Records t) : e.Paired d.processQueue d.deadLetterQueue := by
  cases e with
  | published exchange key targets body => trivial
  | acked queue body => trivial
  | deadLettered source targets body =>
    obtain ⟨key, rfl⟩ := recorded
    refine ⟨fun inside => ?_, fun inside => ?_, fun left => ?_, fun left => ?_⟩
    · obtain ⟨d', -, same⟩ := deadLetter_within h inside
      exact deadLetterQueue_apart d d' same
    · obtain ⟨d', rfl, same⟩ := deadLetter_within h inside
      rw [deadLetterQueue_injective same]
    · subst left
      have only (queue : String) (inside : queue ∈ t.deadLetterQueues d.processQueue key) :
          queue = d.deadLetterQueue := by
        obtain ⟨d', here, rfl⟩ := deadLetter_within h inside
        rw [processQueue_injective here]
      have unique := Topology.nodup_deadLetterQueues (t := t) d.processQueue key
      rcases targets : t.deadLetterQueues d.processQueue key with _ | ⟨q, _ | ⟨q', rest⟩⟩
      · exact Or.inl rfl
      · exact Or.inr (by rw [only q (by simp [targets])])
      · rw [targets] at unique
        exact absurd ((only q (by simp [targets])).trans (only q' (by simp [targets])).symm)
          (by simp at unique; exact unique.1.1)
    · subst left
      refine List.eq_nil_iff_forall_not_mem.mpr fun queue inside => ?_
      obtain ⟨d', here, -⟩ := deadLetter_within h inside
      exact deadLetterQueue_apart d' d here.symm

/-- The queue of the notifications gives nothing on and takes nothing that was given up. -/
theorem final_of_records {M : Type} (h : ∀ d, t.Holds d → d ∈ infrastructure) {e : Entry M}
    (recorded : e.Records t) : e.Final "secondhand.notifications.send" := by
  cases e with
  | published exchange key targets body => trivial
  | acked queue body => trivial
  | deadLettered source targets body =>
    obtain ⟨key, rfl⟩ := recorded
    constructor
    · intro inside
      obtain ⟨d, -, same⟩ := deadLetter_within h inside
      revert same
      cases d <;> decide
    · rintro rfl
      refine List.eq_nil_iff_forall_not_mem.mpr fun queue inside => ?_
      obtain ⟨d, same, -⟩ := deadLetter_within h inside
      revert same
      cases d <;> decide

variable {M : Type}

theorem within_of_grown (h : Topology.empty.Grown infrastructure t) (d : Declaration) :
    t.Holds d → d ∈ infrastructure :=
  fun holds => (h.within d holds).resolve_left (Topology.not_holds_empty d)

/-- The broker after the turns, at first without any declaration or message. -/
def broker (M : Type) (turns : List (Turn (Client M))) : Instances M :=
  run (instances M).step (Pool.idle (Broker.idle .empty)) turns

theorem broker_underway (turns : List (Turn (Client M))) :
    Underway infrastructure .empty (broker M turns) :=
  underway_run infrastructure_consistent (Broker.idle .empty) turns

theorem broker_installed {turns : List (Turn (Client M))} (ready : setUp (broker M turns) = true)
    (d : Declaration) : (broker M turns).store.topology.Holds d ↔ d ∈ infrastructure := by
  rw [(broker_underway turns).installed ready]
  simp [Topology.not_holds_empty]

theorem value_words (e : EventType) :
    words e.value = [e.domain.word.toList, (words e.value).getLastD []] := by
  cases e <;> decide

/-- Once one of the setups is done, an event goes to the queue of its domain, a message event to
none, and what a queue of a domain gives up goes to the queue for its failures. -/
theorem events_routed (turns : List (Turn (Client M))) (ready : setUp (broker M turns) = true) :
    let t := (broker M turns).store.topology
    (∀ e : EventType, t.route "secondhand.events" e.value = e.domain.queue.toList) ∧
    (∀ key queue, queue ∈ t.route "secondhand.events" key ↔
      ∃ (domain : EventDomain) (action : Word),
        words key = [domain.word.toList, action] ∧ domain.queue = some queue) ∧
    (∀ (d : ProcessedDomain) key, t.deadLetterQueues d.processQueue key = [d.deadLetterQueue]) ∧
    ∀ source key, (∀ d : ProcessedDomain, source ≠ d.processQueue) →
      t.deadLetterQueues source key = [] := by
  intro t
  have installed := broker_installed ready
  refine ⟨fun e => route_domain installed (value_words e), fun key queue => mem_route_events installed,
    deadLetterQueues_process installed, fun source key other => ?_⟩
  refine List.eq_nil_iff_forall_not_mem.mpr fun queue member => ?_
  obtain ⟨d, same, -⟩ := deadLetter_within (fun d => (installed d).mp) member
  exact other d same

def firstSetup : List (Turn (Client Nat)) := .arrive .setup :: List.replicate 21 (.call 0)

theorem events_routed_first_setup :
    (broker Nat firstSetup).store.topology.route "secondhand.events" EventType.orderPaid.value =
      ["secondhand.orders.process"] :=
  (events_routed firstSetup (by decide +kernel)).1 .orderPaid

/-- What was noted is by topologies within the infrastructure. -/
theorem broker_noted {P : Entry M → Prop}
    (each : ∀ t : Topology, (∀ d, t.Holds d → d ∈ infrastructure) → ∀ e, e.Records t → P e)
    (turns : List (Turn (Client M))) : ∀ e ∈ (broker M turns).store.ledger, P e := by
  obtain ⟨new, ledger, noted⟩ := noted_run infrastructure_consistent
    (underway_idle (Broker.idle (M := M) .empty)) (P := P)
    (fun t e grown _ recorded => each t (within_of_grown grown) e recorded) turns
  have same : (broker M turns).store.ledger = new := ledger
  intro e member
  exact noted e (same ▸ member)

theorem broker_paired (turns : List (Turn (Client M))) (d : ProcessedDomain) :
    ∀ e ∈ (broker M turns).store.ledger, e.Paired d.processQueue d.deadLetterQueue :=
  broker_noted (fun _ within _ recorded => paired_of_records within d recorded) turns

theorem broker_final (turns : List (Turn (Client M))) :
    ∀ e ∈ (broker M turns).store.ledger, e.Final "secondhand.notifications.send" :=
  broker_noted (fun _ within _ recorded => final_of_records within recorded) turns

/-- A process queue never gives up a message for good once its dead-letter queue is there. -/
theorem not_loses_of_records [DecidableEq M] (h : ∀ d, t.Holds d ↔ d ∈ infrastructure)
    (d : ProcessedDomain) (x : M) {e : Entry M} (recorded : e.Records t) :
    e.loses d.processQueue x = 0 := by
  cases e with
  | published exchange key targets body => rfl
  | acked queue body => rfl
  | deadLettered source targets body =>
    obtain ⟨key, rfl⟩ := recorded
    by_cases same : source = d.processQueue
    · subst same
      rw [deadLetterQueues_process h]
      rfl
    · cases t.deadLetterQueues source key <;> simp [Entry.loses, same]

/-- At every moment, also while instances set the broker up, what was published to the queues of a
domain is there, confirmed or lost; once a setup is done its process queue loses nothing more. -/
theorem events_accounted [DecidableEq M] (turns more : List (Turn (Client M)))
    (d : ProcessedDomain) (x : M) :
    let b := (broker M turns).store
    b.arrivals d.processQueue x + b.arrivals d.deadLetterQueue x =
      b.copies d.processQueue x + b.copies d.deadLetterQueue x +
        (b.acks d.processQueue x + b.acks d.deadLetterQueue x) +
        (b.losses d.processQueue x + b.losses d.deadLetterQueue x) ∧
    (setUp (broker M turns) = true →
      (broker M (turns ++ more)).store.losses d.processQueue x = b.losses d.processQueue x) := by
  intro b
  constructor
  · exact Broker.Balanced.paired (fun q => balanced_run (Broker.balanced_idle _) turns)
      (deadLetterQueue_apart d d) (broker_paired turns d)
  · intro ready
    have installed := broker_installed ready
    obtain ⟨new, ledger, kept⟩ := noted_run infrastructure_consistent (broker_underway turns)
      (P := fun e => e.loses d.processQueue x = 0) (fun t e grown kept recorded =>
        not_loses_of_records (fun d => ⟨within_of_grown grown d,
          fun declared => kept d ((installed d).mpr declared)⟩) d x recorded) more
    have none : (new.map (Entry.loses d.processQueue x)).sum = 0 := by
      refine List.sum_eq_zero_iff_forall_eq_nat.mpr fun n member => ?_
      obtain ⟨e, inside, rfl⟩ := List.mem_map.mp member
      exact kept e inside
    have later : (broker M (turns ++ more)).store.ledger = b.ledger ++ new := by
      rw [broker, run_append]
      exact ledger
    rw [Broker.losses, later, List.map_append, List.sum_append, none, Nat.add_zero]
    rfl

end EventTopology
end SecondhandApi
