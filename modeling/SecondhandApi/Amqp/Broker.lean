import Mathlib.Algebra.Order.Ring.Nat
import Mathlib.Data.List.Perm.Basic
import Mathlib.Logic.Function.Basic
import SecondhandApi.Amqp.Topology

/-! The messages of a broker. A queue keeps a message until a consumer has settled it; what is
rejected or expires goes on to the dead-letter exchange of its queue. -/
namespace Amqp

structure Message (M : Type) where
  body : M
  routingKey : String
  priority : Nat := 0
  /-- Whether the publisher has set an expiration. -/
  expires : Bool := false

/-- What has become of a message: the queues it was copied to when it was published, a consumer's
confirmation, and the queues it went on to when it was given up. -/
inductive Entry (M : Type) where
  | published (exchange key : String) (targets : List String) (body : M)
  | acked (queue : String) (body : M)
  | deadLettered (queue : String) (targets : List String) (body : M)
  deriving DecidableEq

/-- The messages of a queue that wait for a consumer, and those that consumers hold. -/
structure Broker (M : Type) where
  topology : Topology
  ready : String → List (Message M)
  unacked : String → List (Message M)
  ledger : List (Entry M)

inductive Event (M : Type) where
  | publish (exchange : String) (message : Message M)
  | deliver (queue : String)
  | ack (queue : String) (i : Nat)
  | reject (queue : String) (i : Nat) (requeue : Bool)
  | expire (queue : String)

def Event.isPublish {M : Type} : Event M → Bool
  | publish _ _ => true
  | _ => false

namespace Broker

variable {M : Type}

def idle (t : Topology) : Broker M := ⟨t, fun _ => [], fun _ => [], []⟩

def note (b : Broker M) (e : Entry M) : Broker M := { b with ledger := b.ledger ++ [e] }

def setReady (b : Broker M) (queue : String) (messages : List (Message M)) : Broker M :=
  { b with ready := Function.update b.ready queue messages }

def setUnacked (b : Broker M) (queue : String) (messages : List (Message M)) : Broker M :=
  { b with unacked := Function.update b.unacked queue messages }

/-- A queue without priorities takes all messages for equal. -/
def rank (b : Broker M) (queue : String) (m : Message M) : Nat :=
  match (b.topology.queues.find? queue).bind (·.maxPriority) with
  | none => 0
  | some top => min m.priority top

/-- Behind the messages of its rank and of higher ones. -/
def enqueue (b : Broker M) (m : Message M) (queue : String) : Broker M :=
  b.setReady queue
    ((b.ready queue).takeWhile (fun x => b.rank queue m ≤ b.rank queue x) ++
      m :: (b.ready queue).dropWhile (fun x => b.rank queue m ≤ b.rank queue x))

def enqueueAll (b : Broker M) (m : Message M) (queues : List String) : Broker M :=
  queues.foldl (fun b queue => b.enqueue m queue) b

@[simp] theorem enqueueAll_ledger (b : Broker M) (m : Message M) (queues : List String) :
    (b.enqueueAll m queues).ledger = b.ledger := by
  unfold enqueueAll
  induction queues generalizing b with
  | nil => rfl
  | cons queue queues ih => exact ih _

@[simp] theorem enqueueAll_topology (b : Broker M) (m : Message M) (queues : List String) :
    (b.enqueueAll m queues).topology = b.topology := by
  unfold enqueueAll
  induction queues generalizing b with
  | nil => rfl
  | cons queue queues ih => exact ih _

/-- A message that was given up goes on without its expiration. -/
def deadLetter (b : Broker M) (queue : String) (m : Message M) : Broker M :=
  let key := (b.topology.deadLetterKey queue).getD m.routingKey
  let targets := b.topology.deadLetterQueues queue m.routingKey
  (b.enqueueAll { m with routingKey := key, expires := false } targets).note
    (.deadLettered queue targets m.body)

def step (b : Broker M) : Event M → Broker M
  | .publish exchange m =>
    let targets := b.topology.route exchange m.routingKey
    (b.enqueueAll m targets).note (.published exchange m.routingKey targets m.body)
  | .deliver queue =>
    match b.ready queue with
    | [] => b
    | m :: rest => (b.setReady queue rest).setUnacked queue (b.unacked queue ++ [m])
  | .ack queue i =>
    match (b.unacked queue)[i]? with
    | none => b
    | some m => (b.setUnacked queue ((b.unacked queue).eraseIdx i)).note (.acked queue m.body)
  | .reject queue i requeue =>
    match (b.unacked queue)[i]? with
    | none => b
    | some m =>
      let released := b.setUnacked queue ((b.unacked queue).eraseIdx i)
      if requeue then released.setReady queue (m :: b.ready queue)
      else released.deadLetter queue m
  | .expire queue =>
    match b.ready queue with
    | [] => b
    | m :: rest => if m.expires then (b.setReady queue rest).deadLetter queue m else b

end Broker

/-! What a queue has received it still holds, or it has let go. -/

namespace Entry

variable {M : Type} [DecidableEq M]

/-- The copies of `x` that came to the queue. -/
def into (q : String) (x : M) : Entry M → Nat
  | published _ _ targets body | deadLettered _ targets body =>
    if body = x then targets.count q else 0
  | acked _ _ => 0

/-- The copies of `x` that left the queue for good. -/
def outOf (q : String) (x : M) : Entry M → Nat
  | acked queue body | deadLettered queue _ body => if queue = q ∧ body = x then 1 else 0
  | published _ _ _ _ => 0

/-- Of the copies that came, those that came from publishers. -/
def arrives (q : String) (x : M) : Entry M → Nat
  | published _ _ targets body => if body = x then targets.count q else 0
  | _ => 0

def confirms (q : String) (x : M) : Entry M → Nat
  | acked queue body => if queue = q ∧ body = x then 1 else 0
  | _ => 0

/-- A copy that was given up and had nowhere to go. -/
def loses (q : String) (x : M) : Entry M → Nat
  | deadLettered queue [] body => if queue = q ∧ body = x then 1 else 0
  | _ => 0

/-- `dead` takes what `queue` gives up and nothing else, and what is given up there is gone. -/
def Paired (queue dead : String) : Entry M → Prop
  | deadLettered source targets _ =>
    queue ∉ targets ∧ (dead ∈ targets → source = queue) ∧
      (source = queue → targets = [] ∨ targets = [dead]) ∧ (source = dead → targets = [])
  | _ => True

theorem Paired.accounts {queue dead : String} (apart : queue ≠ dead) {e : Entry M}
    (h : e.Paired queue dead) (x : M) :
    e.arrives queue x + e.arrives dead x + (e.outOf queue x + e.outOf dead x) =
      e.into queue x + e.into dead x + (e.confirms queue x + e.confirms dead x) +
        (e.loses queue x + e.loses dead x) := by
  cases e with
  | published exchange key targets body => simp [arrives, outOf, into, confirms, loses]
  | acked source body => simp [arrives, outOf, into, confirms, loses]
  | deadLettered source targets body =>
    obtain ⟨never, only, next, last⟩ := h
    have noCopy : targets.count queue = 0 := List.count_eq_zero.mpr never
    by_cases fromQueue : source = queue
    · subst fromQueue
      rcases next rfl with rfl | rfl
      · simp [arrives, outOf, into, confirms, loses]
      · simp [arrives, outOf, into, confirms, loses, apart, apart.symm]
    · have noDead : targets.count dead = 0 :=
        List.count_eq_zero.mpr fun inside => fromQueue (only inside)
      by_cases fromDead : source = dead
      · subst fromDead
        simp [last rfl, arrives, outOf, into, confirms, loses]
      · have noLoss (q : String) (other : source ≠ q) :
            loses q x (deadLettered source targets body) = 0 := by
          cases targets <;> simp [loses, other]
        simp [arrives, outOf, into, confirms, noLoss, noCopy, noDead, fromQueue, fromDead]

/-- What `queue` gives up is gone, and it takes nothing that was given up elsewhere. -/
def Final (queue : String) : Entry M → Prop
  | deadLettered source targets _ => queue ∉ targets ∧ (source = queue → targets = [])
  | _ => True

theorem Final.accounts {queue : String} {e : Entry M} (h : e.Final queue) (x : M) :
    e.arrives queue x + e.outOf queue x =
      e.into queue x + e.confirms queue x + e.loses queue x := by
  cases e with
  | published exchange key targets body => simp [arrives, outOf, into, confirms, loses]
  | acked source body => simp [arrives, outOf, into, confirms, loses]
  | deadLettered source targets body =>
    obtain ⟨never, last⟩ := h
    have noCopy : targets.count queue = 0 := List.count_eq_zero.mpr never
    by_cases own : source = queue
    · subst own
      simp [last rfl, arrives, outOf, into, confirms, loses]
    · cases targets <;> simp [arrives, outOf, into, confirms, loses, noCopy, own]

end Entry

namespace Broker

variable {M : Type} [DecidableEq M] (b : Broker M) (q : String) (x : M)

def copies : Nat := (b.ready q ++ b.unacked q).countP (·.body = x)
def received : Nat := (b.ledger.map (Entry.into q x)).sum
def released : Nat := (b.ledger.map (Entry.outOf q x)).sum

def Balanced : Prop := b.received q x = b.copies q x + b.released q x

def arrivals : Nat := (b.ledger.map (Entry.arrives q x)).sum
def acks : Nat := (b.ledger.map (Entry.confirms q x)).sum
def losses : Nat := (b.ledger.map (Entry.loses q x)).sum

variable {b q x}

/-- A queue and its dead-letter queue: what was published to them is there, confirmed or lost. -/
theorem Balanced.paired {queue dead : String} (h : ∀ q, b.Balanced q x) (apart : queue ≠ dead)
    (paired : ∀ e ∈ b.ledger, e.Paired queue dead) :
    b.arrivals queue x + b.arrivals dead x =
      b.copies queue x + b.copies dead x + (b.acks queue x + b.acks dead x) +
        (b.losses queue x + b.losses dead x) := by
  have each : b.arrivals queue x + b.arrivals dead x + (b.released queue x + b.released dead x) =
      b.received queue x + b.received dead x + (b.acks queue x + b.acks dead x) +
        (b.losses queue x + b.losses dead x) := by
    simp only [arrivals, released, received, acks, losses]
    clear h
    revert paired
    induction b.ledger with
    | nil => exact fun _ => rfl
    | cons e ledger ih =>
      intro paired
      have here := Entry.Paired.accounts apart (paired e List.mem_cons_self) x
      have rest := ih fun e member => paired e (List.mem_cons_of_mem _ member)
      simp only [List.map_cons, List.sum_cons]
      omega
  have inQueue := h queue
  have inDead := h dead
  unfold Balanced at inQueue inDead
  omega

/-- A queue that gives up for good: what was published to it is there, confirmed or lost. -/
theorem Balanced.final (h : b.Balanced q x) (last : ∀ e ∈ b.ledger, e.Final q) :
    b.arrivals q x = b.copies q x + b.acks q x + b.losses q x := by
  have each : b.arrivals q x + b.released q x =
      b.received q x + b.acks q x + b.losses q x := by
    simp only [arrivals, released, received, acks, losses]
    clear h
    revert last
    induction b.ledger with
    | nil => exact fun _ => rfl
    | cons e ledger ih =>
      intro last
      have here := Entry.Final.accounts (last e List.mem_cons_self) x
      have rest := ih fun e member => last e (List.mem_cons_of_mem _ member)
      simp only [List.map_cons, List.sum_cons]
      omega
  unfold Balanced at h
  omega

theorem balanced_idle (t : Topology) : (idle t : Broker M).Balanced q x := rfl

theorem copies_enqueue (m : Message M) (queue : String) :
    (b.enqueue m queue).copies q x =
      b.copies q x + if queue = q ∧ m.body = x then 1 else 0 := by
  by_cases same : queue = q
  · subst same
    have split := congrArg (List.countP (fun y : Message M => decide (y.body = x)))
      (List.takeWhile_append_dropWhile (p := fun y => b.rank queue m ≤ b.rank queue y)
        (l := b.ready queue))
    simp only [List.countP_append] at split
    simp only [copies, enqueue, setReady, Function.update_self, List.countP_append,
      List.countP_cons, decide_eq_true_eq, true_and]
    omega
  · simp [copies, enqueue, setReady, Function.update_of_ne (Ne.symm same), same]

theorem copies_enqueueAll (m : Message M) (queues : List String) :
    (b.enqueueAll m queues).copies q x =
      b.copies q x + if m.body = x then queues.count q else 0 := by
  unfold enqueueAll
  induction queues generalizing b with
  | nil => simp
  | cons queue queues ih =>
    rw [List.foldl_cons, ih, copies_enqueue, List.count_cons]
    by_cases same : queue = q <;> by_cases body : m.body = x <;> simp [same, body]; omega

/-- A copy that is on its way from `queue` counts as let go once it is dead-lettered. -/
theorem balanced_deadLetter (queue : String) (m : Message M)
    (h : b.received q x =
      b.copies q x + b.released q x + if queue = q ∧ m.body = x then 1 else 0) :
    (b.deadLetter queue m).Balanced q x := by
  have copied := copies_enqueueAll (b := b) (q := q) (x := x)
    { m with routingKey := (b.topology.deadLetterKey queue).getD m.routingKey, expires := false }
    (b.topology.deadLetterQueues queue m.routingKey)
  dsimp only at copied
  simp only [Balanced, received, released, deadLetter, note, enqueueAll_ledger, List.map_append,
    List.sum_append, List.map_singleton, List.sum_singleton, Entry.into, Entry.outOf]
  change _ + _ = (enqueueAll _ _ _).copies q x + _
  simp only [received, released] at h
  omega

theorem copies_cons {m : Message M} {rest : List (Message M)} {queue : String}
    (first : b.ready queue = m :: rest) :
    b.copies q x = (b.setReady queue rest).copies q x +
      if queue = q ∧ m.body = x then 1 else 0 := by
  by_cases same : queue = q
  · subst same
    simp only [copies, setReady, Function.update_self, first, List.cons_append, List.countP_cons,
      decide_eq_true_eq, true_and]
  · simp [copies, setReady, Function.update_of_ne (Ne.symm same), same]

theorem copies_unacked {m : Message M} {i : Nat} {queue : String}
    (held : (b.unacked queue)[i]? = some m) :
    b.copies q x = (b.setUnacked queue ((b.unacked queue).eraseIdx i)).copies q x +
      if queue = q ∧ m.body = x then 1 else 0 := by
  by_cases same : queue = q
  · subst same
    obtain ⟨inside, here⟩ := List.getElem?_eq_some_iff.mp held
    have split := (List.getElem_cons_eraseIdx_perm inside).countP_eq (fun y => decide (y.body = x))
    rw [here, List.countP_cons] at split
    simp only [decide_eq_true_eq] at split
    simp only [copies, setUnacked, Function.update_self, List.countP_append, true_and]
    omega
  · simp [copies, setUnacked, Function.update_of_ne (Ne.symm same), same]

theorem copies_setReady_cons (m : Message M) (queue : String) :
    (b.setReady queue (m :: b.ready queue)).copies q x =
      b.copies q x + if queue = q ∧ m.body = x then 1 else 0 := by
  by_cases same : queue = q
  · subst same
    simp only [copies, setReady, Function.update_self, List.cons_append, List.countP_cons,
      decide_eq_true_eq, true_and]
  · simp [copies, setReady, Function.update_of_ne (Ne.symm same), same]

theorem copies_setUnacked_snoc (m : Message M) (queue : String) :
    (b.setUnacked queue (b.unacked queue ++ [m])).copies q x =
      b.copies q x + if queue = q ∧ m.body = x then 1 else 0 := by
  by_cases same : queue = q
  · subst same
    simp only [copies, setUnacked, Function.update_self, ← List.append_assoc, List.countP_append,
      List.countP_singleton, decide_eq_true_eq, true_and]
  · simp [copies, setUnacked, Function.update_of_ne (Ne.symm same), same]

/-- No step loses a copy, whatever the topology is and becomes. -/
theorem balanced_step (h : b.Balanced q x) (e : Event M) : (b.step e).Balanced q x := by
  unfold Balanced at h
  cases e with
  | publish exchange m =>
    have copied := copies_enqueueAll (b := b) (q := q) (x := x) m
      (b.topology.route exchange m.routingKey)
    simp only [step, Balanced, received, released, note, enqueueAll_ledger, List.map_append,
      List.sum_append, List.map_singleton, List.sum_singleton, Entry.into, Entry.outOf]
    change _ + _ = (enqueueAll _ _ _).copies q x + _
    simp only [received, released] at h
    omega
  | deliver queue =>
    simp only [step]
    cases first : b.ready queue with
    | nil => exact h
    | cons m rest =>
      have out := copies_cons (q := q) (x := x) first
      have back := copies_setUnacked_snoc (b := b.setReady queue rest) (q := q) (x := x) m queue
      change b.received q x = Broker.copies (setUnacked _ _ _) q x + b.released q x
      change Broker.copies (setUnacked _ _ (b.unacked queue ++ [m])) q x = _ at back
      omega
  | ack queue i =>
    simp only [step]
    cases held : (b.unacked queue)[i]? with
    | none => exact h
    | some m =>
      have out := copies_unacked (q := q) (x := x) held
      simp only [Balanced, received, released, note, setUnacked, List.map_append,
        List.sum_append, List.map_singleton, List.sum_singleton, Entry.into, Entry.outOf]
      change _ + _ = (setUnacked _ _ _).copies q x + _
      simp only [received, released] at h
      omega
  | reject queue i requeue =>
    simp only [step]
    cases held : (b.unacked queue)[i]? with
    | none => exact h
    | some m =>
      have out := copies_unacked (q := q) (x := x) held
      cases requeue with
      | true =>
        have back := copies_setReady_cons (q := q) (x := x)
          (b := b.setUnacked queue ((b.unacked queue).eraseIdx i)) m queue
        change b.received q x = Broker.copies (setReady _ _ _) q x + b.released q x
        change Broker.copies (setReady _ _ (m :: b.ready queue)) q x = _ at back
        omega
      | false =>
        refine balanced_deadLetter queue m ?_
        change b.received q x = Broker.copies (setUnacked _ _ _) q x + b.released q x + _
        omega
  | expire queue =>
    simp only [step]
    cases first : b.ready queue with
    | nil => exact h
    | cons m rest =>
      dsimp only
      split
      · have out := copies_cons (q := q) (x := x) first
        refine balanced_deadLetter queue m ?_
        change b.received q x = Broker.copies (setReady _ _ _) q x + b.released q x + _
        omega
      · exact h

end Broker

end Amqp
