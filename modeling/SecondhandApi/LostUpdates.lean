import SecondhandApi.Lifecycle
import SecondhandApi.Obligations

/-! Updates, cancellations and confirmations that overlap. Each request checks the status
it has read and writes later, so a status moves along an allowed edge as long as no
write comes from a reading that the stored status has left. -/
namespace SecondhandApi
open Keyed Interleaving

def Op.movesStatus : Op → Bool
  | .ordersUpdate .. | .ordersCancel .. | .ordersConfirm .. => true
  | _ => false

/-- The order as a request has read it last. -/
def lastRead (id : Id) : Log → Option Order
  | [] => none
  | ⟨.orderFindById i, reply⟩ :: log =>
    if i = id then (match reply with
      | .ok found => found
      | .error _ => none)
    else lastRead id log
  | _ :: log => lastRead id log

/-- What the turns of a run may do to the statuses. -/
structure KeepsEdges (before after : Db) : Prop where
  edge : ∀ o old new, before.orders.find? o = some old → after.orders.find? o = some new →
    new.status ≠ old.status → Edge old.status new.status
  final : ∀ o s, s.final = true → statusOf o before = some s → statusOf o after = some s
  shipping : ∀ o, statusOf o before = some .shipping → statusOf o after ≠ some .cancelled

/-- An accepted write of a status finds the order as its request has read it; or in the
status it writes, or in another one from which the same step is allowed. -/
def UpToDate (p : Requests) (t : Running) : Call → Prop
  | .orderUpdate id data => Accepted p.store (.orderUpdate id data) →
    ∀ s read stored, data.status = .value s → lastRead id t.log = some read →
      p.store.orders.find? id = some stored →
        stored.status = read.status ∨ stored.status = s ∨
        (s = .cancelled ∧ stored.status ∈ OrdersService.cancellableStatuses) ∨
        (s = .refunded ∧ (stored.status = .paid ∨ stored.status = .delivered))
  | _ => True

/-- Two edges into one status start in one status, but for cancelling and refunding. -/
theorem edge_sources {r s q : OrderStatus} (from_read : Edge r s) :
    Edge q s ↔ q = r ∨ (s = .cancelled ∧ q ∈ OrdersService.cancellableStatuses) ∨
      (s = .refunded ∧ (q = .paid ∨ q = .delivered)) := by
  revert from_read
  cases s <;> cases r <;> cases q <;> decide

theorem cancellable_edge {s : OrderStatus} (h : s ∈ OrdersService.cancellableStatuses) :
    Edge s .cancelled := by
  revert h
  cases s <;> decide

/-- A write of a status is owed to a reading from which the status may be reached. -/
theorem owed_edge {op : Op} {log : Log} {id : Id} {data : OrderUpdateInput} {s : OrderStatus}
    (owed : Owed op log (.orderUpdate id data)) (asked : data.status = .value s) :
    ∃ read, lastRead id log = some read ∧ Edge read.status s := by
  cases owed with
  | @updateWrites _ userId dto order party valid =>
    have status : dto.status = .value s := asked
    rw [status] at valid
    exact ⟨order, if_pos rfl, Or.inl (validated valid).1⟩
  | cancelWrites order buyer cancellable =>
    cases asked
    exact ⟨order, if_pos rfl, cancellable_edge cancellable⟩
  | confirmWrites order buyer delivered =>
    cases asked
    refine ⟨order, if_pos rfl, ?_⟩
    rw [delivered]
    decide

theorem movesStatus_flow (op : Op) (h : op.movesStatus = true) : op.inFlow = true := by
  cases op <;> first
    | rfl
    | cases h

/-- A turn that changes the order table is an accepted and owed update of one order. -/
structure Writes (p : Requests) (turn : Turn Op) (id : Id) (data : OrderUpdateInput)
    (op : Op) (log : Log) (old new : Order) : Prop where
  thread : ∃ i next, turn = .call i ∧ p.threads[i]? = some ⟨op, log, .call (.orderUpdate id data) next⟩
  owed : Owed op log (.orderUpdate id data)
  accepted : Accepted p.store (.orderUpdate id data)
  found : p.store.orders.find? id = some old
  made : data.apply old = some new
  after : (service.step p turn).store.orders = p.store.orders.set id new

theorem writes_or_same {p : Requests} (h : Dutiful Op.movesStatus p) (turn : Turn Op) :
    (service.step p turn).store.orders = p.store.orders ∨
      ∃ id data op log old new, Writes p turn id data op log old new := by
  cases order_turn h turn with
  | same orders => exact Or.inl orders
  | made here owed => cases owed; cases here
  | swept here owed => cases owed; cases here
  | set here owed a found made orders =>
    exact Or.inr ⟨_, _, _, _, _, _, ⟨_, _, a.called, a.thread⟩, owed, a.accepted, found, made,
      orders⟩

theorem writes_of_accepted {p : Requests} (h : Dutiful Op.movesStatus p) {i : Nat} {t : Running}
    {id : Id} {data : OrderUpdateInput} (ht : p.threads[i]? = some t)
    (pending : t.rest.pending = some (.orderUpdate id data))
    (ok : Accepted p.store (.orderUpdate id data)) :
    ∃ old new, Writes p (.call i) id data t.op t.log old new := by
  obtain ⟨next, r, t', a⟩ := answered_of_accepted ht pending ok
  have owed := (dutiful_pending h a.thread rfl).2
  have store := a.store
  cases a.effect with
  | read r reads => cases reads
  | orderSet old new found made =>
    exact ⟨old, _, ⟨i, next, rfl, a.thread⟩, owed, ok, found, made, congrArg Tables.orders store⟩

theorem KeepsEdges.of_same {before after : Db} (same : after.orders = before.orders) :
    KeepsEdges before after := by
  refine ⟨?_, ?_, ?_⟩
  · intro o old new found there changed
    rw [same, found] at there
    cases there
    exact absurd rfl changed
  · intro o s _ was
    rw [statusOf, same]
    exact was
  · intro o was now
    rw [statusOf, same] at now
    cases was.symm.trans now

section
variable {p : Requests} {turn : Turn Op} {id : Id} {data : OrderUpdateInput} {op : Op} {log : Log}
  {old new : Order}

theorem Writes.statusOf (w : Writes p turn id data op log old new) (o : Id) :
    SecondhandApi.statusOf o (service.step p turn).store =
      if o = id then some new.status else SecondhandApi.statusOf o p.store := by
  rw [SecondhandApi.statusOf, w.after, Table.find?_set w.found]
  by_cases here : o = id
  · rw [if_pos here, if_pos here]
    rfl
  · rw [if_neg here, if_neg here]
    rfl

/-- The status that an update writes is one it asks for. -/
theorem Writes.asked (w : Writes p turn id data op log old new) (changed : new.status ≠ old.status) :
    data.status = .value new.status := by
  rcases Field.required_eq_some (OrderUpdateInput.apply_status w.made) with ⟨same, _⟩ | written
  · exact absurd same changed
  · exact written

theorem Writes.keeps (w : Writes p turn id data op log old new)
    (edge : new.status ≠ old.status → Edge old.status new.status) :
    KeepsEdges p.store (service.step p turn).store := by
  have was := statusOf_found w.found
  refine ⟨?_, ?_, ?_⟩
  · intro o old' new' found there changed
    rw [w.after] at there
    rcases Table.find?_set_cases there with same | ⟨rfl, rfl⟩
    · cases found.symm.trans same
      exact absurd rfl changed
    · cases found.symm.trans w.found
      exact edge changed
  · intro o s final before
    rw [w.statusOf]
    by_cases here : o = id
    · rw [if_pos here]
      subst here
      cases was.symm.trans before
      by_contra changed
      cases final.symm.trans (edge_not_final (edge fun same => changed (congrArg some same)))
    · rw [if_neg here]
      exact before
  · intro o before now
    rw [w.statusOf] at now
    by_cases here : o = id
    · rw [if_pos here] at now
      subst here
      have shipping : old.status = .shipping := Option.some.inj (was.symm.trans before)
      have cancelled : new.status = .cancelled := Option.some.inj now
      have taken := edge (by rw [shipping, cancelled]; decide)
      rw [shipping, cancelled] at taken
      exact absurd taken (by decide)
    · rw [if_neg here] at now
      cases before.symm.trans now

end

/-- One turn moves the statuses along edges exactly when its write is up to date. -/
theorem keeps_iff_up_to_date {p : Requests} (h : Dutiful Op.movesStatus p) (turn : Turn Op) :
    KeepsEdges p.store (service.step p turn).store ↔ Service.OnCalls UpToDate p turn := by
  constructor
  · intro keeps
    cases turn with
    | arrive op => trivial
    | call i =>
      intro t c ht pending
      cases c with
      | orderUpdate id data =>
        intro ok s read stored asked seen found
        obtain ⟨old, new, w⟩ := writes_of_accepted h ht pending ok
        cases found.symm.trans w.found
        have written := OrderUpdateInput.apply_status w.made
        rw [asked] at written
        have wrote : s = new.status := Option.some.inj written
        by_cases same : stored.status = s
        · exact Or.inr (Or.inl same)
        · have there : (service.step p (.call i)).store.orders.find? id = some new := by
            rw [w.after, Table.find?_set_self w.found]
          have edge := keeps.edge id stored new found there (fun eq => same (wrote.trans eq).symm)
          rw [← wrote] at edge
          obtain ⟨read', seen', from_read⟩ := owed_edge w.owed asked
          cases seen.symm.trans seen'
          rcases (edge_sources from_read).mp edge with same | cancelled | refunded
          · exact Or.inl same
          · exact Or.inr (Or.inr (Or.inl cancelled))
          · exact Or.inr (Or.inr (Or.inr refunded))
      | _ => trivial
  · intro fresh
    rcases writes_or_same h turn with same | ⟨id, data, op, log, old, new, w⟩
    · exact .of_same same
    · refine w.keeps (fun changed => ?_)
      obtain ⟨read, seen, from_read⟩ := owed_edge w.owed (w.asked changed)
      obtain ⟨i, next, rfl, thread⟩ := w.thread
      rcases fresh _ _ thread rfl w.accepted new.status read old (w.asked changed) seen w.found with
        same | written | harmless
      · exact (edge_sources from_read).mpr (Or.inl same)
      · exact absurd written.symm changed
      · exact (edge_sources from_read).mpr (Or.inr harmless)

/-- In every interleaving the statuses move along edges exactly as long as no status is
written from a reading that the stored status has left. -/
theorem edges_iff_up_to_date (db : Db) (turns : List (Turn Op))
    (scope : ∀ turn ∈ turns, ∀ op, turn = .arrive op → op.movesStatus = true) :
    Along service.step (fun p turn => KeepsEdges p.store (service.step p turn).store) db.idle
      turns ↔ Along service.step (Service.OnCalls UpToDate) db.idle turns := by
  have dutiful := fun p turn (h : Dutiful Op.movesStatus p)
      (ok : ∀ op, turn = .arrive op → op.movesStatus = true) =>
    dutiful_step movesStatus_flow p turn h ok
  constructor
  · intro keeps
    exact along_of_invariant (fun p turn h ok => dutiful p turn h ok.1)
      (fun p turn h ok => (keeps_iff_up_to_date h turn).mp ok.2) (dutiful_idle db)
      ((along_of_forall scope).and keeps)
  · intro fresh
    exact along_of_invariant (fun p turn h ok => dutiful p turn h ok.1)
      (fun p turn h ok => (keeps_iff_up_to_date h turn).mpr ok.2) (dutiful_idle db)
      ((along_of_forall scope).and fresh)

/-- The market after bob has ordered the lamp and paid for it. -/
def paidMarket : Db := run service.sequential market [.ordersCreate "bob" lampOrder (newOrder 1),
  .ordersUpdate "order-1" "bob" { status := .value .paymentPending },
  .ordersUpdate "order-1" "bob" { status := .value .paid }]

/-- Bob cancels the paid order while nobody else touches it. -/
theorem edges_kept_cancelling :
    Along service.step (fun p turn => KeepsEdges p.store (service.step p turn).store) paidMarket.idle
      [.arrive (.ordersCancel "order-1" "bob" 5), .call 0, .call 0, .call 0] := by
  refine (edges_iff_up_to_date paidMarket _ (by simp [Op.movesStatus])).mpr
    ⟨trivial, ?_, ?_, ?_, trivial⟩
  · intro t c ht pending
    cases ht
    cases pending
    trivial
  · intro t c ht pending
    cases ht
    cases pending
    intro _ s read stored _ seen found
    exact Or.inl (congrArg Order.status (Option.some.inj (found.symm.trans seen)))
  · intro t c ht pending
    cases ht
    cases pending
    trivial

/-- Ann ships between bob's reading of the paid order and his cancellation of it. -/
theorem shipped_order_cancelled :
    ¬ ∀ (db : Db) (turns : List (Turn Op)),
      (∀ turn ∈ turns, ∀ op, turn = .arrive op → op.movesStatus = true) →
      Along service.step (fun p turn => KeepsEdges p.store (service.step p turn).store) db.idle
        turns := by
  intro always
  let turns : List (Turn Op) := [.arrive (.ordersCancel "order-1" "bob" 5),
    .arrive (.ordersUpdate "order-1" "ann" { status := .value .shipping }),
    .call 0, .call 1, .call 1, .call 0]
  have keeps := always paidMarket turns (by simp [turns, Op.movesStatus])
  have last := keeps.2.2.2.2.2.1
  exact absurd (last.shipping "order-1" (by decide +kernel)) (by decide +kernel)

end SecondhandApi
