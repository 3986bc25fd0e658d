import SecondhandApi.Interleaving.Paths
import SecondhandApi.LiveOrders

/-! The life of an order: the edges its status may take, who may take them, and that
every run of the services, one operation after the other, keeps to them. -/
namespace SecondhandApi
open Keyed Interleaving

/-- The allowed transitions and the one more of `cancel`. -/
def Edge (s s' : OrderStatus) : Prop :=
  s' ∈ OrdersService.allowedTransitions s ∨ (s = .paid ∧ s' = .cancelled)

instance (s s' : OrderStatus) : Decidable (Edge s s') := inferInstanceAs (Decidable (_ ∨ _))

/-- The way of an order that nobody cancelled or refunded. -/
def trail : OrderStatus → Option (List OrderStatus)
  | .pending => some [.pending]
  | .paymentPending => some [.pending, .paymentPending]
  | .paid => some [.pending, .paymentPending, .paid]
  | .shipping => some [.pending, .paymentPending, .paid, .shipping]
  | .delivered => some [.pending, .paymentPending, .paid, .shipping, .delivered]
  | .confirmed => some [.pending, .paymentPending, .paid, .shipping, .delivered, .confirmed]
  | .cancelled => none
  | .refunded => none

def OrderStatus.final (s : OrderStatus) : Bool :=
  s = .confirmed || s = .cancelled || s = .refunded

theorem edge_not_final {s s' : OrderStatus} (h : Edge s s') : s.final = false := by
  rcases h with allowed | ⟨rfl, _⟩
  · cases s <;> simp_all [OrdersService.allowedTransitions, OrderStatus.final]
  · rfl

theorem trail_back (s s' : OrderStatus) (l : List OrderStatus) (h : Edge s s')
    (line : trail s' = some l) : ∃ l₀, trail s = some l₀ ∧ l = l₀ ++ [s'] := by
  revert h
  cases s' <;> cases line <;> cases s <;> intro h <;> first
    | exact absurd h (by decide)
    | exact ⟨_, rfl, rfl⟩

/-- What an operation may do to the status of order `o`, and for whom it does it. -/
def Moves (o : Id) (order : Order) (s' : OrderStatus) : Op → Prop
  | .ordersUpdate id user _ => id = o ∧ s' ∈ OrdersService.allowedTransitions order.status ∧
      (s' ∈ OrdersService.sellerOnlyStatus → user = order.sellerId) ∧
      (s' ∈ OrdersService.buyerOnlyStatus → user = order.buyerId) ∧
      (user = order.buyerId ∨ user = order.sellerId)
  | .ordersCancel id user _ => id = o ∧ order.status ∈ OrdersService.cancellableStatuses ∧
      s' = .cancelled ∧ user = order.buyerId
  | .ordersConfirm id user _ _ => id = o ∧ order.status = .delivered ∧ s' = .confirmed ∧
      user = order.buyerId
  | .usersRemove user => (order.status = .pending ∨ order.status = .paymentPending) ∧
      s' = .cancelled ∧ (user = order.buyerId ∨ user = order.sellerId)
  | _ => False

theorem Moves.edge {o : Id} {order : Order} {s' : OrderStatus} {op : Op}
    (h : Moves o order s' op) : Edge order.status s' := by
  cases op with
  | ordersUpdate id user dto => exact Or.inl h.2.1
  | ordersCancel id user now =>
    obtain ⟨_, from_, rfl, _⟩ := h
    revert from_
    cases order.status <;> decide
  | ordersConfirm id user now soldAt =>
    obtain ⟨_, from_, rfl, _⟩ := h
    rw [from_]
    decide
  | usersRemove user =>
    obtain ⟨from_ | from_, rfl, _⟩ := h <;> rw [from_] <;> decide
  | _ => exact h.elim

/-- The user who makes a request about an order. -/
def Op.actor : Op → Option Id
  | .ordersCreate buyerId .. => some buyerId
  | .ordersUpdate _ userId _ => some userId
  | .ordersCancel _ userId _ => some userId
  | .ordersConfirm _ userId .. => some userId
  | _ => none

def Op.withdraws (u : Id) : Op → Prop
  | .usersRemove id => id = u
  | _ => False

def Op.cancels : Op → Prop
  | .ordersCancel .. => True
  | _ => False

/-- Who took the order to `s'`. -/
structure Authored (op : Op) (order : Order) (s' : OrderStatus) : Prop where
  shipped : s' = .shipping ∨ s' = .delivered → op.actor = some order.sellerId
  confirmed : s' = .confirmed → op.actor = some order.buyerId
  cancelled : s' = .cancelled →
    op.actor = some order.buyerId ∨ op.withdraws order.buyerId ∨ op.withdraws order.sellerId
  paidCancelled : order.status = .paid → s' = .cancelled → op.cancels

theorem Moves.authored {o : Id} {order : Order} {s' : OrderStatus} {op : Op}
    (h : Moves o order s' op) : Authored op order s' := by
  cases op with
  | ordersUpdate id user dto =>
    obtain ⟨_, allowed, seller, buyer, _⟩ := h
    refine ⟨fun s => ?_, fun s => ?_, fun s => Or.inl ?_, fun s s' => ?_⟩
    · have own : s' ∈ OrdersService.sellerOnlyStatus := by
        rcases s with rfl | rfl <;> decide
      exact congrArg some (seller own)
    · subst s
      exact congrArg some (buyer (by decide))
    · subst s
      exact congrArg some (buyer (by decide))
    · rw [s, s'] at allowed
      exact absurd allowed (by decide)
  | ordersCancel id user now =>
    obtain ⟨_, _, rfl, buyer⟩ := h
    exact
      { shipped := by simp
        confirmed := by simp
        cancelled := fun _ => Or.inl (congrArg some buyer)
        paidCancelled := fun _ _ => trivial }
  | ordersConfirm id user now soldAt =>
    obtain ⟨_, _, rfl, buyer⟩ := h
    exact
      { shipped := by simp
        confirmed := fun _ => congrArg some buyer
        cancelled := by simp
        paidCancelled := by simp }
  | usersRemove user =>
    obtain ⟨unpaid, rfl, party⟩ := h
    exact
      { shipped := by simp
        confirmed := by simp
        cancelled := fun _ => Or.inr party
        paidCancelled := fun paid _ => by rw [paid] at unpaid; simp at unpaid }
  | _ => exact h.elim

def Op.inLife : Op → Bool
  | .ordersCreate .. | .ordersUpdate .. | .ordersCancel .. | .ordersConfirm .. |
    .usersRemove .. => true
  | _ => false

section
variable {db : Db} {op : Op} {t' : Tables}

/-- An order after one operation: just made and PENDING, or where it was, or moved. -/
theorem Effect.order_moves (e : Effect db op t') (scope : op.inLife = true) {o : Id} {new : Order}
    (there : t'.orders.find? o = some new) :
    (db.orders.find? o = none ∧ new.status = .pending) ∨
      ∃ old, db.orders.find? o = some old ∧
        (new.status = old.status ∨ Moves o old new.status op) := by
  cases e with
  | unchanged => exact Or.inr ⟨new, there, Or.inl rfl⟩
  | ordered g =>
    rcases Table.find?_insert_cases there with same | ⟨rfl, rfl⟩
    · exact Or.inr ⟨new, same, Or.inl rfl⟩
    · exact Or.inl ⟨g.row.1, g.row.2.2.2.2⟩
  | @patched id userId dto order edited g =>
    rcases Table.find?_set_cases there with same | ⟨rfl, rfl⟩
    · exact Or.inr ⟨new, same, Or.inl rfl⟩
    · refine Or.inr ⟨order, g.found, ?_⟩
      rcases g.status_cases with ⟨_, same⟩ | ⟨_, valid⟩
      · exact Or.inl same
      · obtain ⟨allowed, seller, buyer⟩ := validated valid
        exact Or.inr ⟨rfl, allowed, fun own => (seller own).symm, fun own => (buyer own).symm,
          g.party.imp Eq.symm Eq.symm⟩
  | cancelled now g =>
    rcases Table.find?_set_cases there with same | ⟨rfl, rfl⟩
    · exact Or.inr ⟨new, same, Or.inl rfl⟩
    · exact Or.inr ⟨_, g.found, Or.inr ⟨rfl, g.cancellable, rfl, g.buyer.symm⟩⟩
  | confirmed now soldAt g =>
    rcases Table.find?_set_cases there with same | ⟨rfl, rfl⟩
    · exact Or.inr ⟨new, same, Or.inl rfl⟩
    · exact Or.inr ⟨_, g.found, Or.inr ⟨rfl, g.delivered, rfl, g.buyer.symm⟩⟩
  | @withdrawn id user g =>
    rw [Prisma.orders_withdrawn] at there
    obtain ⟨old, found, rfl⟩ := Option.map_eq_some_iff.mp there
    refine Or.inr ⟨old, found, ?_⟩
    unfold Prisma.cancelUnpaid
    split
    · rename_i both
      exact Or.inr ⟨both.2, rfl, both.1.symm.imp Eq.symm Eq.symm⟩
    · exact Or.inl rfl
  | _ => cases scope

/-- No operation of the run deletes an order. -/
theorem Effect.order_stays (e : Effect db op t') (scope : op.inLife = true) {o : Id}
    (gone : t'.orders.find? o = none) : db.orders.find? o = none := by
  have set {orders : Table Id Order} {id : Id} {row : Order}
      (gone : (orders.set id row).find? o = none) : orders.find? o = none := by
    rw [← Table.not_has_iff] at gone ⊢
    rwa [Table.has_set] at gone
  cases e with
  | unchanged => exact gone
  | ordered g =>
    rw [← Table.not_has_iff] at gone ⊢
    exact fun h => gone (Table.has_insert h _ _)
  | patched g => exact set gone
  | cancelled now g => exact set gone
  | confirmed now soldAt g => exact set gone
  | withdrawn g =>
    rw [Prisma.orders_withdrawn] at gone
    exact Option.map_eq_none_iff.mp gone
  | _ => cases scope

end

def statusOf (o : Id) (db : Db) : Option OrderStatus := (db.orders.find? o).map (·.status)

theorem statusOf_found {db : Db} {o : Id} {order : Order}
    (found : db.orders.find? o = some order) : statusOf o db = some order.status :=
  congrArg (Option.map Order.status) found

theorem statusOf_missing {db : Db} {o : Id} (missing : db.orders.find? o = none) :
    statusOf o db = none :=
  congrArg (Option.map Order.status) missing

/-- What a run tells about its orders: their histories are paths from PENDING, each step
on them was made by the operation and the user it belongs to, nobody buys from himself,
a final status is never left, and a CONFIRMED order has gone the whole way. -/
structure OrderHistories (db : Db) (ops : List Op) : Prop where
  path : ∀ o s, statusOf o (run service.sequential db ops) = some s →
    Path Edge .pending (history (statusOf o) (visited service.sequential db ops)) s
  steps : Along service.sequential (fun t op => ∀ o old new, t.orders.find? o = some old →
    (service.sequential t op).orders.find? o = some new → new.status ≠ old.status →
      Moves o old new.status op ∧ Authored op old new.status) db ops
  parties : ∀ t ∈ visited service.sequential db ops, ∀ o order,
    t.orders.find? o = some order → order.buyerId ≠ order.sellerId
  final : ∀ before after, ops = before ++ after → ∀ o s, s.final = true →
    statusOf o (run service.sequential db before) = some s →
      statusOf o (run service.sequential db ops) = some s
  confirmed : ∀ o, statusOf o (run service.sequential db ops) = some .confirmed →
    history (statusOf o) (visited service.sequential db ops) =
      [.pending, .paymentPending, .paid, .shipping, .delivered, .confirmed]

section
variable {db : Db} {op : Op}

/-- One operation, seen through the status of one order. -/
theorem statusOf_step (scope : op.inLife = true) {o : Id} {s' : OrderStatus}
    (now : statusOf o (service.sequential db op) = some s') :
    statusOf o db = none ∧ s' = .pending ∨
      ∃ s, statusOf o db = some s ∧ (s' = s ∨ Edge s s') := by
  obtain ⟨new, there, rfl⟩ := Option.map_eq_some_iff.mp now
  rcases (effect db op).order_moves scope there with ⟨fresh, pending⟩ | ⟨old, found, moved⟩
  · exact Or.inl ⟨statusOf_missing fresh, pending⟩
  · exact Or.inr ⟨old.status, statusOf_found found, moved.imp id Moves.edge⟩

theorem statusOf_stays (scope : op.inLife = true) {o : Id}
    (gone : statusOf o (service.sequential db op) = none) : statusOf o db = none :=
  statusOf_missing ((effect db op).order_stays scope (Option.map_eq_none_iff.mp gone))

/-- A final status stays over one operation. -/
theorem final_step (scope : op.inLife = true) {o : Id} {s : OrderStatus} (final : s.final = true)
    (was : statusOf o db = some s) : statusOf o (service.sequential db op) = some s := by
  cases now : statusOf o (service.sequential db op) with
  | none => cases (statusOf_stays scope now).symm.trans was
  | some s' =>
    rcases statusOf_step scope now with ⟨absent, _⟩ | ⟨b, before, same | edge⟩
    · cases absent.symm.trans was
    · cases before.symm.trans was
      rw [same]
    · cases before.symm.trans was
      cases final.symm.trans (edge_not_final edge)

end

/-- Every run of orders, payments, cancellations and withdrawals, from a database without
orders. -/
theorem order_histories (db : Db) (start : ∀ o, db.orders.find? o = none) (ops : List Op)
    (scope : ∀ op ∈ ops, op.inLife = true) : OrderHistories db ops := by
  have along : Along service.sequential (fun _ op => op.inLife = true) db ops :=
    along_of_forall scope
  have path (o : Id) (s : OrderStatus)
      (now : statusOf o (run service.sequential db ops) = some s) :
      Path Edge .pending (history (statusOf o) (visited service.sequential db ops)) s :=
    history_path (fun _ _ _ here => statusOf_step here) (fun _ _ here => statusOf_stays here)
      (statusOf_missing (start o)) along now
  refine ⟨path, ?_, ?_, ?_, ?_⟩
  · refine along.mono (fun t op here o old new found there changed => ?_)
    rcases (effect t op).order_moves here there with ⟨fresh, _⟩ | ⟨past, before, same | moved⟩
    · cases fresh.symm.trans found
    · cases before.symm.trans found
      exact absurd same changed
    · cases before.symm.trans found
      exact ⟨moved, moved.authored⟩
  · refine visited_invariant (fun t op h _ o order there => ?_)
      (fun o order found => by cases (start o).symm.trans found) along
    rcases (effect t op).order_parties there with ⟨old, found, buyer, seller, _⟩ | ⟨_, other, _⟩
    · rw [buyer, seller]
      exact h o old found
    · exact other
  · rintro before after rfl o s final was
    rw [run_append]
    exact run_invariant (I := fun t => statusOf o t = some s)
      (fun t op h here => final_step here final h) was (along_append.mp along).2
  · intro o now
    exact (path o .confirmed now).unique rfl trail_back rfl

/-- The lamp from order to confirmation. -/
theorem order_histories_lamp :
    statusOf "order-1" (run service.sequential market [.ordersCreate "bob" lampOrder (newOrder 1),
      .ordersUpdate "order-1" "bob" { status := .value .paymentPending },
      .ordersUpdate "order-1" "bob" { status := .value .paid },
      .ordersUpdate "order-1" "ann" { status := .value .shipping },
      .ordersUpdate "order-1" "ann" { status := .value .delivered },
      .ordersConfirm "order-1" "bob" 6 7]) = some .confirmed ∧
    OrderHistories market [.ordersCreate "bob" lampOrder (newOrder 1),
      .ordersUpdate "order-1" "bob" { status := .value .paymentPending },
      .ordersUpdate "order-1" "bob" { status := .value .paid },
      .ordersUpdate "order-1" "ann" { status := .value .shipping },
      .ordersUpdate "order-1" "ann" { status := .value .delivered },
      .ordersConfirm "order-1" "bob" 6 7] :=
  ⟨by decide +kernel, order_histories market (fun _ => rfl) _ (by decide)⟩

end SecondhandApi
