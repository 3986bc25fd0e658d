import Mathlib.Data.Set.Subsingleton
import Mathlib.Order.BooleanAlgebra.Set
import SecondhandApi.Effects

/-! The orders of a product by status, and how each write to the order table changes
them. An order is live until it is confirmed, cancelled or refunded. -/
namespace SecondhandApi
open Keyed

def OrderStatus.live : OrderStatus → Bool
  | .pending | .paymentPending | .paid | .shipping | .delivered => true
  | .confirmed | .cancelled | .refunded => false

/-- The orders of product `p` whose status is in `S`. -/
def ordersIn (orders : Table Id Order) (p : Id) (S : OrderStatus → Prop) : Set Id :=
  {o | ∃ row, orders.find? o = some row ∧ row.productId = p ∧ S row.status}

def liveOrders (t : Tables) (p : Id) : Set Id := ordersIn t.orders p (fun s => s.live = true)

def confirmedOrders (t : Tables) (p : Id) : Set Id := ordersIn t.orders p (fun s => s = .confirmed)

section
variable {orders : Table Id Order} {p o : Id} {S : OrderStatus → Prop} {old new : Order}

theorem mem_ordersIn (found : orders.find? o = some old) :
    o ∈ ordersIn orders p S ↔ old.productId = p ∧ S old.status := by
  constructor
  · rintro ⟨row, there, item, status⟩
    cases found.symm.trans there
    exact ⟨item, status⟩
  · rintro ⟨item, status⟩
    exact ⟨old, found, item, status⟩

theorem not_mem_ordersIn (fresh : orders.find? o = none) : o ∉ ordersIn orders p S := by
  rintro ⟨row, there, _⟩
  cases fresh.symm.trans there

/- One order changes, so membership of the others does not. -/
theorem ordersIn_congr {orders' : Table Id Order}
    (same : ∀ j, j ≠ o → orders'.find? j = orders.find? j) {j : Id} (other : j ≠ o) :
    j ∈ ordersIn orders' p S ↔ j ∈ ordersIn orders p S := by
  simp only [ordersIn, Set.mem_ofPred_eq, same j other]

theorem ordersIn_insert (fresh : orders.find? o = none) (item : new.productId = p)
    (status : S new.status) : ordersIn (orders.insert o new) p S = insert o (ordersIn orders p S) := by
  ext j
  by_cases same : j = o
  · subst same
    have found := Table.find?_insert_self fresh new
    simp [mem_ordersIn found, item, status]
  · rw [Set.mem_insert_iff, or_iff_right same]
    exact ordersIn_congr (fun i other => by rw [Table.find?_insert fresh, if_neg other]) same

theorem ordersIn_insert_mono (fresh : orders.find? o = none) :
    ordersIn orders p S ⊆ ordersIn (orders.insert o new) p S := by
  intro j member
  have other : j ≠ o := by
    rintro rfl
    exact not_mem_ordersIn fresh member
  exact (ordersIn_congr (fun i apart => by rw [Table.find?_insert fresh, if_neg apart]) other).mpr
    member

theorem ordersIn_insert_out (fresh : orders.find? o = none)
    (out : ¬ (new.productId = p ∧ S new.status)) :
    ordersIn (orders.insert o new) p S = ordersIn orders p S := by
  ext j
  by_cases same : j = o
  · subst same
    have found := Table.find?_insert_self fresh new
    simp only [mem_ordersIn found, out, not_mem_ordersIn fresh]
  · exact ordersIn_congr (fun i other => by rw [Table.find?_insert fresh, if_neg other]) same

theorem ordersIn_set (found : orders.find? o = some old) (item : new.productId = p)
    (status : S new.status) : ordersIn (orders.set o new) p S = insert o (ordersIn orders p S) := by
  ext j
  by_cases same : j = o
  · subst same
    have there := Table.find?_set_self found new
    simp [mem_ordersIn there, item, status]
  · rw [Set.mem_insert_iff, or_iff_right same]
    exact ordersIn_congr (fun i other => by rw [Table.find?_set found, if_neg other]) same

theorem ordersIn_set_out (found : orders.find? o = some old)
    (out : ¬ (new.productId = p ∧ S new.status)) :
    ordersIn (orders.set o new) p S = ordersIn orders p S \ {o} := by
  ext j
  by_cases same : j = o
  · subst same
    have there := Table.find?_set_self found new
    simp [mem_ordersIn there, out]
  · rw [Set.mem_sdiff, Set.mem_singleton_iff, and_iff_left same]
    exact ordersIn_congr (fun i other => by rw [Table.find?_set found, if_neg other]) same

/-- A row whose product and membership stay changes nothing. -/
theorem ordersIn_set_same (found : orders.find? o = some old) (item : new.productId = old.productId)
    (status : old.productId = p → (S new.status ↔ S old.status)) :
    ordersIn (orders.set o new) p S = ordersIn orders p S := by
  ext j
  by_cases same : j = o
  · subst same
    have there := Table.find?_set_self found new
    rw [mem_ordersIn there, mem_ordersIn found, item]
    exact and_congr_right status
  · exact ordersIn_congr (fun i other => by rw [Table.find?_set found, if_neg other]) same

theorem ordersIn_eq_empty [DecidablePred S] (h : orders.all
    (fun _ row => !(decide (row.productId = p) && decide (S row.status))) = true) :
    ordersIn orders p S = ∅ := by
  refine Set.eq_empty_iff_forall_notMem.mpr ?_
  rintro o ⟨row, found, item, status⟩
  have out := Table.all_iff.mp h o row found
  simp [item, status] at out

/-- A row that enters `S` nowhere new. -/
theorem ordersIn_set_subset (found : orders.find? o = some old)
    (item : new.productId = old.productId) (status : S new.status → S old.status) :
    ordersIn (orders.set o new) p S ⊆ ordersIn orders p S := by
  rintro j ⟨row, there, on, member⟩
  rcases Table.find?_set_cases there with before | ⟨rfl, rfl⟩
  · exact ⟨row, before, on, member⟩
  · exact ⟨old, found, item.symm.trans on, status member⟩

/-! The first order of `p` enters `S`, the last one leaves. -/

theorem ordersIn_insert_first (fresh : orders.find? o = none) (item : new.productId = p)
    (status : S new.status) (before : ordersIn orders p S = ∅) :
    ordersIn (orders.insert o new) p S = {o} := by
  rw [ordersIn_insert fresh item status, before, insert_empty_eq]

theorem ordersIn_set_first (found : orders.find? o = some old) (item : new.productId = p)
    (status : S new.status) (before : ordersIn orders p S = ∅) :
    ordersIn (orders.set o new) p S = {o} := by
  rw [ordersIn_set found item status, before, insert_empty_eq]

theorem ordersIn_set_last (found : orders.find? o = some old) (out : ¬ S new.status)
    (before : ordersIn orders p S = {o}) : ordersIn (orders.set o new) p S = ∅ := by
  rw [ordersIn_set_out found (fun both => out both.2), before, Set.sdiff_self]

theorem ordersIn_erase :
    ordersIn (orders.erase o) p S = ordersIn orders p S \ {o} := by
  ext j
  by_cases same : j = o
  · subst same
    have gone : (orders.erase j).find? j = none := by simp [Table.find?_erase]
    simp [not_mem_ordersIn gone]
  · rw [Set.mem_sdiff, Set.mem_singleton_iff, and_iff_left same]
    exact ordersIn_congr (fun i other => by rw [Table.find?_erase, if_neg other]) same

/-- A sweep over all rows that keeps products and membership. -/
theorem ordersIn_modifyAll {f : Id → Order → Order}
    (item : ∀ j row, orders.find? j = some row → (f j row).productId = row.productId)
    (status : ∀ j row, orders.find? j = some row → row.productId = p →
      (S (f j row).status ↔ S row.status)) :
    ordersIn (orders.modifyAll f) p S = ordersIn orders p S := by
  ext j
  cases found : orders.find? j with
  | none =>
    have still : (orders.modifyAll f).find? j = none := by simp [found]
    simp [not_mem_ordersIn found, not_mem_ordersIn still]
  | some row =>
    have still : (orders.modifyAll f).find? j = some (f j row) := by simp [found]
    rw [mem_ordersIn found, mem_ordersIn still, item j row found]
    exact and_congr_right (status j row found)

end

/-! What the checks of the operations say about statuses. -/

theorem live_of_cancellable {s : OrderStatus} (h : s ∈ OrdersService.cancellableStatuses) :
    s.live = true ∧ s ≠ .confirmed := by
  cases s <;> simp_all [OrdersService.cancellableStatuses, OrderStatus.live]

theorem live_of_allowed {s s' : OrderStatus} (h : s' ∈ OrdersService.allowedTransitions s) :
    s.live = true := by
  cases s <;> simp_all [OrdersService.allowedTransitions, OrderStatus.live]

theorem validated {current new : OrderStatus} {userId : Id} {order : Order}
    (h : OrdersService.validateStatusTransition current new userId order = .ok ()) :
    new ∈ OrdersService.allowedTransitions current ∧
      (new ∈ OrdersService.sellerOnlyStatus → order.sellerId = userId) ∧
      (new ∈ OrdersService.buyerOnlyStatus → order.buyerId = userId) := by
  unfold OrdersService.validateStatusTransition at h
  split at h
  · cases h
  · rename_i allowed
    split at h
    · cases h
    · rename_i seller
      split at h
      · cases h
      · rename_i buyer
        exact ⟨not_not.mp allowed, fun h => by_contra fun other => seller ⟨h, other⟩,
          fun h => by_contra fun other => buyer ⟨h, other⟩⟩

/-- A granted update keeps the status or takes one of the allowed transitions. -/
theorem UpdateGranted.status_cases {db : Db} {id userId : Id} {dto : UpdateOrderDto}
    {order new : Order} (g : UpdateGranted db id userId dto order new) :
    (dto.status = .undefined ∧ new.status = order.status) ∨
      (dto.status = .value new.status ∧
        OrdersService.validateStatusTransition order.status new.status userId order = .ok ()) := by
  rcases Field.required_eq_some (OrderUpdateInput.apply_status g.made) with ⟨same, absent⟩ | written
  · exact Or.inl ⟨absent, same⟩
  · have valid := g.status
    have asked : dto.status = .value new.status := written
    rw [asked] at valid
    exact Or.inr ⟨asked, valid⟩

/-- An update brings no order back. -/
theorem UpdateGranted.live_before {db : Db} {id userId : Id} {dto : UpdateOrderDto}
    {order new : Order} (g : UpdateGranted db id userId dto order new)
    (live : new.status.live = true) : order.status.live = true := by
  rcases g.status_cases with ⟨_, same⟩ | ⟨_, valid⟩
  · rwa [same] at live
  · exact live_of_allowed (validated valid).1

/-- What an edit writes to the status. -/
theorem EditGranted.status_cases {db : Db} {id userId : Id} {dto : UpdateProductDto}
    {product new : Product} (g : EditGranted db id userId dto product new) :
    new.status = product.status ∨ dto.status = .value new.status := by
  have written := (ProductUpdateInput.apply_cases g.made).2.2
  rcases Field.required_eq_some written with ⟨same, _⟩ | asked
  · exact Or.inl same
  · have passed : dto.status.ifTruthy always = .value new.status := asked
    cases hs : dto.status with
    | undefined => rw [hs] at passed; cases passed
    | null => rw [hs] at passed; cases passed
    | value s =>
      rw [hs] at passed
      exact Or.inr passed

theorem EditGranted.status_asked {db : Db} {id userId : Id} {dto : UpdateProductDto}
    {product new : Product} (g : EditGranted db id userId dto product new) {s : ProductStatus}
    (asked : dto.status = .value s) : new.status = s := by
  have written := (ProductUpdateInput.apply_cases g.made).2.2
  simp only [ProductsService.changes, asked, Field.ifTruthy, always, if_true, Field.required,
    Option.some.injEq] at written
  exact written.symm

/-- The sweep of a withdrawal brings no order back. -/
theorem live_of_cancelUnpaid {id : Id} {order : Order}
    (live : (Prisma.cancelUnpaid id order).status.live = true) : order.status.live = true := by
  unfold Prisma.cancelUnpaid at live
  split at live
  · cases live
  · exact live

theorem not_ongoing {t : Tables} {id o : Id} {order : Order} (free : ongoing t id = false)
    (found : t.orders.find? o = some order) (party : order.sellerId = id ∨ order.buyerId = id) :
    order.status ≠ .paid ∧ order.status ≠ .shipping ∧ order.status ≠ .delivered := by
  have idle : ¬ ∃ k v, t.orders.find? k = some v ∧ ((v.sellerId = id || v.buyerId = id) &&
      (v.status = .paid || v.status = .shipping || v.status = .delivered)) = true := by
    rw [← Table.any_iff]
    exact Bool.eq_false_iff.mp free
  refine ⟨?_, ?_, ?_⟩ <;> intro status <;>
    exact idle ⟨o, order, found, by rcases party with party | party <;> simp [party, status]⟩

/-! What no operation changes: the parties and the product of an order, the seller of
a product. -/

section
variable {db : Db} {op : Op} {t' : Tables}

theorem Effect.product_seller (e : Effect db op t') {p : Id} {new : Product}
    (there : t'.products.find? p = some new) :
    db.products.find? p = none ∨
      ∃ old, db.products.find? p = some old ∧ new.sellerId = old.sellerId := by
  have set {id : Id} {old row : Product} (found : db.products.find? id = some old)
      (there : (db.products.set id row).find? p = some new)
      (seller : row.sellerId = old.sellerId) :
      db.products.find? p = none ∨
        ∃ old, db.products.find? p = some old ∧ new.sellerId = old.sellerId := by
    rcases Table.find?_set_cases there with same | ⟨rfl, rfl⟩
    · exact Or.inr ⟨new, same, rfl⟩
    · exact Or.inr ⟨old, found, seller⟩
  cases e with
  | unchanged => exact Or.inr ⟨new, there, rfl⟩
  | ordered g => exact set g.found there rfl
  | patched g => exact Or.inr ⟨new, there, rfl⟩
  | cancelled now g => exact set g.item there rfl
  | confirmed now soldAt g => exact set g.item there rfl
  | erased found => exact Or.inr ⟨new, there, rfl⟩
  | listed g =>
    rcases Table.find?_insert_cases there with same | ⟨rfl, rfl⟩
    · exact Or.inr ⟨new, same, rfl⟩
    · exact Or.inl g.row.1
  | viewed found => exact set found there rfl
  | edited g => exact set g.found there (ProductUpdateInput.apply_cases g.made).1
  | delisted g => exact set g.found there rfl
  | registered fresh active => exact Or.inr ⟨new, there, rfl⟩
  | signedIn found same => exact Or.inr ⟨new, there, rfl⟩
  | profiled found same => exact Or.inr ⟨new, there, rfl⟩
  | withdrawn g =>
    rw [Prisma.products_withdrawn] at there
    obtain ⟨old, found, rfl⟩ := Option.map_eq_some_iff.mp there
    exact Or.inr ⟨old, found, (Prisma.deleteListed_keeps _ old).1⟩

/-- An order comes from the table before with its parties, or it was just made: on a
product of its seller, by somebody else. -/
theorem Effect.order_parties (e : Effect db op t') {o : Id} {new : Order}
    (there : t'.orders.find? o = some new) :
    (∃ old, db.orders.find? o = some old ∧ new.buyerId = old.buyerId ∧
      new.sellerId = old.sellerId ∧ new.productId = old.productId) ∨
    (db.orders.find? o = none ∧ new.buyerId ≠ new.sellerId ∧
      ∃ product, db.products.find? new.productId = some product ∧
        new.sellerId = product.sellerId) := by
  have stays (same : db.orders.find? o = some new) :
      (∃ old, db.orders.find? o = some old ∧ new.buyerId = old.buyerId ∧
        new.sellerId = old.sellerId ∧ new.productId = old.productId) ∨
      (db.orders.find? o = none ∧ new.buyerId ≠ new.sellerId ∧
        ∃ product, db.products.find? new.productId = some product ∧
          new.sellerId = product.sellerId) := Or.inl ⟨new, same, rfl, rfl, rfl⟩
  cases e with
  | unchanged => exact stays there
  | ordered g =>
    rcases Table.find?_insert_cases there with same | ⟨rfl, rfl⟩
    · exact stays same
    · obtain ⟨fresh, buyer, seller, item, _⟩ := g.row
      exact Or.inr ⟨fresh, by rw [buyer, seller]; exact Ne.symm g.other, _,
        by rw [item]; exact g.found, seller⟩
  | patched g =>
    rcases Table.find?_set_cases there with same | ⟨rfl, rfl⟩
    · exact stays same
    · exact Or.inl ⟨_, g.found, OrderUpdateInput.apply_keeps g.made⟩
  | cancelled now g =>
    rcases Table.find?_set_cases there with same | ⟨rfl, rfl⟩
    · exact stays same
    · exact Or.inl ⟨_, g.found, rfl, rfl, rfl⟩
  | confirmed now soldAt g =>
    rcases Table.find?_set_cases there with same | ⟨rfl, rfl⟩
    · exact stays same
    · exact Or.inl ⟨_, g.found, rfl, rfl, rfl⟩
  | erased found =>
    rw [Prisma.find?_withoutOrder] at there
    split at there
    · cases there
    · exact stays there
  | listed g => exact stays there
  | viewed found => exact stays there
  | edited g => exact stays there
  | delisted g => exact stays there
  | registered fresh active => exact stays there
  | signedIn found same => exact stays there
  | profiled found same => exact stays there
  | withdrawn g =>
    rw [Prisma.orders_withdrawn] at there
    obtain ⟨old, found, rfl⟩ := Option.map_eq_some_iff.mp there
    exact Or.inl ⟨old, found, Prisma.cancelUnpaid_keeps _ old⟩

/-! Whether a user is active: `some false` after a withdrawal. -/

def activity (t : Tables) (u : Id) : Option Bool := (t.users.find? u).map (·.isActive)

theorem activity_withdrawn {t : Tables} {id : Id} {user : User}
    (found : t.users.find? id = some user) (u : Id) :
    activity (Prisma.withdrawn t id user) u = if u = id then some false else activity t u := by
  simp only [activity, Prisma.users_withdrawn, Table.find?_set found]
  by_cases same : u = id <;> simp [same, Prisma.deactivated]

/-- Every order names the seller of its product. -/
def SellersMatch (t : Tables) : Prop :=
  ∀ o order row, t.orders.find? o = some order → t.products.find? order.productId = some row →
    order.sellerId = row.sellerId

theorem Effect.sellersMatch (e : Effect db op t') (h : SellersMatch db.toTables) :
    SellersMatch t' := by
  intro o order row found item
  rcases e.product_seller item with missing | ⟨old, before, seller⟩
  · rcases e.order_parties found with ⟨past, there, _, _, same⟩ | ⟨_, _, product, there, _⟩
    · obtain ⟨product, known⟩ := Table.has_iff.mp (db.linked.order o past there).2.2
      rw [same] at missing
      cases missing.symm.trans known
    · cases missing.symm.trans there
  · rw [seller]
    rcases e.order_parties found with ⟨past, there, _, same, on⟩ | ⟨_, _, product, there, same⟩
    · rw [same]
      rw [on] at before
      exact h o past old there before
    · rw [same]
      cases before.symm.trans there
      rfl

end

/-- Every product has at most one live order, and none while it is ACTIVE. -/
structure Exclusive (t : Tables) : Prop where
  one : ∀ p, (liveOrders t p).Subsingleton
  free : ∀ p row, t.products.find? p = some row → row.status = .active → liveOrders t p = ∅

theorem Exclusive.shrink {t t' : Tables} (h : Exclusive t)
    (fewer : ∀ p, liveOrders t' p ⊆ liveOrders t p)
    (free : ∀ p row, t'.products.find? p = some row → row.status = .active →
      (∃ old, t.products.find? p = some old ∧ old.status = .active) ∨ liveOrders t' p = ∅) :
    Exclusive t' where
  one p := (h.one p).anti (fewer p)
  free p row there active := by
    rcases free p row there active with ⟨old, found, was⟩ | none
    · exact Set.subset_eq_empty (fewer p) (h.free p old found was)
    · exact none

/-- ACTIVE products without orders. -/
structure Unsold (t : Tables) : Prop where
  active : ∀ p row, t.products.find? p = some row → row.status = .active
  noOrders : ∀ o, t.orders.find? o = none

theorem Unsold.empty {t : Tables} (h : Unsold t) (p : Id) (S : OrderStatus → Prop) :
    ordersIn t.orders p S = ∅ :=
  Set.eq_empty_iff_forall_notMem.mpr (fun o => not_mem_ordersIn (h.noOrders o))

theorem Unsold.exclusive {t : Tables} (h : Unsold t) : Exclusive t where
  one p := (congrArg Set.Subsingleton (h.empty p _)).mpr Set.subsingleton_empty
  free p _ _ _ := h.empty p _

theorem market_unsold : Unsold market.toTables where
  active p row found := by
    have all : market.products.all (fun _ r => decide (r.status = .active)) = true := by decide
    exact of_decide_eq_true (Table.all_iff.mp all p row found)
  noOrders _ := rfl

theorem live_of_row {t : Tables} {p o : Id}
    (h : (t.orders.find? o).map (fun row => (row.productId, row.status.live)) = some (p, true)) :
    o ∈ liveOrders t p := by
  obtain ⟨row, found, both⟩ := Option.map_eq_some_iff.mp h
  exact ⟨row, found, congrArg Prod.fst both, congrArg Prod.snd both⟩

end SecondhandApi
