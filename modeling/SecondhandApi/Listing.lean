import SecondhandApi.LiveOrders

/-! A product on sale and its orders. Seen from outside a product is open, held by one
order, sold by one order or withdrawn with its seller; the status column is meant to
show which. This module says for which runs it does. -/
namespace SecondhandApi
open Keyed Interleaving

inductive Listing where
  | opened
  | held (order : Id)
  | sold (order : Id)
  | gone
  deriving DecidableEq

/-- The life of a listing. -/
inductive Listing.Step : Listing → Listing → Prop where
  | order (o : Id) : Step opened (held o)
  | release (o : Id) : Step (held o) opened
  | complete (o : Id) : Step (held o) (sold o)
  | withdraw : Step opened gone

/-- A user who was active in `t₀` and is not in `t`. -/
def Withdrew (t₀ t : Tables) (u : Id) : Prop :=
  activity t₀ u = some true ∧ activity t u = some false

/-- What the tables hold about a product whose listing is `ℓ`. -/
def Shows (t₀ t : Tables) (p : Id) (row : Product) : Listing → Prop
  | .opened => row.status = .active ∧ liveOrders t p = ∅ ∧ confirmedOrders t p = ∅ ∧
      ¬ Withdrew t₀ t row.sellerId
  | .held o => row.status = .reserved ∧ liveOrders t p = {o} ∧ confirmedOrders t p = ∅ ∧
      ¬ Withdrew t₀ t row.sellerId
  | .sold o => row.status = .sold ∧ liveOrders t p = ∅ ∧ confirmedOrders t p = {o}
  | .gone => row.status = .deleted ∧ liveOrders t p = ∅ ∧ confirmedOrders t p = ∅ ∧
      Withdrew t₀ t row.sellerId

/-- The status of a product agrees with its orders. -/
structure StatusAgrees (t₀ t : Tables) (p : Id) (row : Product) : Prop where
  sold : row.status = .sold ↔ (confirmedOrders t p).Nonempty
  reserved : row.status = .reserved ↔ ∃! o, o ∈ liveOrders t p
  otherwise : row.status ≠ .sold → row.status ≠ .reserved →
    (Withdrew t₀ t row.sellerId → row.status = .deleted) ∧
      (¬ Withdrew t₀ t row.sellerId → row.status = .active)

theorem Shows.agrees {t₀ t : Tables} {p : Id} {row : Product} {ℓ : Listing}
    (h : Shows t₀ t p row ℓ) : StatusAgrees t₀ t p row := by
  cases ℓ with
  | opened =>
    obtain ⟨status, live, confirmed, stays⟩ := h
    constructor <;> simp [status, live, confirmed, stays]
  | held o =>
    obtain ⟨status, live, confirmed, stays⟩ := h
    constructor <;> simp [status, live, confirmed]
  | sold o =>
    obtain ⟨status, live, confirmed⟩ := h
    constructor <;> simp [status, live, confirmed]
  | gone =>
    obtain ⟨status, live, confirmed, left⟩ := h
    constructor <;> simp [status, live, confirmed, left]

/-- A live order holds its product. -/
theorem Shows.held_of_live {t₀ t : Tables} {p o : Id} {row : Product} {ℓ : Listing}
    (h : Shows t₀ t p row ℓ) (live : o ∈ liveOrders t p) : ℓ = .held o := by
  cases ℓ with
  | opened => rw [h.2.1] at live; cases live
  | held o' =>
    rw [h.2.1] at live
    cases live
    rfl
  | sold o' => rw [h.2.1] at live; cases live
  | gone => rw [h.2.1] at live; cases live

theorem Shows.sold_of_confirmed {t₀ t : Tables} {p o : Id} {row : Product} {ℓ : Listing}
    (h : Shows t₀ t p row ℓ) (confirmed : o ∈ confirmedOrders t p) : ℓ = .sold o := by
  cases ℓ with
  | opened => rw [h.2.2.1] at confirmed; cases confirmed
  | held o' => rw [h.2.2.1] at confirmed; cases confirmed
  | sold o' =>
    rw [h.2.2] at confirmed
    cases confirmed
    rfl
  | gone => rw [h.2.2.1] at confirmed; cases confirmed

theorem Shows.opened_of_active {t₀ t : Tables} {p : Id} {row : Product} {ℓ : Listing}
    (h : Shows t₀ t p row ℓ) (active : row.status = .active) : ℓ = .opened := by
  cases ℓ with
  | opened => rfl
  | held o => rw [h.1] at active; cases active
  | sold o => rw [h.1] at active; cases active
  | gone => rw [h.1] at active; cases active

/-- What a listing shows depends on the product's status and orders and on its seller. -/
theorem Shows.congr {t₀ t t' : Tables} {p : Id} {row row' : Product} {ℓ : Listing}
    (h : Shows t₀ t p row ℓ) (status : row'.status = row.status)
    (seller : row'.sellerId = row.sellerId) (live : liveOrders t' p = liveOrders t p)
    (confirmed : confirmedOrders t' p = confirmedOrders t p)
    (users : activity t' row.sellerId = activity t row.sellerId) : Shows t₀ t' p row' ℓ := by
  cases ℓ <;> simpa only [Shows, Withdrew, status, seller, live, confirmed, users] using h

/-! Runs of the order operations, the administrator's delete and withdrawal. -/

def Op.inSale : Op → Bool
  | .ordersCreate .. | .ordersUpdate .. | .ordersCancel .. | .ordersConfirm .. |
    .ordersRemove .. | .usersRemove .. => true
  | _ => false

/-- The steps that do not part an order from its product: no granted PATCH writes
CONFIRMED, CANCELLED or REFUNDED, no live or confirmed order is deleted, and nobody
withdraws from an unpaid order. -/
def KeepsStatus (db : Db) : Op → Prop
  | .ordersUpdate id userId dto => ∀ order new, UpdateGranted db id userId dto order new →
      ∀ s ∈ [OrderStatus.confirmed, .cancelled, .refunded], dto.status ≠ .value s
  | .ordersRemove id => ∀ order, db.orders.find? id = some order →
      order.status = .cancelled ∨ order.status = .refunded
  | .usersRemove id => ∀ user, WithdrawGranted db id user →
      ∀ o order, db.orders.find? o = some order → order.sellerId = id ∨ order.buyerId = id →
        order.status ≠ .pending ∧ order.status ≠ .paymentPending
  | _ => True

structure InStep (t₀ t : Tables) : Prop where
  shown : ∀ p row, t.products.find? p = some row → ∃ ℓ, Shows t₀ t p row ℓ
  sellers : SellersMatch t
  users : ∀ u, activity t u = some true → activity t₀ u = some true

section
variable {t₀ t' : Tables} {db : Db} {op : Op}

/-- A live order on a product: the product is held by it. -/
theorem InStep.held (h : InStep t₀ db.toTables) {o : Id} {order : Order}
    (found : db.orders.find? o = some order) (live : order.status.live = true) :
    ∃ row, db.products.find? order.productId = some row ∧
      Shows t₀ db.toTables order.productId row (.held o) := by
  obtain ⟨row, item⟩ := Table.has_iff.mp (db.linked.order o order found).2.2
  obtain ⟨ℓ, shows⟩ := h.shown _ row item
  have member : o ∈ liveOrders db.toTables order.productId := (mem_ordersIn found).mpr ⟨rfl, live⟩
  rw [shows.held_of_live member] at shows
  exact ⟨row, item, shows⟩

/- A kept or live status stays where it was among the live and the confirmed ones. -/
theorem patched_status {id userId : Id} {dto : UpdateOrderDto} {order new : Order}
    (g : UpdateGranted db id userId dto order new)
    (ok : KeepsStatus db (.ordersUpdate id userId dto)) :
    (new.status.live = true ↔ order.status.live = true) ∧
      (new.status = .confirmed ↔ order.status = .confirmed) := by
  rcases g.status_cases with ⟨_, same⟩ | ⟨asked, valid⟩
  · rw [same]
    exact ⟨Iff.rfl, Iff.rfl⟩
  · have before := live_of_allowed (validated valid).1
    have after : new.status ≠ .confirmed ∧ new.status ≠ .cancelled ∧ new.status ≠ .refunded := by
      refine ⟨?_, ?_, ?_⟩ <;> intro h <;> rw [h] at asked <;>
        exact ok order new g _ (by decide) asked
    cases hs : order.status <;> cases hn : new.status <;>
      simp_all [OrderStatus.live]

/-- What a step makes of the listing of a product: nothing, or its next stage. -/
def Follows (t₀ t t' : Tables) (p : Id) (row' : Product) : Prop :=
  ∃ row ℓ ℓ', t.products.find? p = some row ∧ Shows t₀ t p row ℓ ∧ Shows t₀ t' p row' ℓ' ∧
    (ℓ' = ℓ ∨ Listing.Step ℓ ℓ')

/-- A step that touches neither the status of a product nor its orders nor its seller leaves
its listing. -/
theorem InStep.stays (h : InStep t₀ db.toTables) {p : Id} {row : Product}
    (there : db.products.find? p = some row)
    (live : liveOrders t' p = liveOrders db.toTables p)
    (confirmed : confirmedOrders t' p = confirmedOrders db.toTables p)
    (users : activity t' row.sellerId = activity db.toTables row.sellerId) :
    Follows t₀ db.toTables t' p row := by
  obtain ⟨ℓ, shows⟩ := h.shown p row there
  exact ⟨row, ℓ, ℓ, there, shows, shows.congr rfl rfl live confirmed users, Or.inl rfl⟩

/-- A withdrawal that meets no unpaid order moves no order. -/
theorem ordersIn_withdrawn {id : Id} {user : User} {p : Id} (S : OrderStatus → Prop)
    (settled : ∀ o order, db.orders.find? o = some order →
      order.sellerId = id ∨ order.buyerId = id →
        order.status ≠ .pending ∧ order.status ≠ .paymentPending) :
    ordersIn (Prisma.withdrawn db.toTables id user).orders p S = ordersIn db.orders p S := by
  have idle (o : Id) (order : Order) (there : db.orders.find? o = some order) :
      Prisma.cancelUnpaid id order = order :=
    Prisma.cancelUnpaid_idle (fun party => settled o order there party)
  exact ordersIn_modifyAll (fun o order there => by rw [idle o order there])
    (fun o order there _ => by rw [idle o order there])

/-- A withdrawal closes the open listings of its user; none of them is held, since the
holding order is unpaid, which `settled` excludes, or under way, which the check does. -/
theorem InStep.withdrawal (h : InStep t₀ db.toTables) {id : Id} {user : User}
    (g : WithdrawGranted db id user)
    (settled : ∀ o order, db.orders.find? o = some order →
      order.sellerId = id ∨ order.buyerId = id →
        order.status ≠ .pending ∧ order.status ≠ .paymentPending)
    {p : Id} {row : Product} (found : db.products.find? p = some row) :
    Follows t₀ db.toTables (Prisma.withdrawn db.toTables id user) p
      (Prisma.deleteListed id row) := by
  have same (S : OrderStatus → Prop) :
      ordersIn (Prisma.withdrawn db.toTables id user).orders p S = ordersIn db.orders p S :=
    ordersIn_withdrawn S settled
  by_cases own : row.sellerId = id
  · have left : Withdrew t₀ (Prisma.withdrawn db.toTables id user) row.sellerId := by
      have now : activity db.toTables id = some true := by simp [activity, g.found, g.active]
      rw [own]
      exact ⟨h.users id now, by rw [activity_withdrawn g.found, if_pos rfl]⟩
    obtain ⟨ℓ, shows⟩ := h.shown p row found
    cases ℓ with
    | opened =>
      have status : (Prisma.deleteListed id row).status = .deleted := by
        simp [Prisma.deleteListed, own, shows.1]
      have seller := (Prisma.deleteListed_keeps id row).1
      exact ⟨row, .opened, .gone, found, shows, ⟨status, (same _).trans shows.2.1,
        (same _).trans shows.2.2.1, by rwa [seller]⟩, Or.inr .withdraw⟩
    | held o =>
      exfalso
      have member : o ∈ liveOrders db.toTables p := by rw [shows.2.1]; rfl
      obtain ⟨order, there, item, live⟩ := member
      have seller : order.sellerId = id :=
        (h.sellers o order row there (by rw [item]; exact found)).trans own
      have unpaid := settled o order there (Or.inl seller)
      have underWay := not_ongoing g.free there (Or.inl seller)
      cases hs : order.status <;> simp_all [OrderStatus.live]
    | sold o =>
      have kept : Prisma.deleteListed id row = row := by simp [Prisma.deleteListed, shows.1]
      rw [kept]
      exact ⟨row, .sold o, .sold o, found, shows,
        ⟨shows.1, (same _).trans shows.2.1, (same _).trans shows.2.2⟩, Or.inl rfl⟩
    | gone =>
      have kept : Prisma.deleteListed id row = row := by simp [Prisma.deleteListed, shows.1]
      rw [kept]
      exact ⟨row, .gone, .gone, found, shows,
        ⟨shows.1, (same _).trans shows.2.1, (same _).trans shows.2.2.1, left⟩, Or.inl rfl⟩
  · have kept : Prisma.deleteListed id row = row := by simp [Prisma.deleteListed, own]
    rw [kept]
    exact h.stays found (same _) (same _) (by rw [activity_withdrawn g.found, if_neg own])

/-- A new order holds its product, which was open, and leaves the other products. -/
theorem InStep.ordered (h : InStep t₀ db.toTables) {buyerId : Id} {dto : CreateOrderDto}
    {new : NewOrder} {product : Product} {order : Order}
    (g : CreateGranted db buyerId dto new product order) {p : Id} {row' : Product}
    (there : (db.products.set dto.productId { product with status := .reserved }).find? p =
      some row') :
    Follows t₀ db.toTables ((db.toTables.withOrders (db.orders.insert new.id order)).withProducts
      (db.products.set dto.productId { product with status := .reserved })) p row' := by
  obtain ⟨fresh, _, _, item, pending⟩ := g.row
  rw [Table.find?_set g.found] at there
  by_cases target : p = dto.productId
  · subst target
    rw [if_pos rfl] at there
    cases there
    obtain ⟨ℓ, shows⟩ := h.shown _ product g.found
    cases shows.opened_of_active g.active
    refine ⟨product, .opened, .held new.id, g.found, shows, ⟨rfl, ?_, ?_, shows.2.2.2⟩,
      Or.inr (.order new.id)⟩
    · exact ordersIn_insert_first fresh item (by rw [pending]; rfl) shows.2.1
    · have out : ¬ (order.productId = dto.productId ∧ order.status = .confirmed) := by
        rw [pending]; simp
      exact (ordersIn_insert_out fresh out).trans shows.2.2.1
  · rw [if_neg target] at there
    have away : ¬ order.productId = p := by rw [item]; exact Ne.symm target
    exact h.stays there (ordersIn_insert_out fresh (fun both => away both.1))
      (ordersIn_insert_out fresh (fun both => away both.1)) rfl

/-- The end of a live order moves the listing of its own product and leaves the others. -/
theorem InStep.settled (h : InStep t₀ db.toTables) {o : Id} {order order' : Order}
    {product product' : Product} {ℓ' : Listing} (found : db.orders.find? o = some order)
    (live : order.status.live = true) (same : order'.productId = order.productId)
    (item : db.products.find? order.productId = some product)
    (moves : Listing.Step (.held o) ℓ')
    (shown : Shows t₀ db.toTables order.productId product (.held o) →
      Shows t₀ ((db.toTables.withOrders (db.orders.set o order')).withProducts
        (db.products.set order.productId product')) order.productId product' ℓ')
    {p : Id} {row' : Product}
    (there : (db.products.set order.productId product').find? p = some row') :
    Follows t₀ db.toTables ((db.toTables.withOrders (db.orders.set o order')).withProducts
      (db.products.set order.productId product')) p row' := by
  rw [Table.find?_set item] at there
  by_cases target : p = order.productId
  · subst target
    rw [if_pos rfl] at there
    cases there
    obtain ⟨row, row_found, shows⟩ := h.held found live
    cases row_found.symm.trans item
    exact ⟨product, .held o, ℓ', item, shows, shown shows, Or.inr moves⟩
  · rw [if_neg target] at there
    have away : order.productId ≠ p := Ne.symm target
    exact h.stays there (ordersIn_set_same found same (fun here => absurd here away))
      (ordersIn_set_same found same (fun here => absurd here away)) rfl

/-- The tables follow the life of the listing: every allowed step of the services is a
step of each product's listing or leaves it. -/
theorem Effect.follows (e : Effect db op t') (h : InStep t₀ db.toTables)
    (scope : op.inSale = true) (ok : KeepsStatus db op) {p : Id} {row' : Product}
    (there : t'.products.find? p = some row') : Follows t₀ db.toTables t' p row' := by
  cases e with
  | unchanged => exact h.stays there rfl rfl rfl
  | ordered g => exact h.ordered g there
  | @patched id userId dto order new g =>
    obtain ⟨live, confirmed⟩ := patched_status g ok
    have item : new.productId = order.productId := (OrderUpdateInput.apply_keeps g.made).2.2
    exact h.stays there (ordersIn_set_same g.found item (fun _ => live))
      (ordersIn_set_same g.found item (fun _ => confirmed)) rfl
  | cancelled now g =>
    obtain ⟨live, unconfirmed⟩ := live_of_cancellable g.cancellable
    refine h.settled g.found live (by rfl) g.item (.release _) (fun shows => ?_) there
    refine ⟨rfl, ?_, ?_, shows.2.2.2⟩
    · exact ordersIn_set_last g.found (by simp [OrderStatus.live]) shows.2.1
    · refine Eq.trans (ordersIn_set_same g.found (by rfl) (fun _ => ?_)) shows.2.2.1
      simp [unconfirmed]
  | confirmed now soldAt g =>
    refine h.settled g.found (by rw [g.delivered]; rfl) (by rfl) g.item (.complete _)
      (fun shows => ?_) there
    refine ⟨rfl, ?_, ?_⟩
    · exact ordersIn_set_last g.found (by simp [OrderStatus.live]) shows.2.1
    · exact ordersIn_set_first g.found (by rfl) (by rfl) shows.2.2.1
  | @erased id order found =>
    have settled : order.status.live = false ∧ order.status ≠ .confirmed := by
      rcases ok order found with h | h <;> rw [h] <;> decide
    have outside {S : OrderStatus → Prop} (out : ¬ S order.status) :
        ordersIn (Prisma.withoutOrder db.toTables id).orders p S = ordersIn db.orders p S := by
      refine ordersIn_erase.trans (Set.sdiff_singleton_eq_self ?_)
      rw [mem_ordersIn found]
      exact fun both => out both.2
    exact h.stays there (outside (by simp [settled.1])) (outside settled.2) rfl
  | @withdrawn id user g =>
    rw [Prisma.products_withdrawn] at there
    obtain ⟨row, found, rfl⟩ := Option.map_eq_some_iff.mp there
    exact h.withdrawal g (ok user g) found
  | _ => cases scope

theorem Effect.inStep (e : Effect db op t') (h : InStep t₀ db.toTables)
    (scope : op.inSale = true) (ok : KeepsStatus db op) : InStep t₀ t' where
  shown p row' there := by
    obtain ⟨_, _, ℓ', _, _, shows, _⟩ := e.follows h scope ok there
    exact ⟨ℓ', shows⟩
  sellers := e.sellersMatch h.sellers
  users u active := by
    cases e with
    | unchanged => exact h.users u active
    | ordered g => exact h.users u active
    | patched g => exact h.users u active
    | cancelled now g => exact h.users u active
    | confirmed now soldAt g => exact h.users u active
    | erased found => exact h.users u active
    | withdrawn g =>
      rw [activity_withdrawn g.found] at active
      split at active
      · cases active
      · exact h.users u active
    | _ => cases scope

end

/-- The status of every product agrees with its orders. -/
def StatusesAgree (t₀ t : Tables) : Prop :=
  ∀ p row, t.products.find? p = some row → StatusAgrees t₀ t p row

theorem Unsold.inStep {t : Tables} (h : Unsold t) : InStep t t where
  shown p row found := by
    have same : ¬ Withdrew t t row.sellerId := fun both => by cases both.1.symm.trans both.2
    exact ⟨.opened, h.active p row found, h.empty p _, h.empty p _, same⟩
  sellers o order row found := by cases (h.noOrders o).symm.trans found
  users _ active := active

/-! The other direction: a step that parts an order from its product leaves a status
that does not agree. -/

section
variable {t₀ t' : Tables} {db : Db}

/-- A product shown as reserved without a live order. -/
theorem StatusAgrees.live_of_reserved {p : Id} {row : Product} (h : StatusAgrees t₀ t' p row)
    (reserved : row.status = .reserved) (none : liveOrders t' p = ∅) : False := by
  obtain ⟨o, live, _⟩ := h.reserved.mp reserved
  rw [none] at live
  cases live

theorem InStep.breaks_update (h : InStep t₀ db.toTables) {id userId : Id} {dto : UpdateOrderDto}
    (bad : ¬ KeepsStatus db (.ordersUpdate id userId dto)) :
    ¬ StatusesAgree t₀ (service.sequential db (.ordersUpdate id userId dto)).toTables := by
  intro agree
  simp only [KeepsStatus, not_forall, not_not] at bad
  obtain ⟨order, new, g, s, settling, asked⟩ := bad
  rcases g.status_cases with ⟨absent, _⟩ | ⟨written, valid⟩
  · rw [absent] at asked; cases asked
  · cases written.symm.trans asked
    obtain ⟨row, item, shows⟩ := h.held g.found (live_of_allowed (validated valid).1)
    have settled : ¬ new.status.live = true := by
      rcases (by simpa using settling :
        new.status = .confirmed ∨ new.status = .cancelled ∨ new.status = .refunded) with
        hs | hs | hs <;> rw [hs] <;> decide
    rw [patched_of_granted g] at agree
    exact (agree order.productId row item).live_of_reserved shows.1
      (ordersIn_set_last g.found settled shows.2.1)

theorem InStep.breaks_remove (h : InStep t₀ db.toTables) {id : Id}
    (bad : ¬ KeepsStatus db (.ordersRemove id)) :
    ¬ StatusesAgree t₀ (service.sequential db (.ordersRemove id)).toTables := by
  intro agree
  simp only [KeepsStatus, not_forall, not_or] at bad
  obtain ⟨order, found, notCancelled, notRefunded⟩ := bad
  rw [erased_of_found found] at agree
  by_cases live : order.status.live = true
  · obtain ⟨row, item, shows⟩ := h.held found live
    have gone : liveOrders (Prisma.withoutOrder db.toTables id) order.productId = ∅ := by
      refine ordersIn_erase.trans ?_
      have before : ordersIn db.orders order.productId (fun s => s.live = true) = {id} := shows.2.1
      rw [before, Set.sdiff_self]
    exact (agree order.productId row item).live_of_reserved shows.1 gone
  · have confirmed : order.status = .confirmed := by
      cases hs : order.status <;> simp_all [OrderStatus.live]
    obtain ⟨row, item⟩ := Table.has_iff.mp (db.linked.order id order found).2.2
    obtain ⟨ℓ, shows⟩ := h.shown _ row item
    have member : id ∈ confirmedOrders db.toTables order.productId :=
      (mem_ordersIn found).mpr ⟨rfl, confirmed⟩
    cases shows.sold_of_confirmed member
    have gone : confirmedOrders (Prisma.withoutOrder db.toTables id) order.productId = ∅ := by
      refine ordersIn_erase.trans ?_
      have before : ordersIn db.orders order.productId (fun s => s = .confirmed) = {id} :=
        shows.2.2
      rw [before, Set.sdiff_self]
    have left := (agree order.productId row item).sold.mp shows.1
    rw [gone] at left
    exact Set.not_nonempty_empty left

theorem InStep.breaks_withdrawal (h : InStep t₀ db.toTables) {id : Id}
    (bad : ¬ KeepsStatus db (.usersRemove id)) :
    ¬ StatusesAgree t₀ (service.sequential db (.usersRemove id)).toTables := by
  intro agree
  simp only [KeepsStatus, not_forall] at bad
  obtain ⟨user, g, o, order, found, party, pays⟩ := bad
  have unpaid : order.status = .pending ∨ order.status = .paymentPending := by
    by_contra neither
    exact pays (not_or.mp neither)
  rw [withdrawn_of_granted g] at agree
  obtain ⟨row, item, shows⟩ := h.held found (by rcases unpaid with hs | hs <;> rw [hs] <;> rfl)
  have still : (Prisma.withdrawn db.toTables id user).products.find? order.productId = some row := by
    rw [Prisma.products_withdrawn, item]
    simp [Prisma.deleteListed, shows.1]
  have gone : liveOrders (Prisma.withdrawn db.toTables id user) order.productId = ∅ := by
    refine Set.eq_empty_iff_forall_notMem.mpr ?_
    rintro j ⟨new, there, on, live⟩
    rw [Prisma.orders_withdrawn] at there
    obtain ⟨old, before, rfl⟩ := Option.map_eq_some_iff.mp there
    by_cases same : j = o
    · subst same
      cases found.symm.trans before
      have cancelled : (Prisma.cancelUnpaid id order).status = .cancelled := by
        simp [Prisma.cancelUnpaid, party, unpaid]
      rw [cancelled] at live
      cases live
    · have member : j ∈ liveOrders db.toTables order.productId :=
        (mem_ordersIn before).mpr ⟨(Prisma.cancelUnpaid_keeps id old).2.2.symm.trans on,
          live_of_cancelUnpaid live⟩
      rw [shows.2.1] at member
      exact same member
  exact (agree order.productId row still).live_of_reserved shows.1 gone

end

/-- In a run from ACTIVE products without orders, the status of every product agrees with
its orders all the way exactly when no step parts an order from its product. -/
theorem statuses_agree_iff (db : Db) (unsold : Unsold db.toTables) (ops : List Op)
    (scope : ∀ op ∈ ops, op.inSale = true) :
    (∀ t ∈ visited service.sequential db ops, StatusesAgree db.toTables t.toTables) ↔
      Along service.sequential KeepsStatus db ops := by
  refine always_iff_along (I := fun t => InStep db.toTables t.toTables)
    (fun t op h here ok => (effect t op).inStep h here ok) ?_ ?_ unsold.inStep scope
  · intro t h p row found
    obtain ⟨ℓ, shows⟩ := h.shown p row found
    exact shows.agrees
  · intro t op h here bad
    cases op with
    | ordersUpdate id userId dto => exact h.breaks_update bad
    | ordersRemove id => exact h.breaks_remove bad
    | usersRemove id => exact h.breaks_withdrawal bad
    | _ => exact absurd trivial bad

/-- A run that keeps to it: bob orders the lamp, moves to payment and cancels. -/
def payAndCancel : List Op := [.ordersCreate "bob" lampOrder (newOrder 1),
  .ordersUpdate "order-1" "bob" { status := .value .paymentPending },
  .ordersCancel "order-1" "bob" 5]

theorem statuses_agree_cancelled :
    Along service.sequential KeepsStatus market payAndCancel ∧
      ∀ t ∈ visited service.sequential market payAndCancel,
        StatusesAgree market.toTables t.toTables := by
  have ok : Along service.sequential KeepsStatus market payAndCancel := by
    refine ⟨trivial, ?_, trivial, trivial⟩
    intro _ _ _ s settling asked
    cases asked
    exact absurd settling (by decide)
  exact ⟨ok, (statuses_agree_iff market market_unsold payAndCancel (by decide)).mpr ok⟩

/-- A run that does not: bob orders the lamp and takes the order to CANCELLED by PATCH. -/
theorem statuses_part :
    ¬ ∀ (db : Db) (ops : List Op), Unsold db.toTables → (∀ op ∈ ops, op.inSale = true) →
      ∀ t ∈ visited service.sequential db ops, StatusesAgree db.toTables t.toTables := by
  intro always
  let ops : List Op := [.ordersCreate "bob" lampOrder (newOrder 1),
    .ordersUpdate "order-1" "bob" { status := .value .cancelled }]
  have agree := always market ops market_unsold (by decide) _ (run_mem_visited _ _ _)
  have reserved : (run service.sequential market ops).products.find? "lamp" =
      some { lamp with status := .reserved } := by decide +kernel
  exact (agree "lamp" _ reserved).live_of_reserved rfl
    (ordersIn_eq_empty (by decide +kernel))

end SecondhandApi
