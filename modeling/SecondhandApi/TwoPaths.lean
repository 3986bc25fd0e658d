import SecondhandApi.LiveOrders

/-! Cancelling and confirming have two paths each: the PATCH of the status and the method
of its own. This module says in which states the two paths of a pair agree. -/
namespace SecondhandApi
open Keyed Interleaving

def Op.succeeds (op : Op) (db : Db) : Bool := (op.perform db).2.isOk

/- What is compared of an order and of a product. -/
def Order.mark (order : Order) : OrderStatus × Bool × Bool :=
  (order.status, order.cancelledAt.isSome, order.confirmedAt.isSome)

def Product.mark (product : Product) : ProductStatus × Bool :=
  (product.status, product.soldAt.isSome)

structure LooksSame (t t' : Tables) : Prop where
  orders : ∀ o, (t.orders.find? o).map Order.mark = (t'.orders.find? o).map Order.mark
  products : ∀ p, (t.products.find? p).map Product.mark = (t'.products.find? p).map Product.mark

/-- Two operations on one database that succeed together and leave what looks the same. -/
structure OnePath (db : Db) (a b : Op) : Prop where
  together : a.succeeds db = b.succeeds db
  alike : a.succeeds db = true → b.succeeds db = true →
    LooksSame (a.perform db).1.toTables (b.perform db).1.toTables

/-- The PATCH that asks for a status and nothing else. -/
def patchStatus (id userId : Id) (status : OrderStatus) : Op :=
  .ordersUpdate id userId { status := .value status }

structure PathsAgree (db : Db) (id userId : Id) (now soldAt : Date) : Prop where
  cancel : OnePath db (patchStatus id userId .cancelled) (.ordersCancel id userId now)
  confirm : OnePath db (patchStatus id userId .confirmed) (.ordersConfirm id userId now soldAt)

/-- Where the PATCH leaves what `cancel` leaves: it neither frees the product nor notes the
time, so both must have been there before; and it is never open to a PAID order. -/
def CancelAgrees (order : Order) (product : Product) : Prop :=
  order.status ≠ .paid ∧ (order.status = .pending ∨ order.status = .paymentPending →
    order.cancelledAt.isSome = true ∧ product.status = .active)

def ConfirmAgrees (order : Order) (product : Product) : Prop :=
  order.status = .delivered → order.confirmedAt.isSome = true ∧ product.status = .sold ∧
    product.soldAt.isSome = true

/-- The condition, for the order and its product as the database has them. It asks nothing
of a user who is not the buyer. -/
def Settled (db : Db) (id userId : Id) : Prop :=
  ∀ order product, db.orders.find? id = some order → order.buyerId = userId →
    db.products.find? order.productId = some product →
      CancelAgrees order product ∧ ConfirmAgrees order product

/-- A path of its own: for the buyer of an order in a status of `opens` it rewrites the
order and its product, and otherwise it fails. -/
structure OwnPath (db : Db) (id userId : Id) (op : Op) (opens : List OrderStatus)
    (write : Order → Order) (sell : Product → Product) : Prop where
  does : ∀ order product, db.orders.find? id = some order → order.buyerId = userId →
    db.products.find? order.productId = some product → order.status ∈ opens →
      op.succeeds db = true ∧ (op.perform db).1.toTables =
        (db.toTables.withOrders (db.orders.set id (write order))).withProducts
          (db.products.set order.productId (sell product))
  refuses : (∀ order, db.orders.find? id = some order → order.buyerId = userId →
    order.status ∉ opens) → op.succeeds db = false

section
variable {db : Db} {id userId : Id}

theorem perform_ok {A : Type} (op : Op) {f : A → Response} {p : Req A} (h : op.program = f <$> p)
    {db' : Db} {a : A} (ok : p.alone exec db = (db', .ok a)) :
    op.succeeds db = true ∧ (op.perform db).1 = db' := by
  have done : op.perform db = (db', .ok (f a)) := by
    rw [Op.perform, h, Request.alone_map, ok]
    rfl
  exact ⟨by rw [Op.succeeds, done]; rfl, by rw [done]⟩

theorem perform_refused {A : Type} (op : Op) {f : A → Response} {p : Req A}
    (h : op.program = f <$> p) (refused : Refused db (p.alone exec db)) :
    op.succeeds db = false := by
  obtain ⟨_, e, failed⟩ := refused
  rw [Op.succeeds, Op.perform, h, Request.alone_map, failed]
  rfl

/-- One path writes the order, the other the order and its product. -/
theorem looksSame_iff {t : Tables} {p : Id} {order : Order} {product : Product}
    (found : t.orders.find? id = some order) (item : t.products.find? p = some product)
    (new new' : Order) (row : Product) :
    LooksSame (t.withOrders (t.orders.set id new))
      ((t.withOrders (t.orders.set id new')).withProducts (t.products.set p row)) ↔
    new.mark = new'.mark ∧ product.mark = row.mark := by
  constructor
  · intro same
    have orders := same.orders id
    have products := same.products p
    simp only [Tables.orders_withOrders, Tables.orders_withProducts, Table.find?_set found,
      if_true] at orders
    simp only [Tables.products_withOrders, Tables.products_withProducts, Table.find?_set item,
      item, if_true] at products
    exact ⟨Option.some.inj orders, Option.some.inj products⟩
  · rintro ⟨order_same, product_same⟩
    refine ⟨fun o => ?_, fun q => ?_⟩
    · simp only [Tables.orders_withOrders, Tables.orders_withProducts, Table.find?_set found]
      by_cases here : o = id
      · rw [if_pos here, if_pos here, Option.map_some, Option.map_some, order_same]
      · rw [if_neg here, if_neg here]
    · simp only [Tables.products_withOrders, Tables.products_withProducts, Table.find?_set item]
      by_cases here : q = p
      · rw [if_pos here, here, item, Option.map_some, Option.map_some, product_same]
      · rw [if_neg here]

/-- The PATCH of a status that only the buyer may ask for. -/
theorem patchStatus_outcome {status : OrderStatus} (only : status ∈ OrdersService.buyerOnlyStatus)
    {order : Order} (found : db.orders.find? id = some order) (buyer : order.buyerId = userId) :
    (status ∈ OrdersService.allowedTransitions order.status ∧
      (patchStatus id userId status).succeeds db = true ∧
      ((patchStatus id userId status).perform db).1.toTables =
        db.toTables.withOrders (db.orders.set id { order with status := status })) ∨
    (status ∉ OrdersService.allowedTransitions order.status ∧
      (patchStatus id userId status).succeeds db = false) := by
  let dto : UpdateOrderDto := { status := .value status }
  rcases update_outcome db id userId dto with ⟨order', new, db', g, ok, after⟩ | ⟨refused, closed⟩
  · left
    cases found.symm.trans g.found
    have made : new = { order with status := status } := Option.some.inj (g.made.symm.trans rfl)
    have done := perform_ok (patchStatus id userId status) rfl ok
    exact ⟨(validated g.status).1, done.1, by rw [done.2, after, made]⟩
  · right
    refine ⟨fun allowed => ?_, perform_refused (patchStatus id userId status) rfl refused⟩
    refine closed order { order with status := status } ⟨found, Or.inl buyer, ?_, rfl, rfl⟩
    have notSellers : status ∉ OrdersService.sellerOnlyStatus := by
      cases status <;> first
        | exact absurd only (by decide)
        | decide
    simp [dto, OrdersService.validateStatus, OrdersService.validateStatusTransition, allowed,
      notSellers, buyer]

/-- Nobody but the buyer gets such a PATCH through. -/
theorem patchStatus_stranger {status : OrderStatus} (only : status ∈ OrdersService.buyerOnlyStatus)
    (other : ∀ order, db.orders.find? id = some order → order.buyerId ≠ userId) :
    (patchStatus id userId status).succeeds db = false := by
  rcases update_outcome db id userId { status := .value status } with
    ⟨order, new, db', g, _, _⟩ | ⟨refused, _⟩
  · exact absurd ((validated g.status).2.2 only) (other order g.found)
  · exact perform_refused (patchStatus id userId status) rfl refused

/-- A PATCH and a path of its own agree when both are open to the same statuses and write
what looks the same. -/
theorem onePath_iff {status : OrderStatus} (only : status ∈ OrdersService.buyerOnlyStatus)
    {op : Op} {opens : List OrderStatus} {write : Order → Order} {sell : Product → Product}
    (own : OwnPath db id userId op opens write sell) :
    OnePath db (patchStatus id userId status) op ↔
      ∀ order product, db.orders.find? id = some order → order.buyerId = userId →
        db.products.find? order.productId = some product →
          (status ∈ OrdersService.allowedTransitions order.status ↔ order.status ∈ opens) ∧
          (order.status ∈ opens → { order with status := status }.mark = (write order).mark ∧
            product.mark = (sell product).mark) := by
  constructor
  · intro agree order product found buyer item
    have same := looksSame_iff found item { order with status := status } (write order)
      (sell product)
    rcases patchStatus_outcome only found buyer with ⟨allowed, first, patched⟩ | ⟨closed, first⟩
    · have second : op.succeeds db = true := agree.together.symm.trans first
      have opened : order.status ∈ opens := by
        by_contra shut
        have fails := own.refuses (fun _ there _ => by cases found.symm.trans there; exact shut)
        cases fails.symm.trans second
      have looks := agree.alike first second
      rw [patched, (own.does order product found buyer item opened).2] at looks
      exact ⟨⟨fun _ => opened, fun _ => allowed⟩, fun _ => same.mp looks⟩
    · have shut : order.status ∉ opens := by
        intro opened
        have second := (own.does order product found buyer item opened).1
        cases second.symm.trans (agree.together.symm.trans first)
      exact ⟨⟨fun allowed => absurd allowed closed, fun opened => absurd opened shut⟩,
        fun opened => absurd opened shut⟩
  · intro agree
    by_cases mine : ∃ order, db.orders.find? id = some order ∧ order.buyerId = userId
    · obtain ⟨order, found, buyer⟩ := mine
      obtain ⟨product, item⟩ := Table.has_iff.mp (db.linked.order id order found).2.2
      obtain ⟨both, marks⟩ := agree order product found buyer item
      rcases patchStatus_outcome only found buyer with ⟨allowed, first, patched⟩ | ⟨closed, first⟩
      · obtain ⟨second, done⟩ := own.does order product found buyer item (both.mp allowed)
        refine ⟨first.trans second.symm, fun _ _ => ?_⟩
        rw [patched, done]
        exact (looksSame_iff found item _ _ _).mpr (marks (both.mp allowed))
      · have second := own.refuses (fun _ there _ => by
          cases found.symm.trans there
          exact fun opened => closed (both.mpr opened))
        exact ⟨first.trans second.symm, fun ok _ => by cases first.symm.trans ok⟩
    · have other : ∀ order, db.orders.find? id = some order → order.buyerId ≠ userId :=
        fun order found buyer => mine ⟨order, found, buyer⟩
      have first := patchStatus_stranger only other
      have second := own.refuses (fun order found buyer => absurd buyer (other order found))
      exact ⟨first.trans second.symm, fun ok _ => by cases first.symm.trans ok⟩

theorem close_ownPath {closing : OrdersService.Closing} {now : Date} {write : Order → Order}
    {sell : Product → Product} (c : Closes closing now write sell) {op : Op} {f : Order → Response}
    (same : op.program = f <$> OrdersService.close closing id userId now) :
    OwnPath db id userId op closing.opens write sell := by
  rcases close_outcome db c id userId with ⟨order, product, db', g, ok, after⟩ | ⟨refused, closed⟩
  · have done := perform_ok op same ok
    refine ⟨?_, fun shut => absurd g.opened (shut order g.found g.buyer)⟩
    intro order' product' found _ item _
    cases found.symm.trans g.found
    cases item.symm.trans g.item
    exact ⟨done.1, by rw [done.2, after]⟩
  · exact ⟨fun order product found buyer item opened =>
      absurd ⟨found, buyer, opened, item⟩ (closed order product),
      fun _ => perform_refused op same refused⟩

end

theorem cancelAgrees_iff (order : Order) (product : Product) (now : Date) :
    ((OrderStatus.cancelled ∈ OrdersService.allowedTransitions order.status ↔
        order.status ∈ OrdersService.cancellableStatuses) ∧
      (order.status ∈ OrdersService.cancellableStatuses →
        { order with status := .cancelled }.mark =
          { order with status := .cancelled, cancelledAt := some now }.mark ∧
        product.mark = { product with status := .active }.mark)) ↔ CancelAgrees order product := by
  cases h : order.status <;>
    simp [CancelAgrees, h, Order.mark, Product.mark, OrdersService.allowedTransitions,
      OrdersService.cancellableStatuses]

theorem confirmAgrees_iff (order : Order) (product : Product) (now soldAt : Date) :
    ((OrderStatus.confirmed ∈ OrdersService.allowedTransitions order.status ↔
        order.status ∈ [OrderStatus.delivered]) ∧
      (order.status ∈ [OrderStatus.delivered] →
        { order with status := .confirmed }.mark =
          { order with status := .confirmed, confirmedAt := some now }.mark ∧
        product.mark = { product with status := .sold, soldAt := some soldAt }.mark)) ↔
      ConfirmAgrees order product := by
  cases h : order.status <;>
    simp [ConfirmAgrees, h, Order.mark, Product.mark, OrdersService.allowedTransitions]

/-- The two paths of each pair agree exactly where the order is settled. -/
theorem paths_agree_iff (db : Db) (id userId : Id) (now soldAt : Date) :
    PathsAgree db id userId now soldAt ↔ Settled db id userId := by
  have cancelPath : OwnPath db id userId (.ordersCancel id userId now)
      OrdersService.cancellableStatuses _ _ := close_ownPath (cancelling_closes now) rfl
  have confirmPath : OwnPath db id userId (.ordersConfirm id userId now soldAt)
      [.delivered] _ _ := close_ownPath (confirming_closes now soldAt) rfl
  have cancels : OnePath db (patchStatus id userId .cancelled) (.ordersCancel id userId now) ↔ _ :=
    onePath_iff (by decide) cancelPath
  have confirms : OnePath db (patchStatus id userId .confirmed)
      (.ordersConfirm id userId now soldAt) ↔ _ :=
    onePath_iff (by decide) confirmPath
  simp only [cancelAgrees_iff] at cancels
  simp only [confirmAgrees_iff] at confirms
  constructor
  · intro agree order product found buyer item
    exact ⟨cancels.mp agree.cancel order product found buyer item,
      confirms.mp agree.confirm order product found buyer item⟩
  · intro settled
    exact ⟨cancels.mpr fun order product found buyer item =>
        (settled order product found buyer item).1,
      confirms.mpr fun order product found buyer item =>
        (settled order product found buyer item).2⟩

/-- They do not for the lamp that bob has just ordered: the PATCH cancels the order and
keeps the lamp RESERVED. -/
theorem paths_part : ¬ ∀ (db : Db) (id userId : Id) (now soldAt : Date),
    PathsAgree db id userId now soldAt := by
  intro always
  let ordered : Db := service.sequential market (.ordersCreate "bob" lampOrder (newOrder 1))
  have looks := (always ordered "order-1" "bob" 5 6).cancel.alike (by decide +kernel)
    (by decide +kernel)
  exact absurd (looks.products "lamp") (by decide +kernel)

end SecondhandApi
