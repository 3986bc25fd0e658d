import SecondhandApi.Calls
import SecondhandApi.Operations

/-! What each operation does when it runs alone. The checks of an operation are a
structure of facts about the database before it; granted, the operation leaves the
tables written here, and otherwise it fails and leaves the database as it was. -/
namespace SecondhandApi
open Keyed Interleaving

structure CreateGranted (db : Db) (buyerId : Id) (dto : CreateOrderDto) (new : NewOrder)
    (product : Product) (order : Order) : Prop where
  found : db.products.find? dto.productId = some product
  active : product.status = .active
  other : product.sellerId ≠ buyerId
  made : ∃ number t, freshNumber db.toTables "ORD" new.draws = some number ∧
    Prisma.orderCreate db.toTables new.id new.now (dto.toInput buyerId product.sellerId number) =
      .ok (t, order)

structure UpdateGranted (db : Db) (id userId : Id) (dto : UpdateOrderDto)
    (order new : Order) : Prop where
  found : db.orders.find? id = some order
  party : order.buyerId = userId ∨ order.sellerId = userId
  status : OrdersService.validateStatus order userId dto.status = .ok ()
  made : dto.toInput.apply order = some new
  payment : Prisma.paymentTaken db.toTables id dto.paymentId = false

structure CloseGranted (db : Db) (closing : OrdersService.Closing) (id userId : Id) (order : Order)
    (product : Product) : Prop where
  found : db.orders.find? id = some order
  buyer : order.buyerId = userId
  opened : order.status ∈ closing.opens
  item : db.products.find? order.productId = some product

abbrev CancelGranted (db : Db) (id userId : Id) (order : Order) (product : Product) : Prop :=
  CloseGranted db OrdersService.cancelling id userId order product

abbrev ConfirmGranted (db : Db) (soldAt : Date) (id userId : Id) (order : Order)
    (product : Product) : Prop :=
  CloseGranted db (OrdersService.confirming soldAt) id userId order product

theorem CancelGranted.cancellable {db : Db} {id userId : Id} {order : Order} {product : Product}
    (g : CancelGranted db id userId order product) :
    order.status ∈ OrdersService.cancellableStatuses := g.opened

theorem ConfirmGranted.delivered {db : Db} {soldAt : Date} {id userId : Id} {order : Order}
    {product : Product} (g : ConfirmGranted db soldAt id userId order product) :
    order.status = .delivered := List.mem_singleton.mp g.opened

structure ListGranted (db : Db) (sellerId : Id) (dto : CreateProductDto) (id : Id) (now : Date)
    (product : Product) : Prop where
  place : oneCoordinate dto.latitude dto.longitude = false
  made : ∃ t, Prisma.productCreate db.toTables id now (dto.toInput sellerId) = .ok (t, product)

structure EditGranted (db : Db) (id userId : Id) (dto : UpdateProductDto)
    (product new : Product) : Prop where
  found : db.products.find? id = some product
  seller : product.sellerId = userId
  listed : product.status ≠ .deleted
  place : oneCoordinate dto.latitude dto.longitude = false
  made : (ProductsService.changes dto).apply product = some new
  category : Prisma.categoryMissing db.toTables (ProductsService.changes dto).category = false

structure DelistGranted (db : Db) (id userId : Id) (product : Product) : Prop where
  found : db.products.find? id = some product
  seller : product.sellerId = userId
  listed : product.status ≠ .deleted

/- The orders that keep a user from withdrawing. -/
def ongoing (t : Tables) (userId : Id) : Bool :=
  t.orders.any (fun _ o => (o.sellerId = userId || o.buyerId = userId) &&
    (o.status = .paid || o.status = .shipping || o.status = .delivered))

structure WithdrawGranted (db : Db) (id : Id) (user : User) : Prop where
  found : db.users.find? id = some user
  active : user.isActive = true
  free : ongoing db.toTables id = false

section
variable (db : Db)

/-- The order row of a granted creation. -/
theorem CreateGranted.row {db : Db} {buyerId : Id} {dto : CreateOrderDto} {new : NewOrder}
    {product : Product} {order : Order} (g : CreateGranted db buyerId dto new product order) :
    db.orders.find? new.id = none ∧ order.buyerId = buyerId ∧ order.sellerId = product.sellerId ∧
      order.productId = dto.productId ∧ order.status = .pending := by
  obtain ⟨number, t, _, made⟩ := g.made
  obtain ⟨fee, row, fresh, _⟩ := Prisma.orderCreate_ok made
  exact ⟨fresh, congrArg Order.buyerId row, congrArg Order.sellerId row,
    congrArg Order.productId row, congrArg Order.status row⟩

theorem create_outcome (buyerId : Id) (dto : CreateOrderDto) (new : NewOrder) :
    (∃ product order db', CreateGranted db buyerId dto new product order ∧
      (OrdersService.create buyerId dto new).alone exec db = (db', .ok order) ∧
      db'.toTables = (db.toTables.withOrders (db.orders.insert new.id order)).withProducts
        (db.products.set dto.productId { product with status := .reserved })) ∨
    (Refused db ((OrdersService.create buyerId dto new).alone exec db) ∧
      ∀ product order, ¬ CreateGranted db buyerId dto new product order) := by
  cases found : db.products.find? dto.productId with
  | none =>
    right
    exact ⟨by simp [OrdersService.create, Request.alone_bind, found],
      fun _ _ g => by cases found.symm.trans g.found⟩
  | some product =>
    by_cases active : product.status = .active
    · by_cases own : product.sellerId = buyerId
      · right
        refine ⟨by simp [OrdersService.create, Request.alone_bind, found, active, own], ?_⟩
        intro _ _ g
        cases found.symm.trans g.found
        exact g.other own
      · cases number : freshNumber db.toTables "ORD" new.draws with
        | none =>
          right
          refine ⟨by simp [OrdersService.create, Request.alone_bind, found, active, own,
            generateOrderNumber_alone, number], ?_⟩
          intro _ _ g
          obtain ⟨_, _, drawn, _⟩ := g.made
          cases number.symm.trans drawn
        | some n =>
          rcases orderCreate_alone db new.id new.now (dto.toInput buyerId product.sellerId n) with
            ⟨e, refused, done⟩ | ⟨mid, order, made, done⟩
          · right
            refine ⟨by simp [OrdersService.create, Request.alone_bind, found, active, own,
              generateOrderNumber_alone, number, done], ?_⟩
            intro _ _ g
            obtain ⟨_, _, drawn, made⟩ := g.made
            cases found.symm.trans g.found
            cases number.symm.trans drawn
            cases refused.symm.trans made
          · left
            obtain ⟨_, _, _, _, _, _, grown⟩ := Prisma.orderCreate_ok made
            have item : mid.products.find? dto.productId = some product := by
              rw [grown]; exact found
            obtain ⟨db', reserved, after⟩ := productStatus_alone .reserved item
            refine ⟨product, order, db', ⟨found, active, own, n, _, number, made⟩, ?_, ?_⟩
            · simp [OrdersService.create, Request.alone_bind, found, active, own,
                generateOrderNumber_alone, number, done, reserved]
            · rw [after, grown, Tables.products_withOrders]
    · right
      refine ⟨by simp [OrdersService.create, Request.alone_bind, found, active], ?_⟩
      intro _ _ g
      cases found.symm.trans g.found
      exact active g.active

theorem update_outcome (id userId : Id) (dto : UpdateOrderDto) :
    (∃ order new db', UpdateGranted db id userId dto order new ∧
      (OrdersService.update id userId dto).alone exec db = (db', .ok new) ∧
      db'.toTables = db.toTables.withOrders (db.orders.set id new)) ∨
    (Refused db ((OrdersService.update id userId dto).alone exec db) ∧
      ∀ order new, ¬ UpdateGranted db id userId dto order new) := by
  cases found : db.orders.find? id with
  | none =>
    right
    exact ⟨by simp [OrdersService.update, Request.alone_bind, found],
      fun _ _ g => by cases found.symm.trans g.found⟩
  | some order =>
    by_cases stranger : order.buyerId ≠ userId ∧ order.sellerId ≠ userId
    · right
      refine ⟨by simp [OrdersService.update, Request.alone_bind, found, stranger], ?_⟩
      intro _ _ g
      cases found.symm.trans g.found
      rcases g.party with buyer | seller
      · exact stranger.1 buyer
      · exact stranger.2 seller
    · cases valid : OrdersService.validateStatus order userId dto.status with
      | error e =>
        right
        refine ⟨by simp [OrdersService.update, Request.alone_bind, found, stranger, valid], ?_⟩
        intro _ _ g
        cases found.symm.trans g.found
        cases valid.symm.trans g.status
      | ok _ =>
        have enters : (OrdersService.update id userId dto).alone exec db =
            (OrdersRepository.update id dto.toInput).alone exec db := by
          simp [OrdersService.update, Request.alone_bind, found, stranger, valid]
        rcases orderUpdate_split db id dto.toInput with ⟨e, refused, done⟩ | ⟨db', new, ok, done⟩
        · right
          rw [enters, done]
          refine ⟨refused_error db _, ?_⟩
          intro _ _ g
          cases refused.symm.trans (Prisma.orderUpdate_eq g.found g.made g.payment)
        · left
          obtain ⟨row, there, made, free, after⟩ := Prisma.orderUpdate_ok ok
          cases found.symm.trans there
          have party : order.buyerId = userId ∨ order.sellerId = userId := by
            by_contra h
            exact stranger (not_or.mp h)
          exact ⟨order, new, db', ⟨found, party, valid, made, free⟩, enters.trans done, after⟩

/-- What a closing writes of its order and of the product. -/
structure Closes (closing : OrdersService.Closing) (now : Date) (write : Order → Order)
    (sell : Product → Product) : Prop where
  order : ∀ order, (OrdersRepository.statusData closing.status now).apply order = some (write order)
  product : ∀ product, closing.sale.apply product = some (sell product)
  category : closing.sale.category = .undefined

theorem cancelling_closes (now : Date) : Closes OrdersService.cancelling now
    (fun order => { order with status := .cancelled, cancelledAt := some now })
    (fun product => { product with status := .active }) :=
  ⟨fun _ => rfl, fun _ => rfl, rfl⟩

theorem confirming_closes (now soldAt : Date) : Closes (OrdersService.confirming soldAt) now
    (fun order => { order with status := .confirmed, confirmedAt := some now })
    (fun product => { product with status := .sold, soldAt := some soldAt }) :=
  ⟨fun _ => rfl, fun _ => rfl, rfl⟩

/-- The two writes of a closing, one after the other. -/
theorem Closes.writes {closing : OrdersService.Closing} {now : Date} {write : Order → Order}
    {sell : Product → Product} (c : Closes closing now write sell) {id : Id} {order : Order}
    {product : Product} (found : db.orders.find? id = some order)
    (item : db.products.find? order.productId = some product) :
    ∃ mid db' : Db,
      (OrdersRepository.updateStatus id closing.status now).alone exec db =
        (mid, .ok (write order)) ∧
      mid.toTables = db.toTables.withOrders (db.orders.set id (write order)) ∧
      (ProductsRepository.update order.productId closing.sale).alone exec mid =
        (db', .ok (sell product)) ∧
      db'.toTables = (db.toTables.withOrders (db.orders.set id (write order))).withProducts
        (db.products.set order.productId (sell product)) := by
  obtain ⟨mid, closed, between⟩ := updateStatus_alone found (c.order order)
  have still : mid.products.find? order.productId = some product := by
    rw [between]; exact item
  have known : Prisma.categoryMissing mid.toTables closing.sale.category = false := by
    rw [c.category]; rfl
  obtain ⟨db', sold, after⟩ := productUpdate_alone still (c.product product) known
  exact ⟨mid, db', closed, between, sold, by rw [after, between, Tables.products_withOrders]⟩

theorem close_outcome {closing : OrdersService.Closing} {now : Date} {write : Order → Order}
    {sell : Product → Product} (c : Closes closing now write sell) (id userId : Id) :
    (∃ order product db', CloseGranted db closing id userId order product ∧
      (OrdersService.close closing id userId now).alone exec db = (db', .ok (write order)) ∧
      db'.toTables = (db.toTables.withOrders (db.orders.set id (write order))).withProducts
        (db.products.set order.productId (sell product))) ∨
    (Refused db ((OrdersService.close closing id userId now).alone exec db) ∧
      ∀ order product, ¬ CloseGranted db closing id userId order product) := by
  cases found : db.orders.find? id with
  | none =>
    right
    exact ⟨by simp [OrdersService.close, Request.alone_bind, found],
      fun _ _ g => by cases found.symm.trans g.found⟩
  | some order =>
    by_cases buyer : order.buyerId = userId
    · by_cases opened : order.status ∈ closing.opens
      · left
        obtain ⟨product, item⟩ := Table.has_iff.mp (db.linked.order id order found).2.2
        obtain ⟨mid, db', closed, _, sold, after⟩ := c.writes db found item
        refine ⟨order, product, db', ⟨found, buyer, opened, item⟩, ?_, after⟩
        simp [OrdersService.close, Request.alone_bind, found, buyer, opened, closed, sold]
      · right
        refine ⟨by simp [OrdersService.close, Request.alone_bind, found, buyer, opened], ?_⟩
        intro _ _ g
        cases found.symm.trans g.found
        exact opened g.opened
    · right
      refine ⟨by simp [OrdersService.close, Request.alone_bind, found, buyer], ?_⟩
      intro _ _ g
      cases found.symm.trans g.found
      exact buyer g.buyer

theorem remove_outcome (id : Id) :
    (∃ order db', db.orders.find? id = some order ∧
      (OrdersService.remove id).alone exec db = (db', .ok order) ∧
      db'.toTables = Prisma.withoutOrder db.toTables id) ∨
    (Refused db ((OrdersService.remove id).alone exec db) ∧ db.orders.find? id = none) := by
  cases found : db.orders.find? id with
  | none =>
    right
    exact ⟨by simp [OrdersService.remove, Request.alone_bind, found], rfl⟩
  | some order =>
    left
    obtain ⟨db', deleted, after⟩ := orderDelete_alone found
    exact ⟨order, db', rfl, by simp [OrdersService.remove, Request.alone_bind, found, deleted],
      after⟩

/-- The product row of a granted creation. -/
theorem ListGranted.row {db : Db} {sellerId : Id} {dto : CreateProductDto} {id : Id} {now : Date}
    {product : Product} (g : ListGranted db sellerId dto id now product) :
    db.products.find? id = none ∧ product.sellerId = sellerId ∧ product.status = .active := by
  obtain ⟨t, made⟩ := g.made
  obtain ⟨price, row, fresh, _⟩ := Prisma.productCreate_ok made
  exact ⟨fresh, congrArg Product.sellerId row, congrArg Product.status row⟩

theorem list_outcome (sellerId : Id) (dto : CreateProductDto) (id : Id) (now : Date) :
    (∃ product db', ListGranted db sellerId dto id now product ∧
      (ProductsService.create sellerId dto id now).alone exec db = (db', .ok product) ∧
      db'.toTables = db.toTables.withProducts (db.products.insert id product)) ∨
    (Refused db ((ProductsService.create sellerId dto id now).alone exec db) ∧
      ∀ product, ¬ ListGranted db sellerId dto id now product) := by
  cases place : oneCoordinate dto.latitude dto.longitude with
  | true =>
    right
    refine ⟨by simp [ProductsService.create, place], ?_⟩
    intro _ g
    cases place.symm.trans g.place
  | false =>
    have enters : (ProductsService.create sellerId dto id now).alone exec db =
        (ProductsRepository.create id now (dto.toInput sellerId)).alone exec db := by
      simp [ProductsService.create, place]
    rcases productCreate_alone db id now (dto.toInput sellerId) with
      ⟨e, refused, done⟩ | ⟨mid, product, made, done⟩
    · right
      rw [enters, done]
      refine ⟨refused_error db _, ?_⟩
      intro _ g
      obtain ⟨_, made⟩ := g.made
      cases refused.symm.trans made
    · left
      obtain ⟨_, _, _, _, _, after⟩ := Prisma.productCreate_ok made
      exact ⟨product, mid, ⟨place, _, made⟩, enters.trans done, after⟩

theorem edit_outcome (id userId : Id) (dto : UpdateProductDto) :
    (∃ product new db', EditGranted db id userId dto product new ∧
      (ProductsService.update id userId dto).alone exec db = (db', .ok new) ∧
      db'.toTables = db.toTables.withProducts (db.products.set id new)) ∨
    (Refused db ((ProductsService.update id userId dto).alone exec db) ∧
      ∀ product new, ¬ EditGranted db id userId dto product new) := by
  cases found : db.products.find? id with
  | none =>
    right
    exact ⟨by simp [ProductsService.update, Request.alone_bind, found],
      fun _ _ g => by cases found.symm.trans g.found⟩
  | some product =>
    by_cases seller : product.sellerId = userId
    · by_cases deleted : product.status = .deleted
      · right
        refine ⟨by simp [ProductsService.update, Request.alone_bind, found, seller, deleted], ?_⟩
        intro _ _ g
        cases found.symm.trans g.found
        exact g.listed deleted
      · cases place : oneCoordinate dto.latitude dto.longitude with
        | true =>
          right
          refine ⟨by simp [ProductsService.update, Request.alone_bind, found, seller, deleted,
            place], ?_⟩
          intro _ _ g
          cases place.symm.trans g.place
        | false =>
          have enters : (ProductsService.update id userId dto).alone exec db =
              (ProductsRepository.update id (ProductsService.changes dto)).alone exec db := by
            simp [ProductsService.update, Request.alone_bind, found, seller, deleted, place]
          rcases productUpdate_split db id (ProductsService.changes dto) with
            ⟨e, refused, done⟩ | ⟨db', new, ok, done⟩
          · right
            rw [enters, done]
            refine ⟨refused_error db _, ?_⟩
            intro _ _ g
            cases refused.symm.trans (Prisma.productUpdate_eq g.found g.made g.category)
          · left
            obtain ⟨row, there, made, known, after⟩ := Prisma.productUpdate_ok ok
            cases found.symm.trans there
            exact ⟨product, new, db', ⟨found, seller, deleted, place, made, known⟩,
              enters.trans done, after⟩
    · right
      refine ⟨by simp [ProductsService.update, Request.alone_bind, found, seller], ?_⟩
      intro _ _ g
      cases found.symm.trans g.found
      exact seller g.seller

theorem delist_outcome (id userId : Id) :
    (∃ product db', DelistGranted db id userId product ∧
      (ProductsService.remove id userId).alone exec db =
        (db', .ok { product with status := .deleted }) ∧
      db'.toTables = db.toTables.withProducts
        (db.products.set id { product with status := .deleted })) ∨
    (Refused db ((ProductsService.remove id userId).alone exec db) ∧
      ∀ product, ¬ DelistGranted db id userId product) := by
  cases found : db.products.find? id with
  | none =>
    right
    exact ⟨by simp [ProductsService.remove, Request.alone_bind, found],
      fun _ g => by cases found.symm.trans g.found⟩
  | some product =>
    by_cases seller : product.sellerId = userId
    · by_cases deleted : product.status = .deleted
      · right
        refine ⟨by simp [ProductsService.remove, Request.alone_bind, found, seller, deleted], ?_⟩
        intro _ g
        cases found.symm.trans g.found
        exact g.listed deleted
      · left
        obtain ⟨db', done, after⟩ := productStatus_alone .deleted found
        have enters : (ProductsService.remove id userId).alone exec db =
            (ProductsRepository.softDelete id).alone exec db := by
          simp [ProductsService.remove, Request.alone_bind, found, seller, deleted]
        exact ⟨product, db', ⟨found, seller, deleted⟩, enters.trans done, after⟩
    · right
      refine ⟨by simp [ProductsService.remove, Request.alone_bind, found, seller], ?_⟩
      intro _ g
      cases found.symm.trans g.found
      exact seller g.seller

theorem hasOngoingOrders_alone (userId : Id) :
    (OrdersService.hasOngoingOrdersByUserId userId).alone exec db =
      (db, .ok (ongoing db.toTables userId)) := by
  have statuses : (OrdersRepository.findMany userId).alone exec db =
      (db, .ok ((db.orders.rows.filter
        (fun row => row.2.sellerId = userId || row.2.buyerId = userId)).map (·.2.status))) := rfl
  simp only [OrdersService.hasOngoingOrdersByUserId, Request.alone_bind, statuses]
  simp [ongoing, Table.any, List.any_map, List.any_filter, Function.comp_def]

theorem withdraw_outcome (id : Id) :
    (∃ user db', WithdrawGranted db id user ∧
      (UsersService.remove id).alone exec db = (db', .ok (Prisma.deactivated user)) ∧
      db'.toTables = Prisma.withdrawn db.toTables id user) ∨
    (Refused db ((UsersService.remove id).alone exec db) ∧
      ∀ user, ¬ WithdrawGranted db id user) := by
  cases found : db.users.find? id with
  | none =>
    right
    exact ⟨by simp [UsersService.remove, Request.alone_bind, found],
      fun _ g => by cases found.symm.trans g.found⟩
  | some user =>
    cases active : user.isActive with
    | false =>
      right
      refine ⟨by simp [UsersService.remove, Request.alone_bind, found, active], ?_⟩
      intro _ g
      cases found.symm.trans g.found
      cases active.symm.trans g.active
    | true =>
      cases busy : ongoing db.toTables id with
      | true =>
        right
        refine ⟨by simp [UsersService.remove, Request.alone_bind, found, active,
          hasOngoingOrders_alone, busy], ?_⟩
        intro _ g
        cases busy.symm.trans g.free
      | false =>
        left
        obtain ⟨db', done, after⟩ := softDelete_alone found
        exact ⟨user, db', ⟨found, active, busy⟩, by
          simp [UsersService.remove, Request.alone_bind, found, active, hasOngoingOrders_alone,
            busy, done], after⟩

end

/-- Everything an operation can do to the tables, with what it checked before. -/
inductive Effect (db : Db) : Op → Tables → Prop where
  | unchanged (op : Op) : Effect db op db.toTables
  | ordered {buyerId dto new product order} (g : CreateGranted db buyerId dto new product order) :
      Effect db (.ordersCreate buyerId dto new)
        ((db.toTables.withOrders (db.orders.insert new.id order)).withProducts
          (db.products.set dto.productId { product with status := .reserved }))
  | patched {id userId dto order new} (g : UpdateGranted db id userId dto order new) :
      Effect db (.ordersUpdate id userId dto) (db.toTables.withOrders (db.orders.set id new))
  | cancelled {id userId order product} (now) (g : CancelGranted db id userId order product) :
      Effect db (.ordersCancel id userId now)
        ((db.toTables.withOrders (db.orders.set id
          { order with status := .cancelled, cancelledAt := some now })).withProducts
            (db.products.set order.productId { product with status := .active }))
  | confirmed {id userId order product} (now soldAt)
      (g : ConfirmGranted db soldAt id userId order product) :
      Effect db (.ordersConfirm id userId now soldAt)
        ((db.toTables.withOrders (db.orders.set id
          { order with status := .confirmed, confirmedAt := some now })).withProducts
            (db.products.set order.productId
              { product with status := .sold, soldAt := some soldAt }))
  | erased {id order} (found : db.orders.find? id = some order) :
      Effect db (.ordersRemove id) (Prisma.withoutOrder db.toTables id)
  | listed {sellerId dto id now product} (g : ListGranted db sellerId dto id now product) :
      Effect db (.productsCreate sellerId dto id now)
        (db.toTables.withProducts (db.products.insert id product))
  | viewed {id product} (found : db.products.find? id = some product) :
      Effect db (.productsFindById id) (db.toTables.withProducts
        (db.products.set id { product with viewCount := product.viewCount + 1 }))
  | edited {id userId dto product new} (g : EditGranted db id userId dto product new) :
      Effect db (.productsUpdate id userId dto)
        (db.toTables.withProducts (db.products.set id new))
  | delisted {id userId product} (g : DelistGranted db id userId product) :
      Effect db (.productsRemove id userId) (db.toTables.withProducts
        (db.products.set id { product with status := .deleted }))
  | registered {dto id now hashed user} (fresh : db.users.find? id = none)
      (active : user.isActive = true) :
      Effect db (.usersCreate dto id now hashed) (db.toTables.withUsers (db.users.insert id user))
  | signedIn {dto compare now id old new} (found : db.users.find? id = some old)
      (same : new.isActive = old.isActive) :
      Effect db (.usersLogin dto compare now) (db.toTables.withUsers (db.users.set id new))
  | profiled {id dto old new} (found : db.users.find? id = some old)
      (same : new.isActive = old.isActive) :
      Effect db (.usersUpdate id dto) (db.toTables.withUsers (db.users.set id new))
  | withdrawn {id user} (g : WithdrawGranted db id user) :
      Effect db (.usersRemove id) (Prisma.withdrawn db.toTables id user)

section
variable (db : Db)

theorem UserUpdateInput.apply_isActive {data : UserUpdateInput} {row new : User}
    (h : data.apply row = some new) : new.isActive = row.isActive := by
  simp only [UserUpdateInput.apply, Option.bind_eq_bind, Option.bind_eq_some_iff] at h
  obtain ⟨nickname, _, made⟩ := h
  cases made
  rfl

theorem userUpdate_keeps (id : Id) (data : UserUpdateInput) :
    ((UsersRepository.update id data).alone exec db).1 = db ∨
      ∃ old new, db.users.find? id = some old ∧ new.isActive = old.isActive ∧
        ((UsersRepository.update id data).alone exec db).1.toTables =
          db.toTables.withUsers (db.users.set id new) := by
  rcases userUpdate_alone db id data with ⟨e, _, done⟩ | ⟨mid, new, ok, done⟩
  · exact Or.inl (by rw [done])
  · obtain ⟨row, found, made, after⟩ := Prisma.userUpdate_ok ok
    exact Or.inr ⟨row, new, found, UserUpdateInput.apply_isActive made, by rw [done, after]⟩

theorem refuseTaken_alone (find : String → Req (Option (Id × User))) (message : String)
    (wanted : Field String) (reads : ∀ v, ((find v).alone exec db).1 = db) :
    ((UsersService.refuseTaken find message wanted).alone exec db).1 = db := by
  unfold UsersService.refuseTaken
  split
  · rename_i v _
    refine Request.alone_after exec (P := fun t => t = db) (reads v) rfl ?_
    intro existing
    split <;> rfl
  · rfl

/- The store that an operation leaves is that of its service method. -/
theorem sequential_map {A : Type} {op : Op} {f : A → Response} {p : Req A}
    (h : op.program = f <$> p) : service.sequential db op = (p.alone exec db).1 := by
  have stores : service.sequential db op = (op.program.alone exec db).1 := rfl
  rw [stores, h, Request.alone_map]

theorem usersCreate_effect (dto : CreateUserDto) (id : Id) (now : Date) (hashed : String) :
    Effect db (.usersCreate dto id now hashed)
      ((UsersService.create dto id now hashed).alone exec db).1.toTables := by
  let P : Db → Prop := fun t => Effect db (.usersCreate dto id now hashed) t.toTables
  have stays : P db := .unchanged _
  refine Request.alone_after exec (P := P) (by rfl) stays (fun existingEmail => ?_)
  have taken (e : ApiError) : P ((Request.fail e : Req UserInfo).alone exec db).1 := stays
  split
  · exact taken _
  refine Request.alone_after exec (P := P) (by rfl) stays (fun existingNickname => ?_)
  split
  · exact taken _
  refine Request.alone_after exec (P := P) (refuseTaken_alone db _ _ _ (fun _ => rfl)) stays
    (fun _ => ?_)
  rw [Request.alone_bind]
  rcases userCreate_alone db id now _ with ⟨e, _, done⟩ | ⟨mid, user, ok, done⟩
  · rw [done]
    exact stays
  · obtain ⟨fresh, made, after⟩ := Prisma.userCreate_ok ok
    rw [done]
    show Effect db _ mid.toTables
    rw [after]
    exact .registered fresh (by rw [made]; rfl)

theorem usersLogin_effect (dto : LoginUserDto) (compare : String → String → Bool) (now : Date) :
    Effect db (.usersLogin dto compare now)
      ((UsersService.login dto compare now).alone exec db).1.toTables := by
  let P : Db → Prop := fun t => Effect db (.usersLogin dto compare now) t.toTables
  have stays : P db := .unchanged _
  refine Request.alone_after exec (P := P) (by rfl) stays (fun found => ?_)
  split
  · rename_i id user
    by_cases active : (!user.isActive) = true
    · rw [if_pos active]
      exact stays
    · rw [if_neg active]
      by_cases valid : (!compare dto.password user.password) = true
      · rw [if_pos valid]
        exact stays
      · rw [if_neg valid]
        refine (congrArg P (congrArg Prod.fst (Request.alone_map exec _ _ db))).mpr ?_
        rcases userUpdate_keeps db id { lastLoginAt := .value now } with same |
          ⟨old, new, there, same, after⟩
        · exact (congrArg P same).mpr stays
        · exact (congrArg (Effect db _) after).mpr (.signedIn there same)
  · exact stays

theorem usersUpdate_effect (id : Id) (dto : UpdateUserDto) :
    Effect db (.usersUpdate id dto) ((UsersService.update id dto).alone exec db).1.toTables := by
  let P : Db → Prop := fun t => Effect db (.usersUpdate id dto) t.toTables
  have stays : P db := .unchanged _
  have write (data : UserUpdateInput) : P (((fun updated : User => updated.toUserInfo) <$>
      UsersRepository.update id data).alone exec db).1 := by
    rw [Request.alone_map]
    rcases userUpdate_keeps db id data with same | ⟨old, new, there, same, after⟩
    · exact (congrArg P same).mpr stays
    · exact (congrArg (Effect db _) after).mpr (.profiled there same)
  have nickname := refuseTaken_alone db UsersRepository.findByNickname "이미 사용 중인 닉네임입니다"
    dto.nickname (fun _ => rfl)
  have phone := refuseTaken_alone db UsersRepository.findByPhoneNumber
    "이미 사용 중인 전화번호입니다" dto.phoneNumber (fun _ => rfl)
  refine Request.alone_after exec (P := P) (by rfl) stays (fun found => ?_)
  split
  · rename_i user
    by_cases renamed : dto.nickname ≠ .value user.nickname
    · rw [if_pos renamed]
      refine Request.alone_after exec (P := P) nickname stays (fun _ => ?_)
      split
      · exact Request.alone_after exec (P := P) phone stays (fun _ => write _)
      · exact write _
    · rw [if_neg renamed]
      split
      · exact Request.alone_after exec (P := P) phone stays (fun _ => write _)
      · exact write _
  · exact stays

theorem productsFindById_effect (id : Id) :
    Effect db (.productsFindById id) ((ProductsService.findById id).alone exec db).1.toTables := by
  cases found : db.products.find? id with
  | none =>
    have missing : ((ProductsService.findById id).alone exec db).1 = db := by
      simp [ProductsService.findById, Request.alone_bind, found]
    rw [missing]
    exact .unchanged _
  | some product =>
    rcases incrementViewCount_alone db id with ⟨e, _, done⟩ | ⟨mid, new, ok, done⟩
    · have uncounted : ((ProductsService.findById id).alone exec db).1 = db := by
        simp [ProductsService.findById, Request.alone_bind, Request.alone_tryCatch, found, done]
      rw [uncounted]
      exact .unchanged _
    · have counted : ((ProductsService.findById id).alone exec db).1 = mid := by
        simp [ProductsService.findById, Request.alone_bind, Request.alone_tryCatch, found, done]
      obtain ⟨row, there, rfl, after⟩ := Prisma.productIncrementViewCount_ok ok
      rw [counted, after]
      exact .viewed there

/-- The effect of an operation that is granted, and of one that is not. -/
theorem effect_granted {A : Type} {op : Op} {out : Db × Except ApiError A} {db' : Db} {t : Tables}
    {a : A} (done : out = (db', .ok a)) (after : db'.toTables = t) (e : Effect db op t) :
    Effect db op out.1.toTables := by
  rw [done, after]
  exact e

theorem effect_kept {op : Op} {db' : Db} (same : db' = db) : Effect db op db'.toTables := by
  rw [same]
  exact .unchanged _

theorem ordersFindOne_reads (id userId : Id) :
    ((OrdersService.findOne id userId).alone exec db).1 = db := by
  cases found : db.orders.find? id with
  | none => simp [OrdersService.findOne, OrdersService.findById, Request.alone_bind, found]
  | some order =>
    simp only [OrdersService.findOne, OrdersService.findById, Request.alone_bind,
      orderFindById_alone, found]
    by_cases stranger : order.buyerId ≠ userId ∧ order.sellerId ≠ userId <;> simp [stranger]

theorem usersFindOne_reads (id : Id) : ((UsersService.findOne id).alone exec db).1 = db := by
  cases found : db.users.find? id <;> simp [UsersService.findOne, Request.alone_bind, found]

theorem refreshAccessToken_reads (userId : Id) (now : Date) :
    ((UsersService.refreshAccessToken userId now).alone exec db).1 = db := by
  cases found : db.users.find? userId with
  | none => simp [UsersService.refreshAccessToken, Request.alone_bind, found]
  | some user =>
    cases active : user.isActive <;>
      simp [UsersService.refreshAccessToken, Request.alone_bind, found, active]

/-- The inversion of a step: whatever the operation, these are its effects. -/
theorem effect (op : Op) : Effect db op (service.sequential db op).toTables := by
  cases op with
  | ordersCreate buyerId dto new =>
    rw [sequential_map db (p := OrdersService.create buyerId dto new) rfl]
    rcases create_outcome db buyerId dto new with ⟨product, order, db', g, done, after⟩ | ⟨h, _⟩
    · exact effect_granted db done after (.ordered g)
    · exact effect_kept db h.1
  | ordersFindOne id userId =>
    rw [sequential_map db (p := OrdersService.findOne id userId) rfl]
    exact effect_kept db (ordersFindOne_reads db id userId)
  | ordersUpdate id userId dto =>
    rw [sequential_map db (p := OrdersService.update id userId dto) rfl]
    rcases update_outcome db id userId dto with ⟨order, new, db', g, done, after⟩ | ⟨h, _⟩
    · exact effect_granted db done after (.patched g)
    · exact effect_kept db h.1
  | ordersCancel id userId now =>
    rw [sequential_map db (p := OrdersService.close OrdersService.cancelling id userId now) rfl]
    rcases close_outcome db (cancelling_closes now) id userId with
      ⟨order, product, db', g, done, after⟩ | ⟨h, _⟩
    · exact effect_granted db done after (.cancelled now g)
    · exact effect_kept db h.1
  | ordersConfirm id userId now soldAt =>
    rw [sequential_map db
      (p := OrdersService.close (OrdersService.confirming soldAt) id userId now) rfl]
    rcases close_outcome db (confirming_closes now soldAt) id userId with
      ⟨order, product, db', g, done, after⟩ | ⟨h, _⟩
    · exact effect_granted db done after (.confirmed now soldAt g)
    · exact effect_kept db h.1
  | ordersRemove id =>
    rw [sequential_map db (p := OrdersService.remove id) rfl]
    rcases remove_outcome db id with ⟨order, db', found, done, after⟩ | ⟨h, _⟩
    · exact effect_granted db done after (.erased found)
    · exact effect_kept db h.1
  | productsCreate sellerId dto id now =>
    rw [sequential_map db (p := ProductsService.create sellerId dto id now) rfl]
    rcases list_outcome db sellerId dto id now with ⟨product, db', g, done, after⟩ | ⟨h, _⟩
    · exact effect_granted db done after (.listed g)
    · exact effect_kept db h.1
  | productsFindById id =>
    rw [sequential_map db (p := ProductsService.findById id) rfl]
    exact productsFindById_effect db id
  | productsUpdate id userId dto =>
    rw [sequential_map db (p := ProductsService.update id userId dto) rfl]
    rcases edit_outcome db id userId dto with ⟨product, new, db', g, done, after⟩ | ⟨h, _⟩
    · exact effect_granted db done after (.edited g)
    · exact effect_kept db h.1
  | productsRemove id userId =>
    rw [sequential_map db (p := ProductsService.remove id userId) rfl]
    rcases delist_outcome db id userId with ⟨product, db', g, done, after⟩ | ⟨h, _⟩
    · exact effect_granted db done after (.delisted g)
    · exact effect_kept db h.1
  | usersCreate dto id now hashed =>
    rw [sequential_map db (p := UsersService.create dto id now hashed) rfl]
    exact usersCreate_effect db dto id now hashed
  | usersLogin dto compare now =>
    rw [sequential_map db (p := UsersService.login dto compare now) rfl]
    exact usersLogin_effect db dto compare now
  | usersFindOne id =>
    rw [sequential_map db (p := UsersService.findOne id) rfl]
    exact effect_kept db (usersFindOne_reads db id)
  | usersUpdate id dto =>
    rw [sequential_map db (p := UsersService.update id dto) rfl]
    exact usersUpdate_effect db id dto
  | usersRemove id =>
    rw [sequential_map db (p := UsersService.remove id) rfl]
    rcases withdraw_outcome db id with ⟨user, db', g, done, after⟩ | ⟨h, _⟩
    · exact effect_granted db done after (.withdrawn g)
    · exact effect_kept db h.1
  | usersRefreshAccessToken userId now =>
    rw [sequential_map db (p := UsersService.refreshAccessToken userId now) rfl]
    exact effect_kept db (refreshAccessToken_reads db userId now)

end

section
variable {db : Db} {id userId : Id}

/-! The same read forwards: what is granted is done. -/

theorem patched_of_granted {dto : UpdateOrderDto} {order new : Order}
    (g : UpdateGranted db id userId dto order new) :
    (service.sequential db (.ordersUpdate id userId dto)).toTables =
      db.toTables.withOrders (db.orders.set id new) := by
  rw [sequential_map db (p := OrdersService.update id userId dto) rfl]
  rcases update_outcome db id userId dto with ⟨order', new', db', g', done, after⟩ | ⟨_, refused⟩
  · cases g.found.symm.trans g'.found
    cases g.made.symm.trans g'.made
    rw [done, after]
  · exact absurd g (refused order new)

theorem erased_of_found {order : Order} (found : db.orders.find? id = some order) :
    (service.sequential db (.ordersRemove id)).toTables = Prisma.withoutOrder db.toTables id := by
  rw [sequential_map db (p := OrdersService.remove id) rfl]
  rcases remove_outcome db id with ⟨order', db', _, done, after⟩ | ⟨_, missing⟩
  · rw [done, after]
  · cases missing.symm.trans found

theorem ordered_of_granted {buyerId : Id} {dto : CreateOrderDto} {new : NewOrder}
    {product : Product} {order : Order} (g : CreateGranted db buyerId dto new product order) :
    (service.sequential db (.ordersCreate buyerId dto new)).toTables =
      (db.toTables.withOrders (db.orders.insert new.id order)).withProducts
        (db.products.set dto.productId { product with status := .reserved }) := by
  rw [sequential_map db (p := OrdersService.create buyerId dto new) rfl]
  rcases create_outcome db buyerId dto new with
    ⟨product', order', db', g', done, after⟩ | ⟨_, refused⟩
  · obtain ⟨_, _, drawn, made⟩ := g.made
    obtain ⟨_, _, drawn', made'⟩ := g'.made
    cases g.found.symm.trans g'.found
    cases drawn.symm.trans drawn'
    cases made.symm.trans made'
    rw [done, after]
  · exact absurd g (refused product order)

theorem listed_of_granted {sellerId : Id} {dto : CreateProductDto} {now : Date} {product : Product}
    (g : ListGranted db sellerId dto id now product) :
    (service.sequential db (.productsCreate sellerId dto id now)).toTables =
      db.toTables.withProducts (db.products.insert id product) := by
  rw [sequential_map db (p := ProductsService.create sellerId dto id now) rfl]
  rcases list_outcome db sellerId dto id now with ⟨product', db', g', done, after⟩ | ⟨_, refused⟩
  · obtain ⟨_, made⟩ := g.made
    obtain ⟨_, made'⟩ := g'.made
    cases made.symm.trans made'
    rw [done, after]
  · exact absurd g (refused product)

theorem edited_of_granted {dto : UpdateProductDto} {product new : Product}
    (g : EditGranted db id userId dto product new) :
    (service.sequential db (.productsUpdate id userId dto)).toTables =
      db.toTables.withProducts (db.products.set id new) := by
  rw [sequential_map db (p := ProductsService.update id userId dto) rfl]
  rcases edit_outcome db id userId dto with ⟨product', new', db', g', done, after⟩ | ⟨_, refused⟩
  · cases g.found.symm.trans g'.found
    cases g.made.symm.trans g'.made
    rw [done, after]
  · exact absurd g (refused product new)

theorem delisted_of_granted {product : Product} (g : DelistGranted db id userId product) :
    (service.sequential db (.productsRemove id userId)).toTables =
      db.toTables.withProducts (db.products.set id { product with status := .deleted }) := by
  rw [sequential_map db (p := ProductsService.remove id userId) rfl]
  rcases delist_outcome db id userId with ⟨product', db', g', done, after⟩ | ⟨_, refused⟩
  · cases g.found.symm.trans g'.found
    rw [done, after]
  · exact absurd g (refused product)

theorem withdrawn_of_granted {user : User} (g : WithdrawGranted db id user) :
    (service.sequential db (.usersRemove id)).toTables =
      Prisma.withdrawn db.toTables id user := by
  rw [sequential_map db (p := UsersService.remove id) rfl]
  rcases withdraw_outcome db id with ⟨user', db', g', done, after⟩ | ⟨_, refused⟩
  · cases g.found.symm.trans g'.found
    rw [done, after]
  · exact absurd g (refused user)

end

end SecondhandApi
