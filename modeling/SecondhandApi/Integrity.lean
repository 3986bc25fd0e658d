import SecondhandApi.Prisma

/-! What an accepted write did, and the foreign keys that every write keeps. A database
is a set of tables whose references all point to rows, so a dangling reference cannot be
built and no later proof has to rule one out. -/
namespace SecondhandApi
open Keyed

theorem OrderUpdateInput.apply_keeps {data : OrderUpdateInput} {row new : Order}
    (h : data.apply row = some new) :
    new.buyerId = row.buyerId ∧ new.sellerId = row.sellerId ∧ new.productId = row.productId := by
  simp only [OrderUpdateInput.apply, Option.bind_eq_bind, Option.bind_eq_some_iff] at h
  obtain ⟨status, _, made⟩ := h
  cases made
  exact ⟨rfl, rfl, rfl⟩

theorem OrderUpdateInput.apply_status {data : OrderUpdateInput} {row new : Order}
    (h : data.apply row = some new) : data.status.required row.status = some new.status := by
  simp only [OrderUpdateInput.apply, Option.bind_eq_bind, Option.bind_eq_some_iff] at h
  obtain ⟨status, written, made⟩ := h
  cases made
  exact written

theorem OrderUpdateInput.apply_dates {data : OrderUpdateInput} {row new : Order}
    (h : data.apply row = some new) :
    new.paidAt = data.paidAt.nullable row.paidAt ∧
      new.confirmedAt = data.confirmedAt.nullable row.confirmedAt ∧
      new.completedAt = data.completedAt.nullable row.completedAt ∧
      new.cancelledAt = data.cancelledAt.nullable row.cancelledAt := by
  simp only [OrderUpdateInput.apply, Option.bind_eq_bind, Option.bind_eq_some_iff] at h
  obtain ⟨status, _, made⟩ := h
  cases made
  exact ⟨rfl, rfl, rfl, rfl⟩

theorem ProductUpdateInput.apply_cases {data : ProductUpdateInput} {row new : Product}
    (h : data.apply row = some new) :
    new.sellerId = row.sellerId ∧ data.category.required row.categoryId = some new.categoryId ∧
      data.status.required row.status = some new.status := by
  simp only [ProductUpdateInput.apply, Option.bind_eq_bind, Option.bind_eq_some_iff] at h
  obtain ⟨_, _, _, _, _, _, _, _, status, hs, _, _, category, hc, made⟩ := h
  cases made
  exact ⟨rfl, hc, hs⟩

namespace Prisma

variable {db db' : Tables} {id : Id} {now : Date}

theorem userCreate_ok {data : UserCreateInput} {row : User}
    (h : userCreate db id now data = .ok (db', row)) :
    db.users.find? id = none ∧ row = data.row now ∧
      db' = db.withUsers (db.users.insert id row) := by
  unfold userCreate at h
  split at h
  · cases h
  · rename_i free
    cases h
    simp only [Bool.or_eq_true, not_or] at free
    exact ⟨Table.not_has_iff.mp free.1.1.1, rfl, rfl⟩

theorem userUpdate_ok {data : UserUpdateInput} {new : User}
    (h : userUpdate db id data = .ok (db', new)) :
    ∃ row, db.users.find? id = some row ∧ data.apply row = some new ∧
      db' = db.withUsers (db.users.set id new) := by
  unfold userUpdate at h
  split at h
  · cases h
  · rename_i row found
    split at h
    · cases h
    · rename_i made
      split at h
      · cases h
      · cases h
        exact ⟨row, found, made, rfl⟩

theorem productCreate_ok {data : ProductCreateInput} {row : Product}
    (h : productCreate db id now data = .ok (db', row)) :
    ∃ price, row = data.row price now ∧ db.products.find? id = none ∧
      db.users.has data.seller = true ∧ db.categories.has data.category = true ∧
      db' = db.withProducts (db.products.insert id row) := by
  unfold productCreate at h
  split at h
  · cases h
  · rename_i price _
    split at h
    · cases h
    · rename_i linked
      split at h
      · cases h
      · rename_i free
        cases h
        simp only [Bool.or_eq_true, Bool.not_eq_true', not_or, Bool.not_eq_false] at linked
        exact ⟨price, rfl, Table.not_has_iff.mp free, linked.1, linked.2, rfl⟩

theorem productUpdate_ok {data : ProductUpdateInput} {new : Product}
    (h : productUpdate db id data = .ok (db', new)) :
    ∃ row, db.products.find? id = some row ∧ data.apply row = some new ∧
      categoryMissing db data.category = false ∧
      db' = db.withProducts (db.products.set id new) := by
  unfold productUpdate at h
  split at h
  · cases h
  · rename_i row found
    split at h
    · cases h
    · rename_i made
      split at h
      · cases h
      · rename_i known
        cases h
        exact ⟨row, found, made, Bool.eq_false_iff.mpr known, rfl⟩

theorem productIncrementViewCount_ok {new : Product}
    (h : productIncrementViewCount db id = .ok (db', new)) :
    ∃ row, db.products.find? id = some row ∧ new = { row with viewCount := row.viewCount + 1 } ∧
      db' = db.withProducts (db.products.set id new) := by
  unfold productIncrementViewCount at h
  split at h
  · cases h
  · rename_i row found
    cases h
    exact ⟨row, found, rfl, rfl⟩

theorem orderCreate_ok {data : OrderCreateInput} {row : Order}
    (h : orderCreate db id now data = .ok (db', row)) :
    ∃ fee, row = data.row fee now ∧ db.orders.find? id = none ∧
      db.users.has data.buyer = true ∧ db.users.has data.seller = true ∧
      db.products.has data.product = true ∧
      db' = db.withOrders (db.orders.insert id row) := by
  unfold orderCreate at h
  split at h
  · cases h
  · rename_i fee _
    split at h
    · cases h
    · split at h
      · cases h
      · rename_i linked
        split at h
        · cases h
        · rename_i free
          cases h
          simp only [Bool.or_eq_true, Bool.not_eq_true', not_or, Bool.not_eq_false] at linked
          simp only [Bool.or_eq_true, not_or] at free
          exact ⟨fee, rfl, Table.not_has_iff.mp free.1, linked.1.1, linked.1.2, linked.2, rfl⟩

theorem orderUpdate_ok {data : OrderUpdateInput} {new : Order}
    (h : orderUpdate db id data = .ok (db', new)) :
    ∃ row, db.orders.find? id = some row ∧ data.apply row = some new ∧
      paymentTaken db id data.paymentId = false ∧
      db' = db.withOrders (db.orders.set id new) := by
  unfold orderUpdate at h
  split at h
  · cases h
  · rename_i row found
    split at h
    · cases h
    · rename_i made
      split at h
      · cases h
      · rename_i free
        cases h
        exact ⟨row, found, made, Bool.eq_false_iff.mpr free, rfl⟩

/- The same read forwards: what is asked for is done. -/
theorem orderUpdate_eq {data : OrderUpdateInput} {row new : Order}
    (found : db.orders.find? id = some row) (made : data.apply row = some new)
    (free : paymentTaken db id data.paymentId = false) :
    orderUpdate db id data = .ok (db.withOrders (db.orders.set id new), new) := by
  simp [orderUpdate, found, made, free]

theorem productUpdate_eq {data : ProductUpdateInput} {row new : Product}
    (found : db.products.find? id = some row) (made : data.apply row = some new)
    (known : categoryMissing db data.category = false) :
    productUpdate db id data = .ok (db.withProducts (db.products.set id new), new) := by
  simp [productUpdate, found, made, known]

theorem orderDelete_ok {row : Order} (h : orderDelete db id = .ok (db', row)) :
    db.orders.find? id = some row ∧ db' = withoutOrder db id := by
  unfold orderDelete at h
  split at h
  · cases h
  · rename_i found
    cases h
    exact ⟨found, rfl⟩

theorem userSoftDelete_ok {new : User} (h : userSoftDelete db id = .ok (db', new)) :
    ∃ row, db.users.find? id = some row ∧ new = deactivated row ∧ db' = withdrawn db id row := by
  unfold userSoftDelete at h
  split at h
  · cases h
  · rename_i row found
    cases h
    exact ⟨row, found, rfl, rfl⟩

@[simp] theorem find?_withoutOrder (id o : Id) :
    (withoutOrder db id).orders.find? o = if o = id then none else db.orders.find? o :=
  Table.find?_erase db.orders id o

@[simp] theorem orders_withdrawn (id o : Id) (user : User) :
    (withdrawn db id user).orders.find? o = (db.orders.find? o).map (cancelUnpaid id) :=
  Table.find?_modifyAll ..

@[simp] theorem products_withdrawn (id p : Id) (user : User) :
    (withdrawn db id user).products.find? p = (db.products.find? p).map (deleteListed id) :=
  Table.find?_modifyAll ..

@[simp] theorem users_withdrawn (id : Id) (user : User) :
    (withdrawn db id user).users = db.users.set id (deactivated user) := rfl

theorem cancelUnpaid_keeps (id : Id) (order : Order) :
    (cancelUnpaid id order).buyerId = order.buyerId ∧
      (cancelUnpaid id order).sellerId = order.sellerId ∧
      (cancelUnpaid id order).productId = order.productId := by
  unfold cancelUnpaid
  split <;> exact ⟨rfl, rfl, rfl⟩

/-- An order that the sweep does not mean. -/
theorem cancelUnpaid_idle {id : Id} {order : Order}
    (h : order.sellerId = id ∨ order.buyerId = id →
      order.status ≠ .pending ∧ order.status ≠ .paymentPending) : cancelUnpaid id order = order := by
  unfold cancelUnpaid
  split
  · rename_i both
    rcases both.2 with pending | pending
    · exact absurd pending (h both.1).1
    · exact absurd pending (h both.1).2
  · rfl

theorem deleteListed_keeps (id : Id) (product : Product) :
    (deleteListed id product).sellerId = product.sellerId ∧
      (deleteListed id product).categoryId = product.categoryId := by
  unfold deleteListed
  split <;> exact ⟨rfl, rfl⟩

end Prisma

/-- The foreign keys of the schema. -/
structure Linked (t : Tables) : Prop where
  parent : ∀ c row, t.categories.find? c = some row →
    ∀ q, row.parentId = some q → t.categories.has q = true
  product : ∀ p row, t.products.find? p = some row →
    t.users.has row.sellerId = true ∧ t.categories.has row.categoryId = true
  order : ∀ o row, t.orders.find? o = some row →
    t.users.has row.buyerId = true ∧ t.users.has row.sellerId = true ∧
      t.products.has row.productId = true
  review : ∀ r row, t.reviews.find? r = some row →
    t.orders.has row.orderId = true ∧ t.users.has row.reviewerId = true ∧
      t.users.has row.reviewedId = true

/- The same check on the rows, for tables that are written out. -/
def Tables.foreignKeys (t : Tables) : Bool :=
  t.categories.all (fun _ c => c.parentId.all t.categories.has) &&
  t.products.all (fun _ p => t.users.has p.sellerId && t.categories.has p.categoryId) &&
  t.orders.all (fun _ o => t.users.has o.buyerId && t.users.has o.sellerId &&
    t.products.has o.productId) &&
  t.reviews.all (fun _ r => t.orders.has r.orderId && t.users.has r.reviewerId &&
    t.users.has r.reviewedId)

theorem foreignKeys_iff (t : Tables) : t.foreignKeys = true ↔ Linked t := by
  simp only [Tables.foreignKeys, Bool.and_eq_true, Table.all_iff, Option.all_eq_true, and_assoc]
  constructor
  · rintro ⟨parent, product, order, review⟩
    exact ⟨parent, product, order, review⟩
  · intro h
    exact ⟨h.parent, h.product, h.order, h.review⟩

instance (t : Tables) : Decidable (Linked t) := decidable_of_iff _ (foreignKeys_iff t)

namespace Linked

variable {t t' : Tables} {id : Id} {now : Date}

/-- References stay good when every key stays in use and every row that changed points
to rows. -/
theorem of_keys (h : Linked t) (categories : t'.categories = t.categories)
    (users : ∀ u, t.users.has u = true → t'.users.has u = true)
    (products : ∀ p, t.products.has p = true → t'.products.has p = true)
    (orders : ∀ o, t.orders.has o = true → t'.orders.has o = true)
    (reviews : t'.reviews = t.reviews)
    (product : ∀ p row, t'.products.find? p = some row →
      t.users.has row.sellerId = true ∧ t.categories.has row.categoryId = true)
    (order : ∀ o row, t'.orders.find? o = some row →
      t.users.has row.buyerId = true ∧ t.users.has row.sellerId = true ∧
        t.products.has row.productId = true) : Linked t' where
  parent := by rw [categories]; exact h.parent
  product p row found := by
    rw [categories]
    exact ⟨users _ (product p row found).1, (product p row found).2⟩
  order o row found := by
    obtain ⟨buyer, seller, item⟩ := order o row found
    exact ⟨users _ buyer, users _ seller, products _ item⟩
  review r row found := by
    rw [reviews] at found
    obtain ⟨order, reviewer, reviewed⟩ := h.review r row found
    exact ⟨orders _ order, users _ reviewer, users _ reviewed⟩

theorem userCreate (h : Linked t) {data : UserCreateInput} {row : User}
    (ok : Prisma.userCreate t id now data = .ok (t', row)) : Linked t' := by
  obtain ⟨_, _, rfl⟩ := Prisma.userCreate_ok ok
  exact h.of_keys rfl (fun u hu => Table.has_insert hu _ _) (fun _ hp => hp) (fun _ ho => ho) rfl
    h.product h.order

theorem userUpdate (h : Linked t) {data : UserUpdateInput} {row : User}
    (ok : Prisma.userUpdate t id data = .ok (t', row)) : Linked t' := by
  obtain ⟨_, _, _, rfl⟩ := Prisma.userUpdate_ok ok
  exact h.of_keys rfl (fun u hu => (Table.has_set ..).trans hu) (fun _ hp => hp)
    (fun _ ho => ho) rfl h.product h.order

theorem productCreate (h : Linked t) {data : ProductCreateInput} {row : Product}
    (ok : Prisma.productCreate t id now data = .ok (t', row)) : Linked t' := by
  obtain ⟨_, made, _, seller, category, rfl⟩ := Prisma.productCreate_ok ok
  refine h.of_keys rfl (fun _ hu => hu) (fun p hp => Table.has_insert hp _ _) (fun _ ho => ho) rfl
    ?_ h.order
  intro p old found
  rcases Table.find?_insert_cases found with found | ⟨_, rfl⟩
  · exact h.product p old found
  · rw [made]; exact ⟨seller, category⟩

theorem productUpdate (h : Linked t) {data : ProductUpdateInput} {row : Product}
    (ok : Prisma.productUpdate t id data = .ok (t', row)) : Linked t' := by
  obtain ⟨old, found, made, known, rfl⟩ := Prisma.productUpdate_ok ok
  obtain ⟨seller, category, _⟩ := ProductUpdateInput.apply_cases made
  refine h.of_keys rfl (fun _ hu => hu) (fun p hp => (Table.has_set ..).trans hp)
    (fun _ ho => ho) rfl ?_ h.order
  intro p new at_p
  rcases Table.find?_set_cases at_p with found | ⟨_, rfl⟩
  · exact h.product p new found
  · rw [seller]
    refine ⟨(h.product id old found).1, ?_⟩
    rcases Field.required_eq_some category with ⟨same, _⟩ | written
    · rw [same]; exact (h.product id old found).2
    · rw [written] at known
      simpa [Prisma.categoryMissing] using known

theorem productIncrementViewCount (h : Linked t) {row : Product}
    (ok : Prisma.productIncrementViewCount t id = .ok (t', row)) : Linked t' := by
  obtain ⟨old, found, made, rfl⟩ := Prisma.productIncrementViewCount_ok ok
  refine h.of_keys rfl (fun _ hu => hu) (fun p hp => (Table.has_set ..).trans hp)
    (fun _ ho => ho) rfl ?_ h.order
  intro p new at_p
  rcases Table.find?_set_cases at_p with found | ⟨_, rfl⟩
  · exact h.product p new found
  · rw [made]; exact h.product id old found

theorem orderCreate (h : Linked t) {data : OrderCreateInput} {row : Order}
    (ok : Prisma.orderCreate t id now data = .ok (t', row)) : Linked t' := by
  obtain ⟨_, made, _, buyer, seller, item, rfl⟩ := Prisma.orderCreate_ok ok
  refine h.of_keys rfl (fun _ hu => hu) (fun _ hp => hp) (fun o ho => Table.has_insert ho _ _) rfl
    h.product ?_
  intro o old found
  rcases Table.find?_insert_cases found with found | ⟨_, rfl⟩
  · exact h.order o old found
  · rw [made]; exact ⟨buyer, seller, item⟩

theorem orderUpdate (h : Linked t) {data : OrderUpdateInput} {row : Order}
    (ok : Prisma.orderUpdate t id data = .ok (t', row)) : Linked t' := by
  obtain ⟨old, found, made, _, rfl⟩ := Prisma.orderUpdate_ok ok
  obtain ⟨buyer, seller, item⟩ := OrderUpdateInput.apply_keeps made
  refine h.of_keys rfl (fun _ hu => hu) (fun _ hp => hp)
    (fun o ho => (Table.has_set ..).trans ho) rfl h.product ?_
  intro o new at_o
  rcases Table.find?_set_cases at_o with found | ⟨_, rfl⟩
  · exact h.order o new found
  · rw [buyer, seller, item]; exact h.order id old found

/- The one write that removes a key: the reviews of the order go with it. -/
theorem orderDelete (h : Linked t) {row : Order}
    (ok : Prisma.orderDelete t id = .ok (t', row)) : Linked t' := by
  obtain ⟨_, rfl⟩ := Prisma.orderDelete_ok ok
  constructor
  · exact h.parent
  · exact h.product
  · intro o old found
    rw [Prisma.find?_withoutOrder] at found
    split at found
    · cases found
    · exact h.order o old found
  · intro r old found
    obtain ⟨found, other⟩ := Option.filter_eq_some_iff.mp
      ((Table.find?_eraseAll ..).symm.trans found)
    obtain ⟨order, reviewer, reviewed⟩ := h.review r old found
    exact ⟨Table.has_erase order (by simpa using other), reviewer, reviewed⟩

theorem userSoftDelete (h : Linked t) {row : User}
    (ok : Prisma.userSoftDelete t id = .ok (t', row)) : Linked t' := by
  obtain ⟨_, _, _, rfl⟩ := Prisma.userSoftDelete_ok ok
  refine h.of_keys rfl (fun u hu => (Table.has_set ..).trans hu)
    (fun p hp => (Table.has_modifyAll ..).trans hp)
    (fun o ho => (Table.has_modifyAll ..).trans ho) rfl ?_ ?_
  · intro p new there
    rw [Prisma.products_withdrawn] at there
    obtain ⟨old, found, rfl⟩ := Option.map_eq_some_iff.mp there
    obtain ⟨seller, category⟩ := Prisma.deleteListed_keeps id old
    rw [seller, category]
    exact h.product p old found
  · intro o new there
    rw [Prisma.orders_withdrawn] at there
    obtain ⟨old, found, rfl⟩ := Option.map_eq_some_iff.mp there
    obtain ⟨buyer, seller, item⟩ := Prisma.cancelUnpaid_keeps id old
    rw [buyer, seller, item]
    exact h.order o old found

end Linked

/-- What `commit` does, for a write known only by its outcome. -/
theorem commit_cases {A : Type} (t : Tables) (r : Except PrismaError (Tables × A)) :
    (∃ t' a, r = .ok (t', a) ∧ commit t r = (t', .ok a)) ∨
      (∃ e, r = .error e ∧ commit t r = (t, .error e)) := by
  cases r with
  | ok done => exact Or.inl ⟨done.1, done.2, rfl, rfl⟩
  | error e => exact Or.inr ⟨e, rfl, rfl⟩

theorem Linked.commit {A : Type} {t : Tables} (h : Linked t)
    {r : Except PrismaError (Tables × A)} (write : ∀ t' a, r = .ok (t', a) → Linked t') :
    Linked (SecondhandApi.commit t r).1 := by
  rcases commit_cases t r with ⟨t', a, made, done⟩ | ⟨e, _, done⟩
  · rw [done]; exact write t' a made
  · rw [done]; exact h

theorem Linked.exec {t : Tables} (h : Linked t) (c : Call) : Linked (t.exec c).1 := by
  cases c with
  | userCreate id now data => exact h.commit (fun _ _ => h.userCreate)
  | userUpdate id data => exact h.commit (fun _ _ => h.userUpdate)
  | userSoftDelete id => exact h.commit (fun _ _ => h.userSoftDelete)
  | productCreate id now data => exact h.commit (fun _ _ => h.productCreate)
  | productUpdate id data => exact h.commit (fun _ _ => h.productUpdate)
  | productIncrementViewCount id => exact h.commit (fun _ _ => h.productIncrementViewCount)
  | orderCreate id now data => exact h.commit (fun _ _ => h.orderCreate)
  | orderUpdate id data => exact h.commit (fun _ _ => h.orderUpdate)
  | orderDelete id => exact h.commit (fun _ _ => h.orderDelete)
  | _ => exact h

/-- The database: tables with good references. -/
structure Db extends Tables where
  linked : Linked toTables

theorem Db.ext_tables {db db' : Db} (h : db.toTables = db'.toTables) : db = db' := by
  cases db
  cases db'
  cases h
  rfl

/-- A write on the database is refused and leaves it, or leaves what Prisma computes. -/
theorem commit_write {A : Type} {db : Db} {w : Except PrismaError (Tables × A)}
    {out : Db × Except PrismaError A} (tables : out.1.toTables = (commit db.toTables w).1)
    (reply : out.2 = (commit db.toTables w).2) :
    (∃ e, w = .error e ∧ out = (db, .error e)) ∨
      ∃ mid a, w = .ok (Db.toTables mid, a) ∧ out = (mid, .ok a) := by
  rcases commit_cases db.toTables w with ⟨t, a, made, done⟩ | ⟨e, made, done⟩
  · rw [done] at tables reply
    exact Or.inr ⟨out.1, a, by rw [made, tables], Prod.ext rfl reply⟩
  · rw [done] at tables reply
    exact Or.inl ⟨e, made, Prod.ext (Db.ext_tables tables) reply⟩

/-- One Prisma call on the database. -/
def exec (c : Call) (db : Db) : Db × c.Reply :=
  (⟨(db.toTables.exec c).1, db.linked.exec c⟩, (db.toTables.exec c).2)

end SecondhandApi
