import SecondhandApi.Integrity
import SecondhandApi.Repositories

/-! What one repository request does when it runs alone: a read answers from the
tables, a write either is refused or leaves the tables that Prisma computes. -/
namespace SecondhandApi
open Keyed Interleaving

/-- An operation that failed and left the database as it was. -/
def Refused {A : Type} (db : Db) (out : Db × Except ApiError A) : Prop :=
  out.1 = db ∧ ∃ e, out.2 = .error e

@[simp] theorem refused_error {A : Type} (db : Db) (e : ApiError) :
    Refused db (db, (.error e : Except ApiError A)) := ⟨rfl, e, rfl⟩

theorem exec_write {c : Call} {w : Except PrismaError (Tables × c.Result)} (db : Db)
    (hw : db.toTables.exec c = commit db.toTables w) :
    (∃ e, w = .error e ∧ exec c db = (db, .error e)) ∨
      (∃ mid a, w = .ok (Db.toTables mid, a) ∧ exec c db = (mid, .ok a)) :=
  commit_write (congrArg Prod.fst hw) (congrArg Prod.snd hw)

section
variable (db : Db)

@[simp] theorem throwing_alone {A : Type} (check : Except ApiError A) :
    (throwing check).alone exec db = (db, check) := by
  cases check <;> rfl

@[simp] theorem orderFindById_alone (id : Id) :
    (OrdersRepository.findById id).alone exec db = (db, .ok (db.orders.find? id)) := rfl

@[simp] theorem productFindById_alone (id : Id) :
    (ProductsRepository.findById id).alone exec db = (db, .ok (db.products.find? id)) := rfl

@[simp] theorem userFindById_alone (id : Id) :
    (UsersRepository.findById id).alone exec db = (db, .ok (db.users.find? id)) := rfl

@[simp] theorem userFindByEmail_alone (email : String) :
    (UsersRepository.findByEmail email).alone exec db =
      (db, .ok (db.users.findBy (fun u => u.email = email))) := rfl

@[simp] theorem userFindByNickname_alone (nickname : String) :
    (UsersRepository.findByNickname nickname).alone exec db =
      (db, .ok (db.users.findBy (fun u => u.nickname = nickname))) := rfl

@[simp] theorem userFindByPhoneNumber_alone (phone : String) :
    (UsersRepository.findByPhoneNumber phone).alone exec db =
      (db, .ok (db.users.findBy (fun u => u.phoneNumber = some phone))) := rfl

@[simp] theorem findByOrderNumber_alone (number : String) :
    (OrdersRepository.findByOrderNumber number).alone exec db =
      (db, .ok (db.orders.findBy (fun o => o.orderNumber = number))) := rfl

theorem write_alone (c : Call) {w : Except PrismaError (Tables × c.Result)}
    (hw : db.toTables.exec c = commit db.toTables w) :
    (∃ e, w = .error e ∧ (await c).alone exec db = (db, .error (.database e))) ∨
      (∃ mid a, w = .ok (Db.toTables mid, a) ∧ (await c).alone exec db = (mid, .ok a)) := by
  rcases exec_write db hw with ⟨e, made, done⟩ | ⟨mid, a, made, done⟩
  · exact Or.inl ⟨e, made, by simp only [await, settle, Request.alone_call, done, Request.alone_fail]⟩
  · exact Or.inr ⟨mid, a, made, by
      simp only [await, settle, Request.alone_call, done, Request.alone_done]⟩

theorem accepted_alone (c : Call) {w : Except PrismaError (Tables × c.Result)}
    (hw : db.toTables.exec c = commit db.toTables w) {t : Tables} {a : c.Result}
    (accepted : w = .ok (t, a)) :
    ∃ mid : Db, (await c).alone exec db = (mid, .ok a) ∧ mid.toTables = t := by
  rcases write_alone db c hw with ⟨e, refused, _⟩ | ⟨mid, b, ok, done⟩
  · rw [accepted] at refused; cases refused
  · obtain ⟨same, rfl⟩ := Prod.mk.inj (Except.ok.inj (ok.symm.trans accepted))
    exact ⟨mid, done, same⟩

end

theorem exec_of_alone {db mid : Db} {c : Call} {a : c.Result}
    (h : (await c).alone exec db = (mid, .ok a)) : exec c db = (mid, .ok a) := by
  cases done : exec c db with
  | mk t reply =>
    rw [await, Request.alone_call, done] at h
    cases reply with
    | ok b => cases h; rfl
    | error e => cases h

def Call.reads : Call → Bool
  | .userFindById _ | .userFindByEmail _ | .userFindByNickname _ | .userFindByPhoneNumber _ |
    .productFindById _ | .orderFindById _ | .orderFindByOrderNumber _ | .orderFindMany _ => true
  | _ => false

theorem exec_reads {c : Call} (reads : c.reads = true) (db : Db) : (exec c db).1 = db := by
  cases c <;> first
    | rfl
    | cases reads

/-- Everything one call can do to the tables, with what it answers. -/
inductive CallEffect (db : Db) : (c : Call) → c.Reply → Tables → Prop where
  | read {c} (r) (reads : c.reads = true) : CallEffect db c r db.toTables
  | refused {c} (e) : CallEffect db c (.error e) db.toTables
  | userMade {id now data} (row : User) (fresh : db.users.find? id = none) :
      CallEffect db (.userCreate id now data) (.ok row)
        (db.toTables.withUsers (db.users.insert id row))
  | userSet {id data} (old new : User) (found : db.users.find? id = some old)
      (made : data.apply old = some new) :
      CallEffect db (.userUpdate id data) (.ok new) (db.toTables.withUsers (db.users.set id new))
  | userWithdrawn {id} (user : User) (found : db.users.find? id = some user) :
      CallEffect db (.userSoftDelete id) (.ok (Prisma.deactivated user))
        (Prisma.withdrawn db.toTables id user)
  | productMade {id now data} (row : Product) (fresh : db.products.find? id = none) :
      CallEffect db (.productCreate id now data) (.ok row)
        (db.toTables.withProducts (db.products.insert id row))
  | productSet {id data} (old new : Product) (found : db.products.find? id = some old)
      (made : data.apply old = some new) :
      CallEffect db (.productUpdate id data) (.ok new)
        (db.toTables.withProducts (db.products.set id new))
  | productViewed {id} (old : Product) (found : db.products.find? id = some old) :
      CallEffect db (.productIncrementViewCount id)
        (.ok { old with viewCount := old.viewCount + 1 })
        (db.toTables.withProducts
          (db.products.set id { old with viewCount := old.viewCount + 1 }))
  | orderMade {id now data} (fee) (fresh : db.orders.find? id = none) :
      CallEffect db (.orderCreate id now data) (.ok (data.row fee now))
        (db.toTables.withOrders (db.orders.insert id (data.row fee now)))
  | orderSet {id data} (old new : Order) (found : db.orders.find? id = some old)
      (made : data.apply old = some new) :
      CallEffect db (.orderUpdate id data) (.ok new)
        (db.toTables.withOrders (db.orders.set id new))
  | orderErased {id} (row : Order) (found : db.orders.find? id = some row) :
      CallEffect db (.orderDelete id) (.ok row) (Prisma.withoutOrder db.toTables id)

theorem write_effect {db : Db} {c : Call} {w : Except PrismaError (Tables × c.Result)}
    (hw : db.toTables.exec c = commit db.toTables w)
    (accepted : ∀ t a, w = .ok (t, a) → CallEffect db c (.ok a) t) :
    CallEffect db c (exec c db).2 (exec c db).1.toTables := by
  rcases exec_write db hw with ⟨e, _, done⟩ | ⟨mid, a, ok, done⟩
  · rw [done]
    exact .refused e
  · rw [done]
    exact accepted _ a ok

/-- The inversion of a call. -/
theorem call_effect (c : Call) (db : Db) :
    CallEffect db c (exec c db).2 (exec c db).1.toTables := by
  cases c with
  | userCreate id now data =>
    refine write_effect rfl (fun t row ok => ?_)
    obtain ⟨fresh, _, rfl⟩ := Prisma.userCreate_ok ok
    exact .userMade row fresh
  | userUpdate id data =>
    refine write_effect rfl (fun t new ok => ?_)
    obtain ⟨old, found, made, rfl⟩ := Prisma.userUpdate_ok ok
    exact .userSet old new found made
  | userSoftDelete id =>
    refine write_effect rfl (fun t row ok => ?_)
    obtain ⟨user, found, rfl, rfl⟩ := Prisma.userSoftDelete_ok ok
    exact .userWithdrawn user found
  | productCreate id now data =>
    refine write_effect rfl (fun t row ok => ?_)
    obtain ⟨_, _, fresh, _, _, rfl⟩ := Prisma.productCreate_ok ok
    exact .productMade row fresh
  | productUpdate id data =>
    refine write_effect rfl (fun t new ok => ?_)
    obtain ⟨old, found, made, _, rfl⟩ := Prisma.productUpdate_ok ok
    exact .productSet old new found made
  | productIncrementViewCount id =>
    refine write_effect rfl (fun t new ok => ?_)
    obtain ⟨old, found, rfl, rfl⟩ := Prisma.productIncrementViewCount_ok ok
    exact .productViewed old found
  | orderCreate id now data =>
    refine write_effect rfl (fun t row ok => ?_)
    obtain ⟨fee, rfl, fresh, _, _, _, rfl⟩ := Prisma.orderCreate_ok ok
    exact .orderMade fee fresh
  | orderUpdate id data =>
    refine write_effect rfl (fun t new ok => ?_)
    obtain ⟨old, found, made, _, rfl⟩ := Prisma.orderUpdate_ok ok
    exact .orderSet old new found made
  | orderDelete id =>
    refine write_effect rfl (fun t row ok => ?_)
    obtain ⟨found, rfl⟩ := Prisma.orderDelete_ok ok
    exact .orderErased row found
  | _ => exact .read _ rfl

section
variable {db : Db} {id : Id}

/-! The writes of the repositories; the last four are those that nothing refuses. -/

theorem orderCreate_alone (db : Db) (id : Id) (now : Date) (data : OrderCreateInput) :
    (∃ e, Prisma.orderCreate db.toTables id now data = .error e ∧
      (OrdersRepository.create id now data).alone exec db = (db, .error (.database e))) ∨
    (∃ mid order, Prisma.orderCreate db.toTables id now data = .ok (Db.toTables mid, order) ∧
      (OrdersRepository.create id now data).alone exec db = (mid, .ok order)) :=
  write_alone db (.orderCreate id now data) rfl

theorem orderUpdate_split (db : Db) (id : Id) (data : OrderUpdateInput) :
    (∃ e, Prisma.orderUpdate db.toTables id data = .error e ∧
      (OrdersRepository.update id data).alone exec db = (db, .error (.database e))) ∨
    (∃ mid order, Prisma.orderUpdate db.toTables id data = .ok (Db.toTables mid, order) ∧
      (OrdersRepository.update id data).alone exec db = (mid, .ok order)) :=
  write_alone db (.orderUpdate id data) rfl

theorem productCreate_alone (db : Db) (id : Id) (now : Date) (data : ProductCreateInput) :
    (∃ e, Prisma.productCreate db.toTables id now data = .error e ∧
      (ProductsRepository.create id now data).alone exec db = (db, .error (.database e))) ∨
    (∃ mid product, Prisma.productCreate db.toTables id now data = .ok (Db.toTables mid, product) ∧
      (ProductsRepository.create id now data).alone exec db = (mid, .ok product)) :=
  write_alone db (.productCreate id now data) rfl

theorem productUpdate_split (db : Db) (id : Id) (data : ProductUpdateInput) :
    (∃ e, Prisma.productUpdate db.toTables id data = .error e ∧
      (ProductsRepository.update id data).alone exec db = (db, .error (.database e))) ∨
    (∃ mid product, Prisma.productUpdate db.toTables id data = .ok (Db.toTables mid, product) ∧
      (ProductsRepository.update id data).alone exec db = (mid, .ok product)) :=
  write_alone db (.productUpdate id data) rfl

theorem incrementViewCount_alone (db : Db) (id : Id) :
    (∃ e, Prisma.productIncrementViewCount db.toTables id = .error e ∧
      (ProductsRepository.incrementViewCount id).alone exec db = (db, .error (.database e))) ∨
    (∃ mid product,
      Prisma.productIncrementViewCount db.toTables id = .ok (Db.toTables mid, product) ∧
      (ProductsRepository.incrementViewCount id).alone exec db = (mid, .ok product)) :=
  write_alone db (.productIncrementViewCount id) rfl

theorem userCreate_alone (db : Db) (id : Id) (now : Date) (data : UserCreateInput) :
    (∃ e, Prisma.userCreate db.toTables id now data = .error e ∧
      (UsersRepository.create id now data).alone exec db = (db, .error (.database e))) ∨
    (∃ mid user, Prisma.userCreate db.toTables id now data = .ok (Db.toTables mid, user) ∧
      (UsersRepository.create id now data).alone exec db = (mid, .ok user)) :=
  write_alone db (.userCreate id now data) rfl

theorem userUpdate_alone (db : Db) (id : Id) (data : UserUpdateInput) :
    (∃ e, Prisma.userUpdate db.toTables id data = .error e ∧
      (UsersRepository.update id data).alone exec db = (db, .error (.database e))) ∨
    (∃ mid user, Prisma.userUpdate db.toTables id data = .ok (Db.toTables mid, user) ∧
      (UsersRepository.update id data).alone exec db = (mid, .ok user)) :=
  write_alone db (.userUpdate id data) rfl

theorem orderUpdate_alone {data : OrderUpdateInput} {order new : Order}
    (found : db.orders.find? id = some order) (made : data.apply order = some new)
    (free : Prisma.paymentTaken db.toTables id data.paymentId = false) :
    ∃ mid : Db, (OrdersRepository.update id data).alone exec db = (mid, .ok new) ∧
      mid.toTables = db.toTables.withOrders (db.orders.set id new) :=
  accepted_alone db (.orderUpdate id data) rfl (Prisma.orderUpdate_eq found made free)

theorem updateStatus_alone {status : OrderStatus} {now : Date} {order new : Order}
    (found : db.orders.find? id = some order)
    (made : (OrdersRepository.statusData status now).apply order = some new) :
    ∃ mid : Db, (OrdersRepository.updateStatus id status now).alone exec db = (mid, .ok new) ∧
      mid.toTables = db.toTables.withOrders (db.orders.set id new) := by
  refine orderUpdate_alone found made ?_
  cases status <;> rfl

theorem productUpdate_alone {data : ProductUpdateInput} {product new : Product}
    (found : db.products.find? id = some product) (made : data.apply product = some new)
    (known : Prisma.categoryMissing db.toTables data.category = false) :
    ∃ mid : Db, (ProductsRepository.update id data).alone exec db = (mid, .ok new) ∧
      mid.toTables = db.toTables.withProducts (db.products.set id new) :=
  accepted_alone db (.productUpdate id data) rfl (Prisma.productUpdate_eq found made known)

theorem productStatus_alone (status : ProductStatus) {product : Product}
    (found : db.products.find? id = some product) :
    ∃ mid : Db, (ProductsRepository.update id { status := .value status }).alone exec db =
        (mid, .ok { product with status := status }) ∧
      mid.toTables = db.toTables.withProducts
        (db.products.set id { product with status := status }) :=
  productUpdate_alone found rfl rfl

theorem orderDelete_alone {order : Order} (found : db.orders.find? id = some order) :
    ∃ mid : Db, (OrdersRepository.delete id).alone exec db = (mid, .ok order) ∧
      mid.toTables = Prisma.withoutOrder db.toTables id := by
  refine accepted_alone db (.orderDelete id) rfl ?_
  simp only [Prisma.orderDelete, found]
  rfl

theorem softDelete_alone {user : User} (found : db.users.find? id = some user) :
    ∃ mid : Db, (UsersRepository.softDelete id).alone exec db =
        (mid, .ok (Prisma.deactivated user)) ∧
      mid.toTables = Prisma.withdrawn db.toTables id user := by
  refine accepted_alone db (.userSoftDelete id) rfl ?_
  simp only [Prisma.userSoftDelete, found]
  rfl

end

/-- The first of the drawn numbers that no order has. -/
def freshNumber (t : Tables) (stem : String) : List Draw → Option String
  | [] => none
  | d :: rest =>
    if (t.orders.findBy (fun o => o.orderNumber = d.orderNumber stem)).isSome then
      freshNumber t stem rest
    else some (d.orderNumber stem)

theorem generateOrderNumber_alone (draws : List Draw) (stem : String) (db : Db) :
    (OrdersRepository.generateOrderNumber draws stem).alone exec db =
      (db, match freshNumber db.toTables stem draws with
        | some number => .ok number
        | none => .error .unfinished) := by
  induction draws with
  | nil => rfl
  | cons d rest ih =>
    simp only [OrdersRepository.generateOrderNumber, Request.alone_bind, findByOrderNumber_alone,
      freshNumber]
    split
    · exact ih
    · rfl

end SecondhandApi
