import SecondhandApi.Schema

/-! The Prisma calls of the repositories, as atomic steps of the database. A call either
answers with rows and leaves its effect, or answers with an error and leaves nothing. -/
namespace SecondhandApi
open Keyed

inductive PrismaError where
  | uniqueViolation   -- P2002
  | recordNotFound    -- P2025
  | restricted        -- P2003: the row is still referred to
  | invalidValue      -- rejected by the client or the column type
  | unavailable       -- the connection or the server failed
  deriving DecidableEq, Repr

/- An `Int` column holds 32-bit integers. -/
def fitsInt (n : Int) : Bool := decide (-2147483648 ≤ n ∧ n ≤ 2147483647)

/- The client cuts off what a number has after the point. -/
def truncated (q : Rat) : Int := q.num.tdiv q.den

def toInt (q : Rat) : Option Int := if fitsInt (truncated q) then some (truncated q) else none

def Field.requiredInt (f : Field Rat) (old : Int) : Option Int :=
  match f with
  | .undefined => some old
  | .null => none
  | .value q => toInt q

structure UserCreateInput where
  email : String
  password : String
  nickname : String
  name : Field String := .undefined
  phoneNumber : Field String := .undefined

structure UserUpdateInput where
  nickname : Field String := .undefined
  name : Field String := .undefined
  phoneNumber : Field String := .undefined
  profileImage : Field String := .undefined
  bio : Field String := .undefined
  lastLoginAt : Field Date := .undefined

structure ProductCreateInput where
  title : String
  description : String
  price : Rat
  condition : ProductCondition
  images : List String
  latitude : Field Rat
  longitude : Field Rat
  location : Field String
  seller : Id
  category : Id

structure ProductUpdateInput where
  title : Field String := .undefined
  description : Field String := .undefined
  price : Field Rat := .undefined
  condition : Field ProductCondition := .undefined
  status : Field ProductStatus := .undefined
  images : Field (List String) := .undefined
  latitude : Field Rat := .undefined
  longitude : Field Rat := .undefined
  location : Field String := .undefined
  category : Field Id := .undefined
  soldAt : Field Date := .undefined

structure OrderCreateInput where
  orderNumber : String
  totalAmount : Nat
  shippingFee : Field Nat
  buyer : Id
  seller : Id
  product : Id
  recipientName : Field String
  recipientPhone : Field String
  shippingAddress : Field String
  shippingPostcode : Field String
  paymentMethod : Field PaymentMethod

structure OrderUpdateInput where
  status : Field OrderStatus := .undefined
  recipientName : Field String := .undefined
  recipientPhone : Field String := .undefined
  shippingAddress : Field String := .undefined
  shippingPostcode : Field String := .undefined
  trackingNumber : Field String := .undefined
  paymentMethod : Field PaymentMethod := .undefined
  paymentId : Field String := .undefined
  paidAt : Field Date := .undefined
  confirmedAt : Field Date := .undefined
  completedAt : Field Date := .undefined
  cancelledAt : Field Date := .undefined

/- The new rows: a column that the data leaves out gets its default. -/
def UserCreateInput.row (data : UserCreateInput) (now : Date) : User :=
  { email := data.email
    password := data.password
    nickname := data.nickname
    name := data.name.orNull
    phoneNumber := data.phoneNumber.orNull
    createdAt := now }

def ProductCreateInput.row (data : ProductCreateInput) (price : Int) (now : Date) : Product :=
  { sellerId := data.seller
    categoryId := data.category
    title := data.title
    description := data.description
    price := price
    condition := data.condition
    images := data.images
    latitude := data.latitude.orNull
    longitude := data.longitude.orNull
    location := data.location.orNull
    createdAt := now }

def OrderCreateInput.row (data : OrderCreateInput) (fee : Nat) (now : Date) : Order :=
  { buyerId := data.buyer
    sellerId := data.seller
    productId := data.product
    orderNumber := data.orderNumber
    totalAmount := data.totalAmount
    shippingFee := fee
    recipientName := data.recipientName.orNull
    recipientPhone := data.recipientPhone.orNull
    shippingAddress := data.shippingAddress.orNull
    shippingPostcode := data.shippingPostcode.orNull
    paymentMethod := data.paymentMethod.orNull
    createdAt := now }

/- The rows after an update; null in a required column is refused. -/
def UserUpdateInput.apply (data : UserUpdateInput) (row : User) : Option User := do
  let nickname ← data.nickname.required row.nickname
  some { row with
    nickname := nickname
    name := data.name.nullable row.name
    phoneNumber := data.phoneNumber.nullable row.phoneNumber
    profileImage := data.profileImage.nullable row.profileImage
    bio := data.bio.nullable row.bio
    lastLoginAt := data.lastLoginAt.nullable row.lastLoginAt }

def ProductUpdateInput.apply (data : ProductUpdateInput) (row : Product) : Option Product := do
  let title ← data.title.required row.title
  let description ← data.description.required row.description
  let price ← data.price.requiredInt row.price
  let condition ← data.condition.required row.condition
  let status ← data.status.required row.status
  let images ← data.images.required row.images
  let categoryId ← data.category.required row.categoryId
  some { row with
    title := title
    description := description
    price := price
    condition := condition
    status := status
    images := images
    categoryId := categoryId
    latitude := data.latitude.nullable row.latitude
    longitude := data.longitude.nullable row.longitude
    location := data.location.nullable row.location
    soldAt := data.soldAt.nullable row.soldAt }

def OrderUpdateInput.apply (data : OrderUpdateInput) (row : Order) : Option Order := do
  let status ← data.status.required row.status
  some { row with
    status := status
    recipientName := data.recipientName.nullable row.recipientName
    recipientPhone := data.recipientPhone.nullable row.recipientPhone
    shippingAddress := data.shippingAddress.nullable row.shippingAddress
    shippingPostcode := data.shippingPostcode.nullable row.shippingPostcode
    trackingNumber := data.trackingNumber.nullable row.trackingNumber
    paymentMethod := data.paymentMethod.nullable row.paymentMethod
    paymentId := data.paymentId.nullable row.paymentId
    paidAt := data.paidAt.nullable row.paidAt
    confirmedAt := data.confirmedAt.nullable row.confirmedAt
    completedAt := data.completedAt.nullable row.completedAt
    cancelledAt := data.cancelledAt.nullable row.cancelledAt }

namespace Prisma

/- Unique columns: another row holds the value about to be written. -/
def emailTaken (db : Tables) (email : String) : Bool :=
  db.users.any (fun _ u => u.email = email)

def nicknameTaken (db : Tables) (id : Id) : Field String → Bool
  | .value nickname => db.users.any (fun i u => i ≠ id && u.nickname = nickname)
  | _ => false

def phoneTaken (db : Tables) (id : Id) : Field String → Bool
  | .value phone => db.users.any (fun i u => i ≠ id && u.phoneNumber = some phone)
  | _ => false

def orderNumberTaken (db : Tables) (number : String) : Bool :=
  db.orders.any (fun _ o => o.orderNumber = number)

def paymentTaken (db : Tables) (id : Id) : Field String → Bool
  | .value payment => db.orders.any (fun i o => i ≠ id && o.paymentId = some payment)
  | _ => false

/- `connect` needs the row it points to. -/
def categoryMissing (db : Tables) : Field Id → Bool
  | .value category => !db.categories.has category
  | _ => false

def userCreate (db : Tables) (id : Id) (now : Date) (data : UserCreateInput) :
    Except PrismaError (Tables × User) :=
  if db.users.has id || emailTaken db data.email || nicknameTaken db id (.value data.nickname) ||
      phoneTaken db id data.phoneNumber then .error .uniqueViolation
  else .ok (db.withUsers (db.users.insert id (data.row now)), data.row now)

def userUpdate (db : Tables) (id : Id) (data : UserUpdateInput) :
    Except PrismaError (Tables × User) :=
  match db.users.find? id with
  | none => .error .recordNotFound
  | some row =>
    match data.apply row with
    | none => .error .invalidValue
    | some new =>
      if nicknameTaken db id data.nickname || phoneTaken db id data.phoneNumber then
        .error .uniqueViolation
      else .ok (db.withUsers (db.users.set id new), new)

def productCreate (db : Tables) (id : Id) (now : Date) (data : ProductCreateInput) :
    Except PrismaError (Tables × Product) :=
  match toInt data.price with
  | none => .error .invalidValue
  | some price =>
    if !db.users.has data.seller || !db.categories.has data.category then .error .recordNotFound
    else if db.products.has id then .error .uniqueViolation
    else
      let row := data.row price now
      .ok (db.withProducts (db.products.insert id row), row)

def productUpdate (db : Tables) (id : Id) (data : ProductUpdateInput) :
    Except PrismaError (Tables × Product) :=
  match db.products.find? id with
  | none => .error .recordNotFound
  | some row =>
    match data.apply row with
    | none => .error .invalidValue
    | some new =>
      if categoryMissing db data.category then .error .recordNotFound
      else .ok (db.withProducts (db.products.set id new), new)

def productIncrementViewCount (db : Tables) (id : Id) : Except PrismaError (Tables × Product) :=
  match db.products.find? id with
  | none => .error .recordNotFound
  | some row =>
    let new := { row with viewCount := row.viewCount + 1 }
    .ok (db.withProducts (db.products.set id new), new)

def orderCreate (db : Tables) (id : Id) (now : Date) (data : OrderCreateInput) :
    Except PrismaError (Tables × Order) :=
  match data.shippingFee.required 0 with
  | none => .error .invalidValue
  | some fee =>
    if !fitsInt data.totalAmount || !fitsInt fee then .error .invalidValue
    else if !db.users.has data.buyer || !db.users.has data.seller ||
        !db.products.has data.product then .error .recordNotFound
    else if db.orders.has id || orderNumberTaken db data.orderNumber then .error .uniqueViolation
    else
      let row := data.row fee now
      .ok (db.withOrders (db.orders.insert id row), row)

def orderUpdate (db : Tables) (id : Id) (data : OrderUpdateInput) :
    Except PrismaError (Tables × Order) :=
  match db.orders.find? id with
  | none => .error .recordNotFound
  | some row =>
    match data.apply row with
    | none => .error .invalidValue
    | some new =>
      if paymentTaken db id data.paymentId then .error .uniqueViolation
      else .ok (db.withOrders (db.orders.set id new), new)

/- Deleting an order deletes its review with it (`onDelete: Cascade`). -/
def withoutOrder (db : Tables) (id : Id) : Tables :=
  (db.withOrders (db.orders.erase id)).withReviews
    (db.reviews.eraseAll (fun _ r => r.orderId = id))

def orderDelete (db : Tables) (id : Id) : Except PrismaError (Tables × Order) :=
  match db.orders.find? id with
  | none => .error .recordNotFound
  | some row => .ok (withoutOrder db id, row)

/- The three statements of the withdrawal transaction. -/
def cancelUnpaid (id : Id) (order : Order) : Order :=
  if (order.sellerId = id ∨ order.buyerId = id) ∧
      (order.status = .pending ∨ order.status = .paymentPending) then
    { order with status := .cancelled }
  else order

def deleteListed (id : Id) (product : Product) : Product :=
  if product.sellerId = id ∧ product.status = .active then
    { product with status := .deleted }
  else product

def deactivated (user : User) : User := { user with isActive := false }

def withdrawn (db : Tables) (id : Id) (user : User) : Tables :=
  ((db.withOrders (db.orders.modifyAll (fun _ => cancelUnpaid id))).withProducts
    (db.products.modifyAll (fun _ => deleteListed id))).withUsers
      (db.users.set id (deactivated user))

def userSoftDelete (db : Tables) (id : Id) : Except PrismaError (Tables × User) :=
  match db.users.find? id with
  | none => .error .recordNotFound
  | some row => .ok (withdrawn db id row, deactivated row)

end Prisma

/-- The calls that the repositories make. Ids of new rows and the clock readings that the
database takes itself are arguments of the call. -/
inductive Call where
  | userFindById (id : Id)
  | userFindByEmail (email : String)
  | userFindByNickname (nickname : String)
  | userFindByPhoneNumber (phoneNumber : String)
  | userCreate (id : Id) (now : Date) (data : UserCreateInput)
  | userUpdate (id : Id) (data : UserUpdateInput)
  | userSoftDelete (id : Id)
  | productFindById (id : Id)
  | productCreate (id : Id) (now : Date) (data : ProductCreateInput)
  | productUpdate (id : Id) (data : ProductUpdateInput)
  | productIncrementViewCount (id : Id)
  | orderFindById (id : Id)
  | orderFindByOrderNumber (orderNumber : String)
  | orderFindMany (userId : Id)
  | orderCreate (id : Id) (now : Date) (data : OrderCreateInput)
  | orderUpdate (id : Id) (data : OrderUpdateInput)
  | orderDelete (id : Id)

def Call.Result : Call → Type
  | .userFindById _ => Option User
  | .userFindByEmail _ => Option (Id × User)
  | .userFindByNickname _ => Option (Id × User)
  | .userFindByPhoneNumber _ => Option (Id × User)
  | .userCreate _ _ _ => User
  | .userUpdate _ _ => User
  | .userSoftDelete _ => User
  | .productFindById _ => Option Product
  | .productCreate _ _ _ => Product
  | .productUpdate _ _ => Product
  | .productIncrementViewCount _ => Product
  | .orderFindById _ => Option Order
  | .orderFindByOrderNumber _ => Option (Id × Order)
  | .orderFindMany _ => List OrderStatus
  | .orderCreate _ _ _ => Order
  | .orderUpdate _ _ => Order
  | .orderDelete _ => Order

/-- Any call may also be answered with an error. -/
abbrev Call.Reply (c : Call) : Type := Except PrismaError c.Result

/-- A refused write leaves the database as it was. -/
def commit {A : Type} (db : Tables) :
    Except PrismaError (Tables × A) → Tables × Except PrismaError A
  | .ok (db', a) => (db', .ok a)
  | .error e => (db, .error e)

def Tables.exec (db : Tables) : (c : Call) → Tables × c.Reply
  | .userFindById id => (db, .ok (db.users.find? id))
  | .userFindByEmail email => (db, .ok (db.users.findBy (fun u => u.email = email)))
  | .userFindByNickname nickname => (db, .ok (db.users.findBy (fun u => u.nickname = nickname)))
  | .userFindByPhoneNumber phoneNumber =>
    (db, .ok (db.users.findBy (fun u => u.phoneNumber = some phoneNumber)))
  | .userCreate id now data => commit db (Prisma.userCreate db id now data)
  | .userUpdate id data => commit db (Prisma.userUpdate db id data)
  | .userSoftDelete id => commit db (Prisma.userSoftDelete db id)
  | .productFindById id => (db, .ok (db.products.find? id))
  | .productCreate id now data => commit db (Prisma.productCreate db id now data)
  | .productUpdate id data => commit db (Prisma.productUpdate db id data)
  | .productIncrementViewCount id => commit db (Prisma.productIncrementViewCount db id)
  | .orderFindById id => (db, .ok (db.orders.find? id))
  | .orderFindByOrderNumber number =>
    (db, .ok (db.orders.findBy (fun o => o.orderNumber = number)))
  | .orderFindMany userId =>
    (db, .ok ((db.orders.rows.filter
      (fun row => row.2.sellerId = userId || row.2.buyerId = userId)).map (·.2.status)))
  | .orderCreate id now data => commit db (Prisma.orderCreate db id now data)
  | .orderUpdate id data => commit db (Prisma.orderUpdate db id data)
  | .orderDelete id => commit db (Prisma.orderDelete db id)

/-- The answer of a call that fails with `e`. -/
def outage (e : PrismaError) (c : Call) : c.Reply := .error e

end SecondhandApi
