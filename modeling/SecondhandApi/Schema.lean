import SecondhandApi.Table

/-! The rows of `prisma/schema.prisma` that the orders, products and users services
read and write. Ids are the keys of their tables; `updatedAt`, which nothing reads,
is left out, and dates are instants counted in milliseconds. -/
namespace SecondhandApi
open Keyed

abbrev Id := String
abbrev Date := Nat

inductive Role where
  | admin | user | seller | buyer | guest
  deriving DecidableEq, Repr

inductive ProductCondition where
  | new | likeNew | good | fair | poor
  deriving DecidableEq, Repr

inductive ProductStatus where
  | active | reserved | sold | deleted
  deriving DecidableEq, Repr

inductive OrderStatus where
  | pending | paymentPending | paid | shipping | delivered | confirmed | cancelled | refunded
  deriving DecidableEq, Repr

inductive PaymentMethod where
  | card | bankTransfer | virtualAccount | kakaopay | tosspay | meetInPerson
  deriving DecidableEq, Repr

/- The words of the enums as they stand in tokens and error messages. -/
def Role.word : Role → String
  | admin => "ADMIN"
  | user => "USER"
  | seller => "SELLER"
  | buyer => "BUYER"
  | guest => "GUEST"

def OrderStatus.word : OrderStatus → String
  | pending => "PENDING"
  | paymentPending => "PAYMENT_PENDING"
  | paid => "PAID"
  | shipping => "SHIPPING"
  | delivered => "DELIVERED"
  | confirmed => "CONFIRMED"
  | cancelled => "CANCELLED"
  | refunded => "REFUNDED"

/- What a user row shows: everything but the password. -/
structure UserInfo where
  email : String
  name : Option String := none
  nickname : String
  phoneNumber : Option String := none
  profileImage : Option String := none
  bio : Option String := none
  role : Role := .user
  emailVerified : Bool := false
  phoneVerified : Bool := false
  isActive : Bool := true
  rating : Rat := 0
  ratingCount : Nat := 0
  trustScore : Rat := 0
  createdAt : Date
  lastLoginAt : Option Date := none
  deriving DecidableEq

structure User extends UserInfo where
  password : String
  deriving DecidableEq

structure Category where
  name : String
  slug : String
  icon : Option String := none
  order : Int := 0
  isActive : Bool := true
  createdAt : Date
  parentId : Option Id := none
  deriving DecidableEq

structure Product where
  sellerId : Id
  categoryId : Id
  title : String
  description : String
  price : Int
  condition : ProductCondition
  status : ProductStatus := .active
  shippingAvailable : Bool := false
  localPickup : Bool := true
  location : Option String := none
  latitude : Option Rat := none
  longitude : Option Rat := none
  images : List String := []
  thumbnail : Option String := none
  viewCount : Nat := 0
  createdAt : Date
  soldAt : Option Date := none
  deriving DecidableEq

structure Order where
  buyerId : Id
  sellerId : Id
  productId : Id
  orderNumber : String
  totalAmount : Nat
  shippingFee : Nat := 0
  status : OrderStatus := .pending
  recipientName : Option String := none
  recipientPhone : Option String := none
  shippingAddress : Option String := none
  shippingPostcode : Option String := none
  trackingNumber : Option String := none
  paymentMethod : Option PaymentMethod := none
  paymentId : Option String := none
  paidAt : Option Date := none
  createdAt : Date
  confirmedAt : Option Date := none
  completedAt : Option Date := none
  cancelledAt : Option Date := none
  deriving DecidableEq

structure Review where
  orderId : Id
  reviewerId : Id
  reviewedId : Id
  rating : Int
  comment : Option String := none
  images : List String := []
  createdAt : Date
  deriving DecidableEq

structure Tables where
  users : Table Id User
  categories : Table Id Category
  products : Table Id Product
  orders : Table Id Order
  reviews : Table Id Review

namespace Tables

def withUsers (t : Tables) (users : Table Id User) : Tables := { t with users := users }

def withCategories (t : Tables) (categories : Table Id Category) : Tables :=
  { t with categories := categories }

def withProducts (t : Tables) (products : Table Id Product) : Tables :=
  { t with products := products }

def withOrders (t : Tables) (orders : Table Id Order) : Tables := { t with orders := orders }

def withReviews (t : Tables) (reviews : Table Id Review) : Tables := { t with reviews := reviews }

section
variable (t : Tables) (u : Table Id User) (c : Table Id Category) (p : Table Id Product)
  (o : Table Id Order) (r : Table Id Review)

@[simp] theorem users_withUsers : (t.withUsers u).users = u := rfl
@[simp] theorem categories_withUsers : (t.withUsers u).categories = t.categories := rfl
@[simp] theorem products_withUsers : (t.withUsers u).products = t.products := rfl
@[simp] theorem orders_withUsers : (t.withUsers u).orders = t.orders := rfl
@[simp] theorem reviews_withUsers : (t.withUsers u).reviews = t.reviews := rfl
@[simp] theorem users_withCategories : (t.withCategories c).users = t.users := rfl
@[simp] theorem categories_withCategories : (t.withCategories c).categories = c := rfl
@[simp] theorem products_withCategories : (t.withCategories c).products = t.products := rfl
@[simp] theorem orders_withCategories : (t.withCategories c).orders = t.orders := rfl
@[simp] theorem reviews_withCategories : (t.withCategories c).reviews = t.reviews := rfl
@[simp] theorem users_withProducts : (t.withProducts p).users = t.users := rfl
@[simp] theorem categories_withProducts : (t.withProducts p).categories = t.categories := rfl
@[simp] theorem products_withProducts : (t.withProducts p).products = p := rfl
@[simp] theorem orders_withProducts : (t.withProducts p).orders = t.orders := rfl
@[simp] theorem reviews_withProducts : (t.withProducts p).reviews = t.reviews := rfl
@[simp] theorem users_withOrders : (t.withOrders o).users = t.users := rfl
@[simp] theorem categories_withOrders : (t.withOrders o).categories = t.categories := rfl
@[simp] theorem products_withOrders : (t.withOrders o).products = t.products := rfl
@[simp] theorem orders_withOrders : (t.withOrders o).orders = o := rfl
@[simp] theorem reviews_withOrders : (t.withOrders o).reviews = t.reviews := rfl
@[simp] theorem users_withReviews : (t.withReviews r).users = t.users := rfl
@[simp] theorem categories_withReviews : (t.withReviews r).categories = t.categories := rfl
@[simp] theorem products_withReviews : (t.withReviews r).products = t.products := rfl
@[simp] theorem orders_withReviews : (t.withReviews r).orders = t.orders := rfl
@[simp] theorem reviews_withReviews : (t.withReviews r).reviews = r := rfl

end

end Tables

/-- An optional property of a request body. `@IsOptional` lets JSON null through, so a
property is absent, null or a value that passed the other validators. -/
inductive Field (A : Type) where
  | undefined
  | null
  | value (a : A)
  deriving DecidableEq

namespace Field

variable {A : Type}

/-- Writing to a nullable column. -/
def nullable : Field A → Option A → Option A
  | undefined, old => old
  | null, _ => none
  | value a, _ => some a

/-- Writing to a required column: Prisma refuses null. -/
def required : Field A → A → Option A
  | undefined, old => some old
  | null, _ => none
  | value a, _ => some a

/-- The value of a nullable column in a new row. -/
def orNull (f : Field A) : Option A := f.nullable none

/-- A destructuring default: it stands in for an absent property only. -/
def orDefault (f : Field A) (a : A) : Field A :=
  match f with
  | undefined => value a
  | f => f

/-- JavaScript's truth value of the property, for the truth value of its type. -/
def isTruthy (truthy : A → Bool) : Field A → Bool
  | value a => truthy a
  | _ => false

/-- The spread `...(x && { x })`: a falsy property is not written. -/
def ifTruthy (truthy : A → Bool) : Field A → Field A
  | value a => if truthy a then value a else undefined
  | _ => undefined

/-- The property as a column of another type. -/
def map {B : Type} (f : A → B) : Field A → Field B
  | undefined => undefined
  | null => null
  | value a => value (f a)

@[simp] theorem nullable_undefined (old : Option A) : (undefined : Field A).nullable old = old := rfl
@[simp] theorem nullable_value (a : A) (old : Option A) : (value a).nullable old = some a := rfl
@[simp] theorem required_undefined (old : A) : (undefined : Field A).required old = some old := rfl
@[simp] theorem required_null (old : A) : (null : Field A).required old = none := rfl
@[simp] theorem required_value (a old : A) : (value a).required old = some a := rfl

theorem required_eq_some {f : Field A} {old new : A} (h : f.required old = some new) :
    new = old ∧ f = undefined ∨ f = value new := by
  cases f with
  | undefined => cases h; exact Or.inl ⟨rfl, rfl⟩
  | null => cases h
  | value a => cases h; exact Or.inr rfl

end Field

end SecondhandApi
