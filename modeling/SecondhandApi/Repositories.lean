import SecondhandApi.Prisma
import SecondhandApi.Interleaving.Pool

/-! The repositories under `src/modules/*/repositories`, as requests that make Prisma
calls. -/
namespace SecondhandApi
open Keyed Interleaving

/-- The exceptions of the services, with their messages. `unfinished` is no answer: it
marks a request that is still in a loop when the draws given to it end. -/
inductive ApiError where
  | notFound (message : String)
  | badRequest (message : String)
  | forbidden (message : String)
  | conflict (message : String)
  | unauthorized (message : String)
  | database (error : PrismaError)
  | unfinished
  deriving DecidableEq

abbrev Req (A : Type) : Type := Request Call Call.Reply ApiError A

/- The answer of a call: its error is thrown. -/
def settle {A : Type} : Except PrismaError A → Req A
  | .ok result => .done result
  | .error e => .fail (.database e)

/-- `await` of a Prisma call. -/
def await (c : Call) : Req c.Result := .call c settle

/-- A check that was made without a call. -/
def throwing {A : Type} : Except ApiError A → Req A
  | .ok a => .done a
  | .error e => .fail e

namespace UsersRepository

def create (id : Id) (now : Date) (data : UserCreateInput) : Req User :=
  await (.userCreate id now data)

def findById (id : Id) : Req (Option User) := await (.userFindById id)

def findByEmail (email : String) : Req (Option (Id × User)) := await (.userFindByEmail email)

def findByNickname (nickname : String) : Req (Option (Id × User)) :=
  await (.userFindByNickname nickname)

def findByPhoneNumber (phoneNumber : String) : Req (Option (Id × User)) :=
  await (.userFindByPhoneNumber phoneNumber)

def update (id : Id) (data : UserUpdateInput) : Req User := await (.userUpdate id data)

def updateLastLogin (id : Id) (now : Date) : Req User :=
  await (.userUpdate id { lastLoginAt := .value now })

/- `return this.prisma.$transaction(..)` inside the `try` is not awaited, so its failure
leaves the retry loop at once: the method is one attempt of the transaction. -/
def softDelete (id : Id) : Req User := await (.userSoftDelete id)

end UsersRepository

namespace ProductsRepository

def create (id : Id) (now : Date) (data : ProductCreateInput) : Req Product :=
  await (.productCreate id now data)

def findById (id : Id) : Req (Option Product) := await (.productFindById id)

def update (id : Id) (data : ProductUpdateInput) : Req Product := await (.productUpdate id data)

def softDelete (id : Id) : Req Product := await (.productUpdate id { status := .value .deleted })

def incrementViewCount (id : Id) : Req Product := await (.productIncrementViewCount id)

end ProductsRepository

/-- One reading of the clock (UTC) and of `Math.random()`. -/
structure Draw where
  year : Nat
  month : Nat
  day : Nat
  random : Rat

def padStart (width : Nat) (n : Nat) : String :=
  String.ofList (List.leftpad width '0' (toString n).toList)

def Draw.orderNumber (stem : String) (d : Draw) : String :=
  let dateStr := padStart 4 d.year ++ padStart 2 d.month ++ padStart 2 d.day
  let random := padStart 6 (d.random * 1000000).floor.toNat
  stem ++ "-" ++ dateStr ++ "-" ++ random

namespace OrdersRepository

def create (id : Id) (now : Date) (data : OrderCreateInput) : Req Order :=
  await (.orderCreate id now data)

def findById (id : Id) : Req (Option Order) := await (.orderFindById id)

def findByOrderNumber (orderNumber : String) : Req (Option (Id × Order)) :=
  await (.orderFindByOrderNumber orderNumber)

/- The one query the services make: the statuses of a user's orders, bought or sold. -/
def findMany (userId : Id) : Req (List OrderStatus) := await (.orderFindMany userId)

def update (id : Id) (data : OrderUpdateInput) : Req Order := await (.orderUpdate id data)

def delete (id : Id) : Req Order := await (.orderDelete id)

/- The switch of `updateStatus`: which timestamp goes with which status. -/
def statusData (status : OrderStatus) (now : Date) : OrderUpdateInput :=
  match status with
  | .paid => { status := .value status, paidAt := .value now }
  | .confirmed => { status := .value status, confirmedAt := .value now }
  | .delivered => { status := .value status, completedAt := .value now }
  | .cancelled | .refunded => { status := .value status, cancelledAt := .value now }
  | _ => { status := .value status }

def updateStatus (id : Id) (status : OrderStatus) (now : Date) : Req Order :=
  update id (statusData status now)

/-- The loop draws until the number is not in the table; it runs on the draws given to
it, of which there may be any number. -/
def generateOrderNumber (draws : List Draw) (stem : String := "ORD") : Req String :=
  match draws with
  | [] => throw .unfinished
  | d :: rest => do
    let orderNumber := d.orderNumber stem
    let existing ← findByOrderNumber orderNumber
    if existing.isSome then generateOrderNumber rest stem else return orderNumber

end OrdersRepository

end SecondhandApi
