import SecondhandApi.Integrity
import SecondhandApi.UsersService

/-! The service operations as requests over one database: each may run alone, among
others in any order, or with failing calls. -/
namespace SecondhandApi
open Keyed Interleaving

/- An operation carries its caller, its arguments and what it draws from outside: new
ids, the clock, the outcome of bcrypt. -/
inductive Op where
  | ordersCreate (buyerId : Id) (dto : CreateOrderDto) (new : NewOrder)
  | ordersFindOne (id userId : Id)
  | ordersUpdate (id userId : Id) (dto : UpdateOrderDto)
  | ordersCancel (id userId : Id) (now : Date)
  | ordersConfirm (id userId : Id) (now soldAt : Date)
  | ordersRemove (id : Id)
  | productsCreate (sellerId : Id) (dto : CreateProductDto) (id : Id) (now : Date)
  | productsFindById (id : Id)
  | productsUpdate (id userId : Id) (dto : UpdateProductDto)
  | productsRemove (id userId : Id)
  | usersCreate (dto : CreateUserDto) (id : Id) (now : Date) (hashedPassword : String)
  | usersLogin (dto : LoginUserDto) (compare : String → String → Bool) (now : Date)
  | usersFindOne (id : Id)
  | usersUpdate (id : Id) (dto : UpdateUserDto)
  | usersRemove (id : Id)
  | usersRefreshAccessToken (userId : Id) (now : Date)

inductive Response where
  | order (order : Order)
  | product (product : Product)
  | user (user : UserInfo)
  | withdrawn (user : User)
  | login (tokens : Tokens) (user : UserInfo)
  | tokens (tokens : Tokens)

def Op.program : Op → Req Response
  | .ordersCreate buyerId dto new => .order <$> OrdersService.create buyerId dto new
  | .ordersFindOne id userId => .order <$> OrdersService.findOne id userId
  | .ordersUpdate id userId dto => .order <$> OrdersService.update id userId dto
  | .ordersCancel id userId now => .order <$> OrdersService.cancel id userId now
  | .ordersConfirm id userId now soldAt => .order <$> OrdersService.confirm id userId now soldAt
  | .ordersRemove id => .order <$> OrdersService.remove id
  | .productsCreate sellerId dto id now => .product <$> ProductsService.create sellerId dto id now
  | .productsFindById id => .product <$> ProductsService.findById id
  | .productsUpdate id userId dto => .product <$> ProductsService.update id userId dto
  | .productsRemove id userId => .product <$> ProductsService.remove id userId
  | .usersCreate dto id now hashed => .user <$> UsersService.create dto id now hashed
  | .usersLogin dto compare now =>
    (fun (tokens, user) => .login tokens user) <$> UsersService.login dto compare now
  | .usersFindOne id => .user <$> UsersService.findOne id
  | .usersUpdate id dto => .user <$> UsersService.update id dto
  | .usersRemove id => .withdrawn <$> UsersService.remove id
  | .usersRefreshAccessToken userId now => .tokens <$> UsersService.refreshAccessToken userId now

def service : Service Db Op Call Call.Reply ApiError Response := ⟨exec, Op.program⟩

/-- One operation on the database, alone. -/
def Op.perform (op : Op) (db : Db) : Db × Except ApiError Response := op.program.alone exec db

/-! A small market for the runs that are written out: ann sells a lamp, bob and cho
may buy it. -/

def member (name : String) : Id × User :=
  (name, { email := name ++ "@market", nickname := name, createdAt := 0, password := "hash" })

def lamp : Product :=
  { sellerId := "ann", categoryId := "home", title := "lamp", description := "a lamp"
    price := 10, condition := .good, createdAt := 0 }

def market : Db where
  users := ⟨[member "ann", member "bob", member "cho"], by decide⟩
  categories := ⟨[("home", { name := "home", slug := "home", createdAt := 0 })], by decide⟩
  products := ⟨[("lamp", lamp)], by decide⟩
  orders := Table.empty
  reviews := Table.empty
  linked := by decide

def lampOrder : CreateOrderDto := { productId := "lamp", totalAmount := 10 }

/- The n-th new order: each draws a number of its own. -/
def newOrder (n : Nat) : NewOrder :=
  ⟨"order-" ++ toString n, n, [⟨2025, 1, 1, mkRat n 1000000⟩]⟩

end SecondhandApi
