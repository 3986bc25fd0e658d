import SecondhandApi.Operations

/-! The controllers and the guards before them: what a request must show, and whose id the
controller hands on to the service. Nothing here looks at the account in the database. -/
namespace SecondhandApi
open Keyed

/- What an endpoint asks of a request: nothing, or a token of one type and of one of the
roles (any, if none is listed). The caller's id comes from the token. -/
inductive Access where
  | isPublic (op : Op)
  | guarded (wanted : TokenType) (roles : List Role) (handle : Id → Op)

inductive Endpoint where
  | ordersCreate (dto : CreateOrderDto) (new : NewOrder)
  | ordersFindOne (id : Id)
  | ordersUpdate (id : Id) (dto : UpdateOrderDto)
  | ordersCancel (id : Id) (now : Date)
  | ordersConfirm (id : Id) (now soldAt : Date)
  | ordersRemove (id : Id)
  | productsCreate (dto : CreateProductDto) (id : Id) (now : Date)
  | productsFindOne (id : Id)
  | productsUpdate (id : Id) (dto : UpdateProductDto)
  | productsRemove (id : Id)
  | usersRegister (dto : CreateUserDto) (id : Id) (now : Date) (hashedPassword : String)
  | usersLogin (dto : LoginUserDto) (compare : String → String → Bool) (now : Date)
  | usersRefresh (now : Date)
  | usersGetProfile
  | usersUpdateProfile (dto : UpdateUserDto)
  | usersWithdraw

/- `register` also logs the new user in: a request to `login` follows it. -/
def Endpoint.access : Endpoint → Access
  | .ordersCreate dto new => .guarded .access [] (fun userId => .ordersCreate userId dto new)
  | .ordersFindOne id => .guarded .access [] (fun userId => .ordersFindOne id userId)
  | .ordersUpdate id dto => .guarded .access [] (fun userId => .ordersUpdate id userId dto)
  | .ordersCancel id now => .guarded .access [] (fun userId => .ordersCancel id userId now)
  | .ordersConfirm id now soldAt =>
    .guarded .access [] (fun userId => .ordersConfirm id userId now soldAt)
  | .ordersRemove id => .guarded .access [.admin] (fun _ => .ordersRemove id)
  | .productsCreate dto id now =>
    .guarded .access [] (fun userId => .productsCreate userId dto id now)
  | .productsFindOne id => .isPublic (.productsFindById id)
  | .productsUpdate id dto => .guarded .access [] (fun userId => .productsUpdate id userId dto)
  | .productsRemove id => .guarded .access [] (fun userId => .productsRemove id userId)
  | .usersRegister dto id now hashed => .isPublic (.usersCreate dto id now hashed)
  | .usersLogin dto compare now => .isPublic (.usersLogin dto compare now)
  | .usersRefresh now => .guarded .refresh [] (fun userId => .usersRefreshAccessToken userId now)
  | .usersGetProfile => .guarded .access [] (fun userId => .usersFindOne userId)
  | .usersUpdateProfile dto => .guarded .access [] (fun userId => .usersUpdate userId dto)
  | .usersWithdraw => .guarded .access [] (fun userId => .usersRemove userId)

/- The message of a refusal by passport; the refresh guard quotes the word for it. -/
def TokenType.refusal : TokenType → String → String
  | .access, info => info
  | .refresh, _ => "info.message"

/-- JwtAuthGuard and JwtRefreshAuthGuard: the signature, the expiry and the strategy. A token
with a right signature is one that was issued. -/
def authenticate (issued : List JwtPayload) (now : Date) (wanted : TokenType) :
    Option JwtPayload → Except ApiError JwtValidationResult
  | none => .error (.unauthorized (wanted.refusal "No auth token"))
  | some payload =>
    if payload ∉ issued then .error (.unauthorized (wanted.refusal "invalid signature"))
    else if payload.expired now then .error (.unauthorized (wanted.refusal "jwt expired"))
    else match wanted with
      | .access => JwtStrategy.validate payload
      | .refresh => JwtRefreshStrategy.validate payload

structure Visit where
  endpoint : Endpoint
  token : Option JwtPayload := none
  now : Date

/-- The database and the tokens that were handed out. -/
structure Session where
  db : Db
  issued : List JwtPayload

def Response.issues : Response → List JwtPayload
  | .login new _ => [new.accessToken, new.refreshToken]
  | .tokens new => [new.accessToken, new.refreshToken]
  | _ => []

namespace Session

/-- The operation that a visit comes to, past the guards. -/
def operation (s : Session) (v : Visit) : Except ApiError Op :=
  match v.endpoint.access with
  | .isPublic op => .ok op
  | .guarded wanted roles handle =>
    match authenticate s.issued v.now wanted v.token with
    | .error e => .error e
    | .ok user =>
      match RolesGuard.canActivate roles user with
      | .error e => .error e
      | .ok _ => .ok (handle user.userId)

def step (s : Session) (v : Visit) : Session :=
  match s.operation v with
  | .error _ => s
  | .ok op =>
    ⟨(op.perform s.db).1, match (op.perform s.db).2 with
      | .ok response => response.issues ++ s.issued
      | .error _ => s.issued⟩

theorem step_db (s : Session) (v : Visit) :
    (s.step v).db = match s.operation v with
      | .error _ => s.db
      | .ok op => service.sequential s.db op := by
  unfold step
  cases s.operation v <;> rfl

end Session

end SecondhandApi
