import SecondhandApi.Repositories

/-! `src/modules/auth`: the payloads of tokens and the checks made on them. A token is
its payload; that it carries the right signature is the business of whoever holds it. -/
namespace SecondhandApi

inductive TokenType where
  | access | refresh
  deriving DecidableEq

structure JwtPayload where
  sub : String
  email : String
  role : String
  type : Option TokenType := none
  exp : Option Nat := none
  deriving DecidableEq

structure JwtValidationResult where
  userId : Id
  email : String
  role : String
  deriving DecidableEq

/- `ignoreExpiration: false`: the library refuses a token from its `exp` on, which counts
seconds. -/
def JwtPayload.expired (payload : JwtPayload) (now : Date) : Bool :=
  match payload.exp with
  | none => false
  | some exp => decide (exp ≤ now / 1000)

/- Both strategies make the same checks, each for its own type of token. -/
def validatePayload (wanted : TokenType) (payload : JwtPayload) :
    Except ApiError JwtValidationResult :=
  if payload.type ≠ none ∧ payload.type ≠ some wanted then
    .error (.unauthorized "유효하지 않은 토큰 타입입니다")
  else if payload.sub = "" ∨ payload.email = "" ∨ payload.role = "" then
    .error (.unauthorized "토큰에 필수 정보가 누락되었습니다")
  else .ok { userId := payload.sub, email := payload.email, role := payload.role }

def JwtStrategy.validate (payload : JwtPayload) : Except ApiError JwtValidationResult :=
  validatePayload .access payload

def JwtRefreshStrategy.validate (payload : JwtPayload) : Except ApiError JwtValidationResult :=
  validatePayload .refresh payload

def RolesGuard.canActivate (requiredRoles : List Role) (user : JwtValidationResult) :
    Except ApiError Unit :=
  if requiredRoles = [] then .ok ()
  else if user.role = "" then
    .error (.forbidden "사용자 역할 정보를 찾을 수 없습니다")
  else if user.role ∉ requiredRoles.map Role.word then
    .error (.forbidden "이 작업을 수행할 권한이 없습니다")
  else .ok ()

end SecondhandApi
