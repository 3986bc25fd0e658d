import SecondhandApi.Auth
import SecondhandApi.OrdersService
import SecondhandApi.ProductsService

/-! `src/modules/users/users.service.ts`. What bcrypt answers comes from outside: the
hash of a new password and the comparison at login. -/
namespace SecondhandApi
open Interleaving

structure CreateUserDto where
  email : String
  password : String
  nickname : String
  name : Field String := .undefined
  phoneNumber : Field String := .undefined

structure UpdateUserDto where
  nickname : Field String := .undefined
  name : Field String := .undefined
  phoneNumber : Field String := .undefined
  profileImage : Field String := .undefined
  bio : Field String := .undefined

structure LoginUserDto where
  email : String
  password : String

structure Tokens where
  accessToken : JwtPayload
  refreshToken : JwtPayload
  deriving DecidableEq

namespace UsersService

/- `15m` and `7d`, in seconds. -/
def accessLifetime : Nat := 15 * 60

def refreshLifetime : Nat := 7 * 24 * 60 * 60

def generateTokens (userId : Id) (email role : String) (now : Date) : Tokens :=
  { accessToken := ⟨userId, email, role, some .access, some (now / 1000 + accessLifetime)⟩
    refreshToken := ⟨userId, email, role, some .refresh, some (now / 1000 + refreshLifetime)⟩ }

/- A value in use may not be taken; an absent or empty one is not looked up. -/
def refuseTaken (find : String → Req (Option (Id × User))) (message : String)
    (wanted : Field String) : Req Unit := do
  match wanted.ifTruthy nonempty with
  | .value v =>
    let existing ← find v
    if existing.isSome then throw (.conflict message)
  | _ => return ()

def create (dto : CreateUserDto) (id : Id) (now : Date) (hashedPassword : String) :
    Req UserInfo := do
  let existingEmail ← UsersRepository.findByEmail dto.email
  if existingEmail.isSome then
    throw (.conflict "이미 사용 중인 이메일입니다")
  let existingNickname ← UsersRepository.findByNickname dto.nickname
  if existingNickname.isSome then
    throw (.conflict "이미 사용 중인 닉네임입니다")
  refuseTaken UsersRepository.findByPhoneNumber "이미 사용 중인 전화번호입니다" dto.phoneNumber
  let user ← UsersRepository.create id now
    { email := dto.email
      password := hashedPassword
      nickname := dto.nickname
      name := dto.name.ifTruthy nonempty
      phoneNumber := dto.phoneNumber.ifTruthy nonempty }
  return user.toUserInfo

def login (dto : LoginUserDto) (compare : String → String → Bool) (now : Date) :
    Req (Tokens × UserInfo) := do
  let some (id, user) ← UsersRepository.findByEmail dto.email
    | throw (.unauthorized "이메일 또는 비밀번호가 일치하지 않습니다")
  if !user.isActive then
    throw (.unauthorized "비활성화된 계정입니다")
  if !compare dto.password user.password then
    throw (.unauthorized "이메일 또는 비밀번호가 일치하지 않습니다")
  let _ ← UsersRepository.updateLastLogin id now
  return (generateTokens id user.email user.role.word now, user.toUserInfo)

def findOne (id : Id) : Req UserInfo := do
  let some user ← UsersRepository.findById id
    | throw (.notFound "사용자를 찾을 수 없습니다")
  return user.toUserInfo

def ensureUserExists (id : Id) : Req Unit := do
  let some _ ← UsersRepository.findById id
    | throw (.notFound "사용자를 찾을 수 없습니다")

def update (id : Id) (dto : UpdateUserDto) : Req UserInfo := do
  let some user ← UsersRepository.findById id
    | throw (.notFound "사용자를 찾을 수 없습니다")
  if dto.nickname ≠ .value user.nickname then
    refuseTaken UsersRepository.findByNickname "이미 사용 중인 닉네임입니다" dto.nickname
  if dto.phoneNumber.orNull ≠ user.phoneNumber then
    refuseTaken UsersRepository.findByPhoneNumber "이미 사용 중인 전화번호입니다" dto.phoneNumber
  let updatedUser ← UsersRepository.update id
    { nickname := dto.nickname
      name := dto.name
      phoneNumber := dto.phoneNumber
      profileImage := dto.profileImage
      bio := dto.bio }
  return updatedUser.toUserInfo

def remove (id : Id) : Req User := do
  let some user ← UsersRepository.findById id
    | throw (.notFound "사용자를 찾을 수 없습니다")
  if !user.isActive then
    throw (.badRequest "이미 탈퇴한 계정입니다")
  let hasOngoingOrders ← OrdersService.hasOngoingOrdersByUserId id
  if hasOngoingOrders then
    throw (.conflict
      "진행 중인 거래가 있어 탈퇴할 수 없습니다. 모든 거래를 완료하거나 취소해주세요.")
  UsersRepository.softDelete id

def refreshAccessToken (userId : Id) (now : Date) : Req Tokens := do
  let some user ← UsersRepository.findById userId
    | throw (.notFound "사용자를 찾을 수 없습니다")
  if !user.isActive then
    throw (.unauthorized "비활성화된 계정입니다")
  return generateTokens userId user.email user.role.word now

end UsersService

end SecondhandApi
