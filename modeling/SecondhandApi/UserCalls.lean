import SecondhandApi.OrderCalls

/-! Which calls the operations on users and on one product make. -/
namespace SecondhandApi
open Interleaving

section
variable {P : Call → Prop}

theorem refuseTaken_makes {find : String → Req (Option (Id × User))}
    (finds : ∀ v, Request.Makes P (find v)) (message : String) (wanted : Field String) :
    Request.Makes P (UsersService.refuseTaken find message wanted) := by
  unfold UsersService.refuseTaken
  split
  · refine Request.makes_bind (finds _) fun existing => ?_
    split <;> trivial
  · trivial

variable (reads : ∀ c : Call, c.reads = true → P c)
include reads

theorem usersCreate_makes {dto : CreateUserDto} {id : Id} {now : Date} {hashed : String}
    (writes : ∀ data, P (.userCreate id now data)) :
    Request.Makes P (UsersService.create dto id now hashed) := by
  refine makes_await (reads _ rfl) fun existingEmail => ?_
  split
  · trivial
  refine makes_await (reads _ rfl) fun existingNickname => ?_
  split
  · trivial
  refine Request.makes_bind (refuseTaken_makes (fun v => makes_last (reads _ rfl)) _ _)
    fun _ => ?_
  exact makes_await (writes _) fun _ => trivial

theorem usersLogin_makes {dto : LoginUserDto} {compare : String → String → Bool} {now : Date}
    (writes : ∀ id data, P (.userUpdate id data)) :
    Request.Makes P (UsersService.login dto compare now) := by
  refine makes_await (reads _ rfl) fun found => ?_
  cases found with
  | none => trivial
  | some row =>
    dsimp only
    split
    · trivial
    split
    · trivial
    exact makes_await (writes _ _) fun _ => trivial

theorem usersUpdate_makes {id : Id} {dto : UpdateUserDto}
    (writes : ∀ data, P (.userUpdate id data)) :
    Request.Makes P (UsersService.update id dto) := by
  refine makes_await (reads _ rfl) fun found => ?_
  cases found with
  | none => trivial
  | some user =>
    have last : Request.Makes P (do
        let updatedUser ← UsersRepository.update id
          { nickname := dto.nickname, name := dto.name, phoneNumber := dto.phoneNumber,
            profileImage := dto.profileImage, bio := dto.bio }
        return updatedUser.toUserInfo) := makes_await (writes _) fun _ => trivial
    have phone : Request.Makes P (do
        if dto.phoneNumber.orNull ≠ user.phoneNumber then
          UsersService.refuseTaken UsersRepository.findByPhoneNumber "이미 사용 중인 전화번호입니다"
            dto.phoneNumber
        let updatedUser ← UsersRepository.update id
          { nickname := dto.nickname, name := dto.name, phoneNumber := dto.phoneNumber,
            profileImage := dto.profileImage, bio := dto.bio }
        return updatedUser.toUserInfo) := by
      split
      · exact Request.makes_bind
          (refuseTaken_makes (fun v => makes_last (reads _ rfl)) _ _) fun _ => last
      · exact last
    dsimp only
    split
    · exact Request.makes_bind
        (refuseTaken_makes (fun v => makes_last (reads _ rfl)) _ _) fun _ => phone
    · exact phone

theorem usersRemove_makes {id : Id} (withdraws : P (.userSoftDelete id)) :
    Request.Makes P (UsersService.remove id) := by
  refine makes_await (reads _ rfl) fun found => ?_
  cases found with
  | none => trivial
  | some user =>
    dsimp only
    split
    · trivial
    refine Request.makes_bind (makes_await (reads (.orderFindMany id) rfl) fun _ => trivial)
      fun ongoing => ?_
    split
    · trivial
    · exact makes_last withdraws

theorem productsRemove_makes {id userId : Id} (writes : ∀ data, P (.productUpdate id data)) :
    Request.Makes P (ProductsService.remove id userId) := by
  refine makes_await (reads _ rfl) fun found => ?_
  cases found with
  | none => trivial
  | some product =>
    dsimp only
    split
    · trivial
    split
    · trivial
    exact makes_last (writes _)

end

end SecondhandApi
