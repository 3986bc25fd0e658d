import Mathlib.Algebra.Order.Field.Rat
import SecondhandApi.Operations
import SecondhandApi.Interleaving.Sum

/-! `src/modules/reviews`: the Prisma calls of the repository, the trust score and the
service, method by method. -/
namespace SecondhandApi
open Keyed Interleaving

/-- What `@IsInt`, `@Min(1)` and `@Max(5)` let through. -/
abbrev Rating := { n : Int // 1 ≤ n ∧ n ≤ 5 }

structure CreateReviewDto where
  orderId : Id
  rating : Rating
  comment : Field String := .undefined
  images : Field (List String) := .undefined

/- `PartialType` of the same without `orderId`. -/
structure UpdateReviewDto where
  rating : Field Rating := .undefined
  comment : Field String := .undefined
  images : Field (List String) := .undefined

structure ReviewCreateInput where
  rating : Rating
  comment : Field String
  images : Field (List String)
  order : Id
  reviewer : Id
  reviewed : Id

/- The data of `updateUserTrustScore`. -/
structure TrustInput where
  trustScore : Rat
  rating : Rat
  ratingCount : Nat
  deriving DecidableEq

def ReviewCreateInput.row (data : ReviewCreateInput) (images : List String) (now : Date) : Review :=
  { orderId := data.order
    reviewerId := data.reviewer
    reviewedId := data.reviewed
    rating := data.rating.val
    comment := data.comment.orNull
    images := images
    createdAt := now }

/- The update takes the DTO as its data; null in a required column is refused. -/
def UpdateReviewDto.apply (data : UpdateReviewDto) (row : Review) : Option Review := do
  let rating ← (data.rating.map Subtype.val).required row.rating
  let images ← data.images.required row.images
  some { row with
    rating := rating
    comment := data.comment.nullable row.comment
    images := images }

def TrustInput.apply (data : TrustInput) (row : User) : User :=
  { row with
    trustScore := data.trustScore
    rating := data.rating
    ratingCount := data.ratingCount }

namespace Prisma

/- `orderId` is unique: an order has one review at most. -/
def orderReviewed (db : Tables) (order : Id) : Bool := db.reviews.any (fun _ r => r.orderId = order)

def reviewCreate (db : Tables) (id : Id) (now : Date) (data : ReviewCreateInput) :
    Except PrismaError (Tables × Review) :=
  match data.images.required [] with
  | none => .error .invalidValue
  | some images =>
    if !db.orders.has data.order || !db.users.has data.reviewer || !db.users.has data.reviewed then
      .error .recordNotFound
    else if db.reviews.has id || orderReviewed db data.order then .error .uniqueViolation
    else
      let row := data.row images now
      .ok (db.withReviews (db.reviews.insert id row), row)

def reviewUpdate (db : Tables) (id : Id) (data : UpdateReviewDto) :
    Except PrismaError (Tables × Review) :=
  match db.reviews.find? id with
  | none => .error .recordNotFound
  | some row =>
    match data.apply row with
    | none => .error .invalidValue
    | some new => .ok (db.withReviews (db.reviews.set id new), new)

def reviewDelete (db : Tables) (id : Id) : Except PrismaError (Tables × Review) :=
  match db.reviews.find? id with
  | none => .error .recordNotFound
  | some row => .ok (db.withReviews (db.reviews.erase id), row)

def userUpdateTrust (db : Tables) (id : Id) (data : TrustInput) :
    Except PrismaError (Tables × User) :=
  match db.users.find? id with
  | none => .error .recordNotFound
  | some row => .ok (db.withUsers (db.users.set id (data.apply row)), data.apply row)

/- `findMany({ where: { reviewedId }, select: { rating } })`. -/
def ratings (db : Tables) (user : Id) : List Int :=
  (db.reviews.rows.filter (fun row => row.2.reviewedId = user)).map (fun row => row.2.rating)

end Prisma

/-- The calls that the reviews module adds. -/
inductive ReviewCall where
  | findById (id : Id)
  | findByOrderId (orderId : Id)
  | create (id : Id) (now : Date) (data : ReviewCreateInput)
  | update (id : Id) (data : UpdateReviewDto)
  | delete (id : Id)
  | findRatings (userId : Id)
  | userUpdateTrust (id : Id) (data : TrustInput)

def ReviewCall.Result : ReviewCall → Type
  | .findById _ => Option Review
  | .findByOrderId _ => Option (Id × Review)
  | .create _ _ _ => Review
  | .update _ _ => Review
  | .delete _ => Review
  | .findRatings _ => List Int
  | .userUpdateTrust _ _ => User

abbrev ReviewCall.Reply (c : ReviewCall) : Type := Except PrismaError c.Result

def Tables.execReview (db : Tables) : (c : ReviewCall) → Tables × c.Reply
  | .findById id => (db, .ok (db.reviews.find? id))
  | .findByOrderId orderId => (db, .ok (db.reviews.findBy (fun r => r.orderId = orderId)))
  | .create id now data => commit db (Prisma.reviewCreate db id now data)
  | .update id data => commit db (Prisma.reviewUpdate db id data)
  | .delete id => commit db (Prisma.reviewDelete db id)
  | .findRatings userId => (db, .ok (Prisma.ratings db userId))
  | .userUpdateTrust id data => commit db (Prisma.userUpdateTrust db id data)

/-! The trust score, in exact arithmetic. -/

/-- `Math.round`. -/
def jsRound (q : Rat) : Int := (q + 1 / 2).floor

/- `Math.round(x * 10) / 10`. -/
def oneDecimal (q : Rat) : Rat := (jsRound (q * 10) : Rat) / 10

structure TrustScore where
  trustScore : Rat
  averageRating : Rat
  totalReviews : Nat
  ratingDistribution : List (Int × Nat)
  deriving DecidableEq

def distribution (ratings : List Int) : List (Int × Nat) :=
  [1, 2, 3, 4, 5].map (fun n => (n, ratings.count n))

/-- What `calculateTrustScore` makes of the ratings it reads. -/
def TrustScore.of (ratings : List Int) : TrustScore :=
  let totalReviews := ratings.length
  if totalReviews = 0 then
    { trustScore := 0
      averageRating := 0
      totalReviews := 0
      ratingDistribution := distribution [] }
  else
    let averageRating : Rat := ratings.sum / totalReviews
    let ratingScore := averageRating / 5 * 80
    let reviewCountBonus := min ((totalReviews : Rat) / 50) 1 * 20
    { trustScore := oneDecimal (ratingScore + reviewCountBonus)
      averageRating := oneDecimal averageRating
      totalReviews := totalReviews
      ratingDistribution := distribution ratings }

def TrustScore.toInput (score : TrustScore) : TrustInput :=
  { trustScore := score.trustScore
    rating := score.averageRating
    ratingCount := score.totalReviews }

/-! What an accepted write did, and that it keeps the references good. -/

namespace Prisma

variable {db db' : Tables} {id : Id} {now : Date}

theorem reviewCreate_ok {data : ReviewCreateInput} {row : Review}
    (h : reviewCreate db id now data = .ok (db', row)) :
    ∃ images, row = data.row images now ∧ db.reviews.find? id = none ∧
      orderReviewed db data.order = false ∧ db.orders.has data.order = true ∧
      db.users.has data.reviewer = true ∧ db.users.has data.reviewed = true ∧
      db' = db.withReviews (db.reviews.insert id row) := by
  unfold reviewCreate at h
  split at h
  · cases h
  · rename_i images _
    split at h
    · cases h
    · rename_i linked
      split at h
      · cases h
      · rename_i free
        cases h
        simp only [Bool.or_eq_true, Bool.not_eq_true', not_or, Bool.not_eq_false] at linked
        simp only [Bool.or_eq_true, not_or] at free
        exact ⟨images, rfl, Table.not_has_iff.mp free.1, Bool.eq_false_iff.mpr free.2, linked.1.1,
          linked.1.2, linked.2, rfl⟩

theorem reviewUpdate_ok {data : UpdateReviewDto} {new : Review}
    (h : reviewUpdate db id data = .ok (db', new)) :
    ∃ old, db.reviews.find? id = some old ∧ data.apply old = some new ∧
      db' = db.withReviews (db.reviews.set id new) := by
  unfold reviewUpdate at h
  split at h
  · cases h
  · rename_i old found
    split at h
    · cases h
    · rename_i made
      cases h
      exact ⟨old, found, made, rfl⟩

theorem reviewDelete_ok {row : Review} (h : reviewDelete db id = .ok (db', row)) :
    db.reviews.find? id = some row ∧ db' = db.withReviews (db.reviews.erase id) := by
  unfold reviewDelete at h
  split at h
  · cases h
  · rename_i found
    cases h
    exact ⟨found, rfl⟩

theorem userUpdateTrust_ok {data : TrustInput} {new : User}
    (h : userUpdateTrust db id data = .ok (db', new)) :
    ∃ old, db.users.find? id = some old ∧ new = data.apply old ∧
      db' = db.withUsers (db.users.set id new) := by
  unfold userUpdateTrust at h
  split at h
  · cases h
  · rename_i old found
    cases h
    exact ⟨old, found, rfl, rfl⟩

end Prisma

theorem UpdateReviewDto.apply_keeps {data : UpdateReviewDto} {row new : Review}
    (h : data.apply row = some new) :
    new.orderId = row.orderId ∧ new.reviewerId = row.reviewerId ∧
      new.reviewedId = row.reviewedId := by
  simp only [UpdateReviewDto.apply, Option.bind_eq_bind, Option.bind_eq_some_iff] at h
  obtain ⟨rating, _, images, _, made⟩ := h
  cases made
  exact ⟨rfl, rfl, rfl⟩

theorem UpdateReviewDto.apply_rating {data : UpdateReviewDto} {row new : Review}
    (h : data.apply row = some new) :
    data.rating = .undefined ∧ new.rating = row.rating ∨
      ∃ rating : Rating, data.rating = .value rating ∧ new.rating = rating.val := by
  simp only [UpdateReviewDto.apply, Option.bind_eq_bind, Option.bind_eq_some_iff] at h
  obtain ⟨rating, asked, images, _, made⟩ := h
  cases made
  cases same : data.rating with
  | undefined =>
    rw [same] at asked
    exact Or.inl ⟨rfl, (Option.some.inj asked).symm⟩
  | null =>
    rw [same] at asked
    cases asked
  | value rating =>
    rw [same] at asked
    exact Or.inr ⟨rating, rfl, (Option.some.inj asked).symm⟩

namespace Linked

variable {t t' : Tables} {id : Id} {now : Date}

theorem with_reviews (h : Linked t) (reviews : Table Id Review)
    (review : ∀ r row, reviews.find? r = some row → t.orders.has row.orderId = true ∧
      t.users.has row.reviewerId = true ∧ t.users.has row.reviewedId = true) :
    Linked (t.withReviews reviews) where
  parent := h.parent
  product := h.product
  order := h.order
  review := review

theorem reviewCreate (h : Linked t) {data : ReviewCreateInput} {row : Review}
    (ok : Prisma.reviewCreate t id now data = .ok (t', row)) : Linked t' := by
  obtain ⟨images, rfl, _, _, order, reviewer, reviewed, rfl⟩ := Prisma.reviewCreate_ok ok
  refine h.with_reviews _ (fun r row found => ?_)
  rcases Table.find?_insert_cases found with before | ⟨_, rfl⟩
  · exact h.review r row before
  · exact ⟨order, reviewer, reviewed⟩

theorem reviewUpdate (h : Linked t) {data : UpdateReviewDto} {new : Review}
    (ok : Prisma.reviewUpdate t id data = .ok (t', new)) : Linked t' := by
  obtain ⟨old, found, made, rfl⟩ := Prisma.reviewUpdate_ok ok
  refine h.with_reviews _ (fun r row there => ?_)
  rcases Table.find?_set_cases there with before | ⟨_, rfl⟩
  · exact h.review r row before
  · obtain ⟨order, reviewer, reviewed⟩ := UpdateReviewDto.apply_keeps made
    rw [order, reviewer, reviewed]
    exact h.review id old found

theorem reviewDelete (h : Linked t) {row : Review}
    (ok : Prisma.reviewDelete t id = .ok (t', row)) : Linked t' := by
  obtain ⟨_, rfl⟩ := Prisma.reviewDelete_ok ok
  refine h.with_reviews _ (fun r row there => ?_)
  rw [Table.find?_erase] at there
  split at there
  · cases there
  · exact h.review r row there

theorem userUpdateTrust (h : Linked t) {data : TrustInput} {new : User}
    (ok : Prisma.userUpdateTrust t id data = .ok (t', new)) : Linked t' := by
  obtain ⟨old, _, _, rfl⟩ := Prisma.userUpdateTrust_ok ok
  exact h.of_keys rfl (fun u has => (Table.has_set _ id new u).trans has) (fun _ has => has)
    (fun _ has => has) rfl h.product h.order

theorem execReview (h : Linked t) (c : ReviewCall) : Linked (t.execReview c).1 := by
  cases c with
  | create id now data => exact h.commit (fun _ _ => h.reviewCreate)
  | update id data => exact h.commit (fun _ _ => h.reviewUpdate)
  | delete id => exact h.commit (fun _ _ => h.reviewDelete)
  | userUpdateTrust id data => exact h.commit (fun _ _ => h.userUpdateTrust)
  | _ => exact h

end Linked

def execReview (c : ReviewCall) (db : Db) : Db × c.Reply :=
  (⟨(db.toTables.execReview c).1, db.linked.execReview c⟩, (db.toTables.execReview c).2)

abbrev ReviewReq (A : Type) : Type :=
  Request (Call ⊕ ReviewCall) (Sum.elim Call.Reply ReviewCall.Reply) ApiError A

/-- A request of the other modules, made from here. -/
def shop {A : Type} (p : Req A) : ReviewReq A := p.left id

def settleReview {A : Type} : Except PrismaError A → ReviewReq A
  | .ok result => .done result
  | .error e => .fail (.database e)

def awaitReview (c : ReviewCall) : ReviewReq c.Result := .call (.inr c) settleReview

namespace ReviewsRepository

def create (id : Id) (now : Date) (data : ReviewCreateInput) : ReviewReq Review :=
  awaitReview (.create id now data)

def findById (id : Id) : ReviewReq (Option Review) := awaitReview (.findById id)

def findByOrderId (orderId : Id) : ReviewReq (Option (Id × Review)) :=
  awaitReview (.findByOrderId orderId)

def update (id : Id) (data : UpdateReviewDto) : ReviewReq Review := awaitReview (.update id data)

def delete (id : Id) : ReviewReq Review := awaitReview (.delete id)

def calculateTrustScore (userId : Id) : ReviewReq TrustScore := do
  let reviews ← awaitReview (.findRatings userId)
  return TrustScore.of reviews

def updateUserTrustScore (userId : Id) : ReviewReq Unit := do
  let score ← calculateTrustScore userId
  let _ ← awaitReview (.userUpdateTrust userId score.toInput)

end ReviewsRepository

/- The reviewer is one party of the order; the reviewed user is the other. -/
def CreateReviewDto.toInput (dto : CreateReviewDto) (userId : Id) (order : Order) :
    ReviewCreateInput :=
  { rating := dto.rating
    comment := dto.comment
    images := dto.images.orDefault []
    order := dto.orderId
    reviewer := userId
    reviewed := if order.buyerId = userId then order.sellerId else order.buyerId }

namespace ReviewsService

def create (userId : Id) (dto : CreateReviewDto) (id : Id) (now : Date) : ReviewReq Review := do
  let some order ← shop (OrdersRepository.findById dto.orderId)
    | throw (.notFound "주문을 찾을 수 없습니다")
  if order.status ≠ .confirmed ∧ order.status ≠ .delivered then
    throw (.badRequest "완료된 주문에만 리뷰를 작성할 수 있습니다")
  if order.buyerId ≠ userId ∧ order.sellerId ≠ userId then
    throw (.forbidden "이 주문에 대한 리뷰를 작성할 권한이 없습니다")
  let existingReview ← ReviewsRepository.findByOrderId dto.orderId
  if existingReview.isSome then
    throw (.badRequest "이미 리뷰가 작성된 주문입니다")
  let data := dto.toInput userId order
  let review ← ReviewsRepository.create id now data
  ReviewsRepository.updateUserTrustScore data.reviewed
  return review

def findOne (id : Id) : ReviewReq Review := do
  let some review ← ReviewsRepository.findById id
    | throw (.notFound "리뷰를 찾을 수 없습니다")
  return review

def findByOrderId (orderId : Id) : ReviewReq (Option (Id × Review)) := do
  let _ ← shop (OrdersService.findById orderId)
  ReviewsRepository.findByOrderId orderId

def getTrustScore (userId : Id) : ReviewReq TrustScore := do
  let some _ ← shop (UsersRepository.findById userId)
    | throw (.notFound "사용자를 찾을 수 없습니다")
  ReviewsRepository.calculateTrustScore userId

/- Only a rating that was sent, be it null, makes the score be computed again. -/
def update (id userId : Id) (dto : UpdateReviewDto) : ReviewReq Review := do
  let some review ← ReviewsRepository.findById id
    | throw (.notFound "리뷰를 찾을 수 없습니다")
  if review.reviewerId ≠ userId then
    throw (.forbidden "리뷰를 수정할 권한이 없습니다")
  let updatedReview ← ReviewsRepository.update id dto
  if dto.rating ≠ .undefined then
    ReviewsRepository.updateUserTrustScore review.reviewedId
  return updatedReview

def remove (id userId : Id) : ReviewReq Review := do
  let some review ← ReviewsRepository.findById id
    | throw (.notFound "리뷰를 찾을 수 없습니다")
  if review.reviewerId ≠ userId then
    throw (.forbidden "리뷰를 삭제할 권한이 없습니다")
  let deletedReview ← ReviewsRepository.delete id
  ReviewsRepository.updateUserTrustScore review.reviewedId
  return deletedReview

end ReviewsService

inductive ReviewOp where
  | create (userId : Id) (dto : CreateReviewDto) (id : Id) (now : Date)
  | findOne (id : Id)
  | findByOrderId (orderId : Id)
  | getTrustScore (userId : Id)
  | update (id userId : Id) (dto : UpdateReviewDto)
  | remove (id userId : Id)

inductive ReviewResponse where
  | shop (response : Response)
  | review (review : Review)
  | found (review : Option (Id × Review))
  | trustScore (userId : Id) (score : TrustScore)

def ReviewOp.program : ReviewOp → ReviewReq ReviewResponse
  | .create userId dto id now => .review <$> ReviewsService.create userId dto id now
  | .findOne id => .review <$> ReviewsService.findOne id
  | .findByOrderId orderId => .found <$> ReviewsService.findByOrderId orderId
  | .getTrustScore userId => .trustScore userId <$> ReviewsService.getTrustScore userId
  | .update id userId dto => .review <$> ReviewsService.update id userId dto
  | .remove id userId => .review <$> ReviewsService.remove id userId

def marketProgram : Op ⊕ ReviewOp → ReviewReq ReviewResponse
  | .inl op => .shop <$> shop op.program
  | .inr op => op.program

/-- The operations on reviews among those of the other modules. -/
def reviewService : Service Db (Op ⊕ ReviewOp) (Call ⊕ ReviewCall)
    (Sum.elim Call.Reply ReviewCall.Reply) ApiError ReviewResponse :=
  ⟨either exec execReview, marketProgram⟩

end SecondhandApi
