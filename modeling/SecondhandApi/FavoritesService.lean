import SecondhandApi.Interleaving.Sum
import SecondhandApi.Operations

/-! `src/modules/favorites`: the service with the queries of its repository, among the operations
of the market. -/
namespace SecondhandApi
open Keyed Interleaving

structure Favorite where
  userId : Id
  productId : Id
  createdAt : Date
  deriving DecidableEq

def Favorite.of (f : Favorite) (userId productId : Id) : Bool :=
  f.userId = userId && f.productId = productId

/-- The payload of `product.liked`. -/
structure ProductLiked where
  favoriteId : Id
  productId : Id
  userId : Id
  sellerId : Id
  deriving DecidableEq

/-- The tables of the market, the table of favorites and the events that were emitted. -/
structure Likes where
  db : Db
  favorites : Table Id Favorite
  liked : List ProductLiked

inductive FavoriteCall where
  | create (id : Id) (now : Date) (userId productId : Id)
  | count (userId productId : Id)
  | deleteMany (userId productId : Id)
  | emit (event : ProductLiked)

abbrev FavoriteCall.Reply : FavoriteCall → Type
  | create _ _ _ _ => Except PrismaError Favorite
  | count _ _ => Except PrismaError Nat
  | deleteMany _ _ => Except PrismaError Nat
  | emit _ => Unit

namespace Likes

def onDb (c : Call) (s : Likes) : Likes × c.Reply :=
  ({ s with db := (exec c s.db).1 }, (exec c s.db).2)

def execFavorite : (c : FavoriteCall) → Likes → Likes × c.Reply
  | .create id now userId productId, s =>
    if !s.db.users.has userId || !s.db.products.has productId then (s, .error .restricted)
    else if s.favorites.has id || s.favorites.any (fun _ f => f.of userId productId) then
      (s, .error .uniqueViolation)
    else
      let row : Favorite := ⟨userId, productId, now⟩
      ({ s with favorites := s.favorites.insert id row }, .ok row)
  | .count userId productId, s =>
    (s, .ok (s.favorites.rows.countP fun row => row.2.of userId productId))
  | .deleteMany userId productId, s =>
    ({ s with favorites := s.favorites.eraseAll fun _ f => f.of userId productId },
      .ok (s.favorites.rows.countP fun row => row.2.of userId productId))
  | .emit event, s => ({ s with liked := s.liked ++ [event] }, ())

end Likes

abbrev LikesCall : Type := Call ⊕ FavoriteCall

abbrev LikesCall.Reply : LikesCall → Type := Sum.elim Call.Reply FavoriteCall.Reply

abbrev LikesReq (A : Type) : Type := Request LikesCall LikesCall.Reply ApiError A

def Likes.exec : (c : LikesCall) → Likes → Likes × c.Reply := either onDb execFavorite

namespace FavoritesRepository

def create (id : Id) (now : Date) (userId productId : Id) : LikesReq Favorite :=
  .call (.inr (.create id now userId productId)) fun
    | .ok favorite => .done favorite
    | .error e => .fail (.database e)

def exist (userId productId : Id) : LikesReq Bool :=
  .call (.inr (.count userId productId)) fun
    | .ok count => .done (0 < count)
    | .error e => .fail (.database e)

def delete (userId productId : Id) : LikesReq Nat :=
  .call (.inr (.deleteMany userId productId)) fun
    | .ok count => .done count
    | .error e => .fail (.database e)

end FavoritesRepository

namespace FavoritesService

def emit (event : ProductLiked) : LikesReq Unit := .call (.inr (.emit event)) .done

def addFavorite (userId productId favoriteId : Id) (now : Date) :
    LikesReq Favorite := do
  let product ← (ProductsService.findById productId).left id
  if product.sellerId = userId then
    throw (.badRequest "본인 상품은 찜할 수 없습니다")
  let isExist ← FavoritesRepository.exist userId productId
  if isExist then
    throw (.conflict "이미 찜한 상품입니다")
  let favorite ← FavoritesRepository.create favoriteId now userId productId
  emit ⟨favoriteId, productId, userId, product.sellerId⟩
  return favorite

def checkFavorite (userId productId : Id) : LikesReq Bool :=
  FavoritesRepository.exist userId productId

def removeFavorite (userId productId : Id) : LikesReq Unit := do
  let count ← FavoritesRepository.delete userId productId
  if count = 0 then
    throw (.notFound "찜한 상품이 아닙니다")

end FavoritesService

inductive LikesOp where
  | market (op : Op)
  | addFavorite (userId productId id : Id) (now : Date)
  | checkFavorite (userId productId : Id)
  | removeFavorite (userId productId : Id)

inductive LikesResponse where
  | market (response : Response)
  | favorite (favorite : Favorite)
  | isFavorite (isFavorite : Bool)
  | removed

def LikesOp.program : LikesOp → LikesReq LikesResponse
  | .market op => .market <$> op.program.left id
  | .addFavorite userId productId id now =>
    .favorite <$> FavoritesService.addFavorite userId productId id now
  | .checkFavorite userId productId => .isFavorite <$> FavoritesService.checkFavorite userId productId
  | .removeFavorite userId productId =>
    (fun _ => .removed) <$> FavoritesService.removeFavorite userId productId

def likesService : Service Likes LikesOp LikesCall LikesCall.Reply ApiError LikesResponse :=
  ⟨Likes.exec, LikesOp.program⟩

end SecondhandApi
