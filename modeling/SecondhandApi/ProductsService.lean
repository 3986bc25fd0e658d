import SecondhandApi.Repositories

/-! `src/modules/products/products.service.ts`: the operations on one product. -/
namespace SecondhandApi
open Interleaving

structure CreateProductDto where
  title : String
  description : String
  price : Rat
  categoryId : Id
  condition : ProductCondition
  images : Field (List String) := .undefined
  latitude : Field Rat := .undefined
  longitude : Field Rat := .undefined
  location : Field String := .undefined

structure UpdateProductDto where
  title : Field String := .undefined
  description : Field String := .undefined
  price : Field Rat := .undefined
  categoryId : Field Id := .undefined
  condition : Field ProductCondition := .undefined
  status : Field ProductStatus := .undefined
  images : Field (List String) := .undefined
  latitude : Field Rat := .undefined
  longitude : Field Rat := .undefined
  location : Field String := .undefined

/- Truth of a number, of a string, and of an enum word or an array. -/
def nonzero (q : Rat) : Bool := decide (q ≠ 0)

def nonempty (s : String) : Bool := decide (s ≠ "")

def always {A : Type} (_ : A) : Bool := true

/- One of the two coordinates without the other; zero counts as absent. -/
def oneCoordinate (latitude longitude : Field Rat) : Bool :=
  latitude.isTruthy nonzero != longitude.isTruthy nonzero

/- The row that `create` asks for; `images || []`. -/
def CreateProductDto.toInput (dto : CreateProductDto) (sellerId : Id) : ProductCreateInput :=
  { title := dto.title
    description := dto.description
    price := dto.price
    condition := dto.condition
    images := match dto.images with
      | .value images => images
      | _ => []
    latitude := dto.latitude
    longitude := dto.longitude
    location := dto.location
    seller := sellerId
    category := dto.categoryId }

namespace ProductsService

def create (sellerId : Id) (dto : CreateProductDto) (id : Id) (now : Date) : Req Product := do
  if oneCoordinate dto.latitude dto.longitude then
    throw (.badRequest "위도와 경도는 함께 제공되어야 합니다")
  ProductsRepository.create id now (dto.toInput sellerId)

/- The failure of the increment is ignored. The source does not wait for it before it answers; here
the request ends with it. -/
def findById (id : Id) : Req Product := do
  let some product ← ProductsRepository.findById id
    | throw (.notFound "상품을 찾을 수 없습니다")
  tryCatch (do let _ ← ProductsRepository.incrementViewCount id) (fun _ => return ())
  return product

/- The spreads of `update`: which of the properties are written. -/
def changes (dto : UpdateProductDto) : ProductUpdateInput :=
  { title := dto.title.ifTruthy nonempty
    description := dto.description.ifTruthy nonempty
    price := dto.price
    condition := dto.condition.ifTruthy always
    status := dto.status.ifTruthy always
    images := dto.images.ifTruthy always
    latitude := dto.latitude
    longitude := dto.longitude
    location := dto.location
    category := dto.categoryId.ifTruthy nonempty }

def update (id userId : Id) (dto : UpdateProductDto) : Req Product := do
  let some product ← ProductsRepository.findById id
    | throw (.notFound "상품을 찾을 수 없습니다")
  if product.sellerId ≠ userId then
    throw (.forbidden "본인의 상품만 수정할 수 있습니다")
  if product.status = .deleted then
    throw (.badRequest "삭제된 상품은 수정할 수 없습니다")
  if oneCoordinate dto.latitude dto.longitude then
    throw (.badRequest "위도와 경도는 함께 제공되어야 합니다")
  ProductsRepository.update id (changes dto)

def remove (id userId : Id) : Req Product := do
  let some product ← ProductsRepository.findById id
    | throw (.notFound "상품을 찾을 수 없습니다")
  if product.sellerId ≠ userId then
    throw (.forbidden "본인의 상품만 삭제할 수 있습니다")
  if product.status = .deleted then
    throw (.badRequest "이미 삭제된 상품입니다")
  ProductsRepository.softDelete id

def ensureProductExists (productId : Id) : Req Unit := do
  let some _ ← ProductsRepository.findById productId
    | throw (.notFound "상품을 찾을 수 없습니다")

end ProductsService

end SecondhandApi
