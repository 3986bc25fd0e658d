import SecondhandApi.Repositories

/-! `src/modules/orders/orders.service.ts`, method by method. -/
namespace SecondhandApi
open Interleaving

structure CreateOrderDto where
  productId : Id
  totalAmount : Nat
  shippingFee : Field Nat := .undefined
  recipientName : Field String := .undefined
  recipientPhone : Field String := .undefined
  shippingAddress : Field String := .undefined
  shippingPostcode : Field String := .undefined
  paymentMethod : Field PaymentMethod := .undefined

/- The row that `create` asks for; a missing shipping fee is zero. -/
def CreateOrderDto.toInput (dto : CreateOrderDto) (buyerId sellerId : Id) (orderNumber : String) :
    OrderCreateInput :=
  { orderNumber := orderNumber
    totalAmount := dto.totalAmount
    shippingFee := dto.shippingFee.orDefault 0
    buyer := buyerId
    seller := sellerId
    product := dto.productId
    recipientName := dto.recipientName
    recipientPhone := dto.recipientPhone
    shippingAddress := dto.shippingAddress
    shippingPostcode := dto.shippingPostcode
    paymentMethod := dto.paymentMethod }

structure UpdateOrderDto where
  status : Field OrderStatus := .undefined
  recipientName : Field String := .undefined
  recipientPhone : Field String := .undefined
  shippingAddress : Field String := .undefined
  shippingPostcode : Field String := .undefined
  trackingNumber : Field String := .undefined
  paymentMethod : Field PaymentMethod := .undefined
  paymentId : Field String := .undefined

def UpdateOrderDto.toInput (dto : UpdateOrderDto) : OrderUpdateInput :=
  { status := dto.status
    recipientName := dto.recipientName
    recipientPhone := dto.recipientPhone
    shippingAddress := dto.shippingAddress
    shippingPostcode := dto.shippingPostcode
    trackingNumber := dto.trackingNumber
    paymentMethod := dto.paymentMethod
    paymentId := dto.paymentId }

/-- What a creation takes from outside the request: the new id, the clock, the draws. -/
structure NewOrder where
  id : Id
  now : Date
  draws : List Draw

namespace OrdersService

def create (buyerId : Id) (dto : CreateOrderDto) (new : NewOrder) : Req Order := do
  let some product ← ProductsRepository.findById dto.productId
    | throw (.notFound "상품을 찾을 수 없습니다")
  if product.status ≠ .active then
    throw (.badRequest "판매 중인 상품이 아닙니다")
  if product.sellerId = buyerId then
    throw (.badRequest "자신의 상품은 구매할 수 없습니다")
  let orderNumber ← OrdersRepository.generateOrderNumber new.draws
  let order ← OrdersRepository.create new.id new.now
    (dto.toInput buyerId product.sellerId orderNumber)
  let _ ← ProductsRepository.update dto.productId { status := .value .reserved }
  return order

def findById (id : Id) : Req Order := do
  let some order ← OrdersRepository.findById id
    | throw (.notFound "주문을 찾을 수 없습니다")
  return order

def findOne (id userId : Id) : Req Order := do
  let order ← findById id
  if order.buyerId ≠ userId ∧ order.sellerId ≠ userId then
    throw (.forbidden "주문 정보에 접근할 수 없습니다")
  return order

/- The tables of `validateStatusTransition` and of `cancel`. -/
def allowedTransitions : OrderStatus → List OrderStatus
  | .pending => [.paymentPending, .cancelled]
  | .paymentPending => [.paid, .cancelled]
  | .paid => [.shipping, .refunded]
  | .shipping => [.delivered]
  | .delivered => [.confirmed, .refunded]
  | .confirmed => []
  | .cancelled => []
  | .refunded => []

def sellerOnlyStatus : List OrderStatus := [.shipping, .delivered]

def buyerOnlyStatus : List OrderStatus := [.confirmed, .cancelled]

def cancellableStatuses : List OrderStatus := [.pending, .paymentPending, .paid]

def validateStatusTransition (currentStatus newStatus : OrderStatus) (userId : Id)
    (order : Order) : Except ApiError Unit :=
  if newStatus ∉ allowedTransitions currentStatus then
    .error (.badRequest (currentStatus.word ++ "에서 " ++ newStatus.word ++ "로 변경할 수 없습니다"))
  else if newStatus ∈ sellerOnlyStatus ∧ order.sellerId ≠ userId then
    .error (.forbidden "판매자만 이 상태로 변경할 수 있습니다")
  else if newStatus ∈ buyerOnlyStatus ∧ order.buyerId ≠ userId then
    .error (.forbidden "구매자만 이 상태로 변경할 수 있습니다")
  else .ok ()

/- The check of `update` on the requested status; an absent or null one is not checked. -/
def validateStatus (order : Order) (userId : Id) : Field OrderStatus → Except ApiError Unit
  | .value newStatus => validateStatusTransition order.status newStatus userId order
  | _ => .ok ()

def update (id userId : Id) (dto : UpdateOrderDto) : Req Order := do
  let some order ← OrdersRepository.findById id
    | throw (.notFound "주문을 찾을 수 없습니다")
  if order.buyerId ≠ userId ∧ order.sellerId ≠ userId then
    throw (.forbidden "주문 정보를 수정할 수 없습니다")
  throwing (validateStatus order userId dto.status)
  OrdersRepository.update id dto.toInput

/- What `cancel` and `confirm` differ in: two messages, the statuses they take an order
from, the one they take it to, and what they write of the product. -/
structure Closing where
  forbidden : String
  badRequest : String
  opens : List OrderStatus
  status : OrderStatus
  sale : ProductUpdateInput

def close (closing : Closing) (id userId : Id) (now : Date) : Req Order := do
  let some order ← OrdersRepository.findById id
    | throw (.notFound "주문을 찾을 수 없습니다")
  if order.buyerId ≠ userId then
    throw (.forbidden closing.forbidden)
  if order.status ∉ closing.opens then
    throw (.badRequest closing.badRequest)
  let closedOrder ← OrdersRepository.updateStatus id closing.status now
  let _ ← ProductsRepository.update order.productId closing.sale
  return closedOrder

def cancelling : Closing :=
  { forbidden := "주문을 취소할 수 없습니다"
    badRequest := "취소할 수 없는 주문 상태입니다"
    opens := cancellableStatuses
    status := .cancelled
    sale := { status := .value .active } }

def cancel (id userId : Id) (now : Date) : Req Order := close cancelling id userId now

/- `confirm` reads the clock twice: for `confirmedAt` and for `soldAt`. -/
def confirming (soldAt : Date) : Closing :=
  { forbidden := "주문을 확정할 수 없습니다"
    badRequest := "확정할 수 없는 주문 상태입니다"
    opens := [.delivered]
    status := .confirmed
    sale := { status := .value .sold, soldAt := .value soldAt } }

def confirm (id userId : Id) (now soldAt : Date) : Req Order :=
  close (confirming soldAt) id userId now

def remove (id : Id) : Req Order := do
  let some _ ← OrdersRepository.findById id
    | throw (.notFound "주문을 찾을 수 없습니다")
  OrdersRepository.delete id

def hasOngoingOrdersByUserId (userId : Id) : Req Bool := do
  let ongoingOrders ← OrdersRepository.findMany userId
  return ongoingOrders.any
    (fun status => status = .paid || status = .shipping || status = .delivered)

end OrdersService

end SecondhandApi
