import SecondhandApi.MessagesTables
import SecondhandApi.ProductsService
import SecondhandApi.Interleaving.Sum

/-! `src/modules/messages`: the repository and the service of the PostgreSQL chat, method by
method. -/
namespace SecondhandApi
open Keyed Interleaving
open Messages (ChatMessage ChatRoomMember RoomRecord MessageCreateInput)

abbrev MessagesReq (A : Type) : Type :=
  Request (Call ⊕ MessagesCall) (Sum.elim Call.Reply MessagesCall.Reply) ApiError A

/-- A request of the other modules, made from here. -/
def fromShop {A : Type} (p : Req A) : MessagesReq A := p.left id

def settleMessages {A : Type} : Except PrismaError A → MessagesReq A
  | .ok result => .done result
  | .error e => .fail (.database e)

def awaitMessages (c : MessagesCall) : MessagesReq c.Result := .call (.inr c) settleMessages

/-- What a new room draws: its id, those of its two member rows, and the clock. -/
structure NewRoom where
  id : Id
  memberIds : Id × Id
  now : Date

/- What `@IsInt` and `@Min(1)` let through. -/
abbrev PageNumber := { n : Nat // 1 ≤ n }

structure MessagePage where
  message : List (Id × ChatMessage)
  total : Nat
  page : Nat
  limit : Nat
  totalPages : Nat

namespace MessageRepository

/- Answers the room and whether it is new. -/
def findOrCreateChatRoom (userId productId : Id) (new : NewRoom) :
    MessagesReq (RoomRecord × Bool) := do
  let existingRoom ← awaitMessages (.findRoomOf productId userId)
  match existingRoom with
  | some room => return (room, false)
  | none =>
    let some product ← fromShop (await (.productFindById productId))
      | throw (.notFound "상품을 찾을 수 없습니다.")
    let newRoom ← awaitMessages (.createRoom new.id new.now productId (new.memberIds.1, userId)
      (new.memberIds.2, product.sellerId))
    return (newRoom, true)

def createMessage (data : MessageCreateInput) (id : Id) (now : Date) :
    MessagesReq (Id × ChatMessage) :=
  awaitMessages (.createMessage id now data)

def findChatRoomsByUserId (userId : Id) : MessagesReq (List (Id × ChatRoomMember)) :=
  awaitMessages (.findMemberships userId)

def findMessagesByRoomId (chatRoomId : Id) (page : PageNumber) (ties : Id → Nat)
    (limit : Nat := 50) : MessagesReq MessagePage := do
  let skip := (page.val - 1) * limit
  let messages : List (Id × ChatMessage) ← awaitMessages (.findMessages chatRoomId skip limit ties)
  let total : Nat ← awaitMessages (.countMessages chatRoomId)
  return ⟨messages.reverse, total, page, limit, (total + limit - 1) / limit⟩

def markMessagesAsRead (chatRoomId userId : Id) (readAt lastReadAt : Date) : MessagesReq Unit := do
  awaitMessages (.markMessages chatRoomId userId readAt)
  awaitMessages (.markMember chatRoomId userId lastReadAt)

def getUnreadCount (chatRoomId userId : Id) : MessagesReq Nat :=
  awaitMessages (.countUnread chatRoomId userId)

def findChatRoomById (chatRoomId : Id) : MessagesReq (Option RoomRecord) :=
  awaitMessages (.findRoomById chatRoomId)

def updateChatRoomTimestamp (chatRoomId : Id) (now : Date) : MessagesReq Unit :=
  awaitMessages (.touchRoom chatRoomId now)

def leaveChatRoom (chatRoomId userId : Id) : MessagesReq Unit := do
  awaitMessages (.deleteMembers chatRoomId userId)
  let remainingMembers : Nat ← awaitMessages (.countMembers chatRoomId)
  if remainingMembers = 0 then
    awaitMessages (.deleteRoom chatRoomId)

end MessageRepository

structure ChatroomCreatedEvent where
  chatRoomId : Id
  productId : Id
  buyerId : Id
  sellerId : Id

structure MessageCreatedEvent where
  chatRoomId : Id
  messageId : Id
  senderId : Id
  recipientIds : List Id

def Messages.RoomRecord.hasMember (room : RoomRecord) (userId : Id) : Bool :=
  room.members.any (fun row => row.2.userId = userId)

namespace MessagesService

/- The check that four of the methods begin with, each with its own words. -/
def memberRoom (missing denied : String) (chatRoomId userId : Id) : MessagesReq RoomRecord := do
  let some chatRoom ← MessageRepository.findChatRoomById chatRoomId
    | throw (.notFound missing)
  if !chatRoom.hasMember userId then
    throw (.forbidden denied)
  return chatRoom

def findOrCreateChatRoom (userId productId : Id) (new : NewRoom) :
    MessagesReq (RoomRecord × Option ChatroomCreatedEvent) := do
  let product ← fromShop (ProductsService.findById productId)
  if product.sellerId = userId then
    throw (.badRequest "본인 상품에는 채팅할 수 없습니다.")
  if product.status = .deleted then
    throw (.badRequest "삭제된 대화방 조회 시도")
  let chatRoom ← MessageRepository.findOrCreateChatRoom userId productId new
  return (chatRoom.1, if chatRoom.2 then
    some ⟨chatRoom.1.id, productId, userId, product.sellerId⟩ else none)

/- The message with the event that tells the other members of it. -/
def sendMessage (userId chatRoomId : Id) (content : String) (messageType : Field Messages.MessageType)
    (fileUrl fileName : Field String) (id : Id) (now touchedAt : Date) :
    MessagesReq ((Id × ChatMessage) × MessageCreatedEvent) := do
  let chatRoom ← memberRoom "채팅방을 찾을 수 없습니다." "채팅방 멤버만 메시지를 보낼 수 있습니다."
    chatRoomId userId
  let message ← MessageRepository.createMessage
    ⟨chatRoomId, userId, content, messageType, fileUrl, fileName⟩ id now
  MessageRepository.updateChatRoomTimestamp chatRoomId touchedAt
  let others := chatRoom.members.filter (fun row => row.2.userId ≠ userId)
  return (message, ⟨chatRoomId, message.1, userId, others.map (fun row => row.2.userId)⟩)

/- The rows are those of the memberships, and so is the id that the count is asked for. -/
def findMyChatRooms (userId : Id) : MessagesReq (List ((Id × ChatRoomMember) × Nat)) := do
  let chatRooms ← MessageRepository.findChatRoomsByUserId userId
  chatRooms.mapM (fun room => do
    let unreadCount ← MessageRepository.getUnreadCount room.1 userId
    return (room, unreadCount))

def findMessage (userId chatRoomId : Id) (page : PageNumber) (ties : Id → Nat) :
    MessagesReq MessagePage := do
  let _ ← memberRoom "채팅방을 찾을 수 없습니다" "채팅방 멤버만 조회 가능합니다." chatRoomId userId
  MessageRepository.findMessagesByRoomId chatRoomId page ties

def markAsRead (chatRoomId userId : Id) (readAt lastReadAt : Date) : MessagesReq Unit := do
  let _ ← memberRoom "채팅방을 찾을 수 없습니다." "권한이 없습니다." chatRoomId userId
  MessageRepository.markMessagesAsRead chatRoomId userId readAt lastReadAt

def leaveChatRoom (chatRoomId userId : Id) : MessagesReq Unit := do
  let _ ← memberRoom "채팅방을 찾을 수 없습니다." "권한이 없습니다." chatRoomId userId
  MessageRepository.leaveChatRoom chatRoomId userId

end MessagesService

/- An operation carries its caller, its arguments, new ids and the clock. -/
inductive MessagesOp where
  | findOrCreate (userId productId : Id) (new : NewRoom)
  | send (userId chatRoomId : Id) (content : String) (messageType : Field Messages.MessageType)
      (fileUrl fileName : Field String) (id : Id) (now touchedAt : Date)
  | findMyRooms (userId : Id)
  | findMessages (userId chatRoomId : Id) (page : PageNumber) (ties : Id → Nat)
  | markRead (chatRoomId userId : Id) (readAt lastReadAt : Date)
  | leave (chatRoomId userId : Id)

inductive MessagesResponse where
  | room (room : RoomRecord) (created : Option ChatroomCreatedEvent)
  | sent (message : Id × ChatMessage) (event : MessageCreatedEvent)
  | rooms (rooms : List ((Id × ChatRoomMember) × Nat))
  | messages (page : MessagePage)
  | done

def MessagesOp.program : MessagesOp → MessagesReq MessagesResponse
  | .findOrCreate userId productId new =>
    (fun answer => .room answer.1 answer.2) <$>
      MessagesService.findOrCreateChatRoom userId productId new
  | .send userId chatRoomId content messageType fileUrl fileName id now touchedAt =>
    (fun answer => .sent answer.1 answer.2) <$>
      MessagesService.sendMessage userId chatRoomId content messageType fileUrl fileName id now
        touchedAt
  | .findMyRooms userId => .rooms <$> MessagesService.findMyChatRooms userId
  | .findMessages userId chatRoomId page ties =>
    .messages <$> MessagesService.findMessage userId chatRoomId page ties
  | .markRead chatRoomId userId readAt lastReadAt =>
    (fun _ => .done) <$> MessagesService.markAsRead chatRoomId userId readAt lastReadAt
  | .leave chatRoomId userId => (fun _ => .done) <$> MessagesService.leaveChatRoom chatRoomId userId

def execBoard : (c : Call ⊕ MessagesCall) → MessagesStore →
    MessagesStore × Sum.elim Call.Reply MessagesCall.Reply c :=
  either (onFst exec) execMessages

def messagesService : Service MessagesStore MessagesOp (Call ⊕ MessagesCall)
    (Sum.elim Call.Reply MessagesCall.Reply) ApiError MessagesResponse :=
  ⟨execBoard, MessagesOp.program⟩

end SecondhandApi
