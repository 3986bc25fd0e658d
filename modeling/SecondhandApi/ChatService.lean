import SecondhandApi.Integrity
import SecondhandApi.UsersService
import SecondhandApi.Interleaving.Sum
import SecondhandApi.Events
import SecondhandApi.Mongo

/-! `src/modules/messages-mongo`: the repositories, the services and the handler of the last
message, method by method. Users and products are in the one database, rooms and messages
in the other. -/
namespace SecondhandApi
open Keyed Interleaving
open Mongo (ChatRoom Message MessageInput Participant Delivery)

/- `left` is the Error that `leaveChatroom` throws, with the one it caught:
"대화방 나가기 실패: " and its message. -/
inductive ChatError where
  | api (error : ApiError)
  | mongo (error : MongoError)
  | error (message : String)
  | left (cause : ChatError)
  deriving DecidableEq

abbrev ChatReq (A : Type) : Type :=
  Request (Call ⊕ MongoCall) (Sum.elim Call.Reply MongoCall.Reply) ChatError A

/-- A request of the other modules, made from here. -/
def prisma {A : Type} (p : Req A) : ChatReq A := p.left .api

def settleMongo {A : Type} : Except MongoError A → ChatReq A
  | .ok result => .done result
  | .error e => .fail (.mongo e)

def awaitMongo (c : MongoCall) : ChatReq c.Result := .call (.inr c) settleMongo

/-- `new Types.ObjectId(text)`, which throws before any call. -/
def newObjectId (text : String) : ChatReq ObjectId :=
  match ObjectId.ofHex text with
  | some id => return id
  | none => throw (.mongo .badObjectId)

/-- One execution of a handler: how its update ends, and the clock it reads. -/
structure Attempt where
  delivery : Delivery := .answered
  now : Date

namespace ChatRoomRepositoryMongo

/- Answers the room and whether it was made. -/
def findOrCreateChatRoom (senderId receiverId productId : Id) (now : Date) :
    ChatReq ((ObjectId × ChatRoom) × Bool) := do
  let chatRoom ← awaitMongo (.findRooms productId senderId receiverId)
  match chatRoom with
  | first :: _ => return (first, false)
  | [] =>
    let newChatRoom ← awaitMongo (.saveRoom productId senderId receiverId now)
    return (newChatRoom, true)

def findChatRoomById (chatRoomId : String) : ChatReq (Option ChatRoom) := do
  let id ← newObjectId chatRoomId
  awaitMongo (.findRoomById id)

def updateLastMessage (chatRoomId lastMessage : String) (lastMessageId : ObjectId)
    (attempt : Attempt) : ChatReq Unit := do
  let id ← newObjectId chatRoomId
  awaitMongo (.updateLastMessage id lastMessage lastMessageId attempt.now attempt.delivery)

/- The counts of the update tell whether the user was there. -/
def checkLeft (result : Mongo.UpdateResult) : ChatReq Unit := do
  if result.matchedCount = 0 then
    throw (.error "대화방을 찾을 수 없습니다")
  if result.modifiedCount = 0 then
    throw (.error "이미 나간 사용자입니다")

def markParticipantsAsLeft (chatRoomId : String) (userId : Id) (now : Date) : ChatReq Unit := do
  let id ← newObjectId chatRoomId
  let result ← awaitMongo (.markLeft id userId now)
  checkLeft result

def deleteChatRoom (chatRoomId : String) : ChatReq Unit := do
  let id ← newObjectId chatRoomId
  awaitMongo (.deleteRoom id)

end ChatRoomRepositoryMongo

namespace MessageRepositoryMongo

/- The document that `createMessage` inserts. -/
def newMessage (chatRoomId : String) (senderId receiverId : Id) (content : Field String)
    (messageType : Field MessageType) (fileUrl fileName : Option String) : MessageInput :=
  { conversationId := chatRoomId
    senderId := senderId
    receiverId := receiverId
    message := content
    messageType := (messageType.orDefault .text).orNull
    fileUrl := fileUrl
    fileName := fileName }

def createMessage (chatRoomId : String) (senderId receiverId : Id) (content : Field String)
    (messageType : Field MessageType) (fileUrl fileName : Option String) (now : Date) :
    ChatReq (ObjectId × Message) :=
  awaitMongo (.insertMessage
    (newMessage chatRoomId senderId receiverId content messageType fileUrl fileName) now)

def findMessagesByRoomId (chatRoomId : String) (pagination : PaginationOptions)
    (ties : ObjectId → Nat) : ChatReq (PaginatedResult (ObjectId × Message)) := do
  let skip := PaginationUtil.getSkip pagination.page pagination.limit
  let items ← awaitMongo (.findMessages chatRoomId skip pagination.limit pagination.sortBy
    pagination.sortOrder ties)
  let total ← awaitMongo (.countMessages chatRoomId)
  return PaginationUtil.paginate items total pagination.page pagination.limit

def markMessagesAsRead (chatRoomId : String) (receiverId : Id) (now : Date) : ChatReq Nat :=
  awaitMongo (.markRead chatRoomId receiverId now)

def countUnreadMessagesByRoomAndUser (chatRoomId : String) (userId : Id) : ChatReq Nat :=
  awaitMongo (.countUnread chatRoomId userId)

def deleteMessagesByChatRoomId (chatRoomId : String) : ChatReq Unit :=
  awaitMongo (.deleteMessages chatRoomId)

end MessageRepositoryMongo

namespace ChatRoomService

def findOrCreateChatroom (senderId receiverId productId : Id) (now : Date) :
    ChatReq ((ObjectId × ChatRoom) × Bool) := do
  prisma (UsersService.ensureUserExists senderId)
  prisma (UsersService.ensureUserExists receiverId)
  prisma (ProductsService.ensureProductExists productId)
  ChatRoomRepositoryMongo.findOrCreateChatRoom senderId receiverId productId now

def ensureUserCanAccessChatRoom (chatRoomId : String) (userId : Id) : ChatReq ChatRoom := do
  let some chatRoom ← ChatRoomRepositoryMongo.findChatRoomById chatRoomId
    | throw (.api (.notFound "대화방을 찾을 수 없습니다"))
  if !chatRoom.hasActive userId then
    throw (.api (.forbidden "권한이 없습니다"))
  return chatRoom

def ensureChatRoomExist (chatRoomId : String) : ChatReq Unit := do
  let some _ ← ChatRoomRepositoryMongo.findChatRoomById chatRoomId
    | throw (.api (.notFound "대화방을 찾을 수 없습니다"))

def markUserAsLeft (chatRoomId : String) (userId : Id) (now : Date) : ChatReq Unit :=
  ChatRoomRepositoryMongo.markParticipantsAsLeft chatRoomId userId now

def isChatRoomEmpty (chatRoomId : String) : ChatReq Bool := do
  let chatRoom ← ChatRoomRepositoryMongo.findChatRoomById chatRoomId
  return chatRoom.any (fun room => room.participantsCount = 0)

def removeChatRoomById (chatRoomId : String) : ChatReq Unit :=
  ChatRoomRepositoryMongo.deleteChatRoom chatRoomId

def updateLastMessage (chatRoomId lastMessage : String) (lastMessageId : ObjectId)
    (attempt : Attempt) : ChatReq Unit :=
  ChatRoomRepositoryMongo.updateLastMessage chatRoomId lastMessage lastMessageId attempt

end ChatRoomService

/- The data of the event that the handler reads. -/
structure MessageSentEvent where
  messageId : ObjectId
  chatRoomId : String
  message : String

namespace UpdateLastMessageHandler

def handle (event : MessageSentEvent) (attempt : Attempt) : ChatReq Unit :=
  ChatRoomService.updateLastMessage event.chatRoomId event.message event.messageId attempt

/- The n-th execution of the handler for this event is the n-th attempt. -/
def handleEvent (event : MessageSentEvent) (attempts : Nat → Attempt) : ChatReq Unit :=
  BaseEventHandler.execute (fun n => handle event (attempts n)) (fun _ => return ())
    BaseEventHandler.retryDelay BaseEventHandler.maxRetries 0

end UpdateLastMessageHandler

namespace MessageService

/- The event that is published after a message was sent. -/
def afterMessageSent (chatRoomId : String) (message : ObjectId × Message) : MessageSentEvent :=
  { messageId := message.1
    chatRoomId := chatRoomId
    message := message.2.message }

/- Answers the message and the event it has published. -/
def sendMessage (chatRoomId : String) (senderId receiverId : Id) (content : Field String)
    (messageType : Field MessageType) (fileUrl fileName : Option String) (now : Date) :
    ChatReq ((ObjectId × Message) × MessageSentEvent) := do
  prisma (UsersService.ensureUserExists senderId)
  prisma (UsersService.ensureUserExists receiverId)
  ChatRoomService.ensureChatRoomExist chatRoomId
  let message ← MessageRepositoryMongo.createMessage chatRoomId senderId receiverId content
    messageType fileUrl fileName now
  return (message, afterMessageSent chatRoomId message)

def findMessagesByRoomId (roomId : String) (userId : Id) (pagination : PaginationOptions)
    (ties : ObjectId → Nat) : ChatReq (PaginatedResult (ObjectId × Message)) := do
  let _ ← ChatRoomService.ensureUserCanAccessChatRoom roomId userId
  MessageRepositoryMongo.findMessagesByRoomId roomId pagination ties

def markMessagesAsRead (roomId : String) (userId : Id) (now : Date) : ChatReq Nat :=
  MessageRepositoryMongo.markMessagesAsRead roomId userId now

def countUnreadMessagesByRoom (roomId : String) (userId : Id) : ChatReq Nat :=
  MessageRepositoryMongo.countUnreadMessagesByRoomAndUser roomId userId

def removeMessagesByChatRoomId (chatRoomId : String) : ChatReq Unit :=
  MessageRepositoryMongo.deleteMessagesByChatRoomId chatRoomId

end MessageService

/-! The methods of the facade that do more than to hand on. -/

namespace MessagesMongoService

def leaveChatroomWithTransaction (chatRoomId : String) (userId : Id) (now : Date) :
    ChatReq Unit :=
  tryCatch (do
    let id ← newObjectId chatRoomId
    let result ← awaitMongo (.leaveTransaction id chatRoomId userId now)
    ChatRoomRepositoryMongo.checkLeft result) (fun e => throw (.left e))

def leaveChatroomWithoutTransaction (chatRoomId : String) (userId : Id) (now : Date) :
    ChatReq Unit :=
  tryCatch (do
    ChatRoomService.markUserAsLeft chatRoomId userId now
    let isEmpty ← ChatRoomService.isChatRoomEmpty chatRoomId
    if isEmpty then
      ChatRoomService.removeChatRoomById chatRoomId
      MessageService.removeMessagesByChatRoomId chatRoomId) (fun e => throw (.left e))

/- `isReplicaSet` is what the deployment answers. -/
def leaveChatroom (isReplicaSet : Bool) (chatRoomId : String) (userId : Id) (now : Date) :
    ChatReq Unit :=
  if isReplicaSet then leaveChatroomWithTransaction chatRoomId userId now
  else leaveChatroomWithoutTransaction chatRoomId userId now

end MessagesMongoService

/- An operation carries its caller and its arguments, the clock, and how the updates of the
handler end. -/
inductive ChatOp where
  | findOrCreate (senderId receiverId productId : Id) (now : Date)
  | send (chatRoomId : String) (senderId receiverId : Id) (content : Field String)
      (messageType : Field MessageType) (fileUrl fileName : Option String) (now : Date)
      (attempts : Nat → Attempt)
  | findMessages (roomId : String) (userId : Id) (pagination : PaginationOptions)
      (ties : ObjectId → Nat)
  | markRead (roomId : String) (userId : Id) (now : Date)
  | countUnread (roomId : String) (userId : Id)
  | leave (isReplicaSet : Bool) (chatRoomId : String) (userId : Id) (now : Date)

inductive ChatResponse where
  | room (room : ObjectId × ChatRoom) (isCreated : Bool)
  | sent (message : ObjectId × Message) (handled : Except ChatError Unit)
  | history (messages : PaginatedResult (ObjectId × Message))
  | count (n : Nat)
  | left

/- A promise that nobody waits for: its error ends nothing. -/
def settled {A : Type} (p : ChatReq A) : ChatReq (Except ChatError A) :=
  tryCatch (.ok <$> p) (fun e => return .error e)

/-- Sending a message starts the handler of its event, which goes on after the answer. -/
def ChatOp.program : ChatOp → ChatReq ChatResponse
  | .findOrCreate senderId receiverId productId now =>
    (fun (room, isCreated) => .room room isCreated) <$>
      ChatRoomService.findOrCreateChatroom senderId receiverId productId now
  | .send chatRoomId senderId receiverId content messageType fileUrl fileName now attempts => do
    let (message, event) ← MessageService.sendMessage chatRoomId senderId receiverId content
      messageType fileUrl fileName now
    let handled ← settled (UpdateLastMessageHandler.handleEvent event attempts)
    return .sent message handled
  | .findMessages roomId userId pagination ties =>
    .history <$> MessageService.findMessagesByRoomId roomId userId pagination ties
  | .markRead roomId userId now => .count <$> MessageService.markMessagesAsRead roomId userId now
  | .countUnread roomId userId => .count <$> MessageService.countUnreadMessagesByRoom roomId userId
  | .leave isReplicaSet chatRoomId userId now =>
    (fun _ => .left) <$> MessagesMongoService.leaveChatroom isReplicaSet chatRoomId userId now

abbrev ChatStore : Type := Db × Mongo

def execChat : (c : Call ⊕ MongoCall) → ChatStore → ChatStore × Sum.elim Call.Reply MongoCall.Reply c :=
  either (onFst exec) (onSnd execMongo)

def chatService : Service ChatStore ChatOp (Call ⊕ MongoCall)
    (Sum.elim Call.Reply MongoCall.Reply) ChatError ChatResponse :=
  ⟨execChat, ChatOp.program⟩

end SecondhandApi
