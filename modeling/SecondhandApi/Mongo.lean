import Mathlib.Data.List.Sort
import SecondhandApi.Schema
import SecondhandApi.Pagination

/-! The collections of `src/modules/messages-mongo/schemas` and the calls of the Mongo
repositories, as atomic steps. Each collection keeps its documents in the order in which
they were inserted; an ObjectId is drawn once and never again. -/
namespace SecondhandApi
open Keyed

abbrev ObjectId := Nat

def hexDigit (c : Char) : Option Nat :=
  if '0' ≤ c ∧ c ≤ '9' then some (c.toNat - '0'.toNat)
  else if 'a' ≤ c ∧ c ≤ 'f' then some (c.toNat - 'a'.toNat + 10)
  else if 'A' ≤ c ∧ c ≤ 'F' then some (c.toNat - 'A'.toNat + 10)
  else none

/-- `new Types.ObjectId(text)`: 24 hex digits, small or capital, or a BSONError. -/
def ObjectId.ofHex (text : String) : Option ObjectId :=
  if text.length = 24 then
    text.toList.foldlM (fun n c => (hexDigit c).map (16 * n + ·)) 0
  else none

inductive MongoError where
  | badObjectId
  | validation    -- a required path is missing or empty
  | badValue      -- a query that the server refuses
  | unavailable   -- the connection or the server failed
  deriving DecidableEq, Repr

inductive MessageType where
  | text | image | system
  deriving DecidableEq, Repr

namespace Mongo

structure Participant where
  userId : Id
  joinedAt : Date
  leftAt : Option Date := none
  deriving DecidableEq

structure ChatRoom where
  productId : Id
  participants : List Participant
  participantsCount : Int
  lastMessage : Option String := none
  lastMessageId : Option ObjectId := none
  lastMessageAt : Option Date := none
  relatedOrderId : Option Id := none
  createdAt : Date
  updatedAt : Date
  deriving DecidableEq

structure Message where
  conversationId : String
  senderId : Id
  receiverId : Id
  message : String
  messageType : Option MessageType
  readAt : Option Date := none
  fileUrl : Option String := none
  fileName : Option String := none
  createdAt : Date
  updatedAt : Date
  deriving DecidableEq

structure MessageInput where
  conversationId : String
  senderId : Id
  receiverId : Id
  message : Field String
  messageType : Option MessageType
  fileUrl : Option String
  fileName : Option String

def Participant.isActive (userId : Id) (p : Participant) : Bool :=
  p.userId = userId && p.leftAt.isNone

def ChatRoom.hasActive (room : ChatRoom) (userId : Id) : Bool :=
  room.participants.any (Participant.isActive userId)

/- How many take part and have not left. -/
def ChatRoom.activeCount (room : ChatRoom) : Nat :=
  room.participants.countP (fun p => p.leftAt.isNone)

structure Collections where
  chatRooms : Table ObjectId ChatRoom
  messages : Table ObjectId Message
  nextId : ObjectId

namespace Collections

/- The `find` of `findOrCreateChatRoom`. -/
def findRooms (m : Collections) (productId senderId receiverId : Id) :
    List (ObjectId × ChatRoom) :=
  m.chatRooms.rows.filter (fun room => room.2.productId = productId &&
    [senderId, receiverId].all (fun id => room.2.participants.any (·.userId = id)) &&
    room.2.participantsCount = 2)

def newRoom (productId senderId receiverId : Id) (now : Date) : ChatRoom :=
  { productId := productId
    participants := [{ userId := senderId, joinedAt := now }, { userId := receiverId, joinedAt := now }]
    participantsCount := 2
    createdAt := now
    updatedAt := now }

def insertRoom (m : Collections) (room : ChatRoom) : Collections :=
  { m with
    chatRooms := m.chatRooms.insert m.nextId room
    nextId := m.nextId + 1 }

def insertMessage (m : Collections) (message : Message) : Collections :=
  { m with
    messages := m.messages.insert m.nextId message
    nextId := m.nextId + 1 }

def updateRoom (m : Collections) (id : ObjectId) (f : ChatRoom → ChatRoom) : Collections :=
  { m with chatRooms := m.chatRooms.modifyAll (fun j room => if j = id then f room else room) }

def deleteRoom (m : Collections) (id : ObjectId) : Collections :=
  { m with chatRooms := m.chatRooms.erase id }

def deleteMessages (m : Collections) (conversationId : String) : Collections :=
  { m with messages := m.messages.eraseAll (fun _ d => d.conversationId = conversationId) }

end Collections

/- The positional `participants.$`: the first entry that the query matched. -/
def markFirst (userId : Id) (now : Date) : List Participant → List Participant
  | [] => []
  | p :: rest =>
    if p.isActive userId then { p with leftAt := some now } :: rest
    else p :: markFirst userId now rest

/- The update of `markParticipantsAsLeft`. -/
def ChatRoom.left (userId : Id) (now : Date) (room : ChatRoom) : ChatRoom :=
  { room with
    participants := markFirst userId now room.participants
    participantsCount := room.participantsCount - 1
    updatedAt := now }

/- The update of `updateLastMessage`. -/
def ChatRoom.showing (lastMessage : String) (lastMessageId : ObjectId) (now : Date)
    (room : ChatRoom) : ChatRoom :=
  { room with
    lastMessage := some lastMessage
    lastMessageId := some lastMessageId
    lastMessageAt := some now
    updatedAt := now }

/- A document is saved when its required paths are there; an empty string is not. -/
def MessageInput.document (data : MessageInput) (now : Date) : Option Message :=
  match data.message with
  | .value message =>
    if data.conversationId ≠ "" ∧ data.senderId ≠ "" ∧ data.receiverId ≠ "" ∧ message ≠ "" then
      some { conversationId := data.conversationId
             senderId := data.senderId
             receiverId := data.receiverId
             message := message
             messageType := data.messageType
             fileUrl := data.fileUrl
             fileName := data.fileName
             createdAt := now
             updatedAt := now }
    else none
  | _ => none

/- The filter of `markMessagesAsRead` and of the unread count. -/
def Message.unreadBy (conversationId : String) (receiverId : Id) (d : Message) : Bool :=
  d.conversationId = conversationId && d.readAt.isNone && d.receiverId = receiverId

/-- The value of a document under a sort field, null and missing below the others. -/
def Message.sortKey (field : String) (id : ObjectId) (d : Message) : Nat × String :=
  let text (s : Option String) := match s with
    | none => (0, "")
    | some s => (1, s)
  match field with
  | "_id" => (id + 1, "")
  | "createdAt" => (d.createdAt + 1, "")
  | "updatedAt" => (d.updatedAt + 1, "")
  | "readAt" => (d.readAt.elim 0 (· + 1), "")
  | "conversationId" => text (some d.conversationId)
  | "senderId" => text (some d.senderId)
  | "receiverId" => text (some d.receiverId)
  | "message" => text (some d.message)
  | "messageType" => text (d.messageType.map fun
    | .text => "TEXT"
    | .image => "IMAGE"
    | .system => "SYSTEM")
  | "fileUrl" => text d.fileUrl
  | "fileName" => text d.fileName
  | _ => (0, "")

def keyLt (a b : Nat × String) : Bool := a.1 < b.1 || a.1 = b.1 && a.2 < b.2

/- Documents with equal values stand in the order of `ties`, which each query draws anew. -/
def sortBefore (field : String) (order : SortOrder) (ties : ObjectId → Nat)
    (a b : ObjectId × Message) : Prop :=
  let x := a.2.sortKey field a.1
  let y := b.2.sortKey field b.1
  match order with
  | .asc => keyLt x y = true ∨ x = y ∧ ties a.1 ≤ ties b.1
  | .desc => keyLt y x = true ∨ x = y ∧ ties a.1 ≤ ties b.1

instance (field : String) (order : SortOrder) (ties : ObjectId → Nat) :
    DecidableRel (sortBefore field order ties) :=
  fun _ _ => match order with
    | .asc => inferInstanceAs (Decidable (_ ∨ _))
    | .desc => inferInstanceAs (Decidable (_ ∨ _))

structure UpdateResult where
  matchedCount : Nat
  modifiedCount : Nat
  deriving DecidableEq

/- How an update that may fail ends: it is answered, it never reaches the server, or it is
made and its answer is lost. -/
inductive Delivery where
  | answered | lost | unanswered
  deriving DecidableEq, Repr

namespace Collections

/- `updateOne` of `markParticipantsAsLeft`: it matches a room with such a participant. -/
def markLeft (m : Collections) (id : ObjectId) (userId : Id) (now : Date) :
    Collections × UpdateResult :=
  if (m.chatRooms.find? id).any (·.hasActive userId) then
    (m.updateRoom id (ChatRoom.left userId now), ⟨1, 1⟩)
  else (m, ⟨0, 0⟩)

def isEmpty (m : Collections) (id : ObjectId) : Bool :=
  (m.chatRooms.find? id).any (·.participantsCount = 0)

/- The transaction of a leave: its writes are kept together, or none when it throws. -/
def leave (m : Collections) (id : ObjectId) (chatRoomId : String) (userId : Id) (now : Date) :
    Collections × UpdateResult :=
  let (marked, result) := m.markLeft id userId now
  if result.matchedCount = 0 then (m, result)
  else if marked.isEmpty id then ((marked.deleteRoom id).deleteMessages chatRoomId, result)
  else (marked, result)

def setLastMessage (m : Collections) (id : ObjectId) (lastMessage : String)
    (lastMessageId : ObjectId) (now : Date) : Collections :=
  m.updateRoom id (ChatRoom.showing lastMessage lastMessageId now)

def markRead (m : Collections) (conversationId : String) (receiverId : Id) (now : Date) :
    Collections :=
  { m with
    messages := m.messages.modifyAll (fun _ d =>
      if d.unreadBy conversationId receiverId then { d with readAt := some now, updatedAt := now }
      else d) }

def countUnread (m : Collections) (conversationId : String) (userId : Id) : Nat :=
  (m.messages.rows.filter (fun d => d.2.unreadBy conversationId userId)).length

def conversation (m : Collections) (conversationId : String) : List (ObjectId × Message) :=
  m.messages.rows.filter (fun d => d.2.conversationId = conversationId)

/- The room that a string names. -/
def roomNamed (m : Collections) (text : String) : Option ChatRoom :=
  (ObjectId.ofHex text).bind m.chatRooms.find?

/- The messages of a room, under whatever spelling of its id. -/
def ofRoom (m : Collections) (r : ObjectId) : List (ObjectId × Message) :=
  m.messages.rows.filter (fun d => ObjectId.ofHex d.2.conversationId = some r)

/- The server sorts before it skips and limits, in whatever order the query asks for them; a
limit of 0 is none. -/
def findMessages (m : Collections) (conversationId : String) (skip limit : Nat) (field : String)
    (order : SortOrder) (ties : ObjectId → Nat) : List (ObjectId × Message) :=
  let rest := ((m.conversation conversationId).insertionSort (sortBefore field order ties)).drop skip
  if limit = 0 then rest else rest.take limit

end Collections

end Mongo

open Mongo (Collections ChatRoom Message MessageInput UpdateResult Delivery)

inductive MongoCall where
  | findRooms (productId senderId receiverId : Id)
  | saveRoom (productId senderId receiverId : Id) (now : Date)
  | findRoomById (id : ObjectId)
  | updateLastMessage (id : ObjectId) (lastMessage : String) (lastMessageId : ObjectId) (now : Date)
      (delivery : Delivery)
  | markLeft (id : ObjectId) (userId : Id) (now : Date)
  | deleteRoom (id : ObjectId)
  | leaveTransaction (id : ObjectId) (chatRoomId : String) (userId : Id) (now : Date)
  | insertMessage (data : MessageInput) (now : Date)
  | findMessages (conversationId : String) (skip : Int) (limit : Nat) (field : String)
      (order : SortOrder) (ties : ObjectId → Nat)
  | countMessages (conversationId : String)
  | markRead (conversationId : String) (receiverId : Id) (now : Date)
  | countUnread (conversationId : String) (userId : Id)
  | deleteMessages (conversationId : String)

def MongoCall.Result : MongoCall → Type
  | .findRooms _ _ _ => List (ObjectId × ChatRoom)
  | .saveRoom _ _ _ _ => ObjectId × ChatRoom
  | .findRoomById _ => Option ChatRoom
  | .updateLastMessage _ _ _ _ _ => Unit
  | .markLeft _ _ _ => UpdateResult
  | .deleteRoom _ => Unit
  | .leaveTransaction _ _ _ _ => UpdateResult
  | .insertMessage _ _ => ObjectId × Message
  | .findMessages _ _ _ _ _ _ => List (ObjectId × Message)
  | .countMessages _ => Nat
  | .markRead _ _ _ => Nat
  | .countUnread _ _ => Nat
  | .deleteMessages _ => Unit

abbrev MongoCall.Reply (c : MongoCall) : Type := Except MongoError c.Result

def Mongo.Collections.exec (m : Collections) : (c : MongoCall) → Collections × c.Reply
  | .findRooms productId senderId receiverId =>
    (m, .ok (m.findRooms productId senderId receiverId))
  | .saveRoom productId senderId receiverId now =>
    let room := Collections.newRoom productId senderId receiverId now
    (m.insertRoom room, .ok (m.nextId, room))
  | .findRoomById id => (m, .ok (m.chatRooms.find? id))
  | .updateLastMessage id lastMessage lastMessageId now delivery =>
    match delivery with
    | .answered => (m.setLastMessage id lastMessage lastMessageId now, .ok ())
    | .lost => (m, .error .unavailable)
    | .unanswered => (m.setLastMessage id lastMessage lastMessageId now, .error .unavailable)
  | .markLeft id userId now => ((m.markLeft id userId now).1, .ok (m.markLeft id userId now).2)
  | .deleteRoom id => (m.deleteRoom id, .ok ())
  | .leaveTransaction id chatRoomId userId now =>
    ((m.leave id chatRoomId userId now).1, .ok (m.leave id chatRoomId userId now).2)
  | .insertMessage data now =>
    match data.document now with
    | none => (m, .error .validation)
    | some message => (m.insertMessage message, .ok (m.nextId, message))
  | .findMessages conversationId skip limit field order ties =>
    if skip < 0 then (m, .error .badValue)
    else (m, .ok (m.findMessages conversationId skip.toNat limit field order ties))
  | .countMessages conversationId => (m, .ok (m.conversation conversationId).length)
  | .markRead conversationId receiverId now =>
    (m.markRead conversationId receiverId now, .ok (m.countUnread conversationId receiverId))
  | .countUnread conversationId userId => (m, .ok (m.countUnread conversationId userId))
  | .deleteMessages conversationId => (m.deleteMessages conversationId, .ok ())

/-! An ObjectId in use is one that was drawn. -/

def Mongo.Drawn (m : Collections) : Prop :=
  (∀ id, m.chatRooms.has id = true → id < m.nextId) ∧
    ∀ id, m.messages.has id = true → id < m.nextId

namespace Mongo.Drawn

variable {m : Collections} (h : Drawn m)
include h

theorem insertRoom (room : ChatRoom) : Drawn (m.insertRoom room) := by
  refine ⟨fun id has => ?_, fun id has => Nat.lt_succ_of_lt (h.2 id has)⟩
  rcases Table.has_of_insert has with before | rfl
  · exact Nat.lt_succ_of_lt (h.1 id before)
  · exact Nat.lt_succ_self _

theorem insertMessage (message : Message) : Drawn (m.insertMessage message) := by
  refine ⟨fun id has => Nat.lt_succ_of_lt (h.1 id has), fun id has => ?_⟩
  rcases Table.has_of_insert has with before | rfl
  · exact Nat.lt_succ_of_lt (h.2 id before)
  · exact Nat.lt_succ_self _

theorem updateRoom (id : ObjectId) (f : ChatRoom → ChatRoom) : Drawn (m.updateRoom id f) :=
  ⟨fun j has => h.1 j ((Table.has_modifyAll ..).symm.trans has), h.2⟩

theorem deleteRoom (id : ObjectId) : Drawn (m.deleteRoom id) :=
  ⟨fun j has => h.1 j (Table.has_of_eraseAll has), h.2⟩

theorem deleteMessages (conversationId : String) : Drawn (m.deleteMessages conversationId) :=
  ⟨h.1, fun j has => h.2 j (Table.has_of_eraseAll has)⟩

theorem markRead (conversationId : String) (receiverId : Id) (now : Date) :
    Drawn (m.markRead conversationId receiverId now) :=
  ⟨h.1, fun j has => h.2 j ((Table.has_modifyAll ..).symm.trans has)⟩

theorem markLeft (id : ObjectId) (userId : Id) (now : Date) :
    Drawn (m.markLeft id userId now).1 := by
  unfold Collections.markLeft
  split
  · exact h.updateRoom id _
  · exact h

theorem leave (id : ObjectId) (chatRoomId : String) (userId : Id) (now : Date) :
    Drawn (m.leave id chatRoomId userId now).1 := by
  unfold Collections.leave
  dsimp only
  split
  · exact h
  · split
    · exact ((h.markLeft id userId now).deleteRoom id).deleteMessages chatRoomId
    · exact h.markLeft id userId now

theorem exec (c : MongoCall) : Drawn (m.exec c).1 := by
  cases c with
  | saveRoom productId senderId receiverId now => exact h.insertRoom _
  | updateLastMessage id lastMessage lastMessageId now delivery =>
    cases delivery with
    | lost => exact h
    | _ => exact h.updateRoom id _
  | markLeft id userId now => exact h.markLeft id userId now
  | deleteRoom id => exact h.deleteRoom id
  | leaveTransaction id chatRoomId userId now => exact h.leave id chatRoomId userId now
  | insertMessage data now =>
    simp only [Collections.exec]
    split
    · exact h
    · exact h.insertMessage _
  | findMessages conversationId skip limit field order ties =>
    simp only [Collections.exec]
    split <;> exact h
  | markRead conversationId receiverId now => exact h.markRead conversationId receiverId now
  | deleteMessages conversationId => exact h.deleteMessages conversationId
  | _ => exact h

end Mongo.Drawn

/-- The Mongo database. -/
structure Mongo extends Collections where
  drawn : Mongo.Drawn toCollections

def execMongo (c : MongoCall) (m : Mongo) : Mongo × c.Reply :=
  (⟨(m.toCollections.exec c).1, m.drawn.exec c⟩, (m.toCollections.exec c).2)

theorem Mongo.nextRoom (m : Mongo) : m.chatRooms.find? m.nextId = none :=
  Table.not_has_iff.mp (fun has => Nat.lt_irrefl _ (m.drawn.1 m.nextId has))

theorem Mongo.nextMessage (m : Mongo) : m.messages.find? m.nextId = none :=
  Table.not_has_iff.mp (fun has => Nat.lt_irrefl _ (m.drawn.2 m.nextId has))

end SecondhandApi
