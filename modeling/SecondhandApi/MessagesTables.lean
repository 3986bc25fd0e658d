import Mathlib.Data.List.Sort
import SecondhandApi.Integrity

/-! The chat tables of `prisma/schema.prisma` and the Prisma calls of
`src/modules/messages/repositories`, as atomic steps. Members and messages refer to rooms that
are stored, and nobody is in a room twice. -/
namespace SecondhandApi
open Keyed

namespace Messages

inductive MessageType where
  | text | image | file | system
  deriving DecidableEq, Repr

structure ChatRoom where
  productId : Option Id
  createdAt : Date
  updatedAt : Date
  deriving DecidableEq

structure ChatRoomMember where
  chatRoomId : Id
  userId : Id
  lastReadAt : Option Date := none
  joinedAt : Date
  deriving DecidableEq

structure ChatMessage where
  chatRoomId : Id
  senderId : Id
  content : String
  messageType : MessageType := .text
  fileUrl : Option String := none
  fileName : Option String := none
  isRead : Bool := false
  readAt : Option Date := none
  createdAt : Date
  deriving DecidableEq

structure Tables where
  chatRooms : Table Id ChatRoom
  members : Table Id ChatRoomMember
  messages : Table Id ChatMessage

/-- A room with its members, as the queries include them. -/
structure RoomRecord where
  id : Id
  room : ChatRoom
  members : List (Id × ChatRoomMember)
  deriving DecidableEq

structure MessageCreateInput where
  chatRoomId : Id
  senderId : Id
  content : String
  messageType : Field MessageType
  fileUrl : Field String
  fileName : Field String

/- A new row has the defaults of the schema; null in a required column is refused. -/
def MessageCreateInput.row (data : MessageCreateInput) (now : Date) : Option ChatMessage := do
  let messageType ← data.messageType.required .text
  some { chatRoomId := data.chatRoomId
         senderId := data.senderId
         content := data.content
         messageType := messageType
         fileUrl := data.fileUrl.orNull
         fileName := data.fileName.orNull
         createdAt := now }

theorem MessageCreateInput.row_some {data : MessageCreateInput} {now : Date} {d : ChatMessage}
    (h : data.row now = some d) :
    d.chatRoomId = data.chatRoomId ∧ d.senderId = data.senderId ∧ d.isRead = false ∧
      d.readAt = none := by
  simp only [MessageCreateInput.row, Option.bind_eq_bind, Option.bind_eq_some_iff] at h
  obtain ⟨messageType, _, made⟩ := h
  cases made
  exact ⟨rfl, rfl, rfl, rfl⟩

/- The filter of `markMessagesAsRead` and of the unread count. -/
def ChatMessage.unreadBy (d : ChatMessage) (chatRoomId userId : Id) : Bool :=
  d.chatRoomId = chatRoomId && d.senderId ≠ userId && !d.isRead

namespace Tables

def membersOf (t : Tables) (chatRoomId : Id) : List (Id × ChatRoomMember) :=
  t.members.rows.filter (fun row => row.2.chatRoomId = chatRoomId)

def isMember (t : Tables) (chatRoomId userId : Id) : Bool :=
  t.members.any (fun _ m => m.chatRoomId = chatRoomId && m.userId = userId)

def record (t : Tables) (id : Id) (room : ChatRoom) : RoomRecord := ⟨id, room, t.membersOf id⟩

/- `findFirst({ where: { productId, members: { some: { userId } } } })`. -/
def findRoomOf (t : Tables) (productId userId : Id) : Option RoomRecord :=
  (t.chatRooms.rows.find? (fun row => row.2.productId = some productId &&
    t.isMember row.1 userId)).map (fun row => t.record row.1 row.2)

/- The nested create: a room and the rows of its two members, each under its own id. -/
def withRoom (t : Tables) (id : Id) (now : Date) (productId : Id) (first second : Id × Id) :
    Tables :=
  { t with
    chatRooms := t.chatRooms.insert id ⟨some productId, now, now⟩
    members := (t.members.insert first.1 { chatRoomId := id, userId := first.2, joinedAt := now }).insert
      second.1 { chatRoomId := id, userId := second.2, joinedAt := now } }

def touchRoom (t : Tables) (id : Id) (now : Date) : Tables :=
  { t with chatRooms := t.chatRooms.modifyAll (fun j room =>
      if j = id then { room with updatedAt := now } else room) }

def markRead (t : Tables) (chatRoomId userId : Id) (now : Date) : Tables :=
  { t with messages := t.messages.modifyAll (fun _ d =>
      if d.unreadBy chatRoomId userId then { d with isRead := true, readAt := some now } else d) }

def markMember (t : Tables) (chatRoomId userId : Id) (now : Date) : Tables :=
  { t with members := t.members.modifyAll (fun _ m =>
      if m.chatRoomId = chatRoomId ∧ m.userId = userId then { m with lastReadAt := some now }
      else m) }

def countUnread (t : Tables) (chatRoomId userId : Id) : Nat :=
  (t.messages.rows.filter (fun row => row.2.unreadBy chatRoomId userId)).length

def removeMember (t : Tables) (chatRoomId userId : Id) : Tables :=
  { t with members := t.members.eraseAll (fun _ m =>
      m.chatRoomId = chatRoomId && m.userId = userId) }

/- Members and messages go with their room (`onDelete: Cascade`). -/
def withoutRoom (t : Tables) (id : Id) : Tables :=
  { chatRooms := t.chatRooms.erase id
    members := t.members.eraseAll (fun _ m => m.chatRoomId = id)
    messages := t.messages.eraseAll (fun _ d => d.chatRoomId = id) }

/- `orderBy: { createdAt: 'desc' }`; rows of one time stand in the order of `ties`. -/
def newerFirst (ties : Id → Nat) (a b : Id × ChatMessage) : Prop :=
  b.2.createdAt < a.2.createdAt ∨ a.2.createdAt = b.2.createdAt ∧ ties a.1 ≤ ties b.1

instance (ties : Id → Nat) : DecidableRel (newerFirst ties) :=
  fun a b => inferInstanceAs (Decidable (b.2.createdAt < a.2.createdAt ∨ _))

def messagesOf (t : Tables) (chatRoomId : Id) : List (Id × ChatMessage) :=
  t.messages.rows.filter (fun row => row.2.chatRoomId = chatRoomId)

end Tables

end Messages

open Messages (ChatRoom ChatRoomMember ChatMessage RoomRecord MessageCreateInput)

inductive MessagesCall where
  | findRoomOf (productId userId : Id)
  | createRoom (id : Id) (now : Date) (productId : Id) (first second : Id × Id)
  | createMessage (id : Id) (now : Date) (data : MessageCreateInput)
  | findMemberships (userId : Id)
  | findMessages (chatRoomId : Id) (skip limit : Nat) (ties : Id → Nat)
  | countMessages (chatRoomId : Id)
  | markMessages (chatRoomId userId : Id) (now : Date)
  | markMember (chatRoomId userId : Id) (now : Date)
  | countUnread (chatRoomId userId : Id)
  | findRoomById (id : Id)
  | touchRoom (id : Id) (now : Date)
  | deleteMembers (chatRoomId userId : Id)
  | countMembers (chatRoomId : Id)
  | deleteRoom (id : Id)

def MessagesCall.Result : MessagesCall → Type
  | .findRoomOf _ _ => Option RoomRecord
  | .createRoom _ _ _ _ _ => RoomRecord
  | .createMessage _ _ _ => Id × ChatMessage
  | .findMemberships _ => List (Id × ChatRoomMember)
  | .findMessages _ _ _ _ => List (Id × ChatMessage)
  | .countMessages _ => Nat
  | .markMessages _ _ _ => Unit
  | .markMember _ _ _ => Unit
  | .countUnread _ _ => Nat
  | .findRoomById _ => Option RoomRecord
  | .touchRoom _ _ => Unit
  | .deleteMembers _ _ => Unit
  | .countMembers _ => Nat
  | .deleteRoom _ => Unit

abbrev MessagesCall.Reply (c : MessagesCall) : Type := Except PrismaError c.Result

namespace Messages

/-- What a call does; `user` tells which users are stored. -/
def Tables.exec (t : Tables) (user : Id → Bool) : (c : MessagesCall) → Tables × c.Reply
  | .findRoomOf productId userId => (t, .ok (t.findRoomOf productId userId))
  | .createRoom id now productId first second =>
    if !user first.2 || !user second.2 then (t, .error .restricted)
    else if t.chatRooms.has id || t.members.has first.1 || t.members.has second.1 ||
        first.1 = second.1 || first.2 = second.2 then (t, .error .uniqueViolation)
    else
      let after := t.withRoom id now productId first second
      (after, .ok (after.record id ⟨some productId, now, now⟩))
  | .createMessage id now data =>
    match data.row now with
    | none => (t, .error .invalidValue)
    | some row =>
      if !t.chatRooms.has data.chatRoomId || !user data.senderId then (t, .error .restricted)
      else if t.messages.has id then (t, .error .uniqueViolation)
      else ({ t with messages := t.messages.insert id row }, .ok (id, row))
  | .findMemberships userId =>
    (t, .ok (t.members.rows.filter (fun row => row.2.userId = userId)))
  | .findMessages chatRoomId skip limit ties =>
    (t, .ok ((((t.messagesOf chatRoomId).insertionSort (Tables.newerFirst ties)).drop skip).take
      limit))
  | .countMessages chatRoomId => (t, .ok (t.messagesOf chatRoomId).length)
  | .markMessages chatRoomId userId now => (t.markRead chatRoomId userId now, .ok ())
  | .markMember chatRoomId userId now => (t.markMember chatRoomId userId now, .ok ())
  | .countUnread chatRoomId userId => (t, .ok (t.countUnread chatRoomId userId))
  | .findRoomById id => (t, .ok ((t.chatRooms.find? id).map (t.record id)))
  | .touchRoom id now =>
    if t.chatRooms.has id then (t.touchRoom id now, .ok ()) else (t, .error .recordNotFound)
  | .deleteMembers chatRoomId userId => (t.removeMember chatRoomId userId, .ok ())
  | .countMembers chatRoomId => (t, .ok (t.membersOf chatRoomId).length)
  | .deleteRoom id =>
    if t.chatRooms.has id then (t.withoutRoom id, .ok ()) else (t, .error .recordNotFound)

/-- The references of members and messages, and the unique pair of room and user. -/
structure Linked (t : Tables) : Prop where
  member : ∀ m row, t.members.find? m = some row → t.chatRooms.has row.chatRoomId = true
  message : ∀ k d, t.messages.find? k = some d → t.chatRooms.has d.chatRoomId = true
  once : ∀ m row m' row', t.members.find? m = some row → t.members.find? m' = some row' →
    row.chatRoomId = row'.chatRoomId → row.userId = row'.userId → m = m'

namespace Linked

variable {t : Tables}

theorem withRoom (h : Linked t) {id : Id} {now : Date} {productId : Id} {first second : Id × Id}
    (fresh : t.chatRooms.find? id = none) (others : first.2 ≠ second.2) :
    Linked (t.withRoom id now productId first second) where
  member m row there := by
    rcases Table.find?_insert_cases there with there | ⟨_, rfl⟩
    · rcases Table.find?_insert_cases there with before | ⟨_, rfl⟩
      · exact Table.has_insert (h.member m row before) _ _
      · exact Table.has_iff.mpr ⟨_, Table.find?_insert_self fresh _⟩
    · exact Table.has_iff.mpr ⟨_, Table.find?_insert_self fresh _⟩
  message k d there := Table.has_insert (h.message k d there) _ _
  once m row m' row' there there' room user := by
    have unused (j : Id) (old : ChatRoomMember) (found : t.members.find? j = some old) :
        old.chatRoomId ≠ id := by
      rintro rfl
      obtain ⟨_, stored⟩ := Table.has_iff.mp (h.member j old found)
      cases fresh.symm.trans stored
    -- the rows of the new room are the two that were made, for two different users
    rcases Table.find?_insert_cases there with there | ⟨rfl, rfl⟩ <;>
    rcases Table.find?_insert_cases there' with there' | ⟨rfl, rfl⟩
    · rcases Table.find?_insert_cases there with before | ⟨rfl, rfl⟩ <;>
      rcases Table.find?_insert_cases there' with before' | ⟨rfl, rfl⟩
      · exact h.once m row m' row' before before' room user
      · exact absurd room (unused m row before)
      · exact absurd room.symm (unused m' row' before')
      · rfl
    · rcases Table.find?_insert_cases there with before | ⟨rfl, rfl⟩
      · exact absurd room (unused m row before)
      · exact absurd user others
    · rcases Table.find?_insert_cases there' with before | ⟨rfl, rfl⟩
      · exact absurd room.symm (unused m' row' before)
      · exact absurd user.symm others
    · rfl

theorem newMessage (h : Linked t) {id : Id} {row : ChatMessage}
    (room : t.chatRooms.has row.chatRoomId = true) :
    Linked { t with messages := t.messages.insert id row } where
  member := h.member
  message k d there := by
    rcases Table.find?_insert_cases there with before | ⟨_, rfl⟩
    · exact h.message k d before
    · exact room
  once := h.once

theorem markRead (h : Linked t) (chatRoomId userId : Id) (now : Date) :
    Linked (t.markRead chatRoomId userId now) where
  member := h.member
  message k d there := by
    obtain ⟨old, before, rfl⟩ := Option.map_eq_some_iff.mp
      ((Table.find?_modifyAll t.messages _ k).symm.trans there)
    have room := h.message k old before
    split
    · exact room
    · exact room
  once := h.once

theorem markMember (h : Linked t) (chatRoomId userId : Id) (now : Date) :
    Linked (t.markMember chatRoomId userId now) := by
  have same (m : Id) (row : ChatRoomMember)
      (there : (t.markMember chatRoomId userId now).members.find? m = some row) :
      ∃ old, t.members.find? m = some old ∧ row.chatRoomId = old.chatRoomId ∧
        row.userId = old.userId := by
    obtain ⟨old, before, rfl⟩ := Option.map_eq_some_iff.mp
      ((Table.find?_modifyAll t.members _ m).symm.trans there)
    refine ⟨old, before, ?_⟩
    split
    · exact ⟨rfl, rfl⟩
    · exact ⟨rfl, rfl⟩
  refine ⟨fun m row there => ?_, h.message, fun m row m' row' there there' room user => ?_⟩
  · obtain ⟨old, before, roomSame, _⟩ := same m row there
    rw [roomSame]
    exact h.member m old before
  · obtain ⟨old, before, room₁, user₁⟩ := same m row there
    obtain ⟨old', before', room₂, user₂⟩ := same m' row' there'
    refine h.once m old m' old' before before' ?_ ?_
    · rw [← room₁, ← room₂, room]
    · rw [← user₁, ← user₂, user]

theorem touchRoom (h : Linked t) (id : Id) (now : Date) : Linked (t.touchRoom id now) where
  member m row there := (Table.has_modifyAll _ _ _).trans (h.member m row there)
  message k d there := (Table.has_modifyAll _ _ _).trans (h.message k d there)
  once := h.once

theorem removeMember (h : Linked t) (chatRoomId userId : Id) :
    Linked (t.removeMember chatRoomId userId) where
  member m row there := h.member m row (Table.find?_eraseAll_cases there).1
  message := h.message
  once m row m' row' there there' := h.once m row m' row' (Table.find?_eraseAll_cases there).1
    (Table.find?_eraseAll_cases there').1

theorem withoutRoom (h : Linked t) (id : Id) : Linked (t.withoutRoom id) where
  member m row there := by
    obtain ⟨before, other⟩ := Table.find?_eraseAll_cases there
    exact Table.has_erase (h.member m row before) (of_decide_eq_false other)
  message k d there := by
    obtain ⟨before, other⟩ := Table.find?_eraseAll_cases there
    exact Table.has_erase (h.message k d before) (of_decide_eq_false other)
  once m row m' row' there there' := h.once m row m' row' (Table.find?_eraseAll_cases there).1
    (Table.find?_eraseAll_cases there').1

theorem exec (h : Linked t) (user : Id → Bool) (c : MessagesCall) : Linked (t.exec user c).1 := by
  cases c with
  | createRoom id now productId first second =>
    rw [Tables.exec]
    split
    · exact h
    · split
      · exact h
      · rename_i free
        simp only [Bool.or_eq_true, decide_eq_true_eq, not_or] at free
        exact h.withRoom (Table.not_has_iff.mp free.1.1.1.1) free.2
  | createMessage id now data =>
    rw [Tables.exec]
    split
    · exact h
    · rename_i row made
      split
      · exact h
      · rename_i known
        split
        · exact h
        · simp only [Bool.or_eq_true, Bool.not_eq_true', not_or, Bool.not_eq_false] at known
          refine h.newMessage ?_
          rw [(MessageCreateInput.row_some made).1]
          exact known.1
  | markMessages chatRoomId userId now => exact h.markRead chatRoomId userId now
  | markMember chatRoomId userId now => exact h.markMember chatRoomId userId now
  | touchRoom id now =>
    rw [Tables.exec]
    split
    · exact h.touchRoom id now
    · exact h
  | deleteMembers chatRoomId userId => exact h.removeMember chatRoomId userId
  | deleteRoom id =>
    rw [Tables.exec]
    split
    · exact h.withoutRoom id
    · exact h
  | _ => exact h

end Linked

/-- The chat tables with the guarantee that their references are good. -/
structure Chat extends Tables where
  linked : Linked toTables

def noChat : Chat where
  chatRooms := Table.empty
  members := Table.empty
  messages := Table.empty
  linked := ⟨fun _ _ none => (by cases none), fun _ _ none => (by cases none),
    fun _ _ _ _ none => (by cases none)⟩

end Messages

/-- The shop and its chat; members and senders are users of the shop. -/
abbrev MessagesStore : Type := Db × Messages.Chat

def execMessages (c : MessagesCall) (s : MessagesStore) : MessagesStore × c.Reply :=
  ((s.1, ⟨(s.2.toTables.exec s.1.users.has c).1, s.2.linked.exec s.1.users.has c⟩),
    (s.2.toTables.exec s.1.users.has c).2)

end SecondhandApi
