import SecondhandApi.ChatRequests

/-! A leave that runs alone: the mark, and the end of a room that is empty then, with a transaction
and without. -/
namespace SecondhandApi
open Keyed Interleaving
open Mongo (ChatRoom Collections)

section
variable {s : ChatStore} {text : String} {id : ObjectId} {userId : Id} {now : Date}

/-- What a leave can do to the rooms. -/
inductive Leaves (m : Collections) (text : String) (userId : Id) (now : Date) :
    Table ObjectId ChatRoom → Prop where
  | refused : Leaves m text userId now m.chatRooms
  | left (id : ObjectId) (room : ChatRoom) (named : ObjectId.ofHex text = some id)
      (found : m.chatRooms.find? id = some room) (active : room.hasActive userId = true) :
      Leaves m text userId now (m.updateRoom id (ChatRoom.left userId now)).chatRooms
  | closed (id : ObjectId) (room : ChatRoom) (named : ObjectId.ofHex text = some id)
      (found : m.chatRooms.find? id = some room) (active : room.hasActive userId = true) :
      Leaves m text userId now ((m.updateRoom id (ChatRoom.left userId now)).deleteRoom id).chatRooms

/-- A check of the counts makes no calls. -/
theorem checkLeft_alone (reply : Except MongoError Mongo.UpdateResult) :
    ∃ out, (settleMongo reply >>= ChatRoomRepositoryMongo.checkLeft).alone execChat s = (s, out) := by
  rcases reply with e | ⟨_ | matched, _ | modified⟩ <;> exact ⟨_, rfl⟩

/-- A leave ends where its body does, with its own error. -/
theorem leave_alone {body : ChatReq Unit} {out : Except ChatError Unit} {s' : ChatStore}
    (ends : body.alone execChat s = (s', out)) :
    ((fun _ => ChatResponse.left) <$> tryCatch body (fun e => throw (.left e))).alone execChat s =
      (s', (out.mapError .left).map (fun _ => .left)) := by
  rw [Request.alone_map, Request.alone_tryCatch, ends]
  cases out <;> rfl

theorem transaction_leaves (named : ObjectId.ofHex text = some id) :
    Leaves s.2.toCollections text userId now
      (chatService.sequential s (.leave true text userId now)).2.chatRooms := by
  have ends : ∃ out, (newObjectId text >>= fun id =>
      awaitMongo (.leaveTransaction id text userId now) >>=
        ChatRoomRepositoryMongo.checkLeft).alone execChat s =
        ((s.1, (execMongo (.leaveTransaction id text userId now) s.2).1), out) := by
    rw [newObjectId_some named, Request.done_bind]
    obtain ⟨out, checked⟩ := checkLeft_alone (execMongo (.leaveTransaction id text userId now) s.2).2
    exact ⟨out, (awaitMongo_alone _ _).trans checked⟩
  obtain ⟨out, ends⟩ := ends
  have after : (chatService.sequential s (.leave true text userId now)).2 =
      (execMongo (.leaveTransaction id text userId now) s.2).1 :=
    congrArg (fun out => out.1.2) (leave_alone ends)
  rw [after]
  have effect := mongo_effect (.leaveTransaction id text userId now) s.2
  generalize (execMongo (.leaveTransaction id text userId now) s.2).2 = reply at effect
  generalize (execMongo (.leaveTransaction id text userId now) s.2).1.toCollections = m at effect ⊢
  cases effect with
  | read reads => cases reads
  | refusedLeave none => exact .refused
  | leftOthers room found active others => exact .left id room named found active
  | leftLast room found active last => exact .closed id room named found active

theorem markUserAsLeft_alone (named : ObjectId.ofHex text = some id) :
    (ChatRoomService.markUserAsLeft text userId now).alone execChat s =
      (settleMongo (execMongo (.markLeft id userId now) s.2).2 >>=
        ChatRoomRepositoryMongo.checkLeft).alone execChat
          (s.1, (execMongo (.markLeft id userId now) s.2).1) := by
  rw [ChatRoomService.markUserAsLeft, ChatRoomRepositoryMongo.markParticipantsAsLeft,
    newObjectId_some named]
  exact awaitMongo_alone _ _

/-- After the mark the room stays, or goes when it is empty. -/
theorem sweep_alone (named : ObjectId.ofHex text = some id) : ∃ s' out,
    (ChatRoomService.isChatRoomEmpty text >>= fun isEmpty =>
      if isEmpty then ChatRoomService.removeChatRoomById text >>= fun _ =>
        MessageService.removeMessagesByChatRoomId text
      else pure ()).alone execChat s = (s', out) ∧
    (s'.2.chatRooms = s.2.chatRooms ∨ s'.2.chatRooms = (s.2.deleteRoom id).chatRooms) := by
  rw [ChatRoomService.isChatRoomEmpty, Request.bind_assoc, Request.alone_bind,
    findChatRoomById_alone named]
  dsimp only [Request.pure_eq, Request.done_bind]
  cases (s.2.chatRooms.find? id).any (fun room => decide (room.participantsCount = 0)) with
  | false => exact ⟨s, .ok (), rfl, Or.inl rfl⟩
  | true =>
    rw [if_pos rfl, ChatRoomService.removeChatRoomById, ChatRoomRepositoryMongo.deleteChatRoom,
      newObjectId_some named]
    exact ⟨_, .ok (), rfl, Or.inr rfl⟩

theorem standalone_leaves (named : ObjectId.ofHex text = some id) :
    Leaves s.2.toCollections text userId now
      (chatService.sequential s (.leave false text userId now)).2.chatRooms := by
  have marks := @markUserAsLeft_alone s text id userId now named
  obtain ⟨s', out, ends, rooms⟩ : ∃ s' out, (ChatRoomService.markUserAsLeft text userId now >>=
      fun _ => ChatRoomService.isChatRoomEmpty text >>= fun isEmpty =>
        if isEmpty then ChatRoomService.removeChatRoomById text >>= fun _ =>
          MessageService.removeMessagesByChatRoomId text
        else pure ()).alone execChat s = (s', out) ∧
      Leaves s.2.toCollections text userId now s'.2.chatRooms := by
    rcases markLeft_cases s.2.toCollections id userId now with
      ⟨none, _⟩ | ⟨room, found, active, done⟩
    · rw [markLeft_absent none] at marks
      rw [Request.alone_bind, marks]
      exact ⟨s, _, rfl, .refused⟩
    · rw [markLeft_answer found active] at marks
      have marked : (execMongo (.markLeft id userId now) s.2).1.toCollections =
          s.2.updateRoom id (ChatRoom.left userId now) := congrArg Prod.fst done
      obtain ⟨s', out, ends, rooms⟩ := sweep_alone
        (s := (s.1, (execMongo (.markLeft id userId now) s.2).1)) named
      rw [Request.alone_bind, marks]
      refine ⟨s', out, ends, ?_⟩
      rcases rooms with stays | gone
      · rw [stays, marked]
        exact .left id room named found active
      · rw [gone, marked]
        exact .closed id room named found active
  have after : (chatService.sequential s (.leave false text userId now)).2 = s'.2 :=
    congrArg (fun out => out.1.2) (leave_alone ends)
  rw [after]
  exact rooms

theorem leave_leaves (isReplicaSet : Bool) (text : String) (userId : Id) (now : Date) :
    Leaves s.2.toCollections text userId now
      (chatService.sequential s (.leave isReplicaSet text userId now)).2.chatRooms := by
  cases named : ObjectId.ofHex text with
  | none =>
    have same : chatService.sequential s (.leave isReplicaSet text userId now) = s := by
      cases isReplicaSet <;>
        simp [Service.sequential, chatService, ChatOp.program, MessagesMongoService.leaveChatroom,
          MessagesMongoService.leaveChatroomWithTransaction,
          MessagesMongoService.leaveChatroomWithoutTransaction, ChatRoomService.markUserAsLeft,
          ChatRoomRepositoryMongo.markParticipantsAsLeft, newObjectId_none named,
          Request.alone_bind, Request.alone_tryCatch]
    rw [same]
    exact .refused
  | some id =>
    cases isReplicaSet with
    | true => exact transaction_leaves named
    | false => exact standalone_leaves named

end

end SecondhandApi
