import SecondhandApi.ChatCalls
import SecondhandApi.Operations

/-! What the requests of the chat do after each of their calls: how a leave goes on from the
mark to the deletions, and how a send goes on from the message to its handler. -/
namespace SecondhandApi
open Keyed Interleaving
open Mongo (Collections ChatRoom Message MessageInput Participant Delivery UpdateResult)

abbrev ChatCall : Type := Call ⊕ MongoCall
abbrev ChatReply : ChatCall → Type := Sum.elim Call.Reply MongoCall.Reply
abbrev ChatLog : Type := List (Answer ChatCall ChatReply)
abbrev ChatThread : Type := Thread ChatOp ChatCall ChatReply ChatError ChatResponse
abbrev ChatPool : Type := Pool ChatStore ChatOp ChatCall ChatReply ChatError ChatResponse

def ChatOp.isSend : ChatOp → Bool
  | .send .. => true
  | _ => false

/- The operations that write messages. -/
def ChatOp.onMessages : ChatOp → Bool
  | .markRead .. => true
  | op => op.isSend

/-- What is left of a request that has stored message `k`: as long as its updates fail it
tries again, and when it stops trying it answers so. -/
inductive StillToShow (id k : ObjectId) (text : String) : ChatReq ChatResponse → Prop where
  | update {now delivery next} (again : ∀ e, StillToShow id k text (next (.error e))) :
      StillToShow id k text (.call (.inr (.updateLastMessage id text k now delivery)) next)
  | failed {message e} : StillToShow id k text (.done (.sent message (.error e)))

/-- After each call, the call that follows on the answers that matter. -/
def chatFollow (op : ChatOp) (log : ChatLog) :
    (c : ChatCall) → (ChatReply c → ChatReq ChatResponse) → Prop
  | .inl c, _ => c.reads = true
  | .inr (.saveRoom _ _ _ _), _ => ∃ senderId receiverId productId now,
    op = .findOrCreate senderId receiverId productId now
  | .inr (.findRoomById id), next => ∀ text userId now, op = .leave false text userId now →
    ∀ room : ChatRoom, room.participantsCount = 0 →
      (next (.ok (some room))).pending = some (.inr (.deleteRoom id))
  | .inr (.updateLastMessage id text k _ _), _ => op.isSend = true ∧
    ∃ (data : MessageInput) (now : Date) (d : Message),
      ⟨.inr (.insertMessage data now), .ok (k, d)⟩ ∈ log ∧
        ObjectId.ofHex data.conversationId = some id ∧ text = d.message
  | .inr (.markLeft id userId now), next => ∃ text, op = .leave false text userId now ∧
    ObjectId.ofHex text = some id ∧ (∃ e, next (.ok ⟨0, 0⟩) = .fail e) ∧
    (next (.ok ⟨1, 1⟩)).pending = some (.inr (.findRoomById id))
  | .inr (.deleteRoom id), next => ∃ text userId now, op = .leave false text userId now ∧
    ObjectId.ofHex text = some id ∧
    (∃ room : ChatRoom, ⟨.inr (.findRoomById id), .ok (some room)⟩ ∈ log ∧
      room.participantsCount = 0) ∧
    (next (.ok ())).pending = some (.inr (.deleteMessages text))
  | .inr (.leaveTransaction id text userId now), _ => op = .leave true text userId now ∧
    ObjectId.ofHex text = some id
  | .inr (.insertMessage data _), next => op.isSend = true ∧
    ∃ id, ObjectId.ofHex data.conversationId = some id ∧
      ∀ k d, StillToShow id k d.message (next (.ok (k, d)))
  | .inr (.markRead text userId now), _ => op = .markRead text userId now
  | .inr (.deleteMessages text), _ => ∃ userId now, op = .leave false text userId now
  | _, _ => True

section
variable {op : ChatOp} {log : ChatLog} {text : String} {id : ObjectId}

/-- One call of a request that runs alone. -/
theorem awaitMongo_alone {A : Type} {s : ChatStore} (c : MongoCall) (f : c.Result → ChatReq A) :
    (awaitMongo c >>= f).alone execChat s =
      (settleMongo (execMongo c s.2).2 >>= f).alone execChat (s.1, (execMongo c s.2).1) := rfl

/-- Reads leave both databases as they were, and so does an insert that is refused. -/
theorem chat_reads {c : MongoCall} (reads : c.reads = true) (s : ChatStore) :
    (execChat (.inr c) s).1 = s := Prod.ext rfl (mongo_reads reads s.2)

theorem chat_refused {data : MessageInput} {now : Date} (invalid : data.document now = none)
    (s : ChatStore) : (execChat (.inr (.insertMessage data now)) s).1 = s :=
  Prod.ext rfl (congrArg Prod.fst (insert_refused invalid))

theorem newObjectId_some (named : ObjectId.ofHex text = some id) : newObjectId text = .done id := by
  rw [newObjectId, named]
  rfl

theorem newObjectId_none (unnamed : ObjectId.ofHex text = none) :
    newObjectId text = .fail (.mongo .badObjectId) := by
  rw [newObjectId, unnamed]
  rfl

theorem findChatRoomById_alone {s : ChatStore} (named : ObjectId.ofHex text = some id) :
    (ChatRoomRepositoryMongo.findChatRoomById text).alone execChat s =
      (s, .ok (s.2.chatRooms.find? id)) := by
  rw [ChatRoomRepositoryMongo.findChatRoomById, newObjectId_some named]
  rfl

/- A check on a user or a product, and what comes after it. -/
theorem follows_prisma {A : Type} {p : Req A} (reads : Request.Makes (fun c => c.reads = true) p)
    {f : A → ChatReq ChatResponse} (rest : ∀ a log, Request.Follows (chatFollow op) log (f a)) :
    Request.Follows (chatFollow op) log (prisma p >>= f) := by
  have free (log : ChatLog) : ∀ (c : ChatCall) next, (∃ d, c = .inl d ∧ d.reads = true) →
      chatFollow op log c next := by
    rintro c next ⟨d, rfl, reads⟩
    exact reads
  refine Request.follows_bind (fun log c next => free log c next) ?_ rest
  exact Request.makes_left _ (reads.mono (fun c here => ⟨c, rfl, here⟩))

theorem ensureUserExists_makes (userId : Id) :
    Request.Makes (fun c => c.reads = true) (UsersService.ensureUserExists userId) := by
  refine ⟨rfl, fun r => ?_⟩
  rcases r with e | _ | user <;> trivial

theorem ensureProductExists_makes (productId : Id) :
    Request.Makes (fun c => c.reads = true) (ProductsService.ensureProductExists productId) := by
  refine ⟨rfl, fun r => ?_⟩
  rcases r with e | _ | product <;> trivial

theorem findOrCreate_follows (senderId receiverId productId : Id) (now : Date) :
    Request.Follows (chatFollow (.findOrCreate senderId receiverId productId now)) log
      (ChatOp.findOrCreate senderId receiverId productId now).program := by
  rw [ChatOp.program, Request.map_eq, ChatRoomService.findOrCreateChatroom, Request.bind_assoc]
  refine follows_prisma (ensureUserExists_makes senderId) (fun _ log => ?_)
  rw [Request.bind_assoc]
  refine follows_prisma (ensureUserExists_makes receiverId) (fun _ log => ?_)
  rw [Request.bind_assoc]
  refine follows_prisma (ensureProductExists_makes productId) (fun _ log => ?_)
  refine ⟨trivial, fun r => ?_⟩
  rcases r with e | _ | ⟨room, rooms⟩
  · trivial
  · refine ⟨⟨senderId, receiverId, productId, now, rfl⟩, fun r => ?_⟩
    cases r <;> trivial
  · trivial

theorem leave_follows (isReplicaSet : Bool) (userId : Id) (now : Date) :
    Request.Follows (chatFollow (.leave isReplicaSet text userId now)) log
      (ChatOp.leave isReplicaSet text userId now).program := by
  cases isReplicaSet with
  | true =>
    cases named : ObjectId.ofHex text with
    | none =>
      simp only [ChatOp.program, MessagesMongoService.leaveChatroom, if_true,
        MessagesMongoService.leaveChatroomWithTransaction, newObjectId_none named]
      trivial
    | some id =>
      simp only [ChatOp.program, MessagesMongoService.leaveChatroom, if_true,
        MessagesMongoService.leaveChatroomWithTransaction, newObjectId_some named]
      refine ⟨⟨rfl, named⟩, fun r => ?_⟩
      rcases r with e | ⟨_ | matched, _ | modified⟩ <;> trivial
  | false =>
    cases named : ObjectId.ofHex text with
    | none =>
      simp only [ChatOp.program, MessagesMongoService.leaveChatroom, Bool.false_eq_true, if_false,
        MessagesMongoService.leaveChatroomWithoutTransaction, ChatRoomService.markUserAsLeft,
        ChatRoomRepositoryMongo.markParticipantsAsLeft, newObjectId_none named]
      trivial
    | some id =>
      simp only [ChatOp.program, MessagesMongoService.leaveChatroom, Bool.false_eq_true, if_false,
        MessagesMongoService.leaveChatroomWithoutTransaction, ChatRoomService.markUserAsLeft,
        ChatRoomService.isChatRoomEmpty, ChatRoomService.removeChatRoomById,
        ChatRoomRepositoryMongo.markParticipantsAsLeft, ChatRoomRepositoryMongo.findChatRoomById,
        ChatRoomRepositoryMongo.deleteChatRoom, newObjectId_some named]
      refine ⟨⟨text, rfl, named, ⟨_, rfl⟩, rfl⟩, fun r => ?_⟩
      rcases r with e | ⟨_ | matched, _ | modified⟩ <;> try trivial
      -- the mark was made: the room is read again
      have checked (room : ChatRoom) : (some room).any (fun room => decide
          (room.participantsCount = 0)) = decide (room.participantsCount = 0) := rfl
      refine ⟨fun _ _ _ _ room empty => ?_, fun r => ?_⟩
      · dsimp only [settleMongo, bind, Request.bind]
        rw [checked, decide_eq_true empty]
        rfl
      · rcases r with e | _ | room <;> try trivial
        dsimp only [settleMongo, bind, Request.bind]
        by_cases empty : room.participantsCount = 0
        · rw [checked, decide_eq_true empty]
          refine ⟨⟨text, userId, now, rfl, named, ⟨room, List.mem_cons_self, empty⟩, rfl⟩,
            fun r => ?_⟩
          rcases r with e | _
          · trivial
          · refine ⟨⟨userId, now, rfl⟩, fun r => ?_⟩
            cases r <;> trivial
        · rw [checked, decide_eq_false empty]
          trivial

/-- The handler of message `k` updates the room until it is answered or gives up. -/
theorem execute_shows {handle : Nat → ChatReq Unit} {k : ObjectId} {content : String}
    (updates : ∀ n, ∃ now delivery,
      handle n = awaitMongo (.updateLastMessage id content k now delivery))
    (message : ObjectId × Message) (delay left retryCount : Nat) :
    StillToShow id k content
      (settled (BaseEventHandler.execute handle (fun _ => return ()) delay left retryCount) >>=
        fun handled => return .sent message handled) := by
  obtain ⟨now, delivery, same⟩ := updates retryCount
  induction left generalizing retryCount now delivery with
  | zero =>
    rw [BaseEventHandler.execute, same]
    exact .update (fun e => .failed)
  | succ left ih =>
    rw [BaseEventHandler.execute, same]
    refine .update (fun e => ?_)
    obtain ⟨now, delivery, same⟩ := updates (retryCount + 1)
    exact ih (retryCount + 1) now delivery same

/-- It makes no other calls. -/
theorem handled_makes {handle : Nat → ChatReq Unit} {k : ObjectId} {content : String}
    (updates : ∀ n, ∃ now delivery,
      handle n = awaitMongo (.updateLastMessage id content k now delivery))
    (message : ObjectId × Message) (delay left retryCount : Nat) :
    Request.Makes (fun c => ∃ now delivery, c = .inr (.updateLastMessage id content k now delivery))
      (settled (BaseEventHandler.execute handle (fun _ => return ()) delay left retryCount) >>=
        fun handled => (return .sent message handled : ChatReq ChatResponse)) := by
  have attempt (n : Nat) : Request.Makes
      (fun c => ∃ now delivery, c = .inr (.updateLastMessage id content k now delivery))
      (handle n) := by
    obtain ⟨now, delivery, same⟩ := updates n
    rw [same]
    refine ⟨⟨now, delivery, rfl⟩, fun r => ?_⟩
    cases r <;> trivial
  have execution : Request.Makes
      (fun c => ∃ now delivery, c = .inr (.updateLastMessage id content k now delivery))
      (BaseEventHandler.execute handle (fun _ => return ()) delay left retryCount) := by
    induction left generalizing retryCount with
    | zero => exact attempt retryCount
    | succ left ih => exact Request.makes_tryCatch (attempt retryCount) (fun _ => ih (retryCount + 1))
  exact Request.makes_bind
    (Request.makes_tryCatch (Request.makes_map execution _) (fun _ => trivial)) (fun _ => trivial)

theorem handle_updates (named : ObjectId.ofHex text = some id) (k : ObjectId) (content : String)
    (attempts : Nat → Attempt) (n : Nat) : ∃ now delivery,
      UpdateLastMessageHandler.handle ⟨k, text, content⟩ (attempts n) =
        awaitMongo (.updateLastMessage id content k now delivery) := by
  refine ⟨(attempts n).now, (attempts n).delivery, ?_⟩
  rw [UpdateLastMessageHandler.handle, ChatRoomService.updateLastMessage,
    ChatRoomRepositoryMongo.updateLastMessage, newObjectId_some named]
  rfl

theorem send_follows (senderId receiverId : Id) (content : Field String)
    (messageType : Field MessageType) (fileUrl fileName : Option String) (now : Date)
    (attempts : Nat → Attempt) :
    Request.Follows (chatFollow (.send text senderId receiverId content messageType fileUrl
      fileName now attempts)) log (ChatOp.send text senderId receiverId content messageType fileUrl
        fileName now attempts).program := by
  rw [ChatOp.program, MessageService.sendMessage, Request.bind_assoc]
  refine follows_prisma (ensureUserExists_makes senderId) (fun _ log => ?_)
  rw [Request.bind_assoc]
  refine follows_prisma (ensureUserExists_makes receiverId) (fun _ log => ?_)
  rw [Request.bind_assoc, ChatRoomService.ensureChatRoomExist,
    ChatRoomRepositoryMongo.findChatRoomById]
  cases named : ObjectId.ofHex text with
  | none =>
    rw [newObjectId_none named]
    trivial
  | some id =>
    rw [newObjectId_some named]
    refine ⟨nofun, fun r => ?_⟩
    rcases r with e | _ | room <;> try trivial
    refine ⟨⟨rfl, id, named, fun k d => ?_⟩, fun r => ?_⟩
    · exact execute_shows (handle_updates named k d.message attempts) (k, d) _ _ _
    · rcases r with e | ⟨k, d⟩
      · trivial
      · refine Request.Makes.follows (fun later c next kept here => ?_)
          (handled_makes (handle_updates named k d.message attempts) (k, d) _ _ _)
        obtain ⟨now, delivery, rfl⟩ := here
        exact ⟨rfl, _, _, d, kept _ List.mem_cons_self, named, rfl⟩

theorem findMessages_follows (userId : Id) (pagination : PaginationOptions)
    (ties : ObjectId → Nat) :
    Request.Follows (chatFollow (.findMessages text userId pagination ties)) log
      (ChatOp.findMessages text userId pagination ties).program := by
  rw [ChatOp.program, Request.map_eq, MessageService.findMessagesByRoomId,
    ChatRoomService.ensureUserCanAccessChatRoom, ChatRoomRepositoryMongo.findChatRoomById]
  cases named : ObjectId.ofHex text with
  | none =>
    rw [newObjectId_none named]
    trivial
  | some id =>
    rw [newObjectId_some named]
    refine ⟨nofun, fun r => ?_⟩
    rcases r with e | _ | room <;> try trivial
    dsimp only [settleMongo, bind, Request.bind]
    cases active : room.hasActive userId with
    | false => trivial
    | true =>
      refine ⟨trivial, fun r => ?_⟩
      cases r with
      | error e => trivial
      | ok items =>
        refine ⟨trivial, fun r => ?_⟩
        cases r <;> trivial

theorem chat_follows (op : ChatOp) : Request.Follows (chatFollow op) [] op.program := by
  cases op with
  | findOrCreate senderId receiverId productId now =>
    exact findOrCreate_follows senderId receiverId productId now
  | send text senderId receiverId content messageType fileUrl fileName now attempts =>
    exact send_follows senderId receiverId content messageType fileUrl fileName now attempts
  | findMessages roomId userId pagination ties => exact findMessages_follows userId pagination ties
  | markRead roomId userId now =>
    refine ⟨rfl, fun r => ?_⟩
    cases r <;> trivial
  | countUnread roomId userId =>
    refine ⟨trivial, fun r => ?_⟩
    cases r <;> trivial
  | leave isReplicaSet text userId now => exact leave_follows isReplicaSet userId now

/-- Their writing calls. -/
theorem message_writes {c : MongoCall} {next : ChatReply (.inr c) → ChatReq ChatResponse}
    (scope : op.onMessages = true) (follow : chatFollow op log (.inr c) next) : c.reads = true ∨
      (∃ data now, c = .insertMessage data now) ∨
      (∃ id text k now delivery, c = .updateLastMessage id text k now delivery) ∨
      ∃ text userId now, c = .markRead text userId now := by
  cases c with
  | insertMessage data now => exact Or.inr (Or.inl ⟨data, now, rfl⟩)
  | updateLastMessage id text k now delivery =>
    exact Or.inr (Or.inr (Or.inl ⟨id, text, k, now, delivery, rfl⟩))
  | markRead text userId now => exact Or.inr (Or.inr (Or.inr ⟨text, userId, now, rfl⟩))
  | saveRoom =>
    obtain ⟨_, _, _, _, rfl⟩ := follow
    cases scope
  | markLeft =>
    obtain ⟨_, rfl, _⟩ := follow
    cases scope
  | deleteRoom =>
    obtain ⟨_, _, _, rfl, _⟩ := follow
    cases scope
  | leaveTransaction =>
    obtain ⟨rfl, _⟩ := follow
    cases scope
  | deleteMessages =>
    obtain ⟨_, _, rfl⟩ := follow
    cases scope
  | _ => exact Or.inl rfl

theorem chatFollowing_step {p : ChatPool} (following : Service.Following chatFollow p) (turn : Turn ChatOp) :
    Service.Following chatFollow (chatService.step p turn) := by
  have every (op : ChatOp) (_ : True) : Request.Follows (chatFollow op) [] op.program :=
    chat_follows op
  exact Service.following_step every following (fun _ _ => trivial)

end

/-! A chat without rooms, whose first room gets the ObjectId 0, and one in which that room is
Ann's and Bob's. -/

def noRooms : Mongo where
  chatRooms := Table.empty
  messages := Table.empty
  nextId := 0
  drawn := ⟨nofun, nofun⟩

def firstRoom : String := "000000000000000000000000"

def oneRoom : Mongo where
  toCollections := noRooms.insertRoom (Collections.newRoom "lamp" "ann" "bob" 1)
  drawn := noRooms.drawn.insertRoom _

def hello : ChatOp :=
  .send firstRoom "ann" "bob" (.value "hello") .undefined none none 2 (fun _ => { now := 3 })

def answerHello : ChatOp :=
  .send firstRoom "bob" "ann" (.value "hi") .undefined none none 3 (fun _ => { now := 4 })

end SecondhandApi
