import SecondhandApi.ChatRequests

/-! Who writes into a room. The messages of a room can be read by its active participants
only; this module says for which sends, request after request, a message is one between
participants. -/
namespace SecondhandApi
open Keyed Interleaving
open Mongo (ChatRoom Collections Message MessageInput)

/-- A message from someone who takes part in the room to somebody else who does or did. -/
def Mongo.ChatRoom.Between (room : ChatRoom) (senderId receiverId : Id) : Prop :=
  room.hasActive senderId = true ∧ receiverId ≠ senderId ∧
    ∃ p ∈ room.participants, p.userId = receiverId

def SentWithin (s : ChatStore) (d : Message) : Prop :=
  ∃ room, s.2.roomNamed d.conversationId = some room ∧ room.Between d.senderId d.receiverId

/-- What a send has to show: its users, its room and a valid document. -/
structure Taken (s : ChatStore) (data : MessageInput) (now : Date) (room : ChatRoom)
    (d : Message) : Prop where
  sender : s.1.users.has data.senderId = true
  receiver : s.1.users.has data.receiverId = true
  room : s.2.roomNamed data.conversationId = some room
  document : data.document now = some d

/-- A send that nothing refuses is one between participants of its room. -/
def Belongs (s : ChatStore) : ChatOp → Prop
  | .send text senderId receiverId content messageType fileUrl fileName now _ =>
    ∀ room d, Taken s (MessageRepositoryMongo.newMessage text senderId receiverId content
      messageType fileUrl fileName) now room d → room.Between senderId receiverId
  | _ => True

/-- Every message that an operation of the run has stored was then sent within its room. -/
def MembersOnly (s : ChatStore) (ops : List ChatOp) : Prop :=
  ∀ before op after, ops = before ++ op :: after → ∀ k d,
    (run chatService.sequential s before).2.messages.find? k = none →
    (run chatService.sequential s (before ++ [op])).2.messages.find? k = some d →
    SentWithin (run chatService.sequential s before) d

section
variable {s : ChatStore}

@[simp] theorem prisma_userFindById_alone (id : Id) :
    (prisma (UsersRepository.findById id)).alone execChat s =
      (s, .ok (s.1.users.find? id)) := rfl

theorem ensureUserExists_alone (id : Id) :
    (prisma (UsersService.ensureUserExists id)).alone execChat s =
      (s, if s.1.users.has id then .ok () else
        .error (.api (.notFound "사용자를 찾을 수 없습니다"))) := by
  rw [prisma, UsersService.ensureUserExists, Request.left_bind, Request.alone_bind,
    ← prisma, prisma_userFindById_alone, Table.has]
  cases s.1.users.find? id <;> rfl

theorem ensureChatRoomExist_alone (text : String) :
    ∃ e, (ChatRoomService.ensureChatRoomExist text).alone execChat s =
      (s, if (s.2.roomNamed text).isSome then .ok () else .error e) := by
  rw [ChatRoomService.ensureChatRoomExist, Mongo.Collections.roomNamed]
  cases named : ObjectId.ofHex text with
  | none =>
    rw [ChatRoomRepositoryMongo.findChatRoomById, newObjectId_none named]
    exact ⟨_, rfl⟩
  | some id =>
    refine ⟨.api (.notFound "대화방을 찾을 수 없습니다"), ?_⟩
    rw [Request.alone_bind, findChatRoomById_alone named, Option.bind_some]
    cases s.2.chatRooms.find? id <;> rfl

/-- The service takes a message or leaves everything as it was. -/
theorem sendMessage_alone (text : String) (senderId receiverId : Id) (content : Field String)
    (messageType : Field MessageType) (fileUrl fileName : Option String) (now : Date) :
    let data := MessageRepositoryMongo.newMessage text senderId receiverId content messageType
      fileUrl fileName
    let sent := (MessageService.sendMessage text senderId receiverId content messageType fileUrl
      fileName now).alone execChat s
    (∃ e, sent = (s, .error e)) ∧ (∀ room d, ¬ Taken s data now room d) ∨
      ∃ room d mid, Taken s data now room d ∧ mid.toCollections = s.2.insertMessage d ∧
        sent = ((s.1, mid), .ok ((s.2.nextId, d),
          MessageService.afterMessageSent text (s.2.nextId, d))) := by
  intro data sent
  obtain ⟨e, exist⟩ := ensureChatRoomExist_alone (s := s) text
  have steps : sent = if s.1.users.has senderId then if s.1.users.has receiverId then
      if (s.2.roomNamed text).isSome then (awaitMongo (.insertMessage data now) >>= fun message =>
        return (message, MessageService.afterMessageSent text message)).alone execChat s
      else (s, .error e) else (s, .error (.api (.notFound "사용자를 찾을 수 없습니다")))
      else (s, .error (.api (.notFound "사용자를 찾을 수 없습니다"))) := by
    dsimp only [sent, MessageService.sendMessage]
    rw [Request.alone_check _ (ensureUserExists_alone senderId),
      Request.alone_check _ (ensureUserExists_alone receiverId), Request.alone_check _ exist]
    rfl
  cases sender : s.1.users.has senderId with
  | false =>
    rw [sender] at steps
    exact Or.inl ⟨⟨_, steps⟩, fun room d taken => by cases sender.symm.trans taken.sender⟩
  | true =>
    cases receiver : s.1.users.has receiverId with
    | false =>
      rw [sender, receiver] at steps
      exact Or.inl ⟨⟨_, steps⟩, fun room d taken => by cases receiver.symm.trans taken.receiver⟩
    | true =>
      cases named : s.2.roomNamed text with
      | none =>
        rw [sender, receiver, named] at steps
        exact Or.inl ⟨⟨_, steps⟩, fun room d taken => by cases named.symm.trans taken.room⟩
      | some room =>
        rw [sender, receiver, named] at steps
        cases valid : data.document now with
        | none =>
          refine Or.inl ⟨⟨.mongo .validation, steps.trans ?_⟩, fun room d taken => ?_⟩
          · refine (awaitMongo_alone _ _).trans ?_
            rw [insert_refused valid]
            rfl
          · cases valid.symm.trans taken.document
        | some d =>
          obtain ⟨after, answer⟩ := insert_stored (m := s.2) valid
          refine Or.inr ⟨room, d, (execMongo (.insertMessage data now) s.2).1,
            ⟨sender, receiver, named, valid⟩, after, steps.trans ?_⟩
          refine (awaitMongo_alone _ _).trans ?_
          rw [answer]
          rfl

theorem updates_keep {A : Type} {p : ChatReq A} {id k : ObjectId} {content : String}
    (updates : Request.Makes (fun c => ∃ now delivery,
      c = .inr (.updateLastMessage id content k now delivery)) p) :
    (p.alone execChat s).1.2.messages = s.2.messages := by
  have keeps (c : ChatCall) (s' : ChatStore) (update : ∃ now delivery,
      c = .inr (.updateLastMessage id content k now delivery))
      (same : s'.2.messages = s.2.messages) : (execChat c s').1.2.messages = s.2.messages := by
    obtain ⟨now, delivery, rfl⟩ := update
    cases delivery <;> exact same
  exact updates.alone_invariant (I := fun s' : ChatStore => s'.2.messages = s.2.messages) keeps rfl

/-- The handler of a message writes to the room only. -/
theorem handler_messages {text : String} {id : ObjectId} (named : ObjectId.ofHex text = some id)
    (message : ObjectId × Message) (attempts : Nat → Attempt) :
    ((settled (UpdateLastMessageHandler.handleEvent (MessageService.afterMessageSent text message)
      attempts) >>= fun handled => (return .sent message handled : ChatReq ChatResponse)).alone
        execChat s).1.2.messages = s.2.messages := by
  have updates := handled_makes (handle_updates named message.1 message.2.message attempts) message
    BaseEventHandler.retryDelay BaseEventHandler.maxRetries 0
  rw [UpdateLastMessageHandler.handleEvent, MessageService.afterMessageSent]
  exact updates_keep updates

/-- A send brings a message exactly when it is taken; its handler brings none. -/
theorem send_brings {text : String} {senderId receiverId : Id} {content : Field String}
    {messageType : Field MessageType} {fileUrl fileName : Option String} {now : Date}
    {attempts : Nat → Attempt} {k : ObjectId} {d : Message}
    (unused : s.2.messages.find? k = none) :
    (chatService.sequential s (.send text senderId receiverId content messageType fileUrl fileName
        now attempts)).2.messages.find? k = some d ↔
      k = s.2.nextId ∧ ∃ room, Taken s (MessageRepositoryMongo.newMessage text senderId receiverId
        content messageType fileUrl fileName) now room d := by
  have steps : chatService.sequential s (.send text senderId receiverId content messageType fileUrl
      fileName now attempts) = ((MessageService.sendMessage text senderId receiverId content
        messageType fileUrl fileName now >>= fun sent =>
          settled (UpdateLastMessageHandler.handleEvent sent.2 attempts) >>= fun handled =>
            (return .sent sent.1 handled : ChatReq ChatResponse)).alone execChat s).1 := rfl
  rw [steps, Request.alone_bind]
  rcases sendMessage_alone (s := s) text senderId receiverId content messageType fileUrl fileName
    now with ⟨⟨e, refused⟩, never⟩ | ⟨room, stored, mid, taken, after, sent⟩
  · rw [refused]
    refine iff_of_false (fun new => ?_) ?_
    · cases unused.symm.trans new
    · rintro ⟨_, room, taken⟩
      exact never room d taken
  · rw [sent]
    obtain ⟨id, named, _⟩ := Option.bind_eq_some_iff.mp taken.room
    have named : ObjectId.ofHex text = some id := named
    dsimp only
    rw [handler_messages named, after, Collections.insertMessage, Table.find?_insert s.2.nextMessage]
    constructor
    · intro new
      by_cases first : k = s.2.nextId
      · rw [if_pos first] at new
        cases new
        exact ⟨first, room, taken⟩
      · rw [if_neg first] at new
        cases unused.symm.trans new
    · rintro ⟨rfl, other, again⟩
      rw [if_pos rfl]
      exact taken.document.symm.trans again.document

/-- Nothing else brings one. -/
theorem other_brings_none {op : ChatOp} (other : op.isSend = false) {k : ObjectId}
    (unused : s.2.messages.find? k = none) :
    (chatService.sequential s op).2.messages.find? k = none := by
  have makes : Request.Makes (fun c => ∀ data now, c ≠ .inr (.insertMessage data now))
      op.program := by
    refine (chat_follows op).makes (fun log c next follow data now same => ?_)
    subst same
    cases other.symm.trans follow.1
  have keeps (c : ChatCall) (s : ChatStore) (other : ∀ data now, c ≠ .inr (.insertMessage data now))
      (unused : ¬ s.2.messages.has k = true) : ¬ (execChat c s).1.2.messages.has k = true := by
    rcases c with c | c
    · exact unused
    · exact fun has => unused (has_message (fun data now same => other data now (same ▸ rfl)) has)
  exact Table.not_has_iff.mp (makes.alone_invariant keeps (Table.not_has_iff.mpr unused))

/-- A step keeps to the rule exactly when its send belongs into the room. -/
theorem within_iff (op : ChatOp) :
    (∀ k d, s.2.messages.find? k = none →
      (chatService.sequential s op).2.messages.find? k = some d → SentWithin s d) ↔
      Belongs s op := by
  cases op with
  | send text senderId receiverId content messageType fileUrl fileName now attempts =>
    constructor
    · intro within room d taken
      obtain ⟨other, named, between⟩ := within s.2.nextId d s.2.nextMessage
        ((send_brings s.2.nextMessage).mpr ⟨rfl, room, taken⟩)
      obtain ⟨conversation, sender, receiver, _⟩ := document_fields taken.document
      rw [conversation, taken.room] at named
      cases named
      rwa [sender, receiver] at between
    · intro belongs k d unused new
      obtain ⟨_, room, taken⟩ := (send_brings unused).mp new
      obtain ⟨conversation, sender, receiver, _⟩ := document_fields taken.document
      refine ⟨room, conversation ▸ taken.room, ?_⟩
      rw [sender, receiver]
      exact belongs room d taken
  | _ =>
    refine iff_of_true (fun k d unused new => ?_) trivial
    cases (other_brings_none rfl unused).symm.trans new

end

/-- In every run every message was sent within its room exactly when every send that nothing
refuses comes from an active participant and goes to another one. -/
theorem members_only_iff (s : ChatStore) (ops : List ChatOp) :
    MembersOnly s ops ↔ Along chatService.sequential Belongs s ops := by
  rw [along_iff_at]
  refine forall_congr' fun before => forall_congr' fun op => forall_congr' fun after =>
    forall_congr' fun _ => ?_
  rw [← within_iff, run_append]
  rfl

/-- Ann and Bob talk about the lamp; Cho, who is in no room, writes to Ann in theirs. -/
def outsiderSends : List ChatOp :=
  [.findOrCreate "ann" "bob" "lamp" 1,
    .send firstRoom "cho" "ann" (.value "hello") .undefined none none 2 (fun _ => { now := 3 })]

theorem outsider_sends : ¬ ∀ s ops, MembersOnly s ops := by
  intro always
  have within := always (market, noRooms) outsiderSends [outsiderSends[0]] outsiderSends[1] [] rfl 1
    { conversationId := firstRoom, senderId := "cho", receiverId := "ann", message := "hello",
      messageType := some .text, createdAt := 2, updatedAt := 2 } (by decide +kernel)
    (by decide +kernel)
  obtain ⟨room, named, active, _⟩ := within
  have first : (run chatService.sequential (market, noRooms) [outsiderSends[0]]).2.roomNamed
      firstRoom = some (Collections.newRoom "lamp" "ann" "bob" 1) := by decide +kernel
  cases first.symm.trans named
  exact absurd active (by decide)

end SecondhandApi
