import SecondhandApi.ChatRequests

/-! Messages and their rooms. A message carries the id of its room as a string and nothing in
the database ties the two. A send looks for the room and then inserts; the last leave deletes
the room and then the messages. This module says when no message outlives its room. -/
namespace SecondhandApi
open Keyed Interleaving
open Mongo (ChatRoom Collections Message MessageInput)

/-- Every message is in a conversation that has a room. -/
def NoOrphans (s : ChatStore) : Prop :=
  ∀ k d, s.2.messages.find? k = some d → (s.2.roomNamed d.conversationId).isSome = true

/-- The request is going to delete the messages of the conversation. -/
def sweeps (text : String) : ChatReq ChatResponse → Bool
  | .call (.inr (.deleteMessages conversationId)) _ => conversationId = text
  | .call (.inr (.deleteRoom _)) next => match (next (.ok ())).pending with
    | some (.inr (.deleteMessages conversationId)) => conversationId = text
    | _ => false
  | _ => false

/-- The request has found the room and is about to store a message in the conversation. -/
def stores (text : String) (rest : ChatReq ChatResponse) : Bool :=
  match rest.pending with
  | some (.inr (.insertMessage data now)) =>
    data.conversationId = text && (data.document now).isSome
  | _ => false

/-- The calls that delete the messages of a conversation once its room is gone, and those that
delete both. -/
inductive EndsRoom (s : ChatStore) (room : ObjectId) (text : String) : ChatCall → Prop where
  | after (named : ObjectId.ofHex text = some room) :
      EndsRoom s room text (.inr (.deleteMessages text))
  | atOnce {userId now} (last : ChatRoom) (found : s.2.chatRooms.find? room = some last)
      (active : last.hasActive userId = true) (only : last.participantsCount = 1) :
      EndsRoom s room text (.inr (.leaveTransaction room text userId now))

/-- What the i-th request does not delete with the conversation, some other request is going to
delete: the messages that name the room by another string, and those of the sends that have
found the room and have not inserted yet. -/
def LeavesNothing (p : ChatPool) (i : Nat) (room : ObjectId) (text : String) : Prop :=
  ∀ conversation, ObjectId.ofHex conversation = some room →
    (conversation ≠ text ∧
      ∃ k d, p.store.2.messages.find? k = some d ∧ d.conversationId = conversation) ∨
    (∃ u ∈ p.threads, stores conversation u.rest = true) →
    ∃ j u, j ≠ i ∧ p.threads[j]? = some u ∧ sweeps conversation u.rest = true

/-- Where a call ends a room, it leaves nothing of it. -/
def EndsClean (p : ChatPool) : Turn ChatOp → Prop
  | .arrive _ => True
  | .call i => ∀ t c, p.threads[i]? = some t → t.rest.pending = some c →
    ∀ room text, EndsRoom p.store room text c → LeavesNothing p i room text

/-! The order of the calls. A send inserts right after it has found the room; a leave deletes
the room right after it has found it, and the messages right after the room. -/

def Fresh (log : ChatLog) : ChatCall → Prop
  | .inr (.insertMessage data _) => ∃ id room, ObjectId.ofHex data.conversationId = some id ∧
    log.head? = some ⟨.inr (.findRoomById id), .ok (some room)⟩
  | .inr (.deleteRoom id) => ∃ room, log.head? = some ⟨.inr (.findRoomById id), .ok (some room)⟩
  | .inr (.deleteMessages text) => ∃ id, ObjectId.ofHex text = some id ∧
    log.head? = some ⟨.inr (.deleteRoom id), .ok ()⟩
  | _ => True

/- The calls that may come at any time. -/
def anyTime : ChatCall → Bool
  | .inr (.insertMessage _ _) => false
  | .inr (.deleteRoom _) => false
  | .inr (.deleteMessages _) => false
  | _ => true

def freshFollow (log : ChatLog) (c : ChatCall) (_ : ChatReply c → ChatReq ChatResponse) : Prop :=
  Fresh log c

section
variable {op : ChatOp} {log : ChatLog} {text : String} {id : ObjectId}

theorem fresh_free {c : ChatCall} (free : anyTime c = true) (log : ChatLog) : Fresh log c := by
  rcases c with c | c
  · trivial
  · cases c <;> trivial

theorem fresh_makes {p : ChatReq ChatResponse} (h : Request.Makes (fun c => anyTime c = true) p) :
    Request.Follows freshFollow log p :=
  h.follows (fun later _ _ _ free => fresh_free free later)

theorem fresh_prisma {A : Type} {p : Req A} (reads : Request.Makes (fun c => c.reads = true) p)
    {f : A → ChatReq ChatResponse} (rest : ∀ a log, Request.Follows freshFollow log (f a)) :
    Request.Follows freshFollow log (prisma p >>= f) := by
  refine Request.follows_bind (P := fun c => anyTime c = true)
    (fun log c _ free => fresh_free free log) ?_ rest
  exact Request.makes_left _ (reads.mono (fun _ _ => rfl))

theorem send_fresh (senderId receiverId : Id) (content : Field String)
    (messageType : Field MessageType) (fileUrl fileName : Option String) (now : Date)
    (attempts : Nat → Attempt) :
    Request.Follows freshFollow log (ChatOp.send text senderId receiverId content messageType
      fileUrl fileName now attempts).program := by
  rw [ChatOp.program, MessageService.sendMessage, Request.bind_assoc]
  apply fresh_prisma (ensureUserExists_makes senderId)
  intro _ log
  rw [Request.bind_assoc]
  apply fresh_prisma (ensureUserExists_makes receiverId)
  intro _ log
  rw [Request.bind_assoc, ChatRoomService.ensureChatRoomExist,
    ChatRoomRepositoryMongo.findChatRoomById]
  cases named : ObjectId.ofHex text with
  | none =>
    rw [newObjectId_none named]
    trivial
  | some id =>
    rw [newObjectId_some named]
    refine ⟨trivial, fun r => ?_⟩
    rcases r with e | _ | room <;> try trivial
    refine ⟨⟨id, room, named, rfl⟩, fun r => ?_⟩
    rcases r with e | ⟨k, d⟩
    · trivial
    · have updates := handled_makes (handle_updates named k d.message attempts) (k, d)
      refine fresh_makes ((updates _ _ _).mono (fun c update => ?_))
      obtain ⟨now, delivery, rfl⟩ := update
      rfl

theorem leave_fresh (userId : Id) (now : Date) :
    Request.Follows freshFollow log (ChatOp.leave false text userId now).program := by
  cases named : ObjectId.ofHex text with
  | none =>
    simp only [ChatOp.program, MessagesMongoService.leaveChatroom, Bool.false_eq_true, if_false,
      MessagesMongoService.leaveChatroomWithoutTransaction, ChatRoomService.markUserAsLeft,
      ChatRoomRepositoryMongo.markParticipantsAsLeft, newObjectId_none named]
    trivial
  | some id =>
    simp only [ChatOp.program, MessagesMongoService.leaveChatroom, Bool.false_eq_true, if_false,
      MessagesMongoService.leaveChatroomWithoutTransaction, ChatRoomService.markUserAsLeft,
      ChatRoomService.isChatRoomEmpty, ChatRoomService.removeChatRoomById,
      ChatRoomRepositoryMongo.markParticipantsAsLeft, ChatRoomRepositoryMongo.findChatRoomById,
      ChatRoomRepositoryMongo.deleteChatRoom, newObjectId_some named]
    refine ⟨trivial, fun r => ?_⟩
    rcases r with e | ⟨_ | matched, _ | modified⟩ <;> try trivial
    refine ⟨trivial, fun r => ?_⟩
    rcases r with e | _ | room <;> try trivial
    dsimp only [settleMongo, bind, Request.bind]
    cases (some room).any (fun room => decide (room.participantsCount = 0)) with
    | false => trivial
    | true =>
      refine ⟨⟨room, rfl⟩, fun r => ?_⟩
      cases r with
      | error e => trivial
      | ok _ =>
        refine ⟨⟨id, named, rfl⟩, fun r => ?_⟩
        cases r <;> trivial

/-- The calls of all other requests may come at any time. -/
theorem others_free
    (other : op.isSend = false ∧ ∀ text userId now, op ≠ .leave false text userId now) :
    Request.Makes (fun c => anyTime c = true) op.program := by
  apply (chat_follows op).makes
  intro log c next follow
  rcases c with c | c
  · rfl
  cases c with
  | insertMessage data now => cases other.1.symm.trans follow.1
  | deleteRoom id =>
    obtain ⟨text, userId, now, leaving, _⟩ := follow
    exact absurd leaving (other.2 text userId now)
  | deleteMessages text =>
    obtain ⟨userId, now, leaving⟩ := follow
    exact absurd leaving (other.2 text userId now)
  | _ => rfl

theorem chat_fresh (op : ChatOp) : Request.Follows freshFollow [] op.program := by
  cases op with
  | send text senderId receiverId content messageType fileUrl fileName now attempts =>
    exact send_fresh senderId receiverId content messageType fileUrl fileName now attempts
  | leave isReplicaSet text userId now =>
    cases isReplicaSet with
    | true => exact fresh_makes (others_free ⟨rfl, nofun⟩)
    | false => exact leave_fresh userId now
  | _ => exact fresh_makes (others_free ⟨rfl, nofun⟩)

end

/-! What the requests know of the rooms. -/

/-- A room that was read has been made; one that was deleted does not come back. -/
def Recalls (s : ChatStore) (a : Answer ChatCall ChatReply) : Prop :=
  ∀ r, (∀ room, a = ⟨.inr (.findRoomById r), .ok (some room)⟩ → r < s.2.nextId) ∧
    (a = ⟨.inr (.deleteRoom r), .ok ()⟩ →
      r < s.2.nextId ∧ s.2.chatRooms.find? r = none)

/-- What is kept in every interleaving. -/
structure ChatOrdered (p : ChatPool) : Prop where
  following : Service.Following chatFollow p
  fresh : Service.Following (fun _ => freshFollow) p
  recalled : Service.Logged Recalls p
  named : ∀ k d, p.store.2.messages.find? k = some d → ∃ r, ObjectId.ofHex d.conversationId = some r

section
variable {p : ChatPool}

theorem stays_drawn {s : ChatStore} (c : ChatCall) {r : ObjectId} (drawn : r < s.2.nextId) :
    r < (execChat c s).1.2.nextId := by
  cases c with
  | inl c => exact drawn
  | inr c => exact Nat.lt_of_lt_of_le drawn (nextId_grows c s.2)

theorem stays_gone {s : ChatStore} (c : ChatCall) {r : ObjectId} (drawn : r < s.2.nextId)
    (gone : s.2.chatRooms.find? r = none) : (execChat c s).1.2.chatRooms.find? r = none := by
  cases c with
  | inl c => exact gone
  | inr c =>
    cases there : (execMongo c s.2).1.chatRooms.find? r with
    | none => exact there
    | some room =>
      obtain ⟨old, found⟩ := (room_effect there).before drawn
      cases gone.symm.trans found

theorem ChatOrdered.step (h : ChatOrdered p) (turn : Turn ChatOp) :
    ChatOrdered (chatService.step p turn) where
  following := chatFollowing_step h.following turn
  fresh := by
    have programs (op : ChatOp) (_ : True) : Request.Follows freshFollow [] op.program :=
      chat_fresh op
    exact Service.following_step programs h.fresh (fun _ _ => trivial)
  recalled := by
    apply chatService.logged_step h.recalled turn
    intro i t c next called ht hr
    constructor
    · intro r
      constructor
      · intro room answer
        obtain ⟨rfl, reply⟩ := Answer.mk.inj answer
        have stored : p.store.2.chatRooms.find? r = some room := Except.ok.inj (eq_of_heq reply)
        exact p.store.2.drawn.1 r (Table.has_iff.mpr ⟨room, stored⟩)
      · intro answer
        obtain ⟨rfl, _⟩ := Answer.mk.inj answer
        obtain ⟨room, read⟩ := Service.following_pending h.fresh ht hr
        have inside := List.mem_of_getElem? ht
        have drawn := (h.recalled t inside _ (List.mem_of_mem_head? read) r).1 room rfl
        exact ⟨drawn, (Table.find?_erase p.store.2.chatRooms r r).trans (if_pos rfl)⟩
    · intro u _ a _ before r
      obtain ⟨read, deleted⟩ := before r
      refine ⟨fun room seen => stays_drawn c (read room seen), fun seen => ?_⟩
      obtain ⟨drawn, gone⟩ := deleted seen
      exact ⟨stays_drawn c drawn, stays_gone c drawn gone⟩
  named := by
    apply chatService.store_step (I := fun s => ∀ k d, s.2.messages.find? k = some d →
      ∃ r, ObjectId.ofHex d.conversationId = some r) h.named turn
    intro i t c next _ ht hr k d there
    rcases c with c | c
    · exact h.named k d there
    · rcases message_effect there with ⟨data, now, rfl, valid, _⟩ | ⟨old, found, same⟩
      · obtain ⟨id, _, named, _⟩ := Service.following_pending h.fresh ht hr
        exact ⟨id, (congrArg ObjectId.ofHex (document_fields valid).1).trans named⟩
      · exact same ▸ h.named k old found

theorem chatOrdered_idle {s : ChatStore} (start : NoOrphans s) : ChatOrdered (Pool.idle s) where
  following _ none := by cases none
  fresh _ none := by cases none
  recalled _ none := by cases none
  named k d found := by
    obtain ⟨room, roomed⟩ := Option.isSome_iff_exists.mp (start k d found)
    obtain ⟨r, named, _⟩ := Option.bind_eq_some_iff.mp roomed
    exact ⟨r, named⟩

end

/-- There are messages in the conversation, or one is about to be stored there. -/
def Lives (conversation : String) (p : ChatPool) : Prop :=
  (∃ k d, p.store.2.messages.find? k = some d ∧ d.conversationId = conversation) ∨
    ∃ u ∈ p.threads, stores conversation u.rest = true

/-! What the end of a room leaves. -/

section
variable {s : ChatStore} {room : ObjectId} {text : String} {c : ChatCall}

/-- The last leave of a room, in a transaction. -/
theorem left_last (text : String) (now : Date) {m : Mongo} {userId : Id} {last : ChatRoom}
    (found : m.chatRooms.find? room = some last) (active : last.hasActive userId = true)
    (only : last.participantsCount = 1) :
    (execMongo (.leaveTransaction room text userId now) m).1.toCollections =
      ((m.updateRoom room (ChatRoom.left userId now)).deleteRoom room).deleteMessages text := by
  have effect := mongo_effect (.leaveTransaction room text userId now) m
  generalize (execMongo (.leaveTransaction room text userId now) m).2 = reply at effect
  generalize (execMongo (.leaveTransaction room text userId now) m).1.toCollections = after
    at effect ⊢
  cases effect with
  | read reads => cases reads
  | refusedLeave nobody =>
    rw [found, Option.any_some, active] at nobody
    cases nobody
  | leftOthers again there _ others =>
    cases found.symm.trans there
    exact absurd only others
  | leftLast => rfl

theorem EndsRoom.swept (e : EndsRoom s room text c) {k : ObjectId} {d : Message}
    (kept : (execChat c s).1.2.messages.find? k = some d) : d.conversationId ≠ text := by
  cases e with
  | after named => exact of_decide_eq_false (Table.find?_eraseAll_cases kept).2
  | @atOnce userId now last found active only =>
    have after := congrArg Collections.messages
      (left_last text now found active only)
    have still : (execMongo (.leaveTransaction room text userId now) s.2).1.messages.find? k =
        some d := kept
    rw [after] at still
    exact of_decide_eq_false (Table.find?_eraseAll_cases still).2

/-- The room is gone for good. -/
theorem EndsRoom.gone {p : ChatPool} (h : ChatOrdered p) (e : EndsRoom p.store room text c)
    {i : Nat} {t : ChatThread} {next : ChatReply c → ChatReq ChatResponse} (ht : p.threads[i]? = some t)
    (hr : t.rest = .call c next) :
    room < p.store.2.nextId ∧ (execChat c p.store).1.2.chatRooms.find? room = none := by
  cases e with
  | after named =>
    obtain ⟨id, same, deleted⟩ := Service.following_pending h.fresh ht hr
    cases named.symm.trans same
    exact (h.recalled t (List.mem_of_getElem? ht) _ (List.mem_of_mem_head? deleted) room).2 rfl
  | @atOnce userId now last found active only =>
    refine ⟨p.store.2.drawn.1 room (Table.has_iff.mpr ⟨last, found⟩), ?_⟩
    have after := congrArg Collections.chatRooms
      (left_last text now found active only)
    have erased : (execChat (.inr (.leaveTransaction room text userId now)) p.store).1.2.chatRooms =
        ((p.store.2.updateRoom room (ChatRoom.left userId now)).deleteRoom room).chatRooms := after
    rw [erased]
    exact (Table.find?_erase _ room room).trans (if_pos rfl)

/-- The other conversations keep their messages. -/
theorem EndsRoom.spares (e : EndsRoom s room text c) {k : ObjectId} {d : Message}
    (found : s.2.messages.find? k = some d) (other : d.conversationId ≠ text) :
    ∃ d', (execChat c s).1.2.messages.find? k = some d' ∧
      d'.conversationId = d.conversationId := by
  cases e with
  | after named =>
    rcases message_kept (c := .deleteMessages text) found with kept | same | ⟨_, _, _, _, same, _⟩
    · exact kept
    · exact absurd (MongoCall.deleteMessages.inj same).symm other
    · cases same
  | @atOnce userId now last there active only =>
    rcases message_kept (c := .leaveTransaction room text userId now) found with
      kept | same | ⟨_, _, _, _, same, _⟩
    · exact kept
    · cases same
    · exact absurd (MongoCall.leaveTransaction.inj same).2.1.symm other

end

/-! One call. -/

section
variable {p : ChatPool} {i : Nat} {t : ChatThread} {c : ChatCall}
  {next : ChatReply c → ChatReq ChatResponse} {room : ObjectId} {text conversation : String}

theorem stores_iff {rest : ChatReq ChatResponse} : stores text rest = true ↔
    ∃ data now d, rest.pending = some (.inr (.insertMessage data now)) ∧
      data.conversationId = text ∧ data.document now = some d := by
  unfold stores
  constructor
  · intro storing
    split at storing
    · obtain ⟨same, valid⟩ := Bool.and_eq_true_iff.mp storing
      obtain ⟨d, valid⟩ := Option.isSome_iff_exists.mp valid
      exact ⟨_, _, d, ‹_›, of_decide_eq_true same, valid⟩
    · cases storing
  · rintro ⟨data, now, d, standing, same, valid⟩
    rw [standing]
    simp only [same, valid, decide_true, Option.isSome_some, Bool.and_self]

/-- A request that is going to delete a conversation does so, or still is. -/
theorem sweeps_on (hr : t.rest = .call c next) (debt : sweeps text t.rest = true) (s : ChatStore) :
    c = .inr (.deleteMessages text) ∨
      sweeps text (chatService.answered t c next s).rest = true := by
  rw [hr] at debt
  rcases c with c | c
  · cases debt
  · cases c with
    | deleteMessages conversationId => exact Or.inl (by rw [of_decide_eq_true debt])
    | deleteRoom id =>
      right
      have same : (chatService.answered t (.inr (.deleteRoom id)) next s).rest = next (.ok ()) := rfl
      rw [same]
      rw [sweeps] at debt
      split at debt
      · obtain ⟨rest, goes⟩ := Request.pending_eq_some ‹_›
        rw [goes]
        exact debt
      · cases debt
    | _ => cases debt

/-- What a request that is going to delete a conversation stands before. -/
theorem sweeps_cases {t : ChatThread} (follows : Request.Follows (chatFollow t.op) t.log t.rest)
    (debt : sweeps text t.rest = true) :
    (∃ next, t.rest = .call (.inr (.deleteMessages text)) next) ∨
      ∃ r next, t.rest = .call (.inr (.deleteRoom r)) next ∧ ObjectId.ofHex text = some r ∧
        (next (.ok ())).pending = some (.inr (.deleteMessages text)) := by
  cases rest : t.rest with
  | done a =>
    rw [rest] at debt
    cases debt
  | fail e =>
    rw [rest] at debt
    cases debt
  | call c next =>
    rw [rest] at debt follows
    rcases c with c | c
    · cases debt
    · cases c with
      | deleteMessages conversationId =>
        cases of_decide_eq_true debt
        exact Or.inl ⟨next, rfl⟩
      | deleteRoom r =>
        obtain ⟨own, _, _, _, named, _, goes⟩ := follows.1
        rw [sweeps, goes] at debt
        cases of_decide_eq_true debt
        exact Or.inr ⟨r, next, rfl, named, goes⟩
      | _ => cases debt

/-- It has just found the room, or has deleted it and goes on. -/
theorem sweeps_came (h : ChatOrdered p) (ht : p.threads[i]? = some t) (hr : t.rest = .call c next)
    (named : ObjectId.ofHex conversation = some room)
    (debt : sweeps conversation (chatService.answered t c next p.store).rest = true) :
    (∃ r, c = .inr (.deleteRoom r)) ∧ sweeps conversation t.rest = true ∨
      c = .inr (.findRoomById room) ∧ ∃ r, p.store.2.chatRooms.find? room = some r := by
  have inside := List.mem_of_getElem? ht
  have follows := h.following t inside
  have fresh := h.fresh t inside
  rw [hr] at follows fresh
  have later : Request.Follows (chatFollow t.op) (chatService.answered t c next p.store).log
    (chatService.answered t c next p.store).rest := follows.2 _
  have order : Request.Follows freshFollow (chatService.answered t c next p.store).log
    (chatService.answered t c next p.store).rest := fresh.2 _
  rcases sweeps_cases later debt with ⟨rest, stands⟩ | ⟨r, rest, stands, same, _⟩
  · rw [stands] at order
    obtain ⟨id, _, head⟩ := order.1
    obtain ⟨rfl, _⟩ := Answer.mk.inj (Option.some.inj head)
    refine Or.inl ⟨⟨id, rfl⟩, ?_⟩
    obtain ⟨own, _, _, _, _, _, goes⟩ := follows.1
    have answer : (chatService.answered t (.inr (.deleteRoom id)) next p.store).rest =
      next (.ok ()) := rfl
    rw [answer] at stands
    rw [stands] at goes
    cases goes
    rw [hr, sweeps, stands]
    exact decide_eq_true rfl
  · cases named.symm.trans same
    rw [stands] at order
    obtain ⟨found, head⟩ := order.1
    obtain ⟨rfl, reply⟩ := Answer.mk.inj (Option.some.inj head)
    exact Or.inr ⟨rfl, found, Except.ok.inj (eq_of_heq reply)⟩

theorem newcomer_sweeps (op : ChatOp) : sweeps text (chatService.newcomer op).rest = false := by
  rw [← Bool.not_eq_true]
  intro debt
  have order := chat_fresh op
  rcases sweeps_cases (t := chatService.newcomer op) (chat_follows op) debt with
    ⟨rest, stands⟩ | ⟨r, rest, stands, _⟩
  all_goals
    have program : op.program = _ := stands
    rw [program] at order
  · obtain ⟨_, _, head⟩ := order.1
    cases head
  · obtain ⟨_, head⟩ := order.1
    cases head

/-- A send is about to insert only when it was before, or has just found the room. -/
theorem stores_came (h : ChatOrdered p) (ht : p.threads[i]? = some t) (hr : t.rest = .call c next)
    (named : ObjectId.ofHex conversation = some room)
    (storing : stores conversation (chatService.answered t c next p.store).rest = true) :
    c = .inr (.findRoomById room) ∧ ∃ r, p.store.2.chatRooms.find? room = some r := by
  have fresh := h.fresh t (List.mem_of_getElem? ht)
  rw [hr] at fresh
  have order : Request.Follows freshFollow (chatService.answered t c next p.store).log
    (chatService.answered t c next p.store).rest := fresh.2 _
  obtain ⟨data, now, d, standing, same, valid⟩ := stores_iff.mp storing
  obtain ⟨rest, stands⟩ := Request.pending_eq_some standing
  rw [stands] at order
  obtain ⟨id, found, own, head⟩ := order.1
  rw [same, named] at own
  cases own
  obtain ⟨rfl, reply⟩ := Answer.mk.inj (Option.some.inj head)
  exact ⟨rfl, found, Except.ok.inj (eq_of_heq reply)⟩

theorem newcomer_stores (op : ChatOp) : stores text (chatService.newcomer op).rest = false := by
  rw [← Bool.not_eq_true]
  intro storing
  have order := chat_fresh op
  obtain ⟨data, now, d, standing, _⟩ := stores_iff.mp storing
  obtain ⟨rest, stands⟩ := Request.pending_eq_some standing
  have program : op.program = _ := stands
  rw [program] at order
  obtain ⟨_, _, _, head⟩ := order.1
  cases head

/-- What lives in a conversation lived there before, unless the room has just been found. -/
theorem lives_came (h : ChatOrdered p) (ht : p.threads[i]? = some t) (hr : t.rest = .call c next)
    (named : ObjectId.ofHex conversation = some room)
    (lives : Lives conversation (chatService.step p (.call i))) :
    (∃ k d d', p.store.2.messages.find? k = some d ∧ d.conversationId = conversation ∧
      (execChat c p.store).1.2.messages.find? k = some d' ∧ d'.conversationId = conversation) ∨
    (∃ u ∈ p.threads, stores conversation u.rest = true) ∨
    c = .inr (.findRoomById room) ∧ ∃ r, p.store.2.chatRooms.find? room = some r := by
  rw [chatService.step_call ht hr] at lives
  rcases lives with ⟨k, d, there, same⟩ | ⟨u, member, storing⟩
  · rcases c with c | c
    · exact Or.inl ⟨k, d, d, there, same, there, same⟩
    · rcases message_effect there with ⟨data, now, rfl, valid, _⟩ | ⟨old, found, before⟩
      · refine Or.inr (Or.inl ⟨t, List.mem_of_getElem? ht, ?_⟩)
        refine stores_iff.mpr ⟨data, now, d, by rw [hr, Request.pending_call], ?_, valid⟩
        exact (document_fields valid).1.symm.trans same
      · exact Or.inl ⟨k, old, d, found, before.symm.trans same, there, same⟩
  · rcases List.mem_or_eq_of_mem_set member with before | rfl
    · exact Or.inr (Or.inl ⟨u, before, storing⟩)
    · exact Or.inr (Or.inr (stores_came h ht hr named storing))

/-- What lives in a conversation goes on living there, unless the conversation is deleted or its
room is still there. -/
theorem lives_on (h : ChatOrdered p) (ht : p.threads[i]? = some t) (hr : t.rest = .call c next)
    (named : ObjectId.ofHex conversation = some room) (lives : Lives conversation p) :
    Lives conversation (chatService.step p (.call i)) ∨ sweeps conversation t.rest = true ∨
      ∃ r, p.store.2.chatRooms.find? room = some r := by
  rw [chatService.step_call ht hr]
  rcases lives with ⟨k, d, found, rfl⟩ | ⟨u, member, storing⟩
  · rcases c with c | c
    · exact Or.inl (Or.inl ⟨k, d, found, rfl⟩)
    · rcases message_kept (c := c) found with ⟨d', there, same⟩ | rfl | ⟨id, user, now, r, rfl, there⟩
      · exact Or.inl (Or.inl ⟨k, d', there, same⟩)
      · refine Or.inr (Or.inl ?_)
        rw [hr]
        exact decide_eq_true rfl
      · obtain ⟨_, own⟩ := Service.following_pending h.following ht hr
        cases named.symm.trans own
        exact Or.inr (Or.inr ⟨r, there⟩)
  · by_cases other : u = t
    · subst other
      obtain ⟨data, now, d, standing, same, valid⟩ := stores_iff.mp storing
      rw [hr, Request.pending_call] at standing
      cases standing
      have stored := congrArg Collections.messages (insert_stored (m := p.store.2) valid).1
      refine Or.inl (Or.inl ⟨p.store.2.nextId, d, ?_, (document_fields valid).1.trans same⟩)
      have after : (execChat (.inr (.insertMessage data now)) p.store).1.2.messages =
        (p.store.2.insertMessage d).messages := stored
      exact (congrArg (Table.find? · _) after).trans (Table.find?_insert_self p.store.2.nextMessage d)
    · exact Or.inl (Or.inr ⟨u, Service.mem_set_of_ne member ht other _, storing⟩)

/-- The room is there, or nothing lives in the conversation, or what is left of the room is going
to be deleted. -/
def RoomKept (room : ObjectId) (conversation : String) (p : ChatPool) : Prop :=
  (∃ r, p.store.2.chatRooms.find? room = some r) ∨ ¬ Lives conversation p ∨
    ∃ text, ObjectId.ofHex text = some room ∧ ∃ u ∈ p.threads, sweeps text u.rest = true

/-- The room is gone, and nobody is going to delete what lives in the conversation. -/
structure RoomLost (room : ObjectId) (conversation : String) (p : ChatPool) : Prop where
  drawn : room < p.store.2.nextId
  gone : p.store.2.chatRooms.find? room = none
  nobody : ∀ u ∈ p.threads, sweeps conversation u.rest = false
  lives : Lives conversation p

theorem EndsRoom.kept (h : ChatOrdered p) (ht : p.threads[i]? = some t) (hr : t.rest = .call c next)
    (e : EndsRoom p.store room text c) (nothing : LeavesNothing p i room text)
    (named : ObjectId.ofHex conversation = some room) :
    RoomKept room conversation (chatService.step p (.call i)) := by
  by_cases lives : Lives conversation (chatService.step p (.call i))
  swap
  · exact Or.inr (Or.inl lives)
  have left : (conversation ≠ text ∧
      ∃ k d, p.store.2.messages.find? k = some d ∧ d.conversationId = conversation) ∨
      (∃ u ∈ p.threads, stores conversation u.rest = true) := by
    rcases lives_came h ht hr named lives with ⟨k, d, d', found, same, kept, still⟩ | storing | ⟨rfl, _⟩
    · exact Or.inl ⟨still ▸ e.swept kept, k, d, found, same⟩
    · exact Or.inr storing
    · cases e
  obtain ⟨j, u, other, hu, debt⟩ := nothing conversation named left
  rw [chatService.step_call ht hr]
  exact Or.inr (Or.inr ⟨conversation, named, u, Service.mem_set_of_index other hu, debt⟩)

theorem EndsRoom.lost (h : ChatOrdered p) (ht : p.threads[i]? = some t) (hr : t.rest = .call c next)
    (e : EndsRoom p.store room text c) (something : ¬ LeavesNothing p i room text) :
    ∃ conversation, ObjectId.ofHex conversation = some room ∧
      RoomLost room conversation (chatService.step p (.call i)) := by
  unfold LeavesNothing at something
  push Not at something
  obtain ⟨conversation, named, left, nobody⟩ := something
  refine ⟨conversation, named, ?_⟩
  obtain ⟨drawn, gone⟩ := e.gone h ht hr
  rw [chatService.step_call ht hr]
  constructor
  · exact stays_drawn c drawn
  · exact gone
  · intro u member
    rcases Service.mem_set_cases member with ⟨j, other, hu⟩ | rfl
    · exact Bool.eq_false_iff.mpr (nobody j u other hu)
    · refine Bool.eq_false_iff.mpr (fun debt => ?_)
      rcases sweeps_came h ht hr named debt with ⟨⟨r, rfl⟩, _⟩ | ⟨rfl, _⟩ <;> cases e
  · rcases left with ⟨other, k, d, found, same⟩ | ⟨u, member, storing⟩
    · obtain ⟨d', kept, still⟩ := e.spares found (same ▸ other)
      exact Or.inl ⟨k, d', kept, still.trans same⟩
    · refine Or.inr ⟨u, Service.mem_set_of_ne member ht ?_ _, storing⟩
      rintro rfl
      obtain ⟨data, now, d, standing, _⟩ := stores_iff.mp storing
      rw [hr, Request.pending_call] at standing
      cases standing
      cases e

/-- A room that goes is about to be swept, or has ended. -/
theorem room_goes (h : ChatOrdered p) (ht : p.threads[i]? = some t) (hr : t.rest = .call c next)
    {r : ChatRoom} (found : p.store.2.chatRooms.find? room = some r)
    (gone : (execChat c p.store).1.2.chatRooms.find? room = none) :
    (∃ text, ObjectId.ofHex text = some room ∧
      sweeps text (chatService.answered t c next p.store).rest = true) ∨
    ∃ text, EndsRoom p.store room text c := by
  rcases c with c | c
  · cases found.symm.trans gone
  have follows := Service.following_pending h.following ht hr
  rcases room_gone found gone with rfl | ⟨text, userId, now, rfl, ⟨active, only⟩, _⟩
  · obtain ⟨text, _, _, _, named, _, goes⟩ := follows
    refine Or.inl ⟨text, named, ?_⟩
    obtain ⟨rest, stands⟩ := Request.pending_eq_some goes
    have answer : (chatService.answered t (.inr (.deleteRoom room)) next p.store).rest =
      next (.ok ()) := rfl
    rw [answer, stands]
    exact decide_eq_true rfl
  · exact Or.inr ⟨text, .atOnce r found active only⟩

end

section
variable {p : ChatPool} {turn : Turn ChatOp} {room : ObjectId} {conversation : String}

theorem RoomKept.step (h : ChatOrdered p) (clean : EndsClean p turn)
    (named : ObjectId.ofHex conversation = some room) (kept : RoomKept room conversation p) :
    RoomKept room conversation (chatService.step p turn) := by
  rcases chatService.step_cases p turn with hs | ⟨op, _, hs⟩ | ⟨i, t, c, next, rfl, ht, hr, hs⟩
  · rw [hs]
    exact kept
  · rw [hs]
    rcases kept with there | nothing | ⟨text, same, u, member, debt⟩
    · exact Or.inl there
    · refine Or.inr (Or.inl (fun lives => nothing ?_))
      rcases lives with stored | ⟨u, member, storing⟩
      · exact Or.inl stored
      · rcases List.mem_append.mp member with before | new
        · exact Or.inr ⟨u, before, storing⟩
        · cases (newcomer_stores op).symm.trans (List.mem_singleton.mp new ▸ storing)
    · exact Or.inr (Or.inr ⟨text, same, u, List.mem_append_left _ member, debt⟩)
  · have nothing (text : String) (e : EndsRoom p.store room text c) :=
      clean t c ht (by rw [hr, Request.pending_call]) room text e
    rcases kept with ⟨r, found⟩ | dead | ⟨text, same, u, member, debt⟩
    · cases after : (execChat c p.store).1.2.chatRooms.find? room with
      | some r' =>
        rw [hs]
        exact Or.inl ⟨r', after⟩
      | none =>
        rcases room_goes h ht hr found after with ⟨text, same, debt⟩ | ⟨text, e⟩
        · rw [hs]
          exact Or.inr (Or.inr ⟨text, same, _, Service.answered_mem ht, debt⟩)
        · exact e.kept h ht hr (nothing text e) named
    · by_cases lives : Lives conversation (chatService.step p (.call i))
      swap
      · exact Or.inr (Or.inl lives)
      rcases lives_came h ht hr named lives with ⟨k, d, _, found, same, _⟩ | storing | ⟨rfl, r, found⟩
      · exact absurd (Or.inl ⟨k, d, found, same⟩) dead
      · exact absurd (Or.inr storing) dead
      · rw [hs]
        exact Or.inl ⟨r, found⟩
    · by_cases own : u = t
      · subst own
        rcases sweeps_on hr debt p.store with rfl | still
        · exact (EndsRoom.after same).kept h ht hr (nothing text (.after same)) named
        · rw [hs]
          exact Or.inr (Or.inr ⟨text, same, _, Service.answered_mem ht, still⟩)
      · rw [hs]
        exact Or.inr (Or.inr ⟨text, same, u, Service.mem_set_of_ne member ht own _, debt⟩)

theorem RoomLost.step (h : ChatOrdered p) (named : ObjectId.ofHex conversation = some room)
    (lost : RoomLost room conversation p) (turn : Turn ChatOp) :
    RoomLost room conversation (chatService.step p turn) := by
  have noRoom : ¬ ∃ r, p.store.2.chatRooms.find? room = some r := by
    rintro ⟨r, found⟩
    cases lost.gone.symm.trans found
  constructor
  · apply chatService.store_step (I := fun s => room < s.2.nextId) lost.drawn turn
    exact fun _ _ c _ _ _ _ => stays_drawn c lost.drawn
  · apply chatService.store_step (I := fun s => s.2.chatRooms.find? room = none) lost.gone turn
    exact fun _ _ c _ _ _ _ => stays_gone c lost.drawn lost.gone
  · apply chatService.threads_step (P := fun _ u => sweeps conversation u.rest = false)
      lost.nobody turn (fun op _ => newcomer_sweeps op)
    intro i t c next _ ht hr
    refine ⟨lost.nobody, Bool.eq_false_iff.mpr (fun debt => ?_)⟩
    rcases sweeps_came h ht hr named debt with ⟨_, before⟩ | ⟨_, found⟩
    · cases (lost.nobody t (List.mem_of_getElem? ht)).symm.trans before
    · exact noRoom found
  · rcases chatService.step_cases p turn with hs | ⟨op, _, hs⟩ | ⟨i, t, c, next, rfl, ht, hr, hs⟩
    · rw [hs]
      exact lost.lives
    · rw [hs]
      rcases lost.lives with stored | ⟨u, member, storing⟩
      · exact Or.inl stored
      · exact Or.inr ⟨u, List.mem_append_left _ member, storing⟩
    · rcases lives_on h ht hr named lost.lives with lives | debt | found
      · exact lives
      · cases (lost.nobody t (List.mem_of_getElem? ht)).symm.trans debt
      · exact absurd found noRoom

/-- A turn that does not close leaves something of a room behind. -/
theorem lost_of_open (h : ChatOrdered p) (open' : ¬ EndsClean p turn) : ∃ room conversation,
    ObjectId.ofHex conversation = some room ∧
      RoomLost room conversation (chatService.step p turn) := by
  cases turn with
  | arrive op => exact absurd trivial open'
  | call i =>
    unfold EndsClean at open'
    push Not at open'
    obtain ⟨t, c, ht, pending, room, text, e, something⟩ := open'
    obtain ⟨next, hr⟩ := Request.pending_eq_some pending
    obtain ⟨conversation, named, lost⟩ := e.lost h ht hr something
    exact ⟨room, conversation, named, lost⟩

end

/-- In every interleaving of all requests of the chat, no message is without a room when all have
ended exactly if every call that ends a room, by deleting its messages, leaves nothing behind:
all that is stored under another of its names, and every send between its look at the room and
its insert, is left to another request that is still going to delete it. -/
theorem no_orphans (s : ChatStore) (start : NoOrphans s) (turns : List (Turn ChatOp))
    (ended : Service.Quiet (run chatService.step (Pool.idle s) turns)) :
    NoOrphans (run chatService.step (Pool.idle s) turns).store ↔
      Along chatService.step EndsClean (Pool.idle s) turns := by
  constructor
  · intro housed
    apply along_of_run (J := ChatOrdered) (L := fun p => ∃ room conversation,
      ObjectId.ofHex conversation = some room ∧ RoomLost room conversation p)
      (fun p turn h => h.step turn) (fun p turn h broken => lost_of_open h broken)
      (fun p turn h ⟨room, conversation, named, lost⟩ =>
        ⟨room, conversation, named, lost.step h named turn⟩) (chatOrdered_idle start)
    rintro ⟨room, conversation, named, lost⟩
    rcases lost.lives with ⟨k, d, found, rfl⟩ | ⟨u, member, storing⟩
    · have roomed := housed k d found
      rw [Collections.roomNamed, named, Option.bind_some, lost.gone] at roomed
      cases roomed
    · obtain ⟨_, _, _, standing, _⟩ := stores_iff.mp storing
      cases (ended u member).symm.trans standing
  · intro along
    have kept := run_invariant (I := fun p => ChatOrdered p ∧ ∀ room conversation,
      ObjectId.ofHex conversation = some room → RoomKept room conversation p)
      (fun p turn h clean => ⟨h.1.step turn, fun room conversation named =>
        (h.2 room conversation named).step h.1 clean named⟩) ⟨chatOrdered_idle start, ?_⟩ along
    · intro k d found
      obtain ⟨room, named⟩ := kept.1.named k d found
      rw [Collections.roomNamed, named, Option.bind_some]
      rcases kept.2 room d.conversationId named with ⟨r, there⟩ | dead | ⟨text, _, u, member, debt⟩
      · exact Option.isSome_iff_exists.mpr ⟨r, there⟩
      · exact absurd (Or.inl ⟨k, d, found, rfl⟩) dead
      · have none := ended u member
        rcases sweeps_cases (kept.1.following u member) debt with ⟨_, stands⟩ | ⟨_, _, stands, _⟩ <;>
          rw [stands] at none <;> cases none
    · intro room conversation named
      by_cases there : ∃ r, s.2.chatRooms.find? room = some r
      · exact Or.inl there
      · refine Or.inr (Or.inl ?_)
        rintro (⟨k, d, found, rfl⟩ | ⟨u, none, _⟩)
        · have roomed := start k d found
          rw [Collections.roomNamed, named, Option.bind_some] at roomed
          exact there (Option.isSome_iff_exists.mp roomed)
        · cases none

/-! Ann says hello to Bob, and both leave. -/

/- Two leaves, the i-th request and the one after it, each under a name for the room. -/
def bothLeave (i : Nat) (first last : String) : List (Turn ChatOp) :=
  [.arrive (.leave false first "ann" 4), .arrive (.leave false last "bob" 5),
    .call i, .call i, .call (i + 1), .call (i + 1), .call (i + 1), .call (i + 1)]

/- The message is stored when its room has been deleted, and before its messages are. -/
def insertBeforeSweep : List (Turn ChatOp) :=
  [.arrive hello, .call 0, .call 0, .call 0] ++ (bothLeave 1 firstRoom firstRoom).dropLast ++
    [.call 0, .call 0, .call 2]

theorem no_orphans_hello : NoOrphans (market, oneRoom) ∧
    Service.Quiet (run chatService.step (Pool.idle (market, oneRoom)) insertBeforeSweep) ∧
    NoOrphans (run chatService.step (Pool.idle (market, oneRoom)) insertBeforeSweep).store ∧
    Along chatService.step EndsClean (Pool.idle (market, oneRoom)) insertBeforeSweep := by
  have start : NoOrphans (market, oneRoom) := fun k d none => by cases none
  have ended : Service.Quiet (run chatService.step (Pool.idle (market, oneRoom))
      insertBeforeSweep) := by decide +kernel
  have swept : (run chatService.step (Pool.idle (market, oneRoom))
      insertBeforeSweep).store.2.messages.rows = [] := by decide +kernel
  have housed : NoOrphans (run chatService.step (Pool.idle (market, oneRoom))
      insertBeforeSweep).store := by
    intro k d found
    rw [Table.find?, swept] at found
    cases found
  exact ⟨start, ended, housed, (no_orphans _ start _ ended).mp housed⟩

/-- Both leave between the check of the room and the insert. -/
def leaveBeforeInsert : List (Turn ChatOp) :=
  [.arrive hello, .call 0, .call 0, .call 0] ++ bothLeave 1 firstRoom firstRoom ++ [.call 0, .call 0]

theorem message_without_room : ¬ ∀ (s : ChatStore) (turns : List (Turn ChatOp)), NoOrphans s →
    Service.Quiet (run chatService.step (Pool.idle s) turns) →
    NoOrphans (run chatService.step (Pool.idle s) turns).store := by
  intro always
  have ended : Service.Quiet (run chatService.step (Pool.idle (market, oneRoom))
      leaveBeforeInsert) := by decide +kernel
  have housed := always (market, oneRoom) leaveBeforeInsert (fun k d none => by cases none) ended 1
    { conversationId := firstRoom, senderId := "ann", receiverId := "bob", message := "hello",
      messageType := some .text, createdAt := 2, updatedAt := 2 } (by decide +kernel)
  have gone : (run chatService.step (Pool.idle (market, oneRoom)) leaveBeforeInsert).store.2.roomNamed
      firstRoom = none := by decide +kernel
  rw [gone] at housed
  cases housed

end SecondhandApi
