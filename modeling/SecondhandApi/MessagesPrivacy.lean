import SecondhandApi.MessagesRooms
import SecondhandApi.Interleaving.Debts

/-! Who gets into the rooms of the PostgreSQL chat, whose messages they hold and who reads them,
while the requests of all users interleave. -/
namespace SecondhandApi
open Keyed Interleaving
open Messages (ChatMessage RoomRecord MessageCreateInput)

abbrev BoardCall : Type := Call ⊕ MessagesCall
abbrev BoardReply : BoardCall → Type := Sum.elim Call.Reply MessagesCall.Reply
abbrev BoardAnswer : Type := Answer BoardCall BoardReply
abbrev BoardPool : Type :=
  Pool MessagesStore MessagesOp BoardCall BoardReply ApiError MessagesResponse

/-- The request has found the user in the room. -/
def FoundIn (log : List BoardAnswer) (r u : Id) : Prop :=
  ∃ room : RoomRecord, ⟨.inr (.findRoomById r), .ok (some room)⟩ ∈ log ∧ room.hasMember u = true

/-- A room is made for the one who asks and the seller of the product that the request has read, a
message is stored for a user who was found in its room, and the shop is only looked at. -/
def boardMay (op : MessagesOp) (log : List BoardAnswer) : BoardCall → Prop
  | .inl c => c.reads = true ∨ ∃ k, c = .productIncrementViewCount k
  | .inr (.createRoom _ _ productId first second) =>
    ∃ new product, op = .findOrCreate first.2 productId new ∧ product.sellerId = second.2 ∧
      ⟨.inl (.productFindById productId), .ok (some product)⟩ ∈ log
  | .inr (.createMessage id now data) =>
    FoundIn log data.chatRoomId data.senderId ∧ ∃ touchedAt, op = .send data.senderId
      data.chatRoomId data.content data.messageType data.fileUrl data.fileName id now touchedAt
  | .inr _ => True

/-- Pages are answered to users who were found in the room; a sent message is announced to the
others who were found there. -/
def boardEnds : MessagesOp → List BoardAnswer → Except ApiError MessagesResponse → Prop
  | .findMessages u r _ ties, log, .ok (.messages page) => FoundIn log r u ∧
    ∃ skip limit, ∃ items : List (Id × ChatMessage),
      ⟨.inr (.findMessages r skip limit ties), .ok items⟩ ∈ log ∧ page.message = items.reverse
  | .send u r _ _ _ _ _ _ _, log, .ok (.sent message event) =>
    event.chatRoomId = r ∧ event.senderId = u ∧ event.messageId = message.1 ∧
      ∀ v ∈ event.recipientIds, v ≠ u ∧ FoundIn log r v
  | _, _, _ => True

/-- Calls on the chat that every request may make at any time. -/
def boardFree : BoardCall → Prop
  | .inl _ | .inr (.createRoom _ _ _ _ _) | .inr (.createMessage _ _ _) => False
  | .inr _ => True

theorem may_of_free {op : MessagesOp} {log : List BoardAnswer} {c : BoardCall}
    (free : boardFree c) : boardMay op log c := by
  rcases c with c | c
  · exact free.elim
  · cases c with
    | createRoom | createMessage => exact free.elim
    | _ => trivial

theorem free_obeys {op : MessagesOp} {p : MessagesReq MessagesResponse}
    (ends : ∀ log r, boardEnds op log r) (makes : Request.Makes boardFree p) :
    Request.Obeys (boardMay op) (boardEnds op) [] p := by
  apply Request.obeys_mono (fun _ _ free => may_of_free free)
  apply Request.obeys_weaken _ _ (makes.obeys [])
  exact fun log r _ => ends log r

theorem OnlyReads.free {A : Type} {p : MessagesReq A} (h : OnlyReads p) :
    Request.Makes boardFree p := by
  apply h.mono
  rintro c ⟨d, rfl, reads⟩
  cases d with
  | createRoom | createMessage => cases reads
  | _ => trivial

theorem awaitMessages_free {c : MessagesCall} (free : boardFree (.inr c)) :
    Request.Makes boardFree (awaitMessages c) := by
  refine ⟨free, fun reply => ?_⟩
  cases reply <;> trivial

theorem markAsRead_free (r u : Id) (readAt lastReadAt : Date) :
    Request.Makes boardFree (MessagesService.markAsRead r u readAt lastReadAt) := by
  apply Request.makes_bind (memberRoom_reads _ _ r u).free
  intro _
  apply Request.makes_bind (awaitMessages_free (c := .markMessages r u readAt) trivial)
  intro _
  exact awaitMessages_free (c := .markMember r u lastReadAt) trivial

theorem leaveChatRoom_free (r u : Id) :
    Request.Makes boardFree (MessagesService.leaveChatRoom r u) := by
  have last (remaining : Nat) : Request.Makes boardFree
      (if remaining = 0 then awaitMessages (.deleteRoom r) else pure () : MessagesReq Unit) := by
    cases remaining with
    | zero => exact awaitMessages_free (c := .deleteRoom r) trivial
    | succ _ => trivial
  apply Request.makes_bind (memberRoom_reads _ _ r u).free
  intro _
  apply Request.makes_bind (awaitMessages_free (c := .deleteMembers r u) trivial)
  intro _
  exact Request.makes_bind (awaitMessages_free (c := .countMembers r) trivial) last

/-- What a request does once it has found its user in the room. -/
theorem member_obeys {op : MessagesOp} {missing denied : String} {r u : Id}
    {f : RoomRecord → MessagesReq MessagesResponse} (failed : ∀ log e, boardEnds op log (.error e))
    (rest : ∀ room log, ⟨.inr (.findRoomById r), .ok (some room)⟩ ∈ log →
      room.hasMember u = true → Request.Obeys (boardMay op) (boardEnds op) log (f room)) :
    Request.Obeys (boardMay op) (boardEnds op) []
      (MessagesService.memberRoom missing denied r u >>= f) := by
  refine ⟨trivial, fun reply => ?_⟩
  cases reply with
  | error e => exact failed _ _
  | ok found =>
    cases found with
    | none => exact failed _ _
    | some room =>
      dsimp only [settleMessages, bind, Request.bind]
      cases member : room.hasMember u with
      | false => exact failed _ _
      | true => exact rest room _ List.mem_cons_self member

theorem sendMessage_obeys (u r : Id) (content : String) (messageType : Field Messages.MessageType)
    (fileUrl fileName : Field String) (id : Id) (now touchedAt : Date) :
    let op := MessagesOp.send u r content messageType fileUrl fileName id now touchedAt
    Request.Obeys (boardMay op) (boardEnds op) [] op.program := by
  intro op
  rw [MessagesOp.program, Request.map_eq, MessagesService.sendMessage, Request.bind_assoc]
  apply member_obeys
  · intro log e
    trivial
  intro room log found member
  refine ⟨⟨⟨room, found, member⟩, touchedAt, rfl⟩, fun reply => ?_⟩
  cases reply with
  | error e => trivial
  | ok message =>
    refine ⟨trivial, fun reply => ?_⟩
    cases reply with
    | error e => trivial
    | ok _ =>
      refine ⟨rfl, rfl, rfl, fun v told => ?_⟩
      obtain ⟨row, listed, rfl⟩ := List.mem_map.mp told
      obtain ⟨inside, other⟩ := List.mem_filter.mp listed
      refine ⟨of_decide_eq_true other, room, ?_, ?_⟩
      · exact List.mem_cons_of_mem _ (List.mem_cons_of_mem _ found)
      · exact List.any_eq_true.mpr ⟨row, inside, decide_eq_true rfl⟩

theorem findMessage_obeys (u r : Id) (page : PageNumber) (ties : Id → Nat) :
    let op := MessagesOp.findMessages u r page ties
    Request.Obeys (boardMay op) (boardEnds op) [] op.program := by
  intro op
  rw [MessagesOp.program, Request.map_eq, MessagesService.findMessage, Request.bind_assoc]
  apply member_obeys
  · intro log e
    trivial
  intro room log found member
  refine ⟨trivial, fun reply => ?_⟩
  cases reply with
  | error e => trivial
  | ok items =>
    refine ⟨trivial, fun reply => ?_⟩
    cases reply with
    | error e => trivial
    | ok total =>
      refine ⟨⟨room, ?_, member⟩, (page.val - 1) * 50, 50, items, ?_, rfl⟩
      · exact List.mem_cons_of_mem _ (List.mem_cons_of_mem _ found)
      · exact List.mem_cons_of_mem _ List.mem_cons_self

theorem findOrCreateChatRoom_obeys (u productId : Id) (new : NewRoom) :
    let op := MessagesOp.findOrCreate u productId new
    Request.Obeys (boardMay op) (boardEnds op) [] op.program := by
  intro op
  have room (log : List BoardAnswer) (event : RoomRecord × Bool → Option ChatroomCreatedEvent) :
      Request.Obeys (boardMay op) (boardEnds op) log
        (MessageRepository.findOrCreateChatRoom u productId new >>= fun room =>
          .done (.room room.1 (event room))) := by
    refine ⟨trivial, fun reply => ?_⟩
    rcases reply with e | found | found
    · trivial
    · refine ⟨Or.inl rfl, fun reply => ?_⟩
      rcases reply with e | _ | product
      · trivial
      · trivial
      · refine ⟨⟨new, product, rfl, rfl, List.mem_cons_self⟩, fun reply => ?_⟩
        cases reply <;> trivial
    · trivial
  rw [MessagesOp.program, Request.map_eq, MessagesService.findOrCreateChatRoom, Request.bind_assoc]
  refine ⟨Or.inl rfl, fun reply => ?_⟩
  rcases reply with e | _ | product
  · trivial
  · trivial
  · refine ⟨Or.inr ⟨productId, rfl⟩, fun reply => ?_⟩
    have rest (log : List BoardAnswer) : Request.Obeys (boardMay op) (boardEnds op) log
        ((do
          if product.sellerId = u then throw (.badRequest "본인 상품에는 채팅할 수 없습니다.")
          if product.status = .deleted then throw (.badRequest "삭제된 대화방 조회 시도")
          let chatRoom ← MessageRepository.findOrCreateChatRoom u productId new
          return (chatRoom.1, if chatRoom.2 then
            some ⟨chatRoom.1.id, productId, u, product.sellerId⟩ else none) :
            MessagesReq (RoomRecord × Option ChatroomCreatedEvent)) >>= fun answer =>
          .done (.room answer.1 answer.2)) := by
      by_cases own : product.sellerId = u
      · rw [if_pos own]
        trivial
      · rw [if_neg own]
        by_cases deleted : product.status = .deleted
        · rw [if_pos deleted]
          trivial
        · rw [if_neg deleted, Request.bind_assoc]
          exact room log fun room => if room.2 then
            some ⟨room.1.id, productId, u, product.sellerId⟩ else none
    cases reply <;> exact rest _

theorem board_obeys (op : MessagesOp) :
    Request.Obeys (boardMay op) (boardEnds op) [] op.program := by
  cases op with
  | findOrCreate u productId new => exact findOrCreateChatRoom_obeys u productId new
  | send u r content messageType fileUrl fileName id now touchedAt =>
    exact sendMessage_obeys u r content messageType fileUrl fileName id now touchedAt
  | findMyRooms u => exact free_obeys (fun _ _ => trivial) (program_reads rfl).free
  | findMessages u r page ties => exact findMessage_obeys u r page ties
  | markRead r u readAt lastReadAt =>
    exact free_obeys (fun _ _ => trivial)
      (Request.makes_map (markAsRead_free r u readAt lastReadAt) _)
  | leave r u =>
    exact free_obeys (fun _ _ => trivial) (Request.makes_map (leaveChatRoom_free r u) _)

/-! What the calls leave in the store. -/

/-- The message but for the marks of its reading. -/
def Messages.ChatMessage.letter (d : ChatMessage) : ChatMessage :=
  { d with isRead := false, readAt := none }

theorem row_letter {data : MessageCreateInput} {now : Date} {d : ChatMessage}
    (h : data.row now = some d) : d.letter = d ∧ d.content = data.content := by
  simp only [MessageCreateInput.row, Option.bind_eq_bind, Option.bind_eq_some_iff] at h
  obtain ⟨messageType, -, made⟩ := h
  cases made
  exact ⟨rfl, rfl⟩

theorem createMessage_exec (t : Messages.Tables) (user : Id → Bool) (id : Id) (now : Date)
    (data : MessageCreateInput) :
    (∃ e, t.exec user (.createMessage id now data) = (t, .error e)) ∨
    ∃ row, data.row now = some row ∧ t.messages.find? id = none ∧
      t.exec user (.createMessage id now data) =
        ({ t with messages := t.messages.insert id row }, .ok (id, row)) := by
  simp only [Messages.Tables.exec]
  split
  · exact Or.inl ⟨_, rfl⟩
  · rename_i row made
    split
    · exact Or.inl ⟨_, rfl⟩
    · split
      · exact Or.inl ⟨_, rfl⟩
      · rename_i unused
        exact Or.inr ⟨row, made, Table.not_has_iff.mp unused, rfl⟩

/-- Counting a view changes no seller. -/
theorem viewed_same (k : Id) (db : Db) :
    SameShop db (exec (.productIncrementViewCount k) db).1 := by
  suffices tables : (exec (.productIncrementViewCount k) db).1.toTables.users = db.users ∧
      ∀ p, ((exec (.productIncrementViewCount k) db).1.toTables.products.find? p).map
        Product.sellerId = (db.products.find? p).map Product.sellerId from ⟨tables.1, tables.2⟩
  have effect := call_effect (.productIncrementViewCount k) db
  generalize (exec (.productIncrementViewCount k) db).2 = reply at effect
  generalize (exec (.productIncrementViewCount k) db).1.toTables = after at effect ⊢
  cases effect with
  | read _ reads => cases reads
  | refused e => exact ⟨rfl, fun _ => rfl⟩
  | productViewed old found =>
    refine ⟨rfl, fun p => ?_⟩
    change ((db.products.set k _).find? p).map _ = _
    rw [Table.find?_set found]
    split
    · rename_i same
      rw [same, found]
      rfl
    · rfl

section
variable {s : MessagesStore} {r u k : Id} {d : ChatMessage}

theorem sameShop_call (c : BoardCall) {db : Db} (same : SameShop db s.1)
    (looks : ∀ d, c = .inl d → d.reads = true ∨ ∃ k, d = .productIncrementViewCount k) :
    SameShop db (execBoard c s).1.1 := by
  rcases c with c | c
  · change SameShop db (exec c s.1).1
    rcases looks c rfl with reads | ⟨k, rfl⟩
    · rw [exec_reads reads]
      exact same
    · obtain ⟨users, sellers⟩ := viewed_same k s.1
      exact ⟨users.trans same.users, fun p => (sellers p).trans (same.sellers p)⟩
  · exact same

/-- Whoever is in a room after a call was in it, or the call has made the room with him. -/
theorem member_call (c : BoardCall) (h : (execBoard c s).1.2.isMember r u = true) :
    s.2.isMember r u = true ∨ ∃ now productId first second record,
      (⟨c, (execBoard c s).2⟩ : BoardAnswer) =
        ⟨.inr (.createRoom r now productId first second), .ok record⟩ ∧
      (u = first.2 ∨ u = second.2) := by
  rcases c with c | c
  · exact Or.inl h
  change (execMessages c s).1.2.toTables.isMember r u = true at h
  cases c with
  | createRoom id now productId first second =>
    rcases createRoom_cases productId first.2 second.2 ⟨id, (first.1, second.1), now⟩ s with
      ⟨e, -, -, chat⟩ | ⟨after, made, answer, -, chat, -, free, free', apart⟩
    · rw [chat] at h
      exact Or.inl h
    · rw [chat, made] at h
      rcases (isMember_withRoom free free' apart).mp h with before | ⟨rfl, who⟩
      · exact Or.inl before
      · exact Or.inr ⟨now, productId, first, second, _, congrArg (Answer.mk _) answer, who⟩
  | createMessage id now data =>
    rcases createMessage_exec s.2.toTables s.1.users.has id now data with
      ⟨e, same⟩ | ⟨row, -, -, same⟩
    · exact Or.inl ((congrArg (·.1.isMember r u) same).symm.trans h)
    · exact Or.inl ((congrArg (·.1.isMember r u) same).symm.trans h)
  | markMember id v now => exact Or.inl ((narrower_markMember id v now).members u h)
  | touchRoom id now =>
    simp only [execMessages, Messages.Tables.exec] at h
    split at h <;> exact Or.inl h
  | deleteMembers id v => exact Or.inl ((narrower_removeMember id v).members u h)
  | deleteRoom id =>
    simp only [execMessages, Messages.Tables.exec] at h
    split at h
    · exact Or.inl ((narrower_withoutRoom id).members u h)
    · exact Or.inl h
  | _ => exact Or.inl h

/-- Every message after a call was there, read or unread, or has just been stored. -/
theorem message_call (c : BoardCall) (h : (execBoard c s).1.2.messages.find? k = some d) :
    (∃ d₀, s.2.messages.find? k = some d₀ ∧ d.letter = d₀.letter) ∨
    ∃ now data, (⟨c, (execBoard c s).2⟩ : BoardAnswer) =
        ⟨.inr (.createMessage k now data), .ok (k, d.letter)⟩ ∧ d.chatRoomId = data.chatRoomId ∧
      d.senderId = data.senderId ∧ d.content = data.content := by
  rcases c with c | c
  · exact Or.inl ⟨d, h, rfl⟩
  change (execMessages c s).1.2.toTables.messages.find? k = some d at h
  cases c with
  | createRoom id now productId first second =>
    simp only [execMessages, Messages.Tables.exec] at h
    split at h
    · exact Or.inl ⟨d, h, rfl⟩
    · split at h <;> exact Or.inl ⟨d, h, rfl⟩
  | createMessage id now data =>
    rcases createMessage_exec s.2.toTables s.1.users.has id now data with
      ⟨e, same⟩ | ⟨row, made, fresh, same⟩
    · exact Or.inl ⟨d, (congrArg (·.1.messages.find? k) same).symm.trans h, rfl⟩
    · have after := (congrArg (·.1.messages.find? k) same).symm.trans h
      rcases Table.find?_insert_cases after with before | ⟨rfl, rfl⟩
      · exact Or.inl ⟨d, before, rfl⟩
      · have content : d.letter = d ∧ d.content = data.content := row_letter made
        obtain ⟨room, sender, -⟩ := MessageCreateInput.row_some made
        refine Or.inr ⟨now, data, ?_, room, sender, content.2⟩
        rw [content.1]
        exact congrArg (Answer.mk _) (congrArg Prod.snd same)
  | markMessages id v now =>
    obtain ⟨old, before, rfl⟩ := Option.map_eq_some_iff.mp
      ((Table.find?_modifyAll s.2.messages _ k).symm.trans h)
    refine Or.inl ⟨old, before, ?_⟩
    split <;> rfl
  | touchRoom id now =>
    simp only [execMessages, Messages.Tables.exec] at h
    split at h <;> exact Or.inl ⟨d, h, rfl⟩
  | deleteRoom id =>
    simp only [execMessages, Messages.Tables.exec] at h
    split at h
    · exact Or.inl ⟨d, (Table.find?_eraseAll_cases h).1, rfl⟩
    · exact Or.inl ⟨d, h, rfl⟩
  | _ => exact Or.inl ⟨d, h, rfl⟩

/-- The rows of a page are messages of its room. -/
theorem listed_board {skip limit : Nat} {ties : Id → Nat} {items : List (Id × ChatMessage)}
    (h : (execBoard (.inr (.findMessages r skip limit ties)) s).2 = .ok items) :
    ∀ m ∈ items, m.2.chatRoomId = r ∧ s.2.messages.find? m.1 = some m.2 := by
  cases h
  intro m member
  have inside := (List.mem_insertionSort _).mp (List.mem_of_mem_drop (List.mem_of_mem_take member))
  obtain ⟨row, room⟩ := List.mem_filter.mp inside
  exact ⟨of_decide_eq_true room, s.2.messages.mem_rows.mp row⟩

end

/-! Where the members and the messages of the rooms come from. -/

/-- The user was in the room from the beginning, or by the request that made it, as the one who
asked or as the seller of the product. -/
def Joined (s₀ : MessagesStore) (p : BoardPool) (r u : Id) : Prop :=
  s₀.2.isMember r u = true ∨ ∃ t ∈ p.threads, ∃ b productId new,
    t.op = .findOrCreate b productId new ∧
    (∃ now first second record,
      ⟨.inr (.createRoom r now productId first second), .ok record⟩ ∈ t.log) ∧
    (u = b ∨ ∃ product, s₀.1.products.find? productId = some product ∧ product.sellerId = u)

/-- The message was there from the beginning, or a member of its room has sent it. -/
def Sent (s₀ : MessagesStore) (p : BoardPool) (k : Id) (d : ChatMessage) : Prop :=
  (∃ d₀, s₀.2.messages.find? k = some d₀ ∧ d.letter = d₀.letter) ∨
  (∃ t ∈ p.threads, ∃ messageType fileUrl fileName now touchedAt data,
    t.op = .send d.senderId d.chatRoomId d.content messageType fileUrl fileName k now touchedAt ∧
    ⟨.inr (.createMessage k now data), .ok (k, d.letter)⟩ ∈ t.log) ∧
  Joined s₀ p d.chatRoomId d.senderId

/-- What an answer tells is so. -/
structure Truthful (s₀ : MessagesStore) (p : BoardPool) (a : BoardAnswer) : Prop where
  product : ∀ k row, a = ⟨.inl (.productFindById k), .ok (some row)⟩ →
    ∃ row₀, s₀.1.products.find? k = some row₀ ∧ row₀.sellerId = row.sellerId
  room : ∀ r room u, a = ⟨.inr (.findRoomById r), .ok (some room)⟩ →
    RoomRecord.hasMember room u = true → Joined s₀ p r u
  messages : ∀ r skip limit ties, ∀ items : List (Id × ChatMessage),
    a = ⟨.inr (.findMessages r skip limit ties), .ok items⟩ →
      ∀ m ∈ items, m.2.chatRoomId = r ∧ Sent s₀ p m.1 m.2

structure BoardKept (s₀ : MessagesStore) (p : BoardPool) : Prop where
  obedient : Service.Obedient boardMay boardEnds p
  shop : SameShop s₀.1 p.store.1
  members : ∀ r u, p.store.2.isMember r u = true → Joined s₀ p r u
  messages : ∀ k d, p.store.2.messages.find? k = some d → Sent s₀ p k d
  told : ∀ t ∈ p.threads, ∀ a ∈ t.log, Truthful s₀ p a

section
variable {s₀ : MessagesStore} {p : BoardPool} {r u k : Id} {d : ChatMessage}

theorem Joined.step (h : Joined s₀ p r u) (turn : Turn MessagesOp) :
    Joined s₀ (messagesService.step p turn) r u := by
  rcases h with first | ⟨t, member, b, productId, new, op, ⟨now, one, other, record, made⟩, who⟩
  · exact Or.inl first
  · obtain ⟨t', member', same, log⟩ := messagesService.thread_grows member turn
    exact Or.inr ⟨t', member', b, productId, new, same.trans op,
      ⟨now, one, other, record, log _ made⟩, who⟩

theorem Sent.step (h : Sent s₀ p k d) (turn : Turn MessagesOp) :
    Sent s₀ (messagesService.step p turn) k d := by
  rcases h with first | ⟨⟨t, member, type, url, name, now, touchedAt, data, op, stored⟩, joined⟩
  · exact Or.inl first
  · obtain ⟨t', member', same, log⟩ := messagesService.thread_grows member turn
    exact Or.inr ⟨⟨t', member', type, url, name, now, touchedAt, data, same.trans op,
      log _ stored⟩, joined.step turn⟩

/-- Reading a message changes nothing about where it is from. -/
theorem Sent.reread {d' : ChatMessage} (h : Sent s₀ p k d) (same : d'.letter = d.letter) :
    Sent s₀ p k d' := by
  obtain ⟨room, sender, content, -⟩ := ChatMessage.mk.inj same
  unfold Sent
  rw [sender, room, content, same]
  exact h

theorem Truthful.step {a : BoardAnswer} (h : Truthful s₀ p a) (turn : Turn MessagesOp) :
    Truthful s₀ (messagesService.step p turn) a where
  product := h.product
  room r room u same member := (h.room r room u same member).step turn
  messages r skip limit ties items same m member :=
    ⟨(h.messages r skip limit ties items same m member).1,
      (h.messages r skip limit ties items same m member).2.step turn⟩

theorem boardKept_idle (s₀ : MessagesStore) : BoardKept s₀ (Pool.idle s₀) where
  obedient := fun _ none => by cases none
  shop := .refl s₀.1
  members := fun _ _ => Or.inl
  messages := fun _ d there => Or.inl ⟨d, there, rfl⟩
  told := fun _ none => by cases none

/-- A call tells what the store holds. -/
theorem BoardKept.tells (h : BoardKept s₀ p) (c : BoardCall) :
    Truthful s₀ p ⟨c, (execBoard c p.store).2⟩ where
  product k row same := by
    obtain ⟨rfl, reply⟩ := Answer.mk.inj same
    have stored : p.store.1.products.find? k = some row := Except.ok.inj (eq_of_heq reply)
    have seller := h.shop.sellers k
    rw [stored] at seller
    exact Option.map_eq_some_iff.mp seller.symm
  room r room u same member := by
    obtain ⟨rfl, reply⟩ := Answer.mk.inj same
    obtain ⟨row, -, rfl⟩ := Option.map_eq_some_iff.mp (Except.ok.inj (eq_of_heq reply))
    rw [record_hasMember] at member
    exact h.members r u member
  messages r skip limit ties items same m member := by
    obtain ⟨rfl, reply⟩ := Answer.mk.inj same
    obtain ⟨room, stored⟩ := listed_board (eq_of_heq reply) m member
    exact ⟨room, h.messages m.1 m.2 stored⟩

theorem BoardKept.found (h : BoardKept s₀ p) {t} (member : t ∈ p.threads)
    (found : FoundIn t.log r u) : Joined s₀ p r u := by
  obtain ⟨room, seen, inside⟩ := found
  exact (h.told t member _ seen).room r room u rfl inside

theorem boardKept_step (h : BoardKept s₀ p) (turn : Turn MessagesOp) :
    BoardKept s₀ (messagesService.step p turn) := by
  constructor
  · exact messagesService.obedient_step (fun op (_ : True) => board_obeys op) p turn h.obedient
      fun _ _ => trivial
  · apply messagesService.store_step (I := fun s => SameShop s₀.1 s.1) h.shop
    rintro i t c next rfl ht hr
    apply sameShop_call c h.shop
    rintro d rfl
    exact Service.obedient_pending h.obedient ht hr
  · apply messagesService.store_step (I := fun s => ∀ r u, s.2.isMember r u = true →
      Joined s₀ (messagesService.step p turn) r u)
      fun r u inside => (h.members r u inside).step turn
    rintro i t c next rfl ht hr r u inside
    rcases member_call c inside with before | ⟨now, productId, first, second, record, same, who⟩
    · exact (h.members r u before).step _
    · obtain rfl : c = .inr (.createRoom r now productId first second) := congrArg Answer.call same
      obtain ⟨new, product, op, seller, read⟩ := Service.obedient_pending h.obedient ht hr
      obtain ⟨row, stored, owner⟩ :=
        (h.told t (List.mem_of_getElem? ht) _ read).product productId product rfl
      right
      rw [messagesService.step_call ht hr]
      refine ⟨_, Service.answered_mem ht, first.2, productId, new, op,
        ⟨now, first, second, record, same ▸ List.mem_cons_self⟩, who.imp_right fun own => ?_⟩
      exact ⟨row, stored, owner.trans (seller.trans own.symm)⟩
  · apply messagesService.store_step (I := fun s => ∀ k d, s.2.messages.find? k = some d →
      Sent s₀ (messagesService.step p turn) k d) fun k d there => (h.messages k d there).step turn
    rintro i t c next rfl ht hr k d there
    rcases message_call c there with ⟨d₀, before, same⟩ | ⟨now, data, same, room, sender, content⟩
    · exact ((h.messages k d₀ before).reread same).step _
    · obtain rfl : c = .inr (.createMessage k now data) := congrArg Answer.call same
      obtain ⟨found, touchedAt, op⟩ := Service.obedient_pending h.obedient ht hr
      have joined := (h.found (List.mem_of_getElem? ht) found).step (.call i)
      right
      rw [room, sender, content]
      refine ⟨?_, joined⟩
      rw [messagesService.step_call ht hr]
      exact ⟨_, Service.answered_mem ht, data.messageType, data.fileUrl, data.fileName, now,
        touchedAt, data, op, same ▸ List.mem_cons_self⟩
  · apply messagesService.threads_step (P := fun _ t => ∀ a ∈ t.log,
      Truthful s₀ (messagesService.step p turn) a)
    · exact fun t member a seen => (h.told t member a seen).step turn
    · intro op _ a none
      cases none
    · intro i t c next _ ht _
      refine ⟨fun t member a seen => (h.told t member a seen).step turn, fun a seen => ?_⟩
      rcases List.mem_cons.mp seen with rfl | before
      · exact (h.tells c).step turn
      · exact (h.told t (List.mem_of_getElem? ht) a before).step turn

end

/-- In any order of requests, whoever is in a room was in it from the beginning, or came in when
it was made, as the one who asked for it or as the seller of its product. Every message is one from
the beginning or was sent by such a user; pages of a room are answered to such users alone and
hold messages of this room; and a sent message is announced to such users, but not to its sender. -/
theorem board_private (s₀ : MessagesStore) (turns : List (Turn MessagesOp)) :
    let p := run messagesService.step (Pool.idle s₀) turns
    (∀ r u, p.store.2.isMember r u = true → Joined s₀ p r u) ∧
    (∀ k d, p.store.2.messages.find? k = some d → Sent s₀ p k d) ∧
    (∀ t ∈ p.threads, ∀ u r page ties answer, t.op = .findMessages u r page ties →
      t.rest = .done (.messages answer) → Joined s₀ p r u ∧
        ∀ m ∈ answer.message, m.2.chatRoomId = r ∧ Sent s₀ p m.1 m.2) ∧
    ∀ t ∈ p.threads, ∀ u r content messageType fileUrl fileName id now touchedAt message event,
      t.op = .send u r content messageType fileUrl fileName id now touchedAt →
      t.rest = .done (.sent message event) →
        event.chatRoomId = r ∧ event.senderId = u ∧ event.messageId = message.1 ∧
          ∀ v ∈ event.recipientIds, v ≠ u ∧ Joined s₀ p r v := by
  intro p
  have kept : BoardKept s₀ p :=
    run_keeps (I := BoardKept s₀) (fun _ turn h => boardKept_step h turn) (boardKept_idle s₀) turns
  refine ⟨kept.members, kept.messages, ?_, ?_⟩
  · intro t member u r page ties answer op answered
    have obeys := kept.obedient t member
    rw [op, answered] at obeys
    obtain ⟨found, skip, limit, items, listed, same⟩ := obeys
    refine ⟨kept.found member found, fun m inside => ?_⟩
    rw [same, List.mem_reverse] at inside
    exact (kept.told t member _ listed).messages r skip limit ties items rfl m inside
  · intro t member u r content messageType fileUrl fileName id now touchedAt message event op
      answered
    have obeys := kept.obedient t member
    rw [op, answered] at obeys
    obtain ⟨room, sender, sent, others⟩ := obeys
    exact ⟨room, sender, sent, fun v told =>
      ⟨(others v told).1, kept.found member (others v told).2⟩⟩

end SecondhandApi
