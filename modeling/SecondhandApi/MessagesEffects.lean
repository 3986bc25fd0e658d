import SecondhandApi.MessagesService
import SecondhandApi.Calls

/-! What an operation of the chat does when it runs alone: one case for each way it can end. -/
namespace SecondhandApi
open Keyed Interleaving
open Messages (ChatRoom ChatMessage RoomRecord MessageCreateInput)

/-- What looking a product up leaves as it was: everything but the count of views. -/
structure SameShop (before after : Db) : Prop where
  users : after.users = before.users
  sellers : ∀ p, (after.products.find? p).map Product.sellerId =
    (before.products.find? p).map Product.sellerId

theorem SameShop.refl (db : Db) : SameShop db db := ⟨rfl, fun _ => rfl⟩

theorem SameShop.seller {db mid : Db} (h : SameShop db mid) {p : Id} {product : Product}
    (there : db.products.find? p = some product) :
    ∃ product', mid.products.find? p = some product' ∧ product'.sellerId = product.sellerId := by
  have same := h.sellers p
  rw [there, Option.map_some] at same
  exact Option.map_eq_some_iff.mp same

section
variable {s : MessagesStore}

theorem viewed_alone (db : Db) (id : Id) :
    (∃ e, db.products.find? id = none ∧
      (ProductsService.findById id).alone exec db = (db, .error e)) ∨
    ∃ product mid, db.products.find? id = some product ∧ SameShop db mid ∧
      (ProductsService.findById id).alone exec db = (mid, .ok product) := by
  cases found : db.products.find? id with
  | none =>
    refine Or.inl ⟨.notFound "상품을 찾을 수 없습니다", rfl, ?_⟩
    simp [ProductsService.findById, Request.alone_bind, found]
  | some product =>
    refine Or.inr ?_
    rcases incrementViewCount_alone db id with ⟨e, _, done⟩ | ⟨mid, new, counted, done⟩
    · refine ⟨product, db, rfl, .refl db, ?_⟩
      simp [ProductsService.findById, Request.alone_bind, Request.alone_tryCatch, found, done]
    · refine ⟨product, mid, rfl, ?_, ?_⟩
      · obtain ⟨row, there, rfl, after⟩ := Prisma.productIncrementViewCount_ok counted
        refine ⟨by rw [after]; rfl, fun p => ?_⟩
        rw [after, Tables.products_withProducts, Table.find?_set there]
        split
        · rename_i same
          rw [same, there]
          rfl
        · rfl
      · simp [ProductsService.findById, Request.alone_bind, Request.alone_tryCatch, found, done]

theorem fromShop_alone {A : Type} (p : Req A) (s : MessagesStore) :
    (fromShop p).alone execBoard s = (((p.alone exec s.1).1, s.2), (p.alone exec s.1).2) := by
  rw [fromShop, execBoard, Request.alone_left, Request.alone_onFst]
  cases (p.alone exec s.1).2 <;> rfl

theorem awaitMessages_alone {A : Type} (c : MessagesCall) (f : c.Result → MessagesReq A)
    (s : MessagesStore) :
    (awaitMessages c >>= f).alone execBoard s =
      (settleMessages (execMessages c s).2 >>= f).alone execBoard (execMessages c s).1 := rfl

theorem isMember_iff {t : Messages.Tables} {r u : Id} : t.isMember r u = true ↔
    ∃ m row, t.members.find? m = some row ∧ row.chatRoomId = r ∧ row.userId = u := by
  simp only [Messages.Tables.isMember, Table.any_iff, Bool.and_eq_true, decide_eq_true_eq]

/-- A room with members is stored. -/
theorem has_of_member {t : Messages.Tables} (linked : Messages.Linked t) {r u : Id}
    (member : t.isMember r u = true) : t.chatRooms.has r = true := by
  obtain ⟨m, row, there, rfl, _⟩ := isMember_iff.mp member
  exact linked.member m row there

theorem record_hasMember (t : Messages.Tables) (r u : Id) (room : ChatRoom) :
    (t.record r room).hasMember u = t.isMember r u := by
  simp only [RoomRecord.hasMember, Messages.Tables.record, Messages.Tables.membersOf,
    Messages.Tables.isMember, Table.any, List.any_filter]

/-- A member gets the room, everyone else an error. -/
theorem memberRoom_alone (missing denied : String) (r u : Id) (s : MessagesStore) :
    (∃ e, s.2.isMember r u = false ∧
      (MessagesService.memberRoom missing denied r u).alone execBoard s = (s, .error e)) ∨
    ∃ room, s.2.isMember r u = true ∧ s.2.chatRooms.find? r = some room ∧
      (MessagesService.memberRoom missing denied r u).alone execBoard s =
        (s, .ok (s.2.record r room)) := by
  cases stored : s.2.chatRooms.find? r with
  | none =>
    refine Or.inl ⟨.notFound missing, ?_, ?_⟩
    · refine Bool.eq_false_iff.mpr (fun member => ?_)
      obtain ⟨room, found⟩ := Table.has_iff.mp (has_of_member s.2.linked member)
      cases stored.symm.trans found
    · refine (awaitMessages_alone _ _ s).trans ?_
      simp only [execMessages, Messages.Tables.exec, stored]
      rfl
  | some room =>
    have steps : (MessagesService.memberRoom missing denied r u).alone execBoard s =
        if s.2.isMember r u then (s, .ok (s.2.record r room)) else (s, .error (.forbidden denied)) := by
      refine (awaitMessages_alone _ _ s).trans ?_
      rw [← record_hasMember s.2.toTables r u room]
      simp only [execMessages, Messages.Tables.exec, stored, Option.map_some, settleMessages]
      change Request.alone execBoard (if !(s.2.record r room).hasMember u then
        Request.fail (ApiError.forbidden denied) else Request.done (s.2.record r room)) s = _
      cases (s.2.record r room).hasMember u <;> rfl
    cases member : s.2.isMember r u with
    | false =>
      rw [member] at steps
      exact Or.inl ⟨_, rfl, steps⟩
    | true =>
      rw [member] at steps
      exact Or.inr ⟨room, rfl, rfl, steps⟩

end

def MessagesOp.reads : MessagesOp → Bool
  | .findMyRooms _ | .findMessages _ _ _ _ => true
  | _ => false

/-- Everything one operation can do to the chat, with what it answers. -/
inductive MessagesEffect (s : MessagesStore) :
    MessagesOp → Except ApiError MessagesResponse → Messages.Tables → Prop where
  | refused {op} (e) : MessagesEffect s op (.error e) s.2.toTables
  | read {op r} (reads : op.reads = true) : MessagesEffect s op r s.2.toTables
  | found {u p new} (product : Product) (room : RoomRecord)
      (there : s.1.products.find? p = some product) (other : product.sellerId ≠ u)
      (listed : product.status ≠ .deleted) (known : s.2.findRoomOf p u = some room) :
      MessagesEffect s (.findOrCreate u p new) (.ok (.room room none)) s.2.toTables
  | created {u p new} (product : Product) (event : ChatroomCreatedEvent)
      (there : s.1.products.find? p = some product) (other : product.sellerId ≠ u)
      (unknown : s.2.findRoomOf p u = none) (fresh : s.2.chatRooms.find? new.id = none)
      (free : s.2.members.find? new.memberIds.1 = none)
      (free' : s.2.members.find? new.memberIds.2 = none)
      (apart : new.memberIds.1 ≠ new.memberIds.2)
      (after : Messages.Tables) (made : after = s.2.withRoom new.id new.now p
        (new.memberIds.1, u) (new.memberIds.2, product.sellerId)) :
      MessagesEffect s (.findOrCreate u p new)
        (.ok (.room (after.record new.id ⟨some p, new.now, new.now⟩) (some event))) after
  | sent {u r content messageType fileUrl fileName id now touchedAt} (d : ChatMessage)
      (event : MessageCreatedEvent) (member : s.2.isMember r u = true)
      (fresh : s.2.messages.find? id = none) (room : d.chatRoomId = r) (sender : d.senderId = u)
      (unread : d.isRead = false) (never : d.readAt = none)
      (told : ∀ w, w ∈ event.recipientIds ↔ s.2.isMember r w = true ∧ w ≠ u) :
      MessagesEffect s (.send u r content messageType fileUrl fileName id now touchedAt)
        (.ok (.sent (id, d) event))
        (Messages.Tables.touchRoom { s.2.toTables with messages := s.2.messages.insert id d } r
          touchedAt)
  | marked {r u readAt lastReadAt} (member : s.2.isMember r u = true) :
      MessagesEffect s (.markRead r u readAt lastReadAt) (.ok .done)
        ((s.2.markRead r u readAt).markMember r u lastReadAt)
  | left {r u} (member : s.2.isMember r u = true) (others : (s.2.removeMember r u).membersOf r ≠ []) :
      MessagesEffect s (.leave r u) (.ok .done) (s.2.removeMember r u)
  | closed {r u} (member : s.2.isMember r u = true) (last : (s.2.removeMember r u).membersOf r = []) :
      MessagesEffect s (.leave r u) (.ok .done) ((s.2.removeMember r u).withoutRoom r)

section
variable (s : MessagesStore)

/-- What an operation does, with the shop that it leaves. -/
def Does (op : MessagesOp) (out : MessagesStore × Except ApiError MessagesResponse) : Prop :=
  SameShop s.1 out.1.1 ∧ MessagesEffect s op out.2 out.1.2.toTables

variable {s}

theorem does_refused {op : MessagesOp} {db : Db} (same : SameShop s.1 db) (e : ApiError) :
    Does s op ((db, s.2), .error e) := ⟨same, .refused e⟩

theorem findRoomOf_alone (p u : Id) : (awaitMessages (.findRoomOf p u)).alone execBoard s =
    (s, .ok (s.2.findRoomOf p u)) := rfl

theorem productRead_alone (p : Id) : (fromShop (await (.productFindById p))).alone execBoard s =
    (s, .ok (s.1.products.find? p)) := rfl

theorem settled_alone (c : MessagesCall) (s : MessagesStore) :
    (awaitMessages c).alone execBoard s =
      ((execMessages c s).1, (execMessages c s).2.mapError .database) := by
  change (settleMessages (execMessages c s).2).alone execBoard (execMessages c s).1 = _
  cases (execMessages c s).2 <;> rfl

theorem repository_alone {u p : Id} {new : NewRoom} {product : Product}
    (there : s.1.products.find? p = some product) :
    (MessageRepository.findOrCreateChatRoom u p new).alone execBoard s =
      match s.2.findRoomOf p u with
      | some room => (s, .ok (room, false))
      | none =>
        let call := MessagesCall.createRoom new.id new.now p (new.memberIds.1, u)
          (new.memberIds.2, product.sellerId)
        ((execMessages call s).1,
          ((execMessages call s).2.mapError .database).map (fun room => (room, true))) := by
  rw [MessageRepository.findOrCreateChatRoom, Request.alone_bind, findRoomOf_alone]
  cases known : s.2.findRoomOf p u with
  | some room => rfl
  | none =>
    simp only
    rw [Request.alone_bind, productRead_alone, there]
    simp only
    rw [Request.alone_bind, settled_alone]
    cases (execMessages (.createRoom new.id new.now p (new.memberIds.1, u)
      (new.memberIds.2, product.sellerId)) s).2 <;> rfl

/-- A room is made only where none of its rows is in use. -/
theorem createRoom_cases (p u v : Id) (new : NewRoom) (s : MessagesStore) :
    let call := MessagesCall.createRoom new.id new.now p (new.memberIds.1, u) (new.memberIds.2, v)
    (∃ e, (execMessages call s).2 = .error e ∧ (execMessages call s).1.1 = s.1 ∧
      (execMessages call s).1.2.toTables = s.2.toTables) ∨
    ∃ after, after = s.2.withRoom new.id new.now p (new.memberIds.1, u) (new.memberIds.2, v) ∧
      (execMessages call s).2 = .ok (after.record new.id ⟨some p, new.now, new.now⟩) ∧
      (execMessages call s).1.1 = s.1 ∧ (execMessages call s).1.2.toTables = after ∧
      s.2.chatRooms.find? new.id = none ∧ s.2.members.find? new.memberIds.1 = none ∧
      s.2.members.find? new.memberIds.2 = none ∧ new.memberIds.1 ≠ new.memberIds.2 := by
  simp only [execMessages, Messages.Tables.exec]
  split
  · exact Or.inl ⟨_, rfl, trivial, rfl⟩
  · split
    · exact Or.inl ⟨_, rfl, trivial, rfl⟩
    · rename_i free
      simp only [Bool.or_eq_true, decide_eq_true_eq, not_or] at free
      refine Or.inr ⟨_, rfl, rfl, trivial, rfl, Table.not_has_iff.mp free.1.1.1.1,
        Table.not_has_iff.mp free.1.1.1.2, Table.not_has_iff.mp free.1.1.2, free.1.2⟩

theorem findOrCreate_does (u p : Id) (new : NewRoom) :
    Does s (.findOrCreate u p new)
      ((MessagesOp.findOrCreate u p new).program.alone execBoard s) := by
  rw [MessagesOp.program, Request.alone_map]
  suffices core : ∃ s' r, (MessagesService.findOrCreateChatRoom u p new).alone execBoard s =
      (s', r) ∧ Does s (.findOrCreate u p new)
        (s', r.map (fun answer => MessagesResponse.room answer.1 answer.2)) by
    obtain ⟨s', r, same, does⟩ := core
    rw [same]
    exact does
  rw [MessagesService.findOrCreateChatRoom, Request.alone_bind, fromShop_alone]
  rcases viewed_alone s.1 p with ⟨e, _, done⟩ | ⟨product, mid, there, same, done⟩
  · rw [done]
    exact ⟨_, _, rfl, does_refused (.refl s.1) e⟩
  · rw [done]
    simp only
    by_cases own : product.sellerId = u
    · rw [if_pos own]
      exact ⟨_, _, rfl, does_refused same _⟩
    · rw [if_neg own]
      by_cases deleted : product.status = .deleted
      · rw [if_pos deleted]
        exact ⟨_, _, rfl, does_refused same _⟩
      · rw [if_neg deleted]
        obtain ⟨product', there', seller⟩ := same.seller there
        simp only [Request.pure_eq]
        rw [Request.alone_bind, repository_alone (s := (mid, s.2)) there', seller]
        cases known : s.2.findRoomOf p u with
        | some room => exact ⟨_, _, rfl, same, .found product room there own deleted known⟩
        | none =>
          rcases createRoom_cases p u product.sellerId new (mid, s.2) with
            ⟨e, refused, db, chat⟩ | ⟨after, made, answer, db, chat, fresh, free, free', apart⟩
          · simp only [refused]
            refine ⟨_, _, rfl, ?_⟩
            rw [Does, db, chat]
            exact ⟨same, .refused _⟩
          · simp only [answer]
            refine ⟨_, _, rfl, ?_⟩
            rw [Does, db, chat]
            exact ⟨same, .created product _ there own known fresh free free' apart after made⟩

/-- The rest of an operation that begins with the check of the members. -/
theorem member_does {A : Type} {op : MessagesOp} {missing denied : String} {r u : Id}
    {f : RoomRecord → MessagesReq A} {answer : A → MessagesResponse}
    (rest : ∀ room, s.2.isMember r u = true → s.2.chatRooms.find? r = some room →
      Does s op ((answer <$> f (s.2.record r room)).alone execBoard s)) :
    Does s op ((answer <$> (MessagesService.memberRoom missing denied r u >>= f)).alone execBoard s) := by
  rw [Request.alone_map, Request.alone_bind]
  rcases memberRoom_alone missing denied r u s with ⟨e, _, done⟩ | ⟨room, member, stored, done⟩
  · rw [done]
    exact does_refused (.refl s.1) e
  · rw [done]
    have does := rest room member stored
    rw [Request.alone_map] at does
    exact does

theorem accepted_messages {c : MessagesCall} {t : Messages.Tables} {a : c.Result}
    (h : s.2.toTables.exec s.1.users.has c = (t, .ok a)) :
    ∃ chat : Messages.Chat, chat.toTables = t ∧
      (awaitMessages c).alone execBoard s = ((s.1, chat), .ok a) := by
  refine ⟨(execMessages c s).1.2, congrArg Prod.fst h, (settled_alone c s).trans ?_⟩
  have answer : (execMessages c s).2 = .ok a := congrArg Prod.snd h
  rw [answer]
  rfl

theorem refused_messages {c : MessagesCall} {e : PrismaError}
    (h : s.2.toTables.exec s.1.users.has c = (s.2.toTables, .error e)) :
    (awaitMessages c).alone execBoard s = (s, .error (.database e)) := by
  have answer : (execMessages c s).2 = .error e := congrArg Prod.snd h
  have chat : (execMessages c s).1.2 = s.2 := by
    have same : (execMessages c s).1.2.toTables = s.2.toTables := congrArg Prod.fst h
    cases kept : (execMessages c s).1.2
    cases was : s.2
    rw [kept, was] at same
    cases same
    rfl
  rw [settled_alone, answer]
  exact congrArg (fun chat => ((s.1, chat), _)) chat

theorem createMessage_cases (data : MessageCreateInput) (id : Id) (now : Date) :
    (∃ e, (MessageRepository.createMessage data id now).alone execBoard s = (s, .error e)) ∨
    ∃ (d : ChatMessage) (chat : Messages.Chat), data.row now = some d ∧
      s.2.messages.find? id = none ∧
      chat.toTables = { s.2.toTables with messages := s.2.messages.insert id d } ∧
      (MessageRepository.createMessage data id now).alone execBoard s = ((s.1, chat), .ok (id, d)) := by
  have refused (e : PrismaError) (out : s.2.toTables.exec s.1.users.has (.createMessage id now data) =
      (s.2.toTables, .error e)) :
      ∃ e, (MessageRepository.createMessage data id now).alone execBoard s = (s, .error e) :=
    ⟨_, refused_messages out⟩
  cases made : data.row now with
  | none => exact Or.inl (refused .invalidValue (by simp only [Messages.Tables.exec, made]))
  | some d =>
    by_cases known : !s.2.chatRooms.has data.chatRoomId || !s.1.users.has data.senderId
    · exact Or.inl (refused .restricted (by simp only [Messages.Tables.exec, made, known, if_true]))
    · by_cases used : s.2.messages.has id
      · exact Or.inl (refused .uniqueViolation (by
          simp only [Messages.Tables.exec, made, if_neg known, if_pos used]))
      · have accepted : s.2.toTables.exec s.1.users.has (.createMessage id now data) =
            ({ s.2.toTables with messages := s.2.messages.insert id d }, .ok (id, d)) := by
          simp only [Messages.Tables.exec, made, if_neg known, if_neg used]
        obtain ⟨chat, after, done⟩ := accepted_messages accepted
        exact Or.inr ⟨d, chat, rfl, Table.not_has_iff.mp used, after, done⟩

theorem touch_alone {r : Id} (stored : s.2.chatRooms.has r = true) (now : Date) :
    ∃ chat : Messages.Chat, chat.toTables = s.2.touchRoom r now ∧
      (MessageRepository.updateChatRoomTimestamp r now).alone execBoard s = ((s.1, chat), .ok ()) :=
  accepted_messages (c := .touchRoom r now) (by simp only [Messages.Tables.exec, if_pos stored])

theorem mem_others {t : Messages.Tables} {r u w : Id} {room : ChatRoom} :
    w ∈ ((t.record r room).members.filter (fun row => row.2.userId ≠ u)).map
      (fun row => row.2.userId) ↔ t.isMember r w = true ∧ w ≠ u := by
  rw [← record_hasMember t r w room, RoomRecord.hasMember, List.any_eq_true, List.mem_map]
  constructor
  · rintro ⟨row, kept, rfl⟩
    obtain ⟨member, other⟩ := List.mem_filter.mp kept
    exact ⟨⟨row, member, decide_eq_true rfl⟩, of_decide_eq_true other⟩
  · rintro ⟨⟨row, member, same⟩, other⟩
    obtain rfl := of_decide_eq_true same
    exact ⟨row, List.mem_filter.mpr ⟨member, decide_eq_true other⟩, rfl⟩

theorem send_does (u r : Id) (content : String) (messageType : Field Messages.MessageType)
    (fileUrl fileName : Field String) (id : Id) (now touchedAt : Date) :
    Does s (.send u r content messageType fileUrl fileName id now touchedAt)
      ((MessagesOp.send u r content messageType fileUrl fileName id now touchedAt).program.alone
        execBoard s) := by
  refine member_does (fun room member stored => ?_)
  rw [Request.alone_map, Request.alone_bind]
  rcases createMessage_cases ⟨r, u, content, messageType, fileUrl, fileName⟩ id now with
    ⟨e, done⟩ | ⟨d, chat, made, fresh, after, done⟩
  · rw [done]
    exact does_refused (.refl s.1) e
  · rw [done]
    simp only
    have there : chat.chatRooms.has r = true := by
      rw [after]
      exact Table.has_iff.mpr ⟨room, stored⟩
    obtain ⟨touched, shown, done⟩ := touch_alone (s := (s.1, chat)) there touchedAt
    rw [Request.alone_bind, done]
    obtain ⟨inRoom, sender, unread, never⟩ := MessageCreateInput.row_some made
    have tables : touched.toTables = Messages.Tables.touchRoom
        { s.2.toTables with messages := s.2.messages.insert id d } r touchedAt := by
      rw [← after]
      exact shown
    refine ⟨.refl s.1, ?_⟩
    change MessagesEffect s _ (.ok (.sent (id, d) _)) touched.toTables
    rw [tables]
    exact .sent d _ member fresh inRoom sender unread never (fun w => mem_others)

theorem markRead_does (r u : Id) (readAt lastReadAt : Date) :
    Does s (.markRead r u readAt lastReadAt)
      ((MessagesOp.markRead r u readAt lastReadAt).program.alone execBoard s) := by
  refine member_does (fun room member stored => ?_)
  exact ⟨.refl s.1, .marked member⟩

theorem leaveRoom_alone (r u : Id) {room : ChatRoom} (stored : s.2.chatRooms.find? r = some room) :
    ∃ chat : Messages.Chat,
      chat.toTables = (if (s.2.removeMember r u).membersOf r = [] then
        (s.2.removeMember r u).withoutRoom r else s.2.removeMember r u) ∧
      (MessageRepository.leaveChatRoom r u).alone execBoard s = ((s.1, chat), .ok ()) := by
  have first : (MessageRepository.leaveChatRoom r u).alone execBoard s =
      (if (((s.2.removeMember r u).membersOf r).length : Nat) = 0 then
        awaitMessages (.deleteRoom r) else Request.done ()).alone execBoard
          (s.1, ⟨s.2.removeMember r u, s.2.linked.removeMember r u⟩) := rfl
  rw [first]
  by_cases last : (s.2.removeMember r u).membersOf r = []
  · rw [if_pos last, if_pos (List.length_eq_zero_iff.mpr last)]
    have there : (s.2.removeMember r u).chatRooms.has r = true := Table.has_iff.mpr ⟨room, stored⟩
    exact accepted_messages (c := .deleteRoom r) (by simp only [Messages.Tables.exec, if_pos there])
  · rw [if_neg last, if_neg (fun none => last (List.length_eq_zero_iff.mp none))]
    exact ⟨_, rfl, rfl⟩

theorem leave_does (r u : Id) :
    Does s (.leave r u) ((MessagesOp.leave r u).program.alone execBoard s) := by
  refine member_does (fun room member stored => ?_)
  obtain ⟨chat, after, done⟩ := leaveRoom_alone r u stored
  rw [Request.alone_map, done]
  refine ⟨.refl s.1, ?_⟩
  change MessagesEffect s (.leave r u) (.ok .done) chat.toTables
  rw [after]
  split
  · rename_i last
    exact .closed member last
  · rename_i others
    exact .left member others

end

/-! The two operations that only read. -/

def MessagesCall.reads : MessagesCall → Bool
  | .findRoomOf _ _ | .findMemberships _ | .findMessages _ _ _ _ | .countMessages _ |
    .countUnread _ _ | .findRoomById _ | .countMembers _ => true
  | _ => false

/-- A request whose calls are reads of the chat. -/
def OnlyReads {A : Type} (p : MessagesReq A) : Prop :=
  Request.Makes (fun c => ∃ d : MessagesCall, c = .inr d ∧ d.reads = true) p

theorem OnlyReads.alone {A : Type} {p : MessagesReq A} (h : OnlyReads p) (s : MessagesStore) :
    (p.alone execBoard s).1 = s := by
  refine h.alone_invariant (I := fun t => t = s) (fun c t reading same => ?_) rfl
  obtain ⟨d, rfl, reads⟩ := reading
  rw [← same]
  cases d <;> first
    | rfl
    | cases reads

theorem awaitMessages_reads {c : MessagesCall} (reads : c.reads = true) :
    OnlyReads (awaitMessages c) := by
  refine ⟨⟨c, rfl, reads⟩, fun reply => ?_⟩
  cases reply with
  | ok a => trivial
  | error e => trivial

theorem memberRoom_reads (missing denied : String) (r u : Id) :
    OnlyReads (MessagesService.memberRoom missing denied r u) := by
  refine Request.makes_bind (awaitMessages_reads rfl) (fun found => ?_)
  cases found with
  | none => trivial
  | some room =>
    change OnlyReads (if !room.hasMember u then Request.fail (ApiError.forbidden denied) else
      Request.done room)
    split
    · trivial
    · trivial

theorem mapM_reads {A B : Type} {f : A → MessagesReq B} (each : ∀ a, OnlyReads (f a))
    (rows : List A) : OnlyReads (rows.mapM f) := by
  suffices general : ∀ rows acc, OnlyReads (List.mapM.loop f rows acc) from general rows []
  intro rows
  induction rows with
  | nil => exact fun acc => trivial
  | cons a rows ih => exact fun acc => Request.makes_bind (each a) (fun b => ih (b :: acc))

theorem program_reads {op : MessagesOp} (reads : op.reads = true) : OnlyReads op.program := by
  cases op with
  | findMyRooms u =>
    refine Request.makes_map (Request.makes_bind (awaitMessages_reads rfl) (fun rooms => ?_)) _
    refine mapM_reads (fun room => ?_) rooms
    exact Request.makes_bind (awaitMessages_reads rfl) (fun _ => trivial)
  | findMessages u r page ties =>
    refine Request.makes_map (Request.makes_bind (memberRoom_reads _ _ r u) (fun _ => ?_)) _
    refine Request.makes_bind (awaitMessages_reads rfl) (fun messages => ?_)
    exact Request.makes_bind (awaitMessages_reads rfl) (fun _ => trivial)
  | _ => cases reads

theorem messages_does (op : MessagesOp) (s : MessagesStore) :
    Does s op (op.program.alone execBoard s) := by
  have reading (reads : op.reads = true) : Does s op (op.program.alone execBoard s) := by
    rw [Does, (program_reads reads).alone]
    exact ⟨.refl s.1, .read reads⟩
  cases op with
  | findOrCreate u p new => exact findOrCreate_does u p new
  | send u r content messageType fileUrl fileName id now touchedAt =>
    exact send_does u r content messageType fileUrl fileName id now touchedAt
  | findMyRooms u => exact reading rfl
  | findMessages u r page ties => exact reading rfl
  | markRead r u readAt lastReadAt => exact markRead_does r u readAt lastReadAt
  | leave r u => exact leave_does r u

end SecondhandApi
