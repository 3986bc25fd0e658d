import SecondhandApi.ChatRooms
import SecondhandApi.ChatMembers
import SecondhandApi.ChatLeaves

/-! The room that a sender and a receiver are given for a product. The query asks for both users
and for a count of two; this module says when that means the two of them and nobody else. -/
namespace SecondhandApi
open Keyed Interleaving
open Mongo (ChatRoom Collections Participant)

/-- The first element of a kind stays the first of a narrower one that it is of. -/
theorem find?_narrow {A : Type} {p q : A → Bool} {l : List A} {x : A} (found : l.find? p = some x)
    (still : q x = true) (narrower : ∀ y ∈ l, q y = true → p y = true) : l.find? q = some x := by
  obtain ⟨_, before, after, rfl, none⟩ := List.find?_eq_some_iff_append.mp found
  refine List.find?_eq_some_iff_append.mpr ⟨still, before, after, rfl, fun y member => ?_⟩
  have out := none y member
  cases kind : q y with
  | false => rfl
  | true =>
    rw [narrower y (List.mem_append_left _ member) kind] at out
    cases out

/- The filter of `findRooms`. -/
def Mongo.ChatRoom.fits (productId senderId receiverId : Id) (room : ChatRoom) : Bool :=
  room.productId = productId &&
    [senderId, receiverId].all (fun id => room.participants.any (·.userId = id)) &&
    room.participantsCount = 2

/-- Two have a seat in the room, and it counts who sits there. -/
structure Mongo.ChatRoom.Seated (room : ChatRoom) : Prop where
  counted : room.Counted
  seats : room.participants.length = 2

def AllSeated (m : Collections) : Prop :=
  ∀ r room, m.chatRooms.find? r = some room → room.Seated

section
variable {room : ChatRoom} {p a b u : Id}

theorem markFirst_length (userId : Id) (now : Date) (list : List Participant) :
    (Mongo.markFirst userId now list).length = list.length := by
  induction list with
  | nil => rfl
  | cons p rest ih =>
    rw [Mongo.markFirst]
    split
    · rfl
    · rw [List.length_cons, ih, List.length_cons]

theorem left_seated (seated : room.Seated) (active : room.hasActive u = true) (now : Date) :
    (room.left u now).Seated where
  counted := left_counted seated.counted active now
  seats := (markFirst_length u now room.participants).trans seated.seats

theorem fits_iff : room.fits p a b = true ↔ room.productId = p ∧
    (∃ q ∈ room.participants, q.userId = a) ∧ (∃ q ∈ room.participants, q.userId = b) ∧
      room.participantsCount = 2 := by
  simp [ChatRoom.fits, and_assoc]

theorem fits_comm (p a b : Id) (room : ChatRoom) : room.fits p a b = room.fits p b a := by
  rw [Bool.eq_iff_iff, fits_iff, fits_iff]
  exact and_congr_right fun _ => and_left_comm

/-- Where two are counted, nobody has left. -/
theorem hasActive_iff (seated : room.Seated) (two : room.participantsCount = 2) :
    room.hasActive u = true ↔ ∃ q ∈ room.participants, q.userId = u := by
  have all : ∀ q ∈ room.participants, q.leftAt.isNone = true := by
    have count : room.activeCount = room.participants.length := by
      have counted := seated.counted
      rw [ChatRoom.Counted, two] at counted
      rw [seated.seats]
      omega
    exact List.countP_eq_length.mp count
  rw [ChatRoom.hasActive, List.any_eq_true]
  refine exists_congr fun q => and_congr_right fun member => ?_
  rw [Participant.isActive, all q member, Bool.and_true, decide_eq_true_eq]

/-- A room that fits has nobody but the two, unless they are one and there is somebody else. -/
theorem fits_exact_iff (seated : room.Seated) (fits : room.fits p a b = true) :
    (∀ u, room.hasActive u = true ↔ u = a ∨ u = b) ↔
      (a = b → ∀ q ∈ room.participants, q.userId = a) := by
  obtain ⟨_, ⟨qa, at_a, rfl⟩, ⟨qb, at_b, rfl⟩, two⟩ := fits_iff.mp fits
  simp only [hasActive_iff seated two]
  constructor
  · intro exact' same q member
    rcases (exact' q.userId).mp ⟨q, member, rfl⟩ with is_a | is_b
    · exact is_a
    · exact is_b.trans same.symm
  · intro alone u
    constructor
    · rintro ⟨q, member, rfl⟩
      by_cases same : qa.userId = qb.userId
      · exact Or.inl (alone same q member)
      · obtain ⟨x, y, pair⟩ := List.length_eq_two.mp seated.seats
        rw [pair] at at_a at_b member
        simp only [List.mem_cons, List.not_mem_nil, or_false] at at_a at_b member
        grind
    · rintro (rfl | rfl)
      · exact ⟨qa, at_a, rfl⟩
      · exact ⟨qb, at_b, rfl⟩

end

section
variable {m : Mongo} {c : MongoCall} {r : ObjectId} {room : ChatRoom}

theorem RoomEffect.seated (e : RoomEffect m.toCollections c r room)
    (before : ∀ old, m.chatRooms.find? r = some old → old.Seated) : room.Seated := by
  cases e with
  | made => exact ⟨rfl, rfl⟩
  | kept _ found => exact before room found
  | shown old found => exact ⟨(before old found).counted, (before old found).seats⟩
  | marked old found active => exact left_seated (before old found) active _
  | leftOthers old found active => exact left_seated (before old found) active _

end

section
variable {s : ChatStore}

theorem allSeated_step (seated : AllSeated s.2.toCollections) (op : ChatOp) :
    AllSeated (chatService.sequential s op).2.toCollections := by
  have keeps (c : ChatCall) (s : ChatStore) (_ : True) (seated : AllSeated s.2.toCollections) :
      AllSeated (execChat c s).1.2.toCollections := by
    rcases c with c | c
    · exact seated
    · exact fun r room there => (room_effect there).seated (seated r)
  exact ((chat_follows op).makes (P := fun _ => True) (fun _ _ _ _ => trivial)).alone_invariant
    keeps seated

/-- The operations of the chat only read users and products. -/
theorem shop_kept (op : ChatOp) : (chatService.sequential s op).1 = s.1 := by
  have makes : Request.Makes (fun c : ChatCall => ∀ d, c = .inl d → d.reads = true) op.program := by
    refine (chat_follows op).makes (fun log c next follow d same => ?_)
    subst same
    exact follow
  have keeps (c : ChatCall) (s' : ChatStore) (reads : ∀ d, c = .inl d → d.reads = true)
      (same : s'.1 = s.1) : (execChat c s').1.1 = s.1 := by
    rcases c with c | c
    · exact (exec_reads (reads c rfl) s'.1).trans same
    · exact same
  exact makes.alone_invariant (I := fun s' : ChatStore => s'.1 = s.1) keeps rfl

end

/-- The users and the product that the service asks for are there. -/
structure PartiesKnown (db : Db) (senderId receiverId productId : Id) : Prop where
  sender : db.users.has senderId = true
  receiver : db.users.has receiverId = true
  product : db.products.has productId = true

/-- The room that the service answers, and whether it was made. -/
def Answers (s : ChatStore) (senderId receiverId productId : Id) (now : Date)
    (answer : (ObjectId × ChatRoom) × Bool) : Prop :=
  ((ChatRoomService.findOrCreateChatroom senderId receiverId productId now).alone execChat s).2 =
    .ok answer

section
variable {s : ChatStore} {a b p : Id} {now : Date}

theorem ensureProductExists_alone (productId : Id) :
    (prisma (ProductsService.ensureProductExists productId)).alone execChat s =
      (s, if s.1.products.has productId then .ok () else
        .error (.api (.notFound "상품을 찾을 수 없습니다"))) := by
  have found : (prisma (ProductsRepository.findById productId)).alone execChat s =
      (s, .ok (s.1.products.find? productId)) := rfl
  rw [prisma, ProductsService.ensureProductExists, Request.left_bind, Request.alone_bind,
    ← prisma, found, Table.has]
  cases s.1.products.find? productId <;> rfl

theorem findOrCreate_alone : (ChatRoomService.findOrCreateChatroom a b p now).alone execChat s =
    if s.1.users.has a then if s.1.users.has b then if s.1.products.has p then
      (ChatRoomRepositoryMongo.findOrCreateChatRoom a b p now).alone execChat s
    else (s, .error (.api (.notFound "상품을 찾을 수 없습니다")))
    else (s, .error (.api (.notFound "사용자를 찾을 수 없습니다")))
    else (s, .error (.api (.notFound "사용자를 찾을 수 없습니다"))) := by
  rw [ChatRoomService.findOrCreateChatroom, Request.alone_check _ (ensureUserExists_alone a),
    Request.alone_check _ (ensureUserExists_alone b),
    Request.alone_check _ (ensureProductExists_alone p)]

theorem findOrCreate_known (known : PartiesKnown s.1 a b p) :
    (ChatRoomService.findOrCreateChatroom a b p now).alone execChat s =
      (ChatRoomRepositoryMongo.findOrCreateChatRoom a b p now).alone execChat s := by
  rw [findOrCreate_alone, known.sender, known.receiver, known.product]
  rfl

theorem Answers.known {answer : (ObjectId × ChatRoom) × Bool} (h : Answers s a b p now answer) :
    PartiesKnown s.1 a b p := by
  rw [Answers, findOrCreate_alone] at h
  split at h
  · split at h
    · split at h
      · exact ⟨‹_›, ‹_›, ‹_›⟩
      · cases h
    · cases h
  · cases h

/-- The first room that fits is given. -/
theorem found_alone_chat {row : ObjectId × ChatRoom}
    (first : s.2.chatRooms.rows.find? (·.2.fits p a b) = some row) :
    (ChatRoomRepositoryMongo.findOrCreateChatRoom a b p now).alone execChat s =
      (s, .ok (row, false)) := by
  have rows : ∃ rest, s.2.findRooms p a b = row :: rest := by
    rw [← List.head?_filter] at first
    exact List.head?_eq_some_iff.mp first
  obtain ⟨rest, rows⟩ := rows
  have answer : (execMongo (.findRooms p a b) s.2).2 = .ok (row :: rest) := congrArg Except.ok rows
  refine (awaitMongo_alone _ _).trans ?_
  rw [answer]
  rfl

/-- Where none fits, one is made. -/
theorem made_alone_chat (none : s.2.chatRooms.rows.find? (·.2.fits p a b) = none) :
    (ChatRoomRepositoryMongo.findOrCreateChatRoom a b p now).alone execChat s =
      ((s.1, (execMongo (.saveRoom p a b now) s.2).1),
        .ok ((s.2.nextId, Collections.newRoom p a b now), true)) := by
  have rows : s.2.findRooms p a b = [] := by
    rw [← List.head?_filter] at none
    exact List.head?_eq_none_iff.mp none
  have answer : (execMongo (.findRooms p a b) s.2).2 = .ok [] := congrArg Except.ok rows
  refine (awaitMongo_alone _ _).trans ?_
  rw [answer]
  rfl

end

/-- The room is the first that fits, and it has nobody but the two. -/
def StandsFirst (m : Collections) (productId senderId receiverId : Id) (id : ObjectId) : Prop :=
  ∃ room, m.chatRooms.rows.find? (·.2.fits productId senderId receiverId) = some (id, room) ∧
    ∀ u, room.hasActive u = true ↔ u = senderId ∨ u = receiverId

section
variable {m : Collections} {s : ChatStore} {a b p : Id} {id : ObjectId} {now : Date}

theorem StandsFirst.stored (h : StandsFirst m p a b id) : ∃ room,
    m.chatRooms.find? id = some room ∧ ∀ u, room.hasActive u = true ↔ u = a ∨ u = b := by
  obtain ⟨room, first, two⟩ := h
  exact ⟨room, m.chatRooms.mem_rows.mp (List.mem_of_find?_eq_some first), two⟩

theorem StandsFirst.swap (h : StandsFirst m p a b id) : StandsFirst m p b a id := by
  obtain ⟨room, first, two⟩ := h
  simp only [fits_comm p a b] at first
  exact ⟨room, first, fun u => (two u).trans or_comm⟩

theorem StandsFirst.answers (h : StandsFirst s.2.toCollections p a b id)
    (known : PartiesKnown s.1 a b p) : ∃ room, Answers s a b p now ((id, room), false) := by
  obtain ⟨room, first, _⟩ := h
  exact ⟨room, congrArg Prod.snd ((findOrCreate_known known).trans (found_alone_chat first))⟩

theorem StandsFirst.inserted (h : StandsFirst m p a b id) (room : ChatRoom)
    (fresh : m.chatRooms.find? m.nextId = none) : StandsFirst (m.insertRoom room) p a b id := by
  obtain ⟨old, first, two⟩ := h
  refine ⟨old, ?_, two⟩
  rw [Collections.insertRoom, Table.rows_insert fresh, List.find?_append, first]
  rfl

/-- An update that makes no other room fit, and leaves this one as it is in what counts. -/
theorem StandsFirst.updated (h : StandsFirst m p a b id) {j : ObjectId} {f : ChatRoom → ChatRoom}
    (narrower : ∀ room, m.chatRooms.find? j = some room → (f room).fits p a b = true →
      room.fits p a b = true)
    (here : j = id → ∀ room, room.fits p a b = true →
      (f room).fits p a b = true ∧ ∀ u, (f room).hasActive u = room.hasActive u) :
    StandsFirst (m.updateRoom j f) p a b id := by
  obtain ⟨room, first, two⟩ := h
  let g (row : ObjectId × ChatRoom) : ChatRoom := if row.1 = j then f row.2 else row.2
  have rows : (m.updateRoom j f).chatRooms.rows =
      m.chatRooms.rows.map (fun row => (row.1, g row)) := rfl
  have fits := List.find?_some first
  dsimp only at fits
  have kept : (g (id, room)).fits p a b = true ∧
      ∀ u, (g (id, room)).hasActive u = room.hasActive u := by
    by_cases same : id = j
    · simp only [g, if_pos same]
      exact here same.symm room fits
    · simp only [g, if_neg same]
      exact ⟨fits, fun _ => trivial⟩
  have still : m.chatRooms.rows.find? (fun row => (g row).fits p a b) = some (id, room) := by
    refine find?_narrow first kept.1 (fun row member new => ?_)
    have stored := m.chatRooms.mem_rows.mp member
    by_cases same : row.1 = j
    · simp only [g, if_pos same] at new
      exact narrower row.2 (same ▸ stored) new
    · simpa only [g, if_neg same] using new
  refine ⟨g (id, room), ?_, fun u => by rw [kept.2]; exact two u⟩
  rw [rows, List.find?_map]
  exact congrArg (Option.map _) still

theorem StandsFirst.erased (h : StandsFirst m p a b id) {j : ObjectId} (other : id ≠ j) :
    StandsFirst (m.deleteRoom j) p a b id := by
  obtain ⟨room, first, two⟩ := h
  refine ⟨room, ?_, two⟩
  have rows : (m.deleteRoom j).chatRooms.rows =
      m.chatRooms.rows.filter (fun row => !decide (row.1 = j)) := rfl
  rw [rows, List.find?_filter]
  have fits := List.find?_some first
  dsimp only at fits
  refine find?_narrow first (decide_eq_true ⟨?_, fits⟩) (fun row _ both => (of_decide_eq_true both).2)
  rw [decide_eq_false other]
  rfl

end

def ChatOp.isLeave : ChatOp → Bool
  | .leave .. => true
  | _ => false

/-- A call of `leaveChatroom` on the room by the user. -/
def ChatOp.leaves (id : ObjectId) (userId : Id) : ChatOp → Prop
  | .leave _ chatRoomId user _ => ObjectId.ofHex chatRoomId = some id ∧ user = userId
  | _ => False

section
variable {m m' : Collections} {s : ChatStore} {a b p : Id} {id : ObjectId}

theorem StandsFirst.of_rooms (h : StandsFirst m p a b id) (same : m'.chatRooms = m.chatRooms) :
    StandsFirst m' p a b id := by
  rw [StandsFirst, same]
  exact h

/-- The calls of everything but a leave. -/
theorem standsFirst_call {c : MongoCall} {mongo : Mongo} (h : StandsFirst mongo.toCollections p a b id)
    (marks : ∀ r u now, c ≠ .markLeft r u now) (deletes : ∀ r, c ≠ .deleteRoom r)
    (ends : ∀ r text u now, c ≠ .leaveTransaction r text u now) :
    StandsFirst (execMongo c mongo).1.toCollections p a b id := by
  have effect := mongo_effect c mongo
  generalize (execMongo c mongo).2 = reply at effect
  generalize (execMongo c mongo).1.toCollections = after at effect
  cases effect with
  | made => exact h.inserted _ mongo.nextRoom
  | shown made => exact h.updated (fun _ _ fits => fits) (fun _ _ fits => ⟨fits, fun _ => rfl⟩)
  | marked => exact absurd rfl (marks _ _ _)
  | absent => exact absurd rfl (marks _ _ _)
  | deleted => exact absurd rfl (deletes _)
  | refusedLeave => exact absurd rfl (ends _ _ _ _)
  | leftOthers => exact absurd rfl (ends _ _ _ _)
  | leftLast => exact absurd rfl (ends _ _ _ _)
  | _ => exact h.of_rooms rfl

/-- A room that somebody leaves counts two no more. -/
theorem left_unfit {room : ChatRoom} (seated : room.Seated) (u : Id) (now : Date) :
    (room.left u now).fits p a b ≠ true := by
  intro fits
  obtain ⟨_, _, _, two⟩ := fits_iff.mp fits
  have counted := seated.counted
  have few : room.activeCount ≤ 2 := by
    rw [← seated.seats]
    exact List.countP_le_length
  rw [ChatRoom.Counted] at counted
  simp only [ChatRoom.left] at two
  omega

/-- Everything but a leave leaves it first. -/
theorem standsFirst_other (h : StandsFirst s.2.toCollections p a b id) {op : ChatOp}
    (quiet : op.isLeave = false) :
    StandsFirst (chatService.sequential s op).2.toCollections p a b id := by
  have makes : Request.Makes (fun c : ChatCall => (∀ r u now, c ≠ .inr (.markLeft r u now)) ∧
      (∀ r, c ≠ .inr (.deleteRoom r)) ∧
      ∀ r text u now, c ≠ .inr (.leaveTransaction r text u now)) op.program := by
    refine (chat_follows op).makes (fun log c next follow => ⟨?_, ?_, ?_⟩)
    · rintro r u now rfl
      obtain ⟨_, rfl, _⟩ := follow
      cases quiet
    · rintro r rfl
      obtain ⟨_, _, _, rfl, _⟩ := follow
      cases quiet
    · rintro r text u now rfl
      obtain ⟨rfl, _⟩ := follow
      cases quiet
  refine makes.alone_invariant (I := fun s : ChatStore => StandsFirst s.2.toCollections p a b id)
    (fun c s quiet h => ?_) h
  rcases c with c | c
  · exact h
  · exact standsFirst_call h (fun r u now same => quiet.1 r u now (congrArg Sum.inr same))
      (fun r same => quiet.2.1 r (congrArg Sum.inr same))
      (fun r text u now same => quiet.2.2 r text u now (congrArg Sum.inr same))

/-- So does a leave of another room. -/
theorem StandsFirst.left (h : StandsFirst m p a b id) (seated : AllSeated m) {j : ObjectId}
    (elsewhere : id ≠ j) (u : Id) (now : Date) :
    StandsFirst (m.updateRoom j (ChatRoom.left u now)) p a b id := by
  refine h.updated (fun room there fits => ?_) (fun same => absurd same.symm elsewhere)
  exact absurd fits (left_unfit (seated j room there) u now)

theorem standsFirst_step (seated : AllSeated s.2.toCollections)
    (h : StandsFirst s.2.toCollections p a b id) {op : ChatOp}
    (stays : ¬ op.leaves id a ∧ ¬ op.leaves id b) :
    StandsFirst (chatService.sequential s op).2.toCollections p a b id := by
  cases op with
  | leave isReplicaSet text u now =>
    obtain ⟨room, stored, two⟩ := h.stored
    -- whoever leaves is in another room, for only the two are in this one
    have apart (j : ObjectId) (old : ChatRoom) (named : ObjectId.ofHex text = some j)
        (found : s.2.chatRooms.find? j = some old) (active : old.hasActive u = true) : id ≠ j := by
      rintro rfl
      cases stored.symm.trans found
      rcases (two u).mp active with rfl | rfl
      · exact stays.1 ⟨named, rfl⟩
      · exact stays.2 ⟨named, rfl⟩
    have effect := @leave_leaves s isReplicaSet text u now
    generalize rooms : (chatService.sequential s (.leave isReplicaSet text u now)).2.chatRooms =
      after at effect
    cases effect with
    | refused => exact h.of_rooms rooms
    | left j old named found active =>
      exact (h.left seated (apart j old named found active) u now).of_rooms rooms
    | closed j old named found active =>
      have elsewhere := apart j old named found active
      exact ((h.left seated elsewhere u now).erased elsewhere).of_rooms rooms
  | _ => exact standsFirst_other h rfl

end

/-- What the two users are owed: their room for the product, and the same one again, whoever asks,
as long as neither of them leaves it. -/
structure RoomRight (s : ChatStore) (a b p : Id) : Prop where
  exact : ∀ now id room made, Answers s a b p now ((id, room), made) →
    room.productId = p ∧ ∀ u, room.hasActive u = true ↔ u = a ∨ u = b
  again : ∀ now id room made, Answers s a b p now ((id, room), made) →
    ∀ ops : List ChatOp, (∀ op ∈ ops, ¬ op.leaves id a ∧ ¬ op.leaves id b) → ∀ later,
      let s' := run chatService.sequential (chatService.sequential s (.findOrCreate a b p now)) ops
      (∃ room', Answers s' a b p later ((id, room'), false)) ∧
        ∃ room', Answers s' b a p later ((id, room'), false)

/-- The two are different, or the first of the user's rooms with a count of two has nobody else. -/
def NobodyElse (s : ChatStore) (a b p : Id) : Prop :=
  PartiesKnown s.1 a b p → a = b →
    ∀ row, s.2.chatRooms.rows.find? (·.2.fits p a b) = some row →
      ∀ q ∈ row.2.participants, q.userId = a

section
variable {s : ChatStore} {a b p : Id} {id : ObjectId} {room : ChatRoom} {made : Bool} {now : Date}

theorem newRoom_fits (p a b : Id) (now : Date) : (Collections.newRoom p a b now).fits p a b = true :=
  fits_iff.mpr ⟨rfl, ⟨_, List.mem_cons_self, rfl⟩,
    ⟨_, List.mem_cons_of_mem _ List.mem_cons_self, rfl⟩, rfl⟩

theorem newRoom_seated (p a b : Id) (now : Date) : (Collections.newRoom p a b now).Seated :=
  ⟨rfl, rfl⟩

theorem newRoom_exact (p a b : Id) (now : Date) (u : Id) :
    (Collections.newRoom p a b now).hasActive u = true ↔ u = a ∨ u = b := by
  refine (fits_exact_iff (newRoom_seated p a b now) (newRoom_fits p a b now)).mpr
    (fun same q member => ?_) u
  rcases List.mem_cons.mp member with rfl | second
  · rfl
  · rw [List.mem_singleton.mp second]
    exact same.symm

theorem findOrCreate_after (known : PartiesKnown s.1 a b p) :
    chatService.sequential s (.findOrCreate a b p now) =
      ((ChatRoomRepositoryMongo.findOrCreateChatRoom a b p now).alone execChat s).1 := by
  rw [← findOrCreate_known known]
  exact congrArg Prod.fst (Request.alone_map execChat _ _ s)

/-- An answer is the first room that fits, or a new one where none does. -/
theorem Answers.cases (h : Answers s a b p now ((id, room), made)) :
    (s.2.chatRooms.rows.find? (·.2.fits p a b) = some (id, room) ∧
      chatService.sequential s (.findOrCreate a b p now) = s) ∨
    (room = Collections.newRoom p a b now ∧
      StandsFirst (chatService.sequential s (.findOrCreate a b p now)).2.toCollections p a b id) := by
  have known := h.known
  rw [findOrCreate_after known]
  rw [Answers, findOrCreate_known known] at h
  cases first : s.2.chatRooms.rows.find? (·.2.fits p a b) with
  | some row =>
    left
    rw [found_alone_chat first] at h ⊢
    cases h
    exact ⟨rfl, rfl⟩
  | none =>
    right
    rw [made_alone_chat first] at h ⊢
    cases h
    refine ⟨rfl, Collections.newRoom p a b now, ?_, newRoom_exact p a b now⟩
    have rows : (execMongo (.saveRoom p a b now) s.2).1.chatRooms.rows =
        s.2.chatRooms.rows ++ [(s.2.nextId, Collections.newRoom p a b now)] :=
      Table.rows_insert s.2.nextRoom _
    rw [rows, List.find?_append, first, Option.none_or]
    exact List.find?_cons_of_pos (newRoom_fits p a b now)

theorem known_run (known : PartiesKnown s.1 a b p) (ops : List ChatOp) :
    PartiesKnown (run chatService.sequential s ops).1 a b p :=
  run_keeps (I := fun s : ChatStore => PartiesKnown s.1 a b p)
    (fun s op known => by rwa [shop_kept op]) known ops

theorem allSeated_run (seated : AllSeated s.2.toCollections) (ops : List ChatOp) :
    AllSeated (run chatService.sequential s ops).2.toCollections :=
  run_keeps (I := fun s : ChatStore => AllSeated s.2.toCollections)
    (fun s op seated => allSeated_step seated op) seated ops

theorem standsFirst_run (seated : AllSeated s.2.toCollections)
    (h : StandsFirst s.2.toCollections p a b id) {ops : List ChatOp}
    (stay : ∀ op ∈ ops, ¬ op.leaves id a ∧ ¬ op.leaves id b) :
    StandsFirst (run chatService.sequential s ops).2.toCollections p a b id := by
  have both := run_invariant
    (I := fun s : ChatStore => AllSeated s.2.toCollections ∧ StandsFirst s.2.toCollections p a b id)
    (fun s op both stays => ⟨allSeated_step both.1 op, standsFirst_step both.1 both.2 stays⟩)
    ⟨seated, h⟩ (along_of_forall stay)
  exact both.2

theorem roomRight_iff (seated : AllSeated s.2.toCollections) :
    RoomRight s a b p ↔ NobodyElse s a b p := by
  have fitting {row : ObjectId × ChatRoom}
      (first : s.2.chatRooms.rows.find? (·.2.fits p a b) = some row) :
      row.2.Seated ∧ row.2.fits p a b = true := by
    have fits := List.find?_some first
    exact ⟨seated row.1 row.2 (s.2.chatRooms.mem_rows.mp (List.mem_of_find?_eq_some first)), fits⟩
  constructor
  · rintro right known same ⟨id, room⟩ first
    have answer : Answers s a b p 0 ((id, room), false) :=
      congrArg Prod.snd ((findOrCreate_known known).trans (found_alone_chat first))
    obtain ⟨sits, fits⟩ := fitting first
    exact (fits_exact_iff sits fits).mp (right.exact 0 id room false answer).2 same
  · intro nobody
    have exactly {now id room made} (answer : Answers s a b p now ((id, room), made)) :
        room.productId = p ∧ ∀ u, room.hasActive u = true ↔ u = a ∨ u = b := by
      rcases answer.cases with ⟨first, _⟩ | ⟨rfl, _⟩
      · obtain ⟨sits, fits⟩ := fitting first
        exact ⟨(fits_iff.mp fits).1, (fits_exact_iff sits fits).mpr
          (fun same => nobody answer.known same _ first)⟩
      · exact ⟨rfl, newRoom_exact p a b _⟩
    refine ⟨fun now id room made answer => exactly answer, ?_⟩
    intro now id room made answer ops stay later s'
    have first : StandsFirst (chatService.sequential s (.findOrCreate a b p now)).2.toCollections
        p a b id := by
      rcases answer.cases with ⟨first, same⟩ | ⟨_, first⟩
      · rw [same]
        exact ⟨room, first, (exactly answer).2⟩
      · exact first
    have stands : StandsFirst s'.2.toCollections p a b id :=
      standsFirst_run (allSeated_step seated _) first stay
    have known : PartiesKnown s'.1 a b p :=
      known_run (by rw [shop_kept]; exact answer.known) ops
    exact ⟨stands.answers known,
      stands.swap.answers ⟨known.receiver, known.sender, known.product⟩⟩

end

/-- In every run the room is right, for any two users and any product, unless one user asks for a
room with themself and is found with somebody else. -/
theorem pair_room_right_iff (db : Db) (ops : List ChatOp) (senderId receiverId productId : Id) :
    RoomRight (run chatService.sequential (db, noRooms) ops) senderId receiverId productId ↔
      NobodyElse (run chatService.sequential (db, noRooms) ops) senderId receiverId productId :=
  roomRight_iff (allSeated_run (fun r room none => by cases none) ops)

/-- Ann has a room with Bob; asking for one with herself, she is given that one. -/
theorem self_room_shared : ¬ ∀ (db : Db) (ops : List ChatOp) (senderId receiverId productId : Id),
    RoomRight (run chatService.sequential (db, noRooms) ops) senderId receiverId productId := by
  intro always
  have answer : Answers (run chatService.sequential (market, noRooms)
      [.findOrCreate "ann" "bob" "lamp" 1]) "ann" "ann" "lamp" 2
      ((0, Collections.newRoom "lamp" "ann" "bob" 1), false) := rfl
  have two := ((always market [.findOrCreate "ann" "bob" "lamp" 1] "ann" "ann" "lamp").exact 2 0 _
    false answer).2 "bob"
  exact absurd (two.mp (by decide)) (by decide)

end SecondhandApi
