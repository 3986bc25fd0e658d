import SecondhandApi.ChatRooms
import SecondhandApi.Interleaving.Rely

/-! Who reads the messages of a room, while the requests of all users interleave. -/
namespace SecondhandApi
open Keyed Interleaving
open Mongo (Collections ChatRoom Message MessageInput Participant)

/-- The rooms that a request makes are those it was asked for. -/
def roomsMay (op : ChatOp) (_ : ChatLog) (c : ChatCall) : Prop :=
  ∀ productId senderId receiverId now, c = .inr (.saveRoom productId senderId receiverId now) →
    op = .findOrCreate senderId receiverId productId now

/-- A history is answered to a user whom the request has found in the room. -/
def historyEnds (op : ChatOp) (log : ChatLog) (r : Except ChatError ChatResponse) : Prop :=
  ∀ text userId pagination ties messages, op = .findMessages text userId pagination ties →
    r = .ok (.history messages) → ∃ id room skip,
      ObjectId.ofHex text = some id ∧ room.hasActive userId = true ∧
      ⟨.inr (.findRoomById id), .ok (some room)⟩ ∈ log ∧
      ⟨.inr (.findMessages text skip pagination.limit pagination.sortBy pagination.sortOrder ties),
        .ok messages.items⟩ ∈ log

/-- All but the requests for a history end as they like. -/
theorem rooms_obeys {op : ChatOp}
    (other : ∀ text userId pagination ties, op ≠ .findMessages text userId pagination ties)
    (makes : Request.Makes (fun c => roomsMay op [] c) op.program) :
    Request.Obeys (roomsMay op) (historyEnds op) [] op.program := by
  apply Request.obeys_mono (fun _ _ here => here)
  apply Request.obeys_weaken _ _ (makes.obeys [])
  intro log r _ text userId pagination ties messages same
  exact absurd same (other text userId pagination ties)

theorem findOrCreate_makes (senderId receiverId productId : Id) (now : Date) :
    Request.Makes (fun c => roomsMay (.findOrCreate senderId receiverId productId now) [] c)
      (ChatOp.findOrCreate senderId receiverId productId now).program := by
  have reads {A : Type} {p : Req A} (h : Request.Makes (fun c => c.reads = true) p) :
      Request.Makes (fun c => roomsMay (.findOrCreate senderId receiverId productId now) [] c)
        (prisma p) :=
    Request.makes_left _ (h.mono fun c _ _ _ _ _ same => by cases same)
  rw [ChatOp.program, ChatRoomService.findOrCreateChatroom]
  apply Request.makes_map
  apply Request.makes_bind (reads (ensureUserExists_makes senderId))
  intro _
  apply Request.makes_bind (reads (ensureUserExists_makes receiverId))
  intro _
  apply Request.makes_bind (reads (ensureProductExists_makes productId))
  intro _
  refine ⟨fun _ _ _ _ same => (by cases same), fun r => ?_⟩
  rcases r with e | _ | ⟨room, rooms⟩
  · trivial
  · refine ⟨fun _ _ _ _ same => (by cases same; rfl), fun r => ?_⟩
    cases r <;> trivial
  · trivial

theorem findMessages_obeys (text : String) (userId : Id) (pagination : PaginationOptions)
    (ties : ObjectId → Nat) :
    Request.Obeys (roomsMay (.findMessages text userId pagination ties))
      (historyEnds (.findMessages text userId pagination ties)) []
      (ChatOp.findMessages text userId pagination ties).program := by
  have failed (log : ChatLog) (e : ChatError) :
      historyEnds (.findMessages text userId pagination ties) log (.error e) := by
    intro _ _ _ _ _ _ never
    cases never
  rw [ChatOp.program, Request.map_eq, MessageService.findMessagesByRoomId,
    ChatRoomService.ensureUserCanAccessChatRoom, ChatRoomRepositoryMongo.findChatRoomById]
  cases named : ObjectId.ofHex text with
  | none =>
    rw [newObjectId_none named]
    exact failed _ _
  | some id =>
    rw [newObjectId_some named]
    refine ⟨fun _ _ _ _ same => (by cases same), fun r => ?_⟩
    rcases r with e | _ | room
    · exact failed _ _
    · exact failed _ _
    · dsimp only [settleMongo, bind, Request.bind]
      cases active : room.hasActive userId with
      | false => exact failed _ _
      | true =>
        refine ⟨fun _ _ _ _ same => (by cases same), fun r => ?_⟩
        cases r with
        | error e => exact failed _ _
        | ok items =>
          refine ⟨fun _ _ _ _ same => (by cases same), fun r => ?_⟩
          cases r with
          | error e => exact failed _ _
          | ok total =>
            intro _ _ _ _ messages same answered
            cases same
            cases answered
            refine ⟨id, room, PaginationUtil.getSkip pagination.page pagination.limit, named, active, ?_, ?_⟩
            · exact List.mem_cons_of_mem _ (List.mem_cons_of_mem _ List.mem_cons_self)
            · exact List.mem_cons_of_mem _ List.mem_cons_self

theorem privacy_obeys (op : ChatOp) :
    Request.Obeys (roomsMay op) (historyEnds op) [] op.program := by
  have others (notMade : ∀ senderId receiverId productId now,
      op ≠ .findOrCreate senderId receiverId productId now) :
      Request.Makes (fun c => roomsMay op [] c) op.program := by
    apply (chat_follows op).makes
    rintro log c next follow productId senderId receiverId now rfl
    obtain ⟨_, _, _, _, same⟩ := follow
    exact absurd same (notMade _ _ _ _)
  cases op with
  | findOrCreate senderId receiverId productId now =>
    exact rooms_obeys nofun (findOrCreate_makes senderId receiverId productId now)
  | findMessages text userId pagination ties => exact findMessages_obeys text userId pagination ties
  | _ => exact rooms_obeys nofun (others nofun)

/-! Seats in the rooms. -/

/-- The user takes part in the room and has not left it. -/
def HasSeat (m : Collections) (r : ObjectId) (userId : Id) : Prop :=
  ∃ room, m.chatRooms.find? r = some room ∧ room.hasActive userId = true

section
variable {room : ChatRoom} {userId u : Id} {now : Date}

theorem any_markFirst {list : List Participant}
    (h : (Mongo.markFirst userId now list).any (Participant.isActive u) = true) :
    list.any (Participant.isActive u) = true := by
  induction list with
  | nil => exact h
  | cons p rest ih =>
    unfold Mongo.markFirst at h
    rw [List.any_cons, Bool.or_eq_true]
    split at h
    · rw [List.any_cons, Bool.or_eq_true] at h
      rcases h with marked | later
      · simp [Participant.isActive] at marked
      · exact Or.inr later
    · rw [List.any_cons, Bool.or_eq_true] at h
      exact h.imp_right ih

theorem hasActive_left (h : (room.left userId now).hasActive u = true) : room.hasActive u = true :=
  any_markFirst h

theorem hasActive_newRoom {productId senderId receiverId : Id}
    (h : (Collections.newRoom productId senderId receiverId now).hasActive u = true) :
    u = senderId ∨ u = receiverId := by
  simp only [Collections.newRoom, ChatRoom.hasActive, List.any_cons, List.any_nil,
    Participant.isActive, Option.isNone_none, Bool.and_true, Bool.or_false, Bool.or_eq_true,
    decide_eq_true_eq] at h
  exact h.imp Eq.symm Eq.symm

/-- A seat after a call was there before, or is in the room that the call has made. -/
theorem seat_call (c : ChatCall) (s : ChatStore) {r : ObjectId}
    (h : HasSeat (execChat c s).1.2.toCollections r u) :
    HasSeat s.2.toCollections r u ∨ ∃ productId senderId receiverId now,
      c = .inr (.saveRoom productId senderId receiverId now) ∧ r = s.2.nextId ∧
        (u = senderId ∨ u = receiverId) := by
  rcases c with c | c
  · exact Or.inl h
  · obtain ⟨room, there, active⟩ := h
    cases room_effect there with
    | made => exact Or.inr ⟨_, _, _, _, rfl, rfl, hasActive_newRoom active⟩
    | kept _ found => exact Or.inl ⟨room, found, active⟩
    | shown old found => exact Or.inl ⟨old, found, active⟩
    | marked old found => exact Or.inl ⟨old, found, hasActive_left active⟩
    | leftOthers old found => exact Or.inl ⟨old, found, hasActive_left active⟩

end

/-- The user had a seat from the beginning, or has it by a request that made the room. -/
def Seated (s₀ : ChatStore) (p : ChatPool) (r : ObjectId) (u : Id) : Prop :=
  HasSeat s₀.2.toCollections r u ∨
    ∃ t ∈ p.threads, ∃ senderId receiverId productId now room,
      t.op = .findOrCreate senderId receiverId productId now ∧ (u = senderId ∨ u = receiverId) ∧
      ⟨.inr (.saveRoom productId senderId receiverId now), .ok (r, room)⟩ ∈ t.log

theorem Seated.step {s₀ : ChatStore} {p : ChatPool} {r : ObjectId} {u : Id} (h : Seated s₀ p r u)
    (turn : Turn ChatOp) : Seated s₀ (chatService.step p turn) r u := by
  rcases h with first | ⟨t, member, senderId, receiverId, productId, now, room, op, who, made⟩
  · exact Or.inl first
  · obtain ⟨t', member', same, log⟩ := chatService.thread_grows member turn
    exact Or.inr ⟨t', member', senderId, receiverId, productId, now, room, same.trans op, who,
      log _ made⟩

structure Private (s₀ : ChatStore) (p : ChatPool) : Prop where
  obedient : Service.Obedient roomsMay historyEnds p
  seats : ∀ r u, HasSeat p.store.2.toCollections r u → Seated s₀ p r u
  found : ∀ t ∈ p.threads, ∀ r room, ⟨.inr (.findRoomById r), .ok (some room)⟩ ∈ t.log →
    ∀ u, room.hasActive u = true → Seated s₀ p r u
  listed : ∀ t ∈ p.threads, ∀ text skip limit field order ties,
    ∀ items : List (ObjectId × Message),
      ⟨.inr (.findMessages text skip limit field order ties), .ok items⟩ ∈ t.log →
        ∀ m ∈ items, m.2.conversationId = text

theorem private_idle (s₀ : ChatStore) : Private s₀ (Pool.idle s₀) where
  obedient := fun _ none => by cases none
  seats := fun _ _ seat => Or.inl seat
  found := fun _ none => by cases none
  listed := fun _ none => by cases none

theorem mem_findMessages {c : Collections} {text : String} {skip limit : Nat} {field : String}
    {order : SortOrder} {ties : ObjectId → Nat} {m : ObjectId × Message}
    (h : m ∈ c.findMessages text skip limit field order ties) : m.2.conversationId = text := by
  have inside : m ∈ c.conversation text := by
    unfold Collections.findMessages at h
    split at h
    · exact (List.mem_insertionSort _).mp (List.mem_of_mem_drop h)
    · exact (List.mem_insertionSort _).mp (List.mem_of_mem_drop (List.mem_of_mem_take h))
  exact of_decide_eq_true (List.mem_filter.mp inside).2

/-- The messages that a query lists are those of its conversation. -/
theorem listed_conversation {s : ChatStore} {text : String} {skip : Int} {limit : Nat}
    {field : String} {order : SortOrder} {ties : ObjectId → Nat}
    {items : List (ObjectId × Message)}
    (h : (execChat (.inr (.findMessages text skip limit field order ties)) s).2 = .ok items) :
    ∀ m ∈ items, m.2.conversationId = text := by
  intro m member
  simp only [execChat, either_inr, onSnd, execMongo, Collections.exec] at h
  split at h
  · cases h
  · cases h
    exact mem_findMessages member

theorem private_step {s₀ : ChatStore} {p : ChatPool} (h : Private s₀ p) (turn : Turn ChatOp) :
    Private s₀ (chatService.step p turn) := by
  constructor
  · exact chatService.obedient_step (fun op (_ : True) => privacy_obeys op) p turn h.obedient
      fun _ _ => trivial
  · apply chatService.store_step (I := fun s => ∀ r u, HasSeat s.2.toCollections r u →
      Seated s₀ (chatService.step p turn) r u) (fun r u seat => (h.seats r u seat).step turn)
    rintro i t c next rfl ht hr r u seat
    rcases seat_call c p.store seat with before | ⟨productId, senderId, receiverId, now, rfl, rfl, who⟩
    · exact (h.seats r u before).step _
    · have made := Service.obedient_pending h.obedient ht hr productId senderId receiverId now rfl
      right
      rw [chatService.step_call ht hr]
      exact ⟨_, Service.answered_mem ht, senderId, receiverId, productId, now, _, made, who,
        List.mem_cons_self⟩
  · apply chatService.threads_step (P := fun _ t => ∀ r room,
      ⟨.inr (.findRoomById r), .ok (some room)⟩ ∈ t.log → ∀ u, room.hasActive u = true →
        Seated s₀ (chatService.step p turn) r u)
    · exact fun t member r room seen u active => (h.found t member r room seen u active).step turn
    · intro op _ r room none
      cases none
    · intro i t c next _ ht hr
      have others : ∀ t ∈ p.threads, ∀ r room,
          ⟨.inr (.findRoomById r), .ok (some room)⟩ ∈ t.log → ∀ u, room.hasActive u = true →
            Seated s₀ (chatService.step p turn) r u :=
        fun t member r room seen u active => (h.found t member r room seen u active).step turn
      refine ⟨others, fun r room seen u active => ?_⟩
      rcases List.mem_cons.mp seen with here | before
      · obtain ⟨rfl, reply⟩ := Answer.mk.inj here
        have stored : p.store.2.chatRooms.find? r = some room :=
          Except.ok.inj (eq_of_heq reply).symm
        exact (h.seats r u ⟨room, stored, active⟩).step turn
      · exact others t (List.mem_of_getElem? ht) r room before u active
  · apply chatService.threads_step (P := fun _ t => ∀ text skip limit field order ties,
      ∀ items : List (ObjectId × Message),
        ⟨.inr (.findMessages text skip limit field order ties), .ok items⟩ ∈ t.log →
          ∀ m ∈ items, m.2.conversationId = text)
    · exact h.listed
    · intro op _ text skip limit field order ties items none
      cases none
    · intro i t c next _ ht hr
      refine ⟨h.listed, fun text skip limit field order ties items seen => ?_⟩
      rcases List.mem_cons.mp seen with here | before
      · obtain ⟨rfl, reply⟩ := Answer.mk.inj here
        exact listed_conversation (eq_of_heq reply).symm
      · exact h.listed t (List.mem_of_getElem? ht) text skip limit field order ties items before

theorem private_run (s₀ : ChatStore) (turns : List (Turn ChatOp)) :
    Private s₀ (run chatService.step (Pool.idle s₀) turns) :=
  run_keeps (I := Private s₀) (fun _ turn h => private_step h turn) (private_idle s₀) turns

/-- Whatever requests there are and however they interleave: the history of a room is answered only
to a user who has a seat in it, from the beginning or by the request that made the room, and it
holds the messages of this conversation only. -/
theorem history_private (s₀ : ChatStore) (turns : List (Turn ChatOp)) {t : ChatThread}
    (member : t ∈ (run chatService.step (Pool.idle s₀) turns).threads) {text : String}
    {userId : Id} {pagination : PaginationOptions} {ties : ObjectId → Nat}
    (op : t.op = .findMessages text userId pagination ties)
    {messages : PaginatedResult (ObjectId × Message)} (answered : t.rest = .done (.history messages)) :
    (∃ r, ObjectId.ofHex text = some r ∧
      Seated s₀ (run chatService.step (Pool.idle s₀) turns) r userId) ∧
      ∀ m ∈ messages.items, m.2.conversationId = text := by
  have kept := private_run s₀ turns
  have obeys := kept.obedient t member
  rw [answered] at obeys
  obtain ⟨r, room, skip, named, active, found, listed⟩ := obeys _ _ _ _ _ op rfl
  exact ⟨⟨r, named, kept.found t member r room found userId active⟩,
    kept.listed t member _ _ _ _ _ _ _ listed⟩

def ChatThread.history (t : ChatThread) : Option (PaginatedResult (ObjectId × Message)) :=
  match t.rest with
  | .done (.history messages) => some messages
  | _ => none

/-- A request for the first page of the room, and its three calls. -/
def readRoom (userId : Id) : List (Turn ChatOp) :=
  [.arrive (.findMessages firstRoom userId ⟨1, 10, "createdAt", .desc⟩ fun _ => 0), .call 0,
    .call 0, .call 0]

theorem history_some {t : ChatThread} {messages : PaginatedResult (ObjectId × Message)}
    (h : t.history = some messages) : t.rest = .done (.history messages) := by
  unfold ChatThread.history at h
  split at h
  · cases h
    assumption
  · cases h

/-- Ann reads the room that she has with Bob. -/
theorem history_private_ann : Seated (market, oneRoom)
    (run chatService.step (Pool.idle (market, oneRoom)) (readRoom "ann")) 0 "ann" := by
  cases answer : (run chatService.step (Pool.idle (market, oneRoom))
      (readRoom "ann")).threads[0]?.bind ChatThread.history with
  | none => exact absurd answer (by decide +kernel)
  | some messages =>
    obtain ⟨t, ht, own⟩ := Option.bind_eq_some_iff.mp answer
    have op : t.op = .findMessages firstRoom "ann" ⟨1, 10, "createdAt", .desc⟩ fun _ => 0 := by
      cases ht
      rfl
    obtain ⟨⟨r, named, seated⟩, -⟩ := history_private (market, oneRoom) (readRoom "ann")
      (List.mem_of_getElem? ht) op (history_some own)
    have first : ObjectId.ofHex firstRoom = some 0 := by decide
    cases first.symm.trans named
    exact seated

/-! A seat that was left is not taken again. -/

/-- In the rooms that there have been nobody gets a seat. -/
def NoNewSeats (s s' : ChatStore) : Prop :=
  s.2.nextId ≤ s'.2.nextId ∧ ∀ r < s.2.nextId, ∀ u, HasSeat s'.2.toCollections r u →
    HasSeat s.2.toCollections r u

theorem noNewSeats_trans {s s' s'' : ChatStore} (h : NoNewSeats s s') (k : NoNewSeats s' s'') :
    NoNewSeats s s'' :=
  ⟨h.1.trans k.1, fun r made u seat =>
    h.2 r made u (k.2 r (Nat.lt_of_lt_of_le made h.1) u seat)⟩

theorem nextId_call (c : ChatCall) (s : ChatStore) : s.2.nextId ≤ (execChat c s).1.2.nextId := by
  rcases c with c | c
  · exact le_rfl
  · exact nextId_grows c s.2

theorem noNewSeats_step (p : ChatPool) (turn : Turn ChatOp) :
    NoNewSeats p.store (chatService.step p turn).store := by
  apply chatService.store_step (I := fun s => NoNewSeats p.store s)
    ⟨le_rfl, fun _ _ _ seat => seat⟩ turn
  intro i t c next _ _ _
  refine ⟨nextId_call c p.store, fun r made u seat => ?_⟩
  rcases seat_call c p.store seat with before | ⟨_, _, _, _, _, new, _⟩
  · exact before
  · exact absurd (new ▸ made) (Nat.lt_irrefl _)

/-- A user without a seat in a room that was made gets no history of it, neither an outsider nor
one who has left, whatever else happens while the request is on its way. -/
theorem seatless_locked_out (p : ChatPool) {roomId : String} {userId : Id} {r : ObjectId}
    (named : ObjectId.ofHex roomId = some r) (made : r < p.store.2.nextId)
    (out : ¬HasSeat p.store.2.toCollections r userId) (pagination : PaginationOptions)
    (ties : ObjectId → Nat) (turns : List (Turn ChatOp)) {t : ChatThread}
    (ht : (run chatService.step p (.arrive (.findMessages roomId userId pagination ties) ::
      turns)).threads[p.threads.length]? = some t)
    (messages : PaginatedResult (ObjectId × Message)) : t.rest ≠ .done (.history messages) := by
  intro ended
  have relied : Along chatService.step
      (fun q turn => NoNewSeats q.store (chatService.step q turn).store)
      (chatService.step p (.arrive (.findMessages roomId userId pagination ties))) turns :=
    along_iff_at.mpr fun q turn _ _ => noNewSeats_step _ turn
  have answers := chatService.answers_of_run NoNewSeats (fun _ => ⟨le_rfl, fun _ _ _ seat => seat⟩)
    (fun _ _ _ => noNewSeats_trans) relied ht ended
  obtain ⟨page, answered, -⟩ := MayAnswer.of_map answers
  rw [MessageService.findMessagesByRoomId, ChatRoomService.ensureUserCanAccessChatRoom,
    ChatRoomRepositoryMongo.findChatRoomById, newObjectId_some named] at answered
  cases answered with
  | call s others rest =>
    have gone : ∀ room, s.2.chatRooms.find? r = some room → room.hasActive userId = false :=
      fun room found => Bool.eq_false_iff.mpr fun active =>
        out (others.2 r made userId ⟨room, found, active⟩)
    simp only [chatService, execChat, either_inr, onSnd, execMongo, Collections.exec] at rest
    cases found : s.2.chatRooms.find? r with
    | none =>
      rw [found] at rest
      cases rest
    | some room =>
      rw [found] at rest
      dsimp only [settleMongo, bind, Request.bind] at rest
      rw [gone room found] at rest
      cases rest

/-- Carol, who is not in the room of Ann and Bob. -/
theorem seatless_locked_out_carol :
    (run chatService.step (Pool.idle (market, oneRoom)) (readRoom "carol")).threads[0]?.bind
      ChatThread.history = none := by
  have out : ¬HasSeat oneRoom.toCollections 0 "carol" := by
    rintro ⟨room, found, active⟩
    cases found
    exact absurd active (by decide)
  cases answer : (run chatService.step (Pool.idle (market, oneRoom))
      (readRoom "carol")).threads[0]?.bind ChatThread.history with
  | none => rfl
  | some messages =>
    obtain ⟨t, ht, own⟩ := Option.bind_eq_some_iff.mp answer
    exact absurd (history_some own) (seatless_locked_out (Pool.idle (market, oneRoom)) (by decide)
      (by decide) out _ _ _ ht messages)

end SecondhandApi
