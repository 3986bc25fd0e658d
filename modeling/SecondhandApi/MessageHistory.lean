import SecondhandApi.ChatRequests
import SecondhandApi.Paging

/-! The history of a room, asked for without a sort. The pipe then sorts by `updatedAt`, which
a send sets and which marking messages as read sets again. This module says for which runs the
pages make up the messages of the room, the newest first. -/
namespace SecondhandApi
open Keyed Interleaving
open Mongo (ChatRoom Collections Message MessageInput)

section
variable (s : ChatStore) (roomId : String) (userId : Id) (limit : Option Nat)

def historyPage (ties : ObjectId → Nat) (page : Nat) :
    Except ChatError (PaginatedResult (ObjectId × Message)) :=
  ((MessageService.findMessagesByRoomId roomId userId
    (PaginationPipe.transform { page := some page, limit := limit }) ties).alone execChat s).2

/- The pages from the first to the last, each with ties of its own. -/
def history (ties : Nat → ObjectId → Nat) : Except ChatError (List (ObjectId × Message)) := do
  let first ← historyPage s roomId userId limit (ties 0) 1
  let pages ← (List.range first.pages.totalPages).mapM
    (fun n => historyPage s roomId userId limit (ties n) (n + 1))
  return pages.flatMap (·.items)

/-- Whatever the order of equal keys, the history is every message of the room once, the newest
first. -/
def HistoryRight (r : ObjectId) : Prop :=
  ∀ ties, history s roomId userId limit ties = .ok (s.2.ofRoom r).reverse

end

/- A page of the conversation, as the server sorts it. -/
def Mongo.Collections.sortedPage (m : Collections) (roomId : String) (limit : Nat)
    (ties : ObjectId → Nat) (n : Nat) : List (ObjectId × Message) :=
  Paging.page limit
    ((m.conversation roomId).insertionSort (Mongo.sortBefore "updatedAt" .desc ties)) n

/-- The user takes part in the room. -/
def TakesPart (r : ObjectId) (userId : Id) (s : ChatStore) : Prop :=
  ∃ room, s.2.chatRooms.find? r = some room ∧ room.hasActive userId = true

/-- The messages of the room are stored under one string, and each was touched after the last. -/
structure Ordered (r : ObjectId) (roomId : String) (m : Collections) : Prop where
  spelled : ∀ d ∈ m.ofRoom r, d.2.conversationId = roomId
  rising : (m.ofRoom r).Pairwise (fun a b => a.2.updatedAt < b.2.updatedAt)

theorem newest_first (ties : ObjectId → Nat) (a b : ObjectId × Message) :
    Mongo.sortBefore "updatedAt" .desc ties a b ↔ b.2.updatedAt < a.2.updatedAt ∨
      a.2.updatedAt = b.2.updatedAt ∧ ties a.1 ≤ ties b.1 := by
  have empty : ¬ ("" < "") := by decide
  simp [Mongo.sortBefore, Mongo.keyLt, Message.sortKey, empty]

section
variable {s : ChatStore} {r : ObjectId} {roomId : String} {userId : Id} {limit : Option Nat}

theorem conversation_ofRoom (m : Collections) (named : ObjectId.ofHex roomId = some r) :
    m.conversation roomId = (m.ofRoom r).filter (fun d => d.2.conversationId = roomId) := by
  rw [Collections.conversation, Collections.ofRoom, List.filter_filter]
  refine List.filter_congr (fun d _ => ?_)
  by_cases same : d.2.conversationId = roomId
  · simp [same, named]
  · simp [same]

theorem ofRoom_distinct (m : Collections) (r : ObjectId) : ((m.ofRoom r).map Prod.fst).Nodup :=
  m.messages.unique.sublist ((List.filter_sublist).map Prod.fst)

theorem access_alone (named : ObjectId.ofHex roomId = some r) {room : ChatRoom}
    (found : s.2.chatRooms.find? r = some room) (active : room.hasActive userId = true) :
    (ChatRoomService.ensureUserCanAccessChatRoom roomId userId).alone execChat s =
      (s, .ok room) := by
  rw [ChatRoomService.ensureUserCanAccessChatRoom, Request.alone_bind,
    findChatRoomById_alone named, found]
  dsimp only
  rw [active]
  rfl

theorem conversation_whole {m : Collections} (named : ObjectId.ofHex roomId = some r)
    (spelled : ∀ d ∈ m.ofRoom r, d.2.conversationId = roomId) :
    m.conversation roomId = m.ofRoom r := by
  rw [conversation_ofRoom m named]
  exact List.filter_eq_self.mpr (fun d here => decide_eq_true (spelled d here))

/-- A participant gets a page of the sorted conversation. -/
theorem historyPage_items (named : ObjectId.ofHex roomId = some r) (member : TakesPart r userId s)
    (positive : limit.getD 10 ≠ 0) (ties : ObjectId → Nat) (n : Nat) :
    historyPage s roomId userId limit ties (n + 1) = .ok (PaginationUtil.paginate
      (s.2.sortedPage roomId (limit.getD 10) ties n) (s.2.conversation roomId).length (n + 1)
      (limit.getD 10)) := by
  obtain ⟨room, found, active⟩ := member
  have sorted : (execMongo (.findMessages roomId (PaginationUtil.getSkip (n + 1) (limit.getD 10))
      (limit.getD 10) "updatedAt" .desc ties) s.2).2 =
        .ok (s.2.sortedPage roomId (limit.getD 10) ties n) := by
    rw [getSkip_succ, execMongo]
    dsimp only
    rw [Collections.exec, if_neg (Int.not_lt.mpr (Int.natCast_nonneg _)), Collections.findMessages,
      if_neg positive]
    rfl
  rw [historyPage, MessageService.findMessagesByRoomId, Request.alone_bind,
    access_alone named found active]
  dsimp only
  rw [MessageRepositoryMongo.findMessagesByRoomId]
  refine (congrArg Prod.snd (awaitMongo_alone _ _)).trans ?_
  rw [PaginationPipe.transform]
  dsimp only [Option.getD_some, Option.getD_none]
  rw [sorted, mongo_reads rfl]
  rfl

theorem history_items (named : ObjectId.ofHex roomId = some r) (member : TakesPart r userId s)
    (positive : limit.getD 10 ≠ 0) (ties : Nat → ObjectId → Nat) :
    history s roomId userId limit ties = .ok ((List.range (PaginationUtil.getTotalPages
      (s.2.conversation roomId).length (limit.getD 10))).flatMap
        (fun n => s.2.sortedPage roomId (limit.getD 10) (ties n) n)) := by
  have first := historyPage_items named member positive (ties 0) 0
  have pages : (List.range (PaginationUtil.getTotalPages (s.2.conversation roomId).length
      (limit.getD 10))).mapM (fun n => historyPage s roomId userId limit (ties n) (n + 1)) =
        .ok ((List.range (PaginationUtil.getTotalPages (s.2.conversation roomId).length
          (limit.getD 10))).map (fun n => PaginationUtil.paginate
            (s.2.sortedPage roomId (limit.getD 10) (ties n) n) (s.2.conversation roomId).length
            (n + 1) (limit.getD 10))) := by
    simp only [historyPage_items named member positive]
    exact List.mapM_pure
  rw [history, first]
  refine (congrArg (· >>= fun pages => Except.ok (pages.flatMap (·.items))) pages).trans ?_
  exact congrArg Except.ok (List.flatMap_map ..)

/-- The history is right exactly when the messages are in order. -/
theorem historyRight_iff (named : ObjectId.ofHex roomId = some r) (member : TakesPart r userId s)
    (positive : limit.getD 10 ≠ 0) :
    HistoryRight s roomId userId limit r ↔ Ordered r roomId s.2.toCollections := by
  have items := history_items named member positive
  simp only [Collections.sortedPage] at items
  have fits := totalPages_fits (s.2.conversation roomId).length positive
  constructor
  · intro right
    have paged (ties : Nat → ObjectId → Nat) := Except.ok.inj ((items ties).symm.trans (right ties))
    have once := paged (fun _ _ => 0)
    rw [Paging.pages_all (by rwa [List.length_insertionSort])] at once
    have complete : (s.2.conversation roomId).length = (s.2.ofRoom r).length := by
      have same := congrArg List.length once
      rwa [List.length_insertionSort, List.length_reverse] at same
    have spelled : ∀ d ∈ s.2.ofRoom r, d.2.conversationId = roomId := by
      rw [conversation_ofRoom _ named] at complete
      exact fun d here => of_decide_eq_true (List.length_filter_eq_length_iff.mp complete d here)
    rw [conversation_whole named spelled] at fits paged
    exact ⟨spelled, (Paging.pages_reversed newest_first (ofRoom_distinct _ r) fits).mp paged⟩
  · rintro ⟨spelled, rising⟩ ties
    rw [items]
    rw [conversation_whole named spelled] at fits ⊢
    exact congrArg Except.ok ((Paging.pages_reversed newest_first (ofRoom_distinct _ r) fits).mpr
      rising ties)

end

/-- A message comes into the room under the one string, at a later time than any of its messages
was touched; and messages are marked as read without overtaking one another: of two of them, the
newer one is not marked with the older one, nor left behind it. -/
def KeepsOrder (r : ObjectId) (roomId : String) (p : ChatPool) (_ : ChatThread) : ChatCall → Prop
  | .inr (.insertMessage data now) => (data.document now).isSome = true →
    ObjectId.ofHex data.conversationId = some r →
    data.conversationId = roomId ∧ ∀ d ∈ p.store.2.ofRoom r, d.2.updatedAt < now
  | .inr (.markRead text userId now) => (p.store.2.ofRoom r).Pairwise (fun older newer =>
    (older.2.unreadBy text userId = true →
      newer.2.unreadBy text userId = false ∧ now < newer.2.updatedAt) ∧
    (newer.2.unreadBy text userId = true → older.2.updatedAt < now))
  | _ => True

section
variable {r : ObjectId} {roomId : String} {userId : Id}

/- The rows of a room after some messages were marked. -/
theorem ofRoom_markRead (m : Collections) (text : String) (now : Date) :
    (m.markRead text userId now).ofRoom r = (m.ofRoom r).map (fun d => (d.1,
      if d.2.unreadBy text userId then { d.2 with readAt := some now, updatedAt := now }
      else d.2)) := by
  rw [Collections.ofRoom, Collections.markRead, Table.modifyAll, List.filter_map]
  refine congrArg (List.map _) (List.filter_congr (fun d _ => ?_))
  dsimp only [Function.comp]
  split <;> rfl

theorem ordered_insert {m : Mongo} (ordered : Ordered r roomId m.toCollections) (d : Message) :
    Ordered r roomId (m.insertMessage d) ↔ (ObjectId.ofHex d.conversationId = some r →
      d.conversationId = roomId ∧ ∀ old ∈ m.ofRoom r, old.2.updatedAt < d.updatedAt) := by
  by_cases mine : ObjectId.ofHex d.conversationId = some r
  · have grown := ofRoom_insert (m := m) (r := r) d
    rw [if_pos mine] at grown
    constructor
    · rintro ⟨spelled, rising⟩ _
      rw [grown] at spelled rising
      have last := (List.pairwise_append.mp rising).2.2
      exact ⟨spelled _ (List.mem_append_right _ (List.mem_singleton_self _)),
        fun old here => last old here _ (List.mem_singleton_self _)⟩
    · intro comes
      obtain ⟨same, later⟩ := comes mine
      constructor
      · rw [grown]
        intro row here
        rcases List.mem_append.mp here with before | new
        · exact ordered.spelled row before
        · rw [List.mem_singleton.mp new]
          exact same
      · rw [grown]
        refine List.pairwise_append.mpr ⟨ordered.rising, List.pairwise_singleton _ _, ?_⟩
        intro old here new last
        rw [List.mem_singleton.mp last]
        exact later old here
  · have same := ofRoom_insert (m := m) (r := r) d
    rw [if_neg mine] at same
    refine iff_of_true ⟨?_, ?_⟩ (fun comes => absurd comes mine)
    · exact same ▸ ordered.spelled
    · exact same ▸ ordered.rising

theorem ordered_markRead {m : Collections} (ordered : Ordered r roomId m) (text : String)
    (now : Date) : Ordered r roomId (m.markRead text userId now) ↔
      (m.ofRoom r).Pairwise (fun older newer =>
        (older.2.unreadBy text userId = true →
          newer.2.unreadBy text userId = false ∧ now < newer.2.updatedAt) ∧
        (newer.2.unreadBy text userId = true → older.2.updatedAt < now)) := by
  -- two messages in order, and whether they still are when they were marked or not
  have pair (a b : Message) (before : a.updatedAt < b.updatedAt) :
      (if a.unreadBy text userId then { a with readAt := some now, updatedAt := now }
        else a).updatedAt <
      (if b.unreadBy text userId then { b with readAt := some now, updatedAt := now }
        else b).updatedAt ↔
      (a.unreadBy text userId = true → b.unreadBy text userId = false ∧ now < b.updatedAt) ∧
        (b.unreadBy text userId = true → a.updatedAt < now) := by
    cases a.unreadBy text userId <;> cases b.unreadBy text userId <;> simp [before]
  constructor
  · rintro ⟨_, rising⟩
    rw [ofRoom_markRead, List.pairwise_map] at rising
    refine (ordered.rising.and rising).imp (fun {a b} both => ?_)
    exact (pair a.2 b.2 both.1).mp both.2
  · intro marks
    constructor
    · rw [ofRoom_markRead]
      intro row here
      obtain ⟨old, before, rfl⟩ := List.mem_map.mp here
      have same := ordered.spelled old before
      dsimp only
      split <;> exact same
    · rw [ofRoom_markRead, List.pairwise_map]
      refine (ordered.rising.and marks).imp (fun {a b} both => ?_)
      exact (pair a.2 b.2 both.1).mpr both.2

end

/-- What is kept of the requests and of the participant while messages are written. -/
structure Reading (r : ObjectId) (userId : Id) (p : ChatPool) : Prop where
  following : Service.Following chatFollow p
  inScope : ∀ t ∈ p.threads, t.op.onMessages = true
  member : TakesPart r userId p.store

section
variable {r : ObjectId} {roomId : String} {userId : Id} {p : ChatPool} {t : ChatThread}

theorem takesPart_call {op : ChatOp} {log : ChatLog} {c : ChatCall}
    {next : ChatReply c → ChatReq ChatResponse} (scope : op.onMessages = true)
    (follow : chatFollow op log c next) {s : ChatStore} (member : TakesPart r userId s) :
    TakesPart r userId (execChat c s).1 := by
  rcases c with c | c
  · exact member
  obtain ⟨room, found, active⟩ := member
  rcases message_writes scope follow with
    reads | ⟨data, now, rfl⟩ | ⟨id, text, k, now, delivery, rfl⟩ | ⟨text, user, now, rfl⟩
  · rw [chat_reads reads]
    exact ⟨room, found, active⟩
  · cases valid : data.document now with
    | none =>
      rw [chat_refused valid]
      exact ⟨room, found, active⟩
    | some d =>
      have rooms := congrArg Collections.chatRooms (insert_stored (m := s.2) valid).1
      exact ⟨room, (congrArg (Table.find? · r) rooms).trans found, active⟩
  · by_cases lost : delivery = .lost
    · subst lost
      exact ⟨room, found, active⟩
    · have after : (execChat (.inr (.updateLastMessage id text k now delivery)) s).1.2.toCollections =
          s.2.setLastMessage id text k now := update_made lost
      by_cases mine : r = id
      · refine ⟨room.showing text k now, ?_, active⟩
        rw [after, Collections.setLastMessage, find?_updateRoom, if_pos mine, found]
        rfl
      · refine ⟨room, ?_, active⟩
        rw [after, Collections.setLastMessage, find?_updateRoom, if_neg mine, found]
  · exact ⟨room, found, active⟩

theorem reading_idle {s : ChatStore} (member : TakesPart r userId s) :
    Reading r userId (Pool.idle s) where
  following _ none := by cases none
  inScope _ none := by cases none
  member := member

theorem Reading.step (h : Reading r userId p) {turn : Turn ChatOp}
    (arrives : ∀ op, turn = .arrive op → op.onMessages = true) :
    Reading r userId (chatService.step p turn) where
  following := chatFollowing_step h.following turn
  inScope := chatService.scoped_step h.inScope arrives
  member := chatService.store_step h.member turn (fun _ t _ _ _ ht hr =>
    takesPart_call (h.inScope t (List.mem_of_getElem? ht))
      (Service.following_pending h.following ht hr) h.member)

/-- One call keeps the messages of the room in order exactly when it is allowed. -/
theorem ordered_call {c : ChatCall} {next : ChatReply c → ChatReq ChatResponse}
    (scope : t.op.onMessages = true) (follow : chatFollow t.op t.log c next)
    (ordered : Ordered r roomId p.store.2.toCollections) :
    Ordered r roomId (execChat c p.store).1.2.toCollections ↔ KeepsOrder r roomId p t c := by
  rcases c with c | c
  · exact iff_of_true ordered trivial
  rcases message_writes scope follow with
    reads | ⟨data, now, rfl⟩ | ⟨id, text, k, now, delivery, rfl⟩ | ⟨text, user, now, rfl⟩
  · rw [chat_reads reads]
    refine iff_of_true ordered ?_
    cases c <;> trivial
  · cases valid : data.document now with
    | none =>
      rw [chat_refused valid]
      refine iff_of_true ordered (fun accepted => ?_)
      rw [valid] at accepted
      cases accepted
    | some d =>
      obtain ⟨conversation, _, _, touched⟩ := document_fields valid
      have after : (execChat (.inr (.insertMessage data now)) p.store).1.2.toCollections =
          p.store.2.insertMessage d := (insert_stored valid).1
      rw [after, ordered_insert ordered, conversation, touched]
      exact ⟨fun comes _ => comes, fun comes => comes (by rw [valid, Option.isSome_some])⟩
  · refine iff_of_true ?_ trivial
    cases delivery <;> exact ⟨ordered.spelled, ordered.rising⟩
  · exact ordered_markRead ordered text now

end

/-- In every interleaving of sends and marks the history stays right exactly as long as messages
come at later and later times and are marked without overtaking one another. -/
theorem history_right_iff (s : ChatStore) (r : ObjectId) (roomId : String) (userId : Id)
    (limit : Option Nat) (named : ObjectId.ofHex roomId = some r) (member : TakesPart r userId s)
    (positive : limit.getD 10 ≠ 0) (start : HistoryRight s roomId userId limit r)
    (turns : List (Turn ChatOp))
    (scope : ∀ turn ∈ turns, ∀ op, turn = .arrive op → op.onMessages = true) :
    (∀ p ∈ visited chatService.step (Pool.idle s) turns,
      HistoryRight p.store roomId userId limit r) ↔
      Along chatService.step (Service.OnCalls (KeepsOrder r roomId)) (Pool.idle s) turns := by
  refine chatService.store_iff_along (I := fun s => HistoryRight s roomId userId limit r)
    (fun p turn reading arrives => reading.step arrives)
    (fun p i t c next reading right ht hr => ?_) (reading_idle member) start scope
  have here := reading.inScope t (List.mem_of_getElem? ht)
  have follow := Service.following_pending reading.following ht hr
  have after := takesPart_call here follow reading.member
  have ordered := (historyRight_iff named reading.member positive).mp right
  exact (historyRight_iff named after positive).trans (ordered_call here follow ordered)

/-- Ann and Bob write to one another; then one of them reads. -/
def talkThenRead (reader : Id) : List (Turn ChatOp) :=
  [.arrive hello, .call 0, .call 0, .call 0, .call 0, .call 0,
    .arrive answerHello, .call 1, .call 1, .call 1, .call 1, .call 1,
    .arrive (.markRead firstRoom reader 5), .call 2]

theorem talkThenRead_onMessages (reader : Id) :
    ∀ turn ∈ talkThenRead reader, ∀ op, turn = .arrive op → op.onMessages = true := by
  rintro turn member op rfl
  simp only [talkThenRead, List.mem_cons, Turn.arrive.injEq, reduceCtorEq, List.not_mem_nil,
    or_false, false_or] at member
  rcases member with rfl | rfl | rfl <;> rfl

theorem oneRoom_member : TakesPart 0 "ann" (market, oneRoom) := ⟨_, rfl, by decide⟩

theorem oneRoom_history : HistoryRight (market, oneRoom) firstRoom "ann" none 0 :=
  (historyRight_iff (by decide) oneRoom_member (by decide)).mpr
    ⟨fun _ none => (by cases none), .nil⟩

/-- Ann reads Bob's answer, the newest message. -/
theorem history_right_iff_ann :
    Along chatService.step (Service.OnCalls (KeepsOrder 0 firstRoom)) (Pool.idle (market, oneRoom))
      (talkThenRead "ann") ∧
    ∀ p ∈ visited chatService.step (Pool.idle (market, oneRoom)) (talkThenRead "ann"),
      HistoryRight p.store firstRoom "ann" none 0 := by
  have keeps : Along chatService.step (Service.OnCalls (KeepsOrder 0 firstRoom))
      (Pool.idle (market, oneRoom)) (talkThenRead "ann") := by
    refine ⟨trivial, ?_, ?_, ?_, ?_, ?_, trivial, ?_, ?_, ?_, ?_, ?_, trivial, ?_, trivial⟩ <;>
      intro t c ht pending <;> cases ht <;> cases pending <;> try trivial
    · exact fun _ _ => ⟨rfl, by decide +kernel⟩
    · exact fun _ _ => ⟨rfl, by decide +kernel⟩
    · refine (?_ : List.Pairwise _ _)
      decide +kernel
  exact ⟨keeps, (history_right_iff _ 0 firstRoom "ann" none (by decide) oneRoom_member (by decide)
    oneRoom_history _ (talkThenRead_onMessages "ann")).mpr keeps⟩

/-- Bob reads Ann's message, which is older than his own. -/
theorem read_overtakes : ¬ ∀ (s : ChatStore) (r : ObjectId) (roomId : String) (userId : Id)
    (limit : Option Nat), ObjectId.ofHex roomId = some r → TakesPart r userId s →
    limit.getD 10 ≠ 0 → HistoryRight s roomId userId limit r →
    ∀ turns : List (Turn ChatOp),
      (∀ turn ∈ turns, ∀ op, turn = .arrive op → op.onMessages = true) →
      HistoryRight (run chatService.step (Pool.idle s) turns).store roomId userId limit r := by
  intro always
  have right := always (market, oneRoom) 0 firstRoom "ann" none (by decide) oneRoom_member
    (by decide) oneRoom_history _ (talkThenRead_onMessages "bob") (fun _ _ => 0)
  have listed : (history (run chatService.step (Pool.idle (market, oneRoom))
      (talkThenRead "bob")).store firstRoom "ann" none (fun _ _ => 0)).toOption.map
        (List.map Prod.fst) = some [1, 2] := by decide +kernel
  have stored : ((run chatService.step (Pool.idle (market, oneRoom))
      (talkThenRead "bob")).store.2.ofRoom 0).reverse.map Prod.fst = [2, 1] := by decide +kernel
  rw [right] at listed
  cases (congrArg some stored).symm.trans listed

end SecondhandApi
