import SecondhandApi.ChatRequests
import SecondhandApi.Paging

/-! The list of a user's rooms. The query looks for the user among the participants, whoever has
left; the check of each room asks for a participant who has not. -/
namespace SecondhandApi
open Keyed Interleaving
open Mongo (ChatRoom Collections Participant)

namespace Mongo

def ChatRoom.hasParticipant (room : ChatRoom) (userId : Id) : Bool :=
  room.participants.any (·.userId = userId)

namespace Collections

def roomsOf (m : Collections) (userId : Id) : List (ObjectId × ChatRoom) :=
  m.chatRooms.rows.filter (fun row => row.2.hasParticipant userId)

/-- The check of `ensureUserCanAccessChatRoom` on a room by its id. -/
def admits (m : Collections) (id : ObjectId) (userId : Id) : Bool :=
  (m.chatRooms.find? id).any (·.hasActive userId)

end Collections

end Mongo

section
variable {K : Type} [LinearOrder K] (sortKey : String → SortOrder → ObjectId × ChatRoom → K)

/- The order of the server by what it compares documents by under a field; documents that are
equal in it stand in the order of `ties`, which each query draws anew. -/
def roomBefore (field : String) (order : SortOrder) (ties : ObjectId → Nat)
    (a b : ObjectId × ChatRoom) : Prop :=
  let x := sortKey field order a
  let y := sortKey field order b
  match order with
  | .asc => x < y ∨ x = y ∧ ties a.1 ≤ ties b.1
  | .desc => y < x ∨ x = y ∧ ties a.1 ≤ ties b.1

instance (field : String) (order : SortOrder) (ties : ObjectId → Nat) :
    DecidableRel (roomBefore sortKey field order ties) :=
  fun _ _ => match order with
    | .asc => inferInstanceAs (Decidable (_ ∨ _))
    | .desc => inferInstanceAs (Decidable (_ ∨ _))

variable (m : Collections)

def ChatRoomRepositoryMongo.findChatRoomsByUserId (userId : Id) (pagination : PaginationOptions)
    (ties : ObjectId → Nat) : Except MongoError (PaginatedResult (ObjectId × ChatRoom)) :=
  let skip := PaginationUtil.getSkip pagination.page pagination.limit
  if skip < 0 then .error .badValue
  else
    let rest := ((m.roomsOf userId).insertionSort
      (roomBefore sortKey pagination.sortBy pagination.sortOrder ties)).drop skip.toNat
    let chatRooms := if pagination.limit = 0 then rest else rest.take pagination.limit
    let total := (m.roomsOf userId).length
    .ok (PaginationUtil.paginate chatRooms total pagination.page pagination.limit)

def ChatRoomService.getChatRoomList (userId : Id) (pagination : PaginationOptions)
    (ties : ObjectId → Nat) : Except MongoError (PaginatedResult (ObjectId × ChatRoom)) :=
  ChatRoomRepositoryMongo.findChatRoomsByUserId sortKey m userId pagination ties

variable (userId : Id) (limit : Nat) (sortBy : String) (sortOrder : SortOrder)

/-- The first page and those from the first to the last, each with ties of its own. -/
def roomPages (ties : Nat → ObjectId → Nat) :
    Except MongoError (PaginatedResult (ObjectId × ChatRoom) ×
      List (PaginatedResult (ObjectId × ChatRoom))) := do
  let first ← ChatRoomService.getChatRoomList sortKey m userId ⟨1, limit, sortBy, sortOrder⟩ (ties 0)
  let pages ← (List.range first.pages.totalPages).mapM (fun n =>
    ChatRoomService.getChatRoomList sortKey m userId ⟨n + 1, limit, sortBy, sortOrder⟩ (ties n))
  return (first, pages)

/-- The pages have each room that admits the user once and no other, and count them. -/
def RoomsListed : Prop :=
  ∀ ties, ∃ first pages, roomPages sortKey m userId limit sortBy sortOrder ties =
      .ok (first, pages) ∧
    (∀ r, ((pages.flatMap (·.items)).map Prod.fst).count r =
      if m.admits r userId then 1 else 0) ∧
    ∀ page ∈ first :: pages, page.pages.total =
      (m.chatRooms.rows.filter (fun row => row.2.hasActive userId)).length

/-- No two of the user's rooms are equal in the sort key. -/
def NoTies : Prop := ((m.roomsOf userId).map (sortKey sortBy sortOrder)).Nodup

instance : Decidable (NoTies sortKey m userId sortBy sortOrder) :=
  inferInstanceAs (Decidable (List.Nodup _))

end

/-- Wherever the user is a participant, the user has not left. -/
def StillIn (m : Collections) (userId : Id) : Prop :=
  ∀ r room, m.chatRooms.find? r = some room → room.hasParticipant userId = true →
    room.hasActive userId = true

section
variable {s : ChatStore} {m : Collections} {text : String} {r : ObjectId} {userId : Id}

theorem ensure_admits_iff (named : ObjectId.ofHex text = some r) :
    (∃ room, ((ChatRoomService.ensureUserCanAccessChatRoom text userId).alone execChat s).2 =
      .ok room) ↔ s.2.admits r userId = true := by
  rw [ChatRoomService.ensureUserCanAccessChatRoom, Request.alone_bind,
    findChatRoomById_alone named, Collections.admits]
  cases s.2.chatRooms.find? r with
  | none => simp
  | some room =>
    dsimp only
    cases active : room.hasActive userId with
    | false => simp [active]
    | true => simp [active]

theorem hasParticipant_of_active {room : ChatRoom} (active : room.hasActive userId = true) :
    room.hasParticipant userId = true := by
  obtain ⟨p, member, here⟩ := List.any_eq_true.mp active
  exact List.any_eq_true.mpr ⟨p, member, (Bool.and_eq_true_iff.mp here).1⟩

theorem stillIn_iff : StillIn m userId ↔
    ∀ row ∈ m.chatRooms.rows, row.2.hasParticipant userId = true →
      row.2.hasActive userId = true := by
  constructor
  · exact fun still row listed => still row.1 row.2 (m.chatRooms.mem_rows.mp listed)
  · exact fun still r room found => still (r, room) (m.chatRooms.mem_rows.mpr found)

/-- The user's rooms are those that admit the user exactly when they are as many. -/
theorem length_eq_iff : (m.roomsOf userId).length =
    (m.chatRooms.rows.filter (fun row => row.2.hasActive userId)).length ↔ StillIn m userId := by
  have inside : m.chatRooms.rows.filter (fun row => row.2.hasActive userId) =
      (m.roomsOf userId).filter (fun row => row.2.hasActive userId) := by
    rw [Collections.roomsOf, List.filter_filter]
    refine List.filter_congr (fun row _ => ?_)
    cases active : row.2.hasActive userId with
    | false => rfl
    | true => rw [hasParticipant_of_active active]; rfl
  rw [inside, eq_comm, List.length_filter_eq_length_iff, stillIn_iff]
  simp only [Collections.roomsOf, List.mem_filter, and_imp]

theorem count_roomsOf (still : StillIn m userId) (r : ObjectId) :
    ((m.roomsOf userId).map Prod.fst).count r = if m.admits r userId then 1 else 0 := by
  have distinct : ((m.roomsOf userId).map Prod.fst).Nodup :=
    m.chatRooms.unique.sublist (List.filter_sublist.map Prod.fst)
  rw [distinct.count]
  refine if_congr ?_ rfl rfl
  rw [List.mem_map, Collections.admits, Option.any_eq_true]
  constructor
  · rintro ⟨⟨k, room⟩, listed, rfl⟩
    obtain ⟨stored, inside⟩ := List.mem_filter.mp listed
    have found := m.chatRooms.mem_rows.mp stored
    exact ⟨room, found, still k room found inside⟩
  · rintro ⟨room, found, active⟩
    exact ⟨(r, room), List.mem_filter.mpr ⟨m.chatRooms.mem_rows.mpr found,
      hasParticipant_of_active active⟩, rfl⟩

end

section
variable {K : Type} [LinearOrder K] {sortKey : String → SortOrder → ObjectId × ChatRoom → K}
  {m : Collections} {userId : Id} {limit : Nat} {sortBy : String} {sortOrder : SortOrder}

/-- Page `n + 1`, with the ties of its query. -/
def roomPage (sortKey : String → SortOrder → ObjectId × ChatRoom → K) (m : Collections)
    (userId : Id) (limit : Nat) (sortBy : String) (sortOrder : SortOrder)
    (ties : Nat → ObjectId → Nat) (n : Nat) : PaginatedResult (ObjectId × ChatRoom) :=
  PaginationUtil.paginate (Paging.page limit ((m.roomsOf userId).insertionSort
    (roomBefore sortKey sortBy sortOrder (ties n))) n) (m.roomsOf userId).length (n + 1) limit

theorem getChatRoomList_page (positive : 1 ≤ limit) (ties : Nat → ObjectId → Nat) (n : Nat) :
    ChatRoomService.getChatRoomList sortKey m userId ⟨n + 1, limit, sortBy, sortOrder⟩ (ties n) =
      .ok (roomPage sortKey m userId limit sortBy sortOrder ties n) := by
  rw [ChatRoomService.getChatRoomList, ChatRoomRepositoryMongo.findChatRoomsByUserId]
  dsimp only
  rw [getSkip_succ, if_neg (Int.not_lt.mpr (Int.natCast_nonneg _)), if_neg (Nat.ne_of_gt positive)]
  rfl

theorem roomPages_eq (positive : 1 ≤ limit) (ties : Nat → ObjectId → Nat) :
    roomPages sortKey m userId limit sortBy sortOrder ties =
      .ok (roomPage sortKey m userId limit sortBy sortOrder ties 0,
        (List.range (PaginationUtil.getTotalPages (m.roomsOf userId).length limit)).map
          (roomPage sortKey m userId limit sortBy sortOrder ties)) := by
  have all : (List.range (PaginationUtil.getTotalPages (m.roomsOf userId).length limit)).mapM
      (fun n => ChatRoomService.getChatRoomList sortKey m userId
        ⟨n + 1, limit, sortBy, sortOrder⟩ (ties n)) =
      .ok ((List.range (PaginationUtil.getTotalPages (m.roomsOf userId).length limit)).map
        (roomPage sortKey m userId limit sortBy sortOrder ties)) := by
    simp only [getChatRoomList_page positive]
    exact List.mapM_pure
  have first : ChatRoomService.getChatRoomList sortKey m userId ⟨1, limit, sortBy, sortOrder⟩
      (ties 0) = _ := getChatRoomList_page positive ties 0
  rw [roomPages, first]
  exact congrArg (· >>= fun pages => Except.ok (_, pages)) all

/-- Without ties the pages have the user's rooms, each once. -/
theorem items_perm (positive : 1 ≤ limit) (untied : NoTies sortKey m userId sortBy sortOrder)
    (ties : Nat → ObjectId → Nat) :
    (((List.range (PaginationUtil.getTotalPages (m.roomsOf userId).length limit)).map
      (roomPage sortKey m userId limit sortBy sortOrder ties)).flatMap (·.items)).Perm
        (m.roomsOf userId) := by
  have fits := totalPages_fits (m.roomsOf userId).length (Nat.ne_of_gt positive)
  rw [List.flatMap_map]
  cases sortOrder with
  | asc => exact Paging.pages_untied (fun _ _ _ => Iff.rfl) untied fits ties
  | desc =>
    -- falling keys rise in the dual order
    refine @Paging.pages_untied _ _ Kᵒᵈ _ (fun row => OrderDual.toDual (sortKey sortBy .desc row))
      Prod.fst (roomBefore sortKey sortBy .desc) _ _ (fun ties a b => ?_) untied _ _ fits ties
    exact Iff.rfl

theorem roomsListed_iff (positive : 1 ≤ limit) (untied : NoTies sortKey m userId sortBy sortOrder) :
    RoomsListed sortKey m userId limit sortBy sortOrder ↔ StillIn m userId := by
  constructor
  · intro listed
    obtain ⟨first, pages, answer, _, totals⟩ := listed (fun _ _ => 0)
    rw [roomPages_eq positive] at answer
    cases answer
    exact length_eq_iff.mp (totals _ List.mem_cons_self)
  · intro still ties
    refine ⟨_, _, roomPages_eq positive ties, fun r => ?_, fun page member => ?_⟩
    · rw [((items_perm positive untied ties).map Prod.fst).count_eq, count_roomsOf still]
    · have total : page.pages.total = (m.roomsOf userId).length := by
        rcases List.mem_cons.mp member with rfl | later
        · rfl
        · obtain ⟨n, _, rfl⟩ := List.mem_map.mp later
          rfl
      rw [total, length_eq_iff.mpr still]

end

/-- In any run, the pages have exactly the rooms that admit the user, when no room that the user
has left is still there. -/
theorem rooms_listed_iff {K : Type} [LinearOrder K]
    (sortKey : String → SortOrder → ObjectId × ChatRoom → K) (db : Db) (ops : List ChatOp)
    (userId : Id) (limit : Nat) (sortBy : String) (sortOrder : SortOrder) (positive : 1 ≤ limit)
    (untied : NoTies sortKey (run chatService.sequential (db, noRooms) ops).2.toCollections userId
      sortBy sortOrder) :
    let s := run chatService.sequential (db, noRooms) ops
    (∀ text r, ObjectId.ofHex text = some r →
      ((∃ room, ((ChatRoomService.ensureUserCanAccessChatRoom text userId).alone execChat s).2 =
        .ok room) ↔ s.2.admits r userId = true)) ∧
    (RoomsListed sortKey s.2.toCollections userId limit sortBy sortOrder ↔
      StillIn s.2.toCollections userId) :=
  ⟨fun _ _ named => ensure_admits_iff named, roomsListed_iff positive untied⟩

def annAndBob : ChatOp := .findOrCreate "ann" "bob" "lamp" 1

def byId (_ : String) (_ : SortOrder) (row : ObjectId × ChatRoom) : ObjectId := row.1

/-- Ann and bob have left their room, which is gone, and meet again; she has a room with cho, too. -/
def annsRooms : List ChatOp :=
  [annAndBob, .findOrCreate "ann" "cho" "lamp" 2, .leave true firstRoom "ann" 3,
    .leave true firstRoom "bob" 4, .findOrCreate "ann" "bob" "lamp" 5]

/-- She reads her rooms one by one. -/
theorem rooms_listed_ann : RoomsListed byId
    (run chatService.sequential (market, noRooms) annsRooms).2.toCollections "ann" 1 "_id"
      .desc := by
  refine (rooms_listed_iff byId market annsRooms "ann" 1 "_id" .desc (by decide)
    (by decide +kernel)).2.mpr ?_
  rw [stillIn_iff]
  decide +kernel

example : ((run chatService.sequential (market, noRooms) annsRooms).2.roomsOf "ann").length = 2 := by
  decide +kernel

/-- Ann leaves; the room is still listed for her. -/
theorem left_room_listed : ¬ ∀ (db : Db) (ops : List ChatOp) (userId : Id) (limit : Nat)
    (sortBy : String) (sortOrder : SortOrder), 1 ≤ limit →
    NoTies byId (run chatService.sequential (db, noRooms) ops).2.toCollections userId sortBy
      sortOrder →
    RoomsListed byId (run chatService.sequential (db, noRooms) ops).2.toCollections userId limit
      sortBy sortOrder := by
  intro always
  have still := (roomsListed_iff (by decide) (by decide)).mp (always market
    [annAndBob, .leave true firstRoom "ann" 2] "ann" 10 "_id" .desc (by decide) (by decide))
  rw [stillIn_iff] at still
  revert still
  decide

end SecondhandApi
