import SecondhandApi.MessagesUnread

/-! The list of a user's rooms. Its rows are those of the memberships, and each is counted by its
own id instead of the room's. -/
namespace SecondhandApi
open Keyed Interleaving
open Messages (ChatMessage ChatRoomMember)

/-- Rows of different tables have different ids. -/
def DistinctIds (t : Messages.Tables) : Prop :=
  ∀ m row, t.members.find? m = some row → t.chatRooms.has m = false

/-- The list has one entry for each room of the user, with the count of that room. -/
def MyRoomsRight (s : MessagesStore) (u : Id) : Prop :=
  ∃ entries, ((MessagesService.findMyChatRooms u).alone execBoard s).2 = .ok entries ∧
    (∀ r, (entries.map (fun entry => entry.1.2.chatRoomId)).count r =
      if s.2.isMember r u then 1 else 0) ∧
    ∀ entry ∈ entries,
      ((MessageRepository.getUnreadCount entry.1.2.chatRoomId u).alone execBoard s).2 =
        .ok entry.2

/-- The user has read everything that others have written in the user's rooms. -/
def AllRead (t : Messages.Tables) (u : Id) : Prop :=
  ∀ k d, t.messages.find? k = some d → t.isMember d.chatRoomId u = true → d.senderId ≠ u →
    d.isRead = true

def Messages.Tables.membershipsOf (t : Messages.Tables) (u : Id) : List (Id × ChatRoomMember) :=
  t.members.rows.filter (fun row => row.2.userId = u)

section
variable {s : MessagesStore} {u : Id}

theorem findMyChatRooms_alone : (MessagesService.findMyChatRooms u).alone execBoard s =
    (s, .ok ((s.2.membershipsOf u).map (fun row => (row, s.2.countUnread row.1 u)))) :=
  Request.alone_mapM execBoard (fun _ => rfl) (s.2.membershipsOf u)

theorem mem_membershipsOf {m : Id} {row : ChatRoomMember} :
    (m, row) ∈ s.2.membershipsOf u ↔ s.2.members.find? m = some row ∧ row.userId = u := by
  rw [Messages.Tables.membershipsOf, List.mem_filter, s.2.members.mem_rows, decide_eq_true_eq]

/-- Nobody is in a room twice, so the rooms of the memberships are distinct. -/
theorem rooms_distinct : ((s.2.membershipsOf u).map (fun row => row.2.chatRoomId)).Nodup := by
  have rows : (s.2.membershipsOf u).Nodup :=
    (List.Nodup.of_map _ s.2.members.unique).filter _
  refine rows.map_on (fun a listed b listed' room => ?_)
  obtain ⟨there, user⟩ := mem_membershipsOf.mp listed
  obtain ⟨there', user'⟩ := mem_membershipsOf.mp listed'
  have same : a.1 = b.1 :=
    s.2.linked.once a.1 a.2 b.1 b.2 there there' room (user.trans user'.symm)
  rw [same, there'] at there
  exact Prod.ext same (Option.some.inj there).symm

theorem mem_rooms {r : Id} : r ∈ (s.2.membershipsOf u).map (fun row => row.2.chatRoomId) ↔
    s.2.isMember r u = true := by
  rw [List.mem_map, isMember_iff]
  constructor
  · rintro ⟨⟨m, row⟩, listed, room⟩
    obtain ⟨there, user⟩ := mem_membershipsOf.mp listed
    exact ⟨m, row, there, room, user⟩
  · rintro ⟨m, row, there, room, user⟩
    exact ⟨(m, row), mem_membershipsOf.mpr ⟨there, user⟩, room⟩

theorem rooms_once (r : Id) :
    ((s.2.membershipsOf u).map (fun row => row.2.chatRoomId)).count r =
      if s.2.isMember r u then 1 else 0 := by
  rw [rooms_distinct.count]
  exact if_congr mem_rooms rfl rfl

theorem countUnread_eq_zero {r : Id} : s.2.countUnread r u = 0 ↔
    ∀ k d, s.2.messages.find? k = some d → d.unreadBy r u = false := by
  rw [Messages.Tables.countUnread, List.length_eq_zero_iff, List.filter_eq_nil_iff]
  constructor
  · intro none k d there
    exact Bool.eq_false_iff.mpr (none (k, d) (s.2.messages.mem_rows.mpr there))
  · intro none row listed
    exact Bool.eq_false_iff.mp (none row.1 row.2 (s.2.messages.mem_rows.mp listed))

/-- No message is in a room with the id of a membership. -/
theorem membership_unread (distinct : DistinctIds s.2.toTables) {m : Id} {row : ChatRoomMember}
    (there : s.2.members.find? m = some row) : s.2.countUnread m u = 0 := by
  refine countUnread_eq_zero.mpr (fun k d stored => ?_)
  have room := s.2.linked.message k d stored
  have other : d.chatRoomId ≠ m := by
    rintro rfl
    cases room.symm.trans (distinct d.chatRoomId row there)
  rw [ChatMessage.unreadBy, decide_eq_false other]
  rfl

theorem allRead_iff : AllRead s.2.toTables u ↔
    ∀ r, s.2.isMember r u = true → s.2.countUnread r u = 0 := by
  constructor
  · intro read r member
    refine countUnread_eq_zero.mpr (fun k d there => Bool.eq_false_iff.mpr (fun unread => ?_))
    obtain ⟨rfl, other, new⟩ := unreadBy_iff.mp unread
    cases new.symm.trans (read k d there member other)
  · intro none k d there member other
    have seen := countUnread_eq_zero.mp (none d.chatRoomId member) k d there
    by_contra unread
    rw [unreadBy_iff.mpr ⟨rfl, other, Bool.eq_false_iff.mpr unread⟩] at seen
    cases seen

theorem myRoomsRight_iff (distinct : DistinctIds s.2.toTables) :
    MyRoomsRight s u ↔ AllRead s.2.toTables u := by
  rw [allRead_iff]
  constructor
  · rintro ⟨entries, answer, _, counts⟩ r member
    rw [findMyChatRooms_alone] at answer
    cases answer
    obtain ⟨⟨m, row⟩, listed, room⟩ := List.mem_map.mp (mem_rooms.mpr member)
    have counted := counts _ (List.mem_map_of_mem listed)
    have zero := @membership_unread s u distinct _ _ (mem_membershipsOf.mp listed).1
    rw [← room]
    exact (Except.ok.inj counted).trans zero
  · intro read
    refine ⟨_, congrArg Prod.snd findMyChatRooms_alone, fun r => ?_, fun entry listed => ?_⟩
    · rw [List.map_map]
      exact rooms_once r
    · obtain ⟨⟨m, row⟩, inside, rfl⟩ := List.mem_map.mp listed
      have zero := @membership_unread s u distinct _ _ (mem_membershipsOf.mp inside).1
      have none := read row.chatRoomId (mem_rooms.mp (List.mem_map_of_mem inside))
      exact congrArg Except.ok (none.trans zero.symm)

end

/-- In any run, the list of a user's rooms is right exactly when the user has read everything. -/
theorem my_rooms_right_iff (db : Db) (ops : List MessagesOp) (u : Id)
    (distinct : DistinctIds
      (run messagesService.sequential (db, Messages.noChat) ops).2.toTables) :
    MyRoomsRight (run messagesService.sequential (db, Messages.noChat) ops) u ↔
      AllRead (run messagesService.sequential (db, Messages.noChat) ops).2.toTables u :=
  myRoomsRight_iff distinct

theorem distinctIds_of_all {t : Messages.Tables}
    (all : t.members.all (fun m _ => !t.chatRooms.has m) = true) : DistinctIds t := by
  intro m row there
  exact Bool.not_eq_true' _ ▸ Table.all_iff.mp all m row there

def annAnswers : MessagesOp :=
  .send "ann" "room" "hello" .undefined .undefined .undefined "hello" 2 2

/-- After Bob has read Ann's message, his list is right. -/
theorem my_rooms_right_read : MyRoomsRight (run messagesService.sequential
    (market, Messages.noChat) [bobAsks, annAnswers, .markRead "room" "bob" 3 3]) "bob" := by
  refine (my_rooms_right_iff market [bobAsks, annAnswers, .markRead "room" "bob" 3 3] "bob"
    (distinctIds_of_all (by decide))).mpr (fun k d there _ _ => ?_)
  have all : (run messagesService.sequential (market, Messages.noChat)
      [bobAsks, annAnswers, .markRead "room" "bob" 3 3]).2.messages.all
        (fun _ d => d.isRead) = true := by decide
  exact Table.all_iff.mp all k d there

/-- Until then it says that he has nothing unread. -/
theorem unread_not_counted : ¬ ∀ (db : Db) (ops : List MessagesOp) (u : Id),
    DistinctIds (run messagesService.sequential (db, Messages.noChat) ops).2.toTables →
    MyRoomsRight (run messagesService.sequential (db, Messages.noChat) ops) u := by
  intro always
  have distinct : DistinctIds (run messagesService.sequential (market, Messages.noChat)
      [bobAsks, annAnswers]).2.toTables := distinctIds_of_all (by decide)
  have read := (myRoomsRight_iff distinct).mp
    (always market [bobAsks, annAnswers] "bob" distinct)
  have said := read "hello" _ rfl (by decide) (by decide)
  cases said

end SecondhandApi
