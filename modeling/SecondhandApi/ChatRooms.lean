import SecondhandApi.ChatOrphans

/-! Rooms and who is still in them. A room counts its participants beside the list that says
who has left; a leave updates both in one call, looks in another whether the room is empty and
deletes it in a third. This module says what holds whatever comes between. -/
namespace SecondhandApi
open Keyed Interleaving
open Mongo (ChatRoom Collections Message Participant)

/-- The counter of a room is the number of its participants who have not left. -/
def Mongo.ChatRoom.Counted (room : ChatRoom) : Prop := room.participantsCount = room.activeCount

instance (room : ChatRoom) : Decidable room.Counted :=
  inferInstanceAs (Decidable (_ = _))

/- The operations that make rooms or end them, on the path without transactions. -/
def ChatOp.onRooms : ChatOp → Bool
  | .findOrCreate .. => true
  | .leave isReplicaSet .. => !isReplicaSet
  | _ => false

section
variable {room : ChatRoom} {userId : Id}

theorem markFirst_count (now : Date) {list : List Participant}
    (active : list.any (Participant.isActive userId) = true) :
    (Mongo.markFirst userId now list).countP (fun p => p.leftAt.isNone) + 1 =
      list.countP (fun p => p.leftAt.isNone) := by
  induction list with
  | nil => cases active
  | cons p rest ih =>
    rw [Mongo.markFirst]
    cases here : p.isActive userId with
    | true =>
      have still : p.leftAt.isNone = true := (Bool.and_eq_true_iff.mp here).2
      simp [still]
    | false =>
      rw [List.any_cons, here, Bool.false_or] at active
      have later := ih active
      simp only [Bool.false_eq_true, if_false, List.countP_cons]
      omega

theorem left_counted (counted : room.Counted) (active : room.hasActive userId = true) (now : Date) :
    (room.left userId now).Counted := by
  have one := markFirst_count now active
  simp only [ChatRoom.Counted, ChatRoom.activeCount, ChatRoom.left] at counted ⊢
  omega

theorem active_pos (active : room.hasActive userId = true) : 0 < room.activeCount := by
  obtain ⟨p, member, here⟩ := List.any_eq_true.mp active
  exact List.countP_pos_iff.mpr ⟨p, member, (Bool.and_eq_true_iff.mp here).2⟩

theorem exists_active (some : room.activeCount ≠ 0) : ∃ userId, room.hasActive userId = true := by
  obtain ⟨p, member, here⟩ := List.countP_pos_iff.mp (Nat.pos_of_ne_zero some)
  refine ⟨p.userId, List.any_eq_true.mpr ⟨p, member, ?_⟩⟩
  rw [Participant.isActive, here, decide_eq_true rfl]
  rfl

end

section
variable {m : Mongo} {c : MongoCall} {r : ObjectId} {room : ChatRoom}

theorem RoomEffect.counted (e : RoomEffect m.toCollections c r room)
    (before : ∀ old, m.chatRooms.find? r = some old → old.Counted) : room.Counted := by
  cases e with
  | made => exact rfl
  | kept _ found => exact before room found
  | shown old found => exact before old found
  | marked old found active => exact left_counted (before old found) active _
  | leftOthers old found active => exact left_counted (before old found) active _

/-- Nobody comes back into an empty room. -/
theorem RoomEffect.stays_empty (e : RoomEffect m.toCollections c r room) {old : ChatRoom}
    (counted : old.Counted) (found : m.chatRooms.find? r = some old)
    (empty : old.participantsCount = 0) : room.participantsCount = 0 := by
  have nobody (userId : Id) : ¬ old.hasActive userId = true := by
    intro active
    have some := active_pos active
    rw [ChatRoom.Counted, empty] at counted
    omega
  cases e with
  | made => cases m.nextRoom.symm.trans found
  | kept _ again => cases found.symm.trans again; exact empty
  | shown _ again => cases found.symm.trans again; exact empty
  | marked _ again active => cases found.symm.trans again; exact absurd active (nobody _)
  | leftOthers _ again active => cases found.symm.trans again; exact absurd active (nobody _)

end

/-- A room that was read empty is empty as long as it is there. -/
def StillEmpty (s : ChatStore) (a : Answer ChatCall ChatReply) : Prop :=
  ∀ r (read : ChatRoom), a = ⟨.inr (.findRoomById r), .ok (some read)⟩ →
    read.participantsCount = 0 → r < s.2.nextId ∧
      ∀ room, s.2.chatRooms.find? r = some room → room.participantsCount = 0

/-- What links the stored rooms to what the requests have read of them. -/
structure RoomsRight (p : ChatPool) : Prop where
  following : Service.Following chatFollow p
  counted : ∀ r room, p.store.2.chatRooms.find? r = some room → room.Counted
  read : Service.Logged StillEmpty p

section
variable {p : ChatPool}

theorem RoomsRight.step (h : RoomsRight p) (turn : Turn ChatOp) :
    RoomsRight (chatService.step p turn) where
  following := chatFollowing_step h.following turn
  counted := by
    refine chatService.store_step
      (I := fun s => ∀ r room, s.2.chatRooms.find? r = some room → room.Counted) h.counted turn
      (fun i t c next _ _ _ => ?_)
    rcases c with c | c
    · exact h.counted
    · exact fun r room there => (room_effect there).counted (h.counted r)
  read := by
    refine chatService.logged_step h.read turn (fun i t c next called ht hr => ⟨?_, ?_⟩)
    · intro r read answer empty
      obtain ⟨rfl, reply⟩ := Answer.mk.inj answer
      have stored : p.store.2.chatRooms.find? r = some read := Except.ok.inj (eq_of_heq reply)
      refine ⟨p.store.2.drawn.1 r (Table.has_iff.mpr ⟨read, stored⟩), fun room there => ?_⟩
      cases stored.symm.trans there
      exact empty
    · intro u inside a seen before r read same empty
      obtain ⟨drawn, still⟩ := before r read same empty
      rcases c with c | c
      · exact ⟨drawn, still⟩
      · refine ⟨Nat.lt_of_lt_of_le drawn (nextId_grows c p.store.2), fun room there => ?_⟩
        have effect := room_effect there
        obtain ⟨old, found⟩ := effect.before drawn
        exact effect.stays_empty (h.counted r old found) found (still old found)

/-- Without transactions no room is deleted that somebody is still in. -/
theorem RoomsRight.not_deleted (h : RoomsRight p) (inScope : ∀ t ∈ p.threads, t.op.onRooms = true)
    (turn : Turn ChatOp) {r : ObjectId} {room : ChatRoom} {userId : Id}
    (found : p.store.2.chatRooms.find? r = some room) (active : room.hasActive userId = true) :
    (chatService.step p turn).store.2.chatRooms.has r = true := by
  have there : p.store.2.chatRooms.has r = true := Table.has_iff.mpr ⟨room, found⟩
  refine chatService.store_step (I := fun s => s.2.chatRooms.has r = true) there turn
    (fun i t c next _ ht hr => ?_)
  rcases c with c | c
  · exact there
  by_contra gone
  have follows := Service.following_pending h.following ht hr
  have inside := List.mem_of_getElem? ht
  rcases room_gone found (Table.not_has_iff.mp gone) with rfl | ⟨text, user, now, rfl, _⟩
  · obtain ⟨_, _, _, _, _, ⟨read, seen, empty⟩, _⟩ := follows
    have none := (h.read t inside _ seen r read rfl empty).2 room found
    have some := active_pos active
    have counted := h.counted r room found
    rw [ChatRoom.Counted, none] at counted
    omega
  · have scope := inScope t inside
    rw [follows.1] at scope
    cases scope

/-- Somebody is in the room, or it is not there. -/
def Inhabited (r : ObjectId) (s : ChatStore) : Prop :=
  ∀ room, s.2.chatRooms.find? r = some room → room.participantsCount ≠ 0

/-- The request is going to look whether the room is empty and to delete it then. -/
def Clears (r : ObjectId) (t : ChatThread) : Prop :=
  t.rest.pending = some (.inr (.deleteRoom r)) ∨
    ∃ next, t.rest = .call (.inr (.findRoomById r)) next ∧
      ∀ room : ChatRoom, room.participantsCount = 0 →
        (next (.ok (some room))).pending = some (.inr (.deleteRoom r))

theorem RoomsRight.inhabited_step (h : RoomsRight p) (turn : Turn ChatOp) {r : ObjectId}
    (covered : Service.Covered (Inhabited r) (Clears r) p) :
    Service.Covered (Inhabited r) (Clears r) (chatService.step p turn) := by
  refine Service.covered_step covered turn (fun i t c next called ht hr either => ?_)
  subst called
  by_cases fine : Inhabited r (execChat c p.store).1
  · exact Or.inl fine
  refine Or.inr ⟨_, Service.answered_mem ht, ?_⟩
  rcases c with c | c
  · rcases either with before | standing | ⟨_, standing, _⟩
    · exact absurd before fine
    · rw [hr] at standing
      cases standing
    · rw [hr] at standing
      cases standing
  obtain ⟨room, there, empty⟩ : ∃ room, (execMongo c p.store.2).1.chatRooms.find? r = some room ∧
      room.participantsCount = 0 := by
    by_contra none
    exact fine (fun room there empty => none ⟨room, there, empty⟩)
  rcases either with before | standing | ⟨_, standing, goes⟩
  · -- the call has left the room empty: it is a mark, and the room is read next
    cases room_effect there with
    | made =>
      have two : (2 : Int) = 0 := empty
      exact absurd two (by decide)
    | kept _ found => exact absurd empty (before room found)
    | shown old found => exact absurd empty (before old found)
    | leftOthers old found _ others =>
      have one : old.participantsCount - 1 = 0 := empty
      exact absurd (by omega) others
    | marked old found active =>
      obtain ⟨text, op, _, _, goes⟩ := Service.following_pending h.following ht hr
      obtain ⟨rest, reads⟩ := Request.pending_eq_some goes
      have follows := h.following t (List.mem_of_getElem? ht)
      rw [hr] at follows
      have later := follows.2 (.ok ⟨1, 1⟩)
      rw [reads] at later
      refine Or.inr ⟨rest, ?_, later.1 _ _ _ op⟩
      rw [← reads, Service.answered]
      exact congrArg next (markLeft_answer found active)
  · rw [hr] at standing
    cases standing
    cases (if_pos rfl).symm.trans ((Table.find?_erase p.store.2.chatRooms r r).symm.trans there)
  · rw [hr] at standing
    cases standing
    have stored : p.store.2.chatRooms.find? r = some room := there
    refine Or.inl ?_
    have answer : (chatService.exec (.inr (.findRoomById r)) p.store).2 = .ok (some room) :=
      congrArg Except.ok stored
    rw [Service.answered, answer]
    exact goes room empty

theorem leave_unnamed {text : String} (unnamed : ObjectId.ofHex text = none) (userId : Id)
    (now : Date) :
    ∃ e, (ChatOp.leave false text userId now).program = .fail e := by
  refine ⟨.left (.mongo .badObjectId), ?_⟩
  simp only [ChatOp.program, MessagesMongoService.leaveChatroom, Bool.false_eq_true, if_false,
    MessagesMongoService.leaveChatroomWithoutTransaction, ChatRoomService.markUserAsLeft,
    ChatRoomRepositoryMongo.markParticipantsAsLeft, newObjectId_none unnamed]
  rfl

theorem leave_starts {text : String} {id : ObjectId} (named : ObjectId.ofHex text = some id)
    (userId : Id) (now : Date) :
    (ChatOp.leave false text userId now).program.pending = some (.inr (.markLeft id userId now)) := by
  simp only [ChatOp.program, MessagesMongoService.leaveChatroom, Bool.false_eq_true, if_false,
    MessagesMongoService.leaveChatroomWithoutTransaction, ChatRoomService.markUserAsLeft,
    ChatRoomRepositoryMongo.markParticipantsAsLeft, newObjectId_some named]
  rfl

/-- A leave by somebody who is not in the room ends with its first turn. -/
theorem leave_refused (following : Service.Following chatFollow p) {i : Nat} {t : ChatThread}
    {text : String} {userId : Id} {now : Date} (ht : p.threads[i]? = some t)
    (starts : t.rest = (ChatOp.leave false text userId now).program)
    (outside : (p.store.2.roomNamed text).any (·.hasActive userId) = false) :
    (chatService.step p (.call i)).store = p.store ∧
      ∃ e, ((chatService.step p (.call i)).threads[i]?).map (·.rest) = some (.fail e) := by
  cases named : ObjectId.ofHex text with
  | none =>
    obtain ⟨e, fails⟩ := leave_unnamed named userId now
    have rest := starts.trans fails
    have same : chatService.step p (.call i) = p := by
      simp only [Service.step, ht, rest]
    rw [same, ht]
    exact ⟨rfl, e, congrArg some rest⟩
  | some id =>
    obtain ⟨next, first⟩ := Request.pending_eq_some (leave_starts named userId now)
    have hr := starts.trans first
    obtain ⟨_, _, _, ⟨e, fails⟩, _⟩ := Service.following_pending following ht hr
    have room : p.store.2.roomNamed text = p.store.2.chatRooms.find? id := by
      rw [Collections.roomNamed, named, Option.bind_some]
    have absent : execMongo (.markLeft id userId now) p.store.2 = (p.store.2, .ok ⟨0, 0⟩) :=
      markLeft_absent (room ▸ outside)
    have inside : i < p.threads.length := (List.getElem?_eq_some_iff.mp ht).1
    rw [chatService.step_call ht hr]
    refine ⟨Prod.ext rfl (congrArg Prod.fst absent), e, ?_⟩
    rw [List.getElem?_set_self inside, Option.map_some, Service.answered]
    have answer : (chatService.exec (.inr (.markLeft id userId now)) p.store).2 = .ok ⟨0, 0⟩ :=
      congrArg Prod.snd absent
    rw [answer]
    exact congrArg some fails

end

/-- What is kept while requests make and leave rooms. -/
structure RoomsWatched (p : ChatPool) : Prop extends RoomsRight p where
  inScope : ∀ t ∈ p.threads, t.op.onRooms = true
  unanswered : ∀ t ∈ p.threads, t.log = [] → t.rest = t.op.program
  inhabited : ∀ r, Service.Covered (Inhabited r) (Clears r) p

theorem roomsWatched_idle {s : ChatStore} (start : ∀ r room, s.2.chatRooms.find? r = some room →
    room.Counted ∧ room.participantsCount ≠ 0) : RoomsWatched (Pool.idle s) where
  following _ none := by cases none
  counted r room found := (start r room found).1
  read _ none := by cases none
  inScope _ none := by cases none
  unanswered _ none := by cases none
  inhabited r := Or.inl (fun room found => (start r room found).2)

theorem RoomsWatched.step {p : ChatPool} (h : RoomsWatched p) {turn : Turn ChatOp}
    (arrives : ∀ op, turn = .arrive op → op.onRooms = true) :
    RoomsWatched (chatService.step p turn) where
  toRoomsRight := h.toRoomsRight.step turn
  inScope := chatService.scoped_step h.inScope arrives
  unanswered := chatService.unanswered_step h.unanswered turn
  inhabited r := h.toRoomsRight.inhabited_step turn (h.inhabited r)

theorem clears_pending {r : ObjectId} {t : ChatThread} (debt : Clears r t) :
    t.rest.pending ≠ none := by
  rcases debt with standing | ⟨next, standing, _⟩ <;> rw [standing] <;> exact nofun

/-- What a run keeps of the rooms. -/
structure RoomsKept (s : ChatStore) (turns : List (Turn ChatOp)) : Prop where
  counted : ∀ p ∈ visited chatService.step (Pool.idle s) turns, ∀ r room,
    p.store.2.chatRooms.find? r = some room → room.Counted
  lasting : ∀ p ∈ visited chatService.step (Pool.idle s) turns, ∀ turn r room userId,
    p.store.2.chatRooms.find? r = some room → room.hasActive userId = true →
    (chatService.step p turn).store.2.chatRooms.has r = true
  refused : ∀ p ∈ visited chatService.step (Pool.idle s) turns, ∀ i t text userId now,
    p.threads[i]? = some t → t.op = .leave false text userId now → t.log = [] →
    (p.store.2.roomNamed text).any (·.hasActive userId) = false →
    (chatService.step p (.call i)).store = p.store ∧
      ∃ e, ((chatService.step p (.call i)).threads[i]?).map (·.rest) = some (.fail e)
  inhabited : ∀ p ∈ visited chatService.step (Pool.idle s) turns, Service.Quiet p → ∀ r room,
    p.store.2.chatRooms.find? r = some room → ∃ userId, room.hasActive userId = true

/-! Messages and the deletion of their rooms, call by call. -/

/-- The conversation has a room or no messages. -/
def Housed (text : String) (s : ChatStore) : Prop :=
  (s.2.roomNamed text).isSome = true ∨
    ∀ k d, s.2.messages.find? k = some d → d.conversationId ≠ text

def Swept (p : ChatPool) (text : String) : Prop := ∃ t ∈ p.threads, sweeps text t.rest = true

/-- A message is stored while its room is there or its conversation is going to be deleted; and
when a room is deleted, so are its messages, by the same request or by another on its way. -/
def Tidy (p : ChatPool) (_ : ChatThread) : ChatCall → Prop
  | .inr (.insertMessage data now) => (data.document now).isSome = true →
    (p.store.2.roomNamed data.conversationId).isSome = true ∨ Swept p data.conversationId
  | .inr (.deleteRoom id) => ∀ k d, p.store.2.messages.find? k = some d →
    ObjectId.ofHex d.conversationId = some id → p.store.2.chatRooms.has id = true →
    Swept p d.conversationId
  | .inr (.leaveTransaction id text userId _) => ∀ k d, p.store.2.messages.find? k = some d →
    ObjectId.ofHex d.conversationId = some id →
    (∃ room, p.store.2.chatRooms.find? id = some room ∧ room.hasActive userId = true ∧
      room.participantsCount = 1) →
    d.conversationId = text ∨ Swept p d.conversationId
  | _ => True

section
variable {p : ChatPool} {turn : Turn ChatOp} {text : String}

/-- One call keeps a conversation with its room, or some request is going to delete it. -/
theorem housed_call {t : ChatThread} {c : ChatCall} (tidy : Tidy p t c)
    (housed : Housed text p.store) : Housed text (execChat c p.store).1 ∨ Swept p text := by
  rcases c with c | c
  · exact Or.inl housed
  by_cases there : ∃ k d, (execMongo c p.store.2).1.messages.find? k = some d ∧
      d.conversationId = text
  swap
  · exact Or.inl (Or.inr (fun k d kept same => there ⟨k, d, kept, same⟩))
  obtain ⟨k, d, stored, rfl⟩ := there
  rcases message_effect stored with ⟨data, now, rfl, valid, _⟩ | ⟨old, found, same⟩
  · have conversation := (document_fields valid).1
    rcases tidy (by rw [valid, Option.isSome_some]) with named | swept
    · have rooms := congrArg Collections.chatRooms (insert_stored (m := p.store.2) valid).1
      refine Or.inl (Or.inl ?_)
      rw [conversation, Collections.roomNamed, execChat, either_inr, onSnd_snd, rooms]
      exact named
    · exact Or.inr (conversation ▸ swept)
  · rcases housed with named | empty
    swap
    · exact absurd same.symm (empty k old found)
    obtain ⟨room, named⟩ := Option.isSome_iff_exists.mp named
    obtain ⟨r, hex, roomFound⟩ := Option.bind_eq_some_iff.mp named
    cases after : (execMongo c p.store.2).1.chatRooms.find? r with
    | some room' =>
      refine Or.inl (Or.inl (Option.isSome_iff_exists.mpr ⟨room', ?_⟩))
      exact Option.bind_eq_some_iff.mpr ⟨r, hex, after⟩
    | none =>
      rcases room_gone roomFound after with rfl | ⟨text, userId, now, rfl, last, swept⟩
      · refine Or.inr (same ▸ tidy k old found (same ▸ hex) ?_)
        exact Table.has_iff.mpr ⟨room, roomFound⟩
      · rcases tidy k old found (same ▸ hex) ⟨room, roomFound, last⟩ with own | other
        · exact absurd (same.trans own) (swept k d stored)
        · exact Or.inr (same ▸ other)

/-- A conversation has its room, or no messages, or some request is going to delete it. -/
def HousedOrSwept (text : String) : ChatPool → Prop :=
  Service.Covered (Housed text) (fun t => sweeps text t.rest = true)

theorem housed_step (tidy : Service.OnCalls Tidy p turn) (h : HousedOrSwept text p) :
    HousedOrSwept text (chatService.step p turn) := by
  refine Service.covered_step h turn (fun i t c next called ht hr either => ?_)
  subst called
  have goesOn (debt : sweeps text t.rest = true) : HousedOrSwept text
      ⟨(chatService.exec c p.store).1,
        p.threads.set i (chatService.answered t c next p.store)⟩ := by
    rcases sweeps_on hr debt p.store with rfl | debt
    · exact Or.inl (Or.inr (fun _ _ kept => of_decide_eq_false (Table.find?_eraseAll_cases kept).2))
    · exact Or.inr ⟨_, Service.answered_mem ht, debt⟩
  rcases either with housed | debt
  · rcases housed_call (Service.onCalls_at tidy ht hr) housed with housed | swept
    · exact Or.inl housed
    · exact Service.Covered.goes_on ht swept goesOn
  · exact goesOn debt

theorem HousedOrSwept.quiet (h : HousedOrSwept text p) (ended : Service.Quiet p) :
    Housed text p.store :=
  Service.Covered.quiet h ended (fun t debt none => by
    cases rest : t.rest with
    | call c next =>
      rw [rest] at none
      cases none
    | _ =>
      rw [rest] at debt
      cases debt)

end

/-- The messages of the rooms that the run has deleted are gone when it has ended. -/
def DeletedWithMessages (s : ChatStore) (turns : List (Turn ChatOp)) : Prop :=
  ∀ p ∈ visited chatService.step (Pool.idle s) turns, ∀ r, p.store.2.chatRooms.has r = true →
    Service.Quiet (run chatService.step (Pool.idle s) turns) →
    (run chatService.step (Pool.idle s) turns).store.2.chatRooms.has r = false →
    ∀ k d, (run chatService.step (Pool.idle s) turns).store.2.messages.find? k = some d →
      ObjectId.ofHex d.conversationId ≠ some r

/-- In every interleaving of requests that make and leave rooms, the counters are right, no room
is deleted under somebody, a leave by anybody else does nothing, and no empty room is left over;
and as long as each room is deleted under the strings that its messages carry, they are deleted
with it. -/
theorem rooms_kept (s : ChatStore)
    (start : ∀ r room, s.2.chatRooms.find? r = some room →
      room.Counted ∧ room.participantsCount ≠ 0)
    (turns : List (Turn ChatOp))
    (scope : ∀ turn ∈ turns, ∀ op, turn = .arrive op → op.onRooms = true) :
    RoomsKept s turns ∧
      (Along chatService.step (Service.OnCalls Tidy) (Pool.idle s) turns →
        DeletedWithMessages s turns) := by
  have kept : ∀ p ∈ visited chatService.step (Pool.idle s) turns, RoomsWatched p :=
    visited_invariant (fun _ _ h arrives => h.step arrives) (roomsWatched_idle start)
      (along_of_forall scope)
  refine ⟨⟨?_, ?_, ?_, ?_⟩, ?_⟩
  · exact fun p here => (kept p here).counted
  · intro p here turn r room userId found active
    exact (kept p here).not_deleted (kept p here).inScope turn found active
  · intro p here i t text userId now ht op fresh outside
    have starts := (kept p here).unanswered t (List.mem_of_getElem? ht) fresh
    exact leave_refused (kept p here).following ht (op ▸ starts) outside
  · intro p here ended r room found
    have counted := (kept p here).counted r room found
    have some := ((kept p here).inhabited r).quiet ended (fun t => clears_pending) room found
    refine exists_active (fun none => some ?_)
    rw [counted, none]
    rfl
  · intro tidy p here r there ended gone k d found named
    obtain ⟨before, after, rfl, rfl⟩ := visited_split _ here
    rw [run_append] at ended gone found
    obtain ⟨room, stored⟩ := Table.has_iff.mp there
    have housed : HousedOrSwept d.conversationId (run chatService.step (Pool.idle s) before) :=
      Or.inl (Or.inl (Option.isSome_iff_exists.mpr
        ⟨room, Option.bind_eq_some_iff.mpr ⟨r, named, stored⟩⟩))
    have later := run_invariant (fun _ _ h tidy => housed_step tidy h) housed
      (along_append.mp tidy).2
    rcases HousedOrSwept.quiet later ended with roomed | empty
    · obtain ⟨room, roomed⟩ := Option.isSome_iff_exists.mp roomed
      rw [Collections.roomNamed, named, Option.bind_some] at roomed
      cases gone.symm.trans (Table.has_iff.mpr ⟨room, roomed⟩)
    · exact empty k d found rfl

/-! Ann and Bob in a room whose id has a letter in it; Ann has said hello. -/

def roomA : String := "00000000000000000000000a"

def talk : Mongo where
  toCollections := (Collections.insertRoom ⟨Table.empty, Table.empty, 10⟩
    (Collections.newRoom "lamp" "ann" "bob" 1)).insertMessage
      { conversationId := roomA, senderId := "ann", receiverId := "bob", message := "hello",
        messageType := some .text, createdAt := 2, updatedAt := 2 }
  drawn :=
    have start : Mongo.Drawn ⟨Table.empty, Table.empty, 10⟩ := ⟨nofun, nofun⟩
    (start.insertRoom _).insertMessage _

theorem talk_start : ∀ r room, (market, talk).2.chatRooms.find? r = some room →
    room.Counted ∧ room.participantsCount ≠ 0 := by
  intro r room found
  have both : talk.chatRooms.all (fun _ room => room.participantsCount = room.activeCount ∧
      room.participantsCount ≠ 0) = true := by decide
  exact of_decide_eq_true (Table.all_iff.mp both r room found)

theorem bothLeave_onRooms (i : Nat) (first last : String) :
    ∀ turn ∈ bothLeave i first last, ∀ op, turn = .arrive op → op.onRooms = true := by
  rintro turn member op rfl
  simp only [bothLeave, List.mem_cons, Turn.arrive.injEq, reduceCtorEq, List.not_mem_nil,
    or_false] at member
  rcases member with rfl | rfl <;> rfl

theorem rooms_kept_talk : RoomsKept (market, talk) (bothLeave 0 roomA roomA) ∧
    DeletedWithMessages (market, talk) (bothLeave 0 roomA roomA) := by
  have kept := rooms_kept (market, talk) talk_start _ (bothLeave_onRooms 0 roomA roomA)
  refine ⟨kept.1, kept.2 ?_⟩
  refine ⟨trivial, trivial, ?_, ?_, ?_, ?_, ?_, ?_, trivial⟩ <;>
    intro t c ht pending <;> cases ht <;> cases pending <;> try trivial
  intro k d found _ _
  have here : (run chatService.step (Pool.idle (market, talk))
      ((bothLeave 0 roomA roomA).take 6)).store.2.messages.all
        (fun _ d => d.conversationId = roomA) = true := by decide +kernel
  have conversation := of_decide_eq_true (Table.all_iff.mp here k d found)
  rw [conversation]
  exact ⟨_, List.mem_of_getElem? (i := 1) rfl, rfl⟩

/-- The last one names the room with a capital letter, which no message does. -/
theorem capital_leaves_messages : ¬ ∀ (s : ChatStore) (turns : List (Turn ChatOp)),
    (∀ r room, s.2.chatRooms.find? r = some room → room.Counted ∧ room.participantsCount ≠ 0) →
    (∀ turn ∈ turns, ∀ op, turn = .arrive op → op.onRooms = true) →
    RoomsKept s turns ∧ DeletedWithMessages s turns := by
  intro always
  have ended : Service.Quiet (run chatService.step (Pool.idle (market, talk))
      (bothLeave 0 roomA "00000000000000000000000A")) := by decide +kernel
  have swept := (always (market, talk) _ talk_start
    (bothLeave_onRooms 0 roomA "00000000000000000000000A")).2 (Pool.idle (market, talk))
    List.mem_cons_self 10 (by decide) ended (by decide +kernel) 11
    { conversationId := roomA, senderId := "ann", receiverId := "bob", message := "hello",
      messageType := some .text, createdAt := 2, updatedAt := 2 } (by decide +kernel)
  exact swept (by decide)

end SecondhandApi
