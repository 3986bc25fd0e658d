import SecondhandApi.ChatService
import SecondhandApi.Calls
import SecondhandApi.Interleaving.Debts

/-! The inversion of the calls on rooms and messages. -/
namespace SecondhandApi
open Keyed Interleaving
open Mongo (Collections ChatRoom Message MessageInput Participant Delivery UpdateResult)

def MongoCall.reads : MongoCall → Bool
  | .findRooms .. | .findRoomById .. | .findMessages .. | .countMessages .. | .countUnread .. => true
  | _ => false

/-- Everything one of the calls can do to the collections, with what it answers. -/
inductive ChatEffect (m : Collections) : (c : MongoCall) → c.Reply → Collections → Prop where
  | read {c r} (reads : c.reads = true) : ChatEffect m c r m
  | made {productId senderId receiverId now} :
      ChatEffect m (.saveRoom productId senderId receiverId now)
        (.ok (m.nextId, Collections.newRoom productId senderId receiverId now))
        (m.insertRoom (Collections.newRoom productId senderId receiverId now))
  | lost {id text k now} :
      ChatEffect m (.updateLastMessage id text k now .lost) (.error .unavailable) m
  | shown {id text k now delivery r} (made : delivery ≠ .lost) :
      ChatEffect m (.updateLastMessage id text k now delivery) r (m.setLastMessage id text k now)
  | absent {id userId now} (none : (m.chatRooms.find? id).any (·.hasActive userId) = false) :
      ChatEffect m (.markLeft id userId now) (.ok ⟨0, 0⟩) m
  | marked {id userId now} (room : ChatRoom) (found : m.chatRooms.find? id = some room)
      (active : room.hasActive userId = true) :
      ChatEffect m (.markLeft id userId now) (.ok ⟨1, 1⟩)
        (m.updateRoom id (ChatRoom.left userId now))
  | deleted {id} : ChatEffect m (.deleteRoom id) (.ok ()) (m.deleteRoom id)
  | refusedLeave {id text userId now}
      (none : (m.chatRooms.find? id).any (·.hasActive userId) = false) :
      ChatEffect m (.leaveTransaction id text userId now) (.ok ⟨0, 0⟩) m
  | leftOthers {id text userId now} (room : ChatRoom) (found : m.chatRooms.find? id = some room)
      (active : room.hasActive userId = true) (others : room.participantsCount ≠ 1) :
      ChatEffect m (.leaveTransaction id text userId now) (.ok ⟨1, 1⟩)
        (m.updateRoom id (ChatRoom.left userId now))
  | leftLast {id text userId now} (room : ChatRoom) (found : m.chatRooms.find? id = some room)
      (active : room.hasActive userId = true) (last : room.participantsCount = 1) :
      ChatEffect m (.leaveTransaction id text userId now) (.ok ⟨1, 1⟩)
        (((m.updateRoom id (ChatRoom.left userId now)).deleteRoom id).deleteMessages text)
  | refused {data now} (invalid : data.document now = none) :
      ChatEffect m (.insertMessage data now) (.error .validation) m
  | stored {data now} (message : Message) (valid : data.document now = some message) :
      ChatEffect m (.insertMessage data now) (.ok (m.nextId, message)) (m.insertMessage message)
  | seen {text userId now r} :
      ChatEffect m (.markRead text userId now) r (m.markRead text userId now)
  | swept {text} : ChatEffect m (.deleteMessages text) (.ok ()) (m.deleteMessages text)

@[simp] theorem find?_updateRoom (m : Collections) (id : ObjectId) (f : ChatRoom → ChatRoom)
    (r : ObjectId) : (m.updateRoom id f).chatRooms.find? r =
      if r = id then (m.chatRooms.find? r).map f else m.chatRooms.find? r := by
  rw [Collections.updateRoom, Table.find?_modifyAll]
  by_cases same : r = id
  · simp only [same, if_true]
  · simp only [same, if_false, Option.map_id']

theorem markLeft_cases (m : Collections) (id : ObjectId) (userId : Id) (now : Date) :
    ((m.chatRooms.find? id).any (·.hasActive userId) = false ∧
      m.markLeft id userId now = (m, ⟨0, 0⟩)) ∨
    ∃ room, m.chatRooms.find? id = some room ∧ room.hasActive userId = true ∧
      m.markLeft id userId now = (m.updateRoom id (ChatRoom.left userId now), ⟨1, 1⟩) := by
  cases there : (m.chatRooms.find? id).any (·.hasActive userId) with
  | false => exact Or.inl ⟨rfl, by simp only [Collections.markLeft, there, Bool.false_eq_true, if_false]⟩
  | true =>
    obtain ⟨room, found, active⟩ := (Option.any_eq_true _ _).mp there
    exact Or.inr ⟨room, found, active, by simp only [Collections.markLeft, there, if_true]⟩

theorem isEmpty_marked {m : Collections} {id : ObjectId} {userId : Id} {now : Date}
    {room : ChatRoom} (found : m.chatRooms.find? id = some room) :
    (m.updateRoom id (ChatRoom.left userId now)).isEmpty id = true ↔
      room.participantsCount = 1 := by
  rw [Collections.isEmpty, find?_updateRoom, if_pos rfl, found]
  simp only [Option.map_some, Option.any_some, ChatRoom.left, decide_eq_true_eq]
  omega

theorem chat_effect (c : MongoCall) (m : Collections) :
    ChatEffect m c (m.exec c).2 (m.exec c).1 := by
  cases c with
  | saveRoom productId senderId receiverId now => exact .made
  | updateLastMessage id text k now delivery =>
    cases delivery with
    | lost => exact .lost
    | answered => exact .shown nofun
    | unanswered => exact .shown nofun
  | markLeft id userId now =>
    simp only [Collections.exec]
    rcases markLeft_cases m id userId now with ⟨none, done⟩ | ⟨room, found, active, done⟩
    · rw [done]
      exact .absent none
    · rw [done]
      exact .marked room found active
  | deleteRoom id => exact .deleted
  | leaveTransaction id text userId now =>
    simp only [Collections.exec, Collections.leave]
    rcases markLeft_cases m id userId now with ⟨none, done⟩ | ⟨room, found, active, done⟩
    · rw [done]
      exact .refusedLeave none
    · rw [done]
      by_cases last : room.participantsCount = 1
      · simp only [(isEmpty_marked found).mpr last, Nat.one_ne_zero, if_false, if_true]
        exact .leftLast room found active last
      · have kept : (m.updateRoom id (ChatRoom.left userId now)).isEmpty id = false :=
          Bool.eq_false_iff.mpr (fun empty => last ((isEmpty_marked found).mp empty))
        simp only [kept, Nat.one_ne_zero, if_false, Bool.false_eq_true]
        exact .leftOthers room found active last
  | insertMessage data now =>
    simp only [Collections.exec]
    cases valid : data.document now with
    | none => exact .refused valid
    | some message => exact .stored message valid
  | findMessages text skip limit field order ties =>
    simp only [Collections.exec]
    split <;> exact .read rfl
  | markRead text userId now => exact .seen
  | deleteMessages text => exact .swept
  | findRooms => exact .read rfl
  | findRoomById => exact .read rfl
  | countMessages => exact .read rfl
  | countUnread => exact .read rfl

theorem document_fields {data : MessageInput} {now : Date} {d : Message}
    (valid : data.document now = some d) : d.conversationId = data.conversationId ∧
      d.senderId = data.senderId ∧ d.receiverId = data.receiverId ∧ d.updatedAt = now := by
  unfold MessageInput.document at valid
  split at valid
  · split at valid
    · cases valid
      exact ⟨rfl, rfl, rfl, rfl⟩
    · cases valid
  · cases valid

/-- The same of the Mongo database. -/
theorem mongo_effect (c : MongoCall) (m : Mongo) :
    ChatEffect m.toCollections c (execMongo c m).2 (execMongo c m).1.toCollections :=
  chat_effect c m.toCollections

theorem Mongo.ext_collections {m m' : Mongo} (h : m.toCollections = m'.toCollections) : m = m' := by
  cases m
  cases m'
  cases h
  rfl

section
variable {m : Mongo} {data : MessageInput} {now : Date}

theorem insert_refused (invalid : data.document now = none) :
    execMongo (.insertMessage data now) m = (m, .error .validation) := by
  refine Prod.ext (Mongo.ext_collections ?_) ?_ <;>
    simp only [execMongo, Collections.exec, invalid]

theorem insert_stored {d : Message} (valid : data.document now = some d) :
    (execMongo (.insertMessage data now) m).1.toCollections = m.insertMessage d ∧
      (execMongo (.insertMessage data now) m).2 = .ok (m.nextId, d) := by
  constructor <;> simp only [execMongo, Collections.exec, valid]

end

section
variable {m : Mongo} {id : ObjectId} {userId : Id} {now : Date}

theorem markLeft_absent (none : (m.chatRooms.find? id).any (·.hasActive userId) = false) :
    execMongo (.markLeft id userId now) m = (m, .ok ⟨0, 0⟩) := by
  have unmarked : m.markLeft id userId now = (m.toCollections, ⟨0, 0⟩) := by
    rw [Collections.markLeft, none]
    rfl
  refine Prod.ext (Mongo.ext_collections ?_) ?_ <;> simp only [execMongo, Collections.exec, unmarked]

theorem markLeft_answer {room : ChatRoom} (found : m.chatRooms.find? id = some room)
    (active : room.hasActive userId = true) :
    (execMongo (.markLeft id userId now) m).2 = .ok ⟨1, 1⟩ := by
  have there : (m.chatRooms.find? id).any (·.hasActive userId) = true :=
    (Option.any_eq_true _ _).mpr ⟨room, found, active⟩
  simp only [execMongo, Collections.exec, Collections.markLeft, there, if_true]

end

theorem mongo_reads {c : MongoCall} (reads : c.reads = true) (m : Mongo) : (execMongo c m).1 = m := by
  refine Mongo.ext_collections ?_
  cases c with
  | findMessages text skip limit field order ties =>
    simp only [execMongo, Collections.exec]
    split <;> rfl
  | findRooms => rfl
  | findRoomById => rfl
  | countMessages => rfl
  | countUnread => rfl
  | _ => cases reads

theorem update_made {m : Mongo} {id k : ObjectId} {text : String} {now : Date} {delivery : Delivery}
    (made : delivery ≠ .lost) :
    (execMongo (.updateLastMessage id text k now delivery) m).1.toCollections =
      m.setLastMessage id text k now := by
  cases delivery with
  | lost => exact absurd rfl made
  | answered => rfl
  | unanswered => rfl

theorem ofRoom_insert {m : Mongo} {r : ObjectId} (d : Message) : (m.insertMessage d).ofRoom r =
    if ObjectId.ofHex d.conversationId = some r then m.ofRoom r ++ [(m.nextId, d)]
    else m.ofRoom r := by
  rw [Collections.ofRoom, Collections.insertMessage, Table.rows_insert m.nextMessage,
    List.filter_append]
  split <;> rename_i mine <;> simp [mine, Collections.ofRoom]

/-- What a call may have done to a room that is there after it. -/
inductive RoomEffect (m : Collections) : MongoCall → ObjectId → ChatRoom → Prop where
  | made {productId senderId receiverId now} :
      RoomEffect m (.saveRoom productId senderId receiverId now) m.nextId
        (Collections.newRoom productId senderId receiverId now)
  | kept {c r} (room : ChatRoom) (found : m.chatRooms.find? r = some room) : RoomEffect m c r room
  | shown {r text k now delivery} (room : ChatRoom) (found : m.chatRooms.find? r = some room) :
      RoomEffect m (.updateLastMessage r text k now delivery) r (room.showing text k now)
  | marked {r userId now} (room : ChatRoom) (found : m.chatRooms.find? r = some room)
      (active : room.hasActive userId = true) :
      RoomEffect m (.markLeft r userId now) r (room.left userId now)
  | leftOthers {r text userId now} (room : ChatRoom) (found : m.chatRooms.find? r = some room)
      (active : room.hasActive userId = true) (others : room.participantsCount ≠ 1) :
      RoomEffect m (.leaveTransaction r text userId now) r (room.left userId now)

section
variable {c : MongoCall} {m : Mongo} {r : ObjectId}

theorem room_effect {room : ChatRoom} (there : (execMongo c m).1.chatRooms.find? r = some room) :
    RoomEffect m.toCollections c r room := by
  have effect := mongo_effect c m
  generalize (execMongo c m).2 = reply at effect
  generalize (execMongo c m).1.toCollections = after at effect there
  have updated {id : ObjectId} {f : ChatRoom → ChatRoom}
      (there : (m.updateRoom id f).chatRooms.find? r = some room) :
      (r = id ∧ ∃ old, m.chatRooms.find? r = some old ∧ f old = room) ∨
        m.chatRooms.find? r = some room := by
    rw [find?_updateRoom] at there
    split at there
    · exact Or.inl ⟨‹_›, Option.map_eq_some_iff.mp there⟩
    · exact Or.inr there
  cases effect with
  | made =>
    rcases Table.find?_insert_cases there with before | ⟨rfl, rfl⟩
    · exact .kept room before
    · exact .made
  | shown made =>
    rcases updated there with ⟨rfl, old, found, rfl⟩ | before
    · exact .shown old found
    · exact .kept room before
  | marked old found active =>
    rcases updated there with ⟨rfl, same, again, rfl⟩ | before
    · cases found.symm.trans again
      exact .marked _ again active
    · exact .kept room before
  | leftOthers old found active others =>
    rcases updated there with ⟨rfl, same, again, rfl⟩ | before
    · cases found.symm.trans again
      exact .leftOthers _ again active others
    · exact .kept room before
  | deleted => exact .kept room (Table.find?_eraseAll_cases there).1
  | leftLast old found active last =>
    obtain ⟨marked, other⟩ := Table.find?_eraseAll_cases there
    rcases updated marked with ⟨rfl, _⟩ | before
    · exact absurd rfl (of_decide_eq_false other)
    · exact .kept room before
  | _ => exact .kept room there

/-- The calls that delete a room. -/
theorem room_gone {room : ChatRoom} (found : m.chatRooms.find? r = some room)
    (gone : (execMongo c m).1.chatRooms.find? r = none) : c = .deleteRoom r ∨
      ∃ text userId now, c = .leaveTransaction r text userId now ∧
        (room.hasActive userId = true ∧ room.participantsCount = 1) ∧
        ∀ k d, (execMongo c m).1.messages.find? k = some d → d.conversationId ≠ text := by
  have effect := mongo_effect c m
  generalize (execMongo c m).2 = reply at effect
  generalize (execMongo c m).1.toCollections = after at effect gone
  have stays {id : ObjectId} {f : ChatRoom → ChatRoom}
      (gone : (m.updateRoom id f).chatRooms.find? r = none) : False := by
    rw [find?_updateRoom, found] at gone
    split at gone <;> cases gone
  cases effect with
  | made =>
    have stored : m.chatRooms.has r = true := Table.has_iff.mpr ⟨room, found⟩
    exact absurd (Table.has_insert stored m.nextId _) (Table.not_has_iff.mpr gone)
  | shown made => exact (stays gone).elim
  | marked old _ active => exact (stays gone).elim
  | leftOthers old _ active others => exact (stays gone).elim
  | @deleted id =>
    by_cases same : r = id
    · exact Or.inl (same ▸ rfl)
    · rw [Collections.deleteRoom, Table.find?_erase, if_neg same] at gone
      cases found.symm.trans gone
  | @leftLast id text userId now old there active last =>
    by_cases same : r = id
    · subst same
      cases found.symm.trans there
      refine Or.inr ⟨text, userId, now, rfl, ⟨active, last⟩, fun k d kept => ?_⟩
      exact of_decide_eq_false (Table.find?_eraseAll_cases kept).2
    · have still : ((m.updateRoom id (ChatRoom.left userId now)).chatRooms.erase id).find? r =
          none := gone
      rw [Table.find?_erase, if_neg same, find?_updateRoom, if_neg same] at still
      cases found.symm.trans still
  | _ => cases found.symm.trans gone

/-- A message after a call was there before, in the same conversation, or is the new one. -/
theorem message_effect {k : ObjectId} {d : Message}
    (there : (execMongo c m).1.messages.find? k = some d) :
    (∃ data now, c = .insertMessage data now ∧ data.document now = some d ∧ k = m.nextId) ∨
      ∃ old, m.messages.find? k = some old ∧ d.conversationId = old.conversationId := by
  have effect := mongo_effect c m
  generalize (execMongo c m).2 = reply at effect
  generalize (execMongo c m).1.toCollections = after at effect there
  cases effect with
  | stored message valid =>
    rcases Table.find?_insert_cases there with before | ⟨rfl, rfl⟩
    · exact Or.inr ⟨d, before, rfl⟩
    · exact Or.inl ⟨_, _, rfl, valid, rfl⟩
  | leftLast old found active last => exact Or.inr ⟨d, (Table.find?_eraseAll_cases there).1, rfl⟩
  | swept => exact Or.inr ⟨d, (Table.find?_eraseAll_cases there).1, rfl⟩
  | @seen text userId now reply =>
    have seen : (m.markRead text userId now).messages.find? k = some d := there
    rw [Collections.markRead, Table.find?_modifyAll] at seen
    obtain ⟨old, found, rfl⟩ := Option.map_eq_some_iff.mp seen
    refine Or.inr ⟨old, found, ?_⟩
    split <;> rfl
  | _ => exact Or.inr ⟨d, there, rfl⟩

/-- Only an insert brings a message. -/
theorem has_message (other : ∀ data now, c ≠ .insertMessage data now) {k : ObjectId}
    (has : (execMongo c m).1.messages.has k = true) : m.messages.has k = true := by
  obtain ⟨d, there⟩ := Table.has_iff.mp has
  rcases message_effect there with ⟨data, now, made, _⟩ | ⟨old, found, _⟩
  · exact absurd made (other data now)
  · exact Table.has_iff.mpr ⟨old, found⟩

theorem RoomEffect.before {room : ChatRoom} (e : RoomEffect m.toCollections c r room)
    (drawn : r < m.nextId) :
    ∃ old, m.chatRooms.find? r = some old := by
  cases e with
  | made => exact absurd drawn (Nat.lt_irrefl _)
  | kept _ found => exact ⟨room, found⟩
  | shown old found => exact ⟨old, found⟩
  | marked old found => exact ⟨old, found⟩
  | leftOthers old found => exact ⟨old, found⟩

theorem nextId_grows (c : MongoCall) (m : Mongo) : m.nextId ≤ (execMongo c m).1.nextId := by
  have effect := mongo_effect c m
  generalize (execMongo c m).2 = reply at effect
  have same : (execMongo c m).1.nextId = (execMongo c m).1.toCollections.nextId := rfl
  rw [same]
  generalize (execMongo c m).1.toCollections = after at effect ⊢
  cases effect with
  | made => exact Nat.le_succ _
  | stored => exact Nat.le_succ _
  | _ => exact Nat.le_refl _

/-- A message stays in its conversation unless the call deletes the conversation. -/
theorem message_kept {k : ObjectId} {d : Message} (found : m.messages.find? k = some d) :
    (∃ d', (execMongo c m).1.messages.find? k = some d' ∧ d'.conversationId = d.conversationId) ∨
      c = .deleteMessages d.conversationId ∨
      ∃ id userId now room, c = .leaveTransaction id d.conversationId userId now ∧
        m.chatRooms.find? id = some room := by
  have effect := mongo_effect c m
  generalize (execMongo c m).2 = reply at effect
  have same : (execMongo c m).1.messages = (execMongo c m).1.toCollections.messages := rfl
  rw [same]
  generalize (execMongo c m).1.toCollections = after at effect ⊢
  have spared {text : String} (other : d.conversationId ≠ text) :
      (m.messages.eraseAll (fun _ d => d.conversationId = text)).find? k = some d := by
    rw [Table.find?_eraseAll, found, Option.filter_some, decide_eq_false other]
    rfl
  cases effect with
  | stored message valid =>
    refine Or.inl ⟨d, (Table.find?_insert m.nextMessage message k).trans ?_, rfl⟩
    rw [if_neg, found]
    rintro rfl
    cases m.nextMessage.symm.trans found
  | @leftLast id text userId now room there active last =>
    by_cases same : d.conversationId = text
    · exact Or.inr (Or.inr ⟨id, userId, now, room, by rw [same], there⟩)
    · exact Or.inl ⟨d, spared same, rfl⟩
  | @swept text =>
    by_cases same : d.conversationId = text
    · exact Or.inr (Or.inl (by rw [same]))
    · exact Or.inl ⟨d, spared same, rfl⟩
  | @seen text userId now reply =>
    refine Or.inl ⟨_, (Table.find?_modifyAll ..).trans (congrArg _ found), ?_⟩
    dsimp only
    split <;> rfl
  | _ => exact Or.inl ⟨d, found, rfl⟩

end

end SecondhandApi
