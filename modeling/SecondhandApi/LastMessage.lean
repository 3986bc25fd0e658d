import SecondhandApi.ChatRequests

/-! The last message of a room. Each message that is sent starts a handler, which writes it into
the room some time later, and again when that has failed. This module says for which orders of
these writes the room ends up with the newest message. -/
namespace SecondhandApi
open Keyed Interleaving
open Mongo (ChatRoom Collections Delivery Message MessageInput)

/-- The message of the room that was stored last. -/
def Mongo.Collections.newest (m : Collections) (r : ObjectId) : Option (ObjectId × Message) :=
  (m.ofRoom r).getLast?

/-- The room carries this message as its last one. -/
def Mongo.Collections.Carries (m : Collections) (r : ObjectId) (d : ObjectId × Message) : Prop :=
  ∀ room, m.chatRooms.find? r = some room →
    room.lastMessageId = some d.1 ∧ room.lastMessage = some d.2.message

def ShowsNewest (r : ObjectId) (s : ChatStore) : Prop :=
  ∀ d, s.2.newest r = some d → s.2.Carries r d

section
variable {m : Mongo} {r k : ObjectId} {d : Message}

theorem newest_stored (newest : m.newest r = some (k, d)) : m.messages.find? k = some d :=
  m.messages.mem_rows.mp (List.mem_of_mem_filter (List.mem_of_getLast? newest))

theorem newest_insert (d : Message) : (m.insertMessage d).newest r =
    if ObjectId.ofHex d.conversationId = some r then some (m.nextId, d) else m.newest r := by
  rw [Collections.newest, ofRoom_insert]
  split
  · exact List.getLast?_concat
  · rfl

theorem carries_written (r : ObjectId) (d : ObjectId × Message) (now : Date) :
    (m.setLastMessage r d.2.message d.1 now).Carries r d := by
  intro room there
  rw [Collections.setLastMessage, find?_updateRoom, if_pos rfl] at there
  obtain ⟨old, _, rfl⟩ := Option.map_eq_some_iff.mp there
  exact ⟨rfl, rfl⟩

end

/-- What a request has stored is stored. -/
def StoredAs (s : ChatStore) (a : Answer ChatCall ChatReply) : Prop :=
  ∀ data now k d, a = ⟨.inr (.insertMessage data now), .ok (k, d)⟩ →
    s.2.messages.find? k = some d ∧ d.conversationId = data.conversationId

structure Sending (p : ChatPool) : Prop where
  following : Service.Following chatFollow p
  sends : ∀ t ∈ p.threads, t.op.isSend = true
  stored : Service.Logged StoredAs p

/-- The writing calls of a send. -/
theorem send_writes {op : ChatOp} {log : ChatLog} {c : MongoCall}
    {next : ChatReply (.inr c) → ChatReq ChatResponse} (sends : op.isSend = true)
    (follow : chatFollow op log (.inr c) next) : c.reads = true ∨
      (∃ data now, c = .insertMessage data now) ∨
      ∃ id text k now delivery, c = .updateLastMessage id text k now delivery := by
  have scope : op.onMessages = true := by
    cases op <;> first | rfl | exact sends
  rcases message_writes scope follow with reads | insert | update | ⟨text, userId, now, rfl⟩
  · exact Or.inl reads
  · exact Or.inr (Or.inl insert)
  · exact Or.inr (Or.inr update)
  · cases follow
    cases sends

/-- A send never takes a message away. -/
theorem message_stays {op : ChatOp} {log : ChatLog} {c : MongoCall}
    {next : ChatReply (.inr c) → ChatReq ChatResponse} (sends : op.isSend = true)
    (follow : chatFollow op log (.inr c) next) {m : Mongo} {k : ObjectId} {d : Message}
    (found : m.messages.find? k = some d) : (execMongo c m).1.messages.find? k = some d := by
  rcases send_writes sends follow with reads | ⟨data, now, rfl⟩ | ⟨id, text, j, now, delivery, rfl⟩
  · rw [mongo_reads reads]
    exact found
  · cases valid : data.document now with
    | none =>
      rw [insert_refused valid]
      exact found
    | some new =>
      have other : k ≠ m.nextId := by
        rintro rfl
        cases m.nextMessage.symm.trans found
      rw [(insert_stored valid).1, Collections.insertMessage, Table.find?_insert m.nextMessage,
        if_neg other]
      exact found
  · cases delivery <;> exact found

theorem Sending.step {p : ChatPool} (h : Sending p) {turn : Turn ChatOp}
    (arrives : ∀ op, turn = .arrive op → op.isSend = true) :
    Sending (chatService.step p turn) where
  following := chatFollowing_step h.following turn
  sends := chatService.scoped_step h.sends arrives
  stored := by
    refine chatService.logged_step h.stored turn (fun i t c next called ht hr => ⟨?_, ?_⟩)
    · intro data now k d answer
      obtain ⟨rfl, reply⟩ := Answer.mk.inj answer
      have reply : (execMongo (.insertMessage data now) p.store.2).2 = .ok (k, d) := eq_of_heq reply
      cases valid : data.document now with
      | none =>
        rw [insert_refused valid] at reply
        cases reply
      | some new =>
        obtain ⟨after, answer⟩ := insert_stored (m := p.store.2) valid
        cases answer.symm.trans reply
        refine ⟨?_, (document_fields valid).1⟩
        exact (congrArg (fun m : Collections => m.messages.find? p.store.2.nextId) after).trans
          (Table.find?_insert_self p.store.2.nextMessage d)
    · intro u inside a seen before data now k d answer
      obtain ⟨found, same⟩ := before data now k d answer
      refine ⟨?_, same⟩
      rcases c with c | c
      · exact found
      · exact message_stays (h.sends t (List.mem_of_getElem? ht))
          (Service.following_pending h.following ht hr) found

/-- An update that is made is one of the newest message, or the handler of the newest message has
its own still to make. -/
def InOrder (r : ObjectId) (p : ChatPool) (_ : ChatThread) : ChatCall → Prop
  | .inr (.updateLastMessage id _ k _ delivery) => id = r → delivery ≠ .lost →
    ∀ d, p.store.2.newest r = some d →
      k = d.1 ∨ ∃ u ∈ p.threads, StillToShow r d.1 d.2.message u.rest
  | _ => True

/-- As long as a message is the newest of the room, the room carries it or its handler has it
still to write. -/
def ShownSoon (r : ObjectId) (d : ObjectId × Message) : ChatPool → Prop :=
  Service.Covered (fun s => s.2.newest r = some d → s.2.Carries r d)
    (fun t => StillToShow r d.1 d.2.message t.rest)

section
variable {p : ChatPool} {i : Nat} {t : ChatThread} {r : ObjectId} {d : ObjectId × Message}
  {c : MongoCall} {next : ChatReply (.inr c) → ChatReq ChatResponse}

theorem shown_after (after : (execMongo c p.store.2).1.newest r = some d →
    (execMongo c p.store.2).1.Carries r d) : ShownSoon r d
      ⟨(chatService.exec (.inr c) p.store).1,
        p.threads.set i (chatService.answered t (.inr c) next p.store)⟩ :=
  Or.inl after

/-- The handler of a new message begins when it is stored; other rooms are not touched. -/
theorem insert_shown (ht : p.threads[i]? = some t) {data : MessageInput} {now : Date}
    (insert : c = .insertMessage data now) (follow : chatFollow t.op t.log (.inr c) next)
    (shown : p.store.2.newest r = some d → p.store.2.Carries r d) : ShownSoon r d
      ⟨(chatService.exec (.inr c) p.store).1,
        p.threads.set i (chatService.answered t (.inr c) next p.store)⟩ := by
  subst insert
  cases valid : data.document now with
  | none =>
    refine shown_after ?_
    rw [insert_refused valid]
    exact shown
  | some new =>
    obtain ⟨after, answer⟩ := insert_stored (m := p.store.2) valid
    by_cases mine : ObjectId.ofHex new.conversationId = some r
    · by_cases first : d = (p.store.2.nextId, new)
      · subst first
        obtain ⟨_, id, named, goes⟩ := follow
        rw [← (document_fields valid).1] at named
        cases named.symm.trans mine
        refine Or.inr ⟨_, Service.answered_mem ht, ?_⟩
        have reply : (chatService.exec (.inr (.insertMessage data now)) p.store).2 =
            .ok (p.store.2.nextId, new) := answer
        rw [Service.answered, reply]
        exact goes _ _
      · refine shown_after (fun newest => absurd ?_ first)
        rw [after, newest_insert, if_pos mine] at newest
        exact (Option.some.inj newest).symm
    · refine shown_after (fun newest => ?_)
      rw [after, newest_insert, if_neg mine] at newest
      rw [after]
      exact shown newest

/-- A handler that owes the room its newest message writes it, or goes on owing it. -/
theorem owed_shown (ht : p.threads[i]? = some t) (hr : t.rest = .call (.inr c) next)
    (debt : StillToShow r d.1 d.2.message t.rest) : ShownSoon r d
      ⟨(chatService.exec (.inr c) p.store).1,
        p.threads.set i (chatService.answered t (.inr c) next p.store)⟩ := by
  rw [hr] at debt
  cases debt with
  | @update now delivery _ again =>
    cases delivery with
    | answered => exact Or.inl (fun _ => carries_written r d now)
    | lost => exact Or.inr ⟨_, Service.answered_mem ht, again _⟩
    | unanswered => exact Or.inr ⟨_, Service.answered_mem ht, again _⟩

end

theorem Sending.update_shown {p : ChatPool} (h : Sending p) {i : Nat} {t : ChatThread}
    {r : ObjectId} {d : ObjectId × Message} {id : ObjectId} {text : String} {k : ObjectId}
    {now : Date} {delivery : Delivery}
    {next : ChatReply (.inr (.updateLastMessage id text k now delivery)) → ChatReq ChatResponse}
    (ht : p.threads[i]? = some t)
    (hr : t.rest = .call (.inr (.updateLastMessage id text k now delivery)) next)
    (inOrder : Service.OnCalls (InOrder r) p (.call i))
    (shown : p.store.2.newest r = some d → p.store.2.Carries r d) : ShownSoon r d
      ⟨(chatService.exec (.inr (.updateLastMessage id text k now delivery)) p.store).1,
        p.threads.set i (chatService.answered t
          (.inr (.updateLastMessage id text k now delivery)) next p.store)⟩ := by
  by_cases write : id = r ∧ delivery ≠ .lost ∧ p.store.2.newest r = some d
  · obtain ⟨rfl, made, newest⟩ := write
    rcases Service.onCalls_at inOrder ht hr rfl made d newest with rfl | owed
    · obtain ⟨_, _, _, stored, seen, _, rfl⟩ := Service.following_pending h.following ht hr
      have found := (h.stored t (List.mem_of_getElem? ht) _ seen _ _ _ _ rfl).1
      cases (newest_stored newest).symm.trans found
      refine shown_after (fun _ => ?_)
      rw [update_made made]
      exact carries_written id d now
    · exact Service.Covered.goes_on ht owed (owed_shown ht hr)
  · refine shown_after (fun newest => ?_)
    by_cases lost : delivery = .lost
    · subst lost
      exact shown newest
    · rw [update_made lost] at newest ⊢
      intro room there
      have other : r ≠ id := fun same => write ⟨same.symm, lost, newest⟩
      rw [Collections.setLastMessage, find?_updateRoom, if_neg other] at there
      exact shown newest room there

theorem Sending.shown_step {p : ChatPool} (h : Sending p) {turn : Turn ChatOp} {r : ObjectId}
    {d : ObjectId × Message} (inOrder : Service.OnCalls (InOrder r) p turn)
    (soon : ShownSoon r d p) : ShownSoon r d (chatService.step p turn) := by
  refine Service.covered_step soon turn (fun i t c next called ht hr either => ?_)
  subst called
  rcases c with c | c
  · rcases either with shown | debt
    · exact Or.inl shown
    · rw [hr] at debt
      cases debt
  · rcases either with shown | debt
    · have follow := Service.following_pending h.following ht hr
      rcases send_writes (h.sends t (List.mem_of_getElem? ht)) follow with
        reads | ⟨data, now, insert⟩ | ⟨id, text, k, now, delivery, rfl⟩
      · refine shown_after ?_
        rw [mongo_reads reads]
        exact shown
      · exact insert_shown ht insert follow shown
      · exact h.update_shown ht hr inOrder shown
    · exact owed_shown ht hr debt

/- The handler has not ended in an error. -/
def handledWell (t : ChatThread) : Bool :=
  match t.rest with
  | .done (.sent _ (.error _)) => false
  | _ => true

/-- In every interleaving of sends in which the updates are in order, a room carries its newest
message once every handler has ended well. -/
theorem last_message_shown (s : ChatStore) (r : ObjectId) (start : ShowsNewest r s)
    (turns : List (Turn ChatOp))
    (scope : ∀ turn ∈ turns, ∀ op, turn = .arrive op → op.isSend = true)
    (inOrder : Along chatService.step (Service.OnCalls (InOrder r)) (Pool.idle s) turns)
    (ended : Service.Quiet (run chatService.step (Pool.idle s) turns))
    (handled : ∀ t ∈ (run chatService.step (Pool.idle s) turns).threads, handledWell t = true) :
    ShowsNewest r (run chatService.step (Pool.idle s) turns).store := by
  intro d newest
  have kept := run_invariant (I := fun p : ChatPool => Sending p ∧ ShownSoon r d p)
    (fun p turn h both => ⟨h.1.step both.1, h.1.shown_step both.2 h.2⟩) (s := Pool.idle s)
    ⟨⟨fun _ none => (by cases none), fun _ none => (by cases none), fun _ none => (by cases none)⟩,
      Or.inl (start d)⟩ ((along_of_forall scope).and inOrder)
  rcases kept.2 with shown | ⟨t, member, debt⟩
  · exact shown newest
  · cases rest : t.rest with
    | call c next =>
      have none := ended t member
      rw [rest] at none
      cases none
    | done a =>
      rw [rest] at debt
      cases debt with
      | failed =>
        have well := handled t member
        rw [handledWell, rest] at well
        cases well
    | fail e =>
      rw [rest] at debt
      cases debt

/-! Ann and Bob write at the same time; Ann's message is stored first. -/

def storedHi : Message :=
  { conversationId := firstRoom, senderId := "bob", receiverId := "ann", message := "hi",
    messageType := some .text, createdAt := 3, updatedAt := 3 }

/- The two messages are stored, and the handlers make their updates in the given order. -/
def bothWrite (updates : List Nat) : List (Turn ChatOp) :=
  [.arrive hello, .arrive answerHello, .call 0, .call 0, .call 0, .call 1, .call 1, .call 1,
    .call 0, .call 1] ++ updates.map .call

theorem bothWrite_sends (updates : List Nat) :
    ∀ turn ∈ bothWrite updates, ∀ op, turn = .arrive op → op.isSend = true := by
  rintro turn member op rfl
  simp only [bothWrite, List.cons_append, List.nil_append, List.mem_cons, Turn.arrive.injEq,
    reduceCtorEq, List.mem_map, and_false, exists_false, or_false] at member
  rcases member with rfl | rfl <;> rfl

theorem oneRoom_start : ShowsNewest 0 (market, oneRoom) := fun _ none => by cases none

theorem last_message_shown_hello :
    ShowsNewest 0 (run chatService.step (Pool.idle (market, oneRoom)) (bothWrite [0, 1])).store := by
  have inOrder : Along chatService.step (Service.OnCalls (InOrder 0)) (Pool.idle (market, oneRoom))
      (bothWrite [0, 1]) := by
    refine ⟨trivial, trivial, ?_, ?_, ?_, ?_, ?_, ?_, ?_, ?_, ?_, ?_, trivial⟩ <;>
      intro t c ht pending <;> cases ht <;> cases pending <;> try trivial
    · intro _ _ d newest
      have hi : (run chatService.step (Pool.idle (market, oneRoom)) (bothWrite [])).store.2.newest 0 =
          some (2, storedHi) := by decide +kernel
      cases hi.symm.trans newest
      refine Or.inr ⟨_, List.mem_of_getElem? (i := 1) rfl, ?_⟩
      exact .update (fun _ => .update fun _ => .update fun _ => .update fun _ => .failed)
    · intro _ _ d newest
      have hi : (run chatService.step (Pool.idle (market, oneRoom)) (bothWrite [0])).store.2.newest 0 =
          some (2, storedHi) := by decide +kernel
      cases hi.symm.trans newest
      exact Or.inl rfl
  have ended : Service.Quiet (run chatService.step (Pool.idle (market, oneRoom))
      (bothWrite [0, 1])) := by decide +kernel
  exact last_message_shown _ 0 oneRoom_start _ (bothWrite_sends _) inOrder ended (by decide +kernel)

/-- The update of the first message comes last. -/
theorem late_update : ¬ ∀ (s : ChatStore) (r : ObjectId) (turns : List (Turn ChatOp)),
    ShowsNewest r s → (∀ turn ∈ turns, ∀ op, turn = .arrive op → op.isSend = true) →
    Service.Quiet (run chatService.step (Pool.idle s) turns) →
    (∀ t ∈ (run chatService.step (Pool.idle s) turns).threads, handledWell t = true) →
    ShowsNewest r (run chatService.step (Pool.idle s) turns).store := by
  intro always
  have ended : Service.Quiet (run chatService.step (Pool.idle (market, oneRoom))
      (bothWrite [1, 0])) := by decide +kernel
  have shown := always (market, oneRoom) 0 (bothWrite [1, 0]) oneRoom_start (bothWrite_sends _) ended
    (by decide +kernel) (2, storedHi) (by decide +kernel)
  have carried : (run chatService.step (Pool.idle (market, oneRoom))
      (bothWrite [1, 0])).store.2.chatRooms.all (fun _ room => room.lastMessageId = some 1) = true := by
    decide +kernel
  have there : (run chatService.step (Pool.idle (market, oneRoom))
      (bothWrite [1, 0])).store.2.chatRooms.has 0 = true := by decide +kernel
  obtain ⟨room, found⟩ := Table.has_iff.mp there
  cases (of_decide_eq_true (Table.all_iff.mp carried 0 room found)).symm.trans (shown room found).1

end SecondhandApi
