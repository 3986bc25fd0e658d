import SecondhandApi.ChatRequests
import SecondhandApi.Interleaving.Tallies

/-! What the answers of the chat tell of messages sent and of messages read, while the requests of
all users interleave, and how many stay unread. -/
namespace SecondhandApi
open Keyed Interleaving
open Mongo (Collections ChatRoom Message MessageInput)

abbrev ChatAnswer : Type := Answer ChatCall ChatReply

/-- A message for the user was stored in the room. -/
def stored (room : String) (u : Id) : ChatAnswer → Nat
  | ⟨.inr (.insertMessage data _), .ok _⟩ =>
    if data.conversationId = room ∧ data.receiverId = u then 1 else 0
  | _ => 0

/-- So many messages of the room have been read by the user. -/
def marked (room : String) (u : Id) : ChatAnswer → Nat
  | ⟨.inr (.markRead text userId _), .ok n⟩ => if text = room ∧ userId = u then n else 0
  | _ => 0

/-- The call deletes the messages of the room: after the room itself, or with its last leave. -/
def discards (room : String) (s : ChatStore) : ChatCall → Bool
  | .inr (.deleteMessages text) => text = room
  | .inr (.leaveTransaction id text userId _) => text = room &&
    (s.2.chatRooms.find? id).any fun last => last.hasActive userId && last.participantsCount = 1
  | _ => false

section
variable {m : Collections} {room text : String} {u userId : Id} {now : Date}

theorem countUnread_deleteMessages : (m.deleteMessages text).countUnread room u ≤
    m.countUnread room u :=
  ((List.filter_sublist ..).filter _).length_le

theorem countUnread_deleteMessages_other (other : text ≠ room) :
    (m.deleteMessages text).countUnread room u = m.countUnread room u := by
  unfold Collections.countUnread
  apply congrArg List.length
  apply Table.query_eraseAll
  intro k d _ unread
  have here : d.conversationId = room := by
    simp only [Message.unreadBy, Bool.and_eq_true, decide_eq_true_eq] at unread
    exact unread.1.1
  simpa [here] using other.symm

theorem countUnread_markRead_self : (m.markRead room u now).countUnread room u = 0 := by
  unfold Collections.countUnread
  rw [List.length_eq_zero_iff, List.filter_eq_nil_iff]
  rintro ⟨k, d⟩ member
  have there := (Table.mem_rows _).1 member
  simp only [Collections.markRead, Table.find?_modifyAll] at there
  obtain ⟨old, -, rfl⟩ := Option.map_eq_some_iff.1 there
  by_cases unread : old.unreadBy room u = true
  · rw [if_pos unread]
    simp [Message.unreadBy]
  · rwa [if_neg unread]

theorem countUnread_markRead_other (other : ¬(text = room ∧ userId = u)) :
    (m.markRead text userId now).countUnread room u = m.countUnread room u := by
  unfold Collections.countUnread
  rw [← List.length_map fun row : ObjectId × Message => (),
    ← @List.length_map _ _ (m.messages.rows.filter _) fun row : ObjectId × Message => ()]
  apply congrArg List.length
  apply Table.query_modifyAll
  intro k d _
  refine ⟨?_, fun _ => rfl⟩
  by_cases unread : d.unreadBy text userId = true
  · have fields := unread
    simp only [Message.unreadBy, Bool.and_eq_true, decide_eq_true_eq] at fields
    have apart : ¬(d.conversationId = room ∧ d.receiverId = u) := by
      rw [fields.1.1, fields.2]
      exact other
    simp only [unread, if_true]
    by_cases here : d.conversationId = room
    · have someone : d.receiverId ≠ u := fun h => apart ⟨here, h⟩
      simp [Message.unreadBy, here, someone]
    · simp [Message.unreadBy, here]
  · simp [unread]

theorem countUnread_insertMessage {m : Mongo} {data : MessageInput} {message : Message}
    (valid : data.document now = some message) :
    (m.insertMessage message).countUnread room u = m.countUnread room u +
      if data.conversationId = room ∧ data.receiverId = u then 1 else 0 := by
  obtain ⟨sameRoom, -, sameUser, -⟩ := document_fields valid
  have unread : message.readAt = none := by
    unfold MessageInput.document at valid
    split at valid
    · split at valid
      · cases valid
        rfl
      · cases valid
    · cases valid
  unfold Collections.countUnread Collections.insertMessage
  rw [Table.rows_insert m.nextMessage, List.filter_append, List.length_append]
  congr 1
  by_cases here : data.conversationId = room ∧ data.receiverId = u
  · simp [Message.unreadBy, sameRoom, sameUser, unread, here]
  · rw [if_neg here, List.length_eq_zero_iff, List.filter_eq_nil_iff]
    simp only [List.mem_singleton, forall_eq, Message.unreadBy, sameRoom, sameUser, unread,
      Option.isNone_none, Bool.and_eq_true, decide_eq_true_eq, and_true]
    exact here

theorem countUnread_markLeft (id : ObjectId) :
    (m.markLeft id userId now).1.countUnread room u = m.countUnread room u := by
  have effect := chat_effect (.markLeft id userId now) m
  simp only [Collections.exec] at effect
  generalize m.markLeft id userId now = result at effect ⊢
  obtain ⟨after, answer⟩ := result
  cases effect with
  | read reads => cases reads
  | absent => rfl
  | marked => rfl

/-- Only the last leave of the room itself changes the count. -/
theorem countUnread_leave {s : ChatStore} (id : ObjectId) :
    (s.2.leave id text userId now).1.countUnread room u = s.2.countUnread room u ∨
      discards room s (.inr (.leaveTransaction id text userId now)) = true ∧
        (s.2.leave id text userId now).1.countUnread room u ≤ s.2.countUnread room u := by
  have effect := chat_effect (.leaveTransaction id text userId now) s.2.toCollections
  simp only [Collections.exec] at effect
  generalize s.2.leave id text userId now = result at effect ⊢
  obtain ⟨after, answer⟩ := result
  cases effect with
  | read reads => cases reads
  | refusedLeave => exact .inl rfl
  | leftOthers => exact .inl rfl
  | leftLast last found active only =>
    by_cases here : text = room
    · refine .inr ⟨?_, countUnread_deleteMessages⟩
      simp [discards, here, found, active, only]
    · exact .inl (countUnread_deleteMessages_other here)

end

/-- What a call does to the count. -/
theorem unread_call (c : ChatCall) (s : ChatStore) (room : String) (u : Id) :
    (execChat c s).1.2.countUnread room u + marked room u ⟨c, (execChat c s).2⟩ =
        s.2.countUnread room u + stored room u ⟨c, (execChat c s).2⟩ ∨
      discards room s c = true ∧ (execChat c s).1.2.countUnread room u ≤ s.2.countUnread room u ∧
        marked room u ⟨c, (execChat c s).2⟩ = 0 := by
  rcases c with (c | c)
  · exact .inl rfl
  · cases c with
    | insertMessage data now =>
      left
      cases valid : data.document now with
      | none =>
        simp only [execChat, either_inr, onSnd, insert_refused valid]
        rfl
      | some message =>
        simp only [execChat, either_inr, onSnd, execMongo, Collections.exec, valid, stored, marked]
        exact countUnread_insertMessage valid
    | markRead text userId now =>
      left
      change (s.2.markRead text userId now).countUnread room u +
        (if text = room ∧ userId = u then s.2.countUnread text userId else 0) =
          s.2.countUnread room u + 0
      by_cases here : text = room ∧ userId = u
      · obtain ⟨rfl, rfl⟩ := here
        simp [countUnread_markRead_self]
      · rw [if_neg here, countUnread_markRead_other here]
    | deleteMessages text =>
      by_cases here : text = room
      · exact .inr ⟨decide_eq_true here, countUnread_deleteMessages, rfl⟩
      · exact .inl (congrArg (· + 0) (countUnread_deleteMessages_other here))
    | leaveTransaction id text userId now =>
      rcases countUnread_leave id with same | ⟨discarded, fewer⟩
      · exact .inl (congrArg (· + 0) same)
      · exact .inr ⟨discarded, fewer, rfl⟩
    | updateLastMessage id text k now delivery => cases delivery <;> exact .inl rfl
    | markLeft id userId now => exact .inl (congrArg (· + 0) (countUnread_markLeft id))
    | findMessages text skip limit field order ties =>
      left
      simp only [execChat, either_inr, onSnd, execMongo, Collections.exec]
      split <;> rfl
    | _ => exact .inl rfl

/-! What a request has stored and marked when it is answered. -/

/-- The message that the request has sent to the user. -/
def ChatOp.sent (room : String) (u : Id) : ChatOp → Except ChatError ChatResponse → Nat
  | .send text _ receiverId _ _ _ _ _ _, .ok (.sent _ _) =>
    if text = room ∧ receiverId = u then 1 else 0
  | _, _ => 0

/-- The messages that the request reports as read by the user. -/
def ChatOp.reported (room : String) (u : Id) : ChatOp → Except ChatError ChatResponse → Nat
  | .markRead text userId _, .ok (.count n) => if text = room ∧ userId = u then n else 0
  | _, _ => 0

def chatEnds (op : ChatOp) (log : ChatLog) (r : Except ChatError ChatResponse) : Prop :=
  ∀ room u, (log.map (stored room u)).sum = op.sent room u r ∧
    (log.map (marked room u)).sum = op.reported room u r

/-- The call stores and marks nothing. -/
def ChatCall.plain : ChatCall → Bool
  | .inr (.insertMessage _ _) => false
  | .inr (.markRead _ _ _) => false
  | _ => true

section
variable {op : ChatOp}

theorem plain_counts {c : ChatCall} (h : c.plain = true) (r : ChatReply c) (room : String) (u : Id) :
    stored room u ⟨c, r⟩ = 0 ∧ marked room u ⟨c, r⟩ = 0 := by
  rcases c with (c | c)
  · exact ⟨rfl, rfl⟩
  · cases c <;> first
      | exact ⟨rfl, rfl⟩
      | cases h

/-- Nothing was stored or marked so far. -/
def Uncounted (log : ChatLog) : Prop :=
  ∀ room u, (log.map (stored room u)).sum = 0 ∧ (log.map (marked room u)).sum = 0

theorem uncounted_cons {log : ChatLog} {c : ChatCall} (h : c.plain = true) (r : ChatReply c)
    (before : Uncounted log) : Uncounted (⟨c, r⟩ :: log) := by
  intro room u
  obtain ⟨none, unmarked⟩ := plain_counts h r room u
  simpa [none, unmarked] using before room u

/-- A request that neither sends nor marks. -/
theorem quiet_obeys (none : ∀ room u r, op.sent room u r = 0 ∧ op.reported room u r = 0)
    {p : ChatReq ChatResponse} (h : Request.Makes (fun c : ChatCall => c.plain = true) p) :
    Request.Obeys (fun _ _ => True) (chatEnds op) [] p := by
  have obeys : Request.Obeys _ _ [] p := h.obeys_keeping (I := Uncounted)
    (fun log c r here before => uncounted_cons here r before) (fun _ _ => ⟨rfl, rfl⟩)
  apply Request.obeys_mono (fun _ _ _ => trivial)
  apply Request.obeys_weaken _ _ obeys
  intro log r ended room u
  exact ⟨(ended room u).1.trans (none room u r).1.symm, (ended room u).2.trans (none room u r).2.symm⟩

/-- A step of a request before it stores or marks anything. -/
theorem plain_bind {A : Type} {p : ChatReq A}
    (h : Request.Makes (fun c : ChatCall => c.plain = true) p) {f : A → ChatReq ChatResponse}
    {log : ChatLog} (before : Uncounted log)
    (failed : ∀ log e, Uncounted log → chatEnds op log (.error e))
    (rest : ∀ a log, Uncounted log → Request.Obeys (fun _ _ => True) (chatEnds op) log (f a)) :
    Request.Obeys (fun _ _ => True) (chatEnds op) log (p >>= f) := by
  have obeys : Request.Obeys _ _ log p := h.obeys_keeping (I := Uncounted)
    (fun log c r here before => uncounted_cons here r before) before
  apply Request.obeys_bind
  apply Request.obeys_mono (fun _ _ _ => trivial)
  apply Request.obeys_weaken _ _ obeys
  intro log r ended
  cases r with
  | ok a => exact rest a log ended
  | error e => exact failed log e ended

theorem prisma_plain {A : Type} {p : Req A} (h : Request.Makes (fun c => c.reads = true) p) :
    Request.Makes (fun c : ChatCall => c.plain = true) (prisma p) :=
  Request.makes_left _ (h.mono fun _ _ => rfl)

theorem execute_makes {P : ChatCall → Prop} {handle : Nat → ChatReq Unit}
    (attempt : ∀ n, Request.Makes P (handle n)) (delay left retryCount : Nat) :
    Request.Makes P
      (BaseEventHandler.execute handle (fun _ => return ()) delay left retryCount) := by
  induction left generalizing retryCount with
  | zero => exact attempt retryCount
  | succ left ih => exact Request.makes_tryCatch (attempt retryCount) fun _ => ih (retryCount + 1)

/-- However the handler ends, the message counts as sent. -/
theorem settled_obeys {p : ChatReq Unit} {message : ObjectId × Message}
    (h : Request.Makes (fun c : ChatCall => c.plain = true) p) {log : ChatLog}
    (sent : ∀ room u handled, (log.map (stored room u)).sum = op.sent room u (.ok (.sent message
      handled)) ∧ (log.map (marked room u)).sum = op.reported room u (.ok (.sent message handled))) :
    Request.Obeys (fun _ _ => True) (chatEnds op) log
      (settled p >>= fun handled => return .sent message handled) := by
  have keeps : ∀ later (c : ChatCall) r, c.plain = true →
      (∀ handled, chatEnds op later (.ok (.sent message handled))) →
      ∀ handled, chatEnds op (⟨c, r⟩ :: later) (.ok (.sent message handled)) := by
    intro later c r here before handled room u
    obtain ⟨none, unmarked⟩ := plain_counts here r room u
    simpa [none, unmarked] using before handled room u
  have obeys : Request.Obeys _ _ log (.ok <$> p : ChatReq (Except ChatError Unit)) :=
    (Request.makes_map h _).obeys_keeping keeps fun handled room u => sent room u handled
  apply Request.obeys_bind
  apply Request.obeys_tryCatch
  apply Request.obeys_mono (fun _ _ _ => trivial)
  apply Request.obeys_weaken _ _ obeys
  intro later r ended
  cases r with
  | ok handled => exact ended handled
  | error e => exact ended (.error e)

theorem send_obeys (text : String) (senderId receiverId : Id) (content : Field String)
    (messageType : Field MessageType) (fileUrl fileName : Option String) (now : Date)
    (attempts : Nat → Attempt) :
    Request.Obeys (fun _ _ => True)
      (chatEnds (.send text senderId receiverId content messageType fileUrl fileName now attempts))
      [] (ChatOp.send text senderId receiverId content messageType fileUrl fileName now
        attempts).program := by
  have failed : ∀ log e, Uncounted log → chatEnds (.send text senderId receiverId content
      messageType fileUrl fileName now attempts) log (.error e) := fun log e none room u => none room u
  rw [ChatOp.program, MessageService.sendMessage, Request.bind_assoc]
  apply plain_bind (prisma_plain (ensureUserExists_makes senderId)) (fun _ _ => ⟨rfl, rfl⟩) failed
  intro _ log none
  rw [Request.bind_assoc]
  apply plain_bind (prisma_plain (ensureUserExists_makes receiverId)) none failed
  intro _ log none
  rw [Request.bind_assoc, ChatRoomService.ensureChatRoomExist,
    ChatRoomRepositoryMongo.findChatRoomById]
  cases named : ObjectId.ofHex text with
  | none =>
    rw [newObjectId_none named]
    exact failed _ _ none
  | some id =>
    rw [newObjectId_some named]
    refine ⟨trivial, fun r => ?_⟩
    have looked : ∀ r, Uncounted (⟨.inr (.findRoomById id), r⟩ :: log) :=
      fun r => uncounted_cons rfl r none
    rcases r with e | _ | room'
    · exact failed _ _ (looked _)
    · exact failed _ _ (looked _)
    · refine ⟨trivial, fun r => ?_⟩
      rcases r with e | ⟨k, d⟩
      · exact failed _ _ fun room u => by
          simpa [stored, marked] using looked (.ok (some room')) room u
      · apply settled_obeys
        · apply execute_makes
          intro n
          obtain ⟨at_, delivery, same⟩ := handle_updates named k d.message attempts n
          rw [MessageService.afterMessageSent, same]
          refine ⟨rfl, fun r => ?_⟩
          cases r <;> trivial
        · intro room u handled
          obtain ⟨unstored, unmarked⟩ := none room u
          simp [stored, marked, unstored, unmarked, ChatOp.sent, ChatOp.reported,
            MessageRepositoryMongo.newMessage]

theorem chat_obeys (op : ChatOp) : Request.Obeys (fun _ _ => True) (chatEnds op) [] op.program := by
  cases op with
  | send text senderId receiverId content messageType fileUrl fileName now attempts =>
    exact send_obeys text senderId receiverId content messageType fileUrl fileName now attempts
  | markRead text userId now =>
    refine ⟨trivial, fun r => ?_⟩
    rcases r with e | n
    · exact fun room u => ⟨rfl, rfl⟩
    · exact fun room u => ⟨rfl, by simp [marked, ChatOp.reported]⟩
  | _ =>
    apply quiet_obeys (fun room u r => ⟨rfl, rfl⟩)
    apply (chat_follows _).makes
    intro log c next follow
    rcases c with (c | c)
    · rfl
    · cases c with
      | insertMessage => cases follow.1
      | markRead => cases follow
      | _ => rfl

end

/-! Any number of requests at the same time. -/

/-- What is unread and what was marked is no more than what was unread at first and what was
stored since. -/
def Accounted (s₀ s : ChatStore) (n : (ChatAnswer → Nat) → Nat) : Prop :=
  ∀ room u, s.2.countUnread room u + n (marked room u) ≤ s₀.2.countUnread room u + n (stored room u)

structure ChatRight (s₀ : ChatStore) (p : ChatPool) : Prop where
  obedient : Service.Obedient (fun _ _ _ => True) chatEnds p
  accounted : Accounted s₀ p.store fun f => total f p

theorem chatRight_step {s₀ : ChatStore} {p : ChatPool} (h : ChatRight s₀ p) (turn : Turn ChatOp) :
    ChatRight s₀ (chatService.step p turn) := by
  constructor
  · exact chatService.obedient_step (fun op (_ : True) => chat_obeys op) p turn h.obedient
      fun _ _ => trivial
  · apply chatService.total_step (I := Accounted s₀) h.accounted turn
    intro i t c next _ ht hr room u
    have before := h.accounted room u
    beta_reduce at before ⊢
    change (execChat c p.store).1.2.countUnread room u +
      (_ + marked room u ⟨c, (execChat c p.store).2⟩) ≤
        _ + (_ + stored room u ⟨c, (execChat c p.store).2⟩)
    obtain kept | ⟨_, fewer, unmarked⟩ := unread_call c p.store room u <;> omega

theorem chatRight_run (s₀ : ChatStore) (turns : List (Turn ChatOp)) :
    ChatRight s₀ (run chatService.step (Pool.idle s₀) turns) := by
  apply run_keeps (I := ChatRight s₀) (fun _ turn h => chatRight_step h turn)
  constructor
  · intro t none
    cases none
  · exact fun room u => Nat.le_refl _

/-- As long as the messages of the room are not deleted, none is missing. -/
theorem balanced_step {s₀ : ChatStore} {room : String} {u : Id} {p : ChatPool} {turn : Turn ChatOp}
    (h : p.store.2.countUnread room u + total (marked room u) p =
      s₀.2.countUnread room u + total (stored room u) p)
    (spared : Service.OnCalls (fun p _ c => discards room p.store c = false) p turn) :
    (chatService.step p turn).store.2.countUnread room u +
        total (marked room u) (chatService.step p turn) =
      s₀.2.countUnread room u + total (stored room u) (chatService.step p turn) := by
  apply chatService.total_step (I := fun s n => s.2.countUnread room u + n (marked room u) =
    s₀.2.countUnread room u + n (stored room u)) h turn
  rintro i t c next rfl ht hr
  obtain kept | ⟨deleted, _⟩ := unread_call c p.store room u
  · change (execChat c p.store).1.2.countUnread room u +
      (_ + marked room u ⟨c, (execChat c p.store).2⟩) =
        _ + (_ + stored room u ⟨c, (execChat c p.store).2⟩)
    omega
  · cases (Service.onCalls_at spared ht hr).symm.trans deleted

/-- What the requests have answered so far. -/
def answers (f : ChatOp → Except ChatError ChatResponse → Nat) (p : ChatPool) : Nat :=
  (p.threads.map fun t => match t.rest with
    | .done a => f t.op (.ok a)
    | .fail e => f t.op (.error e)
    | .call _ _ => 0).sum

theorem answers_of_quiet {s₀ : ChatStore} {p : ChatPool} (h : ChatRight s₀ p)
    (quiet : Service.Quiet p) (room : String) (u : Id) :
    total (stored room u) p = answers (ChatOp.sent room u) p ∧
      total (marked room u) p = answers (ChatOp.reported room u) p := by
  have each : ∀ t ∈ p.threads, (t.log.map (stored room u)).sum = (match t.rest with
        | .done a => ChatOp.sent room u t.op (.ok a)
        | .fail e => ChatOp.sent room u t.op (.error e)
        | .call _ _ => 0) ∧ (t.log.map (marked room u)).sum = (match t.rest with
        | .done a => ChatOp.reported room u t.op (.ok a)
        | .fail e => ChatOp.reported room u t.op (.error e)
        | .call _ _ => 0) := by
    intro t member
    have obeys := h.obedient t member
    have ended := quiet t member
    cases rest : t.rest with
    | done a =>
      rw [rest] at obeys
      exact obeys room u
    | fail e =>
      rw [rest] at obeys
      exact obeys room u
    | call c next =>
      rw [rest] at ended
      cases ended
  constructor
  · exact congrArg List.sum (List.map_congr_left fun t member => (each t member).1)
  · exact congrArg List.sum (List.map_congr_left fun t member => (each t member).2)

/-- No message is reported as read twice, in any order of the requests. Once they have ended, and
if no call has deleted the messages of the room, every message that was sent has been reported or
is unread. -/
theorem unread_accounted (s₀ : ChatStore) (turns : List (Turn ChatOp)) (room : String) (u : Id) :
    let p := run chatService.step (Pool.idle s₀) turns
    p.store.2.countUnread room u + total (marked room u) p ≤
        s₀.2.countUnread room u + total (stored room u) p ∧
      (Service.Quiet p → p.store.2.countUnread room u + answers (ChatOp.reported room u) p ≤
        s₀.2.countUnread room u + answers (ChatOp.sent room u) p) ∧
      (Service.Quiet p → Along chatService.step
          (Service.OnCalls fun p _ c => discards room p.store c = false) (Pool.idle s₀) turns →
        p.store.2.countUnread room u + answers (ChatOp.reported room u) p =
          s₀.2.countUnread room u + answers (ChatOp.sent room u) p) := by
  intro p
  have right : ChatRight s₀ p := chatRight_run s₀ turns
  have accounted := right.accounted room u
  beta_reduce at accounted
  refine ⟨accounted, fun quiet => ?_, fun quiet spared => ?_⟩
  · obtain ⟨sent, reported⟩ := answers_of_quiet right quiet room u
    omega
  · obtain ⟨sent, reported⟩ := answers_of_quiet right quiet room u
    have balanced : p.store.2.countUnread room u + total (marked room u) p =
        s₀.2.countUnread room u + total (stored room u) p :=
      run_invariant (I := fun p : ChatPool => p.store.2.countUnread room u +
        total (marked room u) p = s₀.2.countUnread room u + total (stored room u) p)
        (fun _ _ h spared => balanced_step h spared) rfl spared
    omega

/-- Bob reads while Ann writes to him twice and leaves. -/
def readBetween : List (Turn ChatOp) :=
  [.arrive hello, .arrive hello, .arrive (.markRead firstRoom "bob" 5),
    .arrive (.leave false firstRoom "ann" 6), .call 0, .call 1, .call 0, .call 1, .call 0, .call 1,
    .call 3, .call 0, .call 2, .call 1, .call 3, .call 0, .call 1]

theorem unread_accounted_bob :
    let p := run chatService.step (Pool.idle (market, oneRoom)) readBetween
    p.store.2.countUnread firstRoom "bob" + answers (ChatOp.reported firstRoom "bob") p = 2 := by
  intro p
  have even := (unread_accounted (market, oneRoom) readBetween firstRoom "bob").2.2 (by decide +kernel)
    (by decide +kernel)
  have sent : answers (ChatOp.sent firstRoom "bob") p = 2 := by decide +kernel
  exact even.trans (by rw [sent]; rfl)

end SecondhandApi
