import Mathlib.Data.List.Induction
import SecondhandApi.MessagesRooms

/-! What the unread count of a room counts. A message has one flag for all its readers; as
a room never has more than two people, the flag tells of the one who did not send it. -/
namespace SecondhandApi
open Keyed Interleaving
open Messages (ChatRoom ChatMessage)

/-- A call of `markAsRead` on the room by the user. -/
def MessagesOp.marks (r u : Id) : MessagesOp → Prop
  | .markRead chatRoomId userId _ _ => chatRoomId = r ∧ userId = u
  | _ => False

/-- The message was sent, and the user has not marked the room as read since. -/
def SentSince (s : MessagesStore) (r u k : Id) (ops : List MessagesOp) : Prop :=
  Since (fun before => (run messagesService.sequential s before).2.messages.find? k = none)
    (fun op => ¬ op.marks r u) ops

theorem sentSince_snoc {s : MessagesStore} {r u k : Id} {ops : List MessagesOp} {op : MessagesOp}
    (stands : (run messagesService.sequential s (ops ++ [op])).2.messages.find? k ≠ none) :
    SentSince s r u k (ops ++ [op]) ↔ ¬ op.marks r u ∧ SentSince s r u k ops :=
  since_snoc.trans (or_iff_right stands)

theorem unreadBy_iff {d : ChatMessage} {r u : Id} : d.unreadBy r u = true ↔
    d.chatRoomId = r ∧ d.senderId ≠ u ∧ d.isRead = false := by
  simp only [ChatMessage.unreadBy, Bool.and_eq_true, decide_eq_true_eq, Bool.not_eq_true', and_assoc]

section
variable {s : MessagesStore} {k : Id} {d : ChatMessage}

/-- A member's mark is not refused. -/
theorem marked_alone {r u : Id} (member : s.2.isMember r u = true) (readAt lastReadAt : Date) :
    (messagesService.sequential s (.markRead r u readAt lastReadAt)).2.toTables =
      (s.2.markRead r u readAt).markMember r u lastReadAt := by
  have passes (f : Messages.RoomRecord → MessagesReq Unit) :
      ∃ room, ((fun _ => MessagesResponse.done) <$> (MessagesService.memberRoom
        "채팅방을 찾을 수 없습니다." "권한이 없습니다." r u >>= f)).alone execBoard s =
        ((fun _ => MessagesResponse.done) <$> f (s.2.record r room)).alone execBoard s := by
    rcases memberRoom_alone "채팅방을 찾을 수 없습니다." "권한이 없습니다." r u s with
      ⟨e, outside, _⟩ | ⟨room, _, _, done⟩
    · cases member.symm.trans outside
    · refine ⟨room, ?_⟩
      rw [Request.alone_map, Request.alone_bind, done, Request.alone_map]
  obtain ⟨room, same⟩ :=
    passes (fun _ => MessageRepository.markMessagesAsRead r u readAt lastReadAt)
  exact congrArg (fun out => out.1.2.toTables) same

/-- What a message that is stored after an operation was before it. -/
inductive Became (s : MessagesStore) (op : MessagesOp) (k : Id) (d : ChatMessage) : Prop where
  | kept (before : s.2.messages.find? k = some d)
      (untouched : ∀ r u, op.marks r u → s.2.isMember r u = true → d.unreadBy r u = false)
  | sent (fresh : s.2.messages.find? k = none) (unread : d.isRead = false) (never : d.readAt = none)
      (send : ∀ r u, ¬ op.marks r u)
  | marked (r u : Id) (readAt : Date) (old : ChatMessage) (mark : op.marks r u)
      (member : s.2.isMember r u = true) (before : s.2.messages.find? k = some old)
      (unread : old.unreadBy r u = true)
      (read : d = { old with isRead := true, readAt := some readAt })

theorem became (op : MessagesOp)
    (there : (messagesService.sequential s op).2.messages.find? k = some d) : Became s op k d := by
  obtain ⟨_, effect⟩ := messages_does op s
  change MessagesEffect s op _ (messagesService.sequential s op).2.toTables at effect
  by_cases mark : ∃ r u, op.marks r u ∧ s.2.isMember r u = true
  · obtain ⟨r, u, mark, member⟩ := mark
    cases op with
    | markRead r' u' readAt lastReadAt =>
      obtain ⟨rfl, rfl⟩ := mark
      rw [marked_alone member] at there
      obtain ⟨old, before, rfl⟩ := Option.map_eq_some_iff.mp
        ((Table.find?_modifyAll s.2.messages _ k).symm.trans there)
      cases unread : old.unreadBy r' u' with
      | true =>
        rw [if_pos rfl]
        exact .marked r' u' readAt old ⟨rfl, rfl⟩ member before unread rfl
      | false =>
        rw [if_neg (by decide)]
        refine .kept before (fun r u mark _ => ?_)
        obtain ⟨rfl, rfl⟩ := mark
        exact unread
    | _ => cases mark
  · have untouched (r u : Id) (marks : op.marks r u) (member : s.2.isMember r u = true) :
        d.unreadBy r u = false := absurd ⟨r, u, marks, member⟩ mark
    generalize (messagesService.sequential s op).2.toTables = t' at effect there
    generalize (op.program.alone execBoard s).2 = reply at effect
    cases effect with
    | sent d' event member fresh room sender unread never told =>
      rcases Table.find?_insert_cases there with before | ⟨rfl, rfl⟩
      · exact .kept before untouched
      · exact .sent fresh unread never (fun _ _ none => none)
    | created product event seller other unknown fresh free free' apart _ made =>
      rw [made] at there
      exact .kept there untouched
    | @marked r u readAt lastReadAt member => exact absurd ⟨r, u, ⟨rfl, rfl⟩, member⟩ mark
    | closed member last => exact .kept (Table.find?_eraseAll_cases there).1 untouched
    | _ => exact .kept there untouched

/-- Nobody enters a room that is there. -/
theorem member_before {op : MessagesOp} {r u : Id} (room : s.2.chatRooms.has r = true)
    (member : (messagesService.sequential s op).2.isMember r u = true) :
    s.2.isMember r u = true := by
  obtain ⟨_, effect⟩ := messages_does op s
  change MessagesEffect s op _ (messagesService.sequential s op).2.toTables at effect
  generalize (messagesService.sequential s op).2.toTables = t' at effect member
  generalize (op.program.alone execBoard s).2 = reply at effect
  cases effect with
  | created product event seller other unknown fresh free free' apart _ made =>
    rw [made, isMember_withRoom free free' apart] at member
    rcases member with before | ⟨rfl, _⟩
    · exact before
    · obtain ⟨_, stored⟩ := Table.has_iff.mp room
      cases fresh.symm.trans stored
  | sent d event inside fresh room sender unread never told => exact member
  | marked inside => exact ((noWider_marked _ _ _ _).less r).members u member
  | left inside others => exact ((noWider_removeMember _ _).less r).members u member
  | closed inside last =>
    exact (((noWider_removeMember _ _).trans (noWider_withoutRoom _)).less r).members u member
  | _ => exact member

/-- For each member, the flag of a message from somebody else tells whether it was sent since. -/
def FlagsRight (t : Messages.Tables) (since : Id → Id → Id → Prop) : Prop :=
  ∀ r u k d, t.isMember r u = true → t.messages.find? k = some d → d.chatRoomId = r →
    d.senderId ≠ u → (d.isRead = false ↔ since r u k)

theorem flagsRight_step (op : MessagesOp) {since : Id → Id → Id → Prop}
    (paired : Paired s.1 s.2.toTables) (h : FlagsRight s.2.toTables since)
    (fresh : ∀ r u k, s.2.messages.find? k = none → since r u k) :
    FlagsRight (messagesService.sequential s op).2.toTables
      (fun r u k => ¬ op.marks r u ∧ since r u k) := by
  intro r u k d member there room other
  cases became op there with
  | kept before untouched =>
    have inside : s.2.isMember r u = true :=
      member_before (room ▸ s.2.linked.message k d before) member
    rw [h r u k d inside before room other]
    refine (and_iff_right_of_imp (fun sent marks => ?_)).symm
    have read := untouched r u marks inside
    rw [Bool.eq_false_iff, ne_eq, unreadBy_iff] at read
    exact read ⟨room, other, (h r u k d inside before room other).mpr sent⟩
  | sent unused unread never send =>
    exact iff_of_true unread ⟨send r u, fresh r u k unused⟩
  | marked r' u' readAt old mark reader before unread read =>
    obtain ⟨here, from', _⟩ := unreadBy_iff.mp unread
    have sender : old.senderId = d.senderId := by rw [read]
    have same : old.chatRoomId = d.chatRoomId := by rw [read]
    obtain rfl : r' = r := by rw [← here, same, room]
    have known := s.2.linked.message k old before
    rw [here] at known
    have inside : s.2.isMember r' u = true := member_before known member
    obtain ⟨chatRoom, stored⟩ := Table.has_iff.mp known
    -- the reader and the sender are the two people of the room, so the member is the reader
    obtain ⟨p, b, v, _, pair⟩ := paired r' chatRoom stored
    have one := pair.members u inside
    have two := pair.members u' reader
    have three := pair.senders k old before here
    rw [← sender] at other
    have reads : u' = u := by grind
    subst reads
    refine iff_of_false (by rw [read]; exact Bool.noConfusion) (fun both => both.1 mark)

end

theorem flagsRight_run (db : Db) (ops : List MessagesOp) :
    FlagsRight (run messagesService.sequential (db, Messages.noChat) ops).2.toTables
      (fun r u k => SentSince (db, Messages.noChat) r u k ops) := by
  induction ops using List.reverseRecOn with
  | nil =>
    intro r u k d member there
    cases there
  | append_singleton ops op ih =>
    have step := flagsRight_step op (paired_run (noChat_paired db) ops) ih
      (fun r u k unused => since_now unused)
    intro r u k d member there room other
    have stands : (run messagesService.sequential (db, Messages.noChat) (ops ++
        [op])).2.messages.find? k ≠ none := by
      rw [there]
      exact Option.some_ne_none d
    rw [run_append] at member there
    exact (step r u k d member there room other).trans (sentSince_snoc stands).symm

/-- A message is marked as read where it has the time it was read at. -/
theorem read_times (db : Db) (ops : List MessagesOp) : ∀ k d,
    (run messagesService.sequential (db, Messages.noChat) ops).2.messages.find? k = some d →
      (d.isRead = true ↔ d.readAt.isSome = true) := by
  induction ops using List.reverseRecOn with
  | nil =>
    intro k d there
    cases there
  | append_singleton ops op ih =>
    rw [run_append]
    intro k d there
    cases became op there with
    | kept before untouched => exact ih k d before
    | sent unused unread never send => simp [unread, never]
    | marked r u readAt old mark reader before unread read => simp [read]

open Classical in
/-- What a member is told to have unread is what was sent by others since the member's last mark,
and the flag of a message goes with the time it was read at. -/
theorem unread_count_exact (db : Db) (ops : List MessagesOp) :
    let s := run messagesService.sequential (db, Messages.noChat) ops
    (∀ r u, s.2.isMember r u = true →
      ((MessageRepository.getUnreadCount r u).alone execBoard s).2 =
        .ok ((s.2.messagesOf r).filter (fun row => row.2.senderId ≠ u ∧
          SentSince (db, Messages.noChat) r u row.1 ops)).length) ∧
    ∀ k d, s.2.messages.find? k = some d → (d.isRead = true ↔ d.readAt.isSome = true) := by
  intro s
  refine ⟨fun r u member => ?_, read_times db ops⟩
  have counted : ((MessageRepository.getUnreadCount r u).alone execBoard s).2 =
      .ok (s.2.countUnread r u) := rfl
  rw [counted, Messages.Tables.countUnread, Messages.Tables.messagesOf, List.filter_filter]
  refine congrArg (fun rows => Except.ok (List.length rows)) (List.filter_congr (fun row stored => ?_))
  have there := s.2.messages.mem_rows.mp stored
  rw [Bool.eq_iff_iff, unreadBy_iff, Bool.and_eq_true, decide_eq_true_eq, decide_eq_true_eq]
  constructor
  · rintro ⟨room, other, unread⟩
    exact ⟨⟨other, (flagsRight_run db ops r u row.1 row.2 member there room other).mp unread⟩, room⟩
  · rintro ⟨⟨other, sent⟩, room⟩
    exact ⟨room, other, (flagsRight_run db ops r u row.1 row.2 member there room other).mpr sent⟩

end SecondhandApi
