import SecondhandApi.Interleaving.Debts
import SecondhandApi.Interleaving.Phases
import SecondhandApi.MessagesRooms

/-! Members that leave a room at the same time. A leave removes its member, counts who is left
and deletes the room when nobody is: three calls, between which others may make theirs. -/
namespace SecondhandApi
open Keyed Interleaving
open Messages (ChatRoom RoomRecord)

/-- The leaves of a room `k.1` by a user `k.2`. -/
def leaveService : Service MessagesStore (Id × Id) (Call ⊕ MessagesCall)
    (Sum.elim Call.Reply MessagesCall.Reply) ApiError MessagesResponse :=
  ⟨execBoard, fun k => (MessagesOp.leave k.1 k.2).program⟩

inductive LeavePhase where
  | asking
  | removing
  | counting
  | deleting
  | left
  | failed (e : ApiError)

namespace LeavePhase

def rest (k : Id × Id) : LeavePhase → MessagesReq MessagesResponse
  | asking => (MessagesOp.leave k.1 k.2).program
  | removing => (fun _ => .done) <$> MessageRepository.leaveChatRoom k.1 k.2
  | counting => (fun _ => .done) <$> (do
      let remainingMembers : Nat ← awaitMessages (.countMembers k.1)
      if remainingMembers = 0 then
        awaitMessages (.deleteRoom k.1))
  | deleting => (fun _ => .done) <$> awaitMessages (.deleteRoom k.1)
  | left => .done .done
  | failed e => .fail e

def after (k : Id × Id) : LeavePhase → MessagesStore → LeavePhase
  | asking, s =>
    match s.2.chatRooms.find? k.1 with
    | none => failed (.notFound "채팅방을 찾을 수 없습니다.")
    | some _ => if s.2.isMember k.1 k.2 then removing else failed (.forbidden "권한이 없습니다.")
  | removing, _ => counting
  | counting, s => if (s.2.membersOf k.1).length = 0 then deleting else left
  | deleting, s => if s.2.chatRooms.has k.1 then left else failed (.database .recordNotFound)
  | f, _ => f

end LeavePhase

theorem asking_moves (k : Id × Id) (s : MessagesStore) {c : Call ⊕ MessagesCall}
    {next : Sum.elim Call.Reply MessagesCall.Reply c → MessagesReq MessagesResponse}
    (hr : LeavePhase.rest k .asking = .call c next) :
    next (execBoard c s).2 = LeavePhase.rest k (LeavePhase.after k .asking s) := by
  cases hr
  simp only [execBoard, either_inr, execMessages, Messages.Tables.exec, LeavePhase.after]
  cases stored : s.2.chatRooms.find? k.1 with
  | none => rfl
  | some room =>
    rw [← record_hasMember s.2.toTables k.1 k.2 room]
    change ((fun _ => MessagesResponse.done) <$>
      ((if !(s.2.record k.1 room).hasMember k.2 then Request.fail (ApiError.forbidden "권한이 없습니다.")
        else Request.done (s.2.record k.1 room)) >>= fun _ =>
          MessageRepository.leaveChatRoom k.1 k.2) : MessagesReq MessagesResponse) = _
    cases (s.2.record k.1 room).hasMember k.2 <;> rfl

def leavePhases : Phases leaveService LeavePhase where
  first := .asking
  rest := LeavePhase.rest
  after := LeavePhase.after
  starts _ := rfl
  moves k f c next hr s := by
    cases f with
    | asking => exact asking_moves k s hr
    | removing =>
      cases hr
      rfl
    | counting =>
      cases hr
      change ((fun _ => MessagesResponse.done) <$>
        (if ((s.2.membersOf k.1).length : Nat) = 0 then awaitMessages (.deleteRoom k.1) else
          Request.done ()) : MessagesReq MessagesResponse) = _
      rw [LeavePhase.after]
      split <;> rfl
    | deleting =>
      cases hr
      simp only [leaveService, execBoard, either_inr, execMessages, Messages.Tables.exec,
        LeavePhase.after]
      cases s.2.chatRooms.has k.1 <;> rfl
    | left => cases hr
    | failed e => cases hr

abbrev LeaveCrew : Type := Crew MessagesStore (Id × Id) LeavePhase

namespace LeavePhase

def waiting : LeavePhase → Bool
  | asking | removing => true
  | _ => false

/-- Its member is removed, and it may be going to delete the room. -/
def closing : LeavePhase → Bool
  | counting | deleting => true
  | _ => false

def write (k : Id × Id) : LeavePhase → Messages.Tables → Messages.Tables
  | removing, t => t.removeMember k.1 k.2
  | deleting, t => if t.chatRooms.has k.1 then t.withoutRoom k.1 else t
  | _, t => t

end LeavePhase

theorem leave_store {k : Id × Id} {f : LeavePhase} {c : Call ⊕ MessagesCall}
    {next : Sum.elim Call.Reply MessagesCall.Reply c → MessagesReq MessagesResponse}
    (hr : leavePhases.rest k f = .call c next) (s : MessagesStore) :
    (leaveService.exec c s).1.2.toTables = f.write k s.2.toTables ∧
      (f.waiting = true ∨ f.closing = true) := by
  cases f with
  | asking => cases hr; exact ⟨rfl, Or.inl rfl⟩
  | removing => cases hr; exact ⟨rfl, Or.inl rfl⟩
  | counting => cases hr; exact ⟨rfl, Or.inr rfl⟩
  | deleting =>
    cases hr
    refine ⟨?_, Or.inr rfl⟩
    simp only [leaveService, execBoard, either_inr, execMessages, Messages.Tables.exec,
      LeavePhase.write]
    split <;> rfl
  | left => cases hr
  | failed e => cases hr

/-- Everything a turn can do. -/
theorem leave_step_cases (a : LeaveCrew) (turn : Turn (Id × Id)) :
    leavePhases.step a turn = a ∨
    (∃ k, turn = .arrive k ∧ leavePhases.step a turn = ⟨a.store, a.members ++ [(k, .asking)]⟩) ∨
    (∃ i k f store, turn = .call i ∧ a.members[i]? = some (k, f) ∧
      (f.waiting = true ∨ f.closing = true) ∧
      store.2.toTables = f.write k a.store.2.toTables ∧
      leavePhases.step a turn = ⟨store, a.members.set i (k, f.after k a.store)⟩) := by
  rcases leavePhases.step_cases a turn with hs | hs | ⟨i, k, f, c, next, rfl, hm, hr, hs⟩
  · exact Or.inl hs
  · exact Or.inr (Or.inl hs)
  · obtain ⟨after, underWay⟩ := leave_store hr a.store
    exact Or.inr (Or.inr ⟨i, k, f, _, rfl, hm, underWay, after, hs⟩)

theorem isMember_removeMember {t : Messages.Tables} {r u r' u' : Id} :
    (t.removeMember r u).isMember r' u' = true ↔ t.isMember r' u' = true ∧ (r', u') ≠ (r, u) := by
  rw [isMember_iff, isMember_iff]
  constructor
  · rintro ⟨m, row, there, rfl, rfl⟩
    obtain ⟨before, other⟩ := Table.find?_eraseAll_cases there
    refine ⟨⟨m, row, before, rfl, rfl⟩, fun same => ?_⟩
    obtain ⟨room, user⟩ := Prod.mk.inj same
    simp [room, user] at other
  · rintro ⟨⟨m, row, there, rfl, rfl⟩, other⟩
    refine ⟨m, row, ?_, rfl, rfl⟩
    refine (Table.find?_eraseAll _ _ m).trans ?_
    rw [there, Option.filter_some, if_pos]
    rw [Bool.not_eq_true', Bool.eq_false_iff]
    simpa using other

theorem isMember_withoutRoom {t : Messages.Tables} {r r' u' : Id} :
    (t.withoutRoom r).isMember r' u' = true ↔ t.isMember r' u' = true ∧ r' ≠ r := by
  rw [isMember_iff, isMember_iff]
  constructor
  · rintro ⟨m, row, there, rfl, rfl⟩
    obtain ⟨before, other⟩ := Table.find?_eraseAll_cases there
    exact ⟨⟨m, row, before, rfl, rfl⟩, of_decide_eq_false other⟩
  · rintro ⟨⟨m, row, there, rfl, rfl⟩, other⟩
    refine ⟨m, row, ?_, rfl, rfl⟩
    refine (Table.find?_eraseAll _ _ m).trans ?_
    rw [there, Option.filter_some, if_pos]
    simpa using other

theorem membersOf_nil {t : Messages.Tables} {r : Id} :
    (t.membersOf r).length = 0 ↔ ∀ u, t.isMember r u = false := by
  rw [List.length_eq_zero_iff, Messages.Tables.membersOf, List.filter_eq_nil_iff]
  constructor
  · intro none u
    refine Bool.eq_false_iff.mpr (fun member => ?_)
    obtain ⟨m, row, there, room, _⟩ := isMember_iff.mp member
    exact none (m, row) (t.members.mem_rows.mpr there) (decide_eq_true room)
  · rintro none ⟨m, row⟩ stored here
    have member : t.isMember r row.userId = true :=
      isMember_iff.mpr ⟨m, row, t.members.mem_rows.mp stored, of_decide_eq_true here, rfl⟩
    rw [none] at member
    cases member

/-- Only somebody who was in the room when the schedule began arrives, once. -/
def Arrives (t₀ : Messages.Tables) (a : LeaveCrew) (turn : Turn (Id × Id)) : Prop :=
  ∀ k, turn = .arrive k → t₀.isMember k.1 k.2 = true ∧ k ∉ a.members.map Prod.fst

/-- The users in the rooms are those whose leave has not removed them; and a room without users
has been deleted, or somebody is going to. -/
structure Leaving (t₀ : Messages.Tables) (a : LeaveCrew) : Prop where
  apart : (a.members.map Prod.fst).Nodup
  joined : ∀ k f, (k, f) ∈ a.members → t₀.isMember k.1 k.2 = true
  stays : ∀ r u, a.store.2.isMember r u = true ↔
    t₀.isMember r u = true ∧ ∀ f, ((r, u), f) ∈ a.members → f.waiting = true
  empty : ∀ k u, (k, .deleting) ∈ a.members → a.store.2.isMember k.1 u = false
  cleared : ∀ r u, t₀.isMember r u = true → a.store.2.chatRooms.has r = true →
    (∃ v, a.store.2.isMember r v = true) ∨ ∃ k f, (k, f) ∈ a.members ∧ k.1 = r ∧ f.closing = true

section
variable {t₀ : Messages.Tables} {a : LeaveCrew} {i : Nat} {k : Id × Id} {f : LeavePhase}

theorem leaving_start (s : MessagesStore) : Leaving s.2.toTables ⟨s, []⟩ where
  apart := List.nodup_nil
  joined _ _ none := by cases none
  stays r u := ⟨fun member => ⟨member, fun _ none => (by cases none)⟩, fun both => both.1⟩
  empty _ _ none := by cases none
  cleared r u member _ := Or.inl ⟨u, member⟩

theorem Leaving.arrive (h : Leaving t₀ a) {k : Id × Id} (member : t₀.isMember k.1 k.2 = true)
    (new : k ∉ a.members.map Prod.fst) : Leaving t₀ ⟨a.store, a.members ++ [(k, .asking)]⟩ := by
  have inside (j : Id × Id) (g : LeavePhase) (there : (j, g) ∈ a.members ++ [(k, .asking)]) :
      (j, g) ∈ a.members ∨ j = k ∧ g = .asking := by
    rcases List.mem_append.mp there with before | here
    · exact Or.inl before
    · exact Or.inr (Prod.mk.inj (List.mem_singleton.mp here))
  constructor
  · rw [List.map_append]
    exact List.Nodup.append h.apart (List.nodup_singleton k) (List.disjoint_singleton.mpr new)
  · intro j g there
    rcases inside j g there with before | ⟨rfl, rfl⟩
    · exact h.joined j g before
    · exact member
  · intro r u
    rw [h.stays]
    refine and_congr_right (fun _ => ⟨fun waits g there => ?_, fun waits g there => ?_⟩)
    · rcases inside _ g there with before | ⟨_, rfl⟩
      · exact waits g before
      · rfl
    · exact waits g (List.mem_append_left _ there)
  · intro j u there
    rcases inside j _ there with before | ⟨_, asks⟩
    · exact h.empty j u before
    · cases asks
  · intro r u started stored
    rcases h.cleared r u started stored with someone | ⟨j, g, there, rest⟩
    · exact Or.inl someone
    · exact Or.inr ⟨j, g, List.mem_append_left _ there, rest⟩

theorem Leaving.one (h : Leaving t₀ a) {g : LeavePhase} (hf : (k, f) ∈ a.members)
    (hg : (k, g) ∈ a.members) : f = g :=
  (Prod.mk.inj (List.inj_on_of_nodup_map h.apart hf hg rfl)).2

theorem Leaving.waits (h : Leaving t₀ a) (inside : (k, f) ∈ a.members) (waiting : f.waiting = true) :
    a.store.2.isMember k.1 k.2 = true := by
  refine (h.stays k.1 k.2).mpr ⟨h.joined k _ inside, fun g there => ?_⟩
  rw [← h.one inside there]
  exact waiting

/-- A leave that asks is by a member. -/
theorem Leaving.asks (h : Leaving t₀ a) (inside : (k, .asking) ∈ a.members) :
    LeavePhase.after k .asking a.store = .removing := by
  have member := h.waits inside rfl
  obtain ⟨room, stored⟩ := Table.has_iff.mp (has_of_member (Messages.Chat.linked _) member)
  simp only [LeavePhase.after, stored, member, if_true]

/-- What a call leaves of the users of the rooms. -/
theorem Leaving.members_after (h : Leaving t₀ a) (inside : (k, f) ∈ a.members) {store : MessagesStore}
    (after : store.2.toTables = f.write k a.store.2.toTables) (r u : Id) :
    store.2.isMember r u = true ↔
      a.store.2.isMember r u = true ∧ ¬ (f = .removing ∧ (r, u) = k) := by
  rw [after]
  cases f with
  | removing =>
    rw [LeavePhase.write, isMember_removeMember]
    simp
  | deleting =>
    rw [LeavePhase.write]
    split
    · rw [isMember_withoutRoom]
      refine and_congr_right (fun member => iff_of_true ?_ (fun both => by cases both.1))
      rintro rfl
      rw [h.empty k u inside] at member
      cases member
    · simp
  | _ => simp [LeavePhase.write]

/-- No call makes somebody a member. -/
theorem Leaving.absent_after (h : Leaving t₀ a) (inside : (k, f) ∈ a.members) {store : MessagesStore}
    (after : store.2.toTables = f.write k a.store.2.toTables) {r u : Id}
    (absent : a.store.2.isMember r u = false) : store.2.isMember r u = false := by
  refine Bool.eq_false_iff.mpr (fun member => ?_)
  have before := ((h.members_after inside after r u).mp member).1
  rw [absent] at before
  cases before

/-- Only a removal from the room itself ends somebody's membership. -/
theorem Leaving.absent_before (h : Leaving t₀ a) (inside : (k, f) ∈ a.members)
    {store : MessagesStore} (after : store.2.toTables = f.write k a.store.2.toTables) {r u : Id}
    (absent : store.2.isMember r u = false) (stays : ¬ (f = .removing ∧ r = k.1)) :
    a.store.2.isMember r u = false := by
  refine Bool.eq_false_iff.mpr (fun member => ?_)
  have still := (h.members_after inside after r u).mpr
    ⟨member, fun both => stays ⟨both.1, congrArg Prod.fst both.2⟩⟩
  rw [absent] at still
  cases still

/-- A phase that waits either goes on waiting or is the one that removes its member. -/
theorem Leaving.waiting_after (h : Leaving t₀ a) (inside : (k, f) ∈ a.members)
    (underWay : f.waiting = true ∨ f.closing = true) :
    (f.after k a.store).waiting = true ↔ f.waiting = true ∧ f ≠ .removing := by
  cases f with
  | asking =>
    rw [h.asks inside]
    simp [LeavePhase.waiting]
  | removing => simp [LeavePhase.after, LeavePhase.waiting]
  | counting =>
    rw [LeavePhase.after]
    split <;> simp [LeavePhase.waiting]
  | deleting =>
    rw [LeavePhase.after]
    split <;> simp [LeavePhase.waiting]
  | _ => simp [LeavePhase.waiting, LeavePhase.closing] at underWay

/-- Only a count of nobody leads to deleting the room. -/
theorem Leaving.deletes_after (h : Leaving t₀ a) (inside : (k, f) ∈ a.members)
    (deletes : f.after k a.store = .deleting) : ∀ u, a.store.2.isMember k.1 u = false := by
  cases f with
  | asking =>
    rw [h.asks inside] at deletes
    cases deletes
  | removing => cases deletes
  | counting =>
    rw [LeavePhase.after] at deletes
    split at deletes
    · rename_i none
      exact membersOf_nil.mp none
    · cases deletes
  | deleting => exact fun u => h.empty k u inside
  | left => cases deletes
  | failed e => cases deletes

theorem has_write {t : Messages.Tables} {r : Id} (stored : (f.write k t).chatRooms.has r = true) :
    t.chatRooms.has r = true ∧ ¬ (f = .deleting ∧ r = k.1) := by
  cases f with
  | deleting =>
    rw [LeavePhase.write] at stored
    split at stored
    · refine ⟨Table.has_of_eraseAll stored, fun both => ?_⟩
      obtain ⟨room, there⟩ := Table.has_iff.mp stored
      have other := (Table.find?_eraseAll_cases there).2
      exact of_decide_eq_false other both.2
    · rename_i absent
      exact ⟨stored, fun both => absent (both.2 ▸ stored)⟩
  | _ => exact ⟨stored, fun both => by cases both.1⟩

theorem Leaving.stays_call (h : Leaving t₀ a) (hm : a.members[i]? = some (k, f))
    (underWay : f.waiting = true ∨ f.closing = true) {store : MessagesStore}
    (after : store.2.toTables = f.write k a.store.2.toTables) (r u : Id) :
    store.2.isMember r u = true ↔ t₀.isMember r u = true ∧
      ∀ g, ((r, u), g) ∈ a.members.set i (k, f.after k a.store) → g.waiting = true := by
  have inside := List.mem_of_getElem? hm
  have moved (j : Id × Id) (g : LeavePhase) := mem_moved h.apart hm (f.after k a.store) j g
  rw [h.members_after inside after, h.stays, and_assoc]
  refine and_congr_right (fun _ => ?_)
  by_cases same : (r, u) = k
  · rw [same]
    have first : (∀ g, (k, g) ∈ a.members → g.waiting = true) ↔ f.waiting = true :=
      ⟨fun waits => waits f inside, fun waiting g there => h.one inside there ▸ waiting⟩
    have second : (∀ g, (k, g) ∈ a.members.set i (k, f.after k a.store) → g.waiting = true) ↔
        (f.after k a.store).waiting = true := by
      refine ⟨fun waits => waits _ ((moved k _).mpr (Or.inl ⟨rfl, rfl⟩)), fun waiting g there => ?_⟩
      rcases (moved k g).mp there with ⟨_, rfl⟩ | ⟨other, _⟩
      · exact waiting
      · exact absurd rfl other
    rw [first, second, h.waiting_after inside underWay]
    simp
  · have kept (g : LeavePhase) := (moved (r, u) g).trans
      ⟨fun cases => (cases.resolve_left (fun both => same both.1)).2, fun there => Or.inr ⟨same, there⟩⟩
    simp only [kept, same, and_false, not_false_eq_true, and_true]

theorem Leaving.cleared_call (h : Leaving t₀ a) (hm : a.members[i]? = some (k, f))
    {store : MessagesStore} (after : store.2.toTables = f.write k a.store.2.toTables) {r u : Id}
    (started : t₀.isMember r u = true) (stored : store.2.chatRooms.has r = true) :
    (∃ v, store.2.isMember r v = true) ∨
      ∃ j g, (j, g) ∈ a.members.set i (k, f.after k a.store) ∧ j.1 = r ∧ g.closing = true := by
  have inside := List.mem_of_getElem? hm
  have members := h.members_after inside after
  have moved (j : Id × Id) (g : LeavePhase) := mem_moved h.apart hm (f.after k a.store) j g
  rw [after] at stored
  obtain ⟨stored, deleted⟩ := has_write stored
  have here := (moved k (f.after k a.store)).mpr (Or.inl ⟨rfl, rfl⟩)
  rcases h.cleared r u started stored with ⟨v, member⟩ | ⟨j, g, there, rfl, closing⟩
  · by_cases removed : f = .removing ∧ (r, v) = k
    · obtain ⟨rfl, rfl⟩ := removed
      exact Or.inr ⟨(r, v), _, here, rfl, rfl⟩
    · exact Or.inl ⟨v, (members r v).mpr ⟨member, removed⟩⟩
  · by_cases same : j = k
    · subst same
      obtain rfl := h.one inside there
      cases f with
      | counting =>
        by_cases nobody : (a.store.2.membersOf j.1).length = 0
        · refine Or.inr ⟨j, _, here, rfl, ?_⟩
          rw [LeavePhase.after, if_pos nobody]
          rfl
        · refine Or.inl ?_
          by_contra none
          refine nobody (membersOf_nil.mpr (fun v => Bool.eq_false_iff.mpr (fun member => none ?_)))
          exact ⟨v, (members j.1 v).mpr ⟨member, fun both => by cases both.1⟩⟩
      | deleting => exact absurd ⟨rfl, rfl⟩ deleted
      | _ => cases closing
    · exact Or.inr ⟨j, g, (moved j g).mpr (Or.inr ⟨same, there⟩), rfl, closing⟩

theorem Leaving.call (h : Leaving t₀ a) (hm : a.members[i]? = some (k, f))
    (underWay : f.waiting = true ∨ f.closing = true) {store : MessagesStore}
    (after : store.2.toTables = f.write k a.store.2.toTables) :
    Leaving t₀ ⟨store, a.members.set i (k, f.after k a.store)⟩ := by
  have inside := List.mem_of_getElem? hm
  have moved (j : Id × Id) (g : LeavePhase) := mem_moved h.apart hm (f.after k a.store) j g
  constructor
  · rw [moved_ops hm]
    exact h.apart
  · intro j g there
    rcases (moved j g).mp there with ⟨rfl, _⟩ | ⟨_, before⟩
    · exact h.joined j f inside
    · exact h.joined j g before
  · exact h.stays_call hm underWay after
  · intro j u there
    refine h.absent_after inside after ?_
    rcases (moved j _).mp there with ⟨rfl, deletes⟩ | ⟨_, before⟩
    · exact h.deletes_after inside deletes.symm u
    · exact h.empty j u before
  · exact fun r u => h.cleared_call hm after

theorem Leaving.step (h : Leaving t₀ a) {turn : Turn (Id × Id)} (arrives : Arrives t₀ a turn) :
    Leaving t₀ (leavePhases.step a turn) := by
  rcases leave_step_cases a turn with hs | ⟨k, rfl, hs⟩ | ⟨i, k, f, store, rfl, hm, underWay, after, hs⟩
  · rw [hs]
    exact h
  · rw [hs]
    obtain ⟨member, new⟩ := arrives k rfl
    exact h.arrive member new
  · rw [hs]
    exact h.call hm underWay after

/-- At most one leave is closing an empty room, the room is there, and no leave has failed. -/
structure OneCloser (a : LeaveCrew) : Prop where
  alone : ∀ j g k f, (j, g) ∈ a.members → (k, f) ∈ a.members → j.1 = k.1 → g.closing = true →
    f.closing = true → (∀ u, a.store.2.isMember j.1 u = false) → j = k
  stored : ∀ k f, (k, f) ∈ a.members → f.closing = true → a.store.2.chatRooms.has k.1 = true
  fine : ∀ k e, (k, .failed e) ∉ a.members

/-- The last member is not removed while another leave of the room is yet to count. -/
def Unhurried (a : LeaveCrew) (turn : Turn (Id × Id)) : Prop :=
  ∀ i k, turn = .call i → a.members[i]? = some (k, .removing) →
    (∀ u, a.store.2.isMember k.1 u = true → u = k.2) →
    ∀ j, (j, .counting) ∈ a.members → j.1 ≠ k.1

theorem oneCloser_start (s : MessagesStore) : OneCloser ⟨s, []⟩ where
  alone _ _ _ _ none := by cases none
  stored _ _ none := by cases none
  fine _ _ none := by cases none

theorem OneCloser.arrive (h : OneCloser a) (k : Id × Id) :
    OneCloser ⟨a.store, a.members ++ [(k, .asking)]⟩ := by
  have closing {j : Id × Id} {g : LeavePhase} (there : (j, g) ∈ a.members ++ [(k, .asking)])
      (other : g ≠ .asking) : (j, g) ∈ a.members := by
    rcases List.mem_append.mp there with before | here
    · exact before
    · exact absurd (Prod.mk.inj (List.mem_singleton.mp here)).2 other
  constructor
  · intro j g j' g' there there' room closes closes' nobody
    refine h.alone j g j' g' (closing there ?_) (closing there' ?_) room closes closes' nobody
    · rintro rfl
      cases closes
    · rintro rfl
      cases closes'
  · intro j g there closes
    refine h.stored j g (closing there ?_) closes
    rintro rfl
    cases closes
  · intro j e there
    exact h.fine j e (closing there (by rintro ⟨⟩))

/-- A phase that closes a room has just removed its member or was closing before. -/
theorem closing_after {s : MessagesStore} (closes : (f.after k s).closing = true) :
    f = .removing ∨ f = .counting := by
  cases f with
  | asking =>
    rw [LeavePhase.after] at closes
    split at closes
    · cases closes
    · split at closes <;> cases closes
  | removing => exact Or.inl rfl
  | counting => exact Or.inr rfl
  | deleting =>
    rw [LeavePhase.after] at closes
    split at closes <;> cases closes
  | left => cases closes
  | failed e => cases closes

/-- Who leaves last does not leave another leave of the room before its count. -/
theorem Leaving.someone_stays (l : Leaving t₀ a) (hm : a.members[i]? = some (k, .removing))
    {store : MessagesStore} (after : store.2.toTables = LeavePhase.removing.write k a.store.2.toTables)
    (unhurried : Unhurried a (.call i)) {j : Id × Id} {g : LeavePhase} (there : (j, g) ∈ a.members)
    (closes : g.closing = true) (room : j.1 = k.1) : ∃ u, store.2.isMember k.1 u = true := by
  have inside := List.mem_of_getElem? hm
  cases g with
  | counting =>
    by_contra none
    refine unhurried i k rfl hm (fun u stays => ?_) j there room
    by_contra other
    exact none ⟨u, (l.members_after inside after k.1 u).mpr
      ⟨stays, fun both => other (congrArg Prod.snd both.2)⟩⟩
  | deleting =>
    have gone := l.empty j k.2 there
    rw [room, l.waits inside rfl] at gone
    cases gone
  | _ => cases closes

/-- So a room without members has one leave that is closing it. -/
theorem OneCloser.alone_call (h : OneCloser a) (l : Leaving t₀ a)
    (hm : a.members[i]? = some (k, f)) {store : MessagesStore}
    (after : store.2.toTables = f.write k a.store.2.toTables) (unhurried : Unhurried a (.call i))
    (j : Id × Id) (g : LeavePhase) (j' : Id × Id) (g' : LeavePhase)
    (there : (j, g) ∈ a.members.set i (k, f.after k a.store))
    (there' : (j', g') ∈ a.members.set i (k, f.after k a.store)) (room : j.1 = j'.1)
    (closes : g.closing = true) (closes' : g'.closing = true)
    (nobody : ∀ u, store.2.isMember j.1 u = false) : j = j' := by
  have inside := List.mem_of_getElem? hm
  have moved (j : Id × Id) (g : LeavePhase) := mem_moved l.apart hm (f.after k a.store) j g
  have stays {r : Id} (nobody : ∀ u, store.2.isMember r u = false) {j : Id × Id} {g : LeavePhase}
      (before : (j, g) ∈ a.members) (closes : g.closing = true) (room : j.1 = r) :
      ¬ (f = .removing ∧ r = k.1) := by
    rintro ⟨rfl, same⟩
    obtain ⟨u, member⟩ := l.someone_stays hm after unhurried before closes (room.trans same)
    rw [← same, nobody] at member
    cases member
  have clash (j : Id × Id) (g : LeavePhase) (before : (j, g) ∈ a.members) (closes : g.closing = true)
      (now : (f.after k a.store).closing = true) (room : j.1 = k.1)
      (nobody : ∀ u, store.2.isMember k.1 u = false) : j = k := by
    have kept := stays nobody before closes room
    rcases closing_after now with removes | rfl
    · exact absurd ⟨removes, rfl⟩ kept
    · refine h.alone j g k _ before inside room closes rfl (fun u => ?_)
      exact l.absent_before inside after (room ▸ nobody u) (by rintro ⟨⟨⟩, _⟩)
  rcases (moved j g).mp there with ⟨rfl, rfl⟩ | ⟨other, before⟩ <;>
  rcases (moved j' g').mp there' with ⟨rfl, rfl⟩ | ⟨other', before'⟩
  · rfl
  · exact (clash j' g' before' closes' closes room.symm nobody).symm
  · exact clash j g before closes closes' room (room ▸ nobody)
  · exact h.alone j g j' g' before before' room closes closes' fun u =>
      l.absent_before inside after (nobody u) (stays nobody before closes rfl)

theorem OneCloser.stored_call (h : OneCloser a) (l : Leaving t₀ a)
    (hm : a.members[i]? = some (k, f)) {store : MessagesStore}
    (after : store.2.toTables = f.write k a.store.2.toTables) (j : Id × Id) (g : LeavePhase)
    (there : (j, g) ∈ a.members.set i (k, f.after k a.store)) (closes : g.closing = true) :
    store.2.chatRooms.has j.1 = true := by
  have inside := List.mem_of_getElem? hm
  rcases (mem_moved l.apart hm (f.after k a.store) j g).mp there with ⟨rfl, rfl⟩ | ⟨other, before⟩
  · have stored : a.store.2.chatRooms.has j.1 = true := by
      rcases closing_after closes with rfl | rfl
      · exact has_of_member (Messages.Chat.linked _) (l.waits inside rfl)
      · exact h.stored j _ inside rfl
    rcases closing_after closes with rfl | rfl <;>
    · rw [after]
      exact stored
  · have stored := h.stored j g before closes
    rw [after]
    cases f with
    | deleting =>
      rw [LeavePhase.write]
      split
      · refine Table.has_erase stored (fun same => other ?_)
        exact h.alone j g k _ before inside same closes rfl (fun u => same ▸ l.empty k u inside)
      · exact stored
    | _ => exact stored

/-- A leave that is under way does not fail. -/
theorem OneCloser.fine_call (h : OneCloser a) (l : Leaving t₀ a) (inside : (k, f) ∈ a.members)
    (underWay : f.waiting = true ∨ f.closing = true) (e : ApiError) :
    f.after k a.store ≠ .failed e := by
  intro fails
  cases f with
  | asking =>
    rw [l.asks inside] at fails
    cases fails
  | removing => cases fails
  | counting =>
    rw [LeavePhase.after] at fails
    split at fails <;> cases fails
  | deleting =>
    rw [LeavePhase.after, if_pos (h.stored k _ inside rfl)] at fails
    cases fails
  | _ => simp [LeavePhase.waiting, LeavePhase.closing] at underWay

theorem OneCloser.call (h : OneCloser a) (l : Leaving t₀ a) (hm : a.members[i]? = some (k, f))
    (underWay : f.waiting = true ∨ f.closing = true) {store : MessagesStore}
    (after : store.2.toTables = f.write k a.store.2.toTables)
    (unhurried : Unhurried a (.call i)) :
    OneCloser ⟨store, a.members.set i (k, f.after k a.store)⟩ where
  alone := h.alone_call l hm after unhurried
  stored := h.stored_call l hm after
  fine j e there := by
    rcases (mem_moved l.apart hm (f.after k a.store) j _).mp there with ⟨_, fails⟩ | ⟨_, before⟩
    · exact h.fine_call l (List.mem_of_getElem? hm) underWay e fails.symm
    · exact h.fine j e before

theorem OneCloser.step (h : OneCloser a) (l : Leaving t₀ a) {turn : Turn (Id × Id)}
    (unhurried : Unhurried a turn) : OneCloser (leavePhases.step a turn) := by
  rcases leave_step_cases a turn with hs | ⟨k, rfl, hs⟩ | ⟨i, k, f, store, rfl, hm, underWay, after, hs⟩
  · rw [hs]
    exact h
  · rw [hs]
    exact h.arrive k
  · rw [hs]
    exact h.call l hm underWay after unhurried

/-- A leave has failed, or two are closing the same empty room, or one is and the room is gone:
then one of them is going to fail. -/
def Doomed (r : Id) (a : LeaveCrew) : Prop :=
  (∃ k e, (k, .failed e) ∈ a.members) ∨ (∀ u, a.store.2.isMember r u = false) ∧
    ((∃ j g k f, j ≠ k ∧ (j, g) ∈ a.members ∧ (k, f) ∈ a.members ∧ j.1 = r ∧ k.1 = r ∧
      g.closing = true ∧ f.closing = true) ∨
    a.store.2.chatRooms.has r = false ∧ ∃ k f, (k, f) ∈ a.members ∧ k.1 = r ∧ f.closing = true)

/-- What becomes of a leave that is closing an empty room: it goes on, or it has deleted the
room, or it fails. -/
theorem closes_on {s : MessagesStore} (closes : f.closing = true)
    (nobody : ∀ u, s.2.isMember k.1 u = false) :
    (f.after k s).closing = true ∨
      (f = .deleting ∧ s.2.chatRooms.has k.1 = true) ∨
      s.2.chatRooms.has k.1 = false ∧ ∃ e, f.after k s = .failed e := by
  cases f with
  | counting =>
    rw [LeavePhase.after, if_pos (membersOf_nil.mpr nobody)]
    exact Or.inl rfl
  | deleting =>
    rw [LeavePhase.after]
    cases s.2.chatRooms.has k.1 with
    | true => exact Or.inr (Or.inl ⟨rfl, rfl⟩)
    | false => exact Or.inr (Or.inr ⟨rfl, _, rfl⟩)
  | _ => cases closes

/-- A leave that is closing an empty room is still on its way after a call, or the call has
deleted the room for it, or it has failed. -/
theorem Leaving.closes_call (l : Leaving t₀ a) (hm : a.members[i]? = some (k, f))
    {store : MessagesStore} (after : store.2.toTables = f.write k a.store.2.toTables) {j : Id × Id}
    {g : LeavePhase} (there : (j, g) ∈ a.members) (closes : g.closing = true)
    (nobody : ∀ u, a.store.2.isMember j.1 u = false) :
    (∃ g', (j, g') ∈ a.members.set i (k, f.after k a.store) ∧ g'.closing = true) ∨
      (j = k ∧ a.store.2.chatRooms.has j.1 = true ∧ store.2.chatRooms.has j.1 = false) ∨
      ∃ e, (k, LeavePhase.failed e) ∈ a.members.set i (k, f.after k a.store) := by
  have inside := List.mem_of_getElem? hm
  have moved (j : Id × Id) (g : LeavePhase) := mem_moved l.apart hm (f.after k a.store) j g
  have here := (moved k (f.after k a.store)).mpr (Or.inl ⟨rfl, rfl⟩)
  by_cases same : j = k
  · subst same
    obtain rfl := l.one inside there
    rcases closes_on closes nobody with goesOn | ⟨rfl, stored⟩ | ⟨_, e, fails⟩
    · exact Or.inl ⟨_, here, goesOn⟩
    · refine Or.inr (Or.inl ⟨rfl, stored, Bool.eq_false_iff.mpr (fun still => ?_)⟩)
      rw [after] at still
      exact (has_write still).2 ⟨rfl, rfl⟩
    · exact Or.inr (Or.inr ⟨e, fails ▸ here⟩)
  · exact Or.inl ⟨g, (moved j g).mpr (Or.inr ⟨same, there⟩), closes⟩

theorem Doomed.call {r : Id} (h : Doomed r a) (l : Leaving t₀ a) (hm : a.members[i]? = some (k, f))
    (underWay : f.waiting = true ∨ f.closing = true) {store : MessagesStore}
    (after : store.2.toTables = f.write k a.store.2.toTables) :
    Doomed r ⟨store, a.members.set i (k, f.after k a.store)⟩ := by
  have inside := List.mem_of_getElem? hm
  rcases h with ⟨j, e, fails⟩ | ⟨nobody, rest⟩
  · have moved := mem_moved l.apart hm (f.after k a.store) j (.failed e)
    refine Or.inl ⟨j, e, moved.mpr (Or.inr ⟨?_, fails⟩)⟩
    rintro rfl
    obtain rfl := l.one inside fails
    rcases underWay with waiting | closing
    · cases waiting
    · cases closing
  · have nobodyAfter (u : Id) := l.absent_after inside after (nobody u)
    rcases rest with ⟨j, g, j', g', other, there, there', rfl, room', closes, closes'⟩ |
      ⟨gone, j, g, there, rfl, closes⟩
    · have second := l.closes_call hm after there' closes' (room' ▸ nobody)
      rcases l.closes_call hm after there closes nobody with ⟨x, inX, onX⟩ | ⟨rfl, _, gone⟩ | ⟨e, fails⟩
      · rcases second with ⟨y, inY, onY⟩ | ⟨_, _, gone⟩ | ⟨e, fails⟩
        · exact Or.inr ⟨nobodyAfter, Or.inl ⟨j, x, j', y, other, inX, inY, rfl, room', onX, onY⟩⟩
        · exact Or.inr ⟨nobodyAfter, Or.inr ⟨room' ▸ gone, j, x, inX, rfl, onX⟩⟩
        · exact Or.inl ⟨k, e, fails⟩
      · rcases second with ⟨y, inY, onY⟩ | ⟨same, _⟩ | ⟨e, fails⟩
        · exact Or.inr ⟨nobodyAfter, Or.inr ⟨gone, j', y, inY, room', onY⟩⟩
        · exact absurd same.symm other
        · exact Or.inl ⟨j, e, fails⟩
      · exact Or.inl ⟨k, e, fails⟩
    · rcases l.closes_call hm after there closes nobody with ⟨x, inX, onX⟩ | ⟨_, stored, _⟩ | ⟨e, fails⟩
      · have absent : store.2.chatRooms.has j.1 = false := by
          refine Bool.eq_false_iff.mpr (fun stored => ?_)
          rw [after] at stored
          rw [(has_write stored).1] at gone
          cases gone
        exact Or.inr ⟨nobodyAfter, Or.inr ⟨absent, j, x, inX, rfl, onX⟩⟩
      · cases gone.symm.trans stored
      · exact Or.inl ⟨k, e, fails⟩

theorem Doomed.step {r : Id} (h : Doomed r a) (l : Leaving t₀ a) (turn : Turn (Id × Id)) :
    Doomed r (leavePhases.step a turn) := by
  rcases leave_step_cases a turn with hs | ⟨k, rfl, hs⟩ | ⟨i, k, f, store, rfl, hm, underWay, after, hs⟩
  · rw [hs]
    exact h
  · rw [hs]
    have kept {j : Id × Id} {g : LeavePhase} (there : (j, g) ∈ a.members) :
        (j, g) ∈ a.members ++ [(k, LeavePhase.asking)] := List.mem_append_left _ there
    rcases h with ⟨j, e, fails⟩ | ⟨nobody, ⟨j, g, j', g', other, there, there', rest⟩ |
      ⟨gone, j, g, there, rest⟩⟩
    · exact Or.inl ⟨j, e, kept fails⟩
    · exact Or.inr ⟨nobody, Or.inl ⟨j, g, j', g', other, kept there, kept there', rest⟩⟩
    · exact Or.inr ⟨nobody, Or.inr ⟨gone, j, g, kept there, rest⟩⟩
  · rw [hs]
    exact h.call l hm underWay after

/-- Removing the last member while another leave is yet to count dooms one of the two. -/
theorem doomed_of_hurried (l : Leaving t₀ a) {turn : Turn (Id × Id)}
    (hurried : ¬ Unhurried a turn) : ∃ r, Doomed r (leavePhases.step a turn) := by
  simp only [Unhurried, not_forall, not_not] at hurried
  obtain ⟨i, k, rfl, hm, last, j, counts, room⟩ := hurried
  have inside := List.mem_of_getElem? hm
  have hr : leavePhases.rest k .removing = .call (.inr (.deleteMembers k.1 k.2)) _ := rfl
  obtain ⟨after, underWay⟩ := leave_store hr a.store
  rw [leavePhases.step_call hm hr]
  have moved (j : Id × Id) (g : LeavePhase) := mem_moved l.apart hm
    (LeavePhase.after k .removing a.store) j g
  refine ⟨k.1, Or.inr ⟨fun u => Bool.eq_false_iff.mpr (fun member => ?_), Or.inl ⟨j, .counting, k,
    .counting, ?_, ?_, (moved k _).mpr (Or.inl ⟨rfl, rfl⟩), room, rfl, rfl, rfl⟩⟩⟩
  · obtain ⟨before, stays⟩ := (l.members_after inside after k.1 u).mp member
    exact stays ⟨rfl, Prod.ext rfl (last u before)⟩
  · rintro rfl
    cases l.one inside counts
  · refine (moved j _).mpr (Or.inr ⟨?_, counts⟩)
    rintro rfl
    cases l.one inside counts

end

/-! The same of the pool of requests. -/

abbrev LeavePool : Type := Pool MessagesStore (Id × Id) (Call ⊕ MessagesCall)
  (Sum.elim Call.Reply MessagesCall.Reply) ApiError MessagesResponse

abbrev LeaveThread : Type := Thread (Id × Id) (Call ⊕ MessagesCall)
  (Sum.elim Call.Reply MessagesCall.Reply) ApiError MessagesResponse

/-- The leave has removed its member and is about to count who is left of the room. -/
def countsNext (r : Id) (t : LeaveThread) : Bool :=
  match t.rest.pending with
  | some (.inr (.countMembers room)) => decide (room = r)
  | _ => false

/-- Who removes the last member finds no other leave of the room that is yet to count. -/
def CountsFirst (p : LeavePool) (_ : LeaveThread) : Call ⊕ MessagesCall → Prop
  | .inr (.deleteMembers r u) => ((p.store.2.removeMember r u).membersOf r).length = 0 →
    ∀ t ∈ p.threads, countsNext r t = false
  | _ => True

instance (p : LeavePool) (t : LeaveThread) : ∀ c, Decidable (CountsFirst p t c)
  | .inr (.deleteMembers r u) =>
    inferInstanceAs (Decidable (((p.store.2.removeMember r u).membersOf r).length = 0 → _))
  | .inl _ | .inr (.findRoomOf _ _) | .inr (.createRoom _ _ _ _ _) | .inr (.createMessage _ _ _) |
    .inr (.findMemberships _) | .inr (.findMessages _ _ _ _) | .inr (.countMessages _) |
    .inr (.markMessages _ _ _) | .inr (.markMember _ _ _) | .inr (.countUnread _ _) |
    .inr (.findRoomById _) | .inr (.touchRoom _ _) | .inr (.countMembers _) |
    .inr (.deleteRoom _) => .isTrue trivial

theorem pending_removing {k : Id × Id} {f : LeavePhase} {r u : Id} :
    (leavePhases.rest k f).pending = some (.inr (.deleteMembers r u)) ↔ f = .removing ∧ k = (r, u) := by
  constructor
  · intro pending
    cases f <;> cases pending
    exact ⟨rfl, rfl⟩
  · rintro ⟨rfl, rfl⟩
    rfl

theorem countsNext_iff {t : LeaveThread} {k : Id × Id} {f : LeavePhase} {r : Id}
    (rest : t.rest = leavePhases.rest k f) : countsNext r t = true ↔ f = .counting ∧ k.1 = r := by
  rw [countsNext, rest]
  cases f with
  | counting => exact decide_eq_true_iff.trans (and_iff_right rfl).symm
  | _ => exact ⟨fun none => (by cases none), fun both => by cases both.1⟩

theorem lastMember_iff {t : Messages.Tables} {r u : Id} :
    ((t.removeMember r u).membersOf r).length = 0 ↔ ∀ v, t.isMember r v = true → v = u := by
  rw [membersOf_nil]
  constructor
  · intro none v member
    by_contra other
    have stays : (t.removeMember r u).isMember r v = true :=
      isMember_removeMember.mpr ⟨member, fun same => other (Prod.mk.inj same).2⟩
    rw [none] at stays
    cases stays
  · intro last v
    refine Bool.eq_false_iff.mpr (fun member => ?_)
    obtain ⟨before, other⟩ := isMember_removeMember.mp member
    exact other (by rw [last v before])

theorem closing_pending {k : Id × Id} {f : LeavePhase} (closing : f.closing = true) :
    (leavePhases.rest k f).pending ≠ none := by
  cases f with
  | counting => exact nofun
  | deleting => exact nofun
  | _ => cases closing

theorem unhurried_iff {p : LeavePool} {a : LeaveCrew} (shown : leavePhases.Shown p a)
    (turn : Turn (Id × Id)) : Service.OnCalls CountsFirst p turn ↔ Unhurried a turn := by
  constructor
  · rintro first i k rfl hm last j counts room
    obtain ⟨t, ht, _, rest⟩ := shown.thread_at hm
    have pending : t.rest.pending = some (.inr (.deleteMembers k.1 k.2)) := by
      rw [rest]
      rfl
    have rule := first t _ ht pending
      (lastMember_iff.mpr (fun v member => last v (shown.store ▸ member)))
    obtain ⟨t', inside, _, rest'⟩ := shown.thread counts
    exact Bool.eq_false_iff.mp (rule t' inside) ((countsNext_iff rest').mpr ⟨rfl, room⟩)
  · intro unhurried
    cases turn with
    | arrive k => trivial
    | call i =>
      intro t c ht pending
      rcases c with c | c
      · trivial
      · cases c with
        | deleteMembers r u =>
          intro last t' inside
          refine Bool.eq_false_iff.mpr (fun counts => ?_)
          obtain ⟨f, hm, rest⟩ := shown.member_at ht
          rw [rest] at pending
          obtain ⟨rfl, same⟩ := pending_removing.mp pending
          obtain ⟨g, there, rest'⟩ := shown.mem inside
          obtain ⟨rfl, room⟩ := (countsNext_iff rest').mp counts
          rw [same] at hm
          exact unhurried i (r, u) rfl hm
            (fun v member => lastMember_iff.mp last v (shown.store ▸ member)) _ there room
        | _ => trivial

/-- A schedule of leaves: each is by somebody who is in the room when it begins, and each member
leaves a room once. -/
structure LeaveSchedule (s : MessagesStore) (turns : List (Turn (Id × Id))) : Prop where
  member : ∀ k ∈ arrivals turns, s.2.isMember k.1 k.2 = true
  once : (arrivals turns).Nodup

/-- What leaving is to do: nobody's leave fails, no room is deleted under a member, and of a room
that everybody has left nothing remains when the leaves have ended. -/
structure LeavesRight (s : MessagesStore) (turns : List (Turn (Id × Id))) : Prop where
  succeed : ∀ p ∈ visited leaveService.step (Pool.idle s) turns, ∀ t ∈ p.threads, ∀ e,
    t.rest ≠ .fail e
  kept : ∀ before turn after, turns = before ++ turn :: after → ∀ r,
    (run leaveService.step (Pool.idle s) before).store.2.chatRooms.has r = true →
    (run leaveService.step (Pool.idle s) (before ++ [turn])).store.2.chatRooms.has r = false →
    ∀ u, (run leaveService.step (Pool.idle s) before).store.2.isMember r u = false
  gone : ∀ p ∈ visited leaveService.step (Pool.idle s) turns, Service.Quiet p → ∀ r,
    (∃ u, s.2.isMember r u = true) → (∀ u, p.store.2.isMember r u = false) →
    p.store.2.chatRooms.has r = false ∧
    (∀ m row, p.store.2.members.find? m = some row → row.chatRoomId ≠ r) ∧
    ∀ k d, p.store.2.messages.find? k = some d → d.chatRoomId ≠ r

section
variable {s : MessagesStore} {turns : List (Turn (Id × Id))}

theorem LeaveSchedule.arrives (h : LeaveSchedule s turns) :
    Along leavePhases.step (Arrives s.2.toTables) ⟨s, []⟩ turns := by
  rw [along_iff_at]
  rintro before turn after rfl k rfl
  have split : arrivals (before ++ Turn.arrive k :: after) = arrivals before ++ k :: arrivals after :=
    arrivals_append before (.arrive k :: after)
  have once := h.once
  rw [split] at once
  refine ⟨h.member k (by simp [split]), fun inside => ?_⟩
  rw [leavePhases.ops_run] at inside
  exact (List.nodup_append.mp once).2.2 k inside k List.mem_cons_self rfl

theorem leaving_run (h : LeaveSchedule s turns) :
    Leaving s.2.toTables (run leavePhases.step ⟨s, []⟩ turns) :=
  run_invariant (I := Leaving s.2.toTables) (fun _ _ leaving arrives => leaving.step arrives)
    (leaving_start s) h.arrives

theorem LeaveSchedule.firstPart {before after : List (Turn (Id × Id))}
    (h : LeaveSchedule s (before ++ after)) : LeaveSchedule s before where
  member k arrives := by
    refine h.member k ?_
    rw [arrivals_append]
    exact List.mem_append_left _ arrives
  once := by
    have once := h.once
    rw [arrivals_append] at once
    exact once.of_append_left

theorem shown_leaves (s : MessagesStore) (turns : List (Turn (Id × Id))) :
    leavePhases.Shown (run leaveService.step (Pool.idle s) turns)
      (run leavePhases.step ⟨s, []⟩ turns) :=
  leavePhases.shown_run s turns

theorem countsFirst_iff : Along leaveService.step (Service.OnCalls CountsFirst) (Pool.idle s) turns ↔
    Along leavePhases.step Unhurried ⟨s, []⟩ turns := by
  rw [along_iff_at, along_iff_at]
  have same (before : List (Turn (Id × Id))) := unhurried_iff (shown_leaves s before)
  constructor
  · exact fun first before turn after split => (same before turn).mp (first before turn after split)
  · exact fun first before turn after split => (same before turn).mpr (first before turn after split)

theorem oneCloser_run (h : LeaveSchedule s turns)
    (unhurried : Along leavePhases.step Unhurried ⟨s, []⟩ turns) :
    OneCloser (run leavePhases.step ⟨s, []⟩ turns) := by
  have both := run_invariant (I := fun a => Leaving s.2.toTables a ∧ OneCloser a)
    (fun _ _ kept met => ⟨kept.1.step met.1, kept.2.step kept.1 met.2⟩)
    ⟨leaving_start s, oneCloser_start s⟩ (h.arrives.and unhurried)
  exact both.2

theorem LeaveSchedule.kept (h : LeaveSchedule s turns) {before after : List (Turn (Id × Id))}
    {turn : Turn (Id × Id)} (split : turns = before ++ turn :: after) {r : Id}
    (stored : (run leaveService.step (Pool.idle s) before).store.2.chatRooms.has r = true)
    (deleted : (run leaveService.step (Pool.idle s) (before ++ [turn])).store.2.chatRooms.has r = false)
    (u : Id) : (run leaveService.step (Pool.idle s) before).store.2.isMember r u = false := by
  subst split
  have l := leaving_run h.firstPart
  rw [(shown_leaves s before).store] at stored ⊢
  rw [(shown_leaves s (before ++ [turn])).store, run_append, run_cons, run_nil] at deleted
  generalize run leavePhases.step ⟨s, []⟩ before = a at l stored deleted ⊢
  rcases leave_step_cases a turn with hs | ⟨k, rfl, hs⟩ | ⟨i, k, f, store, rfl, hm, underWay, after, hs⟩
  · rw [hs, stored] at deleted
    cases deleted
  · rw [hs, stored] at deleted
    cases deleted
  · rw [hs, after] at deleted
    have changed (same : (f.write k a.store.2.toTables).chatRooms.has r = true) :
        a.store.2.isMember r u = false := by cases deleted.symm.trans same
    cases f with
    | deleting =>
      rw [LeavePhase.write] at deleted changed
      split at changed
      · by_cases room : r = k.1
        · rw [room]
          exact l.empty k u (List.mem_of_getElem? hm)
        · exact changed (Table.has_erase stored room)
      · exact changed stored
    | _ => exact changed stored

theorem LeaveSchedule.gone (h : LeaveSchedule s turns)
    (quiet : Service.Quiet (run leaveService.step (Pool.idle s) turns)) {r u : Id}
    (started : s.2.isMember r u = true)
    (left : ∀ v, (run leaveService.step (Pool.idle s) turns).store.2.isMember r v = false) :
    (run leaveService.step (Pool.idle s) turns).store.2.chatRooms.has r = false := by
  have l := leaving_run h
  have shown := shown_leaves s turns
  rw [shown.store] at left ⊢
  refine Bool.eq_false_iff.mpr (fun stored => ?_)
  rcases l.cleared r u started stored with ⟨v, member⟩ | ⟨k, f, there, _, closing⟩
  · rw [left] at member
    cases member
  · obtain ⟨t, inside, _, rest⟩ := shown.thread there
    have ended := quiet t inside
    rw [rest] at ended
    exact closing_pending closing ended

/-- A leave that has failed is one whose phase is that it has failed. -/
theorem failed_iff {p : LeavePool} {a : LeaveCrew} (shown : leavePhases.Shown p a) :
    (∃ t ∈ p.threads, ∃ e, t.rest = .fail e) ↔ ∃ k e, (k, .failed e) ∈ a.members := by
  constructor
  · rintro ⟨t, inside, e, fails⟩
    obtain ⟨f, there, rest⟩ := shown.mem inside
    rw [fails] at rest
    cases f <;> cases rest
    exact ⟨t.op, e, there⟩
  · rintro ⟨k, e, there⟩
    obtain ⟨t, inside, _, rest⟩ := shown.thread there
    exact ⟨t, inside, e, rest⟩

/-- In a run that has ended with no failure nobody was hurried. -/
theorem LeaveSchedule.unhurried (h : LeaveSchedule s turns)
    (quiet : Service.Quiet (run leaveService.step (Pool.idle s) turns))
    (fine : ∀ t ∈ (run leaveService.step (Pool.idle s) turns).threads, ∀ e, t.rest ≠ .fail e) :
    Along leavePhases.step Unhurried ⟨s, []⟩ turns := by
  rw [along_iff_at]
  rintro before turn after rfl
  by_contra hurried
  have l := leaving_run h.firstPart
  obtain ⟨r, doomed⟩ := doomed_of_hurried l hurried
  have shown := shown_leaves s (before ++ turn :: after)
  have final : Doomed r (run leavePhases.step ⟨s, []⟩ (before ++ turn :: after)) := by
    rw [run_append, run_cons]
    have arrives := (along_append.mp h.arrives).2
    exact (run_invariant (I := fun a => Leaving s.2.toTables a ∧ Doomed r a)
      (fun a turn kept met => ⟨kept.1.step met, kept.2.step kept.1 turn⟩)
      ⟨l.step arrives.1, doomed⟩ arrives.2).2
  have pending {k : Id × Id} {f : LeavePhase}
      (there : (k, f) ∈ (run leavePhases.step ⟨s, []⟩ (before ++ turn :: after)).members) :
      ¬ f.closing = true := by
    intro closing
    obtain ⟨t, inside, _, rest⟩ := shown.thread there
    exact closing_pending closing (rest ▸ quiet t inside)
  rcases final with failed | ⟨_, ⟨j, g, _, _, _, there, _, _, _, closing, _⟩ |
    ⟨_, j, g, there, _, closing⟩⟩
  · obtain ⟨t, inside, e, fails⟩ := (failed_iff shown).mpr failed
    exact fine t inside e fails
  · exact pending there closing
  · exact pending there closing

/-- As long as nobody removes the last member while another leave of the room is yet to count,
leaving does what it is to do; and of a run that has ended nothing less is true. -/
theorem leaves_right_iff (scheduled : LeaveSchedule s turns) :
    (Along leaveService.step (Service.OnCalls CountsFirst) (Pool.idle s) turns →
      LeavesRight s turns) ∧
    (Service.Quiet (run leaveService.step (Pool.idle s) turns) → LeavesRight s turns →
      Along leaveService.step (Service.OnCalls CountsFirst) (Pool.idle s) turns) := by
  refine ⟨fun met => ⟨?_, ?_, ?_⟩, fun quiet right => ?_⟩
  · intro p seen t inside e fails
    obtain ⟨before, after, rfl, rfl⟩ := visited_split leaveService.step seen
    have unhurried := (along_append.mp (countsFirst_iff.mp met)).1
    obtain ⟨k, e', there⟩ := (failed_iff (shown_leaves s before)).mp ⟨t, inside, e, fails⟩
    exact (oneCloser_run scheduled.firstPart unhurried).fine k e' there
  · exact fun before turn after split r stored deleted u => scheduled.kept split stored deleted u
  · intro p seen quiet r started left
    obtain ⟨before, after, rfl, rfl⟩ := visited_split leaveService.step seen
    obtain ⟨u, started⟩ := started
    have gone := scheduled.firstPart.gone quiet started left
    refine ⟨gone, fun m row there room => ?_, fun k d there room => ?_⟩
    · have stored := Messages.Linked.member (Messages.Chat.linked _) m row there
      rw [room, gone] at stored
      cases stored
    · have stored := Messages.Linked.message (Messages.Chat.linked _) k d there
      rw [room, gone] at stored
      cases stored
  · exact countsFirst_iff.mpr (scheduled.unhurried quiet (right.succeed _
      (run_mem_visited _ _ _)))

end

/-- The room that bob has asked for. -/
def lampRoom : MessagesStore := run messagesService.sequential (market, Messages.noChat) [bobAsks]

def bobLeaves : Id × Id := ("room", "bob")
def annLeaves : Id × Id := ("room", "ann")

theorem leaves_right_one_by_one :
    LeavesRight lampRoom ([.arrive bobLeaves] ++ List.replicate 3 (.call 0) ++
      [.arrive annLeaves] ++ List.replicate 4 (.call 1)) :=
  (leaves_right_iff ⟨by decide, by decide⟩).1 (by decide)

def bobAndAnnLeave : List (Turn (Id × Id)) :=
  [.arrive bobLeaves, .arrive annLeaves] ++
    (List.replicate 4 [Turn.call 0, Turn.call 1]).flatten

/-- Both remove their member before either counts; both find the room empty, and the second
cannot delete what the first has deleted. -/
theorem both_leave_last : LeaveSchedule lampRoom bobAndAnnLeave ∧ ¬ LeavesRight lampRoom bobAndAnnLeave := by
  refine ⟨⟨by decide, by decide⟩, fun right => ?_⟩
  have second : ((run leaveService.step (Pool.idle lampRoom) bobAndAnnLeave).threads[1]?).map (·.rest) =
      some (.fail (.database .recordNotFound)) := rfl
  obtain ⟨t, ht, fails⟩ := Option.map_eq_some_iff.mp second
  exact right.succeed _ (run_mem_visited _ _ _) t (List.mem_of_getElem? ht) _ fails

end SecondhandApi
