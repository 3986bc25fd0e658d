import SecondhandApi.Lifecycle
import SecondhandApi.Obligations

/-! The timestamps of an order and the statuses it has had. `updateStatus` is the one
writer that notes the time, so this module says when the timestamps tell the history in
spite of the others: the PATCH and the sweep of a withdrawal. -/
namespace SecondhandApi
open Keyed Interleaving

inductive Stamp where
  | paidAt | completedAt | confirmedAt | cancelledAt

def Stamp.date : Stamp → Order → Option Date
  | .paidAt, order => order.paidAt
  | .completedAt, order => order.completedAt
  | .confirmedAt, order => order.confirmedAt
  | .cancelledAt, order => order.cancelledAt

/-- The statuses that a timestamp stands for. -/
def Stamp.marks : Stamp → OrderStatus → Bool
  | .paidAt, s => s = .paid
  | .completedAt, s => s = .delivered
  | .confirmedAt, s => s = .confirmed
  | .cancelledAt, s => s = .cancelled || s = .refunded

/-- Among these states the order has had a status that the timestamp stands for. -/
def Reached (past : List Requests) (o : Id) (stamp : Stamp) : Prop :=
  ∃ p ∈ past, ∃ s, statusOf o p.store = some s ∧ stamp.marks s = true

/-- The timestamps of the stored orders tell which statuses they have reached. -/
def TellsHistory (past : List Requests) (p : Requests) : Prop :=
  ∀ o order, p.store.orders.find? o = some order → ∀ stamp,
    ((stamp.date order).isSome = true ↔ Reached past o stamp)

/-- A PATCH that the database accepts writes a status only onto an order that has its
timestamp already, and so does a withdrawal that cancels. -/
def Stamped (p : Requests) (t : Running) (c : Call) : Prop :=
  Accepted p.store c → match t.op, c with
    | .ordersUpdate .., .orderUpdate id data => ∀ stored s (stamp : Stamp),
      p.store.orders.find? id = some stored → data.status = .value s →
        stamp.marks s = true → (stamp.date stored).isSome = true
    | .usersRemove u, .userSoftDelete _ => ∀ o order, p.store.orders.find? o = some order →
      (order.sellerId = u ∨ order.buyerId = u) →
      (order.status = .pending ∨ order.status = .paymentPending) →
        order.cancelledAt.isSome = true
    | _, _ => True

/-- What a write adds to the timestamps: those of the status it leaves the order in. -/
def Notes (old new : Order) : Prop :=
  ∀ stamp : Stamp, (stamp.date new).isSome = true ↔
    (stamp.date old).isSome = true ∨ stamp.marks new.status = true

section
variable {old new : Order} {stamp : Stamp}

theorem marks_cancelled (h : stamp.marks .cancelled = true) : stamp = .cancelledAt := by
  cases stamp <;> first
    | rfl
    | cases h

theorem not_marks_pending : stamp.marks .pending = false := by
  cases stamp <;> rfl

/-- `updateStatus` notes the status it writes. -/
theorem statusData_notes {status : OrderStatus} {now : Date}
    (made : (OrdersRepository.statusData status now).apply old = some new) : Notes old new := by
  have written : new.status = status := by
    have asked := OrderUpdateInput.apply_status made
    cases status <;> exact (Option.some.inj asked).symm
  obtain ⟨paid, confirmed, completed, cancelled⟩ := OrderUpdateInput.apply_dates made
  intro stamp
  rw [written]
  cases stamp <;> cases status <;>
    simp [Stamp.date, Stamp.marks, OrdersRepository.statusData, paid, confirmed, completed,
      cancelled]

theorem patch_dates {dto : UpdateOrderDto} (made : dto.toInput.apply old = some new)
    (stamp : Stamp) : stamp.date new = stamp.date old := by
  obtain ⟨paid, confirmed, completed, cancelled⟩ := OrderUpdateInput.apply_dates made
  cases stamp <;> assumption

/-- A PATCH keeps the timestamps, so it notes its status if that was noted before. -/
theorem patch_notes {dto : UpdateOrderDto} (made : dto.toInput.apply old = some new)
    (noted : ∀ stamp : Stamp, stamp.marks new.status = true → (stamp.date old).isSome = true) :
    Notes old new := by
  intro stamp
  rw [patch_dates made]
  exact ⟨Or.inl, fun either => either.elim (fun some => some) (noted stamp)⟩

end

/-- An order that nobody touches notes nothing new, if its status was noted before. -/
theorem Notes.refl {order : Order}
    (noted : ∀ stamp : Stamp, stamp.marks order.status = true → (stamp.date order).isSome = true) :
    Notes order order :=
  fun stamp => ⟨Or.inl, fun either => either.elim (fun some => some) (noted stamp)⟩

/-- What the timestamps of the stored orders have to tell about the present. -/
def Noted (db : Db) : Prop := ∀ o order, db.orders.find? o = some order →
  ∀ stamp : Stamp, stamp.marks order.status = true → (stamp.date order).isSome = true

section
variable {p : Requests} {turn : Turn Op}

/-- An order after a turn that kept to the condition: just made and without timestamps, or
noted. -/
theorem noted_turn (h : Dutiful Op.inFlow p) (ok : Service.OnCalls Stamped p turn)
    (noted : Noted p.store) {o : Id} {new : Order}
    (there : (service.step p turn).store.orders.find? o = some new) :
    (p.store.orders.find? o = none ∧ new.status = .pending ∧ ∀ stamp : Stamp, stamp.date new = none) ∨
      ∃ old, p.store.orders.find? o = some old ∧ Notes old new := by
  cases order_turn h turn with
  | same orders =>
    rw [orders] at there
    exact Or.inr ⟨new, there, .refl (noted o new there)⟩
  | made here owed a fresh orders =>
    rw [orders] at there
    rcases Table.find?_insert_cases there with before | ⟨rfl, rfl⟩
    · exact Or.inr ⟨new, before, .refl (noted o new before)⟩
    · refine Or.inl ⟨fresh, rfl, fun stamp => ?_⟩
      cases stamp <;> rfl
  | @set i op log id data next t' old row here owed a found made orders =>
    rw [orders] at there
    rcases Table.find?_set_cases there with before | ⟨rfl, rfl⟩
    · exact Or.inr ⟨new, before, .refl (noted o new before)⟩
    · refine Or.inr ⟨old, found, ?_⟩
      have allowed := a.allowed ok a.accepted
      cases owed with
      | updateWrites order party valid =>
        refine patch_notes made (fun stamp marks => ?_)
        rcases Field.required_eq_some (OrderUpdateInput.apply_status made) with ⟨same, _⟩ | asked
        · rw [same] at marks
          exact noted _ old found stamp marks
        · exact allowed old new.status stamp found asked marks
      | cancelWrites order buyer cancellable => exact statusData_notes made
      | confirmWrites order buyer delivered => exact statusData_notes made
  | @swept i op log id next t' user here owed a orders =>
    rw [orders, Table.find?_modifyAll] at there
    obtain ⟨old, found, rfl⟩ := Option.map_eq_some_iff.mp there
    refine Or.inr ⟨old, found, ?_⟩
    have allowed := a.allowed ok a.accepted
    cases owed with
    | withdrawWrites =>
      unfold Prisma.cancelUnpaid
      split
      · rename_i both
        have set := allowed o old found both.1 both.2
        intro stamp
        refine ⟨fun some => Or.inl (by cases stamp <;> exact some), ?_⟩
        rintro (some | marks)
        · cases stamp <;> exact some
        · rw [marks_cancelled marks]
          exact set
      · exact .refl (noted o old found)

/-- No order of the flow is deleted. -/
theorem order_stays_turn (h : Dutiful Op.inFlow p) {o : Id}
    (gone : (service.step p turn).store.orders.find? o = none) :
    p.store.orders.find? o = none := by
  cases order_turn h turn with
  | same orders => rwa [orders] at gone
  | made here owed a fresh orders =>
    rw [orders, ← Table.not_has_iff] at gone
    rw [← Table.not_has_iff]
    exact fun has => gone (Table.has_insert has _ _)
  | set here owed a found made orders =>
    rw [orders, ← Table.not_has_iff, Table.has_set] at gone
    rwa [← Table.not_has_iff]
  | swept here owed a orders =>
    rw [orders, Table.find?_modifyAll] at gone
    exact Option.map_eq_none_iff.mp gone

theorem reached_snoc {past : List Requests} {p' : Requests} {o : Id} {new : Order} {stamp : Stamp}
    (there : p'.store.orders.find? o = some new) :
    Reached (past ++ [p']) o stamp ↔ Reached past o stamp ∨ stamp.marks new.status = true := by
  have now := statusOf_found there
  constructor
  · rintro ⟨q, member, s, was, marks⟩
    rcases List.mem_append.mp member with before | last
    · exact Or.inl ⟨q, before, s, was, marks⟩
    · rw [List.mem_singleton.mp last] at was
      cases was.symm.trans now
      exact Or.inr marks
  · rintro (⟨q, member, before⟩ | marks)
    · exact ⟨q, List.mem_append_left _ member, before⟩
    · exact ⟨p', List.mem_append_right _ (List.mem_singleton_self p'), _, now, marks⟩

/-- The states visited so far and what the orders tell about them. -/
structure Told (past : List Requests) (p : Requests) : Prop where
  dutiful : Dutiful Op.inFlow p
  visited : p ∈ past
  tells : TellsHistory past p
  absent : ∀ o, p.store.orders.find? o = none → ∀ q ∈ past, statusOf o q.store = none

theorem Told.noted {past : List Requests} (h : Told past p) : Noted p.store := by
  intro o order found stamp marks
  exact (h.tells o order found stamp).mpr
    ⟨p, h.visited, order.status, statusOf_found found, marks⟩

theorem Told.after_turn {past : List Requests} (h : Told past p)
    (arrives : ∀ op, turn = .arrive op → op.inFlow = true) (ok : Service.OnCalls Stamped p turn) :
    Told (past ++ [service.step p turn]) (service.step p turn) := by
  refine ⟨dutiful_step (fun _ here => here) p turn h.dutiful arrives,
    List.mem_append_right _ (List.mem_singleton_self _), ?_, ?_⟩
  · intro o new there stamp
    rw [reached_snoc there]
    rcases noted_turn h.dutiful ok h.noted there with ⟨fresh, pending, none⟩ | ⟨old, found, notes⟩
    · rw [none stamp, pending, not_marks_pending]
      refine ⟨fun some => (by cases some), ?_⟩
      rintro (⟨q, member, s, was, _⟩ | marks)
      · cases (h.absent o fresh q member).symm.trans was
      · cases marks
    · rw [notes stamp, h.tells o old found stamp]
  · intro o gone q member
    rcases List.mem_append.mp member with before | last
    · exact h.absent o (order_stays_turn h.dutiful gone) q before
    · rw [List.mem_singleton.mp last]
      exact statusOf_missing gone

/-- A write that does not keep to the condition leaves an order without its timestamp. -/
theorem stamped_of_tells {past : List Requests} (h : Dutiful Op.inFlow p)
    (member : service.step p turn ∈ past) (tells : TellsHistory past (service.step p turn)) :
    Service.OnCalls Stamped p turn := by
  have noted {o : Id} {new : Order} {stamp : Stamp}
      (there : (service.step p turn).store.orders.find? o = some new)
      (marks : stamp.marks new.status = true) : (stamp.date new).isSome = true := by
    exact (tells o new there stamp).mpr ⟨_, member, new.status, statusOf_found there, marks⟩
  cases turn with
  | arrive op => trivial
  | call i =>
    intro t c ht pending ok
    obtain ⟨next, r, t', a⟩ := answered_of_accepted ht pending ok
    obtain ⟨_, owed⟩ := dutiful_pending h a.thread rfl
    have after := a.store
    have effect := a.effect
    obtain ⟨op, log, rest⟩ := t
    cases owed with
    | @updateWrites id userId dto order party valid =>
      intro stored s stamp found asked marks
      cases effect with
      | read r reads => cases reads
      | orderSet old new there made =>
        cases found.symm.trans there
        have now : (service.step p (.call i)).store.orders.find? id = some r := by
          rw [after]
          exact Table.find?_set_self there _
        have written := OrderUpdateInput.apply_status made
        rw [asked] at written
        rw [← patch_dates made stamp]
        exact noted now (Option.some.inj written ▸ marks)
    | withdrawWrites =>
      intro o order found party unpaid
      cases effect with
      | read r reads => cases reads
      | userWithdrawn user there =>
        have swept : Prisma.cancelUnpaid _ order = { order with status := .cancelled } :=
          if_pos ⟨party, unpaid⟩
        have now : (service.step p (.call i)).store.orders.find? o =
            some { order with status := .cancelled } := by
          rw [after, Prisma.orders_withdrawn, found, Option.map_some, swept]
        have set : (Stamp.cancelledAt.date { order with status := .cancelled }).isSome = true :=
          noted now rfl
        exact set
    | _ => trivial

end

/-- From a database without orders, in every interleaving, the timestamps tell the history in
every state reached exactly as long as every PATCH and withdrawal keeps to the condition. -/
theorem timestamps_iff (db : Db) (start : ∀ o, db.orders.find? o = none) (turns : List (Turn Op))
    (scope : ∀ turn ∈ turns, ∀ op, turn = .arrive op → op.inFlow = true) :
    (∀ before after, turns = before ++ after →
      TellsHistory (visited service.step db.idle before) (run service.step db.idle before)) ↔
    Along service.step (Service.OnCalls Stamped) db.idle turns := by
  have arrivals : Along service.step
      (fun _ turn => ∀ op, turn = .arrive op → op.inFlow = true) db.idle turns :=
    along_of_forall scope
  constructor
  · intro tells
    refine along_iff_at.mpr (fun before turn after split => ?_)
    subst split
    have dutiful : Dutiful Op.inFlow (run service.step db.idle before) :=
      run_invariant (fun p turn h arrives => dutiful_step (fun _ here => here) p turn h arrives)
        (dutiful_idle db) (along_append.mp arrivals).1
    have next := tells (before ++ [turn]) after (by rw [List.append_assoc]; rfl)
    rw [run_append] at next
    exact stamped_of_tells dutiful (last_mem_visited service.step db.idle before turn) next
  · rintro ok before after rfl
    have both := (along_append.mp arrivals).1.and (along_append.mp ok).1
    refine (history_invariant (I := Told) (fun past p turn h both => h.after_turn both.1 both.2)
      ?_ both).tells
    refine ⟨dutiful_idle db, List.mem_singleton_self _, ?_, ?_⟩
    · intro o order found
      cases (start o).symm.trans found
    · intro o _ q member
      rw [List.mem_singleton.mp member]
      exact statusOf_missing (start o)

/-- Bob orders the lamp and cancels. -/
def orderAndCancel : List (Turn Op) := [.arrive (.ordersCreate "bob" lampOrder (newOrder 1)),
  .call 0, .call 0, .call 0, .call 0, .arrive (.ordersCancel "order-1" "bob" 5),
  .call 1, .call 1, .call 1]

theorem timestamps_tell_cancelling :
    Along service.step (Service.OnCalls Stamped) market.idle orderAndCancel ∧
      ∀ before after, orderAndCancel = before ++ after →
        TellsHistory (visited service.step market.idle before)
          (run service.step market.idle before) := by
  have ok : Along service.step (Service.OnCalls Stamped) market.idle orderAndCancel := by
    refine ⟨trivial, ?_, ?_, ?_, ?_, trivial, ?_, ?_, ?_, trivial⟩ <;>
      intro t c ht pending <;> cases ht <;> cases pending <;> exact fun _ => trivial
  exact ⟨ok, (timestamps_iff market (fun _ => rfl) orderAndCancel
    (by simp [orderAndCancel, Op.inFlow])).mpr ok⟩

theorem not_tells_unpaid {past : List Requests} {p : Requests} {o : Id} (member : p ∈ past)
    (paid : (p.store.orders.find? o).map (fun order => (order.status, order.paidAt)) =
      some (.paid, none)) : ¬ TellsHistory past p := by
  intro tells
  obtain ⟨order, found, both⟩ := Option.map_eq_some_iff.mp paid
  have status : order.status = .paid := congrArg Prod.fst both
  have date : order.paidAt = none := congrArg Prod.snd both
  have reached : Reached past o .paidAt :=
    ⟨p, member, .paid, (statusOf_found found).trans (congrArg some status), rfl⟩
  have set := (tells o order found .paidAt).mpr reached
  rw [Stamp.date, date] at set
  cases set

/-- Bob orders the lamp and pays, by PATCH: the order is PAID without `paidAt`. -/
theorem paid_without_paidAt :
    ¬ ∀ (db : Db) (turns : List (Turn Op)), (∀ o, db.orders.find? o = none) →
      (∀ turn ∈ turns, ∀ op, turn = .arrive op → op.inFlow = true) →
      TellsHistory (visited service.step db.idle turns) (run service.step db.idle turns) := by
  intro always
  let turns : List (Turn Op) := [.arrive (.ordersCreate "bob" lampOrder (newOrder 1)),
    .call 0, .call 0, .call 0, .call 0,
    .arrive (.ordersUpdate "order-1" "bob" { status := .value .paymentPending }), .call 1, .call 1,
    .arrive (.ordersUpdate "order-1" "bob" { status := .value .paid }), .call 2, .call 2]
  exact not_tells_unpaid (o := "order-1") (run_mem_visited _ _ _) (by decide +kernel)
    (always market turns (fun _ => rfl) (by simp [turns, Op.inFlow]))

end SecondhandApi
