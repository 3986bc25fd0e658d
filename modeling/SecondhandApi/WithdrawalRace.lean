import SecondhandApi.LiveOrders
import SecondhandApi.Obligations

/-! A withdrawal among orders and payments of the same user. The check for ongoing orders
is made before the transaction, and the other requests never look at the account, so
this module says when a withdrawal that has succeeded leaves no live order. -/
namespace SecondhandApi
open Keyed Interleaving

def Op.racesWithdrawal : Op → Bool
  | .ordersCreate .. | .ordersUpdate .. | .usersRemove .. => true
  | _ => false

def Order.involves (order : Order) (u : Id) : Prop := order.sellerId = u ∨ order.buyerId = u

theorem Order.involves_congr {old new : Order} {u : Id} (buyer : new.buyerId = old.buyerId)
    (seller : new.sellerId = old.sellerId) : new.involves u ↔ old.involves u := by
  rw [Order.involves, Order.involves, buyer, seller]

/-- No order of `u` is live. -/
def NoneLeft (t : Tables) (u : Id) : Prop :=
  ∀ o order, t.orders.find? o = some order → order.involves u → order.status.live = false

/-- A withdrawal of `u` has succeeded. -/
def Removed (p : Requests) (u : Id) : Prop :=
  ∃ t ∈ p.threads, t.op = .usersRemove u ∧ ∃ r, t.rest = .done r

/-- The transaction runs while what its check has read still tells whether an order is under way,
and no order of a withdrawn user is made or brought back into a live status. -/
def Careful (p : Requests) (t : Running) (c : Call) : Prop :=
  Accepted p.store c → match c with
    | .userSoftDelete u => ∀ statuses, ⟨.orderFindMany u, .ok statuses⟩ ∈ t.log →
      underWay statuses = ongoing p.store.toTables u
    | .orderCreate _ _ data => ¬ Removed p data.buyer ∧ ¬ Removed p data.seller
    | .orderUpdate id data => ∀ s stored, data.status = .value s → s.live = true →
      p.store.orders.find? id = some stored →
        ¬ Removed p stored.buyerId ∧ ¬ Removed p stored.sellerId
    | _ => True

theorem racesWithdrawal_flow (op : Op) (h : op.racesWithdrawal = true) : op.inFlow = true := by
  cases op <;> first
    | rfl
    | cases h

section
variable {p : Requests} {turn : Turn Op} {i : Nat} {op : Op} {log : Log} {c : Call}
  {next : c.Reply → Req Response} {reply : c.Reply} {t' : Tables} {u : Id} {scope : Op → Bool}

/-- A withdrawal ends with its transaction, and only then. -/
theorem done_iff_removed (h : Dutiful scope (service.step p turn))
    (a : Answered p turn i (.usersRemove u) log c next reply t') :
    (∃ r, next reply = .done r) ↔
      ∃ user : User, (⟨c, reply⟩ : Answer Call Call.Reply) = ⟨.userSoftDelete u, .ok user⟩ := by
  have obeys := h _ a.newest
  simp only at obeys
  constructor
  · rintro ⟨r, done⟩
    rw [done] at obeys
    cases obeys with
    | withdrawn user log => exact ⟨user, rfl⟩
  · rintro ⟨user, same⟩
    cases same
    cases rest : next (.ok user) with
    | done r => exact ⟨r, rfl⟩
    | fail e =>
      rw [rest] at obeys
      cases obeys with
      | withdrawRefused unmade => exact absurd rfl (unmade user log)
    | call c next =>
      rw [rest] at obeys
      cases obeys.1.2

/-- A withdrawal that has succeeded by this turn had before, or its transaction was the turn. -/
theorem removed_turn (h : Dutiful scope p) (after : Dutiful scope (service.step p turn))
    (removed : Removed (service.step p turn) u) : Removed p u ∨
      ∃ i log next t', ∃ user : User, Answered p turn i (.usersRemove u) log (.userSoftDelete u) next
        (.ok user) t' := by
  rcases turn_cases h turn with hs | ⟨op, _, hs⟩ | ⟨i, op, log, c, next, reply, t', _, _, a⟩
  · rw [hs] at removed
    exact Or.inl removed
  · rw [hs] at removed
    obtain ⟨t, member, is, r, done⟩ := removed
    rcases List.mem_append.mp member with before | new
    · exact Or.inl ⟨t, before, is, r, done⟩
    · rw [List.mem_singleton.mp new] at is done
      cases is
      cases done
  · obtain ⟨t, member, is, done⟩ := removed
    rw [a.threads] at member
    rcases List.mem_or_eq_of_mem_set member with before | rfl
    · exact Or.inl ⟨t, before, is, done⟩
    · have made : op = .usersRemove u := is
      subst made
      obtain ⟨user, same⟩ := (done_iff_removed after a).mp done
      cases same
      exact Or.inr ⟨i, log, next, t', user, a⟩

/-- A withdrawal that has succeeded stays so. -/
theorem still_removed (h : Dutiful scope p) (removed : Removed p u) :
    Removed (service.step p turn) u := by
  obtain ⟨t, member, is, r, done⟩ := removed
  rcases turn_cases h turn with hs | ⟨op, _, hs⟩ | ⟨i, op, log, c, next, reply, t', _, _, a⟩
  · rw [hs]
    exact ⟨t, member, is, r, done⟩
  · rw [hs]
    exact ⟨t, List.mem_append_left _ member, is, r, done⟩
  · refine ⟨t, ?_, is, r, done⟩
    rw [a.threads]
    refine Service.mem_set_of_ne member a.thread ?_ _
    rintro rfl
    cases done

/-- The transaction of a withdrawal in time leaves no live order of the user. -/
theorem noneLeft_withdrawn {t : Tables} {user : User} (free : ongoing t u = false) :
    NoneLeft (Prisma.withdrawn t u user) u := by
  intro o order there involved
  rw [Prisma.orders_withdrawn] at there
  obtain ⟨old, found, rfl⟩ := Option.map_eq_some_iff.mp there
  obtain ⟨buyer, seller, _⟩ := Prisma.cancelUnpaid_keeps u old
  have party := (Order.involves_congr buyer seller).mp involved
  obtain ⟨notPaid, notShipping, notDelivered⟩ := not_ongoing free found party
  unfold Prisma.cancelUnpaid
  split
  · rfl
  · rename_i paid
    have notUnpaid : ¬ (old.status = .pending ∨ old.status = .paymentPending) :=
      fun unpaid => paid ⟨party, unpaid⟩
    revert notPaid notShipping notDelivered notUnpaid
    cases old.status <;> simp [OrderStatus.live]

/-- An ongoing order is still live after the transaction. -/
theorem free_of_noneLeft {t : Tables} {user : User}
    (none : NoneLeft (Prisma.withdrawn t u user) u) : ongoing t u = false := by
  by_contra busy
  obtain ⟨o, order, there, both⟩ := Table.any_iff.mp (Bool.eq_true_of_not_eq_false busy)
  simp only [Bool.and_eq_true, Bool.or_eq_true, decide_eq_true_eq] at both
  obtain ⟨involved, status⟩ := both
  have idle : Prisma.cancelUnpaid u order = order :=
    Prisma.cancelUnpaid_idle (fun _ => by rcases status with (h | h) | h <;> simp [h])
  have still : (Prisma.withdrawn t u user).orders.find? o = some order := by
    rw [Prisma.orders_withdrawn, there, Option.map_some, idle]
  have dead := none o order still involved
  rcases status with (h | h) | h <;> rw [h] at dead <;> cases dead

/-- A turn that keeps to the condition brings back no order of a user who had withdrawn. -/
theorem noneLeft_before (h : Dutiful scope p) (ok : Service.OnCalls Careful p turn)
    (before : Removed p u) (gone : NoneLeft p.store.toTables u) :
    NoneLeft (service.step p turn).store.toTables u := by
  cases order_turn h turn with
  | same orders =>
    intro o order there involved
    rw [orders] at there
    exact gone o order there involved
  | @made i op log id now data next fee t' here owed a fresh orders =>
    intro o order there involved
    rw [orders] at there
    rcases Table.find?_insert_cases there with found | ⟨rfl, rfl⟩
    · exact gone o order found involved
    · obtain ⟨buyer, seller⟩ := a.allowed ok a.accepted
      rcases involved with (is : data.seller = u) | (is : data.buyer = u)
      · exact absurd (is ▸ before) seller
      · exact absurd (is ▸ before) buyer
  | @set i op log id data next t' old new here owed a found made orders =>
    intro o order there involved
    rw [orders] at there
    rcases Table.find?_set_cases there with same | ⟨rfl, rfl⟩
    · exact gone o order same involved
    · obtain ⟨buyerSame, sellerSame, _⟩ := OrderUpdateInput.apply_keeps made
      have party := (Order.involves_congr buyerSame sellerSame).mp involved
      rcases Field.required_eq_some (OrderUpdateInput.apply_status made) with ⟨same, _⟩ | asked
      · rw [same]
        exact gone o old found party
      · by_contra live
        obtain ⟨buyer, seller⟩ := a.allowed ok a.accepted order.status old asked
          (by simpa using live) found
        rcases party with is | is
        · exact seller (is ▸ before)
        · exact buyer (is ▸ before)
  | swept here owed a orders =>
    intro o order there involved
    rw [orders, Table.find?_modifyAll] at there
    obtain ⟨old, found, rfl⟩ := Option.map_eq_some_iff.mp there
    obtain ⟨buyer, seller, _⟩ := Prisma.cancelUnpaid_keeps _ old
    have dead := gone o old found ((Order.involves_congr buyer seller).mp involved)
    by_contra alive
    cases dead.symm.trans (live_of_cancelUnpaid (Bool.eq_true_of_not_eq_false alive))

/-- What a turn that kept to the condition leaves of the orders of withdrawn users. -/
theorem noneLeft_turn (h : Dutiful scope p) (after : Dutiful scope (service.step p turn))
    (ok : Service.OnCalls Careful p turn)
    (none : ∀ u, Removed p u → NoneLeft p.store.toTables u)
    (removed : Removed (service.step p turn) u) :
    NoneLeft (service.step p turn).store.toTables u := by
  rcases removed_turn h after removed with before | ⟨i, log, next, t', user, a⟩
  · exact noneLeft_before h ok before (none u before)
  · have free : ongoing p.store.toTables u = false := by
      have still := a.allowed ok a.accepted
      obtain ⟨_, owed⟩ := dutiful_pending h a.thread rfl
      cases owed with
      | withdrawWrites row statuses unchecked =>
        exact (still statuses List.mem_cons_self).symm.trans unchecked
    have effect := a.effect
    rw [a.store]
    cases effect with
    | read r reads => cases reads
    | userWithdrawn row found => exact noneLeft_withdrawn free

/-- The first step that does not keep to the condition leaves a live order of a withdrawn
user. -/
theorem careful_of_noneLeft (h : Dutiful scope p) (after : Dutiful scope (service.step p turn))
    (none : ∀ u, Removed (service.step p turn) u →
      NoneLeft (service.step p turn).store.toTables u) : Service.OnCalls Careful p turn := by
  cases turn with
  | arrive op => trivial
  | call i =>
    intro t c ht pending ok
    obtain ⟨next, r, t', a⟩ := answered_of_accepted ht pending ok
    obtain ⟨_, owed⟩ := dutiful_pending h a.thread rfl
    have store := a.store
    have effect := a.effect
    obtain ⟨op, log, rest⟩ := t
    cases effect with
    | read r reads => cases c <;> trivial
    | @userWithdrawn u user found =>
      cases owed with
      | withdrawWrites row statuses unchecked =>
        have removed : Removed (service.step p (.call i)) u :=
          ⟨_, a.newest, rfl, (done_iff_removed after a).mpr ⟨_, rfl⟩⟩
        have left := none u removed
        rw [store] at left
        intro others read
        have same : (Except.ok others : Call.Reply (.orderFindMany u)) = .ok statuses := by
          simpa using read
        cases same
        exact unchecked.trans (free_of_noneLeft left).symm
    | @orderMade id now data fee fresh =>
      have there : (service.step p (.call i)).store.orders.find? id = some (data.row fee now) := by
        rw [store]
        exact Table.find?_insert_self fresh _
      refine ⟨fun removed => ?_, fun removed => ?_⟩
      · cases none data.buyer (still_removed h removed) id _ there (Or.inr rfl)
      · cases none data.seller (still_removed h removed) id _ there (Or.inl rfl)
    | @orderSet id data old new found made =>
      intro s stored asked live there
      cases found.symm.trans there
      have now : (service.step p (.call i)).store.orders.find? id = some new := by
        rw [store]
        exact Table.find?_set_self found _
      have alive : new.status.live = true := by
        have written := OrderUpdateInput.apply_status made
        rw [asked] at written
        exact Option.some.inj written ▸ live
      obtain ⟨buyer, seller, _⟩ := OrderUpdateInput.apply_keeps made
      refine ⟨fun removed => ?_, fun removed => ?_⟩
      · cases alive.symm.trans (none _ (still_removed h removed) id new now (Or.inr buyer))
      · cases alive.symm.trans (none _ (still_removed h removed) id new now (Or.inl seller))
    | _ => trivial

end

/-- In every interleaving a withdrawal that has succeeded leaves no live order of its user,
in every state reached, exactly as long as every step keeps to the condition. -/
theorem withdrawals_leave_none_iff (db : Db) (turns : List (Turn Op))
    (scope : ∀ turn ∈ turns, ∀ op, turn = .arrive op → op.racesWithdrawal = true) :
    (∀ p ∈ visited service.step db.idle turns, ∀ u, Removed p u → NoneLeft p.store.toTables u) ↔
    Along service.step (Service.OnCalls Careful) db.idle turns := by
  have dutiful := fun p turn (h : Dutiful Op.racesWithdrawal p)
      (arrives : ∀ op, turn = .arrive op → op.racesWithdrawal = true) =>
    dutiful_step racesWithdrawal_flow p turn h arrives
  refine always_iff_along (I := fun p => Dutiful Op.racesWithdrawal p ∧
    ∀ u, Removed p u → NoneLeft p.store.toTables u) ?_ (fun p both => both.2) ?_ ?_ scope
  · intro p turn both arrives ok
    have after := dutiful p turn both.1 arrives
    exact ⟨after, fun u => noneLeft_turn both.1 after ok both.2⟩
  · intro p turn both arrives careless none
    exact careless (careful_of_noneLeft both.1 (dutiful p turn both.1 arrives) none)
  · exact ⟨dutiful_idle db, fun u ⟨t, member, _⟩ => by cases member⟩

theorem removed_iff {p : Requests} {u : Id} : Removed p u ↔
    p.threads.any (fun t => match t.op, t.rest with
      | .usersRemove id, .done _ => id = u
      | _, _ => false) = true := by
  rw [List.any_eq_true]
  constructor
  · rintro ⟨⟨op, log, rest⟩, member, is, r, done⟩
    cases is
    cases done
    exact ⟨_, member, decide_eq_true rfl⟩
  · rintro ⟨⟨op, log, rest⟩, member, both⟩
    cases op with
    | usersRemove id =>
      cases rest with
      | done r => exact ⟨_, member, congrArg Op.usersRemove (of_decide_eq_true both), r, rfl⟩
      | fail e => cases both
      | call c next => cases both
    | _ => cases both

instance (p : Requests) (u : Id) : Decidable (Removed p u) := decidable_of_iff _ removed_iff.symm

theorem still_of_all {log : Log} {t : Tables} {u : Id} (h : log.all (fun a => match a with
    | ⟨.orderFindMany _, .ok statuses⟩ => underWay statuses = ongoing t u
    | _ => true) = true) (statuses : List OrderStatus)
    (read : ⟨.orderFindMany u, .ok statuses⟩ ∈ log) : underWay statuses = ongoing t u :=
  of_decide_eq_true (List.all_eq_true.mp h _ read)

/-- Bob withdraws, and goes on to pay for an order between the check and the transaction. -/
def payThenRemove : List (Turn Op) := [.arrive (.ordersCreate "bob" lampOrder (newOrder 1)),
  .call 0, .call 0, .call 0, .call 0, .arrive (.usersRemove "bob"), .call 1, .call 1,
  .arrive (.ordersUpdate "order-1" "bob" { status := .value .paymentPending }), .call 2, .call 2,
  .call 1]

theorem withdrawal_among_payments :
    Along service.step (Service.OnCalls Careful) market.idle payThenRemove ∧
      ∀ p ∈ visited service.step market.idle payThenRemove,
        ∀ u, Removed p u → NoneLeft p.store.toTables u := by
  have ok : Along service.step (Service.OnCalls Careful) market.idle payThenRemove := by
    refine ⟨trivial, ?_, ?_, ?_, ?_, trivial, ?_, ?_, trivial, ?_, ?_, ?_, trivial⟩ <;>
      intro t c ht pending <;> cases ht <;> cases pending <;> intro _
    · trivial
    · trivial
    · exact ⟨by decide +kernel, by decide +kernel⟩
    · trivial
    · trivial
    · trivial
    · trivial
    · intro s stored _ _ found
      have parties : (stored.buyerId, stored.sellerId) = ("bob", "ann") := by
        have there := congrArg (Option.map fun o : Order => (o.buyerId, o.sellerId)) found
        exact Option.some.inj (there.symm.trans (by decide +kernel))
      obtain ⟨buyer, seller⟩ := Prod.mk.inj parties
      rw [buyer, seller]
      exact ⟨by decide +kernel, by decide +kernel⟩
    · exact still_of_all (by decide +kernel)
  exact ⟨ok, (withdrawals_leave_none_iff market payThenRemove
    (by simp [payThenRemove, Op.racesWithdrawal])).mpr ok⟩

/- The same facts as tests, for runs that are written out. -/

theorem not_noneLeft {t : Tables} {u o : Id}
    (h : (t.orders.find? o).map (fun order => (order.buyerId, order.status.live)) =
      some (u, true)) : ¬ NoneLeft t u := by
  intro none
  obtain ⟨order, found, both⟩ := Option.map_eq_some_iff.mp h
  have alive : order.status.live = true := congrArg Prod.snd both
  cases alive.symm.trans (none o order found (Or.inr (congrArg Prod.fst both)))

/-- Nobody has a call to make. -/
def Finished (p : Requests) : Prop := ∀ t ∈ p.threads, t.rest.pending.isNone = true

/-- Bob's payment of an order lands between the check and the transaction of his
withdrawal. -/
theorem withdrawn_with_paid_order :
    ¬ ∀ (db : Db) (turns : List (Turn Op)),
      (∀ turn ∈ turns, ∀ op, turn = .arrive op → op.racesWithdrawal = true) →
      Finished (run service.step db.idle turns) → ∀ u, Removed (run service.step db.idle turns) u →
        NoneLeft (run service.step db.idle turns).store.toTables u := by
  intro always
  let turns : List (Turn Op) := [.arrive (.ordersCreate "bob" lampOrder (newOrder 1)),
    .call 0, .call 0, .call 0, .call 0,
    .arrive (.ordersUpdate "order-1" "bob" { status := .value .paymentPending }), .call 1, .call 1,
    .arrive (.usersRemove "bob"), .arrive (.ordersUpdate "order-1" "bob" { status := .value .paid }),
    .call 2, .call 2, .call 3, .call 3, .call 2]
  have finished : Finished (run service.step market.idle turns) := by
    show ∀ t ∈ _, _
    decide +kernel
  exact not_noneLeft (o := "order-1") (by decide +kernel) (always market turns
    (by simp [turns, Op.racesWithdrawal]) finished "bob" (by decide +kernel))

end SecondhandApi
