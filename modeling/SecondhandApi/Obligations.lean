import SecondhandApi.Calls
import SecondhandApi.Operations

/-! What single calls do, for requests that overlap. Each call of an operation is owed to
the answers before it: a write comes after the checks on the row that the request has
read, which by then need not be the row that is stored. -/
namespace SecondhandApi
open Keyed Interleaving

abbrev Log := List (Answer Call Call.Reply)

abbrev Running := Thread Op Call Call.Reply ApiError Response

abbrev Requests := Pool Db Op Call Call.Reply ApiError Response

/-- The database before any request has arrived. -/
def Db.idle (db : Db) : Requests := ⟨db, []⟩

/-- Operations that run one after the other are one of the interleavings, so what is said of
all of these is said of them too. -/
theorem sequential_interleaved (db : Db) (ops : List Op) :
    ∃ turns, (run service.step db.idle turns).store = run service.sequential db ops :=
  service.sequential_is_schedule db ops

def Accepted (db : Db) (c : Call) : Prop := ∃ a, (exec c db).2 = .ok a

/-- The check of a withdrawal, on the statuses that it has read. -/
def underWay (statuses : List OrderStatus) : Bool :=
  statuses.any fun status => status = .paid || status = .shipping || status = .delivered

/-- The calls of the operations on orders and of the withdrawal, each with the log it
is made after, newest answer first. -/
inductive Owed : Op → Log → Call → Prop where
  | createReads {buyerId dto new} :
      Owed (.ordersCreate buyerId dto new) [] (.productFindById dto.productId)
  | createLooks {buyerId dto new log} (number) (early : ∀ a ∈ log, a.call.reads = true) :
      Owed (.ordersCreate buyerId dto new) log (.orderFindByOrderNumber number)
  | createWrites {buyerId dto new log} (product : Product) (number)
      (early : ∀ a ∈ log, a.call.reads = true)
      (read : ⟨.productFindById dto.productId, .ok (some product)⟩ ∈ log)
      (active : product.status = .active) (other : product.sellerId ≠ buyerId) :
      Owed (.ordersCreate buyerId dto new) log
        (.orderCreate new.id new.now (dto.toInput buyerId product.sellerId number))
  | createReserves {buyerId dto new log} (data) (order : Order) :
      Owed (.ordersCreate buyerId dto new) (⟨.orderCreate new.id new.now data, .ok order⟩ :: log)
        (.productUpdate dto.productId { status := .value .reserved })
  | updateReads {id userId dto} : Owed (.ordersUpdate id userId dto) [] (.orderFindById id)
  | updateWrites {id userId dto} (order : Order)
      (party : order.buyerId = userId ∨ order.sellerId = userId)
      (valid : OrdersService.validateStatus order userId dto.status = .ok ()) :
      Owed (.ordersUpdate id userId dto) [⟨.orderFindById id, .ok (some order)⟩]
        (.orderUpdate id dto.toInput)
  | cancelReads {id userId now} : Owed (.ordersCancel id userId now) [] (.orderFindById id)
  | cancelWrites {id userId now} (order : Order) (buyer : order.buyerId = userId)
      (cancellable : order.status ∈ OrdersService.cancellableStatuses) :
      Owed (.ordersCancel id userId now) [⟨.orderFindById id, .ok (some order)⟩]
        (.orderUpdate id (OrdersRepository.statusData .cancelled now))
  | cancelFrees {id userId now} (log) (productId) : Owed (.ordersCancel id userId now) log
      (.productUpdate productId { status := .value .active })
  | confirmReads {id userId now soldAt} :
      Owed (.ordersConfirm id userId now soldAt) [] (.orderFindById id)
  | confirmWrites {id userId now soldAt} (order : Order) (buyer : order.buyerId = userId)
      (delivered : order.status = .delivered) :
      Owed (.ordersConfirm id userId now soldAt) [⟨.orderFindById id, .ok (some order)⟩]
        (.orderUpdate id (OrdersRepository.statusData .confirmed now))
  | confirmSells {id userId now soldAt} (log) (productId) :
      Owed (.ordersConfirm id userId now soldAt) log
        (.productUpdate productId { status := .value .sold, soldAt := .value soldAt })
  | withdrawReads {id} : Owed (.usersRemove id) [] (.userFindById id)
  | withdrawChecks {id} (user : User) (active : user.isActive = true) :
      Owed (.usersRemove id) [⟨.userFindById id, .ok (some user)⟩] (.orderFindMany id)
  | withdrawWrites {id} (user : User) (statuses) (free : underWay statuses = false) :
      Owed (.usersRemove id)
        [⟨.orderFindMany id, .ok statuses⟩, ⟨.userFindById id, .ok (some user)⟩] (.userSoftDelete id)

/-- Where an operation may end: an order that was made still has its product to reserve,
and a withdrawal succeeds with its transaction. -/
inductive Ended : Op → Log → Except ApiError Response → Prop where
  | createRefused {buyerId dto new log e} (unmade : ∀ id now data order rest,
      log ≠ ⟨.orderCreate id now data, .ok order⟩ :: rest) :
      Ended (.ordersCreate buyerId dto new) log (.error e)
  | createDone {buyerId dto new r} (data) (reply) (log) :
      Ended (.ordersCreate buyerId dto new)
        (⟨.productUpdate dto.productId data, reply⟩ :: log) r
  | update {id userId dto log r} : Ended (.ordersUpdate id userId dto) log r
  | cancel {id userId now log r} : Ended (.ordersCancel id userId now) log r
  | confirm {id userId now soldAt log r} : Ended (.ordersConfirm id userId now soldAt) log r
  | withdrawRefused {id log e} (unmade : ∀ user rest,
      log ≠ ⟨.userSoftDelete id, .ok user⟩ :: rest) : Ended (.usersRemove id) log (.error e)
  | withdrawn {id r} (user : User) (log) :
      Ended (.usersRemove id) (⟨.userSoftDelete id, .ok user⟩ :: log) (.ok r)

/- The operations that take part in the interleavings. -/
def Op.inFlow : Op → Bool
  | .ordersCreate .. | .ordersUpdate .. | .ordersCancel .. | .ordersConfirm .. |
    .usersRemove .. => true
  | _ => false

section
variable {A B : Type} {may : Log → Call → Prop} {ends : Log → Except ApiError A → Prop} {log : Log}

theorem early_cons {c : Call} (r : c.Reply) (reads : c.reads = true)
    (early : ∀ a ∈ log, a.call.reads = true) : ∀ a ∈ (⟨c, r⟩ :: log : Log), a.call.reads = true := by
  intro a ha
  rcases List.mem_cons.mp ha with rfl | ha
  · exact reads
  · exact early a ha

theorem early_one {c : Call} (r : c.Reply) (reads : c.reads = true) :
    ∀ a ∈ ([⟨c, r⟩] : Log), a.call.reads = true :=
  early_cons r reads (fun _ none => by cases none)

theorem obeys_await {c : Call} {f : c.Result → Req A} (here : may log c)
    (answered : ∀ a, Request.Obeys may ends (⟨c, .ok a⟩ :: log) (f a))
    (refused : ∀ e, ends (⟨c, .error e⟩ :: log) (.error (.database e))) :
    Request.Obeys may ends log (await c >>= f) := by
  refine ⟨here, fun r => ?_⟩
  cases r with
  | ok a => exact answered a
  | error e => exact refused e

end

theorem close_owes (closing : OrdersService.Closing) {id userId : Id} {now : Date} {op : Op}
    {f : Order → Response} (same : op.program = f <$> OrdersService.close closing id userId now)
    (ends : ∀ log r, Ended op log r) (reads : Owed op [] (.orderFindById id))
    (writes : ∀ order, order.buyerId = userId → order.status ∈ closing.opens →
      Owed op [⟨.orderFindById id, .ok (some order)⟩]
        (.orderUpdate id (OrdersRepository.statusData closing.status now)))
    (sells : ∀ log productId, Owed op log (.productUpdate productId closing.sale)) :
    Request.Obeys (Owed op) (Ended op) [] op.program := by
  rw [same]
  refine Request.obeys_bind _ _ ?_
  refine obeys_await (c := .orderFindById id) reads (fun found => ?_) (fun _ => ends _ _)
  cases found with
  | none => exact ends _ _
  | some order =>
    by_cases other : order.buyerId ≠ userId
    · simp only [if_pos other]
      exact ends _ _
    · by_cases shut : order.status ∉ closing.opens
      · simp only [if_neg other, if_pos shut]
        exact ends _ _
      · simp only [if_neg other, if_neg shut]
        refine obeys_await (c := .orderUpdate id (OrdersRepository.statusData closing.status now))
          (writes order (not_not.mp other) (not_not.mp shut)) (fun _ => ?_) (fun _ => ends _ _)
        exact obeys_await (c := .productUpdate order.productId closing.sale) (sells _ _)
          (fun _ => ends _ _) (fun _ => ends _ _)

theorem update_owes (id userId : Id) (dto : UpdateOrderDto) :
    Request.Obeys (Owed (.ordersUpdate id userId dto)) (Ended (.ordersUpdate id userId dto)) []
      (Op.ordersUpdate id userId dto).program := by
  refine Request.obeys_bind _ _ ?_
  refine obeys_await (c := .orderFindById id) .updateReads (fun found => ?_) (fun _ => .update)
  cases found with
  | none => exact Ended.update
  | some order =>
    by_cases stranger : order.buyerId ≠ userId ∧ order.sellerId ≠ userId
    · simp only [if_pos stranger]
      exact Ended.update
    · simp only [if_neg stranger]
      cases valid : OrdersService.validateStatus order userId dto.status with
      | error e => exact Ended.update
      | ok _ =>
        have party : order.buyerId = userId ∨ order.sellerId = userId := by
          by_contra h
          exact stranger (not_or.mp h)
        refine ⟨.updateWrites order party valid, fun r => ?_⟩
        cases r with
        | ok new => exact Ended.update
        | error e => exact Ended.update

/- The loop of lookups is owed as long as only reads were made. -/
theorem generateOrderNumber_owes {A : Type} {buyerId : Id} {dto : CreateOrderDto} {new : NewOrder}
    {ends : Log → Except ApiError A → Prop} {f : String → Req A} (read : Answer Call Call.Reply)
    (draws : List Draw) {log : Log} (early : ∀ a ∈ log, a.call.reads = true) (known : read ∈ log)
    (stops : ∀ l e, (∀ a ∈ l, a.call.reads = true) → ends l (.error e))
    (goes : ∀ l number, (∀ a ∈ l, a.call.reads = true) → read ∈ l →
      Request.Obeys (Owed (.ordersCreate buyerId dto new)) ends l (f number)) :
    Request.Obeys (Owed (.ordersCreate buyerId dto new)) ends log
      (OrdersRepository.generateOrderNumber draws >>= f) := by
  induction draws generalizing log with
  | nil => exact stops log _ early
  | cons d rest ih =>
    unfold OrdersRepository.generateOrderNumber
    rw [Request.bind_assoc]
    have looked (r : Call.Reply (.orderFindByOrderNumber (d.orderNumber "ORD"))) :=
      early_cons r rfl early
    refine obeys_await (c := .orderFindByOrderNumber (d.orderNumber "ORD")) (.createLooks _ early)
      (fun existing => ?_) (fun e => stops _ _ (looked _))
    by_cases taken : existing.isSome = true
    · simp only [if_pos taken]
      exact ih (looked _) (List.mem_cons_of_mem _ known)
    · simp only [if_neg taken]
      exact goes _ _ (looked _) (List.mem_cons_of_mem _ known)

theorem create_owes (buyerId : Id) (dto : CreateOrderDto) (new : NewOrder) :
    Request.Obeys (Owed (.ordersCreate buyerId dto new)) (Ended (.ordersCreate buyerId dto new)) []
      (Op.ordersCreate buyerId dto new).program := by
  have stops (l : Log) (e : ApiError) (early : ∀ a ∈ l, a.call.reads = true) :
      Ended (.ordersCreate buyerId dto new) l (.error e) := by
    refine .createRefused ?_
    rintro id now data order rest rfl
    cases early _ List.mem_cons_self
  refine Request.obeys_bind _ _ ?_
  have looked (r : Call.Reply (.productFindById dto.productId)) := early_one r rfl
  refine obeys_await (c := .productFindById dto.productId) .createReads (fun found => ?_)
    (fun e => stops _ _ (looked _))
  cases found with
  | none => exact stops _ _ (looked _)
  | some product =>
    by_cases closed : product.status ≠ .active
    · simp only [if_pos closed]
      exact stops _ _ (looked _)
    · by_cases own : product.sellerId = buyerId
      · simp only [if_neg closed, if_pos own]
        exact stops _ _ (looked _)
      · simp only [if_neg closed, if_neg own]
        refine generateOrderNumber_owes ⟨.productFindById dto.productId, .ok (some product)⟩ _
          (looked _) (List.mem_singleton_self _) stops (fun l number early known => ?_)
        refine obeys_await (c := .orderCreate new.id new.now
          (dto.toInput buyerId product.sellerId number))
          (.createWrites product number early known (not_not.mp closed) own) (fun order => ?_)
          (fun e => ?_)
        · exact obeys_await (c := .productUpdate dto.productId { status := .value .reserved })
            (.createReserves _ order) (fun _ => Ended.createDone _ _ _)
            (fun _ => .createDone _ _ _)
        · refine .createRefused ?_
          intro id now data order rest same
          cases same

theorem withdraw_owes (id : Id) :
    Request.Obeys (Owed (.usersRemove id)) (Ended (.usersRemove id)) []
      (Op.usersRemove id).program := by
  have stops (l : Log) (e : ApiError) (early : ∀ a ∈ l, a.call.reads = true) :
      Ended (.usersRemove id) l (.error e) := by
    refine .withdrawRefused ?_
    rintro user rest rfl
    cases early _ List.mem_cons_self
  have first (r : Call.Reply (.userFindById id)) := early_one r rfl
  refine Request.obeys_bind _ _ ?_
  refine obeys_await (c := .userFindById id) .withdrawReads (fun found => ?_)
    (fun _ => stops _ _ (first _))
  cases found with
  | none => exact stops _ _ (first _)
  | some user =>
    by_cases inactive : (!user.isActive) = true
    · simp only [if_pos inactive]
      exact stops _ _ (first _)
    · simp only [if_neg inactive]
      have second (r : Call.Reply (.orderFindMany id)) :=
        early_cons r rfl (first (.ok (some user)))
      unfold OrdersService.hasOngoingOrdersByUserId
      rw [Request.bind_assoc]
      refine obeys_await (c := .orderFindMany id) (.withdrawChecks user (by simpa using inactive))
        (fun statuses => ?_) (fun _ => stops _ _ (second _))
      simp only [Request.pure_eq, Request.done_bind]
      change Request.Obeys _ _ _ (if underWay statuses = true then _ else _)
      by_cases busy : underWay statuses = true
      · rw [if_pos busy]
        exact stops _ _ (second _)
      · rw [if_neg busy]
        refine ⟨.withdrawWrites user statuses (Bool.eq_false_iff.mpr busy), fun r => ?_⟩
        cases r with
        | ok user => exact Ended.withdrawn user _
        | error e =>
          refine Ended.withdrawRefused ?_
          intro user rest same
          cases same

/-- Every operation of the flow keeps to what its calls owe. -/
theorem programs_owe (op : Op) (scope : op.inFlow = true) :
    Request.Obeys (Owed op) (Ended op) [] op.program := by
  cases op with
  | ordersCreate buyerId dto new => exact create_owes buyerId dto new
  | ordersUpdate id userId dto => exact update_owes id userId dto
  | ordersCancel id userId now =>
    exact close_owes OrdersService.cancelling rfl (fun _ _ => .cancel) .cancelReads
      .cancelWrites .cancelFrees
  | ordersConfirm id userId now soldAt =>
    exact close_owes (OrdersService.confirming soldAt) rfl (fun _ _ => .confirm) .confirmReads
      (fun order buyer opened => .confirmWrites order buyer
        (List.mem_singleton.mp opened)) .confirmSells
  | usersRemove id => exact withdraw_owes id
  | _ => cases scope

/-- The requests of the pool are of one kind and keep to what they owe. -/
def Dutiful (scope : Op → Bool) : Requests → Prop :=
  Service.Obedient (fun op log c => scope op = true ∧ Owed op log c) Ended

section
variable {scope : Op → Bool}

theorem dutiful_idle (db : Db) : Dutiful scope db.idle := by
  intro t ht
  cases ht

theorem dutiful_step (flow : ∀ op, scope op = true → op.inFlow = true) (p : Requests)
    (turn : Turn Op) (h : Dutiful scope p)
    (arrives : ∀ op, turn = .arrive op → scope op = true) : Dutiful scope (service.step p turn) :=
  Service.obedient_step (fun op here => Request.obeys_mono (fun _ _ owed => ⟨here, owed⟩)
    (programs_owe op (flow op here))) p turn h arrives

theorem dutiful_pending {p : Requests} (h : Dutiful scope p) {i : Nat} {t : Running}
    (ht : p.threads[i]? = some t) {c : Call} {next : c.Reply → Req Response}
    (hr : t.rest = .call c next) : scope t.op = true ∧ Owed t.op t.log c :=
  Service.obedient_pending h ht hr

/-- A turn in which the `i`-th request had its next call answered. -/
structure Answered (p : Requests) (turn : Turn Op) (i : Nat) (op : Op) (log : Log) (c : Call)
    (next : c.Reply → Req Response) (reply : c.Reply) (t' : Tables) : Prop where
  called : turn = .call i
  thread : p.threads[i]? = some ⟨op, log, .call c next⟩
  replied : (exec c p.store).2 = reply
  store : (service.step p turn).store.toTables = t'
  threads : (service.step p turn).threads = p.threads.set i ⟨op, ⟨c, reply⟩ :: log, next reply⟩
  effect : CallEffect p.store c reply t'

/-- A pending call that the database accepts is answered in the next turn of its thread. -/
theorem answered_of_accepted {p : Requests} {i : Nat} {t : Running} {c : Call}
    (ht : p.threads[i]? = some t) (pending : t.rest.pending = some c) (ok : Accepted p.store c) :
    ∃ next r t', Answered p (.call i) i t.op t.log c next (.ok r) t' := by
  obtain ⟨next, hr⟩ := Request.pending_eq_some pending
  obtain ⟨r, accepted⟩ := ok
  obtain ⟨op, log, rest⟩ := t
  simp only at hr
  subst hr
  have step := service.step_call ht rfl
  refine ⟨next, r, _, rfl, ht, accepted, rfl, ?_, ?_⟩
  · rw [step, ← accepted]
    rfl
  · rw [step, ← accepted]
    exact call_effect c p.store

/-- The inversion of a turn: a request arrives, nothing happens, or a call that was owed is
answered. -/
theorem turn_cases {p : Requests} (h : Dutiful scope p) (turn : Turn Op) :
    service.step p turn = p ∨
    (∃ op, turn = .arrive op ∧
      service.step p turn = ⟨p.store, p.threads ++ [service.newcomer op]⟩) ∨
    ∃ i op log c next reply t', scope op = true ∧ Owed op log c ∧
      Answered p turn i op log c next reply t' := by
  rcases service.step_cases p turn with hs | ⟨op, arrives, hs⟩ | ⟨i, t, c, next, called, ht, hr, hs⟩
  · exact Or.inl hs
  · exact Or.inr (Or.inl ⟨op, arrives, hs⟩)
  · obtain ⟨here, owed⟩ := dutiful_pending h ht hr
    obtain ⟨op, log, rest⟩ := t
    simp only at hr here owed
    subst hr
    refine Or.inr (Or.inr ⟨i, op, log, c, next, _, _, here, owed, called, ht, rfl, rfl, ?_, ?_⟩)
    · rw [hs]
      rfl
    · rw [hs]
      exact call_effect c p.store

section
variable {p : Requests} {turn : Turn Op} {i : Nat} {op : Op} {log : Log} {c : Call}
  {next : c.Reply → Req Response} {reply : c.Reply} {t' : Tables}

theorem Answered.accepted {r : c.Result} (a : Answered p turn i op log c next (.ok r) t') :
    Accepted p.store c := ⟨r, a.replied⟩

theorem Answered.allowed {allowed : Requests → Running → Call → Prop}
    (a : Answered p turn i op log c next reply t') (ok : Service.OnCalls allowed p turn) :
    allowed p ⟨op, log, .call c next⟩ c :=
  Service.onCalls_at (a.called ▸ ok) a.thread rfl

theorem Answered.newest_at (a : Answered p turn i op log c next reply t') :
    (service.step p turn).threads[i]? = some ⟨op, ⟨c, reply⟩ :: log, next reply⟩ := by
  have inside : i < p.threads.length := (List.getElem?_eq_some_iff.mp a.thread).1
  rw [a.threads, List.getElem?_set_self inside]

theorem Answered.newest (a : Answered p turn i op log c next reply t') :
    ⟨op, ⟨c, reply⟩ :: log, next reply⟩ ∈ (service.step p turn).threads :=
  List.mem_of_getElem? a.newest_at

end

/-- What a turn does to the order table, and what it was owed to. -/
inductive OrderTurn (scope : Op → Bool) (p : Requests) (turn : Turn Op) : Prop where
  | same (orders : (service.step p turn).store.orders = p.store.orders)
  | made {i op log id now data next fee t'} (here : scope op = true)
      (owed : Owed op log (.orderCreate id now data))
      (a : Answered p turn i op log (.orderCreate id now data) next (.ok (data.row fee now)) t')
      (fresh : p.store.orders.find? id = none)
      (orders : (service.step p turn).store.orders =
        p.store.orders.insert id (data.row fee now))
  | set {i op log id data next t'} {old new : Order} (here : scope op = true)
      (owed : Owed op log (.orderUpdate id data))
      (a : Answered p turn i op log (.orderUpdate id data) next (.ok new) t')
      (found : p.store.orders.find? id = some old) (made : data.apply old = some new)
      (orders : (service.step p turn).store.orders = p.store.orders.set id new)
  | swept {i op log id next t'} {user : User} (here : scope op = true)
      (owed : Owed op log (.userSoftDelete id))
      (a : Answered p turn i op log (.userSoftDelete id) next (.ok user) t')
      (orders : (service.step p turn).store.orders =
        p.store.orders.modifyAll (fun _ => Prisma.cancelUnpaid id))

theorem order_turn {p : Requests} (h : Dutiful scope p) (turn : Turn Op) :
    OrderTurn scope p turn := by
  rcases turn_cases h turn with hs | ⟨op, _, hs⟩ | ⟨i, op, log, c, next, reply, t', here, owed, a⟩
  · exact .same (by rw [hs])
  · exact .same (by rw [hs])
  · cases a.effect with
    | read r reads => exact .same (by rw [a.store])
    | refused e => exact .same (by rw [a.store])
    | productSet old new found made => exact .same (by rw [a.store]; rfl)
    | orderMade fee fresh => exact .made here owed a fresh (by rw [a.store]; rfl)
    | orderSet old new found made => exact .set here owed a found made (by rw [a.store]; rfl)
    | userWithdrawn user found => exact .swept here owed a (by rw [a.store]; rfl)
    | userMade row fresh => cases owed
    | userSet old new found made => cases owed
    | productMade row fresh => cases owed
    | productViewed old found => cases owed
    | orderErased row found => cases owed

end

end SecondhandApi
