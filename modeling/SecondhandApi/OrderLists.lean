import SecondhandApi.Interleaving.Rely
import SecondhandApi.Interleaving.Sum
import SecondhandApi.Pagination
import SecondhandApi.Paging
import SecondhandApi.Operations
import SecondhandApi.Calls

/-! Lists of orders: the queries of `src/modules/orders/repositories/orders.repository.ts`, the list
of the service, and a client that reads it page by page while the market goes on. -/
namespace SecondhandApi
open Keyed Interleaving

inductive OrdersRole where
  | buyer | seller

structure QueryOrdersDto where
  page : Option Nat := none
  limit : Option Nat := none
  status : Option OrderStatus := none

/- The `where` of an order query: what it leaves out it does not ask for. -/
structure OrderWhere where
  buyerId : Option Id := none
  sellerId : Option Id := none
  productId : Option Id := none
  status : Option OrderStatus := none

def OrderWhere.admits (w : OrderWhere) (order : Order) : Bool :=
  w.buyerId.all (· = order.buyerId) && w.sellerId.all (· = order.sellerId) &&
    w.productId.all (· = order.productId) && w.status.all (· = order.status)

/-- `orderBy: { createdAt: 'desc' }`; rows of one time stand in an order that each query draws
anew. -/
def latestFirst (ties : Id → Nat) (a b : Id × Order) : Prop :=
  b.2.createdAt < a.2.createdAt ∨ a.2.createdAt = b.2.createdAt ∧ ties a.1 ≤ ties b.1

instance (ties : Id → Nat) : DecidableRel (latestFirst ties) :=
  fun _ _ => inferInstanceAs (Decidable (_ ∨ _))

inductive OrderQuery where
  | findMany (w : OrderWhere) (skip : Int) (take : Nat) (ties : Id → Nat)
  | count (w : OrderWhere)

abbrev OrderQuery.Reply : OrderQuery → Type
  | findMany _ _ _ _ => Except PrismaError (List (Id × Order))
  | count _ => Except PrismaError Nat

def Tables.ordersWhere (t : Tables) (w : OrderWhere) : List (Id × Order) :=
  t.orders.rows.filter fun row => w.admits row.2

def Tables.ordersSorted (t : Tables) (w : OrderWhere) (ties : Id → Nat) : List (Id × Order) :=
  (t.ordersWhere w).insertionSort (latestFirst ties)

/- Prisma refuses a negative `skip`. -/
def execOrderQuery : (c : OrderQuery) → Db → Db × c.Reply
  | .findMany w skip take ties, db =>
    (db, if skip < 0 then .error .invalidValue
      else .ok (((db.ordersSorted w ties).drop skip.toNat).take take))
  | .count w, db => (db, .ok (db.ordersWhere w).length)

abbrev ListCall : Type := Call ⊕ OrderQuery

abbrev ListCall.Reply : ListCall → Type := Sum.elim Call.Reply OrderQuery.Reply

abbrev ListReq (A : Type) : Type := Request ListCall ListCall.Reply ApiError A

def execList : (c : ListCall) → Db → Db × c.Reply := either exec execOrderQuery

namespace OrdersRepository

def settleQuery {A : Type} : Except PrismaError A → ListReq A
  | .ok result => .done result
  | .error e => .fail (.database e)

def findOrders (w : OrderWhere) (skip : Int) (take : Nat) (ties : Id → Nat) :
    ListReq (List (Id × Order)) :=
  .call (.inr (.findMany w skip take ties)) settleQuery

def count (w : OrderWhere) : ListReq Nat := .call (.inr (.count w)) settleQuery

def findByBuyer (buyerId : Id) (skip : Int) (take : Nat) (status : Option OrderStatus)
    (ties : Id → Nat) : ListReq (List (Id × Order)) :=
  findOrders { buyerId := some buyerId, status := status } skip take ties

def findBySeller (sellerId : Id) (skip : Int) (take : Nat) (status : Option OrderStatus)
    (ties : Id → Nat) : ListReq (List (Id × Order)) :=
  findOrders { sellerId := some sellerId, status := status } skip take ties

end OrdersRepository

structure OrderListResponse where
  data : List (Id × Order)
  page : Nat
  limit : Nat
  total : Nat
  totalPages : Nat

namespace OrdersService

def findAll (userId : Id) (queryDto : QueryOrdersDto) (role : OrdersRole) (ties : Id → Nat) :
    ListReq OrderListResponse := do
  let page := queryDto.page.getD 1
  let limit := queryDto.limit.getD 20
  let skip := ((page : Int) - 1) * limit
  let orders ← match role with
    | .buyer => OrdersRepository.findByBuyer userId skip limit queryDto.status ties
    | .seller => OrdersRepository.findBySeller userId skip limit queryDto.status ties
  let total ← OrdersRepository.count (match role with
    | .buyer => { buyerId := some userId, status := queryDto.status }
    | .seller => { sellerId := some userId, status := queryDto.status })
  return {
    data := orders
    page := page
    limit := limit
    total := total
    totalPages := PaginationUtil.getTotalPages total limit }

end OrdersService

/-- A client that asks for page after page up to one that is answered as the last, if it comes to
one in so many pages. -/
def readOrders (userId : Id) (role : OrdersRole) (status : Option OrderStatus) (limit : Nat)
    (ties : Nat → Id → Nat) : Nat → Nat → List (Id × Order) → ListReq (Option (List (Id × Order)))
  | 0, _, _ => return none
  | pages + 1, page, read => do
    let answer ← OrdersService.findAll userId
      { page := some page, limit := some limit, status := status } role (ties page)
    if answer.totalPages ≤ page then return some (read ++ answer.data)
    readOrders userId role status limit ties pages (page + 1) (read ++ answer.data)

inductive ListOp where
  | market (op : Op)
  | list (userId : Id) (queryDto : QueryOrdersDto) (role : OrdersRole) (ties : Id → Nat)
  | read (userId : Id) (role : OrdersRole) (status : Option OrderStatus) (limit : Nat)
      (ties : Nat → Id → Nat) (pages : Nat)

inductive ListResponse where
  | market (response : Response)
  | list (response : OrderListResponse)
  | read (orders : Option (List (Id × Order)))

def ListOp.program : ListOp → ListReq ListResponse
  | .market op => .market <$> op.program.left id
  | .list userId queryDto role ties => .list <$> OrdersService.findAll userId queryDto role ties
  | .read userId role status limit ties pages =>
    .read <$> readOrders userId role status limit ties pages 1 []

def listService : Service Db ListOp ListCall ListCall.Reply ApiError ListResponse :=
  ⟨execList, ListOp.program⟩

abbrev ListPool : Type := Pool Db ListOp ListCall ListCall.Reply ApiError ListResponse
abbrev ListThread : Type := Thread ListOp ListCall ListCall.Reply ApiError ListResponse

/-- The orders that a user buys or sells, all or those of one status. -/
def mine (userId : Id) (status : Option OrderStatus) : OrdersRole → OrderWhere
  | .buyer => { buyerId := some userId, status := status }
  | .seller => { sellerId := some userId, status := status }

/-- No two of the orders were made at one time. -/
def Untied (w : OrderWhere) (t : Tables) : Prop :=
  ((t.ordersWhere w).map fun row => row.2.createdAt).Nodup

instance (w : OrderWhere) (t : Tables) : Decidable (Untied w t) :=
  inferInstanceAs (Decidable (List.Nodup _))

/-- No order leaves the list. -/
def Stays (w : OrderWhere) (t t' : Tables) : Prop :=
  ∀ row ∈ t.ordersWhere w, row.1 ∈ (t'.ordersWhere w).map Prod.fst

instance (w : OrderWhere) (t t' : Tables) : Decidable (Stays w t t') :=
  inferInstanceAs (Decidable (∀ row ∈ t.ordersWhere w, _))

/-- What may become of the orders while they are read: they stay, each made when it was made, and
are told apart by that. -/
structure Onwards (w : OrderWhere) (t t' : Tables) : Prop where
  kept : ∀ row ∈ t.ordersWhere w,
    ∃ row' ∈ t'.ordersWhere w, row'.1 = row.1 ∧ row'.2.createdAt = row.2.createdAt
  untied : Untied w t → Untied w t'

section
variable {w : OrderWhere} {t t' t'' : Tables}

theorem Onwards.refl (w : OrderWhere) (t : Tables) : Onwards w t t where
  kept row here := ⟨row, here, rfl, rfl⟩
  untied := id

theorem Onwards.trans (h : Onwards w t t') (k : Onwards w t' t'') : Onwards w t t'' := by
  constructor
  · intro row here
    obtain ⟨row', here', same, time⟩ := h.kept row here
    obtain ⟨row'', here'', same', time'⟩ := k.kept row' here'
    exact ⟨row'', here'', same'.trans same, time'.trans time⟩
  · exact fun untied => k.untied (h.untied untied)

theorem mem_ordersWhere {id : Id} {o : Order} : (id, o) ∈ t.ordersWhere w ↔
    t.orders.find? id = some o ∧ w.admits o = true := by
  unfold Tables.ordersWhere
  rw [List.mem_filter, t.orders.mem_rows]

theorem mem_ordersSorted {ties : Id → Nat} {row : Id × Order} :
    row ∈ t.ordersSorted w ties ↔ row ∈ t.ordersWhere w :=
  List.mem_insertionSort _

theorem length_ordersSorted (t : Tables) (w : OrderWhere) (ties : Id → Nat) :
    (t.ordersSorted w ties).length = (t.ordersWhere w).length :=
  List.length_insertionSort _ _

/-- The orders of a list, in one of the orders in which a query may give them. -/
def listed (w : OrderWhere) (t : Tables) (ties : Id → Nat) : List Id :=
  (t.ordersSorted w ties).map Prod.fst

theorem listed_onwards (h : Onwards w t t') (untied : Untied w t) (ties ties' : Id → Nat) {i : Nat}
    {id : Id} (at_i : (listed w t ties)[i]? = some id) :
    ∃ j, (listed w t' ties')[j]? = some id ∧ i ≤ j := by
  have order (ties : Id → Nat) (a b : Id × Order) : latestFirst ties a b ↔
      b.2.createdAt < a.2.createdAt ∨ a.2.createdAt = b.2.createdAt ∧ ties a.1 ≤ ties b.1 := Iff.rfl
  have distinct : ((t.ordersWhere w).map Prod.fst).Nodup :=
    t.orders.unique.sublist (List.filter_sublist.map _)
  exact Paging.moves_back order distinct untied (h.untied untied) h.kept ties ties' at_i

/-- An order that is still to come when page `n + 1` is asked for is on it, or still to come when
it has been counted. -/
theorem page_has {limit n i : Nat} {id : Id} {ties ties' : Id → Nat} (first : Onwards w t t')
    (second : Onwards w t' t'') (untied : Untied w t) (at_i : (listed w t ties')[i]? = some id)
    (ahead : n * limit ≤ i) :
    (∃ o, (id, o) ∈ Paging.page limit (t'.ordersSorted w ties) n) ∨
      ∃ j, (listed w t'' ties')[j]? = some id ∧ (n + 1) * limit ≤ j := by
  obtain ⟨k, at_k, back⟩ := listed_onwards first untied ties' ties at_i
  by_cases inside : k < (n + 1) * limit
  · left
    rw [listed, List.getElem?_map] at at_k
    obtain ⟨row, place, rfl⟩ := Option.map_eq_some_iff.mp at_k
    rw [Nat.succ_mul] at inside
    exact ⟨row.2, Paging.mem_drop_take.mpr ⟨k, by omega, inside, place⟩⟩
  · right
    obtain ⟨j, at_j, further⟩ := listed_onwards second (first.untied untied) ties ties' at_k
    exact ⟨j, at_j, by omega⟩

theorem page_admits {limit n : Nat} {ties : Id → Nat} {row : Id × Order}
    (member : row ∈ Paging.page limit (t.ordersSorted w ties) n) : w.admits row.2 = true := by
  have inside := List.mem_of_mem_drop (List.mem_of_mem_take member)
  exact (mem_ordersWhere.mp (mem_ordersSorted.mp inside)).2

end

section
variable {userId : Id} {role : OrdersRole} {status : Option OrderStatus} {limit : Nat}
  {rely : Db → Db → Prop}

/-- A page is answered from the store of its first query, and counted in that of its second. -/
theorem page_answers {A : Type} {w : OrderWhere} {n : Nat} {ties : Id → Nat} {s : Db}
    {f : List (Id × Order) → Nat → ListReq A} {r : Except ApiError A}
    (h : MayAnswer execList rely (do
      let orders ← OrdersRepository.findOrders w (((n + 1 : Nat) - 1) * limit) limit ties
      let total ← OrdersRepository.count w
      f orders total) s r) :
    ∃ s₁ s₂, rely s s₁ ∧ rely s₁ s₂ ∧ MayAnswer execList rely
      (f (Paging.page limit (s₁.ordersSorted w ties) n)
        (s₂.ordersWhere w).length) s₂ r := by
  have skip : (((n + 1 : Nat) : Int) - 1) * limit = ((n * limit : Nat) : Int) :=
    getSkip_succ n limit
  have valid : ¬((n * limit : Nat) : Int) < 0 := by omega
  cases h with
  | call s₁ first rest =>
    simp only [execList, either_inr, execOrderQuery, skip, if_neg valid] at rest
    cases rest with
    | call s₂ second rest => exact ⟨s₁, s₂, first, second, rest⟩

theorem findAll_answers {A : Type} {n : Nat} {ties : Id → Nat} {f : OrderListResponse → ListReq A}
    {s : Db} {r : Except ApiError A}
    (h : MayAnswer execList rely (OrdersService.findAll userId
      { page := some (n + 1), limit := some limit, status := status } role ties >>= f) s r) :
    ∃ s₁ s₂, rely s s₁ ∧ rely s₁ s₂ ∧ MayAnswer execList rely (f {
      data := Paging.page limit (s₁.ordersSorted (mine userId status role) ties) n
      page := n + 1
      limit := limit
      total := (s₂.ordersWhere (mine userId status role)).length
      totalPages := PaginationUtil.getTotalPages (s₂.ordersWhere (mine userId status role)).length
        limit }) s₂ r := by
  let answer (orders : List (Id × Order)) (total : Nat) : OrderListResponse :=
    { data := orders
      page := n + 1
      limit := limit
      total := total
      totalPages := PaginationUtil.getTotalPages total limit }
  have parts : (OrdersService.findAll userId
      { page := some (n + 1), limit := some limit, status := status } role ties >>= f) = (do
        let orders ← OrdersRepository.findOrders (mine userId status role)
          (((n + 1 : Nat) - 1) * limit) limit ties
        let total ← OrdersRepository.count (mine userId status role)
        f (answer orders total)) := by
    unfold OrdersService.findAll
    cases role <;> simp only [Request.bind_assoc] <;> rfl
  exact page_answers (f := fun l k => f (answer l k)) (parts ▸ h)

/-- What a client has read when it has come to the last page: what it had, whatever was to come on
the pages it asked for, and orders of the list only. -/
theorem read_answers (positive : 1 ≤ limit) {ties : Nat → Id → Nat} {pages n : Nat}
    {read r : List (Id × Order)} {s : Db} (untied : Untied (mine userId status role) s.toTables)
    (h : MayAnswer execList (fun s s' => Onwards (mine userId status role) s.toTables s'.toTables)
      (readOrders userId role status limit ties pages (n + 1) read) s (.ok (some r))) :
    read ⊆ r ∧ (∀ row ∈ r, row ∈ read ∨ (mine userId status role).admits row.2 = true) ∧
      ∀ i id ties', (listed (mine userId status role) s.toTables ties')[i]? = some id →
        n * limit ≤ i → ∃ o, (id, o) ∈ r := by
  induction pages generalizing n read s with
  | zero => cases h
  | succ pages ih =>
    obtain ⟨s₁, s₂, first, second, rest⟩ := findAll_answers h
    dsimp only at rest
    split at rest
    · rename_i last
      cases rest
      refine ⟨List.subset_append_left _ _, fun row member => ?_, fun i id ties' at_i ahead => ?_⟩
      · exact (List.mem_append.mp member).imp_right page_admits
      · rcases page_has first second untied at_i ahead with ⟨o, here⟩ | ⟨j, at_j, beyond⟩
        · exact ⟨o, List.mem_append_right _ here⟩
        · exfalso
          have inside : j < (s₂.ordersWhere (mine userId status role)).length := by
            have bound := (List.getElem?_eq_some_iff.mp at_j).1
            rwa [listed, List.length_map, length_ordersSorted] at bound
          have full := mt (lt_totalPages_iff positive).mpr (Nat.not_lt.mpr last)
          exact full (Nat.lt_of_le_of_lt beyond inside)
    · obtain ⟨all, only, later⟩ := ih (second.untied (first.untied untied)) rest
      refine ⟨fun row member => all (List.mem_append_left _ member), fun row member => ?_,
        fun i id ties' at_i ahead => ?_⟩
      · rcases only row member with before | admits
        · exact (List.mem_append.mp before).imp_right page_admits
        · exact Or.inr admits
      · rcases page_has first second untied at_i ahead with ⟨o, here⟩ | ⟨j, at_j, beyond⟩
        · exact ⟨o, all (List.mem_append_right _ here)⟩
        · exact later j id ties' at_j beyond

end

/-! What the calls of the market do to the orders of a list. -/

theorem OrderUpdateInput.apply_createdAt {data : OrderUpdateInput} {row new : Order}
    (h : data.apply row = some new) : new.createdAt = row.createdAt := by
  simp only [OrderUpdateInput.apply, Option.bind_eq_bind, Option.bind_eq_some_iff] at h
  obtain ⟨status, _, made⟩ := h
  cases made
  rfl

/-- No call changes when an order was made. -/
theorem createdAt_call (c : ListCall) {db : Db} {id : Id} {old new : Order}
    (found : db.orders.find? id = some old)
    (after : (execList c db).1.orders.find? id = some new) : new.createdAt = old.createdAt := by
  have alone (same : (execList c db).1.orders = db.orders) : new.createdAt = old.createdAt := by
    rw [same, found] at after
    exact congrArg Order.createdAt (Option.some.inj after.symm)
  rcases c with c | c
  · change (exec c db).1.toTables.orders.find? id = some new at after
    change (exec c db).1.toTables.orders = db.toTables.orders → _ at alone
    have effect := call_effect c db
    generalize (exec c db).2 = reply at effect
    generalize (exec c db).1.toTables = tables at effect after alone
    cases effect with
    | @userWithdrawn u user _ =>
      rw [Prisma.orders_withdrawn, found, Option.map_some] at after
      cases after
      unfold Prisma.cancelUnpaid
      split <;> rfl
    | @orderMade made now data fee fresh =>
      rcases Table.find?_insert_cases after with there | ⟨rfl, _⟩
      · cases found.symm.trans there
        rfl
      · cases found.symm.trans fresh
    | @orderSet set data before made there applied =>
      rw [Tables.orders_withOrders, Table.find?_set there] at after
      split at after
      · rename_i same
        subst same
        cases found.symm.trans there
        cases after
        exact OrderUpdateInput.apply_createdAt applied
      · cases found.symm.trans after
        rfl
    | @orderErased erased row there =>
      rw [Prisma.find?_withoutOrder] at after
      split at after
      · cases after
      · cases found.symm.trans after
        rfl
    | _ => exact alone rfl
  · exact alone (by cases c <;> rfl)

theorem onwards_step {w : OrderWhere} {p : ListPool} {turn : Turn ListOp}
    (stays : Stays w p.store.toTables (listService.step p turn).store.toTables)
    (untied : Untied w (listService.step p turn).store.toTables) :
    Onwards w p.store.toTables (listService.step p turn).store.toTables where
  kept := by
    rintro ⟨id, o⟩ here
    obtain ⟨⟨id', o'⟩, there, same⟩ := List.mem_map.mp (stays (id, o) here)
    change id' = id at same
    subst same
    refine ⟨(id', o'), there, rfl, ?_⟩
    have found := (mem_ordersWhere.mp here).1
    have after := (mem_ordersWhere.mp there).1
    rcases listService.step_cases p turn with hs | ⟨op, _, hs⟩ | ⟨i, t, c, next, rfl, ht, hr, hs⟩
    · rw [hs] at after
      cases found.symm.trans after
      rfl
    · rw [hs] at after
      cases found.symm.trans after
      rfl
    · rw [hs] at after
      exact createdAt_call c found after
  untied _ := untied

/-- A client that reads a list of orders page by page while the market goes on, and comes to a page
that is answered as the last, has read every order that was there when it began: as long as none
leaves the list, deleted or given another status than it asks for, and no two that are in it at one
time were made at one time. -/
theorem orders_read (p : ListPool) (userId : Id) (role : OrdersRole) (status : Option OrderStatus)
    (limit : Nat) (ties : Nat → Id → Nat) (pages : Nat) (positive : 1 ≤ limit)
    (untied : Untied (mine userId status role) p.store.toTables) (after : List (Turn ListOp))
    (stays : Along listService.step
      (fun q turn => Stays (mine userId status role) q.store.toTables
          (listService.step q turn).store.toTables ∧
        Untied (mine userId status role) (listService.step q turn).store.toTables)
      (listService.step p (.arrive (.read userId role status limit ties pages))) after)
    {t : ListThread} {read : List (Id × Order)}
    (ht : (run listService.step p
      (.arrive (.read userId role status limit ties pages) :: after)).threads[p.threads.length]? =
        some t) (ended : t.rest = .done (.read (some read))) :
    (∀ row ∈ p.store.ordersWhere (mine userId status role), ∃ o, (row.1, o) ∈ read) ∧
      ∀ row ∈ read, (mine userId status role).admits row.2 = true := by
  have answers := listService.answers_of_run
    (fun s s' => Onwards (mine userId status role) s.toTables s'.toTables)
    (fun s => Onwards.refl _ _) (fun _ _ _ h k => h.trans k)
    (stays.mono fun q turn h => onwards_step h.1 h.2) ht ended
  obtain ⟨all, answered, same⟩ := MayAnswer.of_map answers
  cases same
  obtain ⟨-, only, every⟩ := read_answers positive untied answered
  constructor
  · intro row member
    have there : row.1 ∈ listed (mine userId status role) p.store.toTables fun _ => 0 :=
      List.mem_map.mpr ⟨row, mem_ordersSorted.mpr member, rfl⟩
    obtain ⟨i, at_i⟩ := List.mem_iff_getElem?.mp there
    exact every i row.1 _ at_i (by omega)
  · intro row member
    rcases only row member with before | admits
    · cases before
    · exact admits

def purchase (n : Nat) (status : OrderStatus) : Id × Order :=
  ("order-" ++ toString n, {
    buyerId := "bob"
    sellerId := "ann"
    productId := "lamp"
    orderNumber := "ORD-" ++ toString n
    totalAmount := 10
    status := status
    createdAt := n })

/-- The market when bob has ordered the lamp three times and paid for it once. -/
def unpaidOrders : Db :=
  { market with
    orders := ⟨[purchase 1 .pending, purchase 2 .paid, purchase 3 .pending], by decide⟩
    linked := by decide }

/-- Bob reads the orders he has not paid, one on a page, and orders again: between the two queries
of the second page the new order is made. -/
def reading : List (Turn ListOp) :=
  [.call 0, .arrive (.market (.ordersCreate "bob" lampOrder (newOrder 4))), .call 1, .call 0,
    .call 1, .call 0, .call 1, .call 1, .call 0, .call 0, .call 0]

def unpaid : ListOp := .read "bob" .buyer (some .pending) 1 (fun _ _ => 0) 3

def readOf (t : ListThread) : Option (List (Id × Order)) :=
  match t.rest with
  | .done (.read read) => read
  | _ => none

theorem readOf_eq_some {t : ListThread} {read : List (Id × Order)} (h : readOf t = some read) :
    t.rest = .done (.read (some read)) := by
  unfold readOf at h
  split at h
  · rename_i given
    rw [given, h]
  · cases h

theorem orders_read_bob :
    ∃ read, ((run listService.step ⟨unpaidOrders, []⟩ (.arrive unpaid :: reading)).threads[0]?.bind
      readOf) = some read ∧ (∃ o, ("order-1", o) ∈ read) ∧ ∃ o, ("order-3", o) ∈ read := by
  cases answer : (run listService.step ⟨unpaidOrders, []⟩
      (.arrive unpaid :: reading)).threads[0]?.bind readOf with
  | none => exact absurd answer (by decide +kernel)
  | some read =>
    obtain ⟨t, ht, own⟩ := Option.bind_eq_some_iff.mp answer
    have all := (orders_read ⟨unpaidOrders, []⟩ "bob" .buyer (some .pending) 1 (fun _ _ => 0) 3
      (by decide) (by decide +kernel) reading (by decide +kernel) ht (readOf_eq_some own)).1
    exact ⟨read, rfl, all (purchase 1 .pending) (by decide +kernel),
      all (purchase 3 .pending) (by decide +kernel)⟩

/- Bob has read the order of the last page twice. -/
example : ((run listService.step ⟨unpaidOrders, []⟩ (.arrive unpaid :: reading)).threads[0]?.bind
    readOf).map (List.map Prod.fst) = some ["order-3", "order-1", "order-1"] := by decide +kernel

end SecondhandApi
