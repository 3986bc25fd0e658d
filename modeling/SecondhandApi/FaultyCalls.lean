import SecondhandApi.Effects

/-! The three operations that write an order and then its product, when any of their calls
may fail. Nothing undoes the first write, so this module says when it is left behind. -/
namespace SecondhandApi
open Keyed Interleaving

/-- A request that throws leaves orders and products as they were. -/
def AllOrNothing {A : Type} (db : Db) (out : Db × Except ApiError A) : Prop :=
  (∃ e, out.2 = .error e) → out.1.orders = db.orders ∧ out.1.products = db.products

def Op.writesTwice : Op → Bool
  | .ordersCreate .. | .ordersCancel .. | .ordersConfirm .. => true
  | _ => false

/- How many lookups `generateOrderNumber` makes on these draws. -/
def lookups (t : Tables) (stem : String) : List Draw → Nat
  | [] => 0
  | d :: rest =>
    if (t.orders.findBy (fun o => o.orderNumber = d.orderNumber stem)).isSome then
      lookups t stem rest + 1
    else 1

/-- The first `n` calls get through and the one after them fails. -/
def FailsAt (faults : Nat → Bool) (n : Nat) : Prop := (∀ i < n, faults i = false) ∧ faults n = true

/-- The order was written and the write of its product, the last call, fails. -/
def Halfway (db : Db) (faults : Nat → Bool) : Op → Prop
  | .ordersCreate buyerId dto new => (∃ product order, CreateGranted db buyerId dto new product order) ∧
      FailsAt faults (lookups db.toTables "ORD" new.draws + 2)
  | .ordersCancel id userId _ => (∃ order product, CancelGranted db id userId order product) ∧
      FailsAt faults 2
  | .ordersConfirm id userId _ soldAt =>
      (∃ order product, ConfirmGranted db soldAt id userId order product) ∧ FailsAt faults 2
  | _ => False

/-! Single calls. -/

section
variable {A B : Type} {db mid : Db} {e : PrismaError} {faults : Nat → Bool}

theorem AllOrNothing.of_same {out : Db × Except ApiError A} (same : out.1 = db) :
    AllOrNothing db out := fun _ => ⟨by rw [same], by rw [same]⟩

theorem AllOrNothing.of_ok {out : Db × Except ApiError A} {a : A} (ok : out.2 = .ok a) :
    AllOrNothing db out := by
  rintro ⟨e, failed⟩
  cases ok.symm.trans failed

theorem allOrNothing_map (f : A → B) (out : Db × Except ApiError A) :
    AllOrNothing db (out.1, out.2.map f) ↔ AllOrNothing db out := by
  obtain ⟨db', r⟩ := out
  cases r with
  | ok a => exact ⟨fun _ => .of_ok rfl, fun _ => .of_ok rfl⟩
  | error e => exact ⟨fun h _ => h ⟨e, rfl⟩, fun h _ => h ⟨e, rfl⟩⟩

theorem failsAt_succ {n : Nat} :
    FailsAt faults (n + 1) ↔ faults 0 = false ∧ FailsAt (fun i => faults (i + 1)) n := by
  constructor
  · rintro ⟨before, fails⟩
    exact ⟨before 0 (by omega), fun i hi => before (i + 1) (by omega), fails⟩
  · rintro ⟨first, before, fails⟩
    refine ⟨fun i hi => ?_, fails⟩
    cases i with
    | zero => exact first
    | succ i => exact before i (by omega)

theorem await_faulted (c : Call) (f : c.Result → Req A) (h : faults 0 = true) :
    (await c >>= f).faulty exec (outage e) faults db = (db, .error (.database e)) :=
  Request.faulty_faulted exec (outage e) h c _ db

theorem await_answered (c : Call) (f : c.Result → Req A) (h : faults 0 = false)
    {a : c.Result} (done : exec c db = (mid, .ok a)) :
    (await c >>= f).faulty exec (outage e) faults db =
      (f a).faulty exec (outage e) (fun n => faults (n + 1)) mid := by
  have called := Request.faulty_answered exec (outage e) h c (fun r => settle r >>= f) db
  rw [done] at called
  exact called

/- A call that the database refuses ends the request, whether it got there or not. -/
theorem await_refused (c : Call) (f : c.Result → Req A) {e' : PrismaError}
    (done : exec c db = (db, .error e')) :
    ((await c >>= f).faulty exec (outage e) faults db).1 = db := by
  cases h : faults 0 with
  | true => rw [await_faulted c f h]
  | false =>
    have called := Request.faulty_answered exec (outage e) h c (fun r => settle r >>= f) db
    rw [done] at called
    exact congrArg Prod.fst called

/-- A read passes the question on to what follows it. -/
theorem read_iff (c : Call) (f : c.Result → Req A) {a : c.Result}
    (done : exec c db = (db, .ok a)) :
    AllOrNothing db ((await c >>= f).faulty exec (outage e) faults db) ↔ (faults 0 = false →
      AllOrNothing db ((f a).faulty exec (outage e) (fun n => faults (n + 1)) db)) := by
  cases h : faults 0 with
  | true =>
    rw [await_faulted c f h]
    exact ⟨fun _ answered => (by cases answered), fun _ => .of_same rfl⟩
  | false =>
    rw [await_answered c f h done]
    exact ⟨fun all _ => all, fun all => all rfl⟩

/-- The two writes at the end of each of the three operations. -/
theorem twoWrites_iff (c : Call) (c' : c.Result → Call) (g : c.Result → A) {a : c.Result}
    {b : (c' a).Result} {last : Db} (first : exec c db = (mid, .ok a))
    (second : exec (c' a) mid = (last, .ok b)) (changed : mid.orders ≠ db.orders)
    (faults : Nat → Bool) :
    AllOrNothing db ((await c >>= fun a => await (c' a) >>= fun _ => pure (g a)).faulty exec
      (outage e) faults db) ↔ ¬ FailsAt faults 1 := by
  cases h : faults 0 with
  | true =>
    rw [await_faulted c _ h]
    exact ⟨fun _ fails => (by cases h.symm.trans (fails.1 0 (by omega))),
      fun _ => .of_same rfl⟩
  | false =>
    rw [await_answered c _ h first]
    cases h' : faults 1 with
    | true =>
      rw [await_faulted (c' a) _ h']
      refine ⟨fun all => absurd (all ⟨_, rfl⟩).1 changed, fun none => absurd ⟨?_, h'⟩ none⟩
      intro i hi
      have zero : i = 0 := by omega
      rw [zero, h]
    | false =>
      rw [await_answered (c' a) _ h' second]
      exact ⟨fun _ fails => (by cases h'.symm.trans fails.2), fun _ => .of_ok rfl⟩

end

/-! The two ways on which an operation reaches its end: a check stops it, or it writes. -/

section
variable {A : Type} {db : Db} {faults : Nat → Bool} {G : Prop}

theorem stopped_iff {P F : Prop} {out : Db × Except ApiError A} (same : out.1 = db)
    (closed : ¬ G) : (P → AllOrNothing db out) ↔ ¬ (G ∧ F) :=
  iff_of_true (fun _ => .of_same same) (fun both => closed both.1)

theorem written_iff {P : Prop} {n : Nat} (granted : G)
    (writes : P ↔ ¬ FailsAt (fun i => faults (i + 1)) n) :
    (faults 0 = false → P) ↔ ¬ (G ∧ FailsAt faults (n + 1)) := by
  rw [failsAt_succ, writes]
  exact ⟨fun h both => h both.2.1 both.2.2, fun h first fails => h ⟨granted, first, fails⟩⟩

theorem failsAt_add {k n : Nat} : FailsAt faults (n + k) ↔
    (∀ i < k, faults i = false) ∧ FailsAt (fun i => faults (i + k)) n := by
  constructor
  · rintro ⟨before, fails⟩
    exact ⟨fun i hi => before i (by omega), fun i hi => before (i + k) (by omega), fails⟩
  · rintro ⟨first, before, fails⟩
    refine ⟨fun i hi => ?_, fails⟩
    by_cases early : i < k
    · exact first i early
    · have late : faults (i - k + k) = false := before (i - k) (by omega)
      have same : i - k + k = i := by omega
      rwa [same] at late

end

section
variable {db : Db} {e : PrismaError} {faults : Nat → Bool}

/-- The loop of lookups passes the question on with the number it has found. -/
theorem lookups_iff {A : Type} (faults : Nat → Bool) (draws : List Draw) (f : String → Req A) :
    AllOrNothing db ((OrdersRepository.generateOrderNumber draws >>= f).faulty exec (outage e)
      faults db) ↔
    ∀ number, freshNumber db.toTables "ORD" draws = some number →
      (∀ i < lookups db.toTables "ORD" draws, faults i = false) →
      AllOrNothing db ((f number).faulty exec (outage e)
        (fun n => faults (n + lookups db.toTables "ORD" draws)) db) := by
  induction draws generalizing faults with
  | nil => exact iff_of_true (.of_same rfl) (fun _ drawn => by cases drawn)
  | cons d rest ih =>
    have looked : exec (.orderFindByOrderNumber (d.orderNumber "ORD")) db =
        (db, .ok (db.orders.findBy (fun o => o.orderNumber = d.orderNumber "ORD"))) := rfl
    unfold OrdersRepository.generateOrderNumber
    rw [Request.bind_assoc]
    refine (read_iff _ _ looked).trans ?_
    by_cases taken : (db.orders.findBy (fun o => o.orderNumber = d.orderNumber "ORD")).isSome = true
    · simp only [freshNumber, lookups, if_pos taken]
      constructor
      · intro all number drawn clear
        have rest_clear : ∀ i < lookups db.toTables "ORD" rest, faults (i + 1) = false :=
          fun i hi => clear (i + 1) (by omega)
        exact (ih (fun n => faults (n + 1))).mp (all (clear 0 (by omega))) number drawn
          rest_clear
      · intro all first
        refine (ih (fun n => faults (n + 1))).mpr (fun number drawn clear => ?_)
        refine all number drawn (fun i hi => ?_)
        cases i with
        | zero => exact first
        | succ i => exact clear i (by omega)
    · simp only [freshNumber, lookups, if_neg taken]
      constructor
      · intro all number drawn clear
        cases drawn
        exact all (clear 0 (by omega))
      · intro all first
        refine all _ rfl (fun i hi => ?_)
        have zero : i = 0 := by omega
        rw [zero, first]

theorem set_ne {orders : Table Id Order} {id : Id} {old new : Order}
    (found : orders.find? id = some old) (other : new.status ≠ old.status) :
    orders.set id new ≠ orders := by
  intro same
  have there : (orders.set id new).find? id = some new := by
    rw [Table.find?_set_self found]
  rw [same, found] at there
  exact other (congrArg Order.status (Option.some.inj there)).symm

/-- A closing; no order is taken to a status that it could be taken from. -/
theorem close_allOrNothing_iff {closing : OrdersService.Closing} {now : Date}
    {write : Order → Order} {sell : Product → Product} (c : Closes closing now write sell)
    (moves : ∀ order, (write order).status ∉ closing.opens) (id userId : Id) :
    AllOrNothing db ((OrdersService.close closing id userId now).faulty exec (outage e) faults db) ↔
      ¬ ((∃ order product, CloseGranted db closing id userId order product) ∧
        FailsAt faults 2) := by
  refine (read_iff (.orderFindById id) _ rfl).trans ?_
  cases found : db.orders.find? id with
  | none =>
    refine stopped_iff rfl ?_
    rintro ⟨_, _, g⟩
    cases found.symm.trans g.found
  | some order =>
    by_cases other : order.buyerId ≠ userId
    · simp only [if_pos other]
      refine stopped_iff rfl ?_
      rintro ⟨_, _, g⟩
      cases found.symm.trans g.found
      exact other g.buyer
    · by_cases shut : order.status ∉ closing.opens
      · simp only [if_neg other, if_pos shut]
        refine stopped_iff rfl ?_
        rintro ⟨_, _, g⟩
        cases found.symm.trans g.found
        exact shut g.opened
      · simp only [if_neg other, if_neg shut]
        have opened : order.status ∈ closing.opens := not_not.mp shut
        obtain ⟨product, item⟩ := Table.has_iff.mp (db.linked.order id order found).2.2
        obtain ⟨mid, last, closed, between, sold, _⟩ := c.writes db found item
        have changed : mid.orders ≠ db.orders := by
          rw [between]
          refine set_ne found (fun same => moves order ?_)
          rw [same]
          exact opened
        refine written_iff ⟨order, product, found, not_not.mp other, opened, item⟩ ?_
        exact twoWrites_iff (.orderUpdate id (OrdersRepository.statusData closing.status now))
          (fun _ => .productUpdate order.productId closing.sale) (fun row => row)
          (exec_of_alone closed) (exec_of_alone sold) changed _

/-- The two writes of a granted creation on the number it draws; the first changes the orders. -/
theorem CreateGranted.writes {buyerId : Id} {dto : CreateOrderDto} {new : NewOrder}
    {product : Product} {order : Order} (g : CreateGranted db buyerId dto new product order) :
    ∃ (number : String) (mid last : Db) (reserved : Product),
      freshNumber db.toTables "ORD" new.draws = some number ∧
      exec (.orderCreate new.id new.now (dto.toInput buyerId product.sellerId number)) db =
        (mid, .ok order) ∧
      exec (.productUpdate dto.productId { status := .value .reserved }) mid =
        (last, .ok reserved) ∧ mid.orders ≠ db.orders := by
  obtain ⟨number, t, drawn, made⟩ := g.made
  rcases exec_write db (c := .orderCreate new.id new.now
    (dto.toInput buyerId product.sellerId number)) rfl with
    ⟨_, refused, _⟩ | ⟨mid, row, ok, created⟩
  · cases refused.symm.trans made
  cases ok.symm.trans made
  obtain ⟨_, _, fresh, _, _, _, grown⟩ := Prisma.orderCreate_ok ok
  have still : mid.products.find? dto.productId = some product := by
    rw [grown]; exact g.found
  obtain ⟨last, reserved, _⟩ := productStatus_alone .reserved still
  refine ⟨number, mid, last, _, drawn, created, exec_of_alone reserved, fun same => ?_⟩
  have there : mid.orders.find? new.id = some order := by
    rw [grown]
    exact Table.find?_insert_self fresh _
  rw [same, fresh] at there
  cases there

theorem create_allOrNothing_iff (buyerId : Id) (dto : CreateOrderDto) (new : NewOrder) :
    AllOrNothing db ((OrdersService.create buyerId dto new).faulty exec (outage e) faults db) ↔
      ¬ Halfway db faults (.ordersCreate buyerId dto new) := by
  refine (read_iff (.productFindById dto.productId) _ rfl).trans ?_
  cases found : db.products.find? dto.productId with
  | none =>
    refine stopped_iff rfl ?_
    rintro ⟨_, _, g⟩
    cases found.symm.trans g.found
  | some product =>
    by_cases closed : product.status ≠ .active
    · simp only [if_pos closed]
      refine stopped_iff rfl ?_
      rintro ⟨_, _, g⟩
      cases found.symm.trans g.found
      exact closed g.active
    · by_cases own : product.sellerId = buyerId
      · simp only [if_neg closed, if_pos own]
        refine stopped_iff rfl ?_
        rintro ⟨_, _, g⟩
        cases found.symm.trans g.found
        exact g.other own
      · simp only [if_neg closed, if_neg own]
        by_cases granted : ∃ product order, CreateGranted db buyerId dto new product order
        · have steps : lookups db.toTables "ORD" new.draws + 2 =
              1 + lookups db.toTables "ORD" new.draws + 1 := by omega
          rw [Halfway, steps]
          refine written_iff granted ?_
          rw [lookups_iff, failsAt_add]
          obtain ⟨_, _, g⟩ := granted
          cases found.symm.trans g.found
          obtain ⟨number, mid, last, _, drawn, created, reserved, changed⟩ := g.writes
          have writes := twoWrites_iff (e := e)
            (.orderCreate new.id new.now (dto.toInput buyerId product.sellerId number))
            (fun _ => .productUpdate dto.productId { status := .value .reserved })
            (fun row => row) created reserved changed
            (fun i => faults (i + lookups db.toTables "ORD" new.draws + 1))
          constructor
          · intro all both
            exact writes.mp (all number drawn both.1) both.2
          · intro none number' drawn' clear
            cases drawn.symm.trans drawn'
            exact writes.mpr (fun fails => none ⟨clear, fails⟩)
        · refine iff_of_true (fun _ => (lookups_iff _ _ _).mpr (fun number drawn _ => ?_))
            (fun both => granted both.1)
          refine .of_same ?_
          rcases exec_write db (c := .orderCreate new.id new.now
            (dto.toInput buyerId product.sellerId number)) rfl with
            ⟨e', _, refused⟩ | ⟨mid, row, ok, _⟩
          · exact await_refused _ _ refused
          · exact absurd ⟨product, row, found, not_not.mp closed, own, number, _, drawn, ok⟩ granted

end

/-- Each of the three operations, under any faults, leaves orders and products as they were
when it throws, exactly unless the fault hits the call between its two writes. -/
theorem all_or_nothing_iff (db : Db) (op : Op) (scope : op.writesTwice = true) (e : PrismaError)
    (faults : Nat → Bool) :
    AllOrNothing db (op.program.faulty exec (outage e) faults db) ↔ ¬ Halfway db faults op := by
  cases op with
  | ordersCreate buyerId dto new =>
    rw [Op.program, Request.faulty_map, allOrNothing_map]
    exact create_allOrNothing_iff buyerId dto new
  | ordersCancel id userId now =>
    rw [Op.program, Request.faulty_map, allOrNothing_map]
    have moves : OrderStatus.cancelled ∉ OrdersService.cancellableStatuses := by decide
    exact close_allOrNothing_iff (cancelling_closes now) (fun _ => moves) id userId
  | ordersConfirm id userId now soldAt =>
    rw [Op.program, Request.faulty_map, allOrNothing_map]
    have moves : OrderStatus.confirmed ∉ [OrderStatus.delivered] := by decide
    exact close_allOrNothing_iff (confirming_closes now soldAt) (fun _ => moves) id userId
  | _ => cases scope

/-- The first call of an order fails and nothing is left of it. -/
theorem all_or_nothing_first :
    AllOrNothing market ((Op.ordersCreate "bob" lampOrder (newOrder 1)).program.faulty exec
      (outage .unavailable) (fun n => n == 0) market) :=
  (all_or_nothing_iff market (.ordersCreate "bob" lampOrder (newOrder 1)) rfl .unavailable
    (fun n => n == 0)).mpr (fun half => by cases half.2.1 0 (by decide))

/-- The last call of an order fails: the order stays and the lamp is still ACTIVE. -/
theorem something_left : ¬ ∀ (db : Db) (op : Op) (e : PrismaError) (faults : Nat → Bool),
    op.writesTwice = true → AllOrNothing db (op.program.faulty exec (outage e) faults db) := by
  intro always
  let op : Op := .ordersCreate "bob" lampOrder (newOrder 1)
  have same := (always market op .unavailable (fun n => n == 3) rfl ⟨.database .unavailable, rfl⟩).1
  have there : (op.program.faulty exec (outage .unavailable) (fun n => n == 3)
      market).1.orders.has "order-1" = true := by decide +kernel
  rw [same] at there
  cases there

end SecondhandApi
