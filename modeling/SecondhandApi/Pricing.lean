import SecondhandApi.Obligations
import SecondhandApi.OrderCalls

/-! What an order costs. The schema calls `totalAmount` the price of the product plus the
shipping fee; the service stores the amounts that the client sent. This module says when
the two agree, for every order made in any interleaving. -/
namespace SecondhandApi
open Keyed Interleaving

def Op.pricing : Op → Bool
  | .ordersCreate .. | .ordersUpdate .. | .productsUpdate .. => true
  | _ => false

/- None of their calls deletes an order. -/
def Call.keepsOrders (c : Call) : Prop := ∀ id, c ≠ .orderDelete id

theorem pricing_keeps (op : Op) (scope : op.pricing = true) :
    Request.Makes Call.keepsOrders op.program := by
  have reads (c : Call) (reads : c.reads = true) : c.keepsOrders := by
    rintro id rfl
    cases reads
  cases op with
  | ordersCreate buyerId dto new =>
    exact Request.makes_map (create_makes reads (fun _ _ _ => nofun) nofun) _
  | ordersUpdate id userId dto => exact Request.makes_map (update_makes reads userId dto nofun) _
  | productsUpdate id userId dto =>
    exact Request.makes_map (edit_makes reads userId dto (fun _ => nofun)) _
  | _ => cases scope

/-- The row that an accepted `order.create` makes holds the client's amounts. -/
theorem orderCreate_asked {t t' : Tables} {id : Id} {now : Date} {data : OrderCreateInput}
    {row : Order} (h : Prisma.orderCreate t id now data = .ok (t', row)) :
    ∃ fee, data.shippingFee.required 0 = some fee ∧ row = data.row fee now := by
  unfold Prisma.orderCreate at h
  split at h
  · cases h
  · rename_i fee asked
    repeat' split at h
    all_goals cases h
    exact ⟨fee, asked, rfl⟩

section
variable {db : Db} {o : Id}

/-- The order that is made holds them. -/
theorem exec_orderCreate {now : Date} {data : OrderCreateInput}
    (ok : Accepted db (.orderCreate o now data)) :
    ∃ fee, data.shippingFee.required 0 = some fee ∧ db.orders.find? o = none ∧
      (exec (.orderCreate o now data) db).1.orders.find? o = some (data.row fee now) := by
  rcases exec_write (c := .orderCreate o now data) db rfl with ⟨e, _, done⟩ | ⟨mid, row, made, done⟩
  · obtain ⟨a, accepted⟩ := ok
    rw [done] at accepted
    cases accepted
  · obtain ⟨fee, asked, rfl⟩ := orderCreate_asked made
    obtain ⟨_, _, fresh, _, _, _, after⟩ := Prisma.orderCreate_ok made
    refine ⟨fee, asked, fresh, ?_⟩
    rw [done, after]
    exact Table.find?_insert_self fresh _

end

/-- An order is made for the price that its product has stored at that moment plus the fee. -/
def Priced (p : Requests) (_ : Running) : Call → Prop
  | .orderCreate id now data => Accepted p.store (.orderCreate id now data) →
    ∃ product fee, p.store.products.find? data.product = some product ∧
      data.shippingFee.required 0 = some fee ∧ (data.totalAmount : Int) = product.price + fee
  | _ => True

/-- Every order that a turn of the run has made costs, at its end, the price that its product
had before that turn plus the order's shipping fee. -/
def AmountsRight (db : Db) (turns : List (Turn Op)) : Prop :=
  ∀ before turn mid, turns = before ++ turn :: mid → ∀ o order,
    (run service.step db.idle before).store.orders.find? o = none →
    (run service.step db.idle (before ++ [turn])).store.orders.has o = true →
    (run service.step db.idle turns).store.orders.find? o = some order →
    ∃ product,
      (run service.step db.idle before).store.products.find? order.productId = some product ∧
      (order.totalAmount : Int) = product.price + order.shippingFee

/-- No request of the pool is going to delete an order. -/
def Keeping : Requests → Prop :=
  Service.Obedient (fun _ _ c => c.keepsOrders) (fun _ _ _ => True)

section
variable {p : Requests} {turn : Turn Op} {o : Id}

theorem keeping_step (h : Keeping p) (arrives : ∀ op, turn = .arrive op → op.pricing = true) :
    Keeping (service.step p turn) :=
  Service.obedient_step (fun op here => (pricing_keeps op here).obeys []) p turn h arrives

theorem keeping_run {db : Db} {turns : List (Turn Op)}
    (scope : ∀ turn ∈ turns, ∀ op, turn = .arrive op → op.pricing = true) :
    Keeping (run service.step db.idle turns) := by
  have arrivals : Along service.step
      (fun _ turn => ∀ op, turn = .arrive op → op.pricing = true) db.idle turns :=
    along_of_forall scope
  exact run_invariant (fun _ _ h arrives => keeping_step h arrives) (fun _ none => by cases none)
    arrivals

theorem amounts_turn (turn : Turn Op) (h : Keeping p) {row : Order}
    (found : p.store.orders.find? o = some row) :
    ∃ new, (service.step p turn).store.orders.find? o = some new ∧ new.terms = row.terms :=
  service.store_step (I := fun db => ∃ new, db.orders.find? o = some new ∧ new.terms = row.terms)
    ⟨row, found, rfl⟩ turn (fun _ _ c _ _ ht hr =>
      (call_effect c p.store).order_kept (Service.obedient_pending h ht hr o) found)

/-- An order that a turn adds was asked for by the call of that turn. -/
theorem made_turn (absent : p.store.orders.find? o = none)
    (there : (service.step p turn).store.orders.has o = true) :
    ∃ i t now data, turn = .call i ∧ p.threads[i]? = some t ∧
      t.rest.pending = some (.orderCreate o now data) ∧
      Accepted p.store (.orderCreate o now data) ∧
      (service.step p turn).store = (exec (.orderCreate o now data) p.store).1 := by
  have missing : ¬ p.store.orders.has o = true := Table.not_has_iff.mpr absent
  rcases service.step_cases p turn with hs | ⟨op, _, hs⟩ | ⟨i, t, c, next, called, ht, hr, hs⟩
  · rw [hs] at there
    exact absurd there missing
  · rw [hs] at there
    exact absurd there missing
  · have there : (exec c p.store).1.orders.has o = true := by
      rw [hs] at there
      exact there
    obtain ⟨new, found⟩ := Table.has_iff.mp there
    rcases (call_effect c p.store).order_before found with
      ⟨old, before, _⟩ | ⟨now, data, fee, rfl, _, _⟩
    · cases absent.symm.trans before
    refine ⟨i, t, now, data, called, ht, by rw [hr, Request.pending_call], ?_, by rw [hs]; rfl⟩
    rcases exec_write (c := .orderCreate o now data) p.store rfl with
      ⟨e, _, refused⟩ | ⟨mid, row, _, accepted⟩
    · rw [refused] at there
      exact absurd there missing
    · exact ⟨row, by rw [accepted]⟩

end

section
variable {db : Db} {before : List (Turn Op)} {turn : Turn Op}

/-- What an order costs stays the same after the turn that made it. -/
theorem amounts_run {mid : List (Turn Op)} {o : Id} {row : Order}
    (scope : ∀ t ∈ before ++ turn :: mid, ∀ op : Op, t = .arrive op → op.pricing = true)
    (found : (run service.step db.idle (before ++ [turn])).store.orders.find? o = some row) :
    ∃ new, (run service.step db.idle (before ++ turn :: mid)).store.orders.find? o = some new ∧
      new.terms = row.terms := by
  have split : before ++ turn :: mid = (before ++ [turn]) ++ mid := by simp
  rw [split] at scope ⊢
  have arrivals : Along service.step (fun _ t => ∀ op, t = .arrive op → op.pricing = true)
      (run service.step db.idle (before ++ [turn])) mid :=
    along_of_forall (fun t ht => scope t (List.mem_append_right _ ht))
  have keeping : Keeping (run service.step db.idle (before ++ [turn])) :=
    keeping_run (fun t ht => scope t (List.mem_append_left _ ht))
  rw [run_append]
  refine (run_invariant (I := fun p => Keeping p ∧
    ∃ new, p.store.orders.find? o = some new ∧ new.terms = row.terms) (fun p t h arrives => ?_)
    ⟨keeping, row, found, rfl⟩ arrivals).2
  obtain ⟨new, there, same⟩ := h.2
  obtain ⟨newer, after, again⟩ := amounts_turn t h.1 there
  exact ⟨keeping_step h.1 arrives, newer, after, again.trans same⟩

/-- An order made at its price has the right amounts. -/
theorem priced_made {i : Nat} {t : Running} {o : Id} {now : Date} {data : OrderCreateInput}
    {p : Requests} (ok : Service.OnCalls Priced p (.call i)) (ht : p.threads[i]? = some t)
    (pending : t.rest.pending = some (.orderCreate o now data))
    (accepted : Accepted p.store (.orderCreate o now data)) :
    ∃ row product, (exec (.orderCreate o now data) p.store).1.orders.find? o = some row ∧
      p.store.products.find? row.productId = some product ∧
      (row.totalAmount : Int) = product.price + row.shippingFee := by
  obtain ⟨fee, asked, _, made⟩ := exec_orderCreate accepted
  obtain ⟨product, fee', found, asked', price⟩ := ok t _ ht pending accepted
  cases asked.symm.trans asked'
  exact ⟨data.row fee now, product, made, found, price⟩

end

/-- In every interleaving the orders cost what their products cost when they were made, plus
the fee, exactly as long as every accepted creation asks for that amount. -/
theorem amounts_right_iff (db : Db) (turns : List (Turn Op))
    (scope : ∀ turn ∈ turns, ∀ op, turn = .arrive op → op.pricing = true) :
    (∀ before after, turns = before ++ after → AmountsRight db before) ↔
    Along service.step (Service.OnCalls Priced) db.idle turns := by
  constructor
  · intro right
    refine along_iff_at.mpr (fun before turn after split => ?_)
    have right := right (before ++ [turn]) after (by rw [split, List.append_assoc]; rfl)
    cases turn with
    | arrive op => trivial
    | call i =>
      intro t c ht pending
      cases c with
      | orderCreate o now data =>
        intro accepted
        obtain ⟨fee, asked, fresh, made⟩ := exec_orderCreate accepted
        obtain ⟨next, hr⟩ := Request.pending_eq_some pending
        have there : (run service.step db.idle (before ++ [.call i])).store.orders.find? o =
            some (data.row fee now) := by
          rw [run_append, run_cons, run_nil, service.step_call ht hr]
          exact made
        obtain ⟨product, found, price⟩ := right before (.call i) [] rfl o _ fresh
          (Table.has_iff.mpr ⟨_, there⟩) there
        exact ⟨product, fee, found, asked, price⟩
      | _ => trivial
  · rintro ok before after rfl b turn mid rfl o order absent there stored
    have ok := (along_append.mp (along_append.mp ok).1).2.1
    rw [run_append, run_cons, run_nil] at there
    obtain ⟨i, t, now, data, rfl, ht, pending, accepted, store⟩ := made_turn absent there
    obtain ⟨row, product, made, found, price⟩ := priced_made ok ht pending accepted
    have first : (run service.step db.idle (b ++ [.call i])).store.orders.find? o = some row := by
      rw [run_append, run_cons, run_nil, store]
      exact made
    obtain ⟨new, last, same⟩ := amounts_run
      (fun t ht => scope t (List.mem_append_left _ ht)) first
    cases last.symm.trans stored
    obtain ⟨item, total, fee⟩ : order.productId = row.productId ∧
        order.totalAmount = row.totalAmount ∧ order.shippingFee = row.shippingFee := by
      simp only [Order.terms, Prod.mk.injEq] at same
      exact same.2.2
    exact ⟨product, by rw [item]; exact found, by rw [total, fee]; exact price⟩

/-- Bob buys the lamp for its price, and ann raises the price afterwards. -/
def buyThenRaise : List (Turn Op) := [.arrive (.ordersCreate "bob" lampOrder (newOrder 1)),
  .call 0, .call 0, .call 0, .call 0,
  .arrive (.productsUpdate "lamp" "ann" { price := .value 20 }), .call 1, .call 1]

theorem amounts_right_raised :
    Along service.step (Service.OnCalls Priced) market.idle buyThenRaise ∧
      ∀ before after, buyThenRaise = before ++ after → AmountsRight market before := by
  have ok : Along service.step (Service.OnCalls Priced) market.idle buyThenRaise := by
    refine ⟨trivial, ?_, ?_, ?_, ?_, trivial, ?_, ?_, trivial⟩ <;> intro t c ht pending <;>
      cases ht <;> cases pending <;> first
        | exact fun _ => ⟨lamp, 0, rfl, rfl, rfl⟩
        | trivial
  exact ⟨ok, (amounts_right_iff market buyThenRaise
    (by simp [buyThenRaise, Op.pricing])).mpr ok⟩

/-- Bob asks for the lamp at one and gets it. -/
theorem amount_sent :
    ¬ ∀ (db : Db) (turns : List (Turn Op)),
      (∀ turn ∈ turns, ∀ op, turn = .arrive op → op.pricing = true) → AmountsRight db turns := by
  intro always
  let before : List (Turn Op) :=
    [.arrive (.ordersCreate "bob" { lampOrder with totalAmount := 1 } (newOrder 1)), .call 0, .call 0]
  have cost : ((run service.step market.idle (before ++ [.call 0])).store.orders.find? "order-1").map
      (fun o => (o.productId, o.totalAmount, o.shippingFee)) = some ("lamp", 1, 0) := by decide +kernel
  have offer : ((run service.step market.idle before).store.products.find? "lamp").map
      Product.price = some 10 := by decide +kernel
  have absent : (run service.step market.idle before).store.orders.find? "order-1" = none :=
    Table.not_has_iff.mp (by decide +kernel)
  obtain ⟨order, stored, amounts⟩ := Option.map_eq_some_iff.mp cost
  have made : (run service.step market.idle (before ++ [.call 0])).store.orders.has "order-1" = true :=
    Table.has_iff.mpr ⟨order, stored⟩
  have right : AmountsRight market (before ++ [.call 0]) :=
    always market _ (by simp [before, Op.pricing])
  obtain ⟨product, found, price⟩ := right before (.call 0) [] rfl "order-1" order absent made stored
  obtain ⟨item, total, fee⟩ : order.productId = "lamp" ∧ order.totalAmount = 1 ∧
      order.shippingFee = 0 := by simpa using amounts
  rw [item] at found
  rw [found, Option.map_some] at offer
  have ten : product.price = 10 := Option.some.inj offer
  omega

end SecondhandApi
