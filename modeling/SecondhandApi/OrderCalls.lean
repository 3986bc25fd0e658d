import SecondhandApi.Operations
import SecondhandApi.Calls

/-! Which calls the operations on orders make, and what no call changes of an order. -/
namespace SecondhandApi
open Keyed Interleaving

section
variable {A B : Type} {P : Call → Prop}

theorem makes_await {c : Call} (here : P c) {f : c.Result → Req A}
    (rest : ∀ a, Request.Makes P (f a)) : Request.Makes P (await c >>= f) := by
  refine ⟨here, fun r => ?_⟩
  cases r with
  | ok a => exact rest a
  | error e => trivial

theorem makes_last {c : Call} (here : P c) : Request.Makes P (await c) := by
  refine ⟨here, fun r => ?_⟩
  cases r <;> trivial

theorem makes_throwing (check : Except ApiError Unit) : Request.Makes P (throwing check) := by
  cases check <;> trivial

variable (reads : ∀ c : Call, c.reads = true → P c)
include reads

theorem generateOrderNumber_makes (draws : List Draw) (stem : String) :
    Request.Makes P (OrdersRepository.generateOrderNumber draws stem) := by
  induction draws with
  | nil => trivial
  | cons d rest ih =>
    refine makes_await (reads _ rfl) (fun existing => ?_)
    split
    · exact ih
    · trivial

theorem create_makes {buyerId : Id} {dto : CreateOrderDto} {new : NewOrder}
    (makes : ∀ sellerId number, sellerId ≠ buyerId →
      P (.orderCreate new.id new.now (dto.toInput buyerId sellerId number)))
    (reserves : P (.productUpdate dto.productId { status := .value .reserved })) :
    Request.Makes P (OrdersService.create buyerId dto new) := by
  refine makes_await (reads _ rfl) (fun found => ?_)
  cases found with
  | none => trivial
  | some product =>
    dsimp only
    split
    · trivial
    · split
      · trivial
      · rename_i other
        refine Request.makes_bind (generateOrderNumber_makes reads new.draws "ORD") (fun number => ?_)
        exact makes_await (makes _ number other) (fun order => makes_await reserves (fun _ => trivial))

theorem findById_makes (id : Id) : Request.Makes P (OrdersService.findById id) := by
  refine makes_await (reads _ rfl) (fun found => ?_)
  cases found <;> trivial

theorem findOne_makes (id userId : Id) : Request.Makes P (OrdersService.findOne id userId) := by
  refine Request.makes_bind (findById_makes reads id) (fun order => ?_)
  dsimp only
  split <;> trivial

theorem update_makes {id : Id} (userId : Id) (dto : UpdateOrderDto)
    (writes : P (.orderUpdate id dto.toInput)) :
    Request.Makes P (OrdersService.update id userId dto) := by
  refine makes_await (reads _ rfl) (fun found => ?_)
  cases found with
  | none => trivial
  | some order =>
    dsimp only
    split
    · trivial
    · exact Request.makes_bind (makes_throwing _) (fun _ => makes_last writes)

theorem close_makes (closing : OrdersService.Closing) {id : Id} (userId : Id) {now : Date}
    (writes : P (.orderUpdate id (OrdersRepository.statusData closing.status now)))
    (sells : ∀ product, P (.productUpdate product closing.sale)) :
    Request.Makes P (OrdersService.close closing id userId now) := by
  refine makes_await (reads _ rfl) (fun found => ?_)
  cases found with
  | none => trivial
  | some order =>
    dsimp only
    split
    · trivial
    · split
      · trivial
      · exact makes_await writes (fun _ => makes_await (sells _) (fun _ => trivial))

theorem remove_makes {id : Id} (deletes : P (.orderDelete id)) :
    Request.Makes P (OrdersService.remove id) := by
  refine makes_await (reads _ rfl) (fun found => ?_)
  cases found with
  | none => trivial
  | some order => exact makes_last deletes

theorem edit_makes {id : Id} (userId : Id) (dto : UpdateProductDto)
    (writes : ∀ data, P (.productUpdate id data)) :
    Request.Makes P (ProductsService.update id userId dto) := by
  refine makes_await (reads _ rfl) (fun found => ?_)
  cases found with
  | none => trivial
  | some product =>
    dsimp only
    repeat' split
    all_goals first
      | trivial
      | exact makes_last (writes _)

end

/-- What no write changes of an order. -/
def Order.terms (order : Order) : Id × Id × Id × Nat × Nat :=
  (order.buyerId, order.sellerId, order.productId, order.totalAmount, order.shippingFee)

theorem OrderUpdateInput.apply_terms {data : OrderUpdateInput} {row new : Order}
    (h : data.apply row = some new) : new.terms = row.terms := by
  simp only [OrderUpdateInput.apply, Option.bind_eq_bind, Option.bind_eq_some_iff] at h
  obtain ⟨status, _, made⟩ := h
  cases made
  rfl

theorem cancelUnpaid_terms (id : Id) (order : Order) :
    (Prisma.cancelUnpaid id order).terms = order.terms := by
  unfold Prisma.cancelUnpaid
  split <;> rfl

namespace CallEffect

variable {db : Db} {c : Call} {reply : c.Reply} {t' : Tables} {o : Id}

/-- An order stays unless it is deleted, on the same terms. -/
theorem order_kept (e : CallEffect db c reply t') (stays : c ≠ .orderDelete o) {row : Order}
    (found : db.orders.find? o = some row) :
    ∃ new, t'.orders.find? o = some new ∧ new.terms = row.terms := by
  cases e with
  | @orderMade id now data fee fresh =>
    refine ⟨row, ?_, rfl⟩
    have other : o ≠ id := by
      rintro rfl
      cases found.symm.trans fresh
    exact (Table.find?_insert fresh _ o).trans ((if_neg other).trans found)
  | @orderSet id data old new there made =>
    by_cases same : o = id
    · subst same
      cases found.symm.trans there
      exact ⟨new, Table.find?_set_self there new, OrderUpdateInput.apply_terms made⟩
    · exact ⟨row, (Table.find?_set there new o).trans ((if_neg same).trans found), rfl⟩
  | @userWithdrawn id user there =>
    exact ⟨Prisma.cancelUnpaid id row, by simp [Prisma.withdrawn, found], cancelUnpaid_terms id row⟩
  | @orderErased id old there =>
    have other : o ≠ id := fun same => stays (same ▸ rfl)
    refine ⟨row, ?_, rfl⟩
    rw [Prisma.withoutOrder, Tables.orders_withReviews, Tables.orders_withOrders, Table.find?_erase,
      if_neg other]
    exact found
  | _ => exact ⟨row, found, rfl⟩

/-- An order that is there was there before, on the same terms, or the call has made it. -/
theorem order_before (e : CallEffect db c reply t') {new : Order}
    (there : t'.orders.find? o = some new) :
    (∃ old, db.orders.find? o = some old ∧ new.terms = old.terms) ∨
      ∃ now data fee, c = .orderCreate o now data ∧ new = data.row fee now ∧
        db.orders.find? o = none := by
  cases e with
  | @orderMade id now data fee fresh =>
    rcases Table.find?_insert_cases there with before | ⟨rfl, rfl⟩
    · exact Or.inl ⟨new, before, rfl⟩
    · exact Or.inr ⟨now, data, fee, rfl, rfl, fresh⟩
  | @orderSet id data old row found made =>
    rcases Table.find?_set_cases there with before | ⟨rfl, rfl⟩
    · exact Or.inl ⟨new, before, rfl⟩
    · exact Or.inl ⟨old, found, OrderUpdateInput.apply_terms made⟩
  | @userWithdrawn id user found =>
    rw [Prisma.orders_withdrawn] at there
    obtain ⟨old, before, rfl⟩ := Option.map_eq_some_iff.mp there
    exact Or.inl ⟨old, before, cancelUnpaid_terms id old⟩
  | @orderErased id old found =>
    rw [Prisma.withoutOrder, Tables.orders_withReviews, Tables.orders_withOrders, Table.find?_erase]
      at there
    split at there
    · cases there
    · exact Or.inl ⟨new, there, rfl⟩
  | _ => exact Or.inl ⟨new, there, rfl⟩

/-- The calls of the other modules only take reviews away. -/
theorem review_before (e : CallEffect db c reply t') {r : Id} {review : Review}
    (there : t'.reviews.find? r = some review) : db.reviews.find? r = some review := by
  cases e with
  | orderErased old found =>
    rw [Prisma.withoutOrder, Tables.reviews_withReviews, Table.find?_eraseAll,
      Option.filter_eq_some_iff] at there
    exact there.1
  | _ => exact there

end CallEffect

end SecondhandApi
