import SecondhandApi.WithdrawalRace

/-! A withdrawal by itself: when it is granted, what it leaves of the user's account, orders
and products, and that it leaves everything else. -/
namespace SecondhandApi
open Keyed Interleaving

/-- An active account without an order that is paid and not yet settled. -/
structure MayLeave (t : Tables) (u : Id) : Prop where
  active : ∃ user, t.users.find? u = some user ∧ user.isActive = true
  free : ∀ o order, t.orders.find? o = some order → order.involves u →
    order.status ≠ .paid ∧ order.status ≠ .shipping ∧ order.status ≠ .delivered

def OrderStatus.unpaid (s : OrderStatus) : Prop := s = .pending ∨ s = .paymentPending

/-- The user is inactive and the user's orders are settled: those not yet paid for became
CANCELLED, the ACTIVE products DELETED, and nothing else was touched. -/
structure LeftBehind (before after : Tables) (u : Id) : Prop where
  account : ∃ user, before.users.find? u = some user ∧
    after.users.find? u = some { user with isActive := false }
  otherAccounts : ∀ v, v ≠ u → after.users.find? v = before.users.find? v
  settled : ∀ o order, after.orders.find? o = some order → order.involves u →
    order.status = .confirmed ∨ order.status = .cancelled ∨ order.status = .refunded
  cancelled : ∀ o order, before.orders.find? o = some order → order.involves u →
    order.status.unpaid → after.orders.find? o = some { order with status := .cancelled }
  otherOrders : ∀ o, (∀ order, before.orders.find? o = some order → order.involves u →
    ¬ order.status.unpaid) → after.orders.find? o = before.orders.find? o
  deleted : ∀ p product, before.products.find? p = some product → product.sellerId = u →
    product.status = .active → after.products.find? p = some { product with status := .deleted }
  otherProducts : ∀ p, (∀ product, before.products.find? p = some product →
    product.sellerId = u → product.status ≠ .active) →
      after.products.find? p = before.products.find? p
  categories : after.categories = before.categories
  reviews : after.reviews = before.reviews

section
variable {t : Tables} {u : Id} {user : User}

theorem ongoing_iff : ongoing t u = false ↔ ∀ o order, t.orders.find? o = some order →
    order.involves u →
      order.status ≠ .paid ∧ order.status ≠ .shipping ∧ order.status ≠ .delivered := by
  rw [ongoing, ← Bool.not_eq_true, Table.any_iff]
  constructor
  · intro none o order found involved
    refine ⟨fun same => ?_, fun same => ?_, fun same => ?_⟩ <;>
    · refine none ⟨o, order, found, ?_⟩
      rcases involved with party | party <;> simp [party, same]
  · rintro free ⟨o, order, found, both⟩
    simp only [Bool.and_eq_true, Bool.or_eq_true, decide_eq_true_eq] at both
    obtain ⟨paid, shipping, delivered⟩ := free o order found both.1
    rcases both.2 with (same | same) | same
    · exact paid same
    · exact shipping same
    · exact delivered same

theorem leftBehind_withdrawn (found : t.users.find? u = some user) (free : ongoing t u = false) :
    LeftBehind t (Prisma.withdrawn t u user) u where
  account := ⟨user, found, Table.find?_set_self found _⟩
  otherAccounts v other := by rw [Prisma.users_withdrawn, Table.find?_set found, if_neg other]
  settled o order there involved := by
    have none : NoneLeft (Prisma.withdrawn t u user) u := noneLeft_withdrawn free
    have ended := none o order there involved
    cases status : order.status with
    | confirmed => exact Or.inl rfl
    | cancelled => exact Or.inr (Or.inl rfl)
    | refunded => exact Or.inr (Or.inr rfl)
    | _ =>
      rw [status] at ended
      cases ended
  cancelled o order stored involved unpaid := by
    rw [Prisma.orders_withdrawn, stored, Option.map_some, Prisma.cancelUnpaid,
      if_pos ⟨involved, unpaid⟩]
  otherOrders o others := by
    rw [Prisma.orders_withdrawn]
    cases stored : t.orders.find? o with
    | none => rfl
    | some order =>
      have idle : Prisma.cancelUnpaid u order = order :=
        if_neg (fun both => others order stored both.1 both.2)
      rw [Option.map_some, idle]
  deleted p product stored own active := by
    rw [Prisma.products_withdrawn, stored, Option.map_some, Prisma.deleteListed,
      if_pos ⟨own, active⟩]
  otherProducts p others := by
    rw [Prisma.products_withdrawn]
    cases stored : t.products.find? p with
    | none => rfl
    | some product =>
      have idle : Prisma.deleteListed u product = product :=
        if_neg (fun both => others product stored both.1 both.2)
      rw [Option.map_some, idle]
  categories := rfl
  reviews := rfl

end

theorem withdrawGranted_iff {db : Db} {u : Id} :
    (∃ user, WithdrawGranted db u user) ↔ MayLeave db.toTables u := by
  constructor
  · rintro ⟨user, g⟩
    exact ⟨⟨user, g.found, g.active⟩, ongoing_iff.mp g.free⟩
  · rintro ⟨⟨user, found, active⟩, free⟩
    exact ⟨user, found, active, ongoing_iff.mpr free⟩

/-- A withdrawal succeeds exactly for an active user without an order under way; it settles what
the user leaves and nothing else, and a refused one changes nothing. -/
theorem withdrawal_exact (db : Db) (u : Id) :
    ((∃ user, ((UsersService.remove u).alone exec db).2 = .ok user) ↔ MayLeave db.toTables u) ∧
    (∀ user, ((UsersService.remove u).alone exec db).2 = .ok user →
      LeftBehind db.toTables ((UsersService.remove u).alone exec db).1.toTables u) ∧
    (∀ e, ((UsersService.remove u).alone exec db).2 = .error e →
      ((UsersService.remove u).alone exec db).1 = db) := by
  rw [← withdrawGranted_iff]
  rcases withdraw_outcome db u with ⟨user, db', g, done, after⟩ | ⟨⟨same, e, failed⟩, refused⟩
  · rw [done]
    refine ⟨iff_of_true ⟨_, rfl⟩ ⟨user, g⟩, fun _ _ => ?_, fun e failed => (by cases failed)⟩
    rw [after]
    exact leftBehind_withdrawn g.found g.free
  · rw [failed]
    refine ⟨iff_of_false (fun done => ?_) (fun granted => ?_), fun _ done => (by cases done),
      fun _ _ => same⟩
    · obtain ⟨user, done⟩ := done
      cases done
    · obtain ⟨user, g⟩ := granted
      exact refused user g

end SecondhandApi
