import SecondhandApi.LiveOrders

/-! The sale status has two writers: the order operations and the seller's own edits.
This module says when the edits leave every product with at most one live order. -/
namespace SecondhandApi
open Keyed Interleaving

def Op.inTrade : Op → Bool
  | .ordersCreate .. | .ordersUpdate .. | .ordersCancel .. | .ordersConfirm .. |
    .productsUpdate .. | .productsRemove .. => true
  | _ => false

/-- The product that a seller edit is about. -/
def Op.edits : Op → Option Id
  | .productsUpdate id .. => some id
  | .productsRemove id .. => some id
  | _ => none

/-- A seller edit that makes a product with a live order ACTIVE or DELETED. -/
def FreesLive (db : Db) (op : Op) : Prop :=
  ∃ p old new, op.edits = some p ∧ (liveOrders db.toTables p).Nonempty ∧
    db.products.find? p = some old ∧
    (service.sequential db op).products.find? p = some new ∧
    new.status ≠ old.status ∧ (new.status = .active ∨ new.status = .deleted)

/-- A granted edit that asks for ACTIVE or DELETED, or removes the product, finds it
without a live order. -/
def SparesLive (db : Db) : Op → Prop
  | .productsUpdate id userId dto => ∀ product new, EditGranted db id userId dto product new →
      dto.status = .value .active ∨ dto.status = .value .deleted →
        liveOrders db.toTables id = ∅
  | .productsRemove id userId => ∀ product, DelistGranted db id userId product →
      liveOrders db.toTables id = ∅
  | _ => True

section
variable {db : Db} {op : Op} {t' : Tables}

/-- A new order is the first live one of its product, which stops being ACTIVE. -/
theorem Exclusive.ordered (h : Exclusive db.toTables) {buyerId : Id} {dto : CreateOrderDto}
    {new : NewOrder} {product : Product} {order : Order}
    (g : CreateGranted db buyerId dto new product order) :
    Exclusive ((db.toTables.withOrders (db.orders.insert new.id order)).withProducts
      (db.products.set dto.productId { product with status := .reserved })) := by
  obtain ⟨fresh, _, _, item, pending⟩ := g.row
  have none : liveOrders db.toTables dto.productId = ∅ := h.free _ product g.found g.active
  have other {p : Id} (away : p ≠ dto.productId) :
      ordersIn (db.orders.insert new.id order) p (fun s => s.live = true) =
        liveOrders db.toTables p :=
    ordersIn_insert_out fresh (fun both => away (both.1.symm.trans item))
  constructor
  · intro p
    by_cases target : p = dto.productId
    · subst target
      have one := ordersIn_insert_first (S := fun s => s.live = true) fresh item
        (by rw [pending]; rfl) none
      exact Set.subsingleton_of_subset_singleton one.subset
    · exact (congrArg Set.Subsingleton (other target)).mpr (h.one p)
  · intro p row there active
    simp only [Tables.products_withProducts, Table.find?_set g.found] at there
    by_cases target : p = dto.productId
    · rw [if_pos target] at there
      cases there
      cases active
    · rw [if_neg target] at there
      exact (other target).trans (h.free p row there active)

/-- One step of the trade: an edit that spares live orders keeps the products exclusive. -/
theorem Effect.exclusive (e : Effect db op t') (h : Exclusive db.toTables)
    (scope : op.inTrade = true) (ok : SparesLive db op) : Exclusive t' := by
  cases e with
  | unchanged => exact h
  | ordered g => exact h.ordered g
  | @patched id userId dto order new g =>
    have item := (OrderUpdateInput.apply_keeps g.made).2.2
    exact h.shrink (fun p => ordersIn_set_subset g.found item g.live_before)
      (fun p row there active => Or.inl ⟨row, there, active⟩)
  | @cancelled id userId order product now g =>
    refine h.shrink (fun p => ordersIn_set_subset g.found (by rfl)
      (fun live => by cases live)) (fun p row there active => ?_)
    rcases Table.find?_set_cases there with before | ⟨rfl, rfl⟩
    · exact Or.inl ⟨row, before, active⟩
    · -- the product is ACTIVE again, and its one live order is over
      right
      have member : id ∈ liveOrders db.toTables order.productId :=
        (mem_ordersIn g.found).mpr ⟨rfl, (live_of_cancellable g.cancellable).1⟩
      exact ordersIn_set_last g.found (by simp [OrderStatus.live])
        ((h.one order.productId).eq_singleton_of_mem member)
  | @confirmed id userId order product now soldAt g =>
    refine h.shrink (fun p => ordersIn_set_subset g.found (by rfl)
      (fun live => by cases live)) (fun p row there active => ?_)
    rcases Table.find?_set_cases there with before | ⟨rfl, rfl⟩
    · exact Or.inl ⟨row, before, active⟩
    · cases active
  | @edited id userId dto product new g =>
    refine h.shrink (fun p => Set.Subset.rfl) (fun p row there active => ?_)
    rcases Table.find?_set_cases there with before | ⟨rfl, rfl⟩
    · exact Or.inl ⟨row, before, active⟩
    · rcases g.status_cases with same | asked
      · exact Or.inl ⟨product, g.found, same.symm.trans active⟩
      · rw [active] at asked
        exact Or.inr (ok product row g (Or.inl asked))
  | @delisted id userId product g =>
    refine h.shrink (fun p => Set.Subset.rfl) (fun p row there active => ?_)
    rcases Table.find?_set_cases there with before | ⟨rfl, rfl⟩
    · exact Or.inl ⟨row, before, active⟩
    · cases active
  | _ => cases scope

/- The product after a granted edit, and that a freed product was granted. -/
theorem spares_of_not_frees (h : Exclusive db.toTables) (none : ¬ FreesLive db op) :
    SparesLive db op := by
  cases op with
  | productsUpdate id userId dto =>
    intro product new g asked
    by_contra live
    have written : new.status = .active ∨ new.status = .deleted :=
      asked.imp g.status_asked g.status_asked
    have changes : new.status ≠ product.status := by
      intro same
      rcases written with status | status
      · exact live (h.free id product g.found (same.symm.trans status))
      · exact g.listed (same.symm.trans status)
    refine none ⟨id, product, new, rfl, Set.nonempty_iff_ne_empty.mpr live, g.found, ?_, changes,
      written⟩
    rw [edited_of_granted g, Tables.products_withProducts, Table.find?_set_self g.found]
  | productsRemove id userId =>
    intro product g
    by_contra live
    refine none ⟨id, product, { product with status := .deleted }, rfl,
      Set.nonempty_iff_ne_empty.mpr live, g.found, ?_, Ne.symm g.listed, Or.inr rfl⟩
    rw [delisted_of_granted g, Tables.products_withProducts, Table.find?_set_self g.found]
  | _ => trivial

theorem not_frees_of_spares (ok : SparesLive db op) : ¬ FreesLive db op := by
  rintro ⟨p, old, new, about, ⟨o, live⟩, found, there, changed, _⟩
  cases op with
  | productsUpdate id userId dto =>
    cases about
    rcases edit_outcome db p userId dto with ⟨product, edited, db', g, _, _⟩ | ⟨refused, _⟩
    · rw [edited_of_granted g, Tables.products_withProducts, Table.find?_set g.found,
        if_pos rfl] at there
      cases found.symm.trans g.found
      cases there
      rcases g.status_cases with same | asked
      · exact changed same
      · have none := ok old new g (by rw [asked]; simpa)
        rw [none] at live
        cases live
    · rw [sequential_map db (p := ProductsService.update p userId dto) rfl, refused.1] at there
      cases found.symm.trans there
      exact changed rfl
  | productsRemove id userId =>
    cases about
    rcases delist_outcome db p userId with ⟨product, db', g, _, _⟩ | ⟨refused, _⟩
    · rw [ok product g] at live
      cases live
    · rw [sequential_map db (p := ProductsService.remove p userId) rfl, refused.1] at there
      cases found.symm.trans there
      exact changed rfl
  | _ => cases about

end

/-- In a run of orders and seller edits every product keeps at most one live order, and no
edit frees a product that has one, exactly when every edit spares the live orders. -/
theorem one_live_order_iff (db : Db) (start : Exclusive db.toTables) (ops : List Op)
    (scope : ∀ op ∈ ops, op.inTrade = true) :
    ((∀ t ∈ visited service.sequential db ops, ∀ p, (liveOrders t.toTables p).Subsingleton) ∧
      Along service.sequential (fun t op => ¬ FreesLive t op) db ops) ↔
    Along service.sequential SparesLive db ops := by
  have step (t : Db) (op : Op) (h : Exclusive t.toTables)
      (ok : op.inTrade = true ∧ SparesLive t op) :
      Exclusive (service.sequential t op).toTables := (effect t op).exclusive h ok.1 ok.2
  constructor
  · rintro ⟨_, spared⟩
    refine along_of_invariant (I := fun t => Exclusive t.toTables)
      (fun t op h ok => step t op h ⟨ok.1, spares_of_not_frees h ok.2⟩)
      (fun t op h ok => spares_of_not_frees h ok.2) start ((along_of_forall scope).and spared)
  · intro ok
    have both := (along_of_forall scope).and ok
    refine ⟨fun t ht p => ?_, ok.mono (fun t op => not_frees_of_spares)⟩
    exact (visited_invariant (I := fun t => Exclusive t.toTables) step start both t ht).one p

/-- A run that keeps to it: ann renames the lamp while bob's order is live and takes it
off the market after the order was cancelled. -/
theorem one_live_order_renamed :
    (∀ t ∈ visited service.sequential market [.ordersCreate "bob" lampOrder (newOrder 1),
      .productsUpdate "lamp" "ann" { title := .value "old lamp" },
      .ordersCancel "order-1" "bob" 5, .productsRemove "lamp" "ann"],
      ∀ p, (liveOrders t.toTables p).Subsingleton) ∧
    Along service.sequential (fun t op => ¬ FreesLive t op) market
      [.ordersCreate "bob" lampOrder (newOrder 1),
      .productsUpdate "lamp" "ann" { title := .value "old lamp" },
      .ordersCancel "order-1" "bob" 5, .productsRemove "lamp" "ann"] := by
  refine (one_live_order_iff market market_unsold.exclusive _ (by decide)).mpr
    ⟨trivial, ?_, trivial, ?_, trivial⟩
  · rintro _ _ _ (asked | asked) <;> cases asked
  · intro _ _
    exact ordersIn_eq_empty (by decide +kernel)

/-- A run that does not: ann sets the lamp ACTIVE again while bob's order is live, and cho
orders it too. -/
theorem two_live_orders :
    ¬ ∀ (db : Db) (ops : List Op), Exclusive db.toTables → (∀ op ∈ ops, op.inTrade = true) →
      (∀ t ∈ visited service.sequential db ops, ∀ p, (liveOrders t.toTables p).Subsingleton) ∧
      Along service.sequential (fun t op => ¬ FreesLive t op) db ops := by
  intro always
  let ops : List Op := [.ordersCreate "bob" lampOrder (newOrder 1),
    .productsUpdate "lamp" "ann" { status := .value .active },
    .ordersCreate "cho" lampOrder (newOrder 2)]
  have one := (always market ops market_unsold.exclusive (by decide)).1 _ (run_mem_visited _ _ _)
  have bob : "order-1" ∈ liveOrders (run service.sequential market ops).toTables "lamp" :=
    live_of_row (by decide +kernel)
  have cho : "order-2" ∈ liveOrders (run service.sequential market ops).toTables "lamp" :=
    live_of_row (by decide +kernel)
  exact absurd (one "lamp" bob cho) (by decide)

end SecondhandApi
