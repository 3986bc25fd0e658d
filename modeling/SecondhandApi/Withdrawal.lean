import SecondhandApi.Sessions
import SecondhandApi.WithdrawalRace

/-! What a withdrawn user may leave on the market. The withdrawal cleans up once, but a
token that was issued before it stays valid until it expires, and no guard looks at the
account; this module says which requests keep the market clean. -/
namespace SecondhandApi
open Keyed Interleaving

def Inactive (t : Tables) (u : Id) : Prop := activity t u = some false

/-- No withdrawn user owns an ACTIVE product or is party to a live order. -/
structure Clean (t : Tables) : Prop where
  products : ∀ p row, t.products.find? p = some row → row.status = .active →
    ¬ Inactive t row.sellerId
  orders : ∀ o order, t.orders.find? o = some order → order.status.live = true →
    ¬ Inactive t order.buyerId ∧ ¬ Inactive t order.sellerId

/-- Nobody who has withdrawn buys, puts up a product or sets one ACTIVE. -/
def ActsActive (db : Db) : Op → Prop
  | .ordersCreate buyerId dto new => (∃ product order, CreateGranted db buyerId dto new product order) →
      ¬ Inactive db.toTables buyerId
  | .productsCreate sellerId dto id now => (∃ product, ListGranted db sellerId dto id now product) →
      ¬ Inactive db.toTables sellerId
  | .productsUpdate id userId dto => (∃ product new, EditGranted db id userId dto product new) →
      dto.status = .value .active → ¬ Inactive db.toTables userId
  | _ => True

section
variable {t t' : Tables} {u : Id}

theorem inactive_of_same (same : t'.users = t.users) (h : Inactive t' u) : Inactive t u := by
  rw [Inactive, activity, same] at h
  exact h

theorem inactive_of_insert {id : Id} {user : User} (active : user.isActive = true)
    (h : Inactive (t.withUsers (t.users.insert id user)) u) : Inactive t u := by
  obtain ⟨row, there, off⟩ := Option.map_eq_some_iff.mp h
  rcases Table.find?_insert_cases there with before | ⟨rfl, rfl⟩
  · rw [Inactive, activity, before, Option.map_some, off]
  · cases active.symm.trans off

theorem inactive_of_set {id : Id} {old new : User} (found : t.users.find? id = some old)
    (same : new.isActive = old.isActive) (h : Inactive (t.withUsers (t.users.set id new)) u) :
    Inactive t u := by
  obtain ⟨row, there, off⟩ := Option.map_eq_some_iff.mp h
  rcases Table.find?_set_cases there with before | ⟨rfl, rfl⟩
  · rw [Inactive, activity, before, Option.map_some, off]
  · rw [Inactive, activity, found, Option.map_some, ← same, off]

/-- A step that makes nobody inactive keeps the market clean, if it puts up products and
makes orders for active users only. -/
theorem Clean.of_steps (users : ∀ u, Inactive t' u → Inactive t u)
    (products : ∀ p row, t'.products.find? p = some row → row.status = .active →
      ¬ Inactive t row.sellerId)
    (orders : ∀ o order, t'.orders.find? o = some order → order.status.live = true →
      ¬ Inactive t order.buyerId ∧ ¬ Inactive t order.sellerId) : Clean t' where
  products p row there active off := products p row there active (users _ off)
  orders o order there live :=
    ⟨fun off => (orders o order there live).1 (users _ off),
      fun off => (orders o order there live).2 (users _ off)⟩

/-- One product is written: it is not ACTIVE now, or its seller is active. -/
theorem Clean.product_set (h : Clean t) {id : Id} {new : Product}
    (fine : new.status = .active → ¬ Inactive t new.sellerId) {p : Id} {row : Product}
    (there : (t.products.set id new).find? p = some row) (active : row.status = .active) :
    ¬ Inactive t row.sellerId := by
  rcases Table.find?_set_cases there with before | ⟨rfl, rfl⟩
  · exact h.products p row before active
  · exact fine active

/-- One order is written: it is not live now, or it was live before with the same parties. -/
theorem Clean.order_set (h : Clean t) {id : Id} {old new : Order}
    (found : t.orders.find? id = some old) (buyer : new.buyerId = old.buyerId)
    (seller : new.sellerId = old.sellerId) (was : new.status.live = true → old.status.live = true)
    {o : Id} {order : Order} (there : (t.orders.set id new).find? o = some order)
    (live : order.status.live = true) :
    ¬ Inactive t order.buyerId ∧ ¬ Inactive t order.sellerId := by
  rcases Table.find?_set_cases there with before | ⟨rfl, rfl⟩
  · exact h.orders o order before live
  · rw [buyer, seller]
    exact h.orders o old found (was live)

/-- The sweep of a withdrawal takes the user's products off the market, and no order of the
user is left live. -/
theorem Clean.withdrawn (h : Clean t) {id : Id} {user : User}
    (found : t.users.find? id = some user) (free : ongoing t id = false) :
    Clean (Prisma.withdrawn t id user) := by
  have off (u : Id) : Inactive (Prisma.withdrawn t id user) u → u = id ∨ Inactive t u := by
    intro off
    rw [Inactive, activity_withdrawn found] at off
    by_cases same : u = id
    · exact Or.inl same
    · rw [if_neg same] at off
      exact Or.inr off
  constructor
  · intro p row there active inactive
    rw [Prisma.products_withdrawn] at there
    obtain ⟨old, before, rfl⟩ := Option.map_eq_some_iff.mp there
    unfold Prisma.deleteListed at active inactive
    split at active
    · cases active
    · rename_i kept
      rw [if_neg kept] at inactive
      rcases off _ inactive with own | was
      · exact kept ⟨own, active⟩
      · exact h.products p old before active was
  · intro o order there live
    have left : NoneLeft (Prisma.withdrawn t id user) id := noneLeft_withdrawn free
    have none := left o order there
    rw [Prisma.orders_withdrawn] at there
    obtain ⟨old, before, rfl⟩ := Option.map_eq_some_iff.mp there
    obtain ⟨buyer, seller, _⟩ := Prisma.cancelUnpaid_keeps id old
    have party (v : Id) (involved : (Prisma.cancelUnpaid id old).involves v)
        (clean : ¬ Inactive t v) : ¬ Inactive (Prisma.withdrawn t id user) v := by
      intro inactive
      rcases off v inactive with rfl | before
      · cases live.symm.trans (none involved)
      · exact clean before
    obtain ⟨cleanBuyer, cleanSeller⟩ := h.orders o old before (live_of_cancelUnpaid live)
    exact ⟨party _ (Or.inr rfl) (by rwa [buyer]), party _ (Or.inl rfl) (by rwa [seller])⟩

end

section
variable {db : Db} {op : Op} {t' : Tables}

/-- One step: what is bought, put up or set ACTIVE is so by active users, and the market
stays clean. -/
theorem Effect.clean (e : Effect db op t') (h : Clean db.toTables)
    (sellers : SellersMatch db.toTables) (ok : ActsActive db op) : Clean t' := by
  cases e with
  | unchanged => exact h
  | @ordered buyerId dto new product order g =>
    obtain ⟨_, buyer, seller, _, _⟩ := g.row
    refine .of_steps (t := db.toTables) (fun u => inactive_of_same rfl)
      (fun p row => h.product_set (fun active => by cases active)) (fun o new there live => ?_)
    rcases Table.find?_insert_cases there with before | ⟨rfl, rfl⟩
    · exact h.orders o new before live
    · rw [buyer, seller]
      exact ⟨ok ⟨product, new, g⟩, h.products _ product g.found g.active⟩
  | @patched id userId dto order new g =>
    obtain ⟨buyer, seller, _⟩ := OrderUpdateInput.apply_keeps g.made
    exact .of_steps (t := db.toTables) (fun u => inactive_of_same rfl) h.products
      (fun o row => h.order_set g.found buyer seller g.live_before)
  | @cancelled id userId order product now g =>
    have live := (live_of_cancellable g.cancellable).1
    have seller : order.sellerId = product.sellerId := sellers id order product g.found g.item
    refine .of_steps (t := db.toTables) (fun u => inactive_of_same rfl)
      (fun p row => h.product_set (fun _ => ?_))
      (fun o row => h.order_set g.found (by rfl) (by rfl) (fun live => by cases live))
    -- the product is ACTIVE again: its seller is a party of the order that was live
    show ¬ Inactive db.toTables product.sellerId
    rw [← seller]
    exact (h.orders id order g.found live).2
  | @confirmed id userId order product now soldAt g =>
    exact .of_steps (t := db.toTables) (fun u => inactive_of_same rfl)
      (fun p row => h.product_set (fun active => by cases active))
      (fun o row => h.order_set g.found (by rfl) (by rfl) (fun live => by cases live))
  | @erased id order found =>
    refine .of_steps (t := db.toTables) (fun u => inactive_of_same rfl) h.products
      (fun o row there live => ?_)
    rw [Prisma.find?_withoutOrder] at there
    split at there
    · cases there
    · exact h.orders o row there live
  | @listed sellerId dto id now product g =>
    refine .of_steps (t := db.toTables) (fun u => inactive_of_same rfl)
      (fun p row there active => ?_) h.orders
    rcases Table.find?_insert_cases there with before | ⟨rfl, rfl⟩
    · exact h.products p row before active
    · rw [g.row.2.1]
      exact ok ⟨row, g⟩
  | @viewed id product found =>
    exact .of_steps (t := db.toTables) (fun u => inactive_of_same rfl)
      (fun p row => h.product_set (by exact h.products id product found)) h.orders
  | @edited id userId dto product new g =>
    refine .of_steps (t := db.toTables) (fun u => inactive_of_same rfl)
      (fun p row => h.product_set (fun active => ?_)) h.orders
    rw [(ProductUpdateInput.apply_cases g.made).1]
    rcases g.status_cases with same | asked
    · exact h.products id product g.found (same.symm.trans active)
    · rw [active] at asked
      rw [g.seller]
      exact ok ⟨product, new, g⟩ asked
  | @delisted id userId product g =>
    exact .of_steps (t := db.toTables) (fun u => inactive_of_same rfl)
      (fun p row => h.product_set (fun active => by cases active)) h.orders
  | @registered dto id now hashed user fresh active =>
    exact .of_steps (t := db.toTables) (fun u => inactive_of_insert active) h.products h.orders
  | @signedIn dto compare now id old new found same =>
    exact .of_steps (t := db.toTables) (fun u => inactive_of_set found same) h.products h.orders
  | @profiled id dto old new found same =>
    exact .of_steps (t := db.toTables) (fun u => inactive_of_set found same) h.products h.orders
  | @withdrawn id user g => exact h.withdrawn g.found g.free

/-- A step that lets a withdrawn user act leaves its product or order on the market. -/
theorem actsActive_of_clean (after : Clean (service.sequential db op).toTables) :
    ActsActive db op := by
  cases op with
  | ordersCreate buyerId dto new =>
    rintro ⟨product, order, g⟩ off
    obtain ⟨fresh, buyer, _, _, pending⟩ := g.row
    rw [ordered_of_granted g] at after
    have there : (db.orders.insert new.id order).find? new.id = some order :=
      Table.find?_insert_self fresh _
    have on := (after.orders new.id order there (by rw [pending]; rfl)).1
    rw [buyer] at on
    exact on off
  | productsCreate sellerId dto id now =>
    rintro ⟨product, g⟩ off
    obtain ⟨fresh, seller, active⟩ := g.row
    rw [listed_of_granted g] at after
    have there : (db.products.insert id product).find? id = some product :=
      Table.find?_insert_self fresh _
    have on := after.products id product there active
    rw [seller] at on
    exact on off
  | productsUpdate id userId dto =>
    rintro ⟨product, new, g⟩ asked off
    have seller : new.sellerId = userId := (ProductUpdateInput.apply_cases g.made).1.trans g.seller
    rw [edited_of_granted g] at after
    have there : (db.products.set id new).find? id = some new :=
      Table.find?_set_self g.found _
    have on := after.products id new there (g.status_asked asked)
    rw [seller] at on
    exact on off
  | _ => trivial

end

/-- The same of a visit: what passes the guards is done for an active user. -/
def Lawful (s : Session) (v : Visit) : Prop := ∀ op, s.operation v = .ok op → ActsActive s.db op

/-- In every run of visits with any tokens that are still valid, no withdrawn user has an
ACTIVE product or a live order in any state reached, exactly as long as every visit keeps
to it. -/
theorem market_clean_iff (s : Session) (clean : Clean s.db.toTables)
    (sellers : SellersMatch s.db.toTables) (visits : List Visit) :
    (∀ t ∈ visited Session.step s visits, Clean t.db.toTables) ↔
      Along Session.step Lawful s visits := by
  refine always_iff_along (I := fun t : Session => Clean t.db.toTables ∧ SellersMatch t.db.toTables)
    ?_ (fun t h => h.1) ?_ ⟨clean, sellers⟩ (fun _ _ => True.intro)
  · intro t v h _ lawful
    rw [Session.step_db]
    cases passed : t.operation v with
    | error e => exact h
    | ok op =>
      have e := effect t.db op
      exact ⟨e.clean h.1 h.2 (lawful op passed), e.sellersMatch h.2⟩
  · intro t v _ _ unlawful after
    refine unlawful (fun op passed => ?_)
    rw [Session.step_db, passed] at after
    exact actsActive_of_clean after

/-! Bob's visits to the market. -/

def bobLogin : Visit :=
  { endpoint := .usersLogin { email := "bob@market", password := "hash" } (fun a b => a == b) 0
    now := 0 }

/- What bob carries after his login. -/
def bobToken : JwtPayload := (UsersService.generateTokens "bob" "bob@market" "USER" 0).accessToken

def bobVisit (endpoint : Endpoint) (now : Date) : Visit :=
  { endpoint := endpoint, token := some bobToken, now := now }

theorem market_clean : Clean market.toTables where
  products p row found _ off := by
    have all : market.users.all (fun _ u => u.isActive) = true := by decide
    obtain ⟨user, there, is⟩ := Option.map_eq_some_iff.mp off
    cases is.symm.trans (Table.all_iff.mp all _ user there)
  orders o order found := by cases found

theorem market_sellers : SellersMatch market.toTables := by
  intro o order row found
  cases found

/-- Bob logs in, orders, withdraws, and asks for his profile with the token he still has. -/
def orderAndWithdraw : List Visit := [bobLogin,
  bobVisit (.ordersCreate lampOrder (newOrder 1)) 1, bobVisit .usersWithdraw 2,
  bobVisit .usersGetProfile 3]

theorem market_clean_after_withdrawal :
    Along Session.step Lawful ⟨market, []⟩ orderAndWithdraw ∧
      ∀ t ∈ visited Session.step ⟨market, []⟩ orderAndWithdraw, Clean t.db.toTables := by
  have ok : Along Session.step Lawful ⟨market, []⟩ orderAndWithdraw := by
    refine ⟨?_, ?_, ?_, ?_, trivial⟩ <;> intro op passed <;> cases passed
    · trivial
    · intro _
      show ¬ activity _ "bob" = some false
      decide +kernel
    · trivial
    · trivial
  exact ⟨ok, (market_clean_iff ⟨market, []⟩ market_clean market_sellers orderAndWithdraw).mpr ok⟩

theorem not_clean {t : Tables} {o : Id} (h : (t.orders.find? o).map (fun order =>
    (order.status.live, activity t order.buyerId)) = some (true, some false)) : ¬ Clean t := by
  intro clean
  obtain ⟨order, found, both⟩ := Option.map_eq_some_iff.mp h
  exact (clean.orders o order found (congrArg Prod.fst both)).1 (congrArg Prod.snd both)

/-- Bob logs in, withdraws, and orders with the token he still has. -/
theorem withdrawn_buyer :
    ¬ ∀ (s : Session) (visits : List Visit), s.issued = [] → Clean s.db.toTables →
      SellersMatch s.db.toTables → ∀ t ∈ visited Session.step s visits, Clean t.db.toTables := by
  intro always
  have clean := always ⟨market, []⟩ [bobLogin, bobVisit .usersWithdraw 1,
    bobVisit (.ordersCreate lampOrder (newOrder 1)) 2] rfl market_clean market_sellers _
    (run_mem_visited ..)
  exact not_clean (o := "order-1") (by decide +kernel) clean

end SecondhandApi
