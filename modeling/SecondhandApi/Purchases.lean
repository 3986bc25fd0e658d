import SecondhandApi.LiveOrders
import SecondhandApi.Obligations

/-! Purchases that overlap. A purchase reads the product, makes the order and then reserves
the product, in separate calls; another purchase that comes between finds the product
ACTIVE still. This module says when every product keeps at most one live order. -/
namespace SecondhandApi
open Keyed Interleaving

def Op.buys : Op → Bool
  | .ordersCreate .. => true
  | _ => false

theorem buys_flow (op : Op) (h : op.buys = true) : op.inFlow = true := by
  cases op <;> first
    | rfl
    | cases h

/-- A request that has made its order of `product` and stands before reserving it. -/
def Reserves (t : Running) (product : Id) : Prop :=
  t.rest.pending = some (.productUpdate product { status := .value .reserved })

def Reserving (p : Requests) (product : Id) : Prop := ∃ t ∈ p.threads, Reserves t product

def Listed (db : Db) (product : Id) : Prop :=
  ∃ row, db.products.find? product = some row ∧ row.status = .active

/-- An order is made while its product is ACTIVE still and no other request has made its
order of it and not yet reserved it. -/
def InTime (p : Requests) (_ : Running) : Call → Prop
  | .orderCreate id now data => Accepted p.store (.orderCreate id now data) →
    Listed p.store data.product ∧ ¬ Reserving p data.product
  | _ => True

/-- What links the store to the requests on their way. -/
structure Orderly (p : Requests) : Prop where
  dutiful : Dutiful Op.buys p
  one : ∀ q, (liveOrders p.store.toTables q).Subsingleton
  free : ∀ q, Listed p.store q → liveOrders p.store.toTables q = ∅ ∨ Reserving p q
  reserving : ∀ q, Reserving p q → (liveOrders p.store.toTables q).Nonempty
  read : ∀ t ∈ p.threads, ∀ q row, ⟨.productFindById q, .ok (some row)⟩ ∈ t.log →
    row.status = .active → Listed p.store q ∨ (liveOrders p.store.toTables q).Nonempty

section
variable {buyerId : Id} {dto : CreateOrderDto} {new : NewOrder} {op : Op} {log : Log}
  {rest : Req Response}

/-- After its order was made a purchase stands before reserving the product. -/
theorem reserves_next {id : Id} {now : Date} {data : OrderCreateInput} {order : Order}
    {may : Log → Call → Prop} (only : ∀ l c, may l c → Owed (.ordersCreate buyerId dto new) l c)
    (h : Request.Obeys may (Ended (.ordersCreate buyerId dto new))
      (⟨.orderCreate id now data, .ok order⟩ :: log) rest) :
    rest.pending = some (.productUpdate dto.productId { status := .value .reserved }) := by
  cases rest with
  | done a => cases h
  | fail e =>
    cases h with
    | createRefused unmade => exact absurd rfl (unmade id now data order log)
  | call c next =>
    cases only _ _ h.1 with
    | createLooks number early => cases early _ List.mem_cons_self
    | createWrites product number early read active other => cases early _ List.mem_cons_self
    | createReserves data order => rfl

/-- And only then. -/
theorem owed_reserve {product : Id} {data : ProductUpdateInput}
    (here : op.buys = true) (owed : Owed op log (.productUpdate product data)) :
    ∃ buyerId dto new data' order log', op = .ordersCreate buyerId dto new ∧
      product = dto.productId ∧ data = { status := .value .reserved } ∧
      log = ⟨.orderCreate new.id new.now data', .ok order⟩ :: log' := by
  cases owed with
  | createReserves data order => exact ⟨_, _, _, _, order, _, rfl, rfl, rfl, rfl⟩
  | cancelFrees => cases here
  | confirmSells => cases here

end

section
variable {p : Requests} {turn : Turn Op} {i : Nat} {op : Op} {log : Log} {c : Call}
  {next : c.Reply → Req Response} {reply : c.Reply} {t' : Tables}

/-- The requests after a turn: the one that was answered, and the others. -/
theorem Answered.reserving (a : Answered p turn i op log c next reply t') {q : Id}
    (h : Reserving (service.step p turn) q) :
    Reserving p q ∨ Reserves ⟨op, ⟨c, reply⟩ :: log, next reply⟩ q := by
  obtain ⟨t, member, reserves⟩ := h
  rw [a.threads] at member
  rcases List.mem_or_eq_of_mem_set member with before | rfl
  · exact Or.inl ⟨t, before, reserves⟩
  · exact Or.inr reserves

theorem Answered.still_reserving (a : Answered p turn i op log c next reply t') {q : Id}
    (h : Reserving p q) (other : c ≠ .productUpdate q { status := .value .reserved }) :
    Reserving (service.step p turn) q := by
  obtain ⟨t, member, reserves⟩ := h
  refine ⟨t, ?_, reserves⟩
  rw [a.threads]
  refine Service.mem_set_of_ne member a.thread ?_ _
  rintro rfl
  exact other (Option.some.inj reserves)

/-- A request that reserves after this turn had its order made by it. -/
theorem Answered.reserves_made (a : Answered p turn i op log c next reply t')
    (dutiful : Dutiful Op.buys (service.step p turn)) {q : Id}
    (h : Reserves ⟨op, ⟨c, reply⟩ :: log, next reply⟩ q) :
    ∃ buyerId dto new data order, op = .ordersCreate buyerId dto new ∧ q = dto.productId ∧
      (⟨c, reply⟩ : Answer Call Call.Reply) = ⟨.orderCreate new.id new.now data, .ok order⟩ := by
  obtain ⟨after, hr⟩ := Request.pending_eq_some h
  obtain ⟨here, owed⟩ := dutiful_pending dutiful a.newest_at hr
  obtain ⟨buyerId, dto, new, data, order, _, made, item, _, head⟩ := owed_reserve here owed
  exact ⟨buyerId, dto, new, data, order, made, item, (List.cons.inj head).1⟩

/-- An ACTIVE product that a request has read by this turn is the answer of the turn, or was
read before it. -/
theorem Orderly.read_turn (h : Orderly p) (a : Answered p turn i op log c next reply t')
    {t : Running} (member : t ∈ (service.step p turn).threads) {q : Id} {row : Product}
    (seen : ⟨.productFindById q, .ok (some row)⟩ ∈ t.log) (active : row.status = .active) :
    (⟨c, reply⟩ : Answer Call Call.Reply) = ⟨.productFindById q, .ok (some row)⟩ ∨
      Listed p.store q ∨ (liveOrders p.store.toTables q).Nonempty := by
  rw [a.threads] at member
  rcases List.mem_or_eq_of_mem_set member with before | rfl
  · exact Or.inr (h.read t before q row seen active)
  · rcases List.mem_cons.mp seen with head | earlier
    · exact Or.inl head.symm
    · exact Or.inr (h.read _ (List.mem_of_getElem? a.thread) q row earlier active)

/-- A turn that leaves the store as it was. -/
theorem Orderly.idle_turn (h : Orderly p) (a : Answered p turn i op log c next reply t')
    (dutiful : Dutiful Op.buys (service.step p turn)) (same : t' = p.store.toTables)
    (made : ∀ id now data order, (⟨c, reply⟩ : Answer Call Call.Reply) ≠
      ⟨.orderCreate id now data, .ok order⟩)
    (kept : ∀ q, c = .productUpdate q { status := .value .reserved } → ¬ Listed p.store q)
    (read : ∀ q row, (⟨c, reply⟩ : Answer Call Call.Reply) =
      ⟨.productFindById q, .ok (some row)⟩ → row.status = .active → Listed p.store q) :
    Orderly (service.step p turn) := by
  have store : (service.step p turn).store = p.store := Db.ext_tables (a.store.trans same)
  refine ⟨dutiful, ?_, ?_, ?_, ?_⟩
  · rw [store]
    exact h.one
  · intro q listed
    rw [store] at listed ⊢
    refine (h.free q listed).imp id (fun reserving => a.still_reserving reserving ?_)
    exact fun reserve => kept q reserve listed
  · intro q reserving
    rw [store]
    rcases a.reserving reserving with before | reserves
    · exact h.reserving q before
    · obtain ⟨_, _, new, data, order, _, _, head⟩ := a.reserves_made dutiful reserves
      exact absurd head (made _ _ _ _)
  · intro t member q row seen active
    rw [store]
    rcases h.read_turn a member seen active with head | earlier
    · exact Or.inl (read q row head active)
    · exact earlier

/-- The product is reserved: nothing is live that was not, and the product is not ACTIVE. -/
theorem Orderly.reserved {q₀ : Id} {data : ProductUpdateInput} {old new : Product}
    {next : Call.Reply (.productUpdate q₀ data) → Req Response} (h : Orderly p)
    (a : Answered p turn i op log (.productUpdate q₀ data) next (.ok new)
      (p.store.toTables.withProducts (p.store.products.set q₀ new)))
    (dutiful : Dutiful Op.buys (service.step p turn))
    (asked : data = { status := .value .reserved })
    (found : p.store.products.find? q₀ = some old) (made : data.apply old = some new) :
    Orderly (service.step p turn) := by
  have live (q : Id) : liveOrders (service.step p turn).store.toTables q =
      liveOrders p.store.toTables q := by
    rw [a.store]
    rfl
  have status : new.status = .reserved := by
    have written := (ProductUpdateInput.apply_cases made).2.2
    rw [asked] at written
    exact (Option.some.inj written).symm
  have mine : Reserving p q₀ := ⟨_, List.mem_of_getElem? a.thread, by
    rw [Reserves, Request.pending_call, asked]⟩
  have product (q : Id) : (service.step p turn).store.products.find? q =
      if q = q₀ then some new else p.store.products.find? q := by
    rw [a.store, Tables.products_withProducts, Table.find?_set found]
  have listed {q : Id} (now : Listed (service.step p turn).store q) : q ≠ q₀ ∧ Listed p.store q := by
    obtain ⟨row, there, active⟩ := now
    rw [product] at there
    by_cases here : q = q₀
    · rw [if_pos here] at there
      cases there
      cases status.symm.trans active
    · rw [if_neg here] at there
      exact ⟨here, row, there, active⟩
  refine ⟨dutiful, ?_, ?_, ?_, ?_⟩
  · intro q
    rw [live]
    exact h.one q
  · intro q now
    rw [live]
    obtain ⟨other, before⟩ := listed now
    refine (h.free q before).imp id (fun reserving => a.still_reserving reserving ?_)
    intro same
    injection same with same
    exact other same.symm
  · intro q reserving
    rw [live]
    rcases a.reserving reserving with before | reserves
    · exact h.reserving q before
    · obtain ⟨_, _, _, _, _, _, _, head⟩ := a.reserves_made dutiful reserves
      cases head
  · intro t member q row seen active
    rw [live]
    rcases h.read_turn a member seen active with head | ⟨now, there, was⟩ | some
    · cases head
    · by_cases here : q = q₀
      · rw [here]
        exact Or.inr (h.reserving q₀ mine)
      · exact Or.inl ⟨now, by rw [product, if_neg here, there], was⟩
    · exact Or.inr some

/-- The order is made: it is the only live one of its product, which stands to be reserved. -/
theorem Orderly.made {id : Id} {now : Date} {data : OrderCreateInput} {fee : Nat}
    {next : Call.Reply (.orderCreate id now data) → Req Response} (h : Orderly p)
    (a : Answered p turn i op log (.orderCreate id now data) next (.ok (data.row fee now))
      (p.store.toTables.withOrders (p.store.orders.insert id (data.row fee now))))
    (dutiful : Dutiful Op.buys (service.step p turn)) (owed : Owed op log (.orderCreate id now data))
    (fresh : p.store.orders.find? id = none) (listed : Listed p.store data.product)
    (alone : ¬ Reserving p data.product) : Orderly (service.step p turn) := by
  have before : liveOrders p.store.toTables data.product = ∅ :=
    (h.free data.product listed).resolve_right alone
  have orders : (service.step p turn).store.orders =
      p.store.orders.insert id (data.row fee now) := by
    rw [a.store]
    rfl
  have products : (service.step p turn).store.products = p.store.products := by
    rw [a.store]
    rfl
  have grows (q : Id) : liveOrders p.store.toTables q ⊆
      liveOrders (service.step p turn).store.toTables q := by
    rw [liveOrders, liveOrders, orders]
    exact ordersIn_insert_mono fresh
  have here : liveOrders (service.step p turn).store.toTables data.product = {id} := by
    rw [liveOrders, orders]
    exact ordersIn_insert_first fresh rfl rfl before
  have others (q : Id) (other : q ≠ data.product) :
      liveOrders (service.step p turn).store.toTables q = liveOrders p.store.toTables q := by
    rw [liveOrders, liveOrders, orders]
    exact ordersIn_insert_out fresh (fun both => other both.1.symm)
  have buys : ∃ buyerId dto new, op = .ordersCreate buyerId dto new ∧
      data.product = dto.productId := by
    cases owed with
    | createWrites product number early read active other => exact ⟨_, _, _, rfl, rfl⟩
  obtain ⟨buyerId, dto, new, rfl, item⟩ := buys
  have mine : Reserving (service.step p turn) data.product := by
    refine ⟨_, a.newest, ?_⟩
    rw [Reserves, item]
    exact reserves_next (fun _ _ both => both.2) (dutiful _ a.newest)
  have busy {q : Id} (reserving : Reserving p q) : Reserving (service.step p turn) q :=
    a.still_reserving reserving (fun same => by cases same)
  refine ⟨dutiful, ?_, ?_, ?_, ?_⟩
  · intro q
    by_cases there : q = data.product
    · rw [there, here]
      exact Set.subsingleton_singleton
    · rw [others q there]
      exact h.one q
  · rintro q ⟨row, there, active⟩
    rw [products] at there
    by_cases it : q = data.product
    · rw [it]
      exact Or.inr mine
    · rw [others q it]
      exact (h.free q ⟨row, there, active⟩).imp (fun none => none) busy
  · intro q reserving
    rcases a.reserving reserving with before | reserves
    · exact (h.reserving q before).mono (grows q)
    · obtain ⟨_, _, _, _, _, same, it, _⟩ := a.reserves_made dutiful reserves
      cases same
      rw [it, ← item, here]
      exact Set.singleton_nonempty id
  · intro t member q row seen active
    rcases h.read_turn a member seen active with head | ⟨now, there, was⟩ | some
    · cases head
    · exact Or.inl ⟨now, by rw [products, there], was⟩
    · exact Or.inr (some.mono (grows q))

theorem Orderly.arrived (h : Orderly p) (scope : op.buys = true)
    (dutiful : Dutiful Op.buys ⟨p.store, p.threads ++ [service.newcomer op]⟩) :
    Orderly ⟨p.store, p.threads ++ [service.newcomer op]⟩ := by
  have old {q : Id} (reserving : Reserving ⟨p.store, p.threads ++ [service.newcomer op]⟩ q) :
      Reserving p q := by
    obtain ⟨t, member, reserves⟩ := reserving
    rcases List.mem_append.mp member with before | new
    · exact ⟨t, before, reserves⟩
    · rw [List.mem_singleton.mp new] at reserves
      cases op with
      | ordersCreate buyerId dto new => cases reserves
      | _ => cases scope
  refine ⟨dutiful, h.one, ?_, fun q reserving => h.reserving q (old reserving), ?_⟩
  · intro q listed
    refine (h.free q listed).imp (fun none => none) ?_
    rintro ⟨t, member, reserves⟩
    exact ⟨t, List.mem_append_left _ member, reserves⟩
  · intro t member q row seen active
    rcases List.mem_append.mp member with before | new
    · exact h.read t before q row seen active
    · rw [List.mem_singleton.mp new] at seen
      cases seen

theorem Orderly.after_turn (h : Orderly p) (turn : Turn Op)
    (arrives : ∀ op, turn = .arrive op → op.buys = true)
    (ok : Service.OnCalls InTime p turn) : Orderly (service.step p turn) := by
  have dutiful := dutiful_step buys_flow p turn h.dutiful arrives
  rcases turn_cases h.dutiful turn with hs | ⟨op, arrived, hs⟩ |
    ⟨i, op, log, c, next, reply, t', here, owed, a⟩
  · rw [hs]
    exact h
  · rw [hs] at dutiful ⊢
    exact h.arrived (arrives op arrived) dutiful
  · cases a.effect with
    | read r reads =>
      refine h.idle_turn a dutiful rfl ?_ ?_ ?_
      · intro _ _ _ _ same
        cases same
        cases reads
      · rintro q rfl
        cases reads
      · intro q row same active
        cases same
        exact ⟨row, Except.ok.inj a.replied, active⟩
    | refused e =>
      refine h.idle_turn a dutiful rfl ?_ ?_ ?_
      · intro _ _ _ _ same
        cases same
      · rintro q rfl ⟨row, found, _⟩
        obtain ⟨mid, accepted, _⟩ := productStatus_alone .reserved found
        cases a.replied.symm.trans (congrArg Prod.snd (exec_of_alone accepted))
      · intro _ _ same
        cases same
    | productSet old new found made =>
      obtain ⟨_, _, _, _, _, _, _, _, asked, _⟩ := owed_reserve here owed
      exact h.reserved a dutiful asked found made
    | orderMade fee fresh =>
      obtain ⟨listed, alone⟩ := a.allowed ok a.accepted
      exact h.made a dutiful owed fresh listed alone
    | orderSet old new found made => cases owed <;> cases here
    | userWithdrawn user found => cases owed; cases here
    | userMade row fresh => cases owed
    | userSet old new found made => cases owed
    | productMade row fresh => cases owed
    | productViewed old found => cases owed
    | orderErased row found => cases owed

/-- The first call that is not in time gives its product a second live order. -/
theorem Orderly.breaks (h : Orderly p) (turn : Turn Op) (late : ¬ Service.OnCalls InTime p turn) :
    ¬ ∀ q, (liveOrders (service.step p turn).store.toTables q).Subsingleton := by
  intro one
  refine late ?_
  cases turn with
  | arrive op => trivial
  | call i =>
    intro t c ht pending
    cases c with
    | orderCreate id now data =>
      intro ok
      obtain ⟨next, row, t', a⟩ := answered_of_accepted ht pending ok
      obtain ⟨_, owed⟩ := dutiful_pending h.dutiful a.thread rfl
      have before : liveOrders p.store.toTables data.product = ∅ := by
        rw [a.store] at one
        cases a.effect with
        | read r reads => cases reads
        | orderMade fee fresh =>
          refine Set.eq_empty_iff_forall_notMem.mpr (fun o live => ?_)
          have first : o ∈ ordersIn (p.store.orders.insert id (data.row fee now)) data.product
              (fun s => s.live = true) := ordersIn_insert_mono fresh live
          have second : id ∈ ordersIn (p.store.orders.insert id (data.row fee now)) data.product
              (fun s => s.live = true) :=
            ⟨_, Table.find?_insert_self fresh _, rfl, rfl⟩
          have same : o = id := one data.product first second
          rw [same] at live
          exact not_mem_ordersIn fresh live
      have free : ¬ Reserving p data.product := fun reserving =>
        (before ▸ h.reserving _ reserving).ne_empty rfl
      refine ⟨?_, free⟩
      obtain ⟨op, log, rest⟩ := t
      cases owed with
      | createWrites product number early read active other =>
        exact (h.read _ (List.mem_of_getElem? ht) _ product read active).resolve_right
          (fun some => (before ▸ some).ne_empty rfl)
    | _ => trivial

end

theorem orderly_idle {db : Db} (start : Exclusive db.toTables) : Orderly db.idle where
  dutiful := dutiful_idle db
  one := start.one
  free q := fun ⟨row, found, active⟩ => Or.inl (start.free q row found active)
  reserving _ := fun ⟨_, member, _⟩ => by cases member
  read _ member := by cases member

/-- In every interleaving of purchases every product keeps at most one live order exactly
as long as every order is made in time. -/
theorem one_purchase_iff (db : Db) (start : Exclusive db.toTables) (turns : List (Turn Op))
    (scope : ∀ turn ∈ turns, ∀ op, turn = .arrive op → op.buys = true) :
    (∀ p ∈ visited service.step db.idle turns, ∀ q,
      (liveOrders p.store.toTables q).Subsingleton) ↔
    Along service.step (Service.OnCalls InTime) db.idle turns :=
  always_iff_along (fun _ turn h arrives ok => h.after_turn turn arrives ok) (fun _ h => h.one)
    (fun _ turn h _ late => h.breaks turn late) (orderly_idle start) scope

/-- Bob buys the lamp, and cho comes when it is reserved. -/
def bobThenCho : List (Turn Op) := [.arrive (.ordersCreate "bob" lampOrder (newOrder 1)),
  .call 0, .call 0, .call 0, .call 0, .arrive (.ordersCreate "cho" lampOrder (newOrder 2)),
  .call 1]

theorem one_purchase_in_turn :
    Along service.step (Service.OnCalls InTime) market.idle bobThenCho ∧
      ∀ p ∈ visited service.step market.idle bobThenCho, ∀ q,
        (liveOrders p.store.toTables q).Subsingleton := by
  have ok : Along service.step (Service.OnCalls InTime) market.idle bobThenCho := by
    refine ⟨trivial, ?_, ?_, ?_, ?_, trivial, ?_, trivial⟩ <;> intro t c ht pending <;>
      cases ht <;> cases pending
    · trivial
    · trivial
    · intro _
      refine ⟨⟨lamp, rfl, rfl⟩, ?_⟩
      rintro ⟨t, member, reserves⟩
      cases member with
      | head => cases reserves
      | tail _ none => cases none
    · trivial
    · trivial
  exact ⟨ok, (one_purchase_iff market market_unsold.exclusive bobThenCho
    (by simp [bobThenCho, Op.buys])).mpr ok⟩

/-- Both read the lamp before either reserves it. -/
theorem two_purchases :
    ¬ ∀ (db : Db) (turns : List (Turn Op)), Exclusive db.toTables →
      (∀ turn ∈ turns, ∀ op, turn = .arrive op → op.buys = true) →
      ∀ p ∈ visited service.step db.idle turns, ∀ q,
        (liveOrders p.store.toTables q).Subsingleton := by
  intro always
  let turns : List (Turn Op) := [.arrive (.ordersCreate "bob" lampOrder (newOrder 1)),
    .arrive (.ordersCreate "cho" lampOrder (newOrder 2)), .call 0, .call 1, .call 0, .call 1,
    .call 0, .call 1]
  have one := always market turns market_unsold.exclusive (by simp [turns, Op.buys]) _
    (run_mem_visited _ _ _) "lamp"
  have bob : "order-1" ∈ liveOrders (run service.step market.idle turns).store.toTables "lamp" :=
    live_of_row (by decide +kernel)
  have cho : "order-2" ∈ liveOrders (run service.step market.idle turns).store.toTables "lamp" :=
    live_of_row (by decide +kernel)
  exact absurd (one bob cho) (by decide)

end SecondhandApi
