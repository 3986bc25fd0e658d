import SecondhandApi.OrderCalls
import SecondhandApi.ReviewScores

/-! Who reviews whom. Orders and reviews are written by two modules, in any order; a review
is about the two parties of its order all the same, and an order has one review at most. -/
namespace SecondhandApi
open Keyed Interleaving

/-- The reviewer and the reviewed user are the buyer and the seller, either way round. -/
def Parties (order : Order) (reviewer reviewed : Id) : Prop :=
  reviewer = order.buyerId ∧ reviewed = order.sellerId ∨
    reviewer = order.sellerId ∧ reviewed = order.buyerId

structure ReviewsRight (t : Tables) : Prop where
  parties : ∀ r review, t.reviews.find? r = some review →
    ∃ order, t.orders.find? review.orderId = some order ∧
      Parties order review.reviewerId review.reviewedId ∧ review.reviewerId ≠ review.reviewedId
  one : ∀ r r' review review', t.reviews.find? r = some review →
    t.reviews.find? r' = some review' → review.orderId = review'.orderId → r = r'
  rating : ∀ r review, t.reviews.find? r = some review → 1 ≤ review.rating ∧ review.rating ≤ 5

/- Nobody buys from himself. -/
def OrdersApart (t : Tables) : Prop :=
  ∀ o order, t.orders.find? o = some order → order.buyerId ≠ order.sellerId

/-- No review that stays changes its order, its reviewer or the user it is about. -/
def ReviewsKept (t t' : Tables) : Prop :=
  ∀ r review review', t.reviews.find? r = some review → t'.reviews.find? r = some review' →
    SameParties review review'

def MarketOp.trades : MarketOp → Bool
  | .inl (.ordersCreate ..) | .inl (.ordersFindOne ..) | .inl (.ordersUpdate ..) |
    .inl (.ordersCancel ..) | .inl (.ordersConfirm ..) | .inl (.ordersRemove ..) => true
  | .inr _ => true
  | _ => false

/-- An order is made between two users; a review is made between the parties of an order that
the request has read. -/
def tradeCall (log : MarketLog) : MarketCall → Prop
  | .inl (.orderCreate _ _ data) => data.buyer ≠ data.seller
  | .inr (.create _ _ data) => ∃ order : Order,
    ⟨.inl (.orderFindById data.order), .ok (some order)⟩ ∈ log ∧
      Parties order data.reviewer data.reviewed
  | _ => True

/- The calls that are free to be made at any time. -/
def freeCall (c : MarketCall) : Prop := ∀ log, tradeCall log c

theorem free_trades {p : ReviewReq ReviewResponse} (h : Request.Makes freeCall p) (log : MarketLog) :
    Request.Obeys tradeCall (fun _ _ => True) log p :=
  Request.obeys_mono (fun log c (free : freeCall c) => free log) (h.obeys log)

theorem free_reads (c : Call) (reads : c.reads = true) : freeCall (.inl c) := by
  intro log
  cases c <;> trivial

theorem free_await {A : Type} {c : ReviewCall} (here : freeCall (.inr c)) {f : c.Result → ReviewReq A}
    (rest : ∀ a, Request.Makes freeCall (f a)) : Request.Makes freeCall (awaitReview c >>= f) := by
  refine ⟨here, fun r => ?_⟩
  cases r with
  | ok a => exact rest a
  | error e => trivial

theorem free_last {c : ReviewCall} (here : freeCall (.inr c)) :
    Request.Makes freeCall (awaitReview c) := by
  refine ⟨here, fun r => ?_⟩
  cases r <;> trivial

theorem calculateTrustScore_free (u : Id) :
    Request.Makes freeCall (ReviewsRepository.calculateTrustScore u) :=
  free_await (c := .findRatings u) (fun _ => trivial) (fun _ => trivial)

theorem updateUserTrustScore_free (u : Id) :
    Request.Makes freeCall (ReviewsRepository.updateUserTrustScore u) :=
  Request.makes_bind (calculateTrustScore_free u)
    (fun score => free_await (c := .userUpdateTrust u score.toInput) (fun _ => trivial)
      (fun _ => trivial))

theorem ordersOps_free (op : Op) (scope : MarketOp.trades (.inl op) = true) :
    Request.Makes freeCall (reviewService.program (.inl op)) := by
  refine Request.makes_map (Request.makes_left id ?_) _
  cases op with
  | ordersCreate buyerId dto new =>
    exact Request.makes_map (create_makes free_reads (fun _ _ other _ => Ne.symm other)
      (fun _ => trivial)) _
  | ordersFindOne id userId => exact Request.makes_map (findOne_makes free_reads id userId) _
  | ordersUpdate id userId dto =>
    exact Request.makes_map (update_makes free_reads userId dto (fun _ => trivial)) _
  | ordersCancel id userId now =>
    exact Request.makes_map (close_makes free_reads _ userId (fun _ => trivial)
      (fun _ _ => trivial)) _
  | ordersConfirm id userId now soldAt =>
    exact Request.makes_map (close_makes free_reads _ userId (fun _ => trivial)
      (fun _ _ => trivial)) _
  | ordersRemove id => exact Request.makes_map (remove_makes free_reads (fun _ => trivial)) _
  | _ => cases scope

theorem findOne_free (id : Id) : Request.Makes freeCall (ReviewsService.findOne id) := by
  refine free_await (c := .findById id) (fun _ => trivial) (fun found => ?_)
  cases found <;> trivial

theorem findByOrderId_free (orderId : Id) :
    Request.Makes freeCall (ReviewsService.findByOrderId orderId) := by
  refine Request.makes_bind (Request.makes_left id (findById_makes free_reads orderId)) (fun _ => ?_)
  exact free_last (c := .findByOrderId orderId) (fun _ => trivial)

theorem getTrustScore_free (u : Id) : Request.Makes freeCall (ReviewsService.getTrustScore u) := by
  refine Request.makes_bind
    (Request.makes_left id (makes_last (free_reads (.userFindById u) rfl))) (fun found => ?_)
  cases found with
  | none => trivial
  | some user => exact calculateTrustScore_free u

/- The end of the requests that write a review. -/
theorem answer_free (u : Id) (row : Review) : Request.Makes freeCall
    (do ReviewsRepository.updateUserTrustScore u; return row) :=
  Request.makes_bind (updateUserTrustScore_free u) (fun _ => Request.makes_done row)

theorem update_free (id userId : Id) (dto : UpdateReviewDto) :
    Request.Makes freeCall (ReviewsService.update id userId dto) := by
  refine free_await (c := .findById id) (fun _ => trivial) (fun found => ?_)
  cases found with
  | none => trivial
  | some review =>
    dsimp only
    split
    · trivial
    · refine free_await (c := .update id dto) (fun _ => trivial) (fun row => ?_)
      split
      · exact answer_free _ row
      · trivial

theorem remove_free (id userId : Id) : Request.Makes freeCall (ReviewsService.remove id userId) := by
  refine free_await (c := .findById id) (fun _ => trivial) (fun found => ?_)
  cases found with
  | none => trivial
  | some review =>
    dsimp only
    split
    · trivial
    · exact free_await (c := .delete id) (fun _ => trivial) (fun row => answer_free _ row)

theorem create_trades (userId : Id) (dto : CreateReviewDto) (id : Id) (now : Date) :
    Request.Obeys tradeCall (fun _ _ => True) []
      (reviewService.program (.inr (.create userId dto id now))) := by
  refine ⟨trivial, fun r => ?_⟩
  cases r with
  | error e => trivial
  | ok found =>
    cases found with
    | none => trivial
    | some order =>
      show Request.Obeys tradeCall _ _ (Request.bind (ite _ _ _) _)
      split
      · trivial
      · show Request.Obeys tradeCall _ _ (Request.bind (ite _ _ _) _)
        split
        · trivial
        · rename_i known
          have parties : Parties order userId (dto.toInput userId order).reviewed := by
            unfold CreateReviewDto.toInput
            by_cases buyer : order.buyerId = userId
            · exact Or.inl ⟨buyer.symm, if_pos buyer⟩
            · refine Or.inr ⟨?_, if_neg buyer⟩
              by_contra seller
              exact known ⟨buyer, Ne.symm seller⟩
          refine ⟨trivial, fun r => ?_⟩
          cases r with
          | error e => trivial
          | ok existing =>
            show Request.Obeys tradeCall _ _ (Request.bind (ite _ _ _) _)
            split
            · trivial
            · refine ⟨⟨order, List.mem_cons_of_mem _ (List.mem_singleton_self _), parties⟩,
                fun r => ?_⟩
              cases r with
              | error e => trivial
              | ok row =>
                exact free_trades (Request.makes_map
                  (answer_free (dto.toInput userId order).reviewed row) _) _

theorem programs_trade (op : MarketOp) (scope : op.trades = true) :
    Request.Obeys tradeCall (fun _ _ => True) [] (reviewService.program op) := by
  cases op with
  | inl op => exact free_trades (ordersOps_free op scope) []
  | inr op =>
    cases op with
    | create userId dto id now => exact create_trades userId dto id now
    | findOne id => exact free_trades (Request.makes_map (findOne_free id) _) []
    | findByOrderId orderId => exact free_trades (Request.makes_map (findByOrderId_free orderId) _) []
    | getTrustScore userId => exact free_trades (Request.makes_map (getTrustScore_free userId) _) []
    | update id userId dto => exact free_trades (Request.makes_map (update_free id userId dto) _) []
    | remove id userId => exact free_trades (Request.makes_map (remove_free id userId) _) []

/-! What one call keeps of the orders and the reviews. -/

theorem Parties.congr {order order' : Order} (same : order'.terms = order.terms) {a b : Id}
    (h : Parties order a b) : Parties order' a b := by
  simp only [Order.terms, Prod.mk.injEq] at same
  rw [Parties, same.1, same.2.1]
  exact h

theorem Parties.apart {order : Order} (h : Parties order a b)
    (apart : order.buyerId ≠ order.sellerId) : a ≠ b := by
  rcases h with ⟨rfl, rfl⟩ | ⟨rfl, rfl⟩
  · exact apart
  · exact apart.symm

section
variable {db : Db}

theorem OrdersApart.after_call (h : OrdersApart db.toTables) {c : Call} {log : MarketLog}
    (trade : tradeCall log (.inl c)) : OrdersApart (exec c db).1.toTables := by
  intro o order there
  rcases (call_effect c db).order_before there with ⟨old, found, same⟩ | ⟨now, data, fee, rfl, rfl, _⟩
  · simp only [Order.terms, Prod.mk.injEq] at same
    rw [same.1, same.2.1]
    exact h o old found
  · exact trade

theorem ReviewsRight.after_call (h : ReviewsRight db.toTables) (c : Call) :
    ReviewsRight (exec c db).1.toTables where
  parties r review there := by
    obtain ⟨order, found, parties, distinct⟩ :=
      h.parties r review ((call_effect c db).review_before there)
    obtain ⟨new, stays⟩ := Table.has_iff.mp ((exec c db).1.linked.review r review there).1
    refine ⟨new, stays, ?_, distinct⟩
    rcases (call_effect c db).order_before stays with ⟨old, before, same⟩ | ⟨_, _, _, _, _, fresh⟩
    · cases before.symm.trans found
      exact parties.congr same
    · cases fresh.symm.trans found
  one r r' review review' there there' := h.one r r' review review'
    ((call_effect c db).review_before there) ((call_effect c db).review_before there')
  rating r review there := h.rating r review ((call_effect c db).review_before there)

theorem ReviewEffect.orders {c : ReviewCall} {reply : c.Reply} {t' : Tables}
    (e : ReviewEffect db c reply t') : t'.orders = db.orders := by
  cases e <;> rfl

/-- A call on reviews keeps them right, if a review that it makes is about the parties of the
stored order. -/
theorem ReviewEffect.right {c : ReviewCall} {reply : c.Reply} {t' : Tables}
    (e : ReviewEffect db c reply t') (h : ReviewsRight db.toTables) (linked : Linked t')
    (apart : OrdersApart db.toTables)
    (made : ∀ id now data order, c = .create id now data → db.orders.find? data.order = some order →
      Parties order data.reviewer data.reviewed) : ReviewsRight t' where
  parties r review there := by
    obtain ⟨order, found⟩ := Table.has_iff.mp (linked.review r review there).1
    refine ⟨order, found, ?_⟩
    rw [e.orders] at found
    rcases e.review_cases there with ⟨old, before, same⟩ | ⟨now, data, images, rfl, rfl, _⟩
    · obtain ⟨order', found', parties, distinct⟩ := h.parties r old before
      rw [same.order] at found
      cases found.symm.trans found'
      rw [same.reviewer, same.reviewed]
      exact ⟨parties, distinct⟩
    · have parties := made r now data order rfl found
      exact ⟨parties, parties.apart (apart _ order found)⟩
  one r r' review review' there there' same := by
    rcases e.review_cases there with ⟨old, before, kept⟩ | ⟨_, data, _, rfl, rfl, first⟩ <;>
      rcases e.review_cases there' with ⟨old', before', kept'⟩ | ⟨_, data', _, created, rfl, first'⟩
    · exact h.one r r' old old' before before' (kept.order ▸ kept'.order ▸ same)
    · exact absurd (kept.order.symm.trans same) (not_reviewed first' before)
    · exact absurd (kept'.order.symm.trans same.symm) (not_reviewed first before')
    · cases created
      rfl
  rating r review there := by
    rcases e.rating_cases there with ⟨old, before, same⟩ | ⟨rating, same⟩
    · rw [same]
      exact h.rating r old before
    · rw [same]
      exact rating.property

end

theorem ReviewEffect.kept {db : Db} {c : ReviewCall} {reply : c.Reply} {t' : Tables}
    (e : ReviewEffect db c reply t') : ReviewsKept db.toTables t' := by
  intro r review review' there there'
  rcases e.review_cases there' with ⟨old, before, same⟩ | ⟨_, _, _, rfl, _, _⟩
  · cases before.symm.trans there
    exact same
  · cases e with
    | made images fresh first => cases fresh.symm.trans there
    | refused e =>
      cases there'.symm.trans there
      exact .refl _

/-- The id that a new order gets is not one under which a request has read an order: `uuid()`
never draws an id twice. -/
def NewOrderIds (p : MarketPool) (_ : MarketThread) : MarketCall → Prop
  | .inl (.orderCreate id _ _) => ∀ t ∈ p.threads, ∀ order : Order,
    ⟨.inl (.orderFindById id), .ok (some order)⟩ ∉ t.log
  | _ => True

/-- The buyer and the seller of an order, as a request has read them and as they are stored. -/
def sawParties (a : Answer MarketCall MarketReply) (o : Id) (both : Id × Id) : Prop :=
  ∃ order : Order, a = ⟨.inl (.orderFindById o), .ok (some order)⟩ ∧
    (order.buyerId, order.sellerId) = both

def isBetween (db : Db) (o : Id) (both : Id × Id) : Prop :=
  ∃ order, db.orders.find? o = some order ∧ (order.buyerId, order.sellerId) = both

/-- What links the reviews to the orders, and both to what the requests have read. -/
structure Trading (p : MarketPool) : Prop where
  obedient : Service.Obedient (fun _ => tradeCall) (fun _ _ _ => True) p
  read : Service.Remembers sawParties isBetween p
  apart : OrdersApart p.store.toTables
  right : ReviewsRight p.store.toTables

section
variable {p : MarketPool} {turn : Turn MarketOp}

/-- A review is made between the parties of the stored order. -/
theorem Trading.parties (h : Trading p) {i : Nat} {t : MarketThread} {id : Id} {now : Date}
    {data : ReviewCreateInput}
    {next : MarketReply (.inr (.create id now data)) → ReviewReq ReviewResponse}
    (ht : p.threads[i]? = some t) (hr : t.rest = .call (.inr (.create id now data)) next)
    {order : Order} (found : p.store.orders.find? data.order = some order) :
    Parties order data.reviewer data.reviewed := by
  obtain ⟨read, seen, parties⟩ := Service.obedient_pending h.obedient ht hr
  have same : (order.buyerId, order.sellerId) = (read.buyerId, read.sellerId) :=
    h.read t (List.mem_of_getElem? ht) _ seen data.order _ _ ⟨read, rfl, rfl⟩ ⟨order, found, rfl⟩
  obtain ⟨buyer, seller⟩ := Prod.mk.inj same
  rw [Parties, buyer, seller]
  exact parties

/-- What the next call of a thread leaves of orders and reviews. -/
theorem Trading.after_call (h : Trading p) {i : Nat} {t : MarketThread} {c : MarketCall}
    {next : MarketReply c → ReviewReq ReviewResponse} (ht : p.threads[i]? = some t)
    (hr : t.rest = .call c next) :
    OrdersApart (reviewService.exec c p.store).1.toTables ∧
      ReviewsRight (reviewService.exec c p.store).1.toTables ∧
      ReviewsKept p.store.toTables (reviewService.exec c p.store).1.toTables := by
  cases c with
  | inl c =>
    have trade : tradeCall t.log (.inl c) := Service.obedient_pending h.obedient ht hr
    refine ⟨h.apart.after_call trade, h.right.after_call c, ?_⟩
    intro r review review' there there'
    cases ((call_effect c p.store).review_before there').symm.trans there
    exact .refl _
  | inr c =>
    have effect := review_effect c p.store
    refine ⟨?_, effect.right h.right (execReview c p.store).1.linked h.apart ?_, effect.kept⟩
    · intro o order there
      exact h.apart o order (effect.orders ▸ there)
    · rintro id now data order rfl found
      exact h.parties ht hr found

theorem Trading.kept_turn (h : Trading p) :
    ReviewsKept p.store.toTables (reviewService.step p turn).store.toTables := by
  refine reviewService.store_step (I := fun db => ReviewsKept p.store.toTables db.toTables) ?_ turn
    (fun _ _ _ _ _ ht hr => (h.after_call ht hr).2.2)
  intro r review review' there there'
  cases there.symm.trans there'
  exact .refl _

/-- The parties that a request has read are the stored ones after the turn. -/
theorem Trading.read_turn (h : Trading p) (new : Service.OnCalls NewOrderIds p turn) :
    Service.Remembers sawParties isBetween (reviewService.step p turn) := by
  refine reviewService.remembers_step h.read turn (fun i t c next called ht hr => ⟨?_, ?_⟩)
  · rintro o _ _ ⟨read, answer, rfl⟩ ⟨order, there, rfl⟩
    obtain ⟨rfl, reply⟩ := Answer.mk.inj answer
    have stored : p.store.orders.find? o = some read := Except.ok.inj (eq_of_heq reply)
    cases stored.symm.trans there
    rfl
  · rintro o _ ⟨order, there, rfl⟩
    cases c with
    | inl c =>
      rcases (call_effect c p.store).order_before there with
        ⟨old, before, same⟩ | ⟨now, data, fee, rfl, rfl, _⟩
      · simp only [Order.terms, Prod.mk.injEq] at same
        exact Or.inl ⟨old, before, by rw [same.1, same.2.1]⟩
      · refine Or.inr ?_
        rintro u inside a seen _ ⟨read, rfl, rfl⟩
        subst called
        have drawn : NewOrderIds p t (.inl (.orderCreate o now data)) := Service.onCalls_at new ht hr
        exact drawn u inside read seen
    | inr c => exact Or.inl ⟨order, (review_effect c p.store).orders ▸ there, rfl⟩

theorem Trading.after_turn (h : Trading p)
    (arrives : ∀ op, turn = .arrive op → MarketOp.trades op = true)
    (new : Service.OnCalls NewOrderIds p turn) : Trading (reviewService.step p turn) := by
  have tables := reviewService.store_step
    (I := fun db => OrdersApart db.toTables ∧ ReviewsRight db.toTables) ⟨h.apart, h.right⟩ turn
    (fun _ _ _ _ _ ht hr => ⟨(h.after_call ht hr).1, (h.after_call ht hr).2.1⟩)
  exact ⟨Service.obedient_step programs_trade p turn h.obedient arrives, h.read_turn new,
    tables.1, tables.2⟩

end

theorem trading_idle {db : Db} (apart : OrdersApart db.toTables) (right : ReviewsRight db.toTables) :
    Trading (Pool.idle db) where
  obedient _ none := by cases none
  read := Service.remembers_idle db
  apart := apart
  right := right

/-- In every interleaving of order and review operations every stored review is between the
two parties of its order, the only one of that order and rated one to five, and none changes
what it is about. -/
theorem reviews_right (db : Db) (apart : OrdersApart db.toTables) (right : ReviewsRight db.toTables)
    (turns : List (Turn MarketOp))
    (scope : ∀ turn ∈ turns, ∀ op, turn = .arrive op → MarketOp.trades op = true)
    (new : Along reviewService.step (Service.OnCalls NewOrderIds) (Pool.idle db) turns) :
    (∀ p ∈ visited reviewService.step (Pool.idle db) turns, ReviewsRight p.store.toTables) ∧
      Along reviewService.step (fun p turn =>
        ReviewsKept p.store.toTables (reviewService.step p turn).store.toTables)
        (Pool.idle db) turns := by
  have arrivals : Along reviewService.step
      (fun _ turn => ∀ op, turn = .arrive op → MarketOp.trades op = true) (Pool.idle db) turns :=
    along_of_forall scope
  have start := trading_idle apart right
  refine ⟨fun p member => ?_, ?_⟩
  · exact (visited_invariant (fun _ _ h both => h.after_turn both.1 both.2) start
      (arrivals.and new) p member).right
  · exact along_of_invariant (fun _ _ h both => h.after_turn both.1 both.2)
      (fun _ _ h _ => h.kept_turn) start (arrivals.and new)

theorem soldMarket_apart : OrdersApart soldMarket.toTables := by
  have rows : soldMarket.orders.all (fun _ o => o.buyerId ≠ o.sellerId) = true := by decide
  intro o order found
  exact of_decide_eq_true (Table.all_iff.mp rows o order found)

theorem soldMarket_right : ReviewsRight soldMarket.toTables where
  parties _ _ there := by cases there
  one _ _ _ _ there := by cases there
  rating _ _ there := by cases there

/-- Bob and ann review each other for one order at the same time; the second review is refused. -/
def reviewRace : List (Turn MarketOp) :=
  [.arrive (.inr (.create "bob" (stars "order-1" Rating.five) "review-1" 2)),
    .arrive (.inr (.create "ann" (stars "order-1" Rating.one) "review-2" 2)),
    .call 0, .call 1, .call 0, .call 1, .call 0, .call 1]

theorem reviews_right_race :
    OrdersApart soldMarket.toTables ∧ ReviewsRight soldMarket.toTables ∧
      Along reviewService.step (Service.OnCalls NewOrderIds) (Pool.idle soldMarket) reviewRace ∧
      (∀ p ∈ visited reviewService.step (Pool.idle soldMarket) reviewRace,
        ReviewsRight p.store.toTables) ∧
      Along reviewService.step (fun p turn =>
        ReviewsKept p.store.toTables (reviewService.step p turn).store.toTables)
        (Pool.idle soldMarket) reviewRace := by
  have new : Along reviewService.step (Service.OnCalls NewOrderIds) (Pool.idle soldMarket)
      reviewRace := by
    refine ⟨trivial, trivial, ?_, ?_, ?_, ?_, ?_, ?_, trivial⟩ <;> intro t c ht pending <;>
      cases ht <;> cases pending <;> trivial
  exact ⟨soldMarket_apart, soldMarket_right, new,
    reviews_right soldMarket soldMarket_apart soldMarket_right reviewRace
      (by simp [reviewRace, MarketOp.trades]) new⟩

end SecondhandApi
