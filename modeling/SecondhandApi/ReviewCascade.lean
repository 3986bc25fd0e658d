import SecondhandApi.ReviewScores
import SecondhandApi.Effects

/-! Reviews come and go by two routes: through the reviews service, which writes the score
of the reviewed user again, and with their order, which the database deletes with its
review. This module says which runs, request after request, keep the scores right. -/
namespace SecondhandApi
open Keyed Interleaving

/-- The score of `v` written over, from the ratings that are stored. -/
def rescored (v : Id) (db : Db) : Db :=
  (execReview (.userUpdateTrust v (TrustScore.of (Prisma.ratings db.toTables v)).toInput) db).1

section
variable {db : Db} {u v : Id}

theorem rescored_self : Scored (rescored v db).toTables v := by
  rw [rescored, userUpdateTrust_store]
  cases found : db.users.find? v with
  | none =>
    intro user there
    cases found.symm.trans there
  | some user => exact scored_written found

theorem rescored_other (apart : u ≠ v) (scored : Scored db.toTables u) :
    Scored (rescored v db).toTables u := by
  rw [rescored, userUpdateTrust_store]
  cases found : db.users.find? v with
  | none => exact scored
  | some user => exact scored.congr ((Table.find?_set found _ u).trans (if_neg apart)) rfl

theorem rescored_reviews : (rescored v db).reviews = db.reviews := by
  rw [rescored, userUpdateTrust_store]
  cases db.users.find? v <;> rfl

theorem updateUserTrustScore_alone (row : Review) :
    ((do ReviewsRepository.updateUserTrustScore v; return row : ReviewReq Review).alone
      (either exec execReview) db).1 = rescored v db := by
  let score := (TrustScore.of (Prisma.ratings db.toTables v)).toInput
  show (Request.alone _ (Request.bind (Request.bind
    (settleReview (execReview (.userUpdateTrust v score) db).2) _) _) _).1 = _
  cases (execReview (.userUpdateTrust v score) db).2 <;> rfl

/-! What one operation, alone, leaves. -/

@[simp] theorem shop_findById_alone (id : Id) :
    (shop (OrdersRepository.findById id)).alone (either exec execReview) db =
      (db, .ok (db.orders.find? id)) := rfl

@[simp] theorem reviewFindById_alone (id : Id) :
    (ReviewsRepository.findById id).alone (either exec execReview) db =
      (db, .ok (db.reviews.find? id)) := rfl

@[simp] theorem reviewFindByOrderId_alone (orderId : Id) :
    (ReviewsRepository.findByOrderId orderId).alone (either exec execReview) db =
      (db, .ok (db.reviews.findBy (fun r => r.orderId = orderId))) := rfl

/-- A write of a review that is refused ends the request; one that is accepted hands over. -/
theorem awaitReview_alone {A : Type} (c : ReviewCall)
    {w : Except PrismaError (Tables × c.Result)}
    (hw : db.toTables.execReview c = commit db.toTables w) (f : c.Result → ReviewReq A) :
    ((awaitReview c >>= f).alone (either exec execReview) db).1 = db ∨
      ∃ mid row, execReview c db = (mid, .ok row) ∧
        ((awaitReview c >>= f).alone (either exec execReview) db).1 =
          ((f row).alone (either exec execReview) mid).1 := by
  have call : (awaitReview c >>= f).alone (either exec execReview) db =
      (settleReview (execReview c db).2 >>= f).alone (either exec execReview) (execReview c db).1 :=
    rfl
  rw [call]
  rcases execReview_write db hw with ⟨e, _, done⟩ | ⟨mid, row, _, done⟩
  · refine Or.inl ?_
    rw [done]
    rfl
  · refine Or.inr ⟨mid, row, done, ?_⟩
    rw [done]
    rfl

theorem create_leaves (userId : Id) (dto : CreateReviewDto) (id : Id) (now : Date) :
    ((ReviewsService.create userId dto id now).alone (either exec execReview) db).1 = db ∨
      ∃ data mid row, execReview (.create id now data) db = (mid, .ok row) ∧
        ((ReviewsService.create userId dto id now).alone (either exec execReview) db).1 =
          rescored data.reviewed mid := by
  simp only [ReviewsService.create, Request.alone_bind, shop_findById_alone]
  cases found : db.orders.find? dto.orderId with
  | none => exact Or.inl rfl
  | some order =>
    dsimp only
    split
    · exact Or.inl rfl
    · split
      · exact Or.inl rfl
      · simp only [Request.alone_bind, reviewFindByOrderId_alone]
        split
        · exact Or.inl rfl
        · rcases awaitReview_alone (.create id now (dto.toInput userId order)) rfl _ with
            same | ⟨mid, row, done, left⟩
          · exact Or.inl same
          · exact Or.inr ⟨_, mid, row, done, left.trans (updateUserTrustScore_alone row)⟩

theorem update_leaves (id userId : Id) (dto : UpdateReviewDto) :
    ((ReviewsService.update id userId dto).alone (either exec execReview) db).1 = db ∨
      ∃ old mid row, db.reviews.find? id = some old ∧
        execReview (.update id dto) db = (mid, .ok row) ∧
        ((ReviewsService.update id userId dto).alone (either exec execReview) db).1 =
          if dto.rating = .undefined then mid else rescored old.reviewedId mid := by
  simp only [ReviewsService.update, Request.alone_bind, reviewFindById_alone]
  cases found : db.reviews.find? id with
  | none => exact Or.inl rfl
  | some old =>
    dsimp only
    split
    · exact Or.inl rfl
    · rcases awaitReview_alone (.update id dto) rfl _ with same | ⟨mid, row, done, left⟩
      · exact Or.inl same
      · refine Or.inr ⟨old, mid, row, rfl, done, left.trans ?_⟩
        by_cases unrated : dto.rating = .undefined
        · rw [if_pos unrated]
          simp only [unrated, ne_eq, not_true_eq_false, if_false]
          rfl
        · rw [if_neg unrated]
          simp only [ne_eq, unrated, not_false_eq_true, if_true]
          exact updateUserTrustScore_alone row

theorem remove_leaves (id userId : Id) :
    ((ReviewsService.remove id userId).alone (either exec execReview) db).1 = db ∨
      ∃ old mid row, db.reviews.find? id = some old ∧
        execReview (.delete id) db = (mid, .ok row) ∧
        ((ReviewsService.remove id userId).alone (either exec execReview) db).1 =
          rescored old.reviewedId mid := by
  simp only [ReviewsService.remove, Request.alone_bind, reviewFindById_alone]
  cases found : db.reviews.find? id with
  | none => exact Or.inl rfl
  | some old =>
    dsimp only
    split
    · exact Or.inl rfl
    · rcases awaitReview_alone (.delete id) rfl _ with same | ⟨mid, row, done, left⟩
      · exact Or.inl same
      · exact Or.inr ⟨old, mid, row, rfl, done, left.trans (updateUserTrustScore_alone row)⟩

/-- Right scores stay right, and a user who is reviewed anew has a right one. -/
structure ScoresKept (db after : Db) : Prop where
  scored : ∀ u, Scored db.toTables u → Scored after.toTables u
  reviewed : ∀ u, Reviewed after.toTables u → Reviewed db.toTables u ∨ Scored after.toTables u

theorem ScoresKept.refl (db : Db) : ScoresKept db db := ⟨fun _ => id, fun _ => Or.inl⟩

section
variable {c : ReviewCall} {mid : Db} {row : c.Result}

theorem effect_of_done (done : execReview c db = (mid, .ok row)) :
    ReviewEffect db c (.ok row) mid.toTables := by
  have effect := review_effect c db
  rwa [done] at effect

/-- A call that leaves all scores alone is to be followed by nothing. -/
theorem written_keeps (done : execReview c db = (mid, .ok row))
    (still : ∀ u, ¬ Shifts db.toTables u c) : ScoresKept db mid where
  scored u h := (effect_of_done done).scored_still h (still u)
  reviewed u := by
    rintro ⟨r, new, there, about⟩
    rcases (effect_of_done done).review_cases there with ⟨old, found, same⟩ | ⟨_, _, _, rfl, rfl, _⟩
    · exact Or.inl ⟨r, old, found, same.reviewed.symm.trans about⟩
    · exact absurd about (still u)

/-- A call that may change the ratings of one user is to be followed by the user's score. -/
theorem rescored_keeps (done : execReview c db = (mid, .ok row))
    (only : ∀ u, Shifts db.toTables u c → u = v) : ScoresKept db (rescored v mid) where
  scored u h := by
    by_cases same : u = v
    · exact same ▸ rescored_self
    · exact rescored_other same
        ((effect_of_done done).scored_still h (fun shifts => same (only u shifts)))
  reviewed u := by
    rintro ⟨r, new, there, about⟩
    rw [rescored_reviews] at there
    rcases (effect_of_done done).review_cases there with ⟨old, found, same⟩ | ⟨_, _, _, rfl, rfl, _⟩
    · exact Or.inl ⟨r, old, found, same.reviewed.symm.trans about⟩
    · exact Or.inr (only u about ▸ rescored_self)

end

/-- Every operation that writes reviews, alone, keeps the scores right. -/
theorem writesReviews_keeps (op : MarketOp) (scope : op.writesReviews = true) :
    ScoresKept db (reviewService.sequential db op) := by
  cases op with
  | inl op => cases scope
  | inr op =>
    cases op with
    | create userId dto id now =>
      have store : reviewService.sequential db (.inr (.create userId dto id now)) =
          ((ReviewsService.create userId dto id now).alone (either exec execReview) db).1 :=
        congrArg Prod.fst (Request.alone_map _ _ _ _)
      rw [store]
      rcases create_leaves userId dto id now with same | ⟨data, mid, row, done, left⟩
      · rw [same]
        exact .refl db
      · rw [left]
        exact rescored_keeps done (fun u shifts => Eq.symm shifts)
    | update id userId dto =>
      have store : reviewService.sequential db (.inr (.update id userId dto)) =
          ((ReviewsService.update id userId dto).alone (either exec execReview) db).1 :=
        congrArg Prod.fst (Request.alone_map _ _ _ _)
      rw [store]
      rcases update_leaves id userId dto with same | ⟨old, mid, row, found, done, left⟩
      · rw [same]
        exact .refl db
      · rw [left]
        split
        · exact written_keeps done (fun u shifts => shifts.1 ‹_›)
        · refine rescored_keeps done (fun u shifts => ?_)
          obtain ⟨_, row, there, about⟩ := shifts
          cases there.symm.trans found
          exact about.symm
    | remove id userId =>
      have store : reviewService.sequential db (.inr (.remove id userId)) =
          ((ReviewsService.remove id userId).alone (either exec execReview) db).1 :=
        congrArg Prod.fst (Request.alone_map _ _ _ _)
      rw [store]
      rcases remove_leaves id userId with same | ⟨old, mid, row, found, done, left⟩
      · rw [same]
        exact .refl db
      · rw [left]
        refine rescored_keeps done (fun u shifts => ?_)
        obtain ⟨row, there, about⟩ := shifts
        cases there.symm.trans found
        exact about.symm
    | _ => cases scope

/-- An operation of the other modules does alone what it does among them. -/
theorem sequential_shop (op : Op) :
    reviewService.sequential db (.inl op) = service.sequential db op := by
  have store : reviewService.sequential db (.inl op) =
      ((shop op.program).alone (either exec execReview) db).1 :=
    congrArg Prod.fst (Request.alone_map _ _ _ _)
  rw [store, shop, Request.alone_left]
  rfl

/-- The reviews that a deleted order leaves are those of the other orders. -/
theorem ratings_withoutOrder (t : Tables) (id u : Id) :
    Prisma.ratings (Prisma.withoutOrder t id) u =
      ((t.reviews.rows.filter (fun row => row.2.reviewedId = u)).filter
        (fun row => !decide (row.2.orderId = id))).map (fun row => row.2.rating) := by
  rw [List.filter_filter]
  simp only [Prisma.ratings, Prisma.withoutOrder, Tables.reviews_withReviews, Table.eraseAll,
    List.filter_filter]
  exact congrArg (List.map _) (List.filter_congr (fun _ _ => Bool.and_comm _ _))

theorem totalReviews_of (ratings : List Int) :
    (TrustScore.of ratings).totalReviews = ratings.length := by
  unfold TrustScore.of
  dsimp only
  split
  · rename_i none
    exact none.symm
  · rfl

end

/- The operations that may change the set of reviews. -/
def MarketOp.movesReviews : MarketOp → Bool
  | .inl (.ordersRemove _) => true
  | op => MarketOp.writesReviews op

/-- An order that is removed has no review. -/
def Unreviewed (db : Db) : MarketOp → Prop
  | .inl (.ordersRemove id) => ∀ r review, db.reviews.find? r = some review → review.orderId ≠ id
  | _ => True

section
variable {db : Db} {id : Id}

theorem removal_keeps (free : Unreviewed db (.inl (.ordersRemove id))) :
    ScoresKept db (service.sequential db (.ordersRemove id)) := by
  cases found : db.orders.find? id with
  | none =>
    rw [sequential_map db (p := OrdersService.remove id) rfl]
    rcases remove_outcome db id with ⟨order, _, there, _⟩ | ⟨refused, _⟩
    · cases found.symm.trans there
    · rw [refused.1]
      exact .refl db
  | some order =>
    have after := erased_of_found found
    refine ⟨fun u scored => ?_, fun u => ?_⟩
    · rw [after]
      refine scored.congr rfl ?_
      refine congrArg (List.map _) (Table.query_eraseAll (fun r review there _ => ?_))
      exact decide_eq_false (free r review there)
    · rintro ⟨r, review, there, about⟩
      rw [after, Prisma.withoutOrder, Tables.reviews_withReviews, Table.find?_eraseAll,
        Option.filter_eq_some_iff] at there
      exact Or.inl ⟨r, review, there.1, about⟩

/-- The count of a user's reviews is wrong once one of them has gone with its order. -/
theorem removal_breaks {r : Id} {review : Review} (there : db.reviews.find? r = some review)
    (gone : review.orderId = id) (scored : Scored db.toTables review.reviewedId) :
    ¬ Scored (service.sequential db (.ordersRemove id)).toTables review.reviewedId := by
  obtain ⟨order, _, user⟩ := db.linked.review r review there
  obtain ⟨order, found⟩ := Table.has_iff.mp (gone ▸ order)
  obtain ⟨user, known⟩ := Table.has_iff.mp user
  rw [erased_of_found found]
  intro after
  have before : user.ratingCount = (Prisma.ratings db.toTables review.reviewedId).length := by
    rw [← totalReviews_of]
    exact congrArg TrustInput.ratingCount (scored user known)
  have now : user.ratingCount =
      (Prisma.ratings (Prisma.withoutOrder db.toTables id) review.reviewedId).length := by
    rw [← totalReviews_of]
    exact congrArg TrustInput.ratingCount (after user known)
  have fewer : (Prisma.ratings (Prisma.withoutOrder db.toTables id) review.reviewedId).length <
      (Prisma.ratings db.toTables review.reviewedId).length := by
    rw [ratings_withoutOrder, Prisma.ratings, List.length_map, List.length_map,
      List.length_filter_lt_length_iff_exists]
    refine ⟨(r, review), List.mem_filter.mpr ⟨db.reviews.mem_rows.mpr there, ?_⟩, ?_⟩
    · exact decide_eq_true rfl
    · simp [gone]
  omega

theorem movesReviews_keeps {op : MarketOp} (scope : MarketOp.movesReviews op = true)
    (free : Unreviewed db op) : ScoresKept db (reviewService.sequential db op) := by
  cases op with
  | inl op =>
    cases op with
    | ordersRemove id =>
      rw [sequential_shop]
      exact removal_keeps free
    | _ => cases scope
  | inr op => exact writesReviews_keeps (.inr op) scope

end

/-- At the end of the run every user who was reviewed in a state of it has the right score. -/
def ScoresRight (db : Db) (ops : List MarketOp) : Prop :=
  ∀ q ∈ visited reviewService.sequential db ops, ∀ u, Reviewed q.toTables u →
    Scored (run reviewService.sequential db ops).toTables u

/-- The states visited so far: whoever was reviewed in one of them has the right score. -/
structure RightSoFar (past : List Db) (db : Db) : Prop where
  visited : db ∈ past
  right : ∀ q ∈ past, ∀ u, Reviewed q.toTables u → Scored db.toTables u

theorem RightSoFar.after_op {past : List Db} {db : Db} {op : MarketOp} (h : RightSoFar past db)
    (scope : MarketOp.movesReviews op = true) (free : Unreviewed db op) :
    RightSoFar (past ++ [reviewService.sequential db op]) (reviewService.sequential db op) where
  visited := List.mem_append_right _ (List.mem_singleton_self _)
  right q member u reviewed := by
    have kept := movesReviews_keeps scope free
    rcases List.mem_append.mp member with before | last
    · exact kept.scored u (h.right q before u reviewed)
    · rw [List.mem_singleton.mp last] at reviewed
      rcases kept.reviewed u reviewed with before | fine
      · exact kept.scored u (h.right db h.visited u before)
      · exact fine

/-- In every sequential run the scores stay right exactly as long as no order is removed that
has a review. -/
theorem scores_right_iff (db : Db) (start : ∀ u, Reviewed db.toTables u → Scored db.toTables u)
    (ops : List MarketOp) (scope : ∀ op ∈ ops, MarketOp.movesReviews op = true) :
    (∀ before after, ops = before ++ after → ScoresRight db before) ↔
    Along reviewService.sequential Unreviewed db ops := by
  constructor
  · intro right
    refine along_iff_at.mpr (fun before op after split => ?_)
    cases op with
    | inr op => trivial
    | inl op =>
      cases op with
      | ordersRemove id =>
        intro r review there gone
        have here := right before (.inl (.ordersRemove id) :: after) split
        have next := right (before ++ [.inl (.ordersRemove id)]) after
          (by rw [split, List.append_assoc]; rfl)
        have reviewed : Reviewed (run reviewService.sequential db before).toTables
          review.reviewedId := ⟨r, review, there, rfl⟩
        have broken := removal_breaks there gone
          (here _ (run_mem_visited _ _ _) _ reviewed)
        rw [← sequential_shop] at broken
        have kept := next _ (by
          rw [visited_snoc]
          exact List.mem_append_left _ (run_mem_visited _ _ _)) _ reviewed
        rw [run_append] at kept
        exact broken kept
      | _ => trivial
  · rintro free before after rfl
    have inScope : Along reviewService.sequential
        (fun _ op => MarketOp.movesReviews op = true) db before :=
      along_of_forall (fun op here => scope op (List.mem_append_left after here))
    refine (history_invariant (I := RightSoFar) (fun past t op h both => h.after_op both.1 both.2)
      ⟨List.mem_singleton_self db, fun q last u reviewed => ?_⟩
      (inScope.and (along_append.mp free).1)).right
    rw [List.mem_singleton.mp last] at reviewed
    exact start u reviewed

/-- Bob reviews ann, changes the rating and takes the review back; his other order is deleted. -/
def reviewAndRemove : List MarketOp :=
  [.inr (.create "bob" (stars "order-1" Rating.five) "review-1" 2),
    .inr (.update "review-1" "bob" { rating := .value Rating.three }),
    .inr (.remove "review-1" "bob"), .inl (.ordersRemove "order-2")]

theorem scores_right_removed :
    Along reviewService.sequential Unreviewed soldMarket reviewAndRemove ∧
      ∀ before after, reviewAndRemove = before ++ after → ScoresRight soldMarket before := by
  have free : Along reviewService.sequential Unreviewed soldMarket reviewAndRemove := by
    refine ⟨trivial, trivial, trivial, ?_, trivial⟩
    intro r review there
    have taken : (run reviewService.sequential soldMarket (reviewAndRemove.take 3)).reviews.rows =
        [] := by decide +kernel
    have absent : (run reviewService.sequential soldMarket
        (reviewAndRemove.take 3)).reviews.find? r = none :=
      congrArg (List.lookup r) taken
    cases absent.symm.trans there
  refine ⟨free, (scores_right_iff soldMarket ?_ reviewAndRemove (by decide)).mpr free⟩
  rintro u ⟨id, r, found, _⟩
  cases found

/-- Bob reviews ann, and the order is deleted with its review: ann keeps the score of it. -/
theorem score_of_deleted_review :
    ¬ ∀ (db : Db) (ops : List MarketOp), (∀ u, Reviewed db.toTables u → Scored db.toTables u) →
      (∀ op ∈ ops, MarketOp.movesReviews op = true) → ScoresRight db ops := by
  intro always
  let create : MarketOp := .inr (.create "bob" (stars "order-1" Rating.five) "review-1" 2)
  let ops : List MarketOp := [create, .inl (.ordersRemove "order-1")]
  have about : ((reviewService.sequential soldMarket create).reviews.find? "review-1").map
      (fun r => r.reviewedId) = some "ann" := by decide +kernel
  have none : Prisma.ratings (run reviewService.sequential soldMarket ops).toTables "ann" = [] := by
    decide +kernel
  have counted : ((run reviewService.sequential soldMarket ops).users.find? "ann").map
      (fun user => user.ratingCount) = some 1 := by decide +kernel
  obtain ⟨review, there, reviewed⟩ := Option.map_eq_some_iff.mp about
  obtain ⟨ann, found, one⟩ := Option.map_eq_some_iff.mp counted
  have scored := always soldMarket ops (by rintro u ⟨id, r, none, _⟩; cases none) (by decide)
    (reviewService.sequential soldMarket create) (List.mem_cons_of_mem _ List.mem_cons_self) "ann"
    ⟨"review-1", review, there, reviewed⟩ ann found
  rw [none] at scored
  have zero : ann.ratingCount = 0 := congrArg TrustInput.ratingCount scored
  omega

end SecondhandApi
