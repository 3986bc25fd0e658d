import SecondhandApi.ReviewCalls
import SecondhandApi.Interleaving.Debts

/-! The trust score that is kept with a user. A request that writes a review reads all
ratings of the reviewed user, computes the score and writes it over the stored one, in
separate calls. This module says when the stored scores are right. -/
namespace SecondhandApi
open Keyed Interleaving

abbrev MarketOp : Type := Op ⊕ ReviewOp

abbrev MarketCall : Type := Call ⊕ ReviewCall

abbrev MarketReply : MarketCall → Type := Sum.elim Call.Reply ReviewCall.Reply

abbrev MarketLog : Type := List (Answer MarketCall MarketReply)

abbrev MarketThread : Type := Thread MarketOp MarketCall MarketReply ApiError ReviewResponse

abbrev MarketPool : Type := Pool Db MarketOp MarketCall MarketReply ApiError ReviewResponse

def User.trust (user : User) : TrustInput := ⟨user.trustScore, user.rating, user.ratingCount⟩

/-- The user's columns are what `calculateTrustScore` returns for the stored reviews. -/
def Scored (t : Tables) (u : Id) : Prop :=
  ∀ user, t.users.find? u = some user →
    user.trust = (TrustScore.of (Prisma.ratings t u)).toInput

def Reviewed (t : Tables) (u : Id) : Prop :=
  ∃ id r, t.reviews.find? id = some r ∧ r.reviewedId = u

theorem Scored.congr {t t' : Tables} {u : Id} (h : Scored t u)
    (users : t'.users.find? u = t.users.find? u)
    (ratings : Prisma.ratings t' u = Prisma.ratings t u) : Scored t' u := by
  intro user found
  rw [ratings]
  exact h user (users.symm.trans found)

/-- Writing the score of the stored ratings makes it right. -/
theorem scored_written {t : Tables} {u : Id} {user : User} (found : t.users.find? u = some user) :
    Scored (t.withUsers (t.users.set u
      ((TrustScore.of (Prisma.ratings t u)).toInput.apply user))) u := by
  intro new there
  rw [Tables.users_withUsers, Table.find?_set_self found] at there
  cases there
  rfl

/-- The calls that may change the ratings of a user, or the score. -/
def Shifts (t : Tables) (u : Id) : ReviewCall → Prop
  | .create _ _ data => data.reviewed = u
  | .update id data => data.rating ≠ .undefined ∧
    ∃ old, t.reviews.find? id = some old ∧ old.reviewedId = u
  | .delete id => ∃ old, t.reviews.find? id = some old ∧ old.reviewedId = u
  | .userUpdateTrust v _ => v = u
  | _ => False

/-- The other calls leave a right score right. -/
theorem ReviewEffect.scored_still {db : Db} {c : ReviewCall} {reply : c.Reply} {t' : Tables}
    (e : ReviewEffect db c reply t') {u : Id} (scored : Scored db.toTables u)
    (still : ¬ Shifts db.toTables u c) : Scored t' u := by
  cases e with
  | made images fresh first => exact scored.congr rfl (ratings_insert_other still)
  | set old new there made =>
    refine scored.congr rfl (ratings_set there (UpdateReviewDto.apply_keeps made).2.2 ?_)
    intro about
    rcases UpdateReviewDto.apply_rating made with ⟨_, kept⟩ | ⟨rating, asked, _⟩
    · exact kept
    · exact absurd ⟨by rw [asked]; exact nofun, old, there, about⟩ still
  | erased row there =>
    exact scored.congr rfl (ratings_erase_other there (fun about => still ⟨row, there, about⟩))
  | scored user there =>
    exact scored.congr ((Table.find?_set there _ u).trans (if_neg (Ne.symm still))) rfl
  | _ => exact scored

/-! What the requests do, call by call. -/

/- The operations that write reviews. -/
def MarketOp.writesReviews : MarketOp → Bool
  | .inr (.create ..) | .inr (.update ..) | .inr (.remove ..) => true
  | _ => false

abbrev readRatings (u : Id) : MarketCall := .inr (.findRatings u)

/-- After a call that changed the ratings of a user, the next one reads them all; after that,
the next one writes the score they give. -/
def refreshes (log : MarketLog) :
    (c : MarketCall) → (MarketReply c → ReviewReq ReviewResponse) → Prop
  | .inl c, _ => c.reads = true
  | .inr (.create _ _ data), next =>
    ∀ row : Review, (next (Except.ok row)).pending = some (readRatings data.reviewed)
  | .inr (.update id data), next => ∃ old : Review, ⟨.inr (.findById id), .ok (some old)⟩ ∈ log ∧
    (data.rating ≠ .undefined →
      ∀ row : Review, (next (Except.ok row)).pending = some (readRatings old.reviewedId))
  | .inr (.delete id), next => ∃ old : Review, ⟨.inr (.findById id), .ok (some old)⟩ ∈ log ∧
    ∀ row : Review, (next (Except.ok row)).pending = some (readRatings old.reviewedId)
  | .inr (.findRatings u), next => ∀ ratings : List Int,
    (next (Except.ok ratings)).pending =
      some (.inr (.userUpdateTrust u (TrustScore.of ratings).toInput))
  | .inr (.userUpdateTrust u score), _ => ∃ (ratings : List Int) (earlier : MarketLog),
    log = ⟨readRatings u, .ok ratings⟩ :: earlier ∧ score = (TrustScore.of ratings).toInput
  | _, _ => True

theorem updateUserTrustScore_refreshes (u : Id) (log : MarketLog) (row : Review) :
    Request.Follows refreshes log
      (.review <$> (do ReviewsRepository.updateUserTrustScore u; return row)) := by
  refine ⟨fun ratings => rfl, fun r => ?_⟩
  cases r with
  | error e => trivial
  | ok ratings =>
    refine ⟨⟨ratings, log, rfl, rfl⟩, fun r => ?_⟩
    cases r <;> trivial

theorem create_refreshes (userId : Id) (dto : CreateReviewDto) (id : Id) (now : Date) :
    Request.Follows refreshes [] (reviewService.program (.inr (.create userId dto id now))) := by
  refine ⟨rfl, fun r => ?_⟩
  cases r with
  | error e => trivial
  | ok found =>
    cases found with
    | none => trivial
    | some order =>
      show Request.Follows refreshes _ (Request.bind (ite _ _ _) _)
      split
      · trivial
      · show Request.Follows refreshes _ (Request.bind (ite _ _ _) _)
        split
        · trivial
        · refine ⟨trivial, fun r => ?_⟩
          cases r with
          | error e => trivial
          | ok existing =>
            show Request.Follows refreshes _ (Request.bind (ite _ _ _) _)
            split
            · trivial
            · refine ⟨fun row => rfl, fun r => ?_⟩
              cases r with
              | error e => trivial
              | ok row => exact updateUserTrustScore_refreshes _ _ row

theorem update_refreshes (id userId : Id) (dto : UpdateReviewDto) :
    Request.Follows refreshes [] (reviewService.program (.inr (.update id userId dto))) := by
  refine ⟨trivial, fun r => ?_⟩
  cases r with
  | error e => trivial
  | ok found =>
    cases found with
    | none => trivial
    | some old =>
      show Request.Follows refreshes _ (Request.bind (ite _ _ _) _)
      split
      · trivial
      · refine ⟨⟨old, List.mem_singleton_self _, fun rated row => ?_⟩, fun r => ?_⟩
        · show Request.pending (Request.bind (ite (dto.rating ≠ .undefined) _ _) _) = _
          rw [if_pos rated]
          rfl
        · cases r with
          | error e => trivial
          | ok row =>
            show Request.Follows refreshes _ (Request.bind (ite _ _ _) _)
            split
            · exact updateUserTrustScore_refreshes _ _ row
            · trivial

theorem remove_refreshes (id userId : Id) :
    Request.Follows refreshes [] (reviewService.program (.inr (.remove id userId))) := by
  refine ⟨trivial, fun r => ?_⟩
  cases r with
  | error e => trivial
  | ok found =>
    cases found with
    | none => trivial
    | some old =>
      show Request.Follows refreshes _ (Request.bind (ite _ _ _) _)
      split
      · trivial
      · refine ⟨⟨old, List.mem_singleton_self _, fun row => rfl⟩, fun r => ?_⟩
        cases r with
        | error e => trivial
        | ok row => exact updateUserTrustScore_refreshes _ _ row

theorem programs_refresh (op : MarketOp) (scope : op.writesReviews = true) :
    Request.Follows refreshes [] (reviewService.program op) := by
  cases op with
  | inl op => cases scope
  | inr op =>
    cases op with
    | create userId dto id now => exact create_refreshes userId dto id now
    | update id userId dto => exact update_refreshes id userId dto
    | remove id userId => exact remove_refreshes id userId
    | _ => cases scope

/-- The request has all ratings of the user still to read, or their score still to write. -/
def StandsToScore (u : Id) (t : MarketThread) : Prop :=
  t.rest.pending = some (readRatings u) ∨
    ∃ score, t.rest.pending = some (.inr (.userUpdateTrust u score))

/-- A score is written while the ratings it was computed from are the stored ones, or while
another request has the user's score still to write. -/
def ScoresUpToDate (p : MarketPool) : Turn MarketOp → Prop
  | .arrive _ => True
  | .call i => ∀ t u score ratings earlier, p.threads[i]? = some t →
    t.rest.pending = some (.inr (.userUpdateTrust u score)) →
    t.log = ⟨readRatings u, .ok ratings⟩ :: earlier →
    Prisma.ratings p.store.toTables u = ratings ∨
      ∃ j other, j ≠ i ∧ p.threads[j]? = some other ∧ StandsToScore u other

/-- The id that a new review gets is not one under which a request has read a review: `uuid()`
never draws an id twice. -/
def NewReviewIds (p : MarketPool) (_ : MarketThread) : MarketCall → Prop
  | .inr (.create id _ _) => ∀ t ∈ p.threads, ∀ old : Review,
    ⟨.inr (.findById id), .ok (some old)⟩ ∉ t.log
  | _ => True

/-- The user that a review is about, as a request has read it and as it is stored. -/
def sawReviewed (a : Answer MarketCall MarketReply) (id u : Id) : Prop :=
  ∃ old : Review, a = ⟨.inr (.findById id), .ok (some old)⟩ ∧ old.reviewedId = u

def isReviewed (db : Db) (id u : Id) : Prop :=
  ∃ r, db.reviews.find? id = some r ∧ r.reviewedId = u

/-- What links the stored reviews to what the requests have read of them. -/
structure Settling (p : MarketPool) : Prop where
  following : Service.Following (fun _ => refreshes) p
  read : Service.Remembers sawReviewed isReviewed p

section
variable {p : MarketPool} {turn : Turn MarketOp}

theorem settling_idle (db : Db) : Settling (Pool.idle db) where
  following _ none := by cases none
  read := Service.remembers_idle db

/-- A review that is there after a turn was there before, about the same user, unless the turn
made it. -/
theorem reviewed_before (c : MarketCall) (reads : ∀ d, c = .inl d → d.reads = true) {db : Db} {id : Id}
    {r : Review} (there : (reviewService.exec c db).1.reviews.find? id = some r) :
    (∃ old, db.reviews.find? id = some old ∧ r.reviewedId = old.reviewedId) ∨
      ∃ now data, c = .inr (.create id now data) ∧ r.reviewedId = data.reviewed := by
  cases c with
  | inl c =>
    have same : (reviewService.exec (.inl c) db).1 = db := exec_reads (reads c rfl) db
    rw [same] at there
    exact Or.inl ⟨r, there, rfl⟩
  | inr c =>
    rcases (review_effect c db).review_cases there with ⟨old, found, same⟩ | ⟨now, data, images, rfl, rfl, _⟩
    · exact Or.inl ⟨old, found, same.reviewed⟩
    · exact Or.inr ⟨now, data, rfl, rfl⟩

theorem Settling.reads_only (h : Settling p) {i : Nat} {t : MarketThread} {c : Call}
    {next : MarketReply (.inl c) → ReviewReq ReviewResponse} (ht : p.threads[i]? = some t)
    (hr : t.rest = .call (.inl c) next) : c.reads = true :=
  Service.following_pending h.following ht hr

/-- A review that a request has read is about the user that the stored one is about. -/
theorem Settling.about (h : Settling p) {t : MarketThread} (inside : t ∈ p.threads) {id : Id}
    {old r : Review} (seen : ⟨.inr (.findById id), .ok (some old)⟩ ∈ t.log)
    (there : p.store.reviews.find? id = some r) : r.reviewedId = old.reviewedId :=
  h.read t inside _ seen id _ _ ⟨old, rfl, rfl⟩ ⟨r, there, rfl⟩

theorem Settling.after_turn (h : Settling p)
    (arrives : ∀ op, turn = .arrive op → MarketOp.writesReviews op = true)
    (new : Service.OnCalls NewReviewIds p turn) : Settling (reviewService.step p turn) where
  following := Service.following_step programs_refresh h.following arrives
  read := by
    refine reviewService.remembers_step h.read turn (fun i t c next called ht hr => ⟨?_, ?_⟩)
    · rintro id _ _ ⟨old, answer, rfl⟩ ⟨r, there, rfl⟩
      obtain ⟨rfl, reply⟩ := Answer.mk.inj answer
      have stored : p.store.reviews.find? id = some old := Except.ok.inj (eq_of_heq reply)
      cases stored.symm.trans there
      rfl
    · rintro id _ ⟨r, there, rfl⟩
      rcases reviewed_before c (fun d same => by subst same; exact h.reads_only ht hr) there with
        ⟨old, found, same⟩ | ⟨now, data, rfl, _⟩
      · exact Or.inl ⟨old, found, same.symm⟩
      · refine Or.inr ?_
        rintro u inside a seen _ ⟨old, rfl, rfl⟩
        subst called
        have drawn : NewReviewIds p t (.inr (.create id now data)) := Service.onCalls_at new ht hr
        exact drawn u inside old seen

/-- A call on reviews leaves a right score right, or its request goes on to read the ratings. -/
theorem Settling.scored_call (h : Settling p) {i : Nat} {t : MarketThread} {c : ReviewCall}
    {next : MarketReply (.inr c) → ReviewReq ReviewResponse} (ht : p.threads[i]? = some t)
    (hr : t.rest = .call (.inr c) next) {reply : c.Reply} {t' : Tables}
    (e : ReviewEffect p.store c reply t') {u : Id} (scored : Scored p.store.toTables u)
    (other : ∀ score, c ≠ .userUpdateTrust u score) :
    Scored t' u ∨ (next reply).pending = some (readRatings u) := by
  have follows := Service.following_pending h.following ht hr
  have inside : t ∈ p.threads := List.mem_of_getElem? ht
  by_cases shifts : Shifts p.store.toTables u c
  · cases e with
    | made images fresh first => exact Or.inr (shifts ▸ follows _)
    | set old new there made =>
      obtain ⟨rated, row, found, about⟩ := shifts
      obtain ⟨read, seen, goes⟩ := follows
      refine Or.inr ?_
      rw [← about, h.about inside seen found]
      exact goes rated new
    | erased row there =>
      obtain ⟨row, found, about⟩ := shifts
      obtain ⟨read, seen, goes⟩ := follows
      refine Or.inr ?_
      rw [← about, h.about inside seen found]
      exact goes _
    | @scored id data user there =>
      have mine : id = u := shifts
      exact absurd (mine ▸ rfl) (other data)
    | refused e => exact Or.inl scored
    | _ => exact shifts.elim
  · exact Or.inl (e.scored_still scored shifts)

/-- A request that stands before the two last calls makes them. -/
theorem Settling.write_call (h : Settling p) (ok : ScoresUpToDate p turn) {i : Nat}
    {t : MarketThread} {u : Id} {score : TrustInput}
    {next : MarketReply (.inr (.userUpdateTrust u score)) → ReviewReq ReviewResponse}
    (called : turn = .call i) (ht : p.threads[i]? = some t)
    (hr : t.rest = .call (.inr (.userUpdateTrust u score)) next) :
    Scored (execReview (.userUpdateTrust u score) p.store).1.toTables u ∨
      ∃ j other, j ≠ i ∧ p.threads[j]? = some other ∧ StandsToScore u other := by
  subst called
  obtain ⟨ratings, earlier, log, rfl⟩ := Service.following_pending h.following ht hr
  rcases ok t u _ ratings earlier ht (by rw [hr, Request.pending_call]) log with same | another
  · refine Or.inl ?_
    rw [userUpdateTrust_store, ← same]
    cases found : p.store.users.find? u with
    | none =>
      intro user there
      cases found.symm.trans there
    | some user => exact scored_written found
  · exact Or.inr another

/-- The user's score is right, or some request has it still to write. -/
def ScoreCovered (u : Id) : MarketPool → Prop :=
  Service.Covered (fun db => Scored db.toTables u) (StandsToScore u)

theorem Settling.covered_turn (h : Settling p) (ok : ScoresUpToDate p turn) {u : Id}
    (covered : ScoreCovered u p) : ScoreCovered u (reviewService.step p turn) := by
  refine Service.covered_step covered turn (fun i t c next called ht hr either => ?_)
  cases c with
  | inl c =>
    refine Or.inl ?_
    have same : (reviewService.exec (.inl c) p.store).1 = p.store :=
      exec_reads (h.reads_only ht hr) p.store
    rw [same]
    refine either.resolve_right ?_
    rintro (reads | ⟨score, writes⟩) <;> rw [hr] at *
    · cases reads
    · cases writes
  | inr c =>
    by_cases writes : ∃ score, c = .userUpdateTrust u score
    · obtain ⟨score, rfl⟩ := writes
      rcases h.write_call ok called ht hr with fine | ⟨j, other, apart, there, stands⟩
      · exact Or.inl fine
      · exact Or.inr ⟨other, Service.mem_set_of_index apart there, stands⟩
    · by_cases reads : c = .findRatings u
      · subst reads
        have goes := Service.following_pending h.following ht hr
        exact Or.inr ⟨_, Service.answered_mem ht, Or.inr ⟨_, goes _⟩⟩
      · have scored : Scored p.store.toTables u := by
          refine either.resolve_right ?_
          rintro (stands | ⟨score, stands⟩) <;> rw [hr] at stands <;> cases stands
          · exact reads rfl
          · exact writes ⟨score, rfl⟩
        rcases h.scored_call ht hr (review_effect c p.store) scored
          (fun score same => writes ⟨score, same⟩) with fine | stands
        · exact Or.inl fine
        · exact Or.inr ⟨_, Service.answered_mem ht, Or.inl stands⟩

/-- A user who is reviewed after a turn was reviewed before it, or the turn made the review and
its request goes on to the score. -/
theorem Settling.reviewed_turn (h : Settling p) {u : Id}
    (reviewed : Reviewed (reviewService.step p turn).store.toTables u) :
    Reviewed p.store.toTables u ∨ ScoreCovered u (reviewService.step p turn) := by
  obtain ⟨id, r, there, about⟩ := reviewed
  rcases reviewService.step_cases p turn with hs | ⟨op, _, hs⟩ | ⟨i, t, c, next, called, ht, hr, hs⟩
  · rw [hs] at there
    exact Or.inl ⟨id, r, there, about⟩
  · rw [hs] at there
    exact Or.inl ⟨id, r, there, about⟩
  · rw [hs] at there ⊢
    rcases reviewed_before c (fun d same => by subst same; exact h.reads_only ht hr) there with
      ⟨row, found, same⟩ | ⟨now, data, rfl, same⟩
    · exact Or.inl ⟨id, row, found, same.symm.trans about⟩
    · rcases execReview_write (c := .create id now data) p.store rfl with
        ⟨e, _, refused⟩ | ⟨mid, row, _, accepted⟩
      · have store : (reviewService.exec (.inr (.create id now data)) p.store).1 = p.store :=
          congrArg Prod.fst refused
        rw [store] at there
        exact Or.inl ⟨id, r, there, about⟩
      · have goes := Service.following_pending h.following ht hr
        have reply : (reviewService.exec (.inr (.create id now data)) p.store).2 = .ok row :=
          congrArg Prod.snd accepted
        refine Or.inr (Or.inr ⟨_, Service.answered_mem ht, Or.inl ?_⟩)
        rw [Service.answered, reply, ← about, same]
        exact goes row

end

/-- The states visited so far: every user reviewed in one of them is covered. -/
structure ScoresCovered (past : List MarketPool) (p : MarketPool) : Prop where
  settling : Settling p
  visited : p ∈ past
  covered : ∀ q ∈ past, ∀ u, Reviewed q.store.toTables u → ScoreCovered u p

theorem ScoresCovered.after_turn {past : List MarketPool} {p : MarketPool} {turn : Turn MarketOp}
    (h : ScoresCovered past p)
    (arrives : ∀ op, turn = .arrive op → MarketOp.writesReviews op = true)
    (new : Service.OnCalls NewReviewIds p turn) (ok : ScoresUpToDate p turn) :
    ScoresCovered (past ++ [reviewService.step p turn]) (reviewService.step p turn) where
  settling := h.settling.after_turn arrives new
  visited := List.mem_append_right _ (List.mem_singleton_self _)
  covered q member u reviewed := by
    rcases List.mem_append.mp member with before | last
    · exact h.settling.covered_turn ok (h.covered q before u reviewed)
    · rw [List.mem_singleton.mp last] at reviewed
      rcases h.settling.reviewed_turn reviewed with before | fine
      · exact h.settling.covered_turn ok (h.covered p h.visited u before)
      · exact fine

/-- As long as no score is written over changed ratings unless another one follows, every
user who has been reviewed has the right score whenever all requests have ended. -/
theorem scores_settle (db : Db) (start : ∀ u, Reviewed db.toTables u → Scored db.toTables u)
    (turns : List (Turn MarketOp))
    (scope : ∀ turn ∈ turns, ∀ op, turn = .arrive op → MarketOp.writesReviews op = true)
    (new : Along reviewService.step (Service.OnCalls NewReviewIds) (Pool.idle db) turns)
    (ok : Along reviewService.step ScoresUpToDate (Pool.idle db) turns) :
    ∀ before after, turns = before ++ after →
      Service.Quiet (run reviewService.step (Pool.idle db) before) →
      ∀ q ∈ visited reviewService.step (Pool.idle db) before, ∀ u, Reviewed q.store.toTables u →
        Scored (run reviewService.step (Pool.idle db) before).store.toTables u := by
  rintro before after rfl quiet q member u reviewed
  have arrivals : Along reviewService.step
      (fun _ turn => ∀ op, turn = .arrive op → MarketOp.writesReviews op = true)
      (Pool.idle db) before :=
    along_of_forall (fun turn here => scope turn (List.mem_append_left _ here))
  have steps := (arrivals.and (along_append.mp new).1).and (along_append.mp ok).1
  have kept := history_invariant (I := ScoresCovered)
    (fun past p turn h both => h.after_turn both.1.1 both.1.2 both.2)
    ⟨settling_idle db, List.mem_singleton_self _, fun q last u reviewed => by
      rw [List.mem_singleton.mp last] at reviewed
      exact Or.inl (start u reviewed)⟩ steps
  refine (kept.covered q member u reviewed).quiet quiet (fun t stands => ?_)
  rcases stands with reads | ⟨score, writes⟩
  · rw [reads]
    exact Option.some_ne_none _
  · rw [writes]
    exact Option.some_ne_none _

/- The market after bob has bought two lamps from ann. -/
def bought (number : String) : Order :=
  { buyerId := "bob", sellerId := "ann", productId := "lamp", orderNumber := number
    totalAmount := 10, status := .confirmed, createdAt := 1 }

def soldMarket : Db where
  users := market.users
  categories := market.categories
  products := market.products
  orders := ⟨[("order-1", bought "ORD-1"), ("order-2", bought "ORD-2")], by decide⟩
  reviews := Table.empty
  linked := by decide

def Rating.one : Rating := ⟨1, by decide⟩
def Rating.three : Rating := ⟨3, by decide⟩
def Rating.five : Rating := ⟨5, by decide⟩

def stars (order : Id) (rating : Rating) : CreateReviewDto := { orderId := order, rating := rating }

/-- Bob reviews ann for both orders: the score for the first review is written when the second is
stored, and the request that stored it has still to read the ratings. -/
def bobReviews : List (Turn MarketOp) :=
  [.arrive (.inr (.create "bob" (stars "order-1" Rating.five) "review-1" 2)),
    .call 0, .call 0, .call 0, .call 0,
    .arrive (.inr (.create "bob" (stars "order-2" Rating.one) "review-2" 3)),
    .call 1, .call 1, .call 1, .call 0, .call 1, .call 1]

/- A check of the hypothesis on new ids, for runs that are written out. -/
def MarketPool.unread (p : MarketPool) : Bool :=
  p.threads.all (fun t => t.log.all (fun a => match a.call with
    | .inr (.findById _) => false
    | _ => true))

theorem new_ids_of_unread {p : MarketPool} (h : p.unread = true) (t : MarketThread) (c : MarketCall) :
    NewReviewIds p t c := by
  cases c with
  | inl c => trivial
  | inr c =>
    cases c with
    | create id now data =>
      intro u member old seen
      exact Bool.false_ne_true (List.all_eq_true.mp (List.all_eq_true.mp h u member) _ seen)
    | _ => trivial

theorem scores_settle_review :
    Along reviewService.step (Service.OnCalls NewReviewIds) (Pool.idle soldMarket) bobReviews ∧
      Along reviewService.step ScoresUpToDate (Pool.idle soldMarket) bobReviews ∧
      ∀ before after, bobReviews = before ++ after →
        Service.Quiet (run reviewService.step (Pool.idle soldMarket) before) →
        ∀ q ∈ visited reviewService.step (Pool.idle soldMarket) before, ∀ u,
          Reviewed q.store.toTables u →
          Scored (run reviewService.step (Pool.idle soldMarket) before).store.toTables u := by
  have new : Along reviewService.step (Service.OnCalls NewReviewIds) (Pool.idle soldMarket)
      bobReviews := by
    refine ⟨trivial, ?_, ?_, ?_, ?_, trivial, ?_, ?_, ?_, ?_, ?_, ?_, trivial⟩ <;>
      exact fun t c _ _ => new_ids_of_unread (by decide +kernel) t c
  have ok : Along reviewService.step ScoresUpToDate (Pool.idle soldMarket) bobReviews := by
    refine ⟨trivial, ?_, ?_, ?_, ?_, trivial, ?_, ?_, ?_, ?_, ?_, ?_, trivial⟩ <;>
      intro t u score ratings earlier ht pending log <;> cases ht <;> cases pending
    · exact Or.inr ⟨1, _, by decide, rfl, Or.inl rfl⟩
    · cases log
      exact Or.inl (by decide +kernel)
  refine ⟨new, ok, scores_settle soldMarket ?_ bobReviews (by simp [bobReviews, MarketOp.writesReviews])
    new ok⟩
  rintro u ⟨id, r, found, _⟩
  cases found

/-- Bob reviews ann for both orders at once: the request that read one review writes last. -/
theorem score_overwritten :
    ¬ ∀ (db : Db) (turns : List (Turn MarketOp)),
      (∀ u, Reviewed db.toTables u → Scored db.toTables u) →
      (∀ turn ∈ turns, ∀ op, turn = .arrive op → MarketOp.writesReviews op = true) →
      Along reviewService.step (Service.OnCalls NewReviewIds) (Pool.idle db) turns →
      Service.Quiet (run reviewService.step (Pool.idle db) turns) →
      ∀ q ∈ visited reviewService.step (Pool.idle db) turns, ∀ u, Reviewed q.store.toTables u →
        Scored (run reviewService.step (Pool.idle db) turns).store.toTables u := by
  intro always
  let turns : List (Turn MarketOp) := bobReviews.take 5 ++
    [.arrive (.inr (.create "bob" (stars "order-2" Rating.one) "review-2" 3)),
      .call 1, .call 1, .call 1, .call 1, .call 1, .call 0]
  have reviews : Prisma.ratings (run reviewService.step (Pool.idle soldMarket) turns).store.toTables
      "ann" = [5, 1] := by decide +kernel
  have counted : ((run reviewService.step (Pool.idle soldMarket) turns).store.users.find? "ann").map
      (fun user => user.ratingCount) = some 1 := by decide +kernel
  have new : Along reviewService.step (Service.OnCalls NewReviewIds) (Pool.idle soldMarket)
      turns := by
    refine ⟨trivial, ?_, ?_, ?_, ?_, trivial, ?_, ?_, ?_, ?_, ?_, ?_, trivial⟩ <;>
      exact fun t c _ _ => new_ids_of_unread (by decide +kernel) t c
  have quiet : Service.Quiet (run reviewService.step (Pool.idle soldMarket) turns) := by
    decide +kernel
  have reviewed : Reviewed (run reviewService.step (Pool.idle soldMarket) turns).store.toTables
      "ann" := by
    obtain ⟨r, found, about⟩ := Option.map_eq_some_iff.mp
      (show ((run reviewService.step (Pool.idle soldMarket) turns).store.reviews.find? "review-1").map
        (fun r => r.reviewedId) = some "ann" by decide +kernel)
    exact ⟨"review-1", r, found, about⟩
  obtain ⟨ann, found, one⟩ := Option.map_eq_some_iff.mp counted
  have scored := always soldMarket turns (by rintro u ⟨id, r, none, _⟩; cases none)
    (by simp [turns, bobReviews, MarketOp.writesReviews]) new quiet _ (run_mem_visited _ _ _) "ann"
    reviewed ann found
  rw [reviews] at scored
  have two : ann.ratingCount = 2 := congrArg TrustInput.ratingCount scored
  omega

end SecondhandApi