import SecondhandApi.ReviewsService
import SecondhandApi.Calls

/-! The inversion of the calls on reviews, and what each does to the ratings of a user. -/
namespace SecondhandApi
open Keyed Interleaving

theorem execReview_write {c : ReviewCall} {w : Except PrismaError (Tables × c.Result)} (db : Db)
    (hw : db.toTables.execReview c = commit db.toTables w) :
    (∃ e, w = .error e ∧ execReview c db = (db, .error e)) ∨
      (∃ mid a, w = .ok (Db.toTables mid, a) ∧ execReview c db = (mid, .ok a)) :=
  commit_write (congrArg Prod.fst hw) (congrArg Prod.snd hw)

/-- Everything one of the calls can do to the tables, with what it answers. -/
inductive ReviewEffect (db : Db) : (c : ReviewCall) → c.Reply → Tables → Prop where
  | found {id} : ReviewEffect db (.findById id) (.ok (db.reviews.find? id)) db.toTables
  | foundByOrder {order} :
      ReviewEffect db (.findByOrderId order)
        (.ok (db.reviews.findBy (fun r => r.orderId = order))) db.toTables
  | read {user} : ReviewEffect db (.findRatings user) (.ok (Prisma.ratings db.toTables user)) db.toTables
  | refused {c} (e) : ReviewEffect db c (.error e) db.toTables
  | made {id now data} (images) (fresh : db.reviews.find? id = none)
      (first : Prisma.orderReviewed db.toTables data.order = false) :
      ReviewEffect db (.create id now data) (.ok (data.row images now))
        (db.toTables.withReviews (db.reviews.insert id (data.row images now)))
  | set {id data} (old new : Review) (there : db.reviews.find? id = some old)
      (made : data.apply old = some new) :
      ReviewEffect db (.update id data) (.ok new) (db.toTables.withReviews (db.reviews.set id new))
  | erased {id} (row : Review) (there : db.reviews.find? id = some row) :
      ReviewEffect db (.delete id) (.ok row) (db.toTables.withReviews (db.reviews.erase id))
  | scored {id data} (user : User) (there : db.users.find? id = some user) :
      ReviewEffect db (.userUpdateTrust id data) (.ok (data.apply user))
        (db.toTables.withUsers (db.users.set id (data.apply user)))

theorem review_write_effect {db : Db} {c : ReviewCall} {w : Except PrismaError (Tables × c.Result)}
    (hw : db.toTables.execReview c = commit db.toTables w)
    (accepted : ∀ t a, w = .ok (t, a) → ReviewEffect db c (.ok a) t) :
    ReviewEffect db c (execReview c db).2 (execReview c db).1.toTables := by
  rcases execReview_write db hw with ⟨e, _, done⟩ | ⟨mid, a, ok, done⟩
  · rw [done]
    exact .refused e
  · rw [done]
    exact accepted _ a ok

theorem review_effect (c : ReviewCall) (db : Db) :
    ReviewEffect db c (execReview c db).2 (execReview c db).1.toTables := by
  cases c with
  | findById id => exact .found
  | findByOrderId order => exact .foundByOrder
  | findRatings user => exact .read
  | create id now data =>
    refine review_write_effect rfl (fun t row ok => ?_)
    obtain ⟨images, rfl, fresh, first, _, _, _, rfl⟩ := Prisma.reviewCreate_ok ok
    exact .made images fresh first
  | update id data =>
    refine review_write_effect rfl (fun t new ok => ?_)
    obtain ⟨old, there, made, rfl⟩ := Prisma.reviewUpdate_ok ok
    exact .set old new there made
  | delete id =>
    refine review_write_effect rfl (fun t row ok => ?_)
    obtain ⟨there, rfl⟩ := Prisma.reviewDelete_ok ok
    exact .erased row there
  | userUpdateTrust id data =>
    refine review_write_effect rfl (fun t new ok => ?_)
    obtain ⟨user, there, rfl, rfl⟩ := Prisma.userUpdateTrust_ok ok
    exact .scored user there

theorem userUpdateTrust_store (db : Db) (u : Id) (data : TrustInput) :
    (execReview (.userUpdateTrust u data) db).1.toTables =
      match db.users.find? u with
      | none => db.toTables
      | some user => db.toTables.withUsers (db.users.set u (data.apply user)) := by
  simp only [execReview, Tables.execReview, Prisma.userUpdateTrust]
  cases db.users.find? u <;> rfl

/-- What no update of a review changes. -/
structure SameParties (old new : Review) : Prop where
  order : new.orderId = old.orderId
  reviewer : new.reviewerId = old.reviewerId
  reviewed : new.reviewedId = old.reviewedId

theorem SameParties.refl (row : Review) : SameParties row row := ⟨rfl, rfl, rfl⟩

/-- A review that is there after a call was there before, or was made by it. -/
theorem ReviewEffect.review_cases {db : Db} {c : ReviewCall} {reply : c.Reply} {t' : Tables}
    (e : ReviewEffect db c reply t') {r : Id} {new : Review} (there : t'.reviews.find? r = some new) :
    (∃ old, db.reviews.find? r = some old ∧ SameParties old new) ∨
      ∃ now data images, c = .create r now data ∧ new = data.row images now ∧
        Prisma.orderReviewed db.toTables data.order = false := by
  cases e with
  | made images fresh first =>
    rcases Table.find?_insert_cases there with before | ⟨rfl, rfl⟩
    · exact Or.inl ⟨new, before, .refl new⟩
    · exact Or.inr ⟨_, _, images, rfl, rfl, first⟩
  | set old row found made =>
    rcases Table.find?_set_cases there with before | ⟨rfl, rfl⟩
    · exact Or.inl ⟨new, before, .refl new⟩
    · obtain ⟨order, reviewer, reviewed⟩ := UpdateReviewDto.apply_keeps made
      exact Or.inl ⟨old, found, order, reviewer, reviewed⟩
  | erased row found =>
    rw [Tables.reviews_withReviews, Table.find?_erase] at there
    split at there
    · cases there
    · exact Or.inl ⟨new, there, .refl new⟩
  | _ => exact Or.inl ⟨new, there, .refl new⟩

/-- A rating that is stored was stored before, or passed the validators. -/
theorem ReviewEffect.rating_cases {db : Db} {c : ReviewCall} {reply : c.Reply} {t' : Tables}
    (e : ReviewEffect db c reply t') {r : Id} {new : Review} (there : t'.reviews.find? r = some new) :
    (∃ old, db.reviews.find? r = some old ∧ new.rating = old.rating) ∨
      ∃ rating : Rating, new.rating = rating.val := by
  cases e with
  | @made id now data images fresh first =>
    rcases Table.find?_insert_cases there with before | ⟨rfl, rfl⟩
    · exact Or.inl ⟨new, before, rfl⟩
    · exact Or.inr ⟨data.rating, rfl⟩
  | set old row found made =>
    rcases Table.find?_set_cases there with before | ⟨rfl, rfl⟩
    · exact Or.inl ⟨new, before, rfl⟩
    · rcases UpdateReviewDto.apply_rating made with ⟨_, kept⟩ | ⟨rating, _, asked⟩
      · exact Or.inl ⟨old, found, kept⟩
      · exact Or.inr ⟨rating, asked⟩
  | erased row found =>
    rw [Tables.reviews_withReviews, Table.find?_erase] at there
    split at there
    · cases there
    · exact Or.inl ⟨new, there, rfl⟩
  | _ => exact Or.inl ⟨new, there, rfl⟩

theorem not_reviewed {db : Tables} {order : Id} (h : Prisma.orderReviewed db order = false) {r : Id}
    {review : Review} (there : db.reviews.find? r = some review) : review.orderId ≠ order := by
  intro same
  have taken : Prisma.orderReviewed db order = true :=
    Table.any_iff.mpr ⟨r, review, there, decide_eq_true same⟩
  rw [h] at taken
  cases taken

/-! The ratings of one user after a write. -/

section
variable {t : Tables} {id u : Id} {row new : Review}

theorem ratings_insert_other (other : row.reviewedId ≠ u) :
    Prisma.ratings (t.withReviews (t.reviews.insert id row)) u = Prisma.ratings t u := by
  simp only [Prisma.ratings, Tables.reviews_withReviews, Table.insert]
  split
  · simp [other]
  · rfl

theorem ratings_set {old : Review} (there : t.reviews.find? id = some old)
    (who : new.reviewedId = old.reviewedId) (same : old.reviewedId = u → new.rating = old.rating) :
    Prisma.ratings (t.withReviews (t.reviews.set id new)) u = Prisma.ratings t u := by
  refine Table.query_modifyAll (fun k v found => ?_)
  by_cases here : k = id
  · subst here
    cases found.symm.trans there
    simp only [if_true, who, decide_eq_true_eq]
    exact ⟨trivial, same⟩
  · simp only [if_neg here]
    exact ⟨trivial, fun _ => trivial⟩

theorem ratings_erase_other (there : t.reviews.find? id = some row) (other : row.reviewedId ≠ u) :
    Prisma.ratings (t.withReviews (t.reviews.erase id)) u = Prisma.ratings t u := by
  refine congrArg (List.map _) (Table.query_eraseAll (fun k v found about => ?_))
  refine decide_eq_false ?_
  rintro rfl
  cases found.symm.trans there
  exact other (of_decide_eq_true about)

end

end SecondhandApi
