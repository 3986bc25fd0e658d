import SecondhandApi.FavoriteCalls
import SecondhandApi.Interleaving.Debts
import SecondhandApi.Interleaving.Tallies

/-! Favorites among the operations of the market, in any order: which of them there are, whom the
sellers hear of, and how often a product was viewed. -/
namespace SecondhandApi
open Keyed Interleaving

/-! What a call does to a product and to a user. -/

theorem ProductUpdateInput.apply_views {data : ProductUpdateInput} {row new : Product}
    (h : data.apply row = some new) : new.viewCount = row.viewCount := by
  simp only [ProductUpdateInput.apply, Option.bind_eq_bind, Option.bind_eq_some_iff] at h
  obtain ⟨_, _, _, _, _, _, _, _, _, _, _, _, _, _, made⟩ := h
  cases made
  rfl

/-- No call loses a product, gives it to another seller or counts a view but the one that counts
views. -/
theorem product_after (c : Call) (db : Db) {k : Id} {row : Product}
    (found : db.products.find? k = some row) :
    ∃ row', (exec c db).1.products.find? k = some row' ∧ row'.sellerId = row.sellerId ∧
      row'.viewCount = row.viewCount + if raised k ⟨.inl c, (exec c db).2⟩ then 1 else 0 := by
  have effect := call_effect c db
  generalize (exec c db).2 = reply at effect
  generalize (exec c db).1.toTables = after at effect
  cases effect with
  | read _ reads =>
    have quiet : raised k ⟨.inl c, reply⟩ = false := by
      cases c <;> first
        | rfl
        | cases reads
    exact ⟨row, found, rfl, by rw [quiet]; rfl⟩
  | refused e =>
    have quiet : raised k ⟨.inl c, .error e⟩ = false := by cases c <;> rfl
    exact ⟨row, found, rfl, by rw [quiet]; rfl⟩
  | userMade row' fresh => exact ⟨row, found, rfl, rfl⟩
  | userSet old new foundUser made => exact ⟨row, found, rfl, rfl⟩
  | @userWithdrawn id user foundUser =>
    refine ⟨Prisma.deleteListed id row, ?_, (Prisma.deleteListed_keeps id row).1, ?_⟩
    · rw [Prisma.products_withdrawn, found]
      rfl
    · unfold Prisma.deleteListed
      split <;> rfl
  | @productMade id now data new fresh =>
    refine ⟨row, ?_, rfl, rfl⟩
    change (db.products.insert id new).find? k = some row
    rw [Table.find?_insert fresh, if_neg (fun same => by simp [same, fresh] at found)]
    exact found
  | @productSet id data old new there made =>
    change ∃ row', (db.products.set id new).find? k = some row' ∧ _
    rw [Table.find?_set there]
    by_cases same : k = id
    · subst same
      cases there.symm.trans found
      exact ⟨new, if_pos rfl, (ProductUpdateInput.apply_cases made).1,
        ProductUpdateInput.apply_views made⟩
    · exact ⟨row, by rw [if_neg same]; exact found, rfl, rfl⟩
  | @productViewed id old there =>
    change ∃ row', (db.products.set id _).find? k = some row' ∧ _
    rw [Table.find?_set there]
    by_cases same : k = id
    · subst same
      cases there.symm.trans found
      exact ⟨_, if_pos rfl, rfl, by simp [raised]⟩
    · exact ⟨row, by rw [if_neg same]; exact found, rfl, by simp [raised, Ne.symm same]⟩
  | orderMade fee fresh => exact ⟨row, found, rfl, rfl⟩
  | orderSet old new there made => exact ⟨row, found, rfl, rfl⟩
  | orderErased order there => exact ⟨row, found, rfl, rfl⟩

theorem user_after (c : Call) (db : Db) {u : Id} (has : db.users.has u = true) :
    (exec c db).1.users.has u = true := by
  have effect := call_effect c db
  generalize (exec c db).2 = reply at effect
  generalize (exec c db).1.toTables = after at effect
  cases effect with
  | userMade row fresh => exact Table.has_insert has _ _
  | userSet old new found made => simpa [Tables.withUsers] using has
  | userWithdrawn user found => simpa using has
  | _ => exact has

/-! The favorites of one user and one product. -/

def Likes.favored (s : Likes) (u p : Id) : Nat :=
  s.favorites.rows.countP fun row => row.2.of u p

def ProductLiked.of (e : ProductLiked) (u p : Id) : Bool := e.userId = u && e.productId = p

/-- Each favorite is of a user and of a product of somebody else's, and no two are alike. -/
structure FavoritesSound (s : Likes) : Prop where
  once : ∀ u p, s.favored u p ≤ 1
  users : ∀ i f, s.favorites.find? i = some f → s.db.users.has f.userId = true
  others : ∀ i f, s.favorites.find? i = some f →
    ∃ row, s.db.products.find? f.productId = some row ∧ row.sellerId ≠ f.userId

theorem favored_insert {s : Likes} {i : Id} (fresh : s.favorites.find? i = none) (f : Favorite)
    (u p : Id) : { s with favorites := s.favorites.insert i f }.favored u p =
      s.favored u p + if f.of u p then 1 else 0 := by
  simp [Likes.favored, Table.rows_insert fresh, List.countP_append, List.countP_singleton]

theorem favored_eraseAll (s : Likes) (u p u' p' : Id) :
    { s with favorites := s.favorites.eraseAll fun _ f => f.of u p }.favored u' p' =
      if u = u' ∧ p = p' then 0 else s.favored u' p' := by
  unfold Likes.favored Table.eraseAll
  simp only [List.countP_filter]
  by_cases same : u = u' ∧ p = p'
  · rw [if_pos same, List.countP_eq_zero]
    intro row _
    simp [same.1, same.2]
  · rw [if_neg same]
    refine List.countP_congr fun row _ => ?_
    simp only [Favorite.of, Bool.and_eq_true, decide_eq_true_eq, Bool.not_eq_true',
      Bool.and_eq_false_iff, decide_eq_false_iff_not]
    grind

/-! What one call does. -/

theorem execFavorite_db (c : FavoriteCall) (s : Likes) : (Likes.execFavorite c s).1.db = s.db := by
  cases c with
  | create id now u p =>
    simp only [Likes.execFavorite]
    split
    · rfl
    · split <;> rfl
  | _ => rfl

/-- Products under a call of either kind. -/
theorem likes_product_after (c : LikesCall) (s : Likes) {k : Id} {row : Product}
    (found : s.db.products.find? k = some row) :
    ∃ row', (Likes.exec c s).1.db.products.find? k = some row' ∧ row'.sellerId = row.sellerId ∧
      row'.viewCount = row.viewCount + if raised k ⟨c, (Likes.exec c s).2⟩ then 1 else 0 := by
  cases c with
  | inl c => exact product_after c s.db found
  | inr c =>
    change ∃ row', (Likes.execFavorite c s).1.db.products.find? k = some row' ∧ _
    rw [execFavorite_db]
    exact ⟨row, found, rfl, rfl⟩

theorem likes_user_after (c : LikesCall) (s : Likes) {u : Id} (has : s.db.users.has u = true) :
    (Likes.exec c s).1.db.users.has u = true := by
  cases c with
  | inl c => exact user_after c s.db has
  | inr c =>
    change (Likes.execFavorite c s).1.db.users.has u = true
    rw [execFavorite_db]
    exact has

/-- What is read of a product is what is stored. -/
theorem read_stored {c : LikesCall} {s : Likes} {k : Id} {product : Product}
    (h : read ⟨c, (Likes.exec c s).2⟩ = some (k, product)) :
    s.db.products.find? k = some product := by
  rcases c with (c | c)
  · cases c with
    | productFindById id =>
      change read ⟨.inl (.productFindById id), .ok (s.db.products.find? id)⟩ = _ at h
      cases found : s.db.products.find? id with
      | none => rw [found] at h; cases h
      | some row =>
        rw [found] at h
        cases h
        exact found
    | _ => cases h
  · cases h

/-- A product that is there is found and its views are counted. -/
theorem not_missed {c : LikesCall} {s : Likes} {k : Id} (has : s.db.products.has k = true) :
    missed k ⟨c, (Likes.exec c s).2⟩ = false := by
  obtain ⟨row, found⟩ := Table.has_iff.mp has
  rcases c with (c | c)
  · cases c with
    | productFindById id =>
      change missed k ⟨.inl (.productFindById id), .ok (s.db.products.find? id)⟩ = false
      cases here : s.db.products.find? id with
      | none =>
        have other : id ≠ k := fun same => by rw [same, found] at here; cases here
        simp [missed, other]
      | some product => rfl
    | productIncrementViewCount id =>
      change missed k ⟨.inl (.productIncrementViewCount id), (exec _ s.db).2⟩ = false
      rcases exec_write s.db (c := .productIncrementViewCount id) rfl with
        ⟨e, refused, done⟩ | ⟨mid, a, _, done⟩
      · have other : id ≠ k := by
          rintro rfl
          rw [Prisma.productIncrementViewCount, found] at refused
          cases refused
        rw [done]
        simp [missed, other]
      · rw [done]
        rfl
    | _ => rfl
  · rfl

/-! What every run keeps. -/

/-- The database as the answers remember it. -/
def Remembered (s : Likes) (s₀ : Likes) (a : LikesAnswer) : Prop :=
  (∀ k product, read a = some (k, product) →
    ∃ row, s.db.products.find? k = some row ∧ row.sellerId = product.sellerId) ∧
  ∀ k, s₀.db.products.has k = true → missed k a = false

structure LikesRight (s₀ : Likes) (p : Pool Likes LikesOp LikesCall LikesCall.Reply ApiError
    LikesResponse) : Prop where
  obedient : Service.Obedient likesMay likesEnds p
  logged : Service.Logged (fun s a => Remembered s s₀ a) p
  sound : FavoritesSound p.store
  tallied : (∀ u v, s₀.favored u v + tally (created u v) p =
      p.store.favored u v + tally (deleted u v) p) ∧
    (∀ u v, p.store.liked.countP (·.of u v) = s₀.liked.countP (·.of u v) + tally (told u v) p) ∧
    ∀ k row₀, s₀.db.products.find? k = some row₀ → ∃ row, p.store.db.products.find? k = some row ∧
      row.viewCount = row₀.viewCount + tally (raised k) p
  sellers : ∀ e ∈ p.store.liked, e ∈ s₀.liked ∨
    ∃ row, p.store.db.products.find? e.productId = some row ∧ row.sellerId = e.sellerId

section
variable {s₀ : Likes} {p : Pool Likes LikesOp LikesCall LikesCall.Reply ApiError LikesResponse}

theorem Remembered.after {s : Likes} {a : LikesAnswer} (h : Remembered s s₀ a) (c : LikesCall) :
    Remembered (Likes.exec c s).1 s₀ a := by
  refine ⟨fun k product isRead => ?_, h.2⟩
  obtain ⟨row, found, seller⟩ := h.1 k product isRead
  obtain ⟨row', still, same, _⟩ := likes_product_after c s found
  exact ⟨row', still, same.trans seller⟩

/-- A call that writes no favorite. -/
theorem FavoritesSound.after {s : Likes} (h : FavoritesSound s) (c : LikesCall)
    (same : (Likes.exec c s).1.favorites = s.favorites) : FavoritesSound (Likes.exec c s).1 := by
  constructor
  · unfold Likes.favored
    rw [same]
    exact h.once
  · intro i f found
    rw [same] at found
    exact likes_user_after c s (h.users i f found)
  · intro i f found
    rw [same] at found
    obtain ⟨row, there, other⟩ := h.others i f found
    obtain ⟨row', still, seller, _⟩ := likes_product_after c s there
    exact ⟨row', still, seller ▸ other⟩

/-- A favorite that is accepted is the first of its user and product. -/
theorem create_answers (id : Id) (now : Date) (u v : Id) (s : Likes) :
    (∃ e, Likes.execFavorite (.create id now u v) s = (s, .error e)) ∨
    (s.db.users.has u = true ∧ s.favorites.find? id = none ∧ s.favored u v = 0 ∧
      Likes.execFavorite (.create id now u v) s =
        ({ s with favorites := s.favorites.insert id ⟨u, v, now⟩ }, .ok ⟨u, v, now⟩)) := by
  simp only [Likes.execFavorite]
  split
  · exact Or.inl ⟨_, rfl⟩
  rename_i refs
  split
  · exact Or.inl ⟨_, rfl⟩
  rename_i free
  simp only [Bool.or_eq_true, Bool.not_eq_true', not_or, Bool.not_eq_false] at refs free
  refine Or.inr ⟨refs.1, Table.not_has_iff.mp free.1, ?_, rfl⟩
  unfold Likes.favored
  rw [List.countP_eq_zero]
  intro row member taken
  exact free.2 (Table.any_iff.mpr ⟨row.1, row.2, (s.favorites.mem_rows).mp member, taken⟩)

/-- A favorite more: the product was read before, and its seller is somebody else still. -/
theorem FavoritesSound.create {s : Likes} (h : FavoritesSound s) {id u v : Id} {now : Date}
    (user : s.db.users.has u = true) (fresh : s.favorites.find? id = none)
    (first : s.favored u v = 0) (other : ∃ row, s.db.products.find? v = some row ∧ row.sellerId ≠ u) :
    FavoritesSound { s with favorites := s.favorites.insert id ⟨u, v, now⟩ } := by
  constructor
  · intro u' v'
    rw [favored_insert fresh]
    have before := h.once u' v'
    by_cases same : u = u' ∧ v = v'
    · obtain ⟨rfl, rfl⟩ := same
      simp [first, Favorite.of]
    · have apart : (⟨u, v, now⟩ : Favorite).of u' v' = false := by
        simpa [Favorite.of] using same
      simpa [apart] using before
  · intro i f found
    rcases Table.find?_insert_cases found with old | ⟨-, rfl⟩
    · exact h.users i f old
    · exact user
  · intro i f found
    rcases Table.find?_insert_cases found with old | ⟨-, rfl⟩
    · exact h.others i f old
    · exact other

theorem FavoritesSound.delete {s : Likes} (h : FavoritesSound s) (u v : Id) :
    FavoritesSound { s with favorites := s.favorites.eraseAll fun _ f => f.of u v } := by
  constructor
  · intro u' v'
    rw [favored_eraseAll]
    split
    · exact Nat.zero_le _
    · exact h.once u' v'
  · intro i f found
    exact h.users i f (Table.find?_eraseAll_cases found).1
  · intro i f found
    exact h.others i f (Table.find?_eraseAll_cases found).1

/-- What one call does to the favorites and to the events. -/
structure LikesCallRight (s : Likes) (c : LikesCall) : Prop where
  sound : FavoritesSound (Likes.exec c s).1
  favored : ∀ u v, (Likes.exec c s).1.favored u v +
      (if deleted u v ⟨c, (Likes.exec c s).2⟩ then 1 else 0) =
    s.favored u v + if created u v ⟨c, (Likes.exec c s).2⟩ then 1 else 0
  liked : ∀ u v, (Likes.exec c s).1.liked.countP (·.of u v) =
    s.liked.countP (·.of u v) + if told u v ⟨c, (Likes.exec c s).2⟩ then 1 else 0
  sellers : ∀ e ∈ (Likes.exec c s).1.liked, e ∈ s.liked ∨
    ∃ row, (Likes.exec c s).1.db.products.find? e.productId = some row ∧ row.sellerId = e.sellerId

theorem likes_call {s : Likes} (h : FavoritesSound s) {op : LikesOp} {log : List LikesAnswer}
    (logged : ∀ a ∈ log, Remembered s s₀ a) {c : LikesCall} (may : likesMay op log c) :
    LikesCallRight s c := by
  have seller {k : Id} {a : LikesAnswer} {product : Product} (member : a ∈ log)
      (isRead : read a = some (k, product)) :
      ∃ row, s.db.products.find? k = some row ∧ row.sellerId = product.sellerId :=
    (logged a member).1 k product isRead
  rcases c with (c | c)
  · exact ⟨h.after (.inl c) rfl, fun _ _ => rfl, fun _ _ => rfl, fun _ old => Or.inl old⟩
  cases c with
  | create id now u v =>
    obtain ⟨rfl, a, member, product, isRead, other⟩ := may
    obtain ⟨row, found, same⟩ := seller member isRead
    rcases create_answers id now u v s with ⟨e, refused⟩ | ⟨user, fresh, first, done⟩
    · have refused' : Likes.exec (.inr (.create id now u v)) s = (s, .error e) := refused
      constructor
      · rw [refused']
        exact h
      · rw [refused']
        exact fun _ _ => rfl
      · rw [refused']
        exact fun _ _ => rfl
      · rw [refused']
        exact fun _ old => Or.inl old
    · have done' : Likes.exec (.inr (.create id now u v)) s =
          ({ s with favorites := s.favorites.insert id ⟨u, v, now⟩ }, .ok ⟨u, v, now⟩) := done
      constructor
      · rw [done']
        exact h.create user fresh first ⟨row, found, same ▸ other⟩
      · rw [done']
        intro u' v'
        rw [favored_insert fresh]
        rfl
      · rw [done']
        exact fun _ _ => rfl
      · rw [done']
        exact fun _ old => Or.inl old
  | count u v =>
    exact ⟨h.after (.inr (.count u v)) rfl, fun _ _ => rfl, fun _ _ => rfl, fun _ old => Or.inl old⟩
  | deleteMany u v =>
    refine ⟨h.delete u v, fun u' v' => ?_, fun _ _ => rfl, fun _ old => Or.inl old⟩
    change { s with favorites := s.favorites.eraseAll fun _ f => f.of u v }.favored u' v' +
      (if (decide (u = u') && decide (v = v') && decide (s.favored u v ≠ 0)) = true then 1 else 0) =
        s.favored u' v' + 0
    have few := h.once u v
    rw [favored_eraseAll]
    by_cases same : u = u' ∧ v = v'
    · obtain ⟨rfl, rfl⟩ := same
      by_cases none : s.favored u v = 0
      · simp [none]
      · simp [none]
        omega
    · rw [if_neg same, if_neg]
      intro all
      simp only [Bool.and_eq_true, decide_eq_true_eq] at all
      exact same all.1
  | emit event =>
    obtain ⟨a, member, product, isRead, same⟩ := may
    obtain ⟨row, found, stored⟩ := seller member isRead
    refine ⟨h.after (.inr (.emit event)) rfl, fun _ _ => rfl, fun u v => ?_, fun e inside => ?_⟩
    · change (s.liked ++ [event]).countP _ = _
      rw [List.countP_append, List.countP_singleton]
      rfl
    · rcases List.mem_append.mp inside with old | new
      · exact Or.inl old
      · rw [List.mem_singleton.mp new]
        exact Or.inr ⟨row, found, stored.trans same⟩

theorem likesRight_step (h : LikesRight s₀ p) (turn : Turn LikesOp) :
    LikesRight s₀ (likesService.step p turn) := by
  have call (i : Nat) (t : Thread LikesOp LikesCall LikesCall.Reply ApiError LikesResponse)
      (c : LikesCall) (next : c.Reply → LikesReq LikesResponse) (ht : p.threads[i]? = some t)
      (hr : t.rest = .call c next) : LikesCallRight p.store c :=
    likes_call h.sound (h.logged t (List.mem_of_getElem? ht))
      (Service.obedient_pending h.obedient ht hr)
  constructor
  · exact likesService.obedient_step (fun op (_ : True) => likes_obey op) p turn h.obedient
      fun _ _ => trivial
  · apply likesService.logged_step h.logged turn
    intro i t c next _ ht hr
    constructor
    · constructor
      · intro k product isRead
        obtain ⟨row', still, seller, _⟩ := likes_product_after c p.store (read_stored isRead)
        exact ⟨row', still, seller⟩
      · intro k has
        obtain ⟨row₀, found₀⟩ := Table.has_iff.mp has
        obtain ⟨row, found, _⟩ := h.tallied.2.2 k row₀ found₀
        exact not_missed (Table.has_iff.mpr ⟨row, found⟩)
    · exact fun u _ a _ before => before.after c
  · apply likesService.store_step (I := FavoritesSound) h.sound turn
    exact fun i t c next _ ht hr => (call i t c next ht hr).sound
  · apply likesService.tally_step (I := fun s n =>
      (∀ u v, s₀.favored u v + n (created u v) = s.favored u v + n (deleted u v)) ∧
      (∀ u v, s.liked.countP (·.of u v) = s₀.liked.countP (·.of u v) + n (told u v)) ∧
      ∀ k row₀, s₀.db.products.find? k = some row₀ → ∃ row, s.db.products.find? k = some row ∧
        row.viewCount = row₀.viewCount + n (raised k)) h.tallied turn
    intro i t c next _ ht hr
    obtain ⟨favored, liked, views⟩ := h.tallied
    have right := call i t c next ht hr
    refine ⟨fun u v => ?_, fun u v => ?_, fun k row₀ found₀ => ?_⟩
    · have before := favored u v
      have change := right.favored u v
      change _ + (_ + if created u v ⟨c, (Likes.exec c p.store).2⟩ then 1 else 0) =
        (Likes.exec c p.store).1.favored u v +
          (_ + if deleted u v ⟨c, (Likes.exec c p.store).2⟩ then 1 else 0)
      omega
    · have before := liked u v
      have change := right.liked u v
      change (Likes.exec c p.store).1.liked.countP _ =
        _ + (_ + if told u v ⟨c, (Likes.exec c p.store).2⟩ then 1 else 0)
      omega
    · obtain ⟨row, found, seen⟩ := views k row₀ found₀
      obtain ⟨row', still, _, more⟩ := likes_product_after c p.store found
      refine ⟨row', still, ?_⟩
      rw [more, seen, Nat.add_assoc]
      rfl
  · apply likesService.store_step (I := fun s => ∀ e ∈ s.liked, e ∈ s₀.liked ∨
      ∃ row, s.db.products.find? e.productId = some row ∧ row.sellerId = e.sellerId) h.sellers turn
    intro i t c next _ ht hr e inside
    rcases (call i t c next ht hr).sellers e inside with old | new
    · rcases h.sellers e old with first | ⟨row, found, seller⟩
      · exact Or.inl first
      · obtain ⟨row', still, same, _⟩ := likes_product_after c p.store found
        exact Or.inr ⟨row', still, same.trans seller⟩
    · exact Or.inr new

theorem likesRight_idle (sound : FavoritesSound s₀) : LikesRight s₀ (Pool.idle s₀) where
  obedient _ none := by cases none
  logged _ none := by cases none
  sound := sound
  tallied := ⟨fun _ _ => rfl, fun _ _ => rfl, fun _ row found => ⟨row, found, rfl⟩⟩
  sellers _ old := Or.inl old

theorem likesRight_run (sound : FavoritesSound s₀) (turns : List (Turn LikesOp)) :
    LikesRight s₀ (run likesService.step (Pool.idle s₀) turns) :=
  run_keeps (I := LikesRight s₀) (fun _ turn h => likesRight_step h turn) (likesRight_idle sound)
    turns

/-- The end of a request that was answered as it obeys. -/
theorem quiet_ends {t : Thread LikesOp LikesCall LikesCall.Reply ApiError LikesResponse}
    (obeys : Request.Obeys (likesMay t.op) (likesEnds t.op) t.log t.rest)
    (ended : t.rest.pending = none) : ∃ r, likesEnds t.op t.log r := by
  cases rest : t.rest with
  | done a =>
    rw [rest] at obeys
    exact ⟨_, obeys⟩
  | fail e =>
    rw [rest] at obeys
    exact ⟨_, obeys⟩
  | call c next =>
    rw [rest] at ended
    cases ended

end

/-- In any order of requests a favorite is of a product of somebody else's, at most one for each
user and product, and the database has them all right; once all requests have ended, the sellers
have heard of each favorite that was added, and those not deleted since are there. -/
theorem favorites_right (s₀ : Likes) (sound : FavoritesSound s₀) (turns : List (Turn LikesOp)) :
    let p := run likesService.step (Pool.idle s₀) turns
    FavoritesSound p.store ∧
    (∀ u v, s₀.favored u v + tally (created u v) p = p.store.favored u v + tally (deleted u v) p) ∧
    (∀ e ∈ p.store.liked, e ∈ s₀.liked ∨
      ∃ row, p.store.db.products.find? e.productId = some row ∧ row.sellerId = e.sellerId) ∧
    (Service.Quiet p → ∀ u v, p.store.liked.countP (·.of u v) + s₀.favored u v =
      s₀.liked.countP (·.of u v) + p.store.favored u v + tally (deleted u v) p) := by
  intro p
  have right : LikesRight s₀ p := likesRight_run sound turns
  obtain ⟨favored, liked, _⟩ := right.tallied
  refine ⟨right.sound, favored, right.sellers, fun quiet u v => ?_⟩
  have even : tally (created u v) p = tally (told u v) p := by
    unfold tally
    refine congrArg List.sum (List.map_congr_left fun t member => ?_)
    obtain ⟨r, ends⟩ := quiet_ends (right.obedient t member) (quiet t member)
    exact ends.1 u v
  have stored := favored u v
  have heard := liked u v
  omega

def noLikes : Likes := ⟨market, Table.empty, []⟩

theorem noLikes_sound : FavoritesSound noLikes where
  once _ _ := Nat.zero_le _
  users _ _ none := by cases none
  others _ _ none := by cases none

/-- Bob likes the lamp while ann, whose lamp it is, tries to. -/
def bobAndAnn : List (Turn LikesOp) :=
  [.arrive (.addFavorite "bob" "lamp" "favorite-1" 1), .arrive (.addFavorite "ann" "lamp" "favorite-2" 1),
    .call 0, .call 1, .call 0, .call 1, .call 0, .call 0, .call 0]

theorem favorites_right_bob : (run likesService.step (Pool.idle noLikes) bobAndAnn).store.liked.countP
    (·.of "bob" "lamp") = 1 := by
  have heard := (favorites_right noLikes noLikes_sound bobAndAnn).2.2.2 (by decide +kernel) "bob" "lamp"
  have there : (run likesService.step (Pool.idle noLikes) bobAndAnn).store.favored "bob" "lamp" = 1 := by
    decide +kernel
  have kept : tally (deleted "bob" "lamp") (run likesService.step (Pool.idle noLikes) bobAndAnn) = 0 := by
    decide +kernel
  have before : noLikes.favored "bob" "lamp" = 0 ∧ noLikes.liked.countP (·.of "bob" "lamp") = 0 :=
    ⟨rfl, rfl⟩
  omega

end SecondhandApi
