import SecondhandApi.FavoritesService
import SecondhandApi.UserCalls

/-! Which calls the operations on favorites make, and what each has done at its end. -/
namespace SecondhandApi
open Keyed Interleaving

/-! What an answer says. -/

abbrev LikesAnswer : Type := Answer LikesCall LikesCall.Reply

/-- A product that was read. -/
def read : LikesAnswer → Option (Id × Product)
  | ⟨.inl (.productFindById k), .ok (some product)⟩ => some (k, product)
  | _ => none

def created (u p : Id) : LikesAnswer → Bool
  | ⟨.inr (.create _ _ userId productId), .ok _⟩ => userId = u && productId = p
  | _ => false

def deleted (u p : Id) : LikesAnswer → Bool
  | ⟨.inr (.deleteMany userId productId), .ok count⟩ => userId = u && productId = p && count ≠ 0
  | _ => false

def told (u p : Id) : LikesAnswer → Bool
  | ⟨.inr (.emit event), _⟩ => event.userId = u && event.productId = p
  | _ => false

def raised (k : Id) : LikesAnswer → Bool
  | ⟨.inl (.productIncrementViewCount p), .ok _⟩ => p = k
  | _ => false

/-- An answer after which a view of the product is not counted. -/
def missed (k : Id) : LikesAnswer → Bool
  | ⟨.inl (.productFindById _), .ok (some _)⟩ => false
  | ⟨.inl (.productFindById p), _⟩ => p = k
  | ⟨.inl (.productIncrementViewCount p), .error _⟩ => p = k
  | _ => false

/-- The operations that show a product. -/
def LikesOp.views : LikesOp → Id → Bool
  | market (.productsFindById id), k => id = k
  | addFavorite _ productId _ _, k => productId = k
  | _, _ => false

/-- What an operation may call after the answers it had. -/
def likesMay (op : LikesOp) (log : List LikesAnswer) : LikesCall → Prop
  | .inr (.create id now u p) => op = .addFavorite u p id now ∧
    ∃ a ∈ log, ∃ product, read a = some (p, product) ∧ product.sellerId ≠ u
  | .inr (.emit event) => ∃ a ∈ log, ∃ product, read a = some (event.productId, product) ∧
    product.sellerId = event.sellerId
  | _ => True

/-- One view of the product that the operation shows, unless the database has refused it. -/
def Counted (op : LikesOp) (log : List LikesAnswer) : Prop :=
  ∀ k, if op.views k then (∃ a ∈ log, missed k a = true) ∨ log.countP (raised k) = 1
    else log.countP (raised k) = 0

/-- How an operation stands at its end: a favorite was told of, and a view was counted. -/
def likesEnds (op : LikesOp) (log : List LikesAnswer) (_ : Except ApiError LikesResponse) : Prop :=
  (∀ u p, log.countP (created u p) = log.countP (told u p)) ∧ Counted op log

/-! Operations that show no product and add no favorite. -/

def Call.raises : Call → Bool
  | .productIncrementViewCount _ => true
  | _ => false

def plain : LikesCall → Bool
  | .inl c => !c.raises
  | .inr (.count _ _) => true
  | .inr (.deleteMany _ _) => true
  | .inr _ => false

theorem plain_log {c : LikesCall} (h : plain c = true) (r : c.Reply) :
    (∀ u p, created u p ⟨c, r⟩ = false ∧ told u p ⟨c, r⟩ = false) ∧
      ∀ k, raised k ⟨c, r⟩ = false := by
  rcases c with (c | c)
  · cases c <;> first
      | exact ⟨fun _ _ => ⟨rfl, rfl⟩, fun _ => rfl⟩
      | cases h
  · cases c <;> first
      | exact ⟨fun _ _ => ⟨rfl, rfl⟩, fun _ => rfl⟩
      | cases h

theorem plain_obeys {op : LikesOp} (shows : ∀ k, op.views k = false)
    {p : LikesReq LikesResponse} (h : Request.Makes (fun c => plain c = true) p) :
    Request.Obeys (likesMay op) (likesEnds op) [] p := by
  have obeys : Request.Obeys _ _ [] p := h.obeys_keeping
    (I := fun log => (∀ u p, log.countP (created u p) = 0 ∧ log.countP (told u p) = 0) ∧
      ∀ k, log.countP (raised k) = 0)
    (fun log c r here before => by
      obtain ⟨pair, views⟩ := plain_log here r
      simpa [List.countP_cons, pair, views] using before) (by simp)
  refine Request.obeys_mono (fun log c here => ?_)
    (Request.obeys_weaken _ (fun log r ended => ?_) obeys)
  · rcases c with (c | c)
    · trivial
    · cases c <;> trivial
  · refine ⟨fun u p => (ended.1 u p).1.trans (ended.1 u p).2.symm, fun k => ?_⟩
    rw [shows k]
    exact ended.2 k

/-! What each operation calls, and how it stands at its end. -/

theorem market_obeys (op : Op) (shows : ∀ k, (LikesOp.market op).views k = false) :
    Request.Obeys (likesMay (.market op)) (likesEnds (.market op)) [] (LikesOp.market op).program := by
  have reads (c : Call) (h : c.reads = true) : c.raises = false := by
    cases c <;> first
      | rfl
      | cases h
  refine plain_obeys shows (Request.makes_map (Request.makes_left id ?_) _)
  suffices calls : Request.Makes (fun c => c.raises = false) op.program from
    calls.mono fun c quiet => by simp [plain, quiet]
  cases op with
  | ordersCreate buyerId dto new =>
    exact Request.makes_map (create_makes reads (fun _ _ _ => rfl) rfl) _
  | ordersFindOne id userId => exact Request.makes_map (findOne_makes reads id userId) _
  | ordersUpdate id userId dto => exact Request.makes_map (update_makes reads userId dto rfl) _
  | ordersCancel id userId now =>
    exact Request.makes_map (close_makes reads _ userId rfl fun _ => rfl) _
  | ordersConfirm id userId now soldAt =>
    exact Request.makes_map (close_makes reads _ userId rfl fun _ => rfl) _
  | ordersRemove id => exact Request.makes_map (remove_makes reads rfl) _
  | productsCreate sellerId dto id now =>
    refine Request.makes_map ?_ _
    unfold ProductsService.create
    split
    · trivial
    · exact makes_last rfl
  | productsFindById id => simpa [LikesOp.views] using shows id
  | productsUpdate id userId dto => exact Request.makes_map (edit_makes reads userId dto fun _ => rfl) _
  | productsRemove id userId => exact Request.makes_map (productsRemove_makes reads fun _ => rfl) _
  | usersCreate dto id now hashed => exact Request.makes_map (usersCreate_makes reads fun _ => rfl) _
  | usersLogin dto compare now => exact Request.makes_map (usersLogin_makes reads fun _ _ => rfl) _
  | usersFindOne id =>
    refine Request.makes_map (makes_await (reads _ rfl) fun found => ?_) _
    cases found <;> trivial
  | usersUpdate id dto => exact Request.makes_map (usersUpdate_makes reads fun _ => rfl) _
  | usersRemove id => exact Request.makes_map (usersRemove_makes reads rfl) _
  | usersRefreshAccessToken userId now =>
    refine Request.makes_map (makes_await (reads _ rfl) fun found => ?_) _
    cases found with
    | none => trivial
    | some user =>
      dsimp only
      split <;> trivial

/-- The part that both operations that show a product begin with. -/
theorem findById_obeys {op : LikesOp} {k : Id} (views : ∀ j, op.views j = decide (k = j))
    {f : Product → LikesReq LikesResponse}
    (rest : ∀ product log, (∃ a ∈ log, read a = some (k, product)) →
      (∀ u p, log.countP (created u p) = 0 ∧ log.countP (told u p) = 0) → Counted op log →
      Request.Obeys (likesMay op) (likesEnds op) log (f product)) :
    Request.Obeys (likesMay op) (likesEnds op) [] ((ProductsService.findById k).left id >>= f) := by
  refine ⟨trivial, fun r => ?_⟩
  rcases r with e | (_ | product)
  · refine ⟨by simp [created, told], fun j => ?_⟩
    by_cases same : k = j <;> simp [views, same, missed, raised]
  · refine ⟨by simp [created, told], fun j => ?_⟩
    by_cases same : k = j <;> simp [views, same, missed, raised]
  · refine ⟨trivial, fun r => ?_⟩
    rcases r with e | raisedRow
    · refine rest product _ ⟨_, List.mem_cons_of_mem _ List.mem_cons_self, rfl⟩
        (by simp [created, told]) fun j => ?_
      by_cases same : k = j <;> simp [views, same, missed, raised]
    · refine rest product _ ⟨_, List.mem_cons_of_mem _ List.mem_cons_self, rfl⟩
        (by simp [created, told]) fun j => ?_
      by_cases same : k = j <;> simp [views, same, missed, raised]

/-- An answer about favorites counts no view. -/
theorem Counted.cons {op : LikesOp} {log : List LikesAnswer} (h : Counted op log)
    (c : FavoriteCall) (r : c.Reply) : Counted op (⟨.inr c, r⟩ :: log) := by
  intro k
  have here := h k
  have quiet : raised k ⟨.inr c, r⟩ = false := rfl
  split at here
  · rename_i shown
    rw [if_pos shown]
    rcases here with ⟨a, member, missing⟩ | once
    · exact Or.inl ⟨a, List.mem_cons_of_mem _ member, missing⟩
    · exact Or.inr (by rw [List.countP_cons, once, quiet]; rfl)
  · rename_i hidden
    rw [if_neg hidden, List.countP_cons, here, quiet]
    rfl

theorem addFavorite_obeys (u p favoriteId : Id) (now : Date) :
    let op := LikesOp.addFavorite u p favoriteId now
    Request.Obeys (likesMay op) (likesEnds op) [] op.program := by
  intro op
  change Request.Obeys _ _ _ (LikesResponse.favorite <$> FavoritesService.addFavorite ..)
  rw [FavoritesService.addFavorite, Request.map_eq, Request.bind_assoc]
  refine findById_obeys (k := p) (fun j => rfl) fun product log seen nothing counted => ?_
  have even (l : List LikesAnswer) (h : ∀ u p, l.countP (created u p) = 0 ∧ l.countP (told u p) = 0)
      (u p : Id) : l.countP (created u p) = l.countP (told u p) := (h u p).1.trans (h u p).2.symm
  obtain ⟨a, member, isRead⟩ := seen
  by_cases own : product.sellerId = u
  · rw [if_pos own]
    exact ⟨even _ nothing, counted⟩
  rw [if_neg own]
  refine ⟨trivial, fun r => ?_⟩
  have nothing' (r : Except PrismaError Nat) (u' p' : Id) :
      ((⟨.inr (.count u p), r⟩ :: log : List LikesAnswer)).countP (created u' p') = 0 ∧
        (⟨.inr (.count u p), r⟩ :: log : List LikesAnswer).countP (told u' p') = 0 := by
    simpa [created, told] using nothing u' p'
  rcases r with e | count
  · exact ⟨even _ (nothing' _), counted.cons (.count u p) _⟩
  by_cases exist : 0 < count
  · change Request.Obeys _ _ _ ((if decide (0 < count) = true then _ else _) >>= _)
    rw [if_pos (decide_eq_true exist)]
    exact ⟨even _ (nothing' _), counted.cons (.count u p) _⟩
  change Request.Obeys _ _ _ ((if decide (0 < count) = true then _ else _) >>= _)
  rw [if_neg (by simpa using exist)]
  refine ⟨⟨rfl, a, List.mem_cons_of_mem _ member, product, isRead, own⟩, fun r => ?_⟩
  rcases r with e | row
  · refine ⟨fun u' p' => ?_, (counted.cons (.count u p) _).cons (.create favoriteId now u p) _⟩
    simpa [created, told] using even _ nothing u' p'
  refine ⟨⟨a, List.mem_cons_of_mem _ (List.mem_cons_of_mem _ member), product, isRead, rfl⟩,
    fun _ => ⟨fun u' p' => ?_, ((counted.cons (.count u p) _).cons (.create favoriteId now u p) _).cons
      (.emit ⟨favoriteId, p, u, product.sellerId⟩) _⟩⟩
  simp [List.countP_cons, created, told, (nothing u' p').1, (nothing u' p').2]

theorem likes_obey (op : LikesOp) :
    Request.Obeys (likesMay op) (likesEnds op) [] op.program := by
  cases op with
  | market op =>
    by_cases shown : ∃ k, (LikesOp.market op).views k = true
    · obtain ⟨k, shown⟩ := shown
      cases op with
      | productsFindById id =>
        change Request.Obeys _ _ _
          (LikesResponse.market <$> Request.left _ (Response.product <$> ProductsService.findById id))
        rw [Request.map_eq, Request.map_eq, Request.left_bind, Request.bind_assoc]
        refine findById_obeys (k := id) (fun j => rfl) fun product log seen nothing counted => ?_
        exact ⟨fun u p => (nothing u p).1.trans (nothing u p).2.symm, counted⟩
      | _ => cases shown
    · exact market_obeys op fun k => Bool.eq_false_iff.mpr fun here => shown ⟨k, here⟩
  | addFavorite u p favoriteId now => exact addFavorite_obeys u p favoriteId now
  | checkFavorite u p =>
    refine plain_obeys (fun _ => rfl) ⟨rfl, fun r => ?_⟩
    cases r <;> trivial
  | removeFavorite u p =>
    refine plain_obeys (fun _ => rfl) ⟨rfl, fun r => ?_⟩
    cases r with
    | error e => trivial
    | ok count =>
      change Request.Makes _ (Functor.map _ (if count = 0 then _ else _))
      split <;> trivial

end SecondhandApi
