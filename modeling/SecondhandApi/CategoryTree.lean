import SecondhandApi.CategoriesService
import SecondhandApi.Forest
import SecondhandApi.Operations

/-! The tree of categories. `update` looks below the category for the parent it is to get,
child by child, and then writes; in between other requests may write too. This module says
for which interleavings no category ends up above itself: those in which a walk misses nothing
that counts. -/
namespace SecondhandApi
open Keyed Interleaving Relation

/- The relation of the column `parentId`. -/
def Tables.parentOf (t : Tables) (c q : Id) : Prop :=
  ∃ row, t.categories.find? c = some row ∧ row.parentId = some q

theorem parentOf_iff {t : Tables} {c q : Id} :
    t.parentOf c q ↔ (t.categories.find? c).bind (fun row => row.parentId) = some q :=
  Option.bind_eq_some_iff.symm

instance (t : Tables) (c q : Id) : Decidable (t.parentOf c q) := decidable_of_iff _ parentOf_iff.symm

def Tree (t : Tables) : Prop := Forest.Acyclic t.parentOf

/-- Everything one of the calls can do to the tables, with what it answers. -/
inductive CategoryEffect (db : Db) : (c : CategoryCall) → c.Reply → Tables → Prop where
  | read {c r} (reads : ∀ id data, c ≠ .update id data) : CategoryEffect db c r db.toTables
  | refused {c} (e) : CategoryEffect db c (.error e) db.toTables
  | made {id now data} (row : Category) (fresh : db.categories.find? id = none)
      (known : ∀ q, row.parentId = some q → db.categories.has q = true) :
      CategoryEffect db (.create id now data) (.ok row)
        (db.toTables.withCategories (db.categories.insert id row))
  | set {id data} (old new : Category) (found : db.categories.find? id = some old)
      (written : data.apply old = some new) :
      CategoryEffect db (.update id data) (.ok new)
        (db.toTables.withCategories (db.categories.set id new))
  | erased {id} (row : Category) :
      CategoryEffect db (.delete id) (.ok row) (Prisma.withoutCategory db.toTables id)

theorem category_write_effect {db : Db} {c : CategoryCall}
    {w : Except PrismaError (Tables × c.Result)}
    (hw : db.toTables.execCategory c = commit db.toTables w)
    (accepted : ∀ t a, w = .ok (t, a) → CategoryEffect db c (.ok a) t) :
    CategoryEffect db c (execCategory c db).2 (execCategory c db).1.toTables := by
  have outcome : (∃ e, w = .error e ∧ execCategory c db = (db, .error e)) ∨
      ∃ mid a, w = .ok (Db.toTables mid, a) ∧ execCategory c db = (mid, .ok a) :=
    commit_write (congrArg Prod.fst hw) (congrArg Prod.snd hw)
  rcases outcome with ⟨e, _, done⟩ | ⟨mid, a, ok, done⟩
  · rw [done]
    exact .refused e
  · rw [done]
    exact accepted _ a ok

theorem category_effect (c : CategoryCall) (db : Db) :
    CategoryEffect db c (execCategory c db).2 (execCategory c db).1.toTables := by
  cases c with
  | create id now data =>
    refine category_write_effect rfl (fun t row ok => ?_)
    obtain ⟨fresh, made, known, rfl⟩ := Prisma.categoryCreate_ok ok
    refine .made row fresh (fun q above => ?_)
    rcases Prisma.connected known ((CategoryCreateInput.row_parent made).symm.trans above) with
      ⟨_, there⟩ | ⟨_, none⟩
    · exact there
    · cases none
  | update id data =>
    refine category_write_effect rfl (fun t new ok => ?_)
    obtain ⟨old, found, written, _, rfl⟩ := Prisma.categoryUpdate_ok ok
    exact .set old new found written
  | delete id =>
    refine category_write_effect rfl (fun t row ok => ?_)
    obtain ⟨_, _, rfl⟩ := Prisma.categoryDelete_ok ok
    exact .erased row
  | _ => exact .read (fun _ _ => nofun)

section
variable {db : Db} {id : Id}

/- The column after a category was made or written. -/
theorem parentOf_insert (fresh : db.categories.find? id = none) {row : Category} {c q : Id} :
    (db.toTables.withCategories (db.categories.insert id row)).parentOf c q ↔
      if c = id then row.parentId = some q else db.parentOf c q := by
  simp only [Tables.parentOf, Tables.categories_withCategories, Table.find?_insert fresh]
  split <;> simp

theorem parentOf_set {old new : Category} (found : db.categories.find? id = some old) {c q : Id} :
    (db.toTables.withCategories (db.categories.set id new)).parentOf c q ↔
      if c = id then new.parentId = some q else db.parentOf c q := by
  simp only [Tables.parentOf, Tables.categories_withCategories, Table.find?_set found]
  split <;> simp

/-- No category has a new one as its parent. -/
theorem tree_insert (tree : Tree db.toTables) (fresh : db.categories.find? id = none)
    {row : Category} (known : ∀ q, row.parentId = some q → db.categories.has q = true) :
    Tree (db.toTables.withCategories (db.categories.insert id row)) := by
  have unused : ¬ db.categories.has id = true := Table.not_has_iff.mpr fresh
  refine tree.leaf (x := id) (fun c q other edge => ?_) (fun c edge => ?_)
  · rwa [parentOf_insert fresh, if_neg other] at edge
  · rw [parentOf_insert fresh] at edge
    split at edge
    · exact unused (known id edge)
    · obtain ⟨child, found, above⟩ := edge
      exact unused (db.linked.parent c child found id above)

theorem tree_erase (tree : Tree db.toTables) : Tree (Prisma.withoutCategory db.toTables id) := by
  refine tree.mono (fun c q => ?_)
  rintro ⟨new, there, above⟩
  rw [Prisma.find?_withoutCategory] at there
  obtain ⟨old, kept, rfl⟩ := Option.map_eq_some_iff.mp there
  split at kept
  · cases kept
  · exact ⟨old, kept, (Prisma.orphaned_parent above).1⟩

/-- A category that is written closes a cycle exactly when it is put under a category that it
is or stands above. -/
theorem tree_set (tree : Tree db.toTables) {data : CategoryUpdateInput} {old new : Category}
    (found : db.categories.find? id = some old) (written : data.apply old = some new) :
    Tree (db.toTables.withCategories (db.categories.set id new)) ↔
      ∀ parent, data.parent = .value parent → ¬ ReflTransGen db.parentOf parent id := by
  have above := CategoryUpdateInput.apply_parent written
  have others (c q : Id) (other : c ≠ id) :
      (db.toTables.withCategories (db.categories.set id new)).parentOf c q ↔ db.parentOf c q := by
    rw [parentOf_set found, if_neg other]
  cases asked : data.parent with
  | value parent =>
    rw [asked] at above
    have moved (q : Id) :
        (db.toTables.withCategories (db.categories.set id new)).parentOf id q ↔ q = parent := by
      rw [parentOf_set found, if_pos rfl, above]
      exact ⟨fun same => (Option.some.inj same).symm, fun same => congrArg some same.symm⟩
    rw [Tree, Forest.acyclic_moved_iff tree moved others]
    exact ⟨fun apart p same => by cases same; exact apart, fun apart => apart parent rfl⟩
  | undefined =>
    rw [asked] at above
    refine ⟨fun _ parent none => (by cases none), fun _ => tree.mono (fun c q edge => ?_)⟩
    by_cases same : c = id
    · rw [same, parentOf_set found, if_pos rfl, above] at edge
      exact same ▸ ⟨old, found, edge⟩
    · exact (others c q same).mp edge
  | null =>
    rw [asked] at above
    refine ⟨fun _ parent none => (by cases none), fun _ => tree.mono (fun c q edge => ?_)⟩
    by_cases same : c = id
    · rw [same, parentOf_set found, if_pos rfl, above] at edge
      cases edge
    · exact (others c q same).mp edge

end

/-- A category that gets a parent is not the parent and stands nowhere above it. -/
def PutApart (db : Db) : CategoryCall → Prop
  | .update id data => (∃ row, (execCategory (.update id data) db).2 = .ok row) →
    ∀ parent, data.parent = .value parent → ¬ ReflTransGen db.parentOf parent id
  | _ => True

/-- One call keeps the tree exactly when it puts nothing below itself. -/
theorem tree_call {db : Db} (c : CategoryCall) (tree : Tree db.toTables) :
    Tree (execCategory c db).1.toTables ↔ PutApart db c := by
  have effect := category_effect c db
  generalize answer : (execCategory c db).2 = r at effect
  generalize (execCategory c db).1.toTables = after at effect ⊢
  cases effect with
  | read reads =>
    cases c with
    | update id data => exact absurd rfl (reads id data)
    | _ => exact iff_of_true tree trivial
  | refused e =>
    cases c with
    | update id data =>
      refine iff_of_true tree (fun accepted => ?_)
      obtain ⟨row, accepted⟩ := accepted
      cases answer.symm.trans accepted
    | _ => exact iff_of_true tree trivial
  | made row fresh known => exact iff_of_true (tree_insert tree fresh known) trivial
  | set old new found written =>
    rw [tree_set tree found written]
    exact ⟨fun apart _ => apart, fun apart => apart ⟨new, answer⟩⟩
  | erased row => exact iff_of_true (tree_erase tree) trivial

/-! What an update has walked through when it comes to write, and what may have been put there
since. -/

abbrev CategoryLog := List (Answer CategoryCall CategoryCall.Reply)
abbrev CategoryPool : Type :=
  Pool Db CategoryOp CategoryCall CategoryCall.Reply ApiError CategoryResponse
abbrev CategoryThread : Type :=
  Thread CategoryOp CategoryCall CategoryCall.Reply ApiError CategoryResponse

/-- The answers of a walk down from `c` that has not come to `target`. -/
inductive Walked (log : CategoryLog) (target : Id) : Id → Prop where
  | down {c : Id} (children : List (Id × Category))
      (read : ⟨.findChildren c none, .ok children⟩ ∈ log)
      (apart : ∀ child ∈ children, child.1 ≠ target)
      (further : ∀ child ∈ children, Walked log target child.1) : Walked log target c

/-- An update of the parent is written after a walk that has not come to it. -/
def WalkedFirst (log : CategoryLog) : CategoryCall → Prop
  | .update id data => ∀ parent, data.parent = .value parent → parent ≠ id ∧ Walked log parent id
  | _ => True

/-- Since an update read the children of a category, the one that it moves or one still below
that, no category was put there that is the new parent or stands above it. -/
def NoneMissed (p : CategoryPool) (t : CategoryThread) : CategoryCall → Prop
  | .update id data => (∃ row, (execCategory (.update id data) p.store).2 = .ok row) →
    ∀ parent, data.parent = .value parent → ∀ x children,
      ⟨.findChildren x none, .ok children⟩ ∈ t.log → ReflTransGen p.store.parentOf x id →
      ∀ c, p.store.parentOf c x → c ∉ children.map Prod.fst →
        ¬ ReflTransGen p.store.parentOf parent c
  | _ => True

section
variable {log log' : CategoryLog} {target c : Id}

theorem Walked.grows (walked : Walked log target c) (kept : log ⊆ log') :
    Walked log' target c := by
  induction walked with
  | down children read apart _ ih => exact .down children (kept read) apart ih

/-- Where a walk has not come to a target that stands below by now, a category was put there. -/
theorem Walked.missed {up : Id → Id → Prop} {id : Id} (walked : Walked log target c)
    (inside : ReflTransGen up c id) (way : TransGen up target c) :
    ∃ x children y, ⟨.findChildren x none, .ok children⟩ ∈ log ∧ ReflTransGen up x id ∧ up y x ∧
      y ∉ children.map Prod.fst ∧ ReflTransGen up target y := by
  induction walked with
  | @down c children read apart further ih =>
    obtain ⟨y, above, edge⟩ := TransGen.tail'_iff.mp way
    by_cases seen : y ∈ children.map Prod.fst
    · obtain ⟨child, member, rfl⟩ := List.mem_map.mp seen
      refine ih child member (.head edge inside) ?_
      exact (reflTransGen_iff_eq_or_transGen.mp above).resolve_left (apart child member)
    · exact ⟨c, children, y, read, inside, edge, seen, above⟩

theorem noneMissed_iff {p : CategoryPool} {t : CategoryThread} {call : CategoryCall}
    (first : WalkedFirst t.log call) : PutApart p.store call ↔ NoneMissed p t call := by
  cases call with
  | update id data =>
    constructor
    · intro apart accepted parent asked x _ _ inside c edge _ above
      exact apart accepted parent asked (above.trans (.head edge inside))
    · intro none accepted parent asked way
      obtain ⟨other, walked⟩ := first parent asked
      have strictly := (reflTransGen_iff_eq_or_transGen.mp way).resolve_left other.symm
      obtain ⟨x, children, y, read, inside, edge, missed, above⟩ := walked.missed .refl strictly
      exact none accepted parent asked x children read inside y edge missed above
  | _ => exact Iff.rfl

end

/-! Every program walks first. -/

namespace CategoriesService
open CategoriesRepository (findById)

section
variable {A B : Type} {log : CategoryLog}

/- What a part of a request answers is told by `post`. -/
abbrev Walks (post : CategoryLog → Except ApiError A → Prop) (log : CategoryLog)
    (p : CategoryReq A) : Prop := Request.Obeys WalkedFirst post log p

/-- A call that is no update of a parent. -/
def MovesNone : CategoryCall → Prop
  | .update _ data => ∀ parent, data.parent ≠ .value parent
  | _ => True

theorem walks_of_makes {p : CategoryReq A} (h : Request.Makes MovesNone p) :
    Walks (fun _ _ => True) log p := by
  refine Request.obeys_mono (fun log c moves => ?_) (h.obeys log)
  cases c with
  | update id data => exact fun parent asked => absurd asked (moves parent)
  | _ => trivial

/-- After a part that moves nothing. -/
theorem walks_after {p : CategoryReq B} {f : B → CategoryReq A} (h : Request.Makes MovesNone p)
    (goes : ∀ b log, Walks (fun _ _ => True) log (f b)) : Walks (fun _ _ => True) log (p >>= f) := by
  refine Request.obeys_bind _ _ (Request.obeys_weaken _ (fun l r _ => ?_) (walks_of_makes h))
  cases r with
  | ok b => exact goes b l
  | error e => trivial

theorem makes_await {c : CategoryCall} (moves : MovesNone c) :
    Request.Makes MovesNone (awaitCategory c) := by
  refine ⟨moves, fun r => ?_⟩
  cases r with
  | ok a => trivial
  | error e => trivial

/-- A request that looks first and moves nothing after that. -/
theorem look_walks {c : CategoryCall} (moves : MovesNone c) {f : c.Result → CategoryReq A}
    (g : A → B) (goes : ∀ found, Request.Makes MovesNone (f found)) :
    Walks (fun _ _ => True) log (g <$> (awaitCategory c >>= f)) :=
  walks_of_makes (Request.makes_map (Request.makes_bind (makes_await moves) goes) g)

/-- A loop over children that answers no has walked down from each of them. -/
theorem anyDescendant_walks {walk : Id → CategoryReq Bool} {target : Id}
    (walks : ∀ c log, Walks (fun l r => log ⊆ l ∧ (r = .ok false → Walked l target c)) log (walk c))
    (children : List (Id × Category)) (log : CategoryLog) :
    Walks (fun l r => log ⊆ l ∧ (r = .ok false → ∀ child ∈ children,
      child.1 ≠ target ∧ Walked l target child.1)) log (anyDescendant walk target children) := by
  induction children generalizing log with
  | nil => exact ⟨fun _ => id, fun _ _ none => nomatch none⟩
  | cons child children ih =>
    rw [anyDescendant]
    by_cases same : child.1 = target
    · rw [if_pos same]
      exact ⟨fun _ => id, fun no => nomatch no⟩
    rw [if_neg same]
    refine Request.obeys_bind _ _ (Request.obeys_weaken _ (fun l r => ?_) (walks child.1 log))
    rintro ⟨kept, walked⟩
    match r with
    | .error e => exact ⟨kept, fun no => nomatch no⟩
    | .ok true => exact ⟨kept, fun no => nomatch no⟩
    | .ok false =>
      refine Request.obeys_weaken _ (fun l' r => ?_) (ih l)
      rintro ⟨kept', rest⟩
      refine ⟨fun a seen => kept' (kept seen), fun no c member => ?_⟩
      rcases List.mem_cons.mp member with rfl | later
      · exact ⟨same, (walked rfl).grows kept'⟩
      · exact rest no c later

theorem isDescendant_walks (levels : Nat) (c target : Id) (log : CategoryLog) :
    Walks (fun l r => log ⊆ l ∧ (r = .ok false → Walked l target c)) log
      (isDescendant levels c target) := by
  induction levels generalizing c log with
  | zero => exact ⟨fun _ => id, fun no => nomatch no⟩
  | succ levels ih =>
    refine ⟨trivial, fun r => ?_⟩
    cases r with
    | error e => exact ⟨fun _ => List.mem_cons_of_mem _, fun no => nomatch no⟩
    | ok children =>
      refine Request.obeys_weaken _ (fun l r => ?_) (anyDescendant_walks (fun c log => ih c log)
        children (⟨.findChildren c none, .ok children⟩ :: log))
      rintro ⟨kept, below⟩
      refine ⟨fun a seen => kept (List.mem_cons_of_mem _ seen), fun no => ?_⟩
      exact .down children (kept List.mem_cons_self) (fun child member => (below no child member).1)
        (fun child member => (below no child member).2)

theorem activeParent_makes (p : Id) : Request.Makes MovesNone (activeParent p) := by
  refine Request.makes_bind (makes_await trivial) (fun found => ?_)
  cases found with
  | none => trivial
  | some parent =>
    change Request.Makes MovesNone (if !parent.row.isActive then _ else _)
    split_ifs <;> trivial

theorem newParent_walks (levels : Nat) (id p : Id) (log : CategoryLog) :
    Walks (fun l r => r = .ok () → p ≠ id ∧ Walked l p id) log (newParent levels id p) := by
  rw [newParent]
  by_cases same : p = id
  · rw [if_pos same]
    exact fun no => nomatch no
  rw [if_neg same]
  refine Request.obeys_bind _ _ (Request.obeys_weaken _ (fun l r _ => ?_)
    (walks_of_makes (activeParent_makes p)))
  cases r with
  | error e => exact fun no => nomatch no
  | ok checked =>
    refine Request.obeys_bind _ _ (Request.obeys_weaken _ (fun l' r below => ?_)
      (isDescendant_walks levels id p l))
    match r with
    | .error e => exact fun no => nomatch no
    | .ok true => exact fun no => nomatch no
    | .ok false => exact fun _ => ⟨same, below.2 rfl⟩

theorem create_makes (dto : CreateCategoryDto) (id : Id) (now : Date) :
    Request.Makes MovesNone (create dto id now) := by
  have write (data : CategoryCreateInput) :
      Request.Makes MovesNone (CategoriesRepository.create id now data) := makes_await trivial
  have look (c : CategoryCall) (moves : MovesNone c) (f : c.Result → Bool) :
      Request.Makes MovesNone (awaitCategory c >>= fun found => .done (f found)) :=
    Request.makes_bind (makes_await moves) (fun _ => trivial)
  refine Request.makes_bind (look (.findUniqueName dto.name) trivial _) (fun existingName => ?_)
  cases existingName with
  | true => trivial
  | false =>
    refine Request.makes_bind (look (.findUniqueSlug dto.slug) trivial _) (fun existingSlug => ?_)
    cases existingSlug with
    | true => trivial
    | false =>
      cases dto.parentId.ifTruthy nonempty with
      | value parentId =>
        exact Request.makes_bind (activeParent_makes parentId) (fun _ => write _)
      | _ => exact write _

/-- The check that a new name or slug is free, in front of the rest of an update. -/
theorem unique_walks {asked : Field String} {old : String} {taken : String → CategoryReq Bool}
    {rest : Unit → CategoryReq Category} {e : ApiError}
    (reads : ∀ text, Request.Makes MovesNone (taken text))
    (goes : ∀ log, Walks (fun _ _ => True) log (rest ())) :
    Walks (fun _ _ => True) log (match asked with
      | .value text =>
        if text ≠ old then do
          let found ← taken text
          if found then do
            let u ← throw e
            rest u
          else rest ()
        else rest ()
      | _ => rest ()) := by
  cases asked with
  | value text =>
    change Walks _ log (if text ≠ old then _ else _)
    split_ifs with same
    · refine walks_after (reads text) (fun found log => ?_)
      cases found with
      | true => trivial
      | false => exact goes log
    · exact goes log
  | _ => exact goes log

theorem update_walks (levels : Nat) (id : Id) (dto : UpdateCategoryDto) :
    Walks (fun _ _ => True) log (update levels id dto) := by
  have write {data : CategoryUpdateInput} {log : CategoryLog}
      (first : ∀ parent, data.parent = .value parent → parent ≠ id ∧ Walked log parent id) :
      Walks (fun _ _ => True) log (CategoriesRepository.update id data) := by
    refine ⟨first, fun r => ?_⟩
    cases r with
    | ok row => trivial
    | error e => trivial
  refine walks_after (makes_await (c := .findById id false) trivial) (fun existing log => ?_)
  cases existing with
  | none => trivial
  | some existing =>
    refine unique_walks (fun _ => Request.makes_bind (makes_await trivial) fun _ => trivial)
      (fun log => unique_walks (fun _ => Request.makes_bind (makes_await trivial) fun _ => trivial)
        (fun log => ?_))
    cases asked : dto.parentId with
    | value p =>
      refine Request.obeys_bind _ _ (Request.obeys_weaken _ (fun l r walked => ?_)
        (newParent_walks levels id p log))
      cases r with
      | error e => trivial
      | ok checked => exact write (fun q put => by cases put; exact walked rfl)
    | undefined => exact write (fun _ put => nomatch put)
    | null => exact write (fun _ put => nomatch put)

end

end CategoriesService

open CategoriesService in
theorem program_walks (op : CategoryOp) :
    Request.Obeys WalkedFirst (fun _ _ => True) [] op.program := by
  cases op with
  | create dto id now => exact walks_of_makes (Request.makes_map (create_makes dto id now) _)
  | update levels id dto =>
    refine Request.obeys_bind _ _ (Request.obeys_weaken _ (fun l r _ => ?_)
      (update_walks levels id dto))
    cases r <;> trivial
  | remove id =>
    refine look_walks (c := .findById id true) trivial _ (fun found => ?_)
    cases found with
    | none => trivial
    | some category =>
      have last : Request.Makes MovesNone (CategoriesRepository.delete id >>= fun _ => pure ()) :=
        Request.makes_bind (makes_await (c := .delete id) trivial) (fun _ => trivial)
      change Request.Makes MovesNone (if category.children.any _ then _ else _)
      split_ifs
      · trivial
      · trivial
      · trivial
      · exact last
  | updateOrder id order =>
    refine look_walks (c := .findById id false) trivial _ (fun found => ?_)
    cases found with
    | none => trivial
    | some category => exact makes_await (fun _ asked => nomatch asked)
  | findOne id includeChildren =>
    refine look_walks (c := .findById id includeChildren) trivial _ (fun found => ?_)
    cases found <;> trivial
  | findBySlug slug includeChildren =>
    refine look_walks (c := .findBySlug slug includeChildren) trivial _ (fun found => ?_)
    cases found <;> trivial
  | findChildren parentId isActive =>
    refine look_walks (c := .findById parentId false) trivial _ (fun found => ?_)
    cases found with
    | none => trivial
    | some parent => exact makes_await (c := .findChildren parentId isActive) trivial

/-- In every interleaving the categories stay a tree exactly as long as no accepted update has
missed, below the category that it moves, one that was put there since it looked and that is the
new parent or stands above it. -/
theorem tree_iff (db : Db) (tree : Tree db.toTables) (turns : List (Turn CategoryOp)) :
    (∀ p ∈ visited categoryService.step (Pool.idle db) turns, Tree p.store.toTables) ↔
      Along categoryService.step (Service.OnCalls NoneMissed) (Pool.idle db) turns := by
  refine categoryService.store_iff_along (I := fun db => Tree db.toTables)
    (J := Service.Obedient (fun _ => WalkedFirst) (fun _ _ _ => True))
    (fun p turn obeys (_ : True) => ?_) (fun p i t c next obeys tree ht hr => ?_)
    (fun _ none => by cases none) tree (fun _ _ => trivial)
  · exact Service.obedient_step (fun op (_ : True) => program_walks op) p turn obeys
      (fun _ _ => trivial)
  · exact (tree_call c tree).trans (noneMissed_iff (Service.obedient_pending obeys ht hr))

/-! Home, kitchen and lamps at the root; pans in the kitchen and lids with the pans. -/

def shelf (name : String) (parentId : Option Id) : Id × Category :=
  (name, { name := name, slug := name, parentId := parentId, createdAt := 0 })

def shelves : Db where
  toTables := market.toTables.withCategories ⟨[shelf "home" none, shelf "kitchen" none,
    shelf "lamps" none, shelf "pans" (some "kitchen"), shelf "lids" (some "pans")], by decide⟩
  linked := by decide

def putUnder (id parentId : Id) : Turn CategoryOp :=
  .arrive (.update 6 id { parentId := .value parentId })

def shelfDepth (id : Id) : Nat := if id = "lids" then 2 else if id = "pans" then 1 else 0

theorem shelves_tree : Tree shelves.toTables := by
  refine Forest.acyclic_of_depth shelfDepth (fun c q => ?_)
  rintro ⟨row, found, above⟩
  have deeper : shelves.categories.all (fun c row =>
      row.parentId.all (fun q => shelfDepth q < shelfDepth c)) = true := by decide
  have here := Table.all_iff.mp deeper c row found
  rw [above] at here
  exact of_decide_eq_true here

/-- Kitchen is put under home; when all below it has been looked at, and before it is written,
lamps are put under pans. -/
def oneMove : List (Turn CategoryOp) :=
  [putUnder "kitchen" "home", .call 0, .call 0, .call 0, .call 0, .call 0,
    putUnder "lamps" "pans", .call 1, .call 1, .call 1, .call 1, .call 0]

theorem top_of_root {t : Tables} {c q : Id}
    (root : (t.categories.find? c).bind (fun row => row.parentId) = none)
    (way : ReflTransGen t.parentOf c q) : q = c := by
  rcases ReflTransGen.cases_head way with rfl | ⟨_, edge, _⟩
  · rfl
  · cases root.symm.trans (parentOf_iff.mp edge)

theorem tree_iff_one_move : Along categoryService.step (Service.OnCalls NoneMissed)
      (Pool.idle shelves) oneMove ∧
    ∀ p ∈ visited categoryService.step (Pool.idle shelves) oneMove, Tree p.store.toTables := by
  have kitchen : (shelves.categories.find? "kitchen").bind (fun row => row.parentId) = none := by
    decide
  have pans : (shelves.categories.find? "pans").bind (fun row => row.parentId) =
      some "kitchen" := by decide
  have none_missed : Along categoryService.step (Service.OnCalls NoneMissed) (Pool.idle shelves)
      oneMove := by
    refine ⟨trivial, ?_, ?_, ?_, ?_, ?_, trivial, ?_, ?_, ?_, ?_, ?_, trivial⟩ <;>
      intro t c ht pending <;> cases ht <;> cases pending <;> try trivial
    -- Above pans there is kitchen, which is not below lamps.
    · rintro _ parent asked x _ _ inside c edge _ way
      cases asked
      rcases ReflTransGen.cases_head way with rfl | ⟨q, up, rest⟩
      · cases pans.symm.trans (parentOf_iff.mp edge)
        exact absurd (top_of_root kitchen inside) (by decide)
      · cases pans.symm.trans (parentOf_iff.mp up)
        cases top_of_root kitchen rest
        cases kitchen.symm.trans (parentOf_iff.mp edge)
    -- Lamps are below kitchen now, and the walk has not seen them; but home is not below them.
    · rintro _ parent asked x _ _ _ c edge _ way
      cases asked
      have home : ((run categoryService.step (Pool.idle shelves)
          (oneMove.take 11)).store.categories.find? "home").bind (fun row => row.parentId) = none := by
        decide +kernel
      cases top_of_root home way
      cases home.symm.trans (parentOf_iff.mp edge)
  exact ⟨none_missed, (tree_iff shelves shelves_tree oneMove).mpr none_missed⟩

/-- Both look for the other among their children before either is written. -/
def twoMoves : List (Turn CategoryOp) :=
  [putUnder "home" "kitchen", putUnder "kitchen" "home", .call 0, .call 0, .call 0,
    .call 1, .call 1, .call 1, .call 1, .call 1, .call 0, .call 1]

theorem two_moves_cycle :
    ¬ ∀ (db : Db) (turns : List (Turn CategoryOp)), Tree db.toTables →
      ∀ p ∈ visited categoryService.step (Pool.idle db) turns, Tree p.store.toTables := by
  intro always
  have tree := always shelves twoMoves shelves_tree _ (run_mem_visited _ _ _)
  have up : (run categoryService.step (Pool.idle shelves) twoMoves).store.parentOf
      "home" "kitchen" := by decide +kernel
  have down : (run categoryService.step (Pool.idle shelves) twoMoves).store.parentOf
      "kitchen" "home" := by decide +kernel
  exact tree "home" (.tail (.single up) down)

end SecondhandApi
