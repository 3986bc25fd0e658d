import SecondhandApi.CategoryWalks

/-! `findTree` of `src/modules/categories/repositories/categories.repository.ts`: the categories
as a forest, loaded from the roots down. -/
namespace SecondhandApi
open Keyed Interleaving Relation

/-- What `loadCategoryWithAllChildren` answers: nothing, or a category with what is below it. -/
inductive LoadedCategory where
  | null
  | category (id : Id) (record : CategoryRecord) (children : List LoadedCategory)

namespace Prisma

/- `where: { parentId: null }`, with `isActive` when it is given. -/
def rootCategories (db : Tables) (isActive : Option Bool) : List (Id × Category) :=
  (db.categories.rows.filter (fun row =>
    row.2.parentId = none && isActive.all (row.2.isActive == ·))).insertionSort categoryBefore

end Prisma

/-- The queries of `findTree`. -/
inductive TreeCall where
  | findRootCategories (isActive : Option Bool)
  | findUnique (id : Id)
  | findChildren (parentId : Id) (isActive : Option Bool)

abbrev TreeCall.Reply : TreeCall → Type
  | findRootCategories _ => Except PrismaError (List (Id × Category))
  | findUnique _ => Except PrismaError (Option CategoryRecord)
  | findChildren _ _ => Except PrismaError (List (Id × Category))

def execTree : (c : TreeCall) → Db → Db × c.Reply
  | .findRootCategories isActive, db => (db, .ok (Prisma.rootCategories db.toTables isActive))
  | .findUnique id, db =>
    (db, .ok ((db.categories.find? id).map (Prisma.categoryRecord db.toTables false id)))
  | .findChildren parentId isActive, db =>
    (db, .ok (Prisma.childCategories db.toTables parentId isActive))

abbrev TreeReq (A : Type) : Type := Request TreeCall TreeCall.Reply ApiError A

def settleTree {A : Type} : Except PrismaError A → TreeReq A
  | .ok result => .done result
  | .error e => .fail (.database e)

namespace CategoriesRepository

/- Only the ids of the roots are read from the answer, not the children that it includes. -/
def findRootCategories (isActive : Option Bool) : TreeReq (List (Id × Category)) :=
  .call (.findRootCategories isActive) settleTree

def findUnique (id : Id) : TreeReq (Option CategoryRecord) := .call (.findUnique id) settleTree

def childrenOf (parentId : Id) (isActive : Option Bool) : TreeReq (List (Id × Category)) :=
  .call (.findChildren parentId isActive) settleTree

/-- `Promise.all` of a request for each row, with the answers in the order of the rows. -/
def promiseAll (load : Id → TreeReq LoadedCategory) :
    List (Id × Category) → TreeReq (List LoadedCategory)
  | [] => return []
  | row :: rows => do
    let loaded ← load row.1
    let rest ← promiseAll load rows
    return loaded :: rest

/-- The category with everything below it, as many levels as given; a walk that goes deeper has
not ended. -/
def loadCategoryWithAllChildren (levels : Nat) (categoryId : Id) (isActive : Option Bool) :
    TreeReq LoadedCategory :=
  match levels with
  | 0 => throw .unfinished
  | levels + 1 => do
    let some category ← findUnique categoryId
      | return .null
    let children ← childrenOf categoryId isActive
    let childrenWithSubChildren ←
      promiseAll (fun child => loadCategoryWithAllChildren levels child isActive) children
    return .category categoryId category childrenWithSubChildren

def findTree (levels : Nat) (isActive : Option Bool) : TreeReq (List LoadedCategory) := do
  let rootCategories ← findRootCategories isActive
  promiseAll (fun root => loadCategoryWithAllChildren levels root isActive) rootCategories

end CategoriesRepository

/- `new CategoryResponseDto(category)` copies every property. -/
def CategoriesService.findTree (levels : Nat) (isActive : Option Bool) :
    TreeReq (List LoadedCategory) :=
  CategoriesRepository.findTree levels isActive

/-! What a forest holds. -/

mutual

def LoadedCategory.ids : LoadedCategory → List Id
  | .null => []
  | .category id _ children => id :: forestIds children

def forestIds : List LoadedCategory → List Id
  | [] => []
  | tree :: trees => tree.ids ++ forestIds trees

end

/-- The row of a category at the top of a tree. -/
def LoadedCategory.top : LoadedCategory → Option (Id × Category)
  | .null => none
  | .category id record _ => some (id, record.row)

/-- A category in the table stands right below its parent `above`, and so does everything below
it, siblings in the order of their `order` and then of their creation. -/
inductive Placed (db : Db) : Option Id → LoadedCategory → Prop where
  | category {above : Option Id} {id : Id} {row : Category} {children : List LoadedCategory}
      {rows : List (Id × Category)}
      (found : db.categories.find? id = some row) (under : row.parentId = above)
      (below : ∀ child ∈ children, Placed db (some id) child)
      (siblings : children.map LoadedCategory.top = rows.map some)
      (sorted : rows.Pairwise Prisma.categoryBefore) :
      Placed db above (.category id (Prisma.categoryRecord db.toTables false id row) children)

variable {db : Db} {isActive : Option Bool}

/-- A category that the filter lets through. -/
def Matches (db : Db) (isActive : Option Bool) (c : Id) : Prop :=
  ∃ row, db.categories.find? c = some row ∧ isActive.all (row.isActive == ·) = true

/-- `c` is `top`, or below it through categories that the filter lets through. -/
def Shown (db : Db) (isActive : Option Bool) (c top : Id) : Prop :=
  ReflTransGen (fun a b => db.parentOf a b ∧ Matches db isActive a) c top

theorem Shown.below {c top : Id} (h : Shown db isActive c top) : ReflTransGen db.parentOf c top :=
  ReflTransGen.mono (fun _ _ => And.left) _ _ h

theorem parentOf_unique : Relator.RightUnique db.parentOf := by
  rintro c p q ⟨row, found, above⟩ ⟨row', found', above'⟩
  cases found.symm.trans found'
  exact Option.some.inj (above.symm.trans above')

/-- Categories of one parent, or of none, have nothing below them in common. -/
theorem siblings_apart (tree : Tree db.toTables) {above : Option Id} {x y : Id}
    {rowx rowy : Category} (foundx : db.categories.find? x = some rowx)
    (foundy : db.categories.find? y = some rowy) (underx : rowx.parentId = above)
    (undery : rowy.parentId = above) {c : Id} (wayx : ReflTransGen db.parentOf c x)
    (wayy : ReflTransGen db.parentOf c y) : x = y := by
  have up {x y : Id} {rowx rowy : Category} (foundx : db.categories.find? x = some rowx)
      (foundy : db.categories.find? y = some rowy) (same : rowx.parentId = rowy.parentId)
      (way : ReflTransGen db.parentOf x y) : x = y := by
    rcases ReflTransGen.cases_head way with same | ⟨p, ⟨row, found, edge⟩, way⟩
    · exact same
    · cases foundx.symm.trans found
      exact absurd (TransGen.head' ⟨rowy, foundy, same.symm.trans edge⟩ way) (tree y)
  rcases ReflTransGen.total_of_right_unique parentOf_unique wayx wayy with way | way
  · exact up foundx foundy (underx.trans undery.symm) way
  · exact (up foundy foundx (undery.trans underx.symm) way).symm

namespace CategoriesRepository

theorem promiseAll_alone {load : Id → TreeReq LoadedCategory} {R : Id × Category → LoadedCategory → Prop}
    {rows : List (Id × Category)} (loads : ∀ row ∈ rows, ∃ tree,
      (load row.1).alone execTree db = (db, .ok tree) ∧ R row tree) :
    ∃ trees, (promiseAll load rows).alone execTree db = (db, .ok trees) ∧
      List.Forall₂ R rows trees := by
  induction rows with
  | nil => exact ⟨[], rfl, .nil⟩
  | cons row rows ih =>
    obtain ⟨tree, loaded, holds⟩ := loads row List.mem_cons_self
    obtain ⟨trees, rest, all⟩ := ih (fun r member => loads r (List.mem_cons_of_mem _ member))
    refine ⟨tree :: trees, ?_, .cons holds all⟩
    rw [promiseAll, Request.alone_bind, loaded]
    change (promiseAll load rows >>= _ : TreeReq (List LoadedCategory)).alone execTree db = _
    rw [Request.alone_bind, rest]
    rfl

end CategoriesRepository

/-- The tree of a row: it stands under `above`, with what is shown below the row, once. -/
structure Stands (db : Db) (isActive : Option Bool) (above : Option Id) (row : Id × Category)
    (tree : LoadedCategory) : Prop where
  top : tree.top = some row
  placed : Placed db above tree
  ids : ∀ c, c ∈ tree.ids ↔ Shown db isActive c row.1
  once : tree.ids.Nodup

/-- The trees of some siblings hold what is shown below the siblings, once. -/
theorem forest_stands (tree : Tree db.toTables) {above : Option Id} {rows : List (Id × Category)}
    {trees : List LoadedCategory} (all : List.Forall₂ (Stands db isActive above) rows trees)
    (unique : (rows.map Prod.fst).Nodup)
    (siblings : ∀ row ∈ rows, db.categories.find? row.1 = some row.2 ∧ row.2.parentId = above) :
    (∀ c, c ∈ forestIds trees ↔ ∃ row ∈ rows, Shown db isActive c row.1) ∧
      (forestIds trees).Nodup ∧ (∀ t ∈ trees, Placed db above t) ∧
      trees.map LoadedCategory.top = rows.map some := by
  induction all with
  | nil => simp [forestIds]
  | @cons row loaded rows trees here all ih =>
    rw [List.map_cons, List.nodup_cons] at unique
    obtain ⟨found, under⟩ := siblings row List.mem_cons_self
    obtain ⟨ids, once, placed, tops⟩ :=
      ih unique.2 (fun r member => siblings r (List.mem_cons_of_mem _ member))
    refine ⟨fun c => ?_, ?_, ?_, ?_⟩
    · rw [forestIds, List.mem_append, here.ids, ids, List.exists_mem_cons_iff]
    · rw [forestIds, List.nodup_append']
      refine ⟨here.once, once, fun c first later => ?_⟩
      obtain ⟨other, member, way⟩ := (ids c).mp later
      obtain ⟨found', under'⟩ := siblings other (List.mem_cons_of_mem _ member)
      have same := siblings_apart tree found found' under under' ((here.ids c).mp first).below
        way.below
      exact unique.1 (List.mem_map.mpr ⟨other, member, same.symm⟩)
    · rw [List.forall_mem_cons]
      exact ⟨here.placed, placed⟩
    · rw [List.map_cons, List.map_cons, here.top, tops]

/-- The answer of a query for categories: in order, each once. -/
theorem query_sorted (p : Id × Category → Bool) :
    ((db.categories.rows.filter p).insertionSort Prisma.categoryBefore).Pairwise
      Prisma.categoryBefore := by
  have total : Std.Total Prisma.categoryBefore := ⟨fun a b => by
    rcases lt_trichotomy a.2.order b.2.order with less | same | more
    · exact .inl (.inl less)
    · exact (Nat.le_total a.2.createdAt b.2.createdAt).imp (fun le => .inr ⟨same, le⟩)
        (fun le => .inr ⟨same.symm, le⟩)
    · exact .inr (.inl more)⟩
  have transitive : IsTrans (Id × Category) Prisma.categoryBefore := ⟨fun a b c => by
    rintro (less | ⟨same, le⟩) (less' | ⟨same', le'⟩)
    · exact .inl (less.trans less')
    · exact .inl (same' ▸ less)
    · exact .inl (same ▸ less')
    · exact .inr ⟨same.trans same', le.trans le'⟩⟩
  exact List.pairwise_insertionSort _ _

theorem query_unique (p : Id × Category → Bool) :
    (((db.categories.rows.filter p).insertionSort Prisma.categoryBefore).map Prod.fst).Nodup :=
  ((List.perm_insertionSort _ _).map Prod.fst).nodup_iff.mpr
    (db.categories.unique.sublist (List.filter_sublist.map Prod.fst))

theorem mem_rootCategories {root : Id × Category} :
    root ∈ Prisma.rootCategories db.toTables isActive ↔
      db.categories.find? root.1 = some root.2 ∧ root.2.parentId = none ∧
        isActive.all (root.2.isActive == ·) = true := by
  obtain ⟨c, row⟩ := root
  rw [Prisma.rootCategories, List.mem_insertionSort, List.mem_filter, Table.mem_rows,
    Bool.and_eq_true, decide_eq_true_eq]

open CategoriesRepository

/-- A category is loaded with what is shown below it, once. -/
theorem load_stands (tree : Tree db.toTables) {levels : Nat} {id : Id} {row : Category}
    (ends : Forest.Ends db.parentOf levels id) (found : db.categories.find? id = some row) :
    ∃ loaded,
      (loadCategoryWithAllChildren levels id isActive).alone execTree db = (db, .ok loaded) ∧
        Stands db isActive row.parentId (id, row) loaded := by
  induction levels generalizing id row with
  | zero => exact ends.elim
  | succ levels ih =>
    have children : ∀ child ∈ Prisma.childCategories db.toTables id isActive,
        ∃ loaded, (loadCategoryWithAllChildren levels child.1 isActive).alone execTree db =
          (db, .ok loaded) ∧ Stands db isActive (some id) child loaded := by
      intro child member
      obtain ⟨there, under, _⟩ := mem_childCategories.mp member
      have loads := ih (ends child.1 ⟨child.2, there, under⟩) there
      rwa [under] at loads
    obtain ⟨trees, loaded, all⟩ :=
      @promiseAll_alone db (fun child => loadCategoryWithAllChildren levels child isActive) _ _
        children
    obtain ⟨ids, once, placed, tops⟩ := forest_stands tree all (query_unique _)
      (fun child member => ⟨(mem_childCategories.mp member).1, (mem_childCategories.mp member).2.1⟩)
    refine ⟨.category id (Prisma.categoryRecord db.toTables false id row) trees, ?_, rfl,
      .category found rfl placed tops (query_sorted _), fun c => ?_, ?_⟩
    · have body : (findUnique id).alone execTree db =
          (db, .ok (some (Prisma.categoryRecord db.toTables false id row))) := by
        change (db, Except.ok ((db.categories.find? id).map _)) = _
        rw [found]
        rfl
      rw [loadCategoryWithAllChildren, Request.alone_bind, body]
      change (promiseAll (fun child => loadCategoryWithAllChildren levels child isActive)
        (Prisma.childCategories db.toTables id isActive) >>= _ :
          TreeReq LoadedCategory).alone execTree db = _
      rw [Request.alone_bind, loaded]
      rfl
    · rw [LoadedCategory.ids, List.mem_cons, ids, Shown, ReflTransGen.cases_tail_iff, @eq_comm _ id]
      refine or_congr_right ⟨?_, ?_⟩
      · rintro ⟨child, member, way⟩
        obtain ⟨there, under, matching⟩ := mem_childCategories.mp member
        exact ⟨child.1, way, ⟨child.2, there, under⟩, child.2, there, matching⟩
      · rintro ⟨child, way, ⟨row', there, under⟩, row'', there', matching⟩
        cases there.symm.trans there'
        exact ⟨(child, row'), mem_childCategories.mpr ⟨there, under, matching⟩, way⟩
    · rw [LoadedCategory.ids, List.nodup_cons]
      refine ⟨fun again => ?_, once⟩
      obtain ⟨child, member, way⟩ := (ids id).mp again
      obtain ⟨there, under, _⟩ := mem_childCategories.mp member
      exact tree id (TransGen.tail' way.below ⟨child.2, there, under⟩)

/-- The forest that `findTree` answers. -/
structure WholeForest (db : Db) (isActive : Option Bool) (forest : List LoadedCategory) : Prop where
  shown : ∀ c, c ∈ forestIds forest ↔
    ∀ a, ReflTransGen db.parentOf c a → Matches db isActive a
  all : isActive = none → ∀ c, c ∈ forestIds forest ↔ db.categories.has c = true
  once : (forestIds forest).Nodup
  placed : ∀ t ∈ forest, Placed db none t
  sorted : ∃ roots : List (Id × Category), forest.map LoadedCategory.top = roots.map some ∧
    roots.Pairwise Prisma.categoryBefore

theorem Shown.ancestors {c root : Id} {row : Category} (way : Shown db isActive c root)
    (found : db.categories.find? root = some row) (top : row.parentId = none)
    (matching : isActive.all (row.isActive == ·) = true) {a : Id}
    (above : ReflTransGen db.parentOf c a) : Matches db isActive a := by
  induction way using ReflTransGen.head_induction_on with
  | refl =>
    rcases ReflTransGen.cases_head above with rfl | ⟨q, ⟨row', found', edge⟩, _⟩
    · exact ⟨row, found, matching⟩
    · cases found.symm.trans found'
      cases top.symm.trans edge
  | @head c d step _ ih =>
    rcases ReflTransGen.cases_head above with rfl | ⟨q, edge, above⟩
    · exact step.2
    · cases parentOf_unique step.1 edge
      exact ih above

/-- A category is shown below a root if the filter lets through everything above it. -/
theorem shown_of_ancestors {levels : Nat} {c : Id}
    (ends : Forest.Ends (Function.swap db.parentOf) levels c)
    (matching : ∀ a, ReflTransGen db.parentOf c a → Matches db isActive a) :
    ∃ root ∈ Prisma.rootCategories db.toTables isActive, Shown db isActive c root.1 := by
  induction levels generalizing c with
  | zero => exact ends.elim
  | succ levels ih =>
    obtain ⟨row, found, here⟩ := matching c .refl
    cases above : row.parentId with
    | none => exact ⟨(c, row), mem_rootCategories.mpr ⟨found, above, here⟩, .refl⟩
    | some q =>
      have edge : db.parentOf c q := ⟨row, found, above⟩
      obtain ⟨root, member, way⟩ := ih (ends q edge) (fun a up => matching a (.head edge up))
      exact ⟨root, member, .head ⟨edge, row, found, here⟩ way⟩

theorem Tree.way_up_ends (tree : Tree db.toTables) (c : Id) :
    Forest.Ends (Function.swap db.parentOf) (db.categories.rows.length + 1) c := by
  have acyclic : Forest.Acyclic (Function.swap db.parentOf) :=
    fun k cycle => tree k (transGen_swap.mp cycle)
  have known (a b : Id) : Function.swap db.parentOf a b → a ∈ db.categories.rows.map Prod.fst := by
    rintro ⟨row, found, above⟩
    obtain ⟨parent, there⟩ := Table.has_iff.mp (db.linked.parent b row found a above)
    exact List.mem_map.mpr ⟨(a, parent), (Table.mem_rows _).mpr there, rfl⟩
  exact acyclic.ends known (by simp) c

/-- The forest holds every category that the filter lets through with everything above it, once
and under its parent. -/
theorem findTree_whole (tree : Tree db.toTables) (isActive : Option Bool) {levels : Nat}
    (enough : db.categories.rows.length < levels) : ∃ forest,
    (CategoriesService.findTree levels isActive).alone execTree db = (db, .ok forest) ∧
      WholeForest db isActive forest := by
  have roots : ∀ root ∈ Prisma.rootCategories db.toTables isActive,
      ∃ loaded, (loadCategoryWithAllChildren levels root.1 isActive).alone execTree db =
        (db, .ok loaded) ∧ Stands db isActive none root loaded := by
    intro root member
    obtain ⟨found, top, _⟩ := mem_rootCategories.mp member
    have loads := @load_stands db isActive tree levels root.1 root.2 (tree.walk_ends enough _) found
    rwa [top] at loads
  obtain ⟨trees, loaded, all⟩ :=
    @promiseAll_alone db (fun root => loadCategoryWithAllChildren levels root isActive) _ _ roots
  obtain ⟨ids, once, placed, tops⟩ := forest_stands tree all (query_unique _)
    (fun root member => ⟨(mem_rootCategories.mp member).1, (mem_rootCategories.mp member).2.1⟩)
  have shown (c : Id) : c ∈ forestIds trees ↔
      ∀ a, ReflTransGen db.parentOf c a → Matches db isActive a := by
    rw [ids]
    constructor
    · rintro ⟨root, member, way⟩ a above
      obtain ⟨found, top, matching⟩ := mem_rootCategories.mp member
      exact way.ancestors found top matching above
    · exact fun matching => shown_of_ancestors (tree.way_up_ends c) matching
  refine ⟨trees, loaded, shown, ?_, once, placed, _, tops, query_sorted _⟩
  rintro rfl c
  rw [shown, Table.has_iff]
  constructor
  · intro matching
    obtain ⟨row, found, _⟩ := matching c .refl
    exact ⟨row, found⟩
  · rintro ⟨row, found⟩ a above
    rcases ReflTransGen.cases_tail above with rfl | ⟨b, _, row', found', edge⟩
    · exact ⟨row, found, rfl⟩
    · obtain ⟨parent, there⟩ := Table.has_iff.mp (db.linked.parent b row' found' a edge)
      exact ⟨parent, there, rfl⟩

theorem findTree_whole_shelves : ∃ forest,
    (CategoriesService.findTree 6 (some true)).alone execTree shelves = (shelves, .ok forest) ∧
      WholeForest shelves (some true) forest :=
  findTree_whole shelves_tree (some true) (by decide)

end SecondhandApi
