import SecondhandApi.CategoryTree

/-! The walk of `isDescendant` down a tree of categories: that it ends, what it finds, and what
`update` makes of it. -/
namespace SecondhandApi
open Keyed Interleaving Relation

variable {db : Db}

theorem mem_childCategories {parentId : Id} {isActive : Option Bool} {child : Id × Category} :
    child ∈ Prisma.childCategories db.toTables parentId isActive ↔
      db.categories.find? child.1 = some child.2 ∧ child.2.parentId = some parentId ∧
        isActive.all (child.2.isActive == ·) = true := by
  obtain ⟨c, row⟩ := child
  rw [Prisma.childCategories, List.mem_insertionSort, List.mem_filter, Table.mem_rows,
    Bool.and_eq_true, decide_eq_true_eq]

theorem parentOf_iff_child {c q : Id} :
    db.parentOf c q ↔ ∃ child ∈ Prisma.childCategories db.toTables q none, child.1 = c := by
  constructor
  · rintro ⟨row, found, above⟩
    exact ⟨(c, row), mem_childCategories.mpr ⟨found, above, rfl⟩, rfl⟩
  · rintro ⟨child, member, rfl⟩
    obtain ⟨found, above, _⟩ := mem_childCategories.mp member
    exact ⟨child.2, found, above⟩

theorem Tree.walk_ends (tree : Tree db.toTables) {levels : Nat}
    (enough : db.categories.rows.length < levels) (c : Id) : Forest.Ends db.parentOf levels c := by
  have known (a b : Id) : db.parentOf a b → a ∈ db.categories.rows.map Prod.fst := by
    rintro ⟨row, found, _⟩
    exact List.mem_map.mpr ⟨(a, row), (Table.mem_rows _).mpr found, rfl⟩
  exact Forest.Acyclic.ends tree known (by simpa) c

namespace CategoriesService
open CategoriesRepository (findById)

/-- A walk answers whether `c` stands above `t`, unless `c` has more levels below it. -/
def Answers (db : Db) (t c : Id) (ended : Prop) (r : Db × Except ApiError Bool) : Prop :=
  (∃ below, r = (db, .ok below) ∧ (below = true ↔ TransGen db.parentOf t c)) ∨
  r = (db, .error .unfinished) ∧ ¬ ended

theorem anyDescendant_alone {walk : Id → CategoryReq Bool} {t : Id} {ended : Id → Prop}
    {children : List (Id × Category)} (walks : ∀ child ∈ children,
      Answers db t child.1 (ended child.1) ((walk child.1).alone execCategory db)) :
    (∃ below, (anyDescendant walk t children).alone execCategory db = (db, .ok below) ∧
      (below = true ↔ ∃ child ∈ children, ReflTransGen db.parentOf t child.1)) ∨
    (anyDescendant walk t children).alone execCategory db = (db, .error .unfinished) ∧
      ∃ child ∈ children, ¬ ended child.1 := by
  induction children with
  | nil => exact .inl ⟨false, rfl, by simp⟩
  | cons child children ih =>
    rw [anyDescendant]
    by_cases same : child.1 = t
    · exact .inl ⟨true, by rw [if_pos same]; rfl, by simp [same, ReflTransGen.refl]⟩
    rw [if_neg same]
    change (∃ b, ((walk child.1 >>= _).alone execCategory db) = _ ∧ _) ∨
      ((walk child.1 >>= _).alone execCategory db) = _ ∧ _
    rw [Request.alone_bind]
    have later := ih (fun c member => walks c (List.mem_cons_of_mem _ member))
    rcases walks child List.mem_cons_self with ⟨below, walked, found⟩ | ⟨walked, deep⟩
    · rw [walked]
      have way : ReflTransGen db.parentOf t child.1 ↔ below = true := by
        rw [found, reflTransGen_iff_eq_or_transGen]
        exact or_iff_right same
      simp only [List.exists_mem_cons_iff, way]
      cases below with
      | true => exact .inl ⟨true, rfl, by simp⟩
      | false =>
        rcases later with ⟨rest, rested, inRest⟩ | ⟨rested, c, member, deep⟩
        · exact .inl ⟨rest, rested, by simp [inRest]⟩
        · exact .inr ⟨rested, .inr ⟨c, member, deep⟩⟩
    · rw [walked]
      exact .inr ⟨rfl, child, List.mem_cons_self, deep⟩

theorem isDescendant_alone (levels : Nat) (c t : Id) :
    Answers db t c (Forest.Ends db.parentOf levels c)
      ((isDescendant levels c t).alone execCategory db) := by
  induction levels generalizing c with
  | zero => exact .inr ⟨rfl, fun ends => ends⟩
  | succ levels ih =>
    have children {child : Id} : db.parentOf child c ↔
        ∃ row ∈ Prisma.childCategories db.toTables c none, row.1 = child := parentOf_iff_child
    rcases @anyDescendant_alone db (fun child => isDescendant levels child t) t _ _
        (fun child (_ : child ∈ Prisma.childCategories db.toTables c none) => ih child.1) with
      ⟨below, walked, found⟩ | ⟨walked, child, member, deep⟩
    · refine .inl ⟨below, walked, found.trans ?_⟩
      rw [TransGen.tail'_iff]
      constructor
      · rintro ⟨child, member, way⟩
        exact ⟨child.1, way, children.mpr ⟨child, member, rfl⟩⟩
      · rintro ⟨child, way, edge⟩
        obtain ⟨row, member, rfl⟩ := children.mp edge
        exact ⟨row, member, way⟩
    · exact .inr ⟨walked, fun ends => deep (ends child.1 (children.mpr ⟨child, member, rfl⟩))⟩

@[simp] theorem findById_alone (id : Id) (includeChildren : Bool) :
    (findById id includeChildren).alone execCategory db =
      (db, .ok ((db.categories.find? id).map
        (Prisma.categoryRecord db.toTables includeChildren id))) := rfl

/- A category that may get children. -/
def OpenParent (db : Db) (p : Id) : Prop :=
  ∃ parent, db.categories.find? p = some parent ∧ parent.isActive = true

theorem activeParent_alone (p : Id) :
    (activeParent p).alone execCategory db = (db, .ok ()) ∧ OpenParent db p ∨
    ∃ e, (activeParent p).alone execCategory db = (db, .error e) ∧ ¬ OpenParent db p := by
  rw [activeParent, Request.alone_bind, findById_alone]
  cases found : db.categories.find? p with
  | none => exact .inr ⟨_, rfl, fun ⟨parent, there, _⟩ => by simp [found] at there⟩
  | some parent =>
    change ((if !parent.isActive then _ else _ : CategoryReq Unit).alone execCategory db) = _ ∧ _ ∨
      ∃ e, ((if !parent.isActive then _ else _ : CategoryReq Unit).alone execCategory db) = _ ∧ _
    cases active : parent.isActive with
    | true => exact .inl ⟨rfl, parent, found, active⟩
    | false =>
      refine .inr ⟨_, rfl, ?_⟩
      rintro ⟨parent', there, active'⟩
      cases found.symm.trans there
      cases active.symm.trans active'

/-- The errors of a category that would stand above itself. -/
def CircularReference (e : ApiError) : Prop :=
  e = .badRequest "자기 자신을 부모 카테고리로 설정할 수 없습니다" ∨
  e = .badRequest "하위 카테고리를 부모로 설정할 수 없습니다 (순환 참조)"

/-- The checks refuse a parent that is the category or stands below it, with an error of their
own, and let another one through if it may have children. -/
theorem newParent_alone (levels : Nat) (id p : Id) :
    (newParent levels id p).alone execCategory db = (db, .ok ()) ∧
      ¬ ReflTransGen db.parentOf p id ∨
    ∃ e, (newParent levels id p).alone execCategory db = (db, .error e) ∧
      (CircularReference e ∧ ReflTransGen db.parentOf p id ∨ ¬ OpenParent db p ∨
        ¬ Forest.Ends db.parentOf levels id) := by
  by_cases same : p = id
  · refine .inr ⟨.badRequest "자기 자신을 부모 카테고리로 설정할 수 없습니다", ?_,
      .inl ⟨.inl rfl, same ▸ .refl⟩⟩
    rw [newParent, if_pos same]
    rfl
  rw [newParent, if_neg same]
  change (activeParent p >>= _ : CategoryReq Unit).alone execCategory db = _ ∧ _ ∨
    ∃ e, (activeParent p >>= _ : CategoryReq Unit).alone execCategory db = _ ∧ _
  rw [Request.alone_bind]
  rcases @activeParent_alone db p with ⟨checked, _⟩ | ⟨e, refused, closed⟩
  · rw [checked]
    change (isDescendant levels id p >>= _ : CategoryReq Unit).alone execCategory db = _ ∧ _ ∨
      ∃ e, (isDescendant levels id p >>= _ : CategoryReq Unit).alone execCategory db = _ ∧ _
    rw [Request.alone_bind]
    rcases @isDescendant_alone db levels id p with ⟨below, walked, found⟩ | ⟨walked, deep⟩
    · have way : ReflTransGen db.parentOf p id ↔ below = true := by
        rw [found, reflTransGen_iff_eq_or_transGen]
        exact or_iff_right (fun h => same h.symm)
      rw [walked, way]
      cases below with
      | true => exact .inr ⟨_, rfl, .inl ⟨.inr rfl, rfl⟩⟩
      | false => exact .inl ⟨rfl, Bool.false_ne_true⟩
    · rw [walked]
      exact .inr ⟨_, rfl, .inr (.inr deep)⟩
  · rw [refused]
    exact .inr ⟨e, rfl, .inr (.inl closed)⟩

theorem write_alone {id p : Id} {row : Category} (found : db.categories.find? id = some row)
    (known : db.categories.has p = true) :
    ((CategoriesRepository.update id { parent := .value p }).alone execCategory db).2 =
      .ok { row with parentId := some p } := by
  have written : Prisma.categoryUpdate db.toTables id { parent := .value p } =
      .ok (db.toTables.withCategories (db.categories.set id { row with parentId := some p }),
        { row with parentId := some p }) := by
    simp [Prisma.categoryUpdate, found, CategoryUpdateInput.apply, Field.required, Field.nullable,
      Field.fitsInt, Prisma.categoryMissing, known, Prisma.categoryNameTaken, Prisma.slugTaken]
  have answered : (execCategory (.update id { parent := .value p }) db).2 =
      .ok { row with parentId := some p } := by
    change (commit db.toTables (Prisma.categoryUpdate db.toTables id _)).2 = _
    rw [written]
    rfl
  change (Request.alone execCategory (settleCategory (A := Category)
    (execCategory (.update id { parent := .value p }) db).2) _).2 = _
  rw [answered]
  rfl

/-- An update of the parent alone makes the checks on it and writes. -/
theorem update_alone {levels : Nat} {id p : Id} {row : Category}
    (found : db.categories.find? id = some row) :
    (update levels id { parentId := .value p }).alone execCategory db =
      (do newParent levels id p
          CategoriesRepository.update id { parent := .value p } : CategoryReq Category).alone
        execCategory db := by
  rw [update, Request.alone_bind, findById_alone, found]
  rfl

/-- An update of the parent is refused for a cycle exactly when it would close one. -/
theorem update_circular_iff (tree : Tree db.toTables) {levels : Nat} {id p : Id} {row : Category}
    (found : db.categories.find? id = some row) (parent : OpenParent db p)
    (ends : Forest.Ends db.parentOf levels id) :
    let answer := ((update levels id { parentId := .value p }).alone execCategory db).2
    let moved := db.toTables.withCategories (db.categories.set id { row with parentId := some p })
    ((∃ e, answer = .error e ∧ CircularReference e) ↔ ¬ Tree moved) ∧
      (Tree moved → answer = .ok { row with parentId := some p }) := by
  obtain ⟨above, there, active⟩ := parent
  have known : db.categories.has p = true := Table.has_iff.mpr ⟨above, there⟩
  have written : CategoryUpdateInput.apply { parent := .value p } row =
      some { row with parentId := some p } := rfl
  have moves : Tree (db.toTables.withCategories
      (db.categories.set id { row with parentId := some p })) ↔
      ¬ ReflTransGen db.parentOf p id := by
    rw [tree_set tree found written]
    exact ⟨fun apart => apart p rfl, fun apart q asked => by cases asked; exact apart⟩
  intro answer moved
  rw [moves, not_not]
  change ((∃ e, ((update levels id _).alone execCategory db).2 = _ ∧ _) ↔ _) ∧
    (_ → ((update levels id _).alone execCategory db).2 = _)
  rw [update_alone found, Request.alone_bind]
  rcases @newParent_alone db levels id p with ⟨checked, apart⟩ | ⟨e, refused, why⟩
  · rw [checked]
    have ok := write_alone found known
    refine ⟨iff_of_false ?_ apart, fun _ => ok⟩
    rintro ⟨e, failed, _⟩
    cases ok.symm.trans failed
  · rw [refused]
    rcases why with ⟨circular, way⟩ | closed | deep
    · exact ⟨iff_of_true ⟨e, rfl, circular⟩ way, fun apart => absurd way apart⟩
    · exact absurd ⟨above, there, active⟩ closed
    · exact absurd ends deep

/-! What an operation, alone, leaves of the tree. -/

def LeavesTree {A : Type} (db : Db) (p : CategoryReq A) : Prop :=
  Tree (p.alone execCategory db).1.toTables

theorem LeavesTree.after {A B : Type} {p : CategoryReq A} {f : A → CategoryReq B}
    (reads : (p.alone execCategory db).1 = db) (tree : Tree db.toTables)
    (goes : ∀ a, LeavesTree db (f a)) : LeavesTree db (p >>= f) :=
  Request.alone_after execCategory (P := fun s => Tree s.toTables) reads tree goes

theorem LeavesTree.map {A B : Type} {p : CategoryReq A} (h : LeavesTree db p) (f : A → B) :
    LeavesTree db (f <$> p) := by
  rw [LeavesTree, Request.alone_map]
  exact h

theorem await_tree (tree : Tree db.toTables) {c : CategoryCall}
    (apart : ∀ id data p, c = .update id data → data.parent = .value p →
      ¬ ReflTransGen db.parentOf p id) : LeavesTree db (awaitCategory c) := by
  have store : ((awaitCategory c).alone execCategory db).1 = (execCategory c db).1 := by
    change ((settleCategory (execCategory c db).2).alone execCategory (execCategory c db).1).1 = _
    cases (execCategory c db).2 with
    | ok r => rfl
    | error e => rfl
  rw [LeavesTree, store]
  refine (tree_call c tree).mpr ?_
  cases c with
  | update id data => exact fun _ p asked => apart id data p rfl asked
  | _ => trivial

theorem create_tree (tree : Tree db.toTables) (dto : CreateCategoryDto) (id : Id) (now : Date) :
    LeavesTree db (create dto id now) := by
  have write (data : CategoryCreateInput) : LeavesTree db (CategoriesRepository.create id now data) :=
    await_tree tree (fun _ _ _ other => nomatch other)
  refine .after rfl tree fun existingName => ?_
  cases existingName with
  | true => exact tree
  | false =>
    refine .after rfl tree fun existingSlug => ?_
    cases existingSlug with
    | true => exact tree
    | false =>
      cases dto.parentId.ifTruthy nonempty with
      | value parentId =>
        refine .after ?_ tree fun _ => write _
        rcases @activeParent_alone db parentId with ⟨checked, _⟩ | ⟨e, refused, _⟩
        · rw [checked]
        · rw [refused]
      | _ => exact write _

/-- The check that a new name or slug is free, in front of the rest of an update. -/
theorem unique_tree (tree : Tree db.toTables) {asked : Field String} {old : String}
    {taken : String → CategoryReq Bool} {rest : Unit → CategoryReq Category} {e : ApiError}
    (reads : ∀ text, ((taken text).alone execCategory db).1 = db) (goes : LeavesTree db (rest ())) :
    LeavesTree db (match asked with
      | .value text =>
        if text ≠ old then do
          let found ← taken text
          if found then do
            let u ← throw e
            rest u
          else rest ()
        else rest ()
      | _ => rest ()) := by
  cases asked with
  | value text =>
    change LeavesTree db (if text ≠ old then _ else _)
    split_ifs with same
    · refine .after (reads text) tree fun found => ?_
      cases found with
      | true => exact tree
      | false => exact goes
    · exact goes
  | _ => exact goes

theorem update_tree (tree : Tree db.toTables) (levels : Nat) (id : Id) (dto : UpdateCategoryDto) :
    LeavesTree db (update levels id dto) := by
  refine .after rfl tree fun existing => ?_
  cases existing with
  | none => exact tree
  | some existing =>
    refine unique_tree tree (fun _ => rfl) (unique_tree tree (fun _ => rfl) ?_)
    have write {data : CategoryUpdateInput}
        (apart : ∀ p, data.parent = .value p → ¬ ReflTransGen db.parentOf p id) :
        LeavesTree db (CategoriesRepository.update id data) :=
      await_tree tree fun _ _ p here put => by cases here; exact apart p put
    cases asked : dto.parentId with
    | value p =>
      change LeavesTree db (newParent levels id p >>= fun _ => CategoriesRepository.update id _)
      rw [LeavesTree, Request.alone_bind]
      rcases @newParent_alone db levels id p with ⟨checked, apart⟩ | ⟨e, refused, _⟩
      · rw [checked]
        exact write fun q put => by cases put; exact apart
      · rw [refused]
        exact tree
    | undefined => exact write (fun _ put => nomatch put)
    | null => exact write (fun _ put => nomatch put)

theorem remove_tree (tree : Tree db.toTables) (id : Id) : LeavesTree db (remove id) := by
  refine .after rfl tree fun found => ?_
  cases found with
  | none => exact tree
  | some category =>
    have last : LeavesTree db (if category.productCount > 0 then
        throw (.badRequest "상품이 등록된 카테고리는 삭제할 수 없습니다")
      else (fun _ => ()) <$> CategoriesRepository.delete id) := by
      by_cases sold : category.productCount > 0
      · rw [if_pos sold]
        exact tree
      · rw [if_neg sold]
        refine (await_tree tree fun id data p same => ?_).map _
        cases same
    change LeavesTree db (if category.children.any (fun children => !children.isEmpty) then _ else _)
    by_cases above : category.children.any (fun children => !children.isEmpty) = true
    · rw [if_pos above]
      exact tree
    · rw [if_neg above]
      exact last

theorem updateOrder_tree (tree : Tree db.toTables) (id : Id) (order : Int) :
    LeavesTree db (updateOrder id order) := by
  refine .after rfl tree fun found => ?_
  cases found with
  | none => exact tree
  | some category => exact await_tree tree (fun _ _ _ same put => by cases same; cases put)

end CategoriesService

open CategoriesService in
theorem sequential_tree (tree : Tree db.toTables) (op : CategoryOp) :
    Tree (categoryService.sequential db op).toTables := by
  change LeavesTree db op.program
  cases op with
  | create dto id now => exact (create_tree tree dto id now).map _
  | update levels id dto => exact (update_tree tree levels id dto).map _
  | remove id => exact (remove_tree tree id).map _
  | updateOrder id order => exact (updateOrder_tree tree id order).map _
  | findOne id includeChildren =>
    refine LeavesTree.map (.after rfl tree fun found => ?_) _
    cases found <;> exact tree
  | findBySlug slug includeChildren =>
    refine LeavesTree.map (.after rfl tree fun found => ?_) _
    cases found <;> exact tree
  | findChildren parentId isActive =>
    refine LeavesTree.map (.after rfl tree fun found => ?_) _
    cases found <;> exact tree

/-- What the checks on parents are for: the walk ends, with whether one category stands above
the other, an update is refused for its parent exactly when it would close a cycle, and there is
no cycle after any operations, one after another. -/
structure CycleFree (db : Db) : Prop where
  isDescendant : ∀ c t levels, db.categories.rows.length < levels → ∃ below,
    (CategoriesService.isDescendant levels c t).alone execCategory db = (db, .ok below) ∧
      (below = true ↔ TransGen db.parentOf t c)
  update : ∀ id p row parent levels, db.categories.find? id = some row →
    db.categories.find? p = some parent → parent.isActive = true →
    db.categories.rows.length < levels →
    let answer :=
      ((CategoriesService.update levels id { parentId := .value p }).alone execCategory db).2
    let moved :=
      db.toTables.withCategories (db.categories.set id { row with parentId := some p })
    ((∃ e, answer = .error e ∧ CategoriesService.CircularReference e) ↔ ¬ Tree moved) ∧
      (Tree moved → answer = .ok { row with parentId := some p })
  runs : ∀ ops, ∀ s ∈ visited categoryService.sequential db ops, Tree s.toTables

theorem cycleFree (tree : Tree db.toTables) : CycleFree db where
  isDescendant c t levels enough := by
    rcases @CategoriesService.isDescendant_alone db levels c t with answered | ⟨_, deep⟩
    · exact answered
    · exact absurd (tree.walk_ends enough c) deep
  update id p row parent levels found above active enough :=
    CategoriesService.update_circular_iff tree found ⟨parent, above, active⟩
      (tree.walk_ends enough id)
  runs ops := by
    have along : Along categoryService.sequential (fun _ _ => True) db ops :=
      along_of_forall (fun _ _ => trivial)
    exact visited_invariant (I := fun s => Tree s.toTables)
      (fun s op kept _ => sequential_tree kept op) tree along

/-- Five categories, three levels deep. -/
theorem cycleFree_shelves : CycleFree shelves := cycleFree shelves_tree

end SecondhandApi
