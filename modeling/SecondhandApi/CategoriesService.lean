import Mathlib.Data.List.Sort
import SecondhandApi.Integrity
import SecondhandApi.UsersService

/-! `src/modules/categories`: the Prisma calls of the repository and the service, method by
method. -/
namespace SecondhandApi
open Keyed Interleaving

structure CreateCategoryDto where
  name : String
  slug : String
  icon : Field String := .undefined
  parentId : Field Id := .undefined
  order : Field Nat := .undefined
  isActive : Field Bool := .undefined

/- `PartialType` of the same. -/
structure UpdateCategoryDto where
  name : Field String := .undefined
  slug : Field String := .undefined
  icon : Field String := .undefined
  parentId : Field Id := .undefined
  order : Field Nat := .undefined
  isActive : Field Bool := .undefined

/- A parent is connected, disconnected (null) or left as it is. -/
structure CategoryCreateInput where
  name : String
  slug : String
  parent : Field Id
  icon : Field String
  order : Field Int
  isActive : Field Bool

structure CategoryUpdateInput where
  name : Field String := .undefined
  slug : Field String := .undefined
  parent : Field Id := .undefined
  icon : Field String := .undefined
  order : Field Int := .undefined
  isActive : Field Bool := .undefined

/- What `findById` and `findBySlug` answer besides the row. -/
structure CategoryRecord where
  row : Category
  children : Option (List (Id × Category))
  productCount : Nat
  childCount : Nat

def Field.fitsInt : Field Int → Bool
  | .value n => SecondhandApi.fitsInt n
  | _ => true

/-- A new row has the defaults of the schema; null in a required column is refused. -/
def CategoryCreateInput.row (data : CategoryCreateInput) (now : Date) : Option Category := do
  let order ← data.order.required 0
  let isActive ← data.isActive.required true
  some { name := data.name
         slug := data.slug
         icon := data.icon.orNull
         order := order
         isActive := isActive
         createdAt := now
         parentId := data.parent.orNull }

def CategoryUpdateInput.apply (data : CategoryUpdateInput) (row : Category) : Option Category := do
  let name ← data.name.required row.name
  let slug ← data.slug.required row.slug
  let order ← data.order.required row.order
  let isActive ← data.isActive.required row.isActive
  some { row with
    name := name
    slug := slug
    icon := data.icon.nullable row.icon
    order := order
    isActive := isActive
    parentId := data.parent.nullable row.parentId }

namespace Prisma

def categoryNameTaken (db : Tables) (id : Id) : Field String → Bool
  | .value name => db.categories.any (fun i c => i ≠ id && c.name = name)
  | _ => false

def slugTaken (db : Tables) (id : Id) : Field String → Bool
  | .value slug => db.categories.any (fun i c => i ≠ id && c.slug = slug)
  | _ => false

/- `orderBy: [{ order: 'asc' }, { createdAt: 'asc' }]`. -/
def categoryBefore (a b : Id × Category) : Prop :=
  a.2.order < b.2.order ∨ a.2.order = b.2.order ∧ a.2.createdAt ≤ b.2.createdAt

instance : DecidableRel categoryBefore :=
  fun a b => inferInstanceAs (Decidable (a.2.order < b.2.order ∨ _))

/- `where: { parentId }`, with `isActive` when it is given. -/
def childCategories (db : Tables) (parentId : Id) (isActive : Option Bool) :
    List (Id × Category) :=
  (db.categories.rows.filter (fun row =>
    row.2.parentId = some parentId && isActive.all (row.2.isActive == ·))).insertionSort
      categoryBefore

def categoryRecord (db : Tables) (includeChildren : Bool) (id : Id) (row : Category) :
    CategoryRecord :=
  let children := db.categories.rows.filter (fun c => c.2.parentId = some id)
  { row := row
    children := if includeChildren then some children else none
    productCount := (db.products.rows.filter (fun p => p.2.categoryId = id)).length
    childCount := children.length }

def categoryCreate (db : Tables) (id : Id) (now : Date) (data : CategoryCreateInput) :
    Except PrismaError (Tables × Category) :=
  match data.row now with
  | none => .error .invalidValue
  | some row =>
    if !data.order.fitsInt then .error .invalidValue
    else if categoryMissing db data.parent then .error .recordNotFound
    else if db.categories.has id || categoryNameTaken db id (.value data.name) ||
        slugTaken db id (.value data.slug) then .error .uniqueViolation
    else .ok (db.withCategories (db.categories.insert id row), row)

def categoryUpdate (db : Tables) (id : Id) (data : CategoryUpdateInput) :
    Except PrismaError (Tables × Category) :=
  match db.categories.find? id with
  | none => .error .recordNotFound
  | some row =>
    match data.apply row with
    | none => .error .invalidValue
    | some new =>
      if !data.order.fitsInt then .error .invalidValue
      else if categoryMissing db data.parent then .error .recordNotFound
      else if categoryNameTaken db id data.name || slugTaken db id data.slug then
        .error .uniqueViolation
      else .ok (db.withCategories (db.categories.set id new), new)

/- The children of a deleted category become roots (`ON DELETE SET NULL`). -/
def orphaned (id : Id) (row : Category) : Category :=
  if row.parentId = some id then { row with parentId := none } else row

def withoutCategory (db : Tables) (id : Id) : Tables :=
  db.withCategories ((db.categories.erase id).modifyAll (fun _ => orphaned id))

/- Products keep their category from being deleted (`ON DELETE RESTRICT`). -/
def categoryDelete (db : Tables) (id : Id) : Except PrismaError (Tables × Category) :=
  match db.categories.find? id with
  | none => .error .recordNotFound
  | some row =>
    if db.products.any (fun _ p => p.categoryId = id) then .error .restricted
    else .ok (withoutCategory db id, row)

end Prisma

inductive CategoryCall where
  | findById (id : Id) (includeChildren : Bool)
  | findBySlug (slug : String) (includeChildren : Bool)
  | findUniqueName (name : String)
  | findUniqueSlug (slug : String)
  | findChildren (parentId : Id) (isActive : Option Bool)
  | create (id : Id) (now : Date) (data : CategoryCreateInput)
  | update (id : Id) (data : CategoryUpdateInput)
  | delete (id : Id)

def CategoryCall.Result : CategoryCall → Type
  | .findById _ _ => Option CategoryRecord
  | .findBySlug _ _ => Option (Id × CategoryRecord)
  | .findUniqueName _ => Option (Id × Category)
  | .findUniqueSlug _ => Option (Id × Category)
  | .findChildren _ _ => List (Id × Category)
  | .create _ _ _ => Category
  | .update _ _ => Category
  | .delete _ => Category

abbrev CategoryCall.Reply (c : CategoryCall) : Type := Except PrismaError c.Result

def Tables.execCategory (db : Tables) : (c : CategoryCall) → Tables × c.Reply
  | .findById id includeChildren =>
    (db, .ok ((db.categories.find? id).map (Prisma.categoryRecord db includeChildren id)))
  | .findBySlug slug includeChildren =>
    (db, .ok ((db.categories.findBy (fun c => c.slug = slug)).map
      (fun row => (row.1, Prisma.categoryRecord db includeChildren row.1 row.2))))
  | .findUniqueName name => (db, .ok (db.categories.findBy (fun c => c.name = name)))
  | .findUniqueSlug slug => (db, .ok (db.categories.findBy (fun c => c.slug = slug)))
  | .findChildren parentId isActive => (db, .ok (Prisma.childCategories db parentId isActive))
  | .create id now data => commit db (Prisma.categoryCreate db id now data)
  | .update id data => commit db (Prisma.categoryUpdate db id data)
  | .delete id => commit db (Prisma.categoryDelete db id)

/-! What an accepted write did, and that it keeps the references good. -/

theorem CategoryCreateInput.row_parent {data : CategoryCreateInput} {now : Date} {row : Category}
    (h : data.row now = some row) : row.parentId = data.parent.orNull := by
  simp only [CategoryCreateInput.row, Option.bind_eq_bind, Option.bind_eq_some_iff] at h
  obtain ⟨order, _, isActive, _, made⟩ := h
  cases made
  rfl

theorem CategoryUpdateInput.apply_parent {data : CategoryUpdateInput} {row new : Category}
    (h : data.apply row = some new) : new.parentId = data.parent.nullable row.parentId := by
  simp only [CategoryUpdateInput.apply, Option.bind_eq_bind, Option.bind_eq_some_iff] at h
  obtain ⟨name, _, slug, _, order, _, isActive, _, made⟩ := h
  cases made
  rfl

namespace Prisma

variable {db db' : Tables} {id : Id} {now : Date}

/-- The parent that a write leaves is the one it connects, which is there, or the old one. -/
theorem connected {parent : Field Id} {old : Option Id} {q : Id}
    (known : categoryMissing db parent = false) (above : parent.nullable old = some q) :
    parent = .value q ∧ db.categories.has q = true ∨ parent = .undefined ∧ old = some q := by
  cases parent with
  | undefined => exact Or.inr ⟨rfl, above⟩
  | null => cases above
  | value connected =>
    cases above
    exact Or.inl ⟨rfl, by simpa [categoryMissing] using known⟩

theorem categoryCreate_ok {data : CategoryCreateInput} {row : Category}
    (h : categoryCreate db id now data = .ok (db', row)) :
    db.categories.find? id = none ∧ data.row now = some row ∧
      categoryMissing db data.parent = false ∧
      db' = db.withCategories (db.categories.insert id row) := by
  unfold categoryCreate at h
  split at h
  · cases h
  · rename_i made
    split at h
    · cases h
    · split at h
      · cases h
      · rename_i known
        split at h
        · cases h
        · rename_i free
          cases h
          simp only [Bool.or_eq_true, not_or] at free
          exact ⟨Table.not_has_iff.mp free.1.1, made, Bool.eq_false_iff.mpr known, rfl⟩

theorem categoryUpdate_ok {data : CategoryUpdateInput} {new : Category}
    (h : categoryUpdate db id data = .ok (db', new)) :
    ∃ old, db.categories.find? id = some old ∧ data.apply old = some new ∧
      categoryMissing db data.parent = false ∧
      db' = db.withCategories (db.categories.set id new) := by
  unfold categoryUpdate at h
  split at h
  · cases h
  · rename_i old found
    split at h
    · cases h
    · rename_i made
      split at h
      · cases h
      · split at h
        · cases h
        · rename_i known
          split at h
          · cases h
          · cases h
            exact ⟨old, found, made, Bool.eq_false_iff.mpr known, rfl⟩

theorem categoryDelete_ok {row : Category} (h : categoryDelete db id = .ok (db', row)) :
    db.categories.find? id = some row ∧
      (∀ p product, db.products.find? p = some product → product.categoryId ≠ id) ∧
      db' = withoutCategory db id := by
  unfold categoryDelete at h
  split at h
  · cases h
  · rename_i row found
    split at h
    · cases h
    · rename_i free
      cases h
      refine ⟨found, fun p product there about => free ?_, rfl⟩
      exact Table.any_iff.mpr ⟨p, product, there, decide_eq_true about⟩

@[simp] theorem find?_withoutCategory (c : Id) :
    (withoutCategory db id).categories.find? c =
      (if c = id then none else db.categories.find? c).map (orphaned id) := by
  rw [withoutCategory, Tables.categories_withCategories, Table.find?_modifyAll, Table.find?_erase]

theorem orphaned_parent {row : Category} {q : Id} (h : (orphaned id row).parentId = some q) :
    row.parentId = some q ∧ q ≠ id := by
  unfold orphaned at h
  split at h
  · cases h
  · rename_i other
    refine ⟨h, ?_⟩
    rintro rfl
    exact other h

end Prisma

namespace Linked

variable {t t' : Tables} {id : Id} {now : Date}

theorem with_categories (h : Linked t) {categories : Table Id Category}
    (parent : ∀ c row, categories.find? c = some row →
      ∀ q, row.parentId = some q → categories.has q = true)
    (product : ∀ p row, t.products.find? p = some row → categories.has row.categoryId = true) :
    Linked (t.withCategories categories) where
  parent := parent
  product p row found := ⟨(h.product p row found).1, product p row found⟩
  order := h.order
  review := h.review

theorem categoryCreate (h : Linked t) {data : CategoryCreateInput} {row : Category}
    (ok : Prisma.categoryCreate t id now data = .ok (t', row)) : Linked t' := by
  obtain ⟨_, made, known, rfl⟩ := Prisma.categoryCreate_ok ok
  refine h.with_categories (fun c old found q above => ?_)
    (fun p product there => Table.has_insert (h.product p product there).2 _ _)
  refine Table.has_insert ?_ _ _
  rcases Table.find?_insert_cases found with before | ⟨_, rfl⟩
  · exact h.parent c old before q above
  · rw [CategoryCreateInput.row_parent made] at above
    rcases Prisma.connected known above with ⟨_, there⟩ | ⟨_, none⟩
    · exact there
    · cases none

theorem categoryUpdate (h : Linked t) {data : CategoryUpdateInput} {new : Category}
    (ok : Prisma.categoryUpdate t id data = .ok (t', new)) : Linked t' := by
  obtain ⟨old, found, made, known, rfl⟩ := Prisma.categoryUpdate_ok ok
  refine h.with_categories (fun c row there q above => ?_)
    (fun p product there => (Table.has_set ..).trans (h.product p product there).2)
  rw [Table.has_set]
  rcases Table.find?_set_cases there with before | ⟨_, rfl⟩
  · exact h.parent c row before q above
  · rw [CategoryUpdateInput.apply_parent made] at above
    rcases Prisma.connected known above with ⟨_, there⟩ | ⟨_, above⟩
    · exact there
    · exact h.parent id old found q above

theorem categoryDelete (h : Linked t) {row : Category}
    (ok : Prisma.categoryDelete t id = .ok (t', row)) : Linked t' := by
  obtain ⟨_, free, rfl⟩ := Prisma.categoryDelete_ok ok
  refine h.with_categories (fun c new there q above => ?_) (fun p product there => ?_)
  · have there : (Prisma.withoutCategory t id).categories.find? c = some new := there
    rw [Prisma.find?_withoutCategory] at there
    obtain ⟨old, kept, rfl⟩ := Option.map_eq_some_iff.mp there
    split at kept
    · cases kept
    · obtain ⟨above, other⟩ := Prisma.orphaned_parent above
      rw [Table.has_modifyAll]
      exact Table.has_erase (h.parent c old kept q above) other
  · rw [Table.has_modifyAll]
    exact Table.has_erase (h.product p product there).2 (free p product there)

theorem execCategory (h : Linked t) (c : CategoryCall) : Linked (t.execCategory c).1 := by
  cases c with
  | create id now data => exact h.commit (fun _ _ => h.categoryCreate)
  | update id data => exact h.commit (fun _ _ => h.categoryUpdate)
  | delete id => exact h.commit (fun _ _ => h.categoryDelete)
  | _ => exact h

end Linked

def execCategory (c : CategoryCall) (db : Db) : Db × c.Reply :=
  (⟨(db.toTables.execCategory c).1, db.linked.execCategory c⟩, (db.toTables.execCategory c).2)

abbrev CategoryReq (A : Type) : Type := Request CategoryCall CategoryCall.Reply ApiError A

def settleCategory {A : Type} : Except PrismaError A → CategoryReq A
  | .ok result => .done result
  | .error e => .fail (.database e)

def awaitCategory (c : CategoryCall) : CategoryReq c.Result := .call c settleCategory

namespace CategoriesRepository

def create (id : Id) (now : Date) (data : CategoryCreateInput) : CategoryReq Category :=
  awaitCategory (.create id now data)

def findById (id : Id) (includeChildren : Bool := false) : CategoryReq (Option CategoryRecord) :=
  awaitCategory (.findById id includeChildren)

def findBySlug (slug : String) (includeChildren : Bool := false) :
    CategoryReq (Option (Id × CategoryRecord)) :=
  awaitCategory (.findBySlug slug includeChildren)

def findChildren (parentId : Id) (isActive : Option Bool := none) :
    CategoryReq (List (Id × Category)) :=
  awaitCategory (.findChildren parentId isActive)

def update (id : Id) (data : CategoryUpdateInput) : CategoryReq Category :=
  awaitCategory (.update id data)

def delete (id : Id) : CategoryReq Category := awaitCategory (.delete id)

def updateOrder (id : Id) (order : Int) : CategoryReq Category :=
  update id { order := .value order }

/- A category other than the excluded one; an empty `excludeId` excludes none. -/
def others (excludeId : Option Id) : Option (Id × Category) → Bool
  | none => false
  | some (id, _) => !excludeId.any (fun e => nonempty e && id = e)

def existsBySlug (slug : String) (excludeId : Option Id := none) : CategoryReq Bool := do
  let category ← awaitCategory (.findUniqueSlug slug)
  return others excludeId category

def existsByName (name : String) (excludeId : Option Id := none) : CategoryReq Bool := do
  let category ← awaitCategory (.findUniqueName name)
  return others excludeId category

end CategoriesRepository

namespace CategoriesService
open CategoriesRepository (findById existsByName existsBySlug)

/- The parent that a request names must be there and active. -/
def activeParent (parentId : Id) : CategoryReq Unit := do
  let some parentCategory ← findById parentId
    | throw (.notFound "부모 카테고리를 찾을 수 없습니다")
  if !parentCategory.row.isActive then
    throw (.badRequest "비활성화된 부모 카테고리에는 자식을 추가할 수 없습니다")

def create (dto : CreateCategoryDto) (id : Id) (now : Date) : CategoryReq Category := do
  let existingName ← existsByName dto.name
  if existingName then
    throw (.conflict "이미 존재하는 카테고리 이름입니다")
  let existingSlug ← existsBySlug dto.slug
  if existingSlug then
    throw (.conflict "이미 사용 중인 슬러그입니다")
  if let .value parentId := dto.parentId.ifTruthy nonempty then
    activeParent parentId
  CategoriesRepository.create id now
    { name := dto.name
      slug := dto.slug
      parent := dto.parentId.ifTruthy nonempty
      icon := dto.icon
      order := dto.order.map Int.ofNat
      isActive := dto.isActive }

def findOne (id : Id) (includeChildren : Bool := false) : CategoryReq CategoryRecord := do
  let some category ← findById id includeChildren
    | throw (.notFound "카테고리를 찾을 수 없습니다")
  return category

def findBySlug (slug : String) (includeChildren : Bool := false) :
    CategoryReq (Id × CategoryRecord) := do
  let some category ← CategoriesRepository.findBySlug slug includeChildren
    | throw (.notFound "카테고리를 찾을 수 없습니다")
  return category

def findChildren (parentId : Id) (isActive : Option Bool := none) :
    CategoryReq (List (Id × Category)) := do
  let some _ ← findById parentId
    | throw (.notFound "부모 카테고리를 찾을 수 없습니다")
  CategoriesRepository.findChildren parentId isActive

/-- The loop over the children of a category, with the walk down from a child as `walk`. -/
def anyDescendant (walk : Id → CategoryReq Bool) (targetId : Id) :
    List (Id × Category) → CategoryReq Bool
  | [] => return false
  | child :: children => do
    if child.1 = targetId then
      return true
    let isChildDescendant ← walk child.1
    if isChildDescendant then
      return true
    anyDescendant walk targetId children

/-- Whether `targetId` stands below `categoryId`, walking down as many levels as given; a
walk that goes deeper has not ended. -/
def isDescendant (levels : Nat) (categoryId targetId : Id) : CategoryReq Bool :=
  match levels with
  | 0 => throw .unfinished
  | levels + 1 => do
    let children ← CategoriesRepository.findChildren categoryId
    anyDescendant (fun child => isDescendant levels child targetId) targetId children

/- The checks on the parent that an update asks for. -/
def newParent (levels : Nat) (id parentId : Id) : CategoryReq Unit := do
  if parentId = id then
    throw (.badRequest "자기 자신을 부모 카테고리로 설정할 수 없습니다")
  activeParent parentId
  let isDescendant ← isDescendant levels id parentId
  if isDescendant then
    throw (.badRequest "하위 카테고리를 부모로 설정할 수 없습니다 (순환 참조)")

def update (levels : Nat) (id : Id) (dto : UpdateCategoryDto) : CategoryReq Category := do
  let some existingCategory ← findById id
    | throw (.notFound "카테고리를 찾을 수 없습니다")
  if let .value name := dto.name.ifTruthy nonempty then
    if name ≠ existingCategory.row.name then
      let nameExists ← existsByName name (some id)
      if nameExists then
        throw (.conflict "이미 존재하는 카테고리 이름입니다")
  if let .value slug := dto.slug.ifTruthy nonempty then
    if slug ≠ existingCategory.row.slug then
      let slugExists ← existsBySlug slug (some id)
      if slugExists then
        throw (.conflict "이미 사용 중인 슬러그입니다")
  if let .value parentId := dto.parentId then
    newParent levels id parentId
  CategoriesRepository.update id
    { name := dto.name.ifTruthy nonempty
      slug := dto.slug.ifTruthy nonempty
      parent := dto.parentId
      icon := dto.icon
      order := dto.order.map Int.ofNat
      isActive := dto.isActive }

def remove (id : Id) : CategoryReq Unit := do
  let some category ← findById id true
    | throw (.notFound "카테고리를 찾을 수 없습니다")
  if category.children.any (fun children => !children.isEmpty) then
    throw (.badRequest "하위 카테고리가 있는 카테고리는 삭제할 수 없습니다")
  if category.productCount > 0 then
    throw (.badRequest "상품이 등록된 카테고리는 삭제할 수 없습니다")
  let _ ← CategoriesRepository.delete id

def updateOrder (id : Id) (order : Int) : CategoryReq Category := do
  let some _ ← findById id
    | throw (.notFound "카테고리를 찾을 수 없습니다")
  CategoriesRepository.updateOrder id order

end CategoriesService

inductive CategoryOp where
  | create (dto : CreateCategoryDto) (id : Id) (now : Date)
  | findOne (id : Id) (includeChildren : Bool)
  | findBySlug (slug : String) (includeChildren : Bool)
  | findChildren (parentId : Id) (isActive : Option Bool)
  | update (levels : Nat) (id : Id) (dto : UpdateCategoryDto)
  | remove (id : Id)
  | updateOrder (id : Id) (order : Int)

inductive CategoryResponse where
  | category (category : Category)
  | record (id : Id) (record : CategoryRecord)
  | list (categories : List (Id × Category))
  | noContent

def CategoryOp.program : CategoryOp → CategoryReq CategoryResponse
  | .create dto id now => .category <$> CategoriesService.create dto id now
  | .findOne id includeChildren => .record id <$> CategoriesService.findOne id includeChildren
  | .findBySlug slug includeChildren =>
    (fun (id, found) => .record id found) <$> CategoriesService.findBySlug slug includeChildren
  | .findChildren parentId isActive => .list <$> CategoriesService.findChildren parentId isActive
  | .update levels id dto => .category <$> CategoriesService.update levels id dto
  | .remove id => (fun _ => .noContent) <$> CategoriesService.remove id
  | .updateOrder id order => .category <$> CategoriesService.updateOrder id order

def categoryService : Service Db CategoryOp CategoryCall CategoryCall.Reply ApiError
    CategoryResponse := ⟨execCategory, CategoryOp.program⟩

end SecondhandApi
