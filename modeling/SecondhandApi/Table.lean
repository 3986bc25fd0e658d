import Mathlib.Data.List.Nodup

/-! Tables of rows under unique keys. The key is not part of the row, so no update of
rows can break uniqueness; what a table holds is what `find?` answers. -/
namespace Keyed

structure Table (K V : Type) where
  rows : List (K × V)
  unique : (rows.map Prod.fst).Nodup

namespace Table

variable {K V : Type} [DecidableEq K]

def empty : Table K V := ⟨[], List.nodup_nil⟩

def find? (t : Table K V) (k : K) : Option V := t.rows.lookup k

def has (t : Table K V) (k : K) : Bool := (t.find? k).isSome

theorem lookup_eq_some {rows : List (K × V)} (unique : (rows.map Prod.fst).Nodup) {k : K}
    {v : V} : rows.lookup k = some v ↔ (k, v) ∈ rows := by
  induction rows with
  | nil => simp
  | cons row rows ih =>
    obtain ⟨k', v'⟩ := row
    simp only [List.map_cons, List.nodup_cons, List.mem_map] at unique
    by_cases same : k = k'
    · subst same
      have fresh : (k, v) ∉ rows := fun h => unique.1 ⟨_, h, rfl⟩
      simp [fresh, eq_comm]
    · have step : List.lookup k ((k', v') :: rows) = rows.lookup k := by
        rw [List.lookup_cons, beq_eq_false_iff_ne.mpr same]
      rw [step, ih unique.2]
      simp [same]

theorem mem_rows (t : Table K V) {k : K} {v : V} : (k, v) ∈ t.rows ↔ t.find? k = some v :=
  (lookup_eq_some t.unique).symm

theorem lookup_eq_none {rows : List (K × V)} {k : K} :
    rows.lookup k = none ↔ k ∉ rows.map Prod.fst := by
  simp only [List.lookup_eq_none_iff, bne_iff_ne, List.mem_map, not_exists, not_and]
  exact ⟨fun h row mem same => h row mem same.symm, fun h row mem same => h row mem same.symm⟩

@[simp] theorem find?_empty (k : K) : (empty : Table K V).find? k = none := rfl

/-- A new row; a key in use keeps its row. -/
def insert (t : Table K V) (k : K) (v : V) : Table K V :=
  if h : t.find? k = none then
    ⟨t.rows ++ [(k, v)], by
      rw [List.map_append, List.map_singleton]
      exact List.Nodup.append t.unique (List.nodup_singleton k)
        (List.disjoint_singleton.mpr (lookup_eq_none.mp h))⟩
  else t

theorem rows_insert {t : Table K V} {k : K} (fresh : t.find? k = none) (v : V) :
    (t.insert k v).rows = t.rows ++ [(k, v)] := by
  rw [insert, dif_pos fresh]

theorem find?_insert {t : Table K V} {k : K} (fresh : t.find? k = none) (v : V) (j : K) :
    (t.insert k v).find? j = if j = k then some v else t.find? j := by
  rw [find?, rows_insert fresh, List.lookup_append]
  by_cases same : j = k
  · subst same
    have absent : t.rows.lookup j = none := fresh
    simp [absent]
  · have other : List.lookup j [(k, v)] = none := lookup_eq_none.mpr (by simpa using same)
    rw [other, if_neg same, Option.or_none, find?]

/- What was just written is there. -/
theorem find?_insert_self {t : Table K V} {k : K} (fresh : t.find? k = none) (v : V) :
    (t.insert k v).find? k = some v := by
  rw [find?_insert fresh, if_pos rfl]

/-- Every row may change in its own way. -/
def modifyAll (t : Table K V) (f : K → V → V) : Table K V :=
  ⟨t.rows.map (fun row => (row.1, f row.1 row.2)), by
    rw [List.map_map]
    exact t.unique⟩

@[simp] theorem find?_modifyAll (t : Table K V) (f : K → V → V) (j : K) :
    (t.modifyAll f).find? j = (t.find? j).map (f j) := by
  obtain ⟨rows, unique⟩ := t
  simp only [find?, modifyAll]
  clear unique
  induction rows with
  | nil => rfl
  | cons row rows ih =>
    obtain ⟨k, v⟩ := row
    by_cases same : j = k
    · simp [same]
    · rw [List.map_cons, List.lookup_cons, List.lookup_cons, beq_eq_false_iff_ne.mpr same]
      exact ih

/-- Replaces the row of `k`, when there is one. -/
def set (t : Table K V) (k : K) (new : V) : Table K V :=
  t.modifyAll (fun j v => if j = k then new else v)

theorem find?_set {t : Table K V} {k : K} {old : V} (found : t.find? k = some old) (new : V)
    (j : K) : (t.set k new).find? j = if j = k then some new else t.find? j := by
  rw [set, find?_modifyAll]
  by_cases same : j = k
  · subst same
    simp [found]
  · simp [same]

theorem find?_set_self {t : Table K V} {k : K} {old : V} (found : t.find? k = some old) (new : V) :
    (t.set k new).find? k = some new := by
  rw [find?_set found, if_pos rfl]

def eraseAll (t : Table K V) (p : K → V → Bool) : Table K V :=
  ⟨t.rows.filter (fun row => !p row.1 row.2),
    t.unique.sublist ((List.filter_sublist).map Prod.fst)⟩

theorem find?_eraseAll (t : Table K V) (p : K → V → Bool) (j : K) :
    (t.eraseAll p).find? j = (t.find? j).filter (fun v => !p j v) := by
  rw [Option.ext_iff]
  intro v
  rw [Option.filter_eq_some_iff, ← mem_rows, ← mem_rows]
  simp [eraseAll]

def erase (t : Table K V) (k : K) : Table K V := t.eraseAll (fun j _ => j = k)

theorem find?_erase (t : Table K V) (k j : K) :
    (t.erase k).find? j = if j = k then none else t.find? j := by
  rw [erase, find?_eraseAll]
  by_cases same : j = k <;> cases t.find? j <;> simp [same, Option.filter]

/-- The first row that satisfies `p`, with its key. -/
def findBy (t : Table K V) (p : V → Bool) : Option (K × V) := t.rows.find? (fun row => p row.2)

def any (t : Table K V) (p : K → V → Bool) : Bool := t.rows.any (fun row => p row.1 row.2)

theorem any_iff {t : Table K V} {p : K → V → Bool} :
    t.any p = true ↔ ∃ k v, t.find? k = some v ∧ p k v = true := by
  simp only [any, List.any_eq_true]
  constructor
  · rintro ⟨⟨k, v⟩, mem, h⟩
    exact ⟨k, v, t.mem_rows.mp mem, h⟩
  · rintro ⟨k, v, found, h⟩
    exact ⟨(k, v), t.mem_rows.mpr found, h⟩

def all (t : Table K V) (p : K → V → Bool) : Bool := t.rows.all (fun row => p row.1 row.2)

theorem all_iff {t : Table K V} {p : K → V → Bool} :
    t.all p = true ↔ ∀ k v, t.find? k = some v → p k v = true := by
  simp only [all, List.all_eq_true]
  constructor
  · intro h k v found
    exact h (k, v) (t.mem_rows.mpr found)
  · rintro h ⟨k, v⟩ mem
    exact h k v (t.mem_rows.mp mem)

/-! Which keys are in use. -/

theorem has_iff {t : Table K V} {k : K} : t.has k = true ↔ ∃ v, t.find? k = some v :=
  Option.isSome_iff_exists

theorem not_has_iff {t : Table K V} {k : K} : ¬ t.has k = true ↔ t.find? k = none :=
  Option.not_isSome_iff_eq_none

@[simp] theorem has_modifyAll (t : Table K V) (f : K → V → V) (j : K) :
    (t.modifyAll f).has j = t.has j := by
  rw [has, find?_modifyAll, Option.isSome_map, has]

@[simp] theorem has_set (t : Table K V) (k : K) (new : V) (j : K) :
    (t.set k new).has j = t.has j :=
  t.has_modifyAll _ j

theorem has_insert {t : Table K V} {j : K} (h : t.has j = true) (k : K) (v : V) :
    (t.insert k v).has j = true := by
  by_cases fresh : t.find? k = none
  · rw [has, find?_insert fresh]
    by_cases same : j = k
    · rw [if_pos same, Option.isSome_some]
    · rw [if_neg same]; exact h
  · rw [insert, dif_neg fresh]; exact h

theorem has_of_insert {t : Table K V} {j k : K} {v : V} (h : (t.insert k v).has j = true) :
    t.has j = true ∨ j = k := by
  obtain ⟨w, found⟩ := has_iff.mp h
  by_cases fresh : t.find? k = none
  · rw [find?_insert fresh] at found
    by_cases same : j = k
    · exact Or.inr same
    · rw [if_neg same] at found
      exact Or.inl (has_iff.mpr ⟨w, found⟩)
  · rw [insert, dif_neg fresh] at found
    exact Or.inl (has_iff.mpr ⟨w, found⟩)

theorem has_of_eraseAll {t : Table K V} {p : K → V → Bool} {j : K}
    (h : (t.eraseAll p).has j = true) : t.has j = true := by
  obtain ⟨w, found⟩ := has_iff.mp h
  rw [find?_eraseAll] at found
  exact has_iff.mpr ⟨w, (Option.filter_eq_some_iff.mp found).1⟩

theorem has_erase {t : Table K V} {j : K} (h : t.has j = true) {k : K} (other : j ≠ k) :
    (t.erase k).has j = true := by
  rw [has, find?_erase, if_neg other]
  exact h

/-- The rows of a table after a write, each with where it comes from. -/
theorem find?_insert_cases {t : Table K V} {k j : K} {v w : V}
    (h : (t.insert k v).find? j = some w) : t.find? j = some w ∨ (j = k ∧ w = v) := by
  by_cases fresh : t.find? k = none
  · rw [find?_insert fresh] at h
    by_cases same : j = k
    · rw [if_pos same] at h
      exact Or.inr ⟨same, (Option.some.inj h).symm⟩
    · rw [if_neg same] at h
      exact Or.inl h
  · rw [insert, dif_neg fresh] at h
    exact Or.inl h

theorem find?_set_cases {t : Table K V} {k j : K} {new w : V}
    (h : (t.set k new).find? j = some w) : t.find? j = some w ∨ (j = k ∧ w = new) := by
  rw [set, find?_modifyAll] at h
  obtain ⟨v, found, changed⟩ := Option.map_eq_some_iff.mp h
  by_cases same : j = k
  · rw [if_pos same] at changed
    exact Or.inr ⟨same, changed.symm⟩
  · rw [if_neg same] at changed
    exact Or.inl (changed ▸ found)

theorem find?_eraseAll_cases {t : Table K V} {p : K → V → Bool} {j : K} {w : V}
    (h : (t.eraseAll p).find? j = some w) : t.find? j = some w ∧ p j w = false := by
  rw [find?_eraseAll] at h
  obtain ⟨found, kept⟩ := Option.filter_eq_some_iff.mp h
  exact ⟨found, Bool.not_eq_true' _ |>.mp kept⟩

/-- What only one key can satisfy is satisfied by one row at most. -/
theorem countP_le_one {t : Table K V} {p : K × V → Bool} (one : ∀ i j v w, t.find? i = some v →
    t.find? j = some w → p (i, v) = true → p (j, w) = true → i = j) : t.rows.countP p ≤ 1 := by
  have unique : ((t.rows.filter p).map Prod.fst).Nodup :=
    t.unique.sublist ((List.filter_sublist ..).map _)
  have held (row : K × V) (member : row ∈ t.rows.filter p) :
      t.find? row.1 = some row.2 ∧ p (row.1, row.2) = true :=
    ⟨t.mem_rows.mp (List.mem_filter.mp member).1, (List.mem_filter.mp member).2⟩
  rw [List.countP_eq_length_filter]
  cases rows : t.rows.filter p with
  | nil => exact Nat.zero_le 1
  | cons a rest =>
    cases rest with
    | nil => exact Nat.le_refl 1
    | cons b rest =>
      rw [rows] at unique held
      have first := held a List.mem_cons_self
      have second := held b (List.mem_cons_of_mem a List.mem_cons_self)
      have same := one a.1 b.1 a.2 b.2 first.1 second.1 first.2 second.2
      simp [same] at unique

/-! A query that reads some rows: what it reads after a write that is not about them. -/

theorem query_modifyAll {B : Type} {t : Table K V} {f : K → V → V} {p : K × V → Bool}
    {g : K × V → B} (same : ∀ k v, t.find? k = some v →
      p (k, f k v) = p (k, v) ∧ (p (k, v) = true → g (k, f k v) = g (k, v))) :
    ((t.modifyAll f).rows.filter p).map g = (t.rows.filter p).map g := by
  have row : ∀ r ∈ t.rows, p (r.1, f r.1 r.2) = p r ∧ (p r = true → g (r.1, f r.1 r.2) = g r) :=
    fun r member => same r.1 r.2 (t.mem_rows.mp member)
  have kept : t.rows.filter (p ∘ fun row => (row.1, f row.1 row.2)) = t.rows.filter p :=
    List.filter_congr (fun r member => (row r member).1)
  rw [modifyAll, List.filter_map, List.map_map, kept]
  refine List.map_congr_left (fun r member => ?_)
  obtain ⟨member, passes⟩ := List.mem_filter.mp member
  exact (row r member).2 passes

theorem query_eraseAll {t : Table K V} {q : K → V → Bool} {p : K × V → Bool}
    (other : ∀ k v, t.find? k = some v → p (k, v) = true → q k v = false) :
    (t.eraseAll q).rows.filter p = t.rows.filter p := by
  rw [eraseAll, List.filter_filter]
  refine List.filter_congr (fun r member => ?_)
  cases passes : p r with
  | false => rfl
  | true => rw [other r.1 r.2 (t.mem_rows.mp member) passes]; rfl

end Table

end Keyed
