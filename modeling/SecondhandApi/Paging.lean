import Mathlib.Data.List.Perm.Basic
import Mathlib.Data.List.Sort

/-! Pages of a sorted list. Each page is a query of its own, which sorts the list again and
puts equal keys in an order of its own; the pages make up one list only where no two keys are
equal. -/
namespace Paging

variable {A I : Type}

def page (limit : Nat) (l : List A) (n : Nat) : List A := (l.drop (n * limit)).take limit

/-- The first pages are the first elements. -/
theorem pages_take (limit : Nat) (l : List A) (k : Nat) :
    (List.range k).flatMap (page limit l) = l.take (k * limit) := by
  induction k with
  | zero => simp
  | succ k ih =>
    rw [List.range_succ, List.flatMap_append, ih, List.flatMap_singleton, page, Nat.succ_mul,
      List.take_add]

theorem pages_all {limit k : Nat} {l : List A} (fits : l.length ≤ k * limit) :
    (List.range k).flatMap (page limit l) = l := by
  rw [pages_take, List.take_of_length_le fits]

theorem mem_drop_take {l : List A} {skip take : Nat} {x : A} :
    x ∈ (l.drop skip).take take ↔ ∃ i, skip ≤ i ∧ i < skip + take ∧ l[i]? = some x := by
  rw [List.mem_iff_getElem?]
  constructor
  · rintro ⟨j, at_j⟩
    rw [List.getElem?_take] at at_j
    split at at_j
    · rename_i inside
      rw [List.getElem?_drop] at at_j
      exact ⟨skip + j, Nat.le_add_right _ _, Nat.add_lt_add_left inside _, at_j⟩
    · cases at_j
  · rintro ⟨i, after, before, at_i⟩
    refine ⟨i - skip, ?_⟩
    rw [List.getElem?_take_of_lt (by omega), List.getElem?_drop, Nat.add_sub_cancel' after]
    exact at_i

theorem mem_page {limit : Nat} (positive : 0 < limit) {l : List A} {i : Nat} {x : A}
    (h : l[i]? = some x) : x ∈ page limit l (i / limit) := by
  have split := Nat.div_add_mod i limit
  have inside : (page limit l (i / limit))[i % limit]? = some x := by
    rw [page, List.getElem?_take_of_lt (Nat.mod_lt i positive), List.getElem?_drop, Nat.mul_comm,
      split, h]
  exact List.mem_of_getElem? inside

section
variable {key : A → Nat} {name : A → I} {r : (I → Nat) → A → A → Prop}
  [∀ ties, DecidableRel (r ties)] {l : List A}

theorem sorted_falls (order : ∀ ties a b, r ties a b ↔
      key b < key a ∨ key a = key b ∧ ties (name a) ≤ ties (name b)) (ties : I → Nat) :
    (l.insertionSort (r ties)).Pairwise (r ties) := by
  have total : Std.Total (r ties) := ⟨fun a b => by
    rw [order, order]
    omega⟩
  have transitive : IsTrans A (r ties) := ⟨fun a b c => by
    rw [order, order, order]
    omega⟩
  exact List.pairwise_insertionSort (r ties) l

/-- A list is sorted into its reverse, however equal keys are put, exactly when its keys rise. -/
theorem sorts_reversed (order : ∀ ties a b, r ties a b ↔
      key b < key a ∨ key a = key b ∧ ties (name a) ≤ ties (name b))
    (distinct : (l.map name).Nodup) :
    (∀ ties, l.insertionSort (r ties) = l.reverse) ↔ l.Pairwise (fun a b => key a < key b) := by
  classical
  constructor
  · intro sorted
    refine List.pairwise_iff_forall_sublist.mpr (fun {a b} pair => ?_)
    have apart := List.pairwise_iff_forall_sublist.mp (List.pairwise_map.mp distinct) pair
    -- equal keys could stand the other way round
    have falls := sorted_falls (l := l) order (fun i => if i = name a then 0 else 1)
    rw [sorted, List.pairwise_reverse] at falls
    rcases (order _ b a).mp (List.pairwise_iff_forall_sublist.mp falls pair) with less | ⟨_, tie⟩
    · exact less
    · rw [if_pos rfl, if_neg (Ne.symm apart)] at tie
      omega
  · intro rising ties
    have unique : (l.map key).Nodup :=
      (List.pairwise_map.mpr rising).imp (fun less => Nat.ne_of_lt less)
    have one (a b : A) (here : a ∈ l.insertionSort (r ties)) (there : b ∈ l.reverse)
        (before : r ties a b) (after : r ties b a) : a = b := by
      rw [order] at before after
      refine List.inj_on_of_nodup_map unique ((List.mem_insertionSort _).mp here)
        (List.mem_reverse.mp there) ?_
      omega
    have reversed : l.reverse.Pairwise (r ties) :=
      List.pairwise_reverse.mpr (rising.imp (fun less => (order _ _ _).mpr (Or.inl less)))
    exact List.Perm.eq_of_pairwise one (sorted_falls order ties) reversed
      ((List.perm_insertionSort _ l).trans (List.reverse_perm l).symm)

/-- Pages of a list that are each sorted on their own make up its reverse under the same
condition. -/
theorem pages_reversed (order : ∀ ties a b, r ties a b ↔
      key b < key a ∨ key a = key b ∧ ties (name a) ≤ ties (name b))
    (distinct : (l.map name).Nodup) {limit k : Nat} (fits : l.length ≤ k * limit) :
    (∀ ties : Nat → I → Nat, (List.range k).flatMap
        (fun n => page limit (l.insertionSort (r (ties n))) n) = l.reverse) ↔
      l.Pairwise (fun a b => key a < key b) := by
  rw [← sorts_reversed order distinct]
  constructor
  · intro paged ties
    rw [← paged (fun _ => ties), pages_all (by rwa [List.length_insertionSort])]
  · intro sorted ties
    simp only [sorted]
    exact pages_all (by rwa [List.length_reverse])

end

section
variable {K : Type} [LinearOrder K] {key : A → K} {name : A → I} {r : (I → Nat) → A → A → Prop}
  [∀ ties, DecidableRel (r ties)] {l : List A}

/-- Without equal keys there is one order. -/
theorem sorts_alike (order : ∀ ties a b, r ties a b ↔
      key a < key b ∨ key a = key b ∧ ties (name a) ≤ ties (name b))
    (distinct : (l.map key).Nodup) (ties ties' : I → Nat) :
    l.insertionSort (r ties) = l.insertionSort (r ties') := by
  have rises (ties : I → Nat) : (l.insertionSort (r ties)).Pairwise (fun a b => key a ≤ key b) := by
    have total : Std.Total (r ties) := ⟨fun a b => by
      rw [order, order]
      rcases lt_trichotomy (key a) (key b) with less | same | less
      · exact Or.inl (Or.inl less)
      · rcases Nat.le_total (ties (name a)) (ties (name b)) with le | le
        · exact Or.inl (Or.inr ⟨same, le⟩)
        · exact Or.inr (Or.inr ⟨same.symm, le⟩)
      · exact Or.inr (Or.inl less)⟩
    have transitive : IsTrans A (r ties) := ⟨fun a b c => by
      rw [order, order, order]
      rintro (ab | ⟨ab, tie⟩) (bc | ⟨bc, tie'⟩)
      · exact Or.inl (ab.trans bc)
      · exact Or.inl (bc ▸ ab)
      · exact Or.inl (ab ▸ bc)
      · exact Or.inr ⟨ab.trans bc, tie.trans tie'⟩⟩
    refine (List.pairwise_insertionSort (r ties) l).imp (fun before => ?_)
    rcases (order _ _ _).mp before with less | ⟨same, _⟩
    · exact le_of_lt less
    · exact le_of_eq same
  have one (a b : A) (here : a ∈ l.insertionSort (r ties)) (there : b ∈ l.insertionSort (r ties'))
      (before : key a ≤ key b) (after : key b ≤ key a) : a = b :=
    List.inj_on_of_nodup_map distinct ((List.mem_insertionSort _).mp here)
      ((List.mem_insertionSort _).mp there) (le_antisymm before after)
  exact List.Perm.eq_of_pairwise one (rises ties) (rises ties')
    ((List.perm_insertionSort _ l).trans (List.perm_insertionSort _ l).symm)

/-- Then the pages of a list that are each sorted on their own have every element of it once. -/
theorem pages_untied (order : ∀ ties a b, r ties a b ↔
      key a < key b ∨ key a = key b ∧ ties (name a) ≤ ties (name b))
    (distinct : (l.map key).Nodup) {limit k : Nat} (fits : l.length ≤ k * limit)
    (ties : Nat → I → Nat) :
    ((List.range k).flatMap (fun n => page limit (l.insertionSort (r (ties n))) n)).Perm l := by
  have alike (n : Nat) : l.insertionSort (r (ties n)) = l.insertionSort (r (ties 0)) :=
    sorts_alike order distinct (ties n) (ties 0)
  simp only [alike]
  rw [pages_all (by rwa [List.length_insertionSort])]
  exact List.perm_insertionSort _ l

end

section
variable {key : A → Nat} {name : A → I} {r : (I → Nat) → A → A → Prop}
  [∀ ties, DecidableRel (r ties)] {l : List A}

/-- How many elements come before every one of key `t`, and how many before every one after. -/
def later (key : A → Nat) (l : List A) (t : Nat) : Nat := l.countP (fun a => t < key a)
def notEarlier (key : A → Nat) (l : List A) (t : Nat) : Nat := l.countP (fun a => t ≤ key a)

/-- Position `b` does not stand between two elements of one key. -/
def Splits (key : A → Nat) (l : List A) (b : Nat) : Prop :=
  ∀ t, ¬ (later key l t < b ∧ b < notEarlier key l t)

variable (order : ∀ ties a b, r ties a b ↔
  key b < key a ∨ key a = key b ∧ ties (name a) ≤ ties (name b))
include order

theorem take_drop_falls (ties : I → Nat) (b : Nat) :
    ∀ x ∈ (l.insertionSort (r ties)).take b, ∀ y ∈ (l.insertionSort (r ties)).drop b,
      key y ≤ key x := by
  intro x front y back
  have falls := sorted_falls (l := l) order ties
  rw [← List.take_append_drop b (l.insertionSort (r ties))] at falls
  have before := (List.pairwise_append.mp falls).2.2 x front y back
  rw [order] at before
  omega

/-- The elements in front of such a position are known by their keys alone. -/
theorem take_eq_filter {b : Nat} (splits : Splits key l b) (ties : I → Nat) :
    (l.insertionSort (r ties)).take b =
      (l.insertionSort (r ties)).filter (fun a => notEarlier key l (key a) ≤ b) := by
  have falls := take_drop_falls (l := l) order ties b
  have counts (p : A → Bool) : l.countP p = ((l.insertionSort (r ties)).take b).countP p +
      ((l.insertionSort (r ties)).drop b).countP p := by
    rw [← List.countP_append, List.take_append_drop]
    exact ((List.perm_insertionSort _ l).countP_eq p).symm
  conv => rhs; rw [← List.take_append_drop b (l.insertionSort (r ties)), List.filter_append]
  have front : ∀ x ∈ (l.insertionSort (r ties)).take b, notEarlier key l (key x) ≤ b := by
    intro x member
    by_contra inside
    have many : b ≤ later key l (key x) := Nat.le_of_not_gt fun few =>
      splits (key x) ⟨few, Nat.lt_of_not_ge inside⟩
    have none : ((l.insertionSort (r ties)).drop b).countP (fun a => decide (key x < key a)) = 0 :=
      List.countP_eq_zero.mpr (fun y back => by
        have := falls x member y back
        simpa using this)
    have some : ((l.insertionSort (r ties)).take b).countP (fun a => decide (key x < key a)) <
        ((l.insertionSort (r ties)).take b).length := by
      refine Nat.lt_of_le_of_ne List.countP_le_length (fun all => ?_)
      simpa using List.countP_eq_length.mp all x member
    have short := List.length_take_le b (l.insertionSort (r ties))
    rw [later, counts, none] at many
    omega
  have back : ∀ y ∈ (l.insertionSort (r ties)).drop b, ¬ notEarlier key l (key y) ≤ b := by
    intro y member few
    have all : ((l.insertionSort (r ties)).take b).countP (fun a => decide (key y ≤ key a)) =
        ((l.insertionSort (r ties)).take b).length :=
      List.countP_eq_length.mpr (fun x front => decide_eq_true (falls x front y member))
    have itself : 0 < ((l.insertionSort (r ties)).drop b).countP
        (fun a => decide (key y ≤ key a)) :=
      List.countP_pos_iff.mpr ⟨y, member, decide_eq_true (Nat.le_refl _)⟩
    have long := List.length_pos_of_mem member
    rw [List.length_drop] at long
    rw [notEarlier, counts, all, List.length_take] at few
    omega
  rw [List.filter_eq_self.mpr (fun x member => decide_eq_true (front x member)),
    List.filter_eq_nil_iff.mpr (fun y member => by simpa using back y member), List.append_nil]

/-- A page between two such positions holds the same elements under every order. -/
theorem page_perm {limit n : Nat} (first : Splits key l (n * limit))
    (last : Splits key l ((n + 1) * limit)) (ties ties' : I → Nat) :
    (page limit (l.insertionSort (r ties)) n).Perm
      (page limit (l.insertionSort (r ties')) n) := by
  have same (b : Nat) (splits : Splits key l b) : ((l.insertionSort (r ties)).take b).Perm
      ((l.insertionSort (r ties')).take b) := by
    rw [take_eq_filter order splits, take_eq_filter order splits]
    exact ((List.perm_insertionSort _ l).trans (List.perm_insertionSort _ l).symm).filter _
  have whole := same _ last
  rw [Nat.succ_mul, List.take_add, List.take_add] at whole
  exact (List.perm_append_left_iff _).mp
    (whole.trans ((same _ first).symm.append_right _))

variable (distinct : (l.map name).Nodup)
include distinct

omit order in
/-- Names tell the elements in front of a position from those behind it. -/
theorem take_drop_apart (ties : I → Nat) (b : Nat) :
    ∀ x ∈ (l.insertionSort (r ties)).take b, ∀ y ∈ (l.insertionSort (r ties)).drop b,
      name x ≠ name y := by
  intro x front y back
  have sorted : ((l.insertionSort (r ties)).map name).Nodup :=
    ((List.perm_insertionSort _ l).map name).nodup_iff.mpr distinct
  rw [← List.take_append_drop b (l.insertionSort (r ties)), List.map_append] at sorted
  exact (List.nodup_append.mp sorted).2.2 _ (List.mem_map_of_mem front) _
    (List.mem_map_of_mem back)

open Classical in
/-- Where an element stands that comes first among those of its key. -/
theorem exists_early {x : A} (member : x ∈ l) : ∃ ties i,
    (l.insertionSort (r ties))[i]? = some x ∧ i ≤ later key l (key x) := by
  let ties : I → Nat := fun n => if n = name x then 0 else 1
  obtain ⟨i, at_i⟩ := List.getElem?_of_mem ((List.mem_insertionSort (r ties)).mpr member)
  refine ⟨ties, i, at_i, ?_⟩
  have inside : i < (l.insertionSort (r ties)).length := (List.getElem?_eq_some_iff.mp at_i).1
  have here : x ∈ (l.insertionSort (r ties)).drop i := by
    have first : ((l.insertionSort (r ties)).drop i)[0]? = some x := by
      rw [List.getElem?_drop, Nat.add_zero, at_i]
    exact List.mem_of_getElem? first
  have falls := sorted_falls (l := l) order ties
  rw [← List.take_append_drop i (l.insertionSort (r ties))] at falls
  have front : ∀ y ∈ (l.insertionSort (r ties)).take i, key x < key y := by
    intro y before
    have apart := take_drop_apart distinct ties i y before x here
    have comes := (List.pairwise_append.mp falls).2.2 y before x here
    rw [order] at comes
    rcases comes with less | ⟨_, tie⟩
    · exact less
    · simp [ties, apart] at tie
  have all : ((l.insertionSort (r ties)).take i).countP (fun a => decide (key x < key a)) = i := by
    rw [List.countP_eq_length.mpr (fun y before => decide_eq_true (front y before)),
      List.length_take_of_le (Nat.le_of_lt inside)]
  rw [later, ← (List.perm_insertionSort (r ties) l).countP_eq]
  exact Nat.le_trans (Nat.le_of_eq all.symm) (List.take_sublist i _).countP_le

open Classical in
/-- Where it stands when it comes last among them. -/
theorem exists_late {x : A} (member : x ∈ l) : ∃ ties i,
    (l.insertionSort (r ties))[i]? = some x ∧ notEarlier key l (key x) ≤ i + 1 := by
  let ties : I → Nat := fun n => if n = name x then 1 else 0
  obtain ⟨i, at_i⟩ := List.getElem?_of_mem ((List.mem_insertionSort (r ties)).mpr member)
  refine ⟨ties, i, at_i, ?_⟩
  have here : x ∈ (l.insertionSort (r ties)).take (i + 1) := by
    have last : ((l.insertionSort (r ties)).take (i + 1))[i]? = some x := by
      rw [List.getElem?_take_of_lt (Nat.lt_succ_self i), at_i]
    exact List.mem_of_getElem? last
  have falls := sorted_falls (l := l) order ties
  rw [← List.take_append_drop (i + 1) (l.insertionSort (r ties))] at falls
  have back : ∀ y ∈ (l.insertionSort (r ties)).drop (i + 1), key y < key x := by
    intro y after
    have apart := take_drop_apart distinct ties (i + 1) x here y after
    have comes := (List.pairwise_append.mp falls).2.2 x here y after
    rw [order] at comes
    rcases comes with less | ⟨_, tie⟩
    · exact less
    · simp [ties, apart.symm] at tie
  have none : ((l.insertionSort (r ties)).drop (i + 1)).countP
      (fun a => decide (key x ≤ key a)) = 0 :=
    List.countP_eq_zero.mpr (fun y after => by simpa using back y after)
  rw [notEarlier, ← (List.perm_insertionSort (r ties) l).countP_eq,
    ← List.take_append_drop (i + 1) (l.insertionSort (r ties)), List.countP_append, none]
  exact Nat.le_trans List.countP_le_length (List.length_take_le _ _)

/-- Pages that are sorted on their own hold every element once, whatever their orders, exactly
when no page ends between two elements of one key. -/
theorem pages_perm {limit k : Nat} (positive : 0 < limit) (fits : l.length ≤ k * limit) :
    (∀ ties : Nat → I → Nat, ((List.range k).flatMap
        (fun n => page limit (l.insertionSort (r (ties n))) n)).Perm l) ↔
      ∀ n, Splits key l (n * limit) := by
  constructor
  · rintro complete n t ⟨after, before⟩
    -- an element of the key that the position splits, once as the first and once as the last
    have some : later key l t < notEarlier key l t := Nat.lt_trans after before
    obtain ⟨x, member, rfl⟩ : ∃ x ∈ l, key x = t := by
      by_contra none
      push Not at none
      refine Nat.lt_irrefl _ (Nat.lt_of_lt_of_eq some (List.countP_congr (fun x here => ?_)).symm)
      have apart := none x here
      simp only [decide_eq_true_eq]
      omega
    obtain ⟨early, i, at_i, first⟩ := exists_early order distinct member
    obtain ⟨late, j, at_j, last⟩ := exists_late order distinct member
    have low : i / limit < n := (Nat.div_lt_iff_lt_mul positive).mpr (by omega)
    have high : n ≤ j / limit := (Nat.le_div_iff_mul_le positive).mpr (by omega)
    have bound : j / limit < k := by
      refine (Nat.div_lt_iff_lt_mul positive).mpr (Nat.lt_of_lt_of_le ?_ fits)
      rw [← List.length_insertionSort (r late) l]
      exact (List.getElem?_eq_some_iff.mp at_j).1
    have once := (complete (fun m => if m < n then early else late)).nodup_iff.mpr
      (List.Nodup.of_map name distinct)
    have apart := List.pairwise_iff_getElem.mp (List.nodup_flatMap.mp once).2 (i / limit)
      (j / limit) (by rw [List.length_range]; omega) (by rwa [List.length_range]) (by omega)
    simp only [List.getElem_range, Function.onFun, if_pos low, if_neg (Nat.not_lt.mpr high)]
      at apart
    exact apart (mem_page positive at_i) (mem_page positive at_j)
  · intro splits ties
    have same : ∀ m, ((List.range m).flatMap
        (fun n => page limit (l.insertionSort (r (ties n))) n)).Perm
        ((List.range m).flatMap (page limit (l.insertionSort (r (ties 0))))) := by
      intro m
      exact List.Perm.flatMap_left _ (fun n _ => page_perm order (splits n) (splits (n + 1)) _ _)
    refine (same k).trans ?_
    rw [pages_all (by rwa [List.length_insertionSort])]
    exact List.perm_insertionSort _ l

end

/-! A list that changes between two queries and keeps what it had, with its keys. Where no two keys
are equal an element stands behind as many as have later keys, so it only moves back. -/

section
variable {key : A → Nat} {name : A → I} {r : (I → Nat) → A → A → Prop}
  [∀ ties, DecidableRel (r ties)] {l l' : List A}

theorem falls_strictly (order : ∀ ties a b, r ties a b ↔
      key b < key a ∨ key a = key b ∧ ties (name a) ≤ ties (name b))
    (untied : (l.map key).Nodup) (ties : I → Nat) :
    (l.insertionSort (r ties)).Pairwise (fun a b => key b < key a) := by
  have falls := sorted_falls (l := l) order ties
  have apart : (l.insertionSort (r ties)).Pairwise (fun a b => key a ≠ key b) := by
    apply List.pairwise_map.mp
    exact ((List.perm_insertionSort _ l).map key).nodup_iff.mpr untied
  apply (falls.and apart).imp
  rintro a b ⟨before, other⟩
  rcases (order ties a b).mp before with less | ⟨same, -⟩
  · exact less
  · exact absurd same other

theorem place_eq {s : List A} (falls : s.Pairwise (fun a b => key b < key a)) {i : Nat} {a : A}
    (at_i : s[i]? = some a) : later key s (key a) = i := by
  unfold later
  induction s generalizing i with
  | nil => cases at_i
  | cons b s ih =>
    obtain ⟨first, falls⟩ := List.pairwise_cons.mp falls
    cases i with
    | zero =>
      obtain rfl : b = a := by simpa using at_i
      have none : s.countP (fun c => decide (key b < key c)) = 0 :=
        List.countP_eq_zero.mpr fun c member => by
          have := first c member
          simpa using Nat.le_of_lt this
      simp [none]
    | succ i =>
      have there : s[i]? = some a := by simpa using at_i
      have before := first a (List.mem_of_getElem? there)
      rw [List.countP_cons, ih falls there, if_pos (decide_eq_true before)]

theorem later_le (distinct : (l.map name).Nodup)
    (kept : ∀ a ∈ l, ∃ a' ∈ l', name a' = name a ∧ key a' = key a) (t : Nat) :
    later key l t ≤ later key l' t := by
  have many (k : List A) : later key k t =
      ((k.filter fun a => decide (t < key a)).map name).length := by
    rw [later, List.countP_eq_length_filter, List.length_map]
  rw [many, many]
  apply List.Subperm.length_le
  apply List.subperm_of_subset (distinct.sublist (List.filter_sublist.map _))
  intro n member
  obtain ⟨a, after, rfl⟩ := List.mem_map.mp member
  obtain ⟨here, greater⟩ := List.mem_filter.mp after
  obtain ⟨a', there, named, equal⟩ := kept a here
  exact named ▸ List.mem_map_of_mem (List.mem_filter.mpr ⟨there, equal ▸ greater⟩)

theorem moves_back (order : ∀ ties a b, r ties a b ↔
      key b < key a ∨ key a = key b ∧ ties (name a) ≤ ties (name b))
    (distinct : (l.map name).Nodup) (untied : (l.map key).Nodup) (untied' : (l'.map key).Nodup)
    (kept : ∀ a ∈ l, ∃ a' ∈ l', name a' = name a ∧ key a' = key a) (ties ties' : I → Nat) {i : Nat}
    {n : I} (at_i : ((l.insertionSort (r ties)).map name)[i]? = some n) :
    ∃ j, ((l'.insertionSort (r ties')).map name)[j]? = some n ∧ i ≤ j := by
  rw [List.getElem?_map] at at_i
  obtain ⟨a, place, rfl⟩ := Option.map_eq_some_iff.mp at_i
  have here := (List.mem_insertionSort _).mp (List.mem_of_getElem? place)
  obtain ⟨a', there, named, equal⟩ := kept a here
  obtain ⟨j, place'⟩ := List.mem_iff_getElem?.mp ((List.mem_insertionSort (r ties')).mpr there)
  refine ⟨j, ?_, ?_⟩
  · rw [List.getElem?_map, place', Option.map_some, named]
  · have counted (k : List A) (ties : I → Nat) :
        later key (k.insertionSort (r ties)) (key a) = later key k (key a) :=
      (List.perm_insertionSort _ k).countP_eq _
    have old := place_eq (falls_strictly order untied ties) place
    have new := place_eq (falls_strictly order untied' ties') place'
    rw [equal] at new
    rw [counted] at old new
    rw [← old, ← new]
    exact later_le distinct kept _

end

end Paging
