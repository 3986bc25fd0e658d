import Mathlib.Data.List.Perm.Subperm
import Mathlib.Data.List.Nodup
import Mathlib.Data.List.Flatten

/-! Resources that are handed out one at a time, from a stock that grows when every
member is busy. `Accounted` is the bookkeeping between the stock, the marks on its busy
members, the holders and the members that are still being made. -/
namespace Leases

variable {α : Type}

structure Accounted (stock busy held pending : List α) : Prop where
  marked : busy.Perm held
  exclusive : held.Nodup
  stocked : held ⊆ stock
  distinct : (stock ++ pending).Nodup

namespace Accounted

variable {stock busy held pending : List α}

theorem stock_nodup (h : Accounted stock busy held pending) : stock.Nodup :=
  (List.nodup_append.mp h.distinct).1

theorem busy_subset (h : Accounted stock busy held pending) : busy ⊆ stock :=
  List.Subset.trans h.marked.subset h.stocked

theorem idle (stock : List α) (nodup : stock.Nodup) : Accounted stock [] [] [] where
  marked := .refl _
  exclusive := .nil
  stocked := List.nil_subset _
  distinct := by rwa [List.append_nil]

/-- Who holds what, and what is pending, matter as multisets only. -/
theorem perm (h : Accounted stock busy held pending) {held' pending' : List α}
    (same : held.Perm held') (waiting : pending.Perm pending') :
    Accounted stock busy held' pending' where
  marked := h.marked.trans same
  exclusive := same.nodup_iff.mp h.exclusive
  stocked := List.Subset.trans same.symm.subset h.stocked
  distinct := (waiting.append_left stock).nodup_iff.mp h.distinct

theorem take (h : Accounted stock busy held pending) {c : α} (member : c ∈ stock)
    (free : c ∉ busy) : Accounted stock (busy ++ [c]) (c :: held) pending where
  marked := (List.perm_append_singleton c busy).trans (h.marked.cons c)
  exclusive := List.nodup_cons.mpr ⟨fun taken => free (h.marked.symm.subset taken), h.exclusive⟩
  stocked := List.cons_subset.mpr ⟨member, h.stocked⟩
  distinct := h.distinct

theorem giveBack [BEq α] [LawfulBEq α] {c : α}
    (h : Accounted stock busy (c :: held) pending) :
    Accounted stock (busy.erase c) held pending where
  marked := by simpa using h.marked.erase c
  exclusive := h.exclusive.of_cons
  stocked := List.Subset.trans (List.subset_cons_self c held) h.stocked
  distinct := h.distinct

theorem request (h : Accounted stock busy held pending) {c : α} (fresh : c ∉ stock ++ pending) :
    Accounted stock busy held (c :: pending) where
  marked := h.marked
  exclusive := h.exclusive
  stocked := h.stocked
  distinct := List.perm_middle.nodup_iff.mpr (List.nodup_cons.mpr ⟨fresh, h.distinct⟩)

theorem abandon {c : α} (h : Accounted stock busy held (c :: pending)) :
    Accounted stock busy held pending where
  marked := h.marked
  exclusive := h.exclusive
  stocked := h.stocked
  distinct := (List.perm_middle.nodup_iff.mp h.distinct).of_cons

/-- A pending member arrives and is handed to the one who waited for it. -/
theorem arrive {c : α} (h : Accounted stock busy held (c :: pending)) :
    Accounted (stock ++ [c]) (busy ++ [c]) (c :: held) pending := by
  have fresh : c ∉ stock ++ pending :=
    (List.nodup_cons.mp (List.perm_middle.nodup_iff.mp h.distinct)).1
  have unmarked : c ∉ busy := fun marked =>
    fresh (List.mem_append_left _ (h.busy_subset marked))
  have grown : Accounted (stock ++ [c]) busy held pending :=
    { h with
      stocked := List.Subset.trans h.stocked (List.subset_append_left stock [c])
      distinct := by rw [List.append_assoc]; exact h.distinct }
  exact grown.take (by simp) unmarked

/-- Nothing is free only when as many are held as there are. -/
theorem length_held (h : Accounted stock busy held pending) (full : stock ⊆ busy) :
    held.length = stock.length :=
  Nat.le_antisymm (h.exclusive.subperm h.stocked).length_le
    (h.stock_nodup.subperm (List.Subset.trans full h.marked.subset)).length_le

end Accounted

section
variable {β : Type} (f : β → List α)

/-- What the holders have together, before and after one of them changed. -/
theorem flatMap_set {xs : List β} {i : Nat} {x : β} (hx : xs[i]? = some x) (y : β) :
    ∃ rest, (xs.flatMap f).Perm (f x ++ rest) ∧ ((xs.set i y).flatMap f).Perm (f y ++ rest) := by
  obtain ⟨inside, rfl⟩ := List.getElem?_eq_some_iff.mp hx
  refine ⟨(xs.take i).flatMap f ++ (xs.drop (i + 1)).flatMap f, ?_, ?_⟩
  · have split : xs = xs.take i ++ xs[i] :: xs.drop (i + 1) := by simp
    conv => lhs; rw [split]
    rw [List.flatMap_append, List.flatMap_cons]
    exact List.perm_append_comm_assoc _ _ _
  · rw [List.set_eq_take_append_cons_drop, if_pos inside, List.flatMap_append, List.flatMap_cons]
    exact List.perm_append_comm_assoc _ _ _

end

/-- The largest value a measure takes on a list of states. -/
def peak {β : Type} (measure : β → Nat) (states : List β) : Nat := (states.map measure).foldr max 0

theorem peak_snoc {β : Type} (measure : β → Nat) (states : List β) (s : β) :
    peak measure (states ++ [s]) = max (peak measure states) (measure s) := by
  induction states with
  | nil => simp [peak]
  | cons t states ih =>
    simp only [peak, List.cons_append, List.map_cons, List.foldr_cons] at ih ⊢
    rw [ih, Nat.max_assoc]

end Leases
