import Mathlib.Data.List.Dedup
import SecondhandApi.Table

/-! The exchanges, queues and bindings of a message broker: what declarations make of them, and
the queues that a message is copied to by the words of its key. -/
namespace Amqp
open Keyed

inductive ExchangeType where
  | direct | topic
  deriving DecidableEq

structure Exchange where
  type : ExchangeType
  durable : Bool
  deriving DecidableEq

structure QueueOptions where
  durable : Bool
  deadLetterExchange : Option String := none
  deadLetterRoutingKey : Option String := none
  maxPriority : Option Nat := none
  deriving DecidableEq

structure Binding where
  queue : String
  exchange : String
  pattern : String
  deriving DecidableEq

structure Topology where
  exchanges : Table String Exchange
  queues : Table String QueueOptions
  bindings : List Binding

namespace Topology

def empty : Topology := ⟨Table.empty, Table.empty, []⟩

end Topology

inductive Declaration where
  | assertExchange (name : String) (exchange : Exchange)
  | assertQueue (name : String) (options : QueueOptions)
  | bindQueue (binding : Binding)
  deriving DecidableEq

inductive Error where
  | preconditionFailed (name : String)
  | notFound (name : String)
  deriving DecidableEq

abbrev Word := List Char

def words (key : String) : List Word := key.toList.splitOn '.'

/-- `*` stands for one word, `#` for any number of them. -/
def matchesWords : List Word → List Word → Bool
  | [], key => key.isEmpty
  | w :: pattern, key =>
    if w = ['#'] then key.tails.any (matchesWords pattern)
    else match key with
      | [] => false
      | k :: key => (w = ['*'] || w = k) && matchesWords pattern key

theorem matchesWords_nil (key : List Word) : matchesWords [] key = true ↔ key = [] :=
  List.isEmpty_iff

theorem matchesWords_word {w : Word} (noHash : w ≠ ['#']) (noStar : w ≠ ['*'])
    (pattern key : List Word) :
    matchesWords (w :: pattern) key = true ↔
      ∃ rest, key = w :: rest ∧ matchesWords pattern rest = true := by
  cases key with
  | nil => rw [matchesWords, if_neg noHash]; simp
  | cons k key => rw [matchesWords, if_neg noHash]; simp [noStar, eq_comm (a := w)]

theorem matchesWords_star (pattern key : List Word) :
    matchesWords (['*'] :: pattern) key = true ↔
      ∃ action rest, key = action :: rest ∧ matchesWords pattern rest = true := by
  cases key with
  | nil => rw [matchesWords, if_neg (by decide)]; simp
  | cons k key => rw [matchesWords, if_neg (by decide)]; simp

def ExchangeType.accepts : ExchangeType → String → String → Bool
  | direct, pattern, key => pattern = key
  | topic, pattern, key => matchesWords (words pattern) (words key)

namespace Topology

/-- A name that is in use keeps what it was declared as. -/
def declare (t : Topology) : Declaration → Except Error Topology
  | .assertExchange name exchange =>
    match t.exchanges.find? name with
    | none => .ok { t with exchanges := t.exchanges.insert name exchange }
    | some old => if old = exchange then .ok t else .error (.preconditionFailed name)
  | .assertQueue name options =>
    match t.queues.find? name with
    | none => .ok { t with queues := t.queues.insert name options }
    | some old => if old = options then .ok t else .error (.preconditionFailed name)
  | .bindQueue binding =>
    if !t.queues.has binding.queue then .error (.notFound binding.queue)
    else if !t.exchanges.has binding.exchange then .error (.notFound binding.exchange)
    else if binding ∈ t.bindings then .ok t
    else .ok { t with bindings := t.bindings ++ [binding] }

/-- The queues that a message is copied to, each of them once. -/
def route (t : Topology) (exchange key : String) : List String :=
  match t.exchanges.find? exchange with
  | none => []
  | some x =>
    ((t.bindings.filter fun b => b.exchange = exchange && x.type.accepts b.pattern key).map
      (·.queue)).dedup

def deadLetterKey (t : Topology) (queue : String) : Option String :=
  (t.queues.find? queue).bind (·.deadLetterRoutingKey)

/-- Where a message of that key goes when its queue gives it up. -/
def deadLetterQueues (t : Topology) (queue key : String) : List String :=
  match (t.queues.find? queue).bind (·.deadLetterExchange) with
  | none => []
  | some exchange => t.route exchange ((t.deadLetterKey queue).getD key)

/-- What a declaration asks for is there. -/
def Holds (t : Topology) : Declaration → Prop
  | .assertExchange name exchange => t.exchanges.find? name = some exchange
  | .assertQueue name options => t.queues.find? name = some options
  | .bindQueue binding => binding ∈ t.bindings

theorem not_holds_empty (d : Declaration) : ¬ empty.Holds d := by
  cases d <;> simp [Holds, empty]

/-- The name is in use for something else. -/
def Conflicts (t : Topology) : Declaration → Prop
  | .assertExchange name exchange => ∃ old, t.exchanges.find? name = some old ∧ old ≠ exchange
  | .assertQueue name options => ∃ old, t.queues.find? name = some old ∧ old ≠ options
  | .bindQueue _ => False

/-- The names that a binding needs. -/
def Needs (t : Topology) : Declaration → Prop
  | .bindQueue binding => t.queues.has binding.queue = true ∧ t.exchanges.has binding.exchange = true
  | _ => True

variable {t t' : Topology} {d d' : Declaration}

/-- A declaration is refused exactly for a conflict, or for want of what it binds. -/
theorem declare_ok_iff (t : Topology) (d : Declaration) :
    (∃ t', t.declare d = .ok t') ↔ ¬ t.Conflicts d ∧ t.Needs d := by
  cases d with
  | assertExchange name exchange =>
    cases found : t.exchanges.find? name with
    | none => simp [declare, Conflicts, Needs, found]
    | some old => by_cases same : old = exchange <;> simp [declare, Conflicts, Needs, found, same]
  | assertQueue name options =>
    cases found : t.queues.find? name with
    | none => simp [declare, Conflicts, Needs, found]
    | some old => by_cases same : old = options <;> simp [declare, Conflicts, Needs, found, same]
  | bindQueue binding =>
    cases queue : t.queues.has binding.queue <;> cases exchange : t.exchanges.has binding.exchange <;>
      by_cases bound : binding ∈ t.bindings <;>
      simp [declare, Conflicts, Needs, queue, exchange, bound]

/-- Everything an accepted declaration does: it is in force then, and only it is new. -/
theorem declare_spec (h : t.declare d = .ok t') (d' : Declaration) :
    t'.Holds d' ↔ t.Holds d' ∨ d' = d := by
  cases d with
  | assertExchange name exchange =>
    cases found : t.exchanges.find? name with
    | none =>
      simp only [declare, found, Except.ok.injEq] at h
      subst h
      cases d' with
      | assertExchange name' exchange' =>
        by_cases same : name' = name
        · subst same
          simp [Holds, Table.find?_insert found, found, eq_comm]
        · simp [Holds, Table.find?_insert found, same]
      | assertQueue name' options => simp [Holds]
      | bindQueue binding => simp [Holds]
    | some old =>
      simp only [declare, found] at h
      split at h
      · rename_i same
        cases h
        subst same
        exact (or_iff_left_of_imp fun new => new ▸ found).symm
      · cases h
  | assertQueue name options =>
    cases found : t.queues.find? name with
    | none =>
      simp only [declare, found, Except.ok.injEq] at h
      subst h
      cases d' with
      | assertQueue name' options' =>
        by_cases same : name' = name
        · subst same
          simp [Holds, Table.find?_insert found, found, eq_comm]
        · simp [Holds, Table.find?_insert found, same]
      | assertExchange name' exchange => simp [Holds]
      | bindQueue binding => simp [Holds]
    | some old =>
      simp only [declare, found] at h
      split at h
      · rename_i same
        cases h
        subst same
        exact (or_iff_left_of_imp fun new => new ▸ found).symm
      · cases h
  | bindQueue binding =>
    simp only [declare] at h
    split at h
    · cases h
    split at h
    · cases h
    split at h
    · rename_i bound
      cases h
      exact (or_iff_left_of_imp fun new => new ▸ bound).symm
    · cases h
      cases d' <;> simp [Holds]

/-- Two declarations of one name that differ. -/
def Clashes : Declaration → Declaration → Prop
  | .assertExchange name exchange, .assertExchange name' exchange' =>
    name = name' ∧ exchange ≠ exchange'
  | .assertQueue name options, .assertQueue name' options' => name = name' ∧ options ≠ options'
  | _, _ => False

instance : DecidableRel Clashes := fun d d' => by
  cases d <;> cases d' <;> unfold Clashes <;> infer_instance

theorem conflicts_iff : t.Conflicts d ↔ ∃ d', Clashes d d' ∧ t.Holds d' := by
  cases d with
  | assertExchange name exchange =>
    constructor
    · rintro ⟨old, found, other⟩
      exact ⟨.assertExchange name old, ⟨rfl, other.symm⟩, found⟩
    · rintro ⟨d', clash, holds⟩
      cases d' with
      | assertExchange name' old => exact ⟨old, clash.1 ▸ holds, clash.2.symm⟩
      | assertQueue name' options => cases clash
      | bindQueue binding => cases clash
  | assertQueue name options =>
    constructor
    · rintro ⟨old, found, other⟩
      exact ⟨.assertQueue name old, ⟨rfl, other.symm⟩, found⟩
    · rintro ⟨d', clash, holds⟩
      cases d' with
      | assertQueue name' old => exact ⟨old, clash.1 ▸ holds, clash.2.symm⟩
      | assertExchange name' exchange => cases clash
      | bindQueue binding => cases clash
  | bindQueue binding =>
    constructor
    · exact False.elim
    · rintro ⟨d', clash, holds⟩
      cases d' <;> cases clash

/-- What is declared as asked is not declared as something else. -/
theorem Holds.not_conflicts (h : t.Holds d) : ¬ t.Conflicts d := by
  cases d with
  | assertExchange name exchange =>
    rintro ⟨old, found, other⟩
    exact other (Option.some.inj (found.symm.trans h))
  | assertQueue name options =>
    rintro ⟨old, found, other⟩
    exact other (Option.some.inj (found.symm.trans h))
  | bindQueue binding => exact id

theorem mem_route {exchange key queue : String} :
    queue ∈ t.route exchange key ↔ ∃ x pattern, t.Holds (.assertExchange exchange x) ∧
      t.Holds (.bindQueue ⟨queue, exchange, pattern⟩) ∧ x.type.accepts pattern key = true := by
  unfold route Holds
  cases found : t.exchanges.find? exchange with
  | none => simp [found]
  | some x =>
    simp only [List.mem_dedup, List.mem_map, List.mem_filter, Bool.and_eq_true, decide_eq_true_eq]
    constructor
    · rintro ⟨⟨queue, exchange, pattern⟩, ⟨bound, rfl, accepted⟩, rfl⟩
      exact ⟨x, pattern, found, bound, accepted⟩
    · rintro ⟨x', pattern, found', bound, accepted⟩
      cases found.symm.trans found'
      exact ⟨_, ⟨bound, rfl, accepted⟩, rfl⟩

theorem nodup_route (exchange key : String) : (t.route exchange key).Nodup := by
  unfold route
  split
  · exact List.nodup_nil
  · exact List.nodup_dedup _

theorem nodup_deadLetterQueues (queue key : String) : (t.deadLetterQueues queue key).Nodup := by
  unfold deadLetterQueues
  split
  · exact List.nodup_nil
  · exact nodup_route ..

theorem route_eq_toList {exchange key : String} {target : Option String}
    (h : ∀ queue, queue ∈ t.route exchange key ↔ target = some queue) :
    t.route exchange key = target.toList := by
  cases target with
  | none => exact List.eq_nil_iff_forall_not_mem.mpr fun queue member => by cases (h queue).mp member
  | some only =>
    have each (queue : String) : queue ∈ t.route exchange key ↔ queue = only := by
      simp [h, eq_comm]
    exact List.perm_singleton.mp
      ((List.perm_ext_iff_of_nodup (nodup_route ..) (List.nodup_singleton only)).mpr
        (by simpa using each))

end Topology

/-! Clients that all make the same declarations, each of them in the same order. -/

namespace Declaration

def name : Declaration → String
  | assertExchange name _ | assertQueue name _ => name
  | bindQueue binding => binding.queue

def queue? : Declaration → Option String
  | assertQueue name _ => some name
  | _ => none

def exchange? : Declaration → Option String
  | assertExchange name _ => some name
  | _ => none

/-- What the declaration needs is declared in `ds`. -/
def Supplied (ds : List Declaration) : Declaration → Prop
  | bindQueue binding =>
    (∃ d ∈ ds, d.queue? = some binding.queue) ∧ ∃ d ∈ ds, d.exchange? = some binding.exchange
  | _ => True

instance (ds : List Declaration) : DecidablePred (Supplied ds) := fun d => by
  cases d <;> unfold Supplied <;> infer_instance

end Declaration

/-- No two declarations of one name differ, and a binding comes after what it binds. -/
structure Consistent (ds : List Declaration) : Prop where
  clashless : ∀ d ∈ ds, ∀ d' ∈ ds, ¬ Topology.Clashes d d'
  supplied : ∀ i, ∀ h : i < ds.length, ds[i].Supplied (ds.take i)

namespace Topology

variable {t t' : Topology} {d d' : Declaration} {ds : List Declaration}

theorem Needs.of_supplied (h : d.Supplied ds) (holds : ∀ d ∈ ds, t.Holds d) : t.Needs d := by
  cases d with
  | assertExchange name exchange => trivial
  | assertQueue name options => trivial
  | bindQueue binding =>
    obtain ⟨⟨q, inQ, queue⟩, x, inX, exchange⟩ := h
    constructor
    · cases q with
      | assertQueue name options =>
        cases queue
        exact Table.has_iff.mpr ⟨options, holds _ inQ⟩
      | assertExchange name exchange => cases queue
      | bindQueue binding => cases queue
    · cases x with
      | assertExchange name options =>
        cases exchange
        exact Table.has_iff.mpr ⟨options, holds _ inX⟩
      | assertQueue name options => cases exchange
      | bindQueue binding => cases exchange

theorem declare_of_conflicts (h : t.Conflicts d) :
    t.declare d = .error (.preconditionFailed d.name) := by
  cases d with
  | assertExchange name exchange =>
    obtain ⟨old, found, other⟩ := h
    simp [declare, found, other, Declaration.name]
  | assertQueue name options =>
    obtain ⟨old, found, other⟩ := h
    simp [declare, found, other, Declaration.name]
  | bindQueue binding => cases h

/-- What was declared in `t` still is in `t'`, and besides that `ds` at most. -/
structure Grown (ds : List Declaration) (t t' : Topology) : Prop where
  kept : ∀ d, t.Holds d → t'.Holds d
  within : ∀ d, t'.Holds d → t.Holds d ∨ d ∈ ds

theorem Grown.refl (t : Topology) : Grown ds t t := ⟨fun _ => id, fun _ => Or.inl⟩

theorem Grown.declare {t'' : Topology} (h : Grown ds t t') (member : d ∈ ds)
    (declared : t'.declare d = .ok t'') : Grown ds t t'' where
  kept e holds := (declare_spec declared e).mpr (Or.inl (h.kept e holds))
  within e holds := by
    rcases (declare_spec declared e).mp holds with old | rfl
    · exact h.within e old
    · exact Or.inr member

/-- Among such clients a declaration can only conflict with what was there before them. -/
theorem Grown.conflicts (h : Grown ds t t') (clashless : ∀ d ∈ ds, ∀ d' ∈ ds, ¬ Clashes d d')
    (member : d ∈ ds) (conflict : t'.Conflicts d) : t.Conflicts d := by
  obtain ⟨e, clash, holds⟩ := conflicts_iff.mp conflict
  rcases h.within e holds with old | new
  · exact conflicts_iff.mpr ⟨e, clash, old⟩
  · exact absurd clash (clashless d member e new)

theorem Grown.not_conflicts (h : Grown ds t t') (holds : t'.Holds d) : ¬ t.Conflicts d := by
  intro conflict
  obtain ⟨e, clash, old⟩ := conflicts_iff.mp conflict
  exact holds.not_conflicts (conflicts_iff.mpr ⟨e, clash, h.kept e old⟩)

end Topology

end Amqp
