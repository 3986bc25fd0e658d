import SecondhandApi.Amqp.Broker
import SecondhandApi.Interleaving.Pool

/-! Clients among other clients: some make their declarations, some send and settle messages. -/
namespace Amqp
open Interleaving

inductive Call (M : Type) where
  | declare (d : Declaration)
  | event (e : Event M)

abbrev Call.Reply {M : Type} : Call M → Type
  | declare _ => Except Error Unit
  | event _ => Unit

def Broker.exec {M : Type} : (c : Call M) → Broker M → Broker M × c.Reply
  | .declare d, b =>
    match b.topology.declare d with
    | .ok t => ({ b with topology := t }, .ok ())
    | .error e => (b, .error e)
  | .event e, b => (b.step e, ())

section
variable {M : Type}

def declareAll : List Declaration → Request (Call M) Call.Reply Error Unit
  | [] => .done ()
  | d :: ds => .call (.declare d) fun
    | .ok _ => declareAll ds
    | .error e => .fail e

inductive Client (M : Type) where
  | setup
  | sends (e : Event M)

variable (M) in
def clients (setup : Request (Call M) Call.Reply Error Unit) :
    Service (Broker M) (Client M) (Call M) Call.Reply Error Unit where
  exec := Broker.exec
  program
    | .setup => setup
    | .sends e => .call (.event e) fun _ => .done ()

def Client.isSetup : Client M → Bool
  | setup => true
  | sends _ => false

/-- A setup has ended without an error. -/
def setUp (p : Pool (Broker M) (Client M) (Call M) Call.Reply Error Unit) : Bool :=
  p.threads.any fun t => t.op.isSetup &&
    match t.rest with
    | .done _ => true
    | _ => false

/-- How far a setup is: a first part of its declarations is in force, or it has met a name that
was in use for something else from the start. -/
inductive Progress (ds : List Declaration) (t₀ t : Topology) :
    Request (Call M) Call.Reply Error Unit → Prop
  | declared (before after : List Declaration) (split : ds = before ++ after)
      (inForce : ∀ d ∈ before, t.Holds d) : Progress ds t₀ t (declareAll after)
  | refused (d : Declaration) (member : d ∈ ds) (conflict : t₀.Conflicts d) :
      Progress ds t₀ t (.fail (.preconditionFailed d.name))

theorem Progress.mono {ds : List Declaration} {t₀ t t' : Topology}
    (kept : ∀ d, t.Holds d → t'.Holds d) {rest : Request (Call M) Call.Reply Error Unit}
    (h : Progress ds t₀ t rest) : Progress ds t₀ t' rest := by
  cases h with
  | declared before after split inForce =>
    exact .declared before after split fun d member => kept d (inForce d member)
  | refused d member conflict => exact .refused d member conflict

/-- Where a client stands. -/
def Client.Stands (ds : List Declaration) (t₀ t : Topology) :
    Client M → Request (Call M) Call.Reply Error Unit → Prop
  | setup, rest => Progress ds t₀ t rest
  | sends e, rest => rest = .call (.event e) (fun _ => .done ()) ∨ rest = .done ()

/-- Every topology that is reached has grown from the first, and so far is every setup. -/
structure Underway (ds : List Declaration) (t₀ : Topology)
    (p : Pool (Broker M) (Client M) (Call M) Call.Reply Error Unit) : Prop where
  grown : t₀.Grown ds p.store.topology
  stands : ∀ t ∈ p.threads, t.op.Stands ds t₀ p.store.topology t.rest

variable {ds : List Declaration} {t₀ t : Topology}

/-- What comes of the next declaration of a setup. -/
theorem declare_next (consistent : Consistent ds) (grown : t₀.Grown ds t) {d : Declaration}
    {before after : List Declaration} (split : ds = before ++ d :: after)
    (inForce : ∀ e ∈ before, t.Holds e) :
    (∃ t', t.declare d = .ok t' ∧ t₀.Grown ds t' ∧ (∀ e, t.Holds e → t'.Holds e) ∧ t'.Holds d) ∨
    (t.declare d = .error (.preconditionFailed d.name) ∧ t₀.Conflicts d) := by
  have member : d ∈ ds := split ▸ by simp
  by_cases conflict : t.Conflicts d
  · exact Or.inr ⟨Topology.declare_of_conflicts conflict,
      grown.conflicts consistent.clashless member conflict⟩
  · have supplied : d.Supplied before := by
      have here := consistent.supplied before.length (by simp [split])
      simpa [split] using here
    obtain ⟨t', declared⟩ := (Topology.declare_ok_iff t d).mpr
      ⟨conflict, Topology.Needs.of_supplied supplied inForce⟩
    have spec := Topology.declare_spec declared
    exact Or.inl ⟨t', declared, grown.declare member declared,
      fun e holds => (spec e).mpr (Or.inl holds), (spec d).mpr (Or.inr rfl)⟩

theorem Progress.next {c : Call M} {next : c.Reply → Request (Call M) Call.Reply Error Unit}
    (h : Progress ds t₀ t (.call c next)) :
    ∃ before d after, ds = before ++ d :: after ∧ (∀ e ∈ before, t.Holds e) ∧
      Request.call c next = declareAll (d :: after) := by
  generalize same : Request.call c next = rest at h
  cases h with
  | declared before after split inForce =>
    cases after with
    | nil => cases same
    | cons d after => exact ⟨before, d, after, split, inForce, rfl⟩
  | refused d member conflict => cases same

@[simp] theorem step_topology (b : Broker M) (e : Event M) :
    (b.step e).topology = b.topology := by
  cases e with
  | publish exchange m => simp [Broker.step, Broker.note]
  | deliver queue =>
    simp only [Broker.step]
    split <;> rfl
  | ack queue i =>
    simp only [Broker.step]
    split <;> rfl
  | reject queue i requeue =>
    simp only [Broker.step]
    split
    · rfl
    · cases requeue <;> simp [Broker.deadLetter, Broker.note, Broker.setReady, Broker.setUnacked]
  | expire queue =>
    simp only [Broker.step]
    split
    · rfl
    · split <;> simp [Broker.deadLetter, Broker.note, Broker.setReady]

/-- No call takes back a declaration. -/
theorem exec_keeps (c : Call M) (b : Broker M) {d : Declaration} (h : b.topology.Holds d) :
    (Broker.exec c b).1.topology.Holds d := by
  cases c with
  | declare e =>
    simp only [Broker.exec]
    split
    · rename_i declared
      exact (Topology.declare_spec declared d).mpr (Or.inl h)
    · exact h
  | event e => simpa [Broker.exec] using h

/-- What a step notes is by the topology that it finds. -/
def Entry.Records (t : Topology) : Entry M → Prop
  | published exchange key targets _ => targets = t.route exchange key
  | deadLettered queue targets _ => ∃ key, targets = t.deadLetterQueues queue key
  | acked _ _ => True

theorem deadLetter_ledger (b : Broker M) (queue : String) (m : Message M) :
    (b.deadLetter queue m).ledger = b.ledger ++
      [.deadLettered queue (b.topology.deadLetterQueues queue m.routingKey) m.body] := by
  simp [Broker.deadLetter, Broker.note]

theorem step_ledger (b : Broker M) (e : Event M) :
    ∃ new, (b.step e).ledger = b.ledger ++ new ∧ ∀ r ∈ new, r.Records b.topology := by
  have nothing : ∃ new, b.ledger = b.ledger ++ new ∧ ∀ r ∈ new, r.Records b.topology :=
    ⟨[], by simp, fun _ none => by cases none⟩
  cases e with
  | publish exchange m =>
    exact ⟨[.published exchange m.routingKey (b.topology.route exchange m.routingKey) m.body],
      by simp [Broker.step, Broker.note], by simp [Entry.Records]⟩
  | deliver queue =>
    simp only [Broker.step]
    split <;> exact nothing
  | ack queue i =>
    simp only [Broker.step]
    split
    · exact nothing
    · exact ⟨[_], rfl, by simp [Entry.Records]⟩
  | reject queue i requeue =>
    simp only [Broker.step]
    split
    · exact nothing
    · cases requeue with
      | true => exact nothing
      | false => exact ⟨[_], deadLetter_ledger .., by
          simp [Entry.Records, Broker.setUnacked]⟩
  | expire queue =>
    simp only [Broker.step]
    split
    · exact nothing
    · split
      · exact ⟨[_], deadLetter_ledger .., by
          simp [Entry.Records, Broker.setReady]⟩
      · exact nothing

/-- Only what is published arrives. -/
theorem arrivals_step [DecidableEq M] (b : Broker M) (q : String) (x : M) (e : Event M) :
    (b.step e).arrivals q x = b.arrivals q x +
      match e with
      | .publish exchange m =>
        if m.body = x then (b.topology.route exchange m.routingKey).count q else 0
      | _ => 0 := by
  have sent (b' : Broker M) (r : Entry M) (noted : b'.ledger = b.ledger ++ [r]) :
      b'.arrivals q x = b.arrivals q x + r.arrives q x := by
    rw [Broker.arrivals, noted, List.map_append, List.sum_append, List.map_singleton,
      List.sum_singleton]
    rfl
  cases e with
  | publish exchange m =>
    exact sent _ (.published exchange m.routingKey (b.topology.route exchange m.routingKey) m.body)
      (by simp [Broker.step, Broker.note])
  | deliver queue =>
    simp only [Broker.step]
    split <;> rfl
  | ack queue i =>
    simp only [Broker.step]
    split
    · rfl
    · rename_i m held
      exact sent _ (.acked queue m.body) rfl
  | reject queue i requeue =>
    simp only [Broker.step]
    split
    · rfl
    · rename_i m held
      cases requeue with
      | true => rfl
      | false => exact sent ((b.setUnacked queue _).deadLetter queue m) _ (deadLetter_ledger ..)
  | expire queue =>
    simp only [Broker.step]
    split
    · rfl
    · rename_i m rest first
      split
      · exact sent ((b.setReady queue rest).deadLetter queue m) _ (deadLetter_ledger ..)
      · rfl

theorem Client.Stands.mono {t' : Topology} (kept : ∀ d, t.Holds d → t'.Holds d) {op : Client M}
    {rest : Request (Call M) Call.Reply Error Unit} (h : op.Stands ds t₀ t rest) :
    op.Stands ds t₀ t' rest := by
  cases op with
  | setup => exact Progress.mono kept h
  | sends e => exact h

theorem underway_idle (b : Broker M) : Underway ds b.topology (Pool.idle b) :=
  ⟨.refl _, fun _ none => by cases none⟩

theorem underway_step (consistent : Consistent ds)
    {p : Pool (Broker M) (Client M) (Call M) Call.Reply Error Unit} (h : Underway ds t₀ p)
    (turn : Turn (Client M)) : Underway ds t₀ ((clients M (declareAll ds)).step p turn) := by
  have call (i : Nat) (t : Thread (Client M) (Call M) Call.Reply Error Unit) (c : Call M)
      (next : c.Reply → Request (Call M) Call.Reply Error Unit) (ht : p.threads[i]? = some t)
      (hr : t.rest = .call c next) :
      t₀.Grown ds (Broker.exec c p.store).1.topology ∧
      t.op.Stands ds t₀ (Broker.exec c p.store).1.topology (next (Broker.exec c p.store).2) := by
    have stands := h.stands t (List.mem_of_getElem? ht)
    rw [hr] at stands
    cases op : t.op with
    | setup =>
      rw [op] at stands
      obtain ⟨before, d, after, split, inForce, same⟩ := Progress.next stands
      cases same
      rcases declare_next consistent h.grown split inForce with
        ⟨t', declared, grown, kept, holds⟩ | ⟨refused, conflict⟩
      · simp only [Broker.exec, declared]
        refine ⟨grown, .declared (before ++ [d]) after (by simp [split]) ?_⟩
        intro e member
        rcases List.mem_append.mp member with old | new
        · exact kept e (inForce e old)
        · exact List.mem_singleton.mp new ▸ holds
      · simp only [Broker.exec, refused]
        exact ⟨h.grown, .refused d (split ▸ by simp) conflict⟩
    | sends e =>
      rw [op] at stands
      rcases stands with same | same
      · cases same
        simp only [Broker.exec, step_topology]
        exact ⟨h.grown, Or.inr rfl⟩
      · cases same
  constructor
  · exact (clients M (declareAll ds)).store_step (I := fun b => t₀.Grown ds b.topology) h.grown turn
      (fun i t c next _ ht hr => (call i t c next ht hr).1)
  · refine (clients M (declareAll ds)).threads_step
      (P := fun b t => t.op.Stands ds t₀ b.topology t.rest) h.stands turn (fun op _ => ?_) (fun i t c next _ ht hr => ?_)
    · cases op with
      | setup => exact .declared [] ds rfl (fun _ none => by cases none)
      | sends e => exact Or.inl rfl
    · exact ⟨fun u member => (h.stands u member).mono fun d => exec_keeps c p.store,
        (call i t c next ht hr).2⟩

theorem Progress.done {u : Unit} (h : Progress ds t₀ t (.done u : Request (Call M) _ _ _)) :
    ∀ d ∈ ds, t.Holds d := by
  generalize same : Request.done u = rest at h
  cases h with
  | declared before after split inForce =>
    cases after with
    | nil => simpa [split] using inForce
    | cons d after => cases same
  | refused d member conflict => cases same

theorem Progress.fail {e : Error} (h : Progress ds t₀ t (.fail e : Request (Call M) _ _ _)) :
    ∃ d ∈ ds, t₀.Conflicts d ∧ e = .preconditionFailed d.name := by
  generalize same : Request.fail e = rest at h
  cases h with
  | declared before after split inForce =>
    cases after with
    | nil => cases same
    | cons d after => cases same
  | refused d member conflict =>
    cases same
    exact ⟨d, member, conflict, rfl⟩

theorem underway_run (consistent : Consistent ds) (b : Broker M) (turns : List (Turn (Client M))) :
    Underway ds b.topology (run (clients M (declareAll ds)).step (Pool.idle b) turns) :=
  run_keeps (I := Underway ds b.topology) (fun _ turn h => underway_step consistent h turn)
    (underway_idle b) turns

theorem Underway.done {p : Pool (Broker M) (Client M) (Call M) Call.Reply Error Unit}
    (h : Underway ds t₀ p) {t : Thread (Client M) (Call M) Call.Reply Error Unit}
    (member : t ∈ p.threads) (op : t.op = .setup) {u : Unit} (ended : t.rest = .done u) :
    (∀ d ∈ ds, ¬ t₀.Conflicts d) ∧
      ∀ d, p.store.topology.Holds d ↔ t₀.Holds d ∨ d ∈ ds := by
  have stands := h.stands t member
  rw [op, ended] at stands
  have holds := Progress.done stands
  refine ⟨fun d inside => h.grown.not_conflicts (holds d inside), fun d => ⟨h.grown.within d, ?_⟩⟩
  rintro (old | new)
  · exact h.grown.kept d old
  · exact holds d new

theorem Underway.installed {p : Pool (Broker M) (Client M) (Call M) Call.Reply Error Unit}
    (h : Underway ds t₀ p) (ready : setUp p = true) (d : Declaration) :
    p.store.topology.Holds d ↔ t₀.Holds d ∨ d ∈ ds := by
  obtain ⟨t, member, ended⟩ := List.any_eq_true.mp ready
  obtain ⟨op, ended⟩ := Bool.and_eq_true_iff.mp ended
  have isSetup : t.op = .setup := by
    cases same : t.op with
    | setup => rfl
    | sends e => simp [same, Client.isSetup] at op
  cases rest : t.rest with
  | done u => exact (h.done member isSetup rest).2 d
  | fail e => simp [rest] at ended
  | call c next => simp [rest] at ended

theorem Underway.fail {p : Pool (Broker M) (Client M) (Call M) Call.Reply Error Unit}
    (h : Underway ds t₀ p) {t : Thread (Client M) (Call M) Call.Reply Error Unit}
    (member : t ∈ p.threads) (op : t.op = .setup) {e : Error} (ended : t.rest = .fail e) :
    ∃ d ∈ ds, t₀.Conflicts d ∧ e = .preconditionFailed d.name := by
  have stands := h.stands t member
  rw [op, ended] at stands
  exact Progress.fail stands

/-- What is noted in a run is by the topologies that the run goes through. -/
theorem noted_run (consistent : Consistent ds)
    {p : Pool (Broker M) (Client M) (Call M) Call.Reply Error Unit} (h : Underway ds t₀ p)
    {P : Entry M → Prop} (records : ∀ t e, t₀.Grown ds t →
      (∀ d, p.store.topology.Holds d → t.Holds d) → e.Records t → P e)
    (turns : List (Turn (Client M))) :
    ∃ new, (run (clients M (declareAll ds)).step p turns).store.ledger = p.store.ledger ++ new ∧
      ∀ e ∈ new, P e := by
  refine (run_keeps (I := fun q => Underway ds t₀ q ∧
      (∀ d, p.store.topology.Holds d → q.store.topology.Holds d) ∧
      ∃ new, q.store.ledger = p.store.ledger ++ new ∧ ∀ e ∈ new, P e)
    (fun q turn held => ?_) ⟨h, fun _ => id, [], by simp, fun _ none => by cases none⟩ turns).2.2
  obtain ⟨underway, kept, new, ledger, fine⟩ := held
  refine ⟨underway_step consistent underway turn, ?_⟩
  refine (clients M (declareAll ds)).store_step (I := fun b =>
    (∀ d, p.store.topology.Holds d → b.topology.Holds d) ∧
    ∃ new, b.ledger = p.store.ledger ++ new ∧ ∀ e ∈ new, P e) ⟨kept, new, ledger, fine⟩ turn
    (fun i t c next called ht hr => ⟨fun d holds => exec_keeps c q.store (kept d holds), ?_⟩)
  change ∃ new, (Broker.exec c q.store).1.ledger = _ ++ new ∧ _
  cases c with
  | declare d =>
    refine ⟨new, ?_, fine⟩
    rw [← ledger]
    simp only [Broker.exec]
    split <;> rfl
  | event e =>
    obtain ⟨more, step, recorded⟩ := step_ledger q.store e
    refine ⟨new ++ more, by simp [Broker.exec, step, ledger], fun r member => ?_⟩
    rcases List.mem_append.mp member with old | fresh
    · exact fine r old
    · exact records _ r underway.grown kept (recorded r fresh)

/-! Every copy of a message is accounted for at every moment, also while setups go on. -/

theorem balanced_run [DecidableEq M] {b : Broker M} {q : String} {x : M} (h : b.Balanced q x)
    (turns : List (Turn (Client M))) :
    (run (clients M (declareAll ds)).step (Pool.idle b) turns).store.Balanced q x := by
  refine run_keeps
    (I := fun p : Pool (Broker M) (Client M) (Call M) Call.Reply Error Unit =>
      p.store.Balanced q x) (fun p turn h => ?_) h turns
  refine (clients M (declareAll ds)).store_step (I := fun b => b.Balanced q x) h turn
    (fun i t c next _ _ _ => ?_)
  cases c with
  | declare d =>
    change (Broker.exec (.declare d) p.store).1.Balanced q x
    simp only [Broker.exec]
    split <;> exact h
  | event e => exact Broker.balanced_step h e

end

end Amqp
