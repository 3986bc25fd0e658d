import SecondhandApi.EventPublisher

/-! The channel pool under any interleaving of `emitDistributed` calls: every channel has one
holder at most, every acquisition is released once, and how far the pool grows. -/
namespace SecondhandApi
open Interleaving Leases RabbitMQConnectionService

/-- What one turn of a call does to the pool and to what the call holds or waits for. -/
inductive Move (s : RabbitMQConnectionService) (e : Emission) :
    RabbitMQConnectionService → Emission → Prop where
  | stays {e'} (held : e'.held = e.held) (pending : e'.pending = e.pending)
      (log : e'.taken = e.taken ∧ e'.returned = e.returned) : Move s e s e'
  | takes {e'} {c : ChannelWrapper} (found : s.availableChannel = some c)
      (held : e'.held = c :: e.held) (pending : e'.pending = e.pending)
      (log : e'.taken = e.taken ++ [c] ∧ e'.returned = e.returned) : Move s e (s.markInUse c) e'
  | opens {e'} (none : s.availableChannel = none)
      (held : e'.held = e.held) (pending : e.pending = [] ∧ e'.pending = [s.createChannel.2])
      (log : e'.taken = e.taken ∧ e'.returned = e.returned) : Move s e s.createChannel.1 e'
  | joins {e'} {c : ChannelWrapper}
      (held : e'.held = c :: e.held) (pending : e.pending = [c] ∧ e'.pending = [])
      (log : e'.taken = e.taken ++ [c] ∧ e'.returned = e.returned) : Move s e (s.connected c) e'
  | fails {e'} {c : ChannelWrapper}
      (held : e'.held = e.held) (pending : e.pending = [c] ∧ e'.pending = [])
      (log : e'.taken = e.taken ∧ e'.returned = e.returned) : Move s e s e'
  | releases {e'} {c : ChannelWrapper}
      (held : e.held = c :: e'.held) (pending : e.pending = [] ∧ e'.pending = [])
      (log : e'.taken = e.taken ∧ e'.returned = e.returned ++ [c]) :
      Move s e (s.releaseChannel c) e'

namespace Emission

variable {s : RabbitMQConnectionService} {e : Emission}

/-- An activation that begins with nothing of its own. -/
theorem begins_moves {options : Option PublishOptions} {retrying : List ChannelWrapper}
    (held : retrying = e.held) (pending : e.pending = []) :
    Move s e (begins s { e with options := options, retrying := retrying }).1
      (begins s { e with options := options, retrying := retrying }).2 := by
  subst held
  unfold begins getChannel
  cases found : s.availableChannel with
  | some c => exact .takes found rfl pending.symm ⟨rfl, rfl⟩
  | none => exact .opens found rfl ⟨pending, rfl⟩ ⟨rfl, rfl⟩

theorem releases_moves {event : BaseEvent} {retrying : List ChannelWrapper} {c : ChannelWrapper}
    (ok : Bool) (held : e.held = c :: retrying) (pending : e.pending = []) :
    Move s e (releases s { e with event := event, retrying := retrying } c ok).1
      (releases s { e with event := event, retrying := retrying } c ok).2 :=
  .releases held ⟨pending, rfl⟩ ⟨rfl, rfl⟩

theorem catches_moves (event : BaseEvent) {c : ChannelWrapper} (held : e.stage.held = [c])
    (pending : e.pending = []) :
    Move s e (catches s { e with event := event } c).1 (catches s { e with event := event } c).2 := by
  have all : e.held = c :: e.retrying := by rw [Emission.held, held]; rfl
  unfold catches
  split
  · exact .stays all.symm pending.symm ⟨rfl, rfl⟩
  · exact releases_moves false all pending

theorem next_moves (s : RabbitMQConnectionService) (e : Emission) (event : EmissionEvent) :
    Move s e (e.next s event).1 (e.next s event).2 := by
  have unmoved : Move s e s e := .stays rfl rfl ⟨rfl, rfl⟩
  obtain ⟨ev, options, retrying, stage, taken, returned⟩ := e
  cases event with
  | connected ok =>
    cases stage with
    | connecting c =>
      cases ok with
      | true => exact .joins rfl ⟨rfl, rfl⟩ ⟨rfl, rfl⟩
      | false => exact .fails rfl ⟨rfl, rfl⟩ ⟨rfl, rfl⟩
    | _ => exact unmoved
  | resumed uuid now ok =>
    cases stage with
    | holding c =>
      cases ok with
      | true => exact .stays rfl rfl ⟨rfl, rfl⟩
      | false => exact catches_moves _ rfl rfl
    | _ => exact unmoved
  | published ok =>
    cases stage with
    | publishing c publication =>
      cases ok with
      | true => exact releases_moves true rfl rfl
      | false => exact catches_moves ev rfl rfl
    | _ => exact unmoved
  | slept =>
    cases stage with
    | sleeping c => exact begins_moves rfl rfl
    | _ => exact unmoved
  | retried =>
    cases stage with
    | settled ok =>
      cases retrying with
      | cons c outer => exact releases_moves ok rfl rfl
      | nil => exact unmoved
    | _ => exact unmoved

end Emission

namespace Publishing

/-- One turn is a move of one call, whatever the other calls hold or wait for. -/
theorem step_moves (t : Publishing) (turn : PublishingTurn) :
    ∃ e e' others waiting, Move t.service e (t.step turn).service e' ∧
      (t.held.Perm (e.held ++ others) ∧ (t.step turn).held.Perm (e'.held ++ others)) ∧
      (t.pending.Perm (e.pending ++ waiting) ∧
        (t.step turn).pending.Perm (e'.pending ++ waiting)) := by
  cases turn with
  | emitDistributed event options =>
    refine ⟨⟨event, options, [], .settled false, [], []⟩, _, t.held, t.pending,
      Emission.begins_moves rfl rfl, ⟨.refl _, ?_⟩, ⟨.refl _, ?_⟩⟩
    all_goals
      simp only [step, held, pending, List.flatMap_append, List.flatMap_singleton]
      exact List.perm_append_comm
  | goesOn i event =>
    cases found : t.calls[i]? with
    | none =>
      have same : t.step (.goesOn i event) = t := by simp only [step, found]
      rw [same]
      exact ⟨⟨⟨"", none, none⟩, none, [], .settled false, [], []⟩, _, t.held, t.pending,
        .stays rfl rfl ⟨rfl, rfl⟩, ⟨.refl _, .refl _⟩, ⟨.refl _, .refl _⟩⟩
    | some e =>
      have moved : t.step (.goesOn i event) =
          ⟨(e.next t.service event).1, t.calls.set i (e.next t.service event).2⟩ := by
        simp only [step, found]
      rw [moved]
      obtain ⟨others, before, after⟩ :=
        flatMap_set Emission.held found (e.next t.service event).2
      obtain ⟨waiting, before', after'⟩ :=
        flatMap_set Emission.pending found (e.next t.service event).2
      exact ⟨e, _, others, waiting, e.next_moves t.service event, ⟨before, after⟩,
        ⟨before', after'⟩⟩

/-- The books and the demand that pays for the size of the pool. -/
structure Kept (poolSize : Nat) (past : List Publishing) (t : Publishing) : Prop where
  balanced : t.service.Balanced t.held t.pending
  bounded : t.service.channelPool.length + t.pending.length ≤
    max poolSize (peak acquisitions past)

theorem kept_initialised (poolSize : Nat) :
    Kept poolSize [initialised poolSize] (initialised poolSize) where
  balanced := balanced_onModuleInit poolSize
  bounded := by
    simp only [initialised, onModuleInit_channelPool, List.length_range', pending,
      List.flatMap_nil, List.length_nil]
    exact Nat.le_max_left ..

theorem kept_step {poolSize : Nat} {past : List Publishing} {t : Publishing}
    (h : Kept poolSize past t) (turn : PublishingTurn) :
    Kept poolSize (past ++ [t.step turn]) (t.step turn) := by
  obtain ⟨e, e', others, waiting, move, ⟨held, held'⟩, pending, pending'⟩ := step_moves t turn
  have before := h.balanced.perm held pending
  have room := h.bounded
  have demand : (t.step turn).acquisitions =
      (e'.held ++ others).length + (e'.pending ++ waiting).length := by
    rw [acquisitions, held'.length_eq, pending'.length_eq]
  rw [pending.length_eq] at room
  suffices moved : (t.step turn).service.Balanced (e'.held ++ others) (e'.pending ++ waiting) ∧
      (t.step turn).service.channelPool.length + (e'.pending ++ waiting).length ≤
        max poolSize (max (peak acquisitions past) (t.step turn).acquisitions) by
    refine ⟨moved.1.perm held'.symm pending'.symm, ?_⟩
    rw [pending'.length_eq, peak_snoc]
    exact moved.2
  rw [demand]
  generalize (t.step turn).service = s' at move ⊢
  cases move with
  | stays same waits log =>
    rw [same, waits]
    exact ⟨before, by omega⟩
  | takes found got waits log =>
    rw [got, waits]
    exact ⟨before.available found, by simp only [markInUse_channelPool]; omega⟩
  | opens busy same waits log =>
    rw [waits.1] at before room
    rw [same, waits.2]
    have full := before.full busy
    refine ⟨before.connecting, ?_⟩
    simp only [createChannel_channelPool, List.length_append, List.length_cons, List.length_nil]
      at full room ⊢
    omega
  | joins got waits log =>
    rw [waits.1] at before room
    rw [got, waits.2]
    refine ⟨before.connected, ?_⟩
    simp only [connected_channelPool, List.length_append, List.length_cons, List.length_nil]
      at room ⊢
    omega
  | fails same waits log =>
    rw [waits.1] at before room
    rw [same, waits.2]
    refine ⟨before.failed, ?_⟩
    simp only [List.length_append, List.length_cons, List.length_nil] at room ⊢
    omega
  | releases had waits log =>
    rw [had] at before
    rw [waits.1] at before room
    rw [waits.2]
    exact ⟨before.release, by simp only [releaseChannel_channelPool]; omega⟩

/-- What the call got is what it holds and what it gave back. -/
def Logged (e : Emission) : Prop := e.taken.Perm (e.held ++ e.returned)

theorem logged_move {s s' : RabbitMQConnectionService} {e e' : Emission}
    (move : Move s e s' e') (h : Logged e) : Logged e' := by
  unfold Logged at h ⊢
  cases move with
  | stays held _ log => rwa [held, log.1, log.2]
  | takes _ held _ log =>
    rw [held, log.1, log.2]
    exact (List.perm_append_singleton _ _).trans (h.cons _)
  | opens _ held _ log => rwa [held, log.1, log.2]
  | joins held _ log =>
    rw [held, log.1, log.2]
    exact (List.perm_append_singleton _ _).trans (h.cons _)
  | fails held _ log => rwa [held, log.1, log.2]
  | releases held _ log =>
    rw [log.1, log.2]
    rw [held] at h
    refine h.trans ?_
    rw [← List.append_assoc]
    exact (List.perm_append_singleton _ _).symm

theorem logged_step {t : Publishing} (h : ∀ e ∈ t.calls, Logged e) (turn : PublishingTurn) :
    ∀ e ∈ (t.step turn).calls, Logged e := by
  intro e member
  cases turn with
  | emitDistributed event options =>
    rcases List.mem_append.mp member with old | new
    · exact h e old
    · rw [List.mem_singleton.mp new]
      exact logged_move (Emission.begins_moves rfl rfl)
        (show Logged ⟨event, options, [], .settled false, [], []⟩ from .refl _)
  | goesOn i event =>
    cases found : t.calls[i]? with
    | none => exact h e (by simpa only [step, found] using member)
    | some f =>
      simp only [step, found] at member
      rcases List.mem_or_eq_of_mem_set member with old | rfl
      · exact h e old
      · exact logged_move (f.next_moves t.service event) (h f (List.mem_of_getElem? found))

theorem held_of_settled {e : Emission} (h : e.outstanding = false) : e.held = [] := by
  obtain ⟨event, options, retrying, stage, taken, returned⟩ := e
  cases stage <;> simp_all [Emission.outstanding, Emission.held, Stage.held]

theorem held_of_idle {t : Publishing} (h : t.outstanding = 0) : t.held = [] := by
  refine List.flatMap_eq_nil_iff.mpr (fun e member => held_of_settled ?_)
  simpa using List.countP_eq_zero.mp h e member

/-- What is asked of the pool in a state, `past` being the states up to it. -/
structure Safe (poolSize : Nat) (past : List Publishing) (t : Publishing) : Prop where
  exclusive : t.held.Nodup
  inUse : t.service.channelsInUse.Perm t.held
  pooled : t.service.channelsInUse ⊆ t.service.channelPool
  distinct : t.service.channelPool.Nodup
  releasedOnce : ∀ e ∈ t.calls, e.taken.Perm (e.held ++ e.returned) ∧
    (e.outstanding = false → e.held = [])
  idle : t.outstanding = 0 → t.service.channelsInUse = []
  bounded : t.service.channelPool.length ≤ max poolSize (peak acquisitions past)

end Publishing

/-- Whatever calls there are, however they interleave and whichever of their steps fail. -/
theorem channel_pool_safe (poolSize : Nat) (turns : List PublishingTurn) :
    Publishing.Safe poolSize (visited Publishing.step (.initialised poolSize) turns)
      (run Publishing.step (.initialised poolSize) turns) := by
  have all : Along Publishing.step (fun _ _ => True) (.initialised poolSize) turns :=
    along_of_forall (fun _ _ => trivial)
  have kept := history_invariant (I := Publishing.Kept poolSize) (fun _ _ turn h _ => Publishing.kept_step h turn)
    (Publishing.kept_initialised poolSize) all
  have logged := run_keeps (I := fun t : Publishing => ∀ e ∈ t.calls, Publishing.Logged e)
    (fun _ turn h => Publishing.logged_step h turn)
    (s := .initialised poolSize) (fun e none => by cases none) turns
  exact {
    exclusive := kept.balanced.accounts.exclusive
    inUse := kept.balanced.accounts.marked
    pooled := kept.balanced.accounts.busy_subset
    distinct := kept.balanced.accounts.stock_nodup
    releasedOnce := fun e member => ⟨logged e member, Publishing.held_of_settled⟩
    idle := fun none => by
      have marked := kept.balanced.accounts.marked
      rw [Publishing.held_of_idle none] at marked
      exact marked.eq_nil
    bounded := Nat.le_trans (Nat.le_add_right ..) kept.bounded }

end SecondhandApi
