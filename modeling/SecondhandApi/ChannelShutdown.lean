import SecondhandApi.ChannelPool

/-! The end of the channel pool: `disconnect` closes its channels one after the other, while calls
of `emitDistributed` still hold them, wait for new ones and give them back. -/
namespace SecondhandApi
open Interleaving RabbitMQConnectionService

/-- Where `disconnect` stands: it awaits the `close` of the channel at a place of the pool, or has
emptied the pool, or has given up in its `catch`. -/
inductive Shutdown where
  | running
  | closing (place : Nat)
  | emptied
  | failed
deriving DecidableEq

structure Stopping where
  publishing : Publishing
  shutdown : Shutdown
  closed : List ChannelWrapper

inductive StoppingTurn where
  | publishes (turn : PublishingTurn)
  | onModuleDestroy
  | closed (ok : Bool)

namespace Stopping

def initialised (poolSize : Nat) : Stopping := ⟨.initialised poolSize, .running, []⟩

def service (t : Stopping) : RabbitMQConnectionService := t.publishing.service

/-- `for (const channel of this.channelPool)`: the loop goes over the pool as it is by then, and
ends when there is no channel left. -/
def closes (t : Stopping) (place : Nat) : Stopping :=
  if place < t.service.channelPool.length then { t with shutdown := .closing place }
  else { t with
    publishing := { t.publishing with
      service := { t.service with channelPool := [], channelsInUse := [] } }
    shutdown := .emptied }

def step (t : Stopping) : StoppingTurn → Stopping
  | .publishes turn => { t with publishing := t.publishing.step turn }
  | .onModuleDestroy =>
    match t.shutdown with
    | .running => t.closes 0
    | _ => t
  | .closed ok =>
    match t.shutdown with
    | .closing place =>
      if ok then
        { t with closed := t.closed ++ t.service.channelPool[place]?.toList }.closes (place + 1)
      else { t with shutdown := .failed }
    | _ => t

end Stopping

namespace RabbitMQConnectionService

/-- The books beside channels that are still held though the pool was emptied. -/
structure Lasting (s : RabbitMQConnectionService) (live pending lost : List ChannelWrapper) :
    Prop where
  balanced : s.Balanced live pending
  apart : (s.channelPool ++ pending ++ lost).Nodup
  numbered : ∀ c ∈ lost, c < s.created

/-- What is held is leased from the pool or lost to it. -/
def Booked (s : RabbitMQConnectionService) (held pending : List ChannelWrapper) : Prop :=
  ∃ live lost, held.Perm (live ++ lost) ∧ s.Lasting live pending lost

variable {s : RabbitMQConnectionService} {held live pending lost : List ChannelWrapper}
  {c : ChannelWrapper}

theorem connected_created (s : RabbitMQConnectionService) (c : ChannelWrapper) :
    (s.connected c).created = s.created := by
  unfold RabbitMQConnectionService.connected markInUse
  split <;> rfl

theorem releaseChannel_created (s : RabbitMQConnectionService) (c : ChannelWrapper) :
    (s.releaseChannel c).created = s.created := by
  unfold releaseChannel
  split <;> rfl

theorem Lasting.held_nodup (h : s.Lasting live pending lost) : (live ++ lost).Nodup := by
  have accounts := h.balanced.accounts
  obtain ⟨-, distinct, separate⟩ := List.nodup_append.mp h.apart
  apply List.nodup_append.mpr
  exact ⟨accounts.exclusive, distinct, fun a there =>
    separate a (List.mem_append_left _ (accounts.stocked there))⟩

theorem Booked.exclusive (h : s.Booked held pending) : held.Nodup := by
  obtain ⟨live, lost, held, lasting⟩ := h
  exact held.nodup_iff.mpr lasting.held_nodup

theorem Booked.marked (h : s.Booked held pending) : s.channelsInUse ⊆ held := by
  obtain ⟨live, lost, held, lasting⟩ := h
  intro c inUse
  exact held.symm.subset (List.mem_append_left _ (lasting.balanced.accounts.marked.subset inUse))

theorem Booked.perm {held' pending' : List ChannelWrapper} (h : s.Booked held pending)
    (same : held.Perm held') (waiting : pending.Perm pending') : s.Booked held' pending' := by
  obtain ⟨live, lost, held, lasting⟩ := h
  refine ⟨live, lost, same.symm.trans held, lasting.balanced.perm (.refl _) waiting, ?_,
    lasting.numbered⟩
  have together : (s.channelPool ++ pending ++ lost).Perm (s.channelPool ++ pending' ++ lost) :=
    (waiting.append_left _).append_right _
  exact together.nodup_iff.mp lasting.apart

/-- The pool is emptied: what was leased from it is lost. -/
theorem Booked.emptied (h : s.Booked held pending) :
    ({ s with channelPool := [], channelsInUse := [] } : RabbitMQConnectionService).Booked held
      pending := by
  obtain ⟨live, lost, held, lasting⟩ := h
  have accounts := lasting.balanced.accounts
  refine ⟨[], live ++ lost, held, ⟨⟨.refl _, .nil, List.nil_subset _, ?_⟩, ?_⟩, ?_, ?_⟩
  · exact (List.nodup_append.mp accounts.distinct).2.1
  · exact fun c waits => lasting.balanced.numbered c (List.mem_append_right _ waits)
  · obtain ⟨distinct, -, separate⟩ := List.nodup_append.mp lasting.apart
    obtain ⟨-, waiting, others⟩ := List.nodup_append.mp distinct
    apply List.nodup_append.mpr
    refine ⟨waiting, lasting.held_nodup, fun a waits b member => ?_⟩
    rcases List.mem_append.mp member with leased | old
    · exact (others b (accounts.stocked leased) a waits).symm
    · exact separate a (List.mem_append_right _ waits) b old
  · intro c member
    rcases List.mem_append.mp member with leased | old
    · exact lasting.balanced.numbered c (List.mem_append_left _ (accounts.stocked leased))
    · exact lasting.numbered c old

theorem Booked.available (h : s.Booked held pending) (found : s.availableChannel = some c) :
    (s.markInUse c).Booked (c :: held) pending := by
  obtain ⟨live, lost, held, lasting⟩ := h
  have balanced := lasting.balanced.available found
  refine ⟨c :: live, lost, held.cons c, balanced, ?_, ?_⟩
  · rw [markInUse_channelPool]
    exact lasting.apart
  · rw [markInUse_free (availableChannel_some found).2]
    exact lasting.numbered

theorem Booked.connecting (h : s.Booked held pending) :
    s.createChannel.1.Booked held (s.createChannel.2 :: pending) := by
  obtain ⟨live, lost, held, lasting⟩ := h
  refine ⟨live, lost, held, lasting.balanced.connecting, ?_, fun c member =>
    Nat.lt_succ_of_lt (lasting.numbered c member)⟩
  have fresh : s.created ∉ s.channelPool ++ pending ++ lost := by
    intro member
    rcases List.mem_append.mp member with known | old
    · exact Nat.lt_irrefl _ (lasting.balanced.numbered _ known)
    · exact Nat.lt_irrefl _ (lasting.numbered _ old)
  have front : (s.channelPool ++ s.created :: pending ++ lost).Perm
      (s.created :: (s.channelPool ++ pending ++ lost)) :=
    (List.perm_middle (a := s.created)).append_right lost
  exact front.nodup_iff.mpr (List.nodup_cons.mpr ⟨fresh, lasting.apart⟩)

theorem Booked.connected (h : s.Booked held (c :: pending)) :
    (s.connected c).Booked (c :: held) pending := by
  obtain ⟨live, lost, held, lasting⟩ := h
  refine ⟨c :: live, lost, held.cons c, lasting.balanced.connected, ?_, ?_⟩
  · rw [connected_channelPool, List.append_assoc s.channelPool]
    exact lasting.apart
  · intro d member
    rw [connected_created]
    exact lasting.numbered d member

theorem Booked.failed (h : s.Booked held (c :: pending)) : s.Booked held pending := by
  obtain ⟨live, lost, held, lasting⟩ := h
  refine ⟨live, lost, held, lasting.balanced.failed, ?_, lasting.numbered⟩
  have front : (s.channelPool ++ c :: pending ++ lost).Perm
      (c :: (s.channelPool ++ pending ++ lost)) :=
    List.perm_middle.append_right lost
  exact (front.nodup_iff.mp lasting.apart).of_cons

/-- A channel that was lost is given back without a trace. -/
theorem Booked.release (h : s.Booked (c :: held) pending) :
    (s.releaseChannel c).Booked held pending := by
  have exclusive := h.exclusive
  obtain ⟨live, lost, split, lasting⟩ := h
  by_cases leased : c ∈ live
  · have rest : held.Perm (live.erase c ++ lost) := by
      have first : (c :: held).Perm (c :: (live.erase c ++ lost)) :=
        split.trans ((List.perm_cons_erase leased).append_right lost)
      exact first.cons_inv
    have balanced := (lasting.balanced.perm (List.perm_cons_erase leased) (.refl _)).release
    refine ⟨live.erase c, lost, rest, balanced, ?_, ?_⟩
    · rw [releaseChannel_channelPool]
      exact lasting.apart
    · rw [releaseChannel_created]
      exact lasting.numbered
  · have unmarked : c ∉ s.channelsInUse := fun inUse =>
      leased (lasting.balanced.accounts.marked.subset inUse)
    have gone : c ∈ lost :=
      (List.mem_append.mp (split.subset List.mem_cons_self)).resolve_left leased
    have rest : held.Perm (live ++ lost.erase c) := by
      have first : (c :: held).Perm (c :: (live ++ lost.erase c)) :=
        split.trans (((List.perm_cons_erase gone).append_left live).trans List.perm_middle)
      exact first.cons_inv
    rw [releaseChannel, if_neg unmarked]
    refine ⟨live, lost.erase c, rest, lasting.balanced, ?_, fun d member =>
      lasting.numbered d (List.mem_of_mem_erase member)⟩
    exact lasting.apart.sublist ((List.erase_sublist).append_left _)

/-- One turn of a call, whatever the other calls hold or wait for. -/
theorem booked_move {s s' : RabbitMQConnectionService} {e e' : Emission}
    {others waiting : List ChannelWrapper} (move : Move s e s' e')
    (h : s.Booked (e.held ++ others) (e.pending ++ waiting)) :
    s'.Booked (e'.held ++ others) (e'.pending ++ waiting) := by
  cases move with
  | stays held pending log => rwa [held, pending]
  | takes found held pending log =>
    rw [held, pending]
    exact h.available found
  | opens none held pending log =>
    rw [pending.1] at h
    rw [held, pending.2]
    exact h.connecting
  | joins held pending log =>
    rw [pending.1] at h
    rw [held, pending.2]
    exact h.connected
  | fails held pending log =>
    rw [pending.1] at h
    rw [held, pending.2]
    exact h.failed
  | releases held pending log =>
    rw [held, pending.1] at h
    rw [pending.2]
    exact h.release

end RabbitMQConnectionService

namespace Stopping

/-- Which channels are closed at this point of the shutdown. -/
def Progress (t : Stopping) : Prop :=
  match t.shutdown with
  | .running => t.closed = []
  | .closing place => place < t.service.channelPool.length ∧
      t.closed = t.service.channelPool.take place
  | .failed => ∃ place ≤ t.service.channelPool.length,
      t.closed = t.service.channelPool.take place
  | .emptied => t.closed.Nodup ∧ ∀ c ∈ t.closed,
      c ∉ t.service.channelPool ∧ c ∉ t.publishing.pending ∧ c < t.service.created

structure Kept (t : Stopping) : Prop where
  booked : t.service.Booked t.publishing.held t.publishing.pending
  progress : t.Progress
  known : ∀ e ∈ t.publishing.calls, ∀ c ∈ e.taken, c ∈ t.closed ∨ c ∈ t.service.channelPool

theorem kept_initialised (poolSize : Nat) : Kept (initialised poolSize) where
  booked := by
    have balanced := balanced_onModuleInit poolSize
    refine ⟨[], [], .refl _, balanced, ?_, nofun⟩
    rw [List.append_nil]
    exact balanced.accounts.distinct
  progress := rfl
  known := fun _ none => by cases none

/-- A move of a call leaves the pool as it is or puts a channel at its end that was waited for. -/
theorem move_pool {s s' : RabbitMQConnectionService} {e e' : Emission} (move : Move s e s' e') :
    (∃ new, s'.channelPool = s.channelPool ++ new ∧ new ⊆ e.pending) ∧ s.created ≤ s'.created ∧
      (∀ c ∈ e'.pending, c ∈ e.pending ∨ s.created ≤ c) ∧
      ∀ c ∈ e'.taken, c ∈ e.taken ∨ c ∈ s'.channelPool := by
  cases move with
  | stays held pending log =>
    refine ⟨⟨[], by simp, by simp⟩, Nat.le_refl _, fun c => ?_, fun c => ?_⟩
    · exact fun waits => Or.inl (pending ▸ waits)
    · exact fun had => Or.inl (log.1 ▸ had)
  | takes found held pending log =>
    rw [markInUse_free (availableChannel_some found).2]
    refine ⟨⟨[], by simp, by simp⟩, Nat.le_refl _, fun c => ?_, fun c had => ?_⟩
    · exact fun waits => Or.inl (pending ▸ waits)
    · rw [log.1] at had
      rcases List.mem_append.mp had with old | new
      · exact Or.inl old
      · exact Or.inr (List.mem_singleton.mp new ▸ (availableChannel_some found).1)
  | opens none held pending log =>
    refine ⟨⟨[], by simp, by simp⟩, Nat.le_succ _, fun c waits => ?_, fun c => ?_⟩
    · rw [pending.2] at waits
      exact Or.inr (Nat.le_of_eq (List.mem_singleton.mp waits).symm)
    · exact fun had => Or.inl (log.1 ▸ had)
  | @joins e' d held pending log =>
    refine ⟨⟨[d], connected_channelPool s d, by simp [pending.1]⟩,
      Nat.le_of_eq (connected_created s d).symm, fun c waits => ?_, fun c had => ?_⟩
    · rw [pending.2] at waits
      cases waits
    · rw [log.1] at had
      rw [connected_channelPool]
      rcases List.mem_append.mp had with old | new
      · exact Or.inl old
      · exact Or.inr (List.mem_append_right _ new)
  | fails held pending log =>
    refine ⟨⟨[], by simp, by simp⟩, Nat.le_refl _, fun c waits => ?_, fun c => ?_⟩
    · rw [pending.2] at waits
      cases waits
    · exact fun had => Or.inl (log.1 ▸ had)
  | @releases e' d held pending log =>
    refine ⟨⟨[], by simp, by simp⟩, Nat.le_of_eq (releaseChannel_created s d).symm,
      fun c waits => ?_, fun c => ?_⟩
    · rw [pending.2] at waits
      cases waits
    · exact fun had => Or.inl (log.1 ▸ had)

/-- A channel that a call was given is closed or in the pool. -/
def Known (closed pool : List ChannelWrapper) (e : Emission) : Prop :=
  ∀ c ∈ e.taken, c ∈ closed ∨ c ∈ pool

theorem known_move {s s' : RabbitMQConnectionService} {e e' : Emission} (move : Move s e s' e')
    {closed : List ChannelWrapper} (h : Known closed s.channelPool e) :
    Known closed s'.channelPool e' := by
  obtain ⟨⟨new, grown, -⟩, -, -, taken⟩ := move_pool move
  intro c had
  rcases taken c had with old | there
  · rw [grown]
    exact (h c old).imp_right (List.mem_append_left new)
  · exact Or.inr there

theorem known_publishes {t : Publishing} {closed : List ChannelWrapper}
    (h : ∀ e ∈ t.calls, Known closed t.service.channelPool e) (turn : PublishingTurn) :
    ∀ e ∈ (t.step turn).calls, Known closed (t.step turn).service.channelPool e := by
  have others {s' : RabbitMQConnectionService} {e e' : Emission} (move : Move t.service e s' e')
      (f : Emission) (member : f ∈ t.calls) : Known closed s'.channelPool f := by
    obtain ⟨⟨new, grown, -⟩, -⟩ := move_pool move
    intro c had
    rw [grown]
    exact (h f member c had).imp_right (List.mem_append_left new)
  cases turn with
  | emitDistributed event options =>
    have start : Known closed t.service.channelPool
        ⟨event, options, [], .settled false, [], []⟩ := fun c none => by cases none
    intro e member
    rcases List.mem_append.mp member with old | new
    · exact others (e := ⟨event, options, [], .settled false, [], []⟩)
        (Emission.begins_moves rfl rfl) e old
    · rw [List.mem_singleton.mp new]
      exact known_move (Emission.begins_moves rfl rfl) start
  | goesOn i event =>
    cases found : t.calls[i]? with
    | none =>
      have same : t.step (.goesOn i event) = t := by simp only [Publishing.step, found]
      rw [same]
      exact h
    | some e =>
      have move := e.next_moves t.service event
      simp only [Publishing.step, found]
      intro f member
      rcases List.mem_or_eq_of_mem_set member with old | rfl
      · exact others move f old
      · exact known_move move (h e (List.mem_of_getElem? found))

theorem kept_publishes {t : Stopping} (h : Kept t) (turn : PublishingTurn) :
    Kept (t.step (.publishes turn)) := by
  obtain ⟨e, e', others, waiting, move, ⟨held, held'⟩, pending, pending'⟩ :=
    t.publishing.step_moves turn
  obtain ⟨⟨new, grown, asked⟩, created, waits, -⟩ := move_pool move
  refine ⟨(booked_move move (h.booked.perm held pending)).perm held'.symm pending'.symm, ?_,
    known_publishes h.known turn⟩
  have progress := h.progress
  unfold Progress at progress ⊢
  simp only [step, service] at progress grown created ⊢
  cases at_ : t.shutdown with
  | running =>
    rw [at_] at progress
    exact progress
  | closing place =>
    rw [at_] at progress
    obtain ⟨inside, closed⟩ := progress
    dsimp only
    rw [grown, List.take_append_of_le_length (Nat.le_of_lt inside), List.length_append]
    exact ⟨Nat.lt_of_lt_of_le inside (Nat.le_add_right _ _), closed⟩
  | failed =>
    rw [at_] at progress
    obtain ⟨place, inside, closed⟩ := progress
    dsimp only
    rw [grown, List.length_append]
    refine ⟨place, Nat.le_trans inside (Nat.le_add_right _ _), ?_⟩
    rw [List.take_append_of_le_length inside, closed]
  | emptied =>
    rw [at_] at progress
    obtain ⟨once, retired⟩ := progress
    refine ⟨once, fun c member => ?_⟩
    obtain ⟨unpooled, unasked, old⟩ := retired c member
    have unasked' : c ∉ e.pending ++ waiting := fun there => unasked (pending.symm.subset there)
    refine ⟨?_, ?_, Nat.lt_of_lt_of_le old created⟩
    · rw [grown]
      intro there
      rcases List.mem_append.mp there with before | joined
      · exact unpooled before
      · exact unasked' (List.mem_append_left _ (asked joined))
    · intro there
      rcases List.mem_append.mp (pending'.subset there) with own | other
      · rcases waits c own with before | fresh
        · exact unasked' (List.mem_append_left _ before)
        · exact absurd old (Nat.not_lt.mpr fresh)
      · exact unasked' (List.mem_append_right _ other)

/-- The head of the loop. -/
theorem kept_closes {t : Stopping} {place : Nat}
    (booked : t.service.Booked t.publishing.held t.publishing.pending)
    (closed : t.closed = t.service.channelPool.take place)
    (known : ∀ e ∈ t.publishing.calls, Known t.closed t.service.channelPool e) :
    Kept (t.closes place) := by
  unfold closes
  split
  · rename_i more
    exact ⟨booked, ⟨more, closed⟩, known⟩
  · rename_i done
    have all : t.closed = t.service.channelPool := by
      rw [closed, List.take_of_length_le (Nat.not_lt.mp done)]
    refine ⟨booked.emptied, ?_, fun e member c had => Or.inl ?_⟩
    · obtain ⟨live, lost, -, lasting⟩ := booked
      obtain ⟨once, -, apart⟩ := List.nodup_append.mp lasting.balanced.accounts.distinct
      change t.closed.Nodup ∧ ∀ c ∈ t.closed, c ∉ [] ∧ c ∉ t.publishing.pending ∧
        c < t.service.created
      rw [all]
      refine ⟨once, fun c member => ⟨List.not_mem_nil, fun waits => apart c member c waits rfl, ?_⟩⟩
      exact lasting.balanced.numbered c (List.mem_append_left _ member)
    · rcases known e member c had with before | pooled
      · exact before
      · exact all ▸ pooled

theorem kept_step {t : Stopping} (h : Kept t) (turn : StoppingTurn) : Kept (t.step turn) := by
  have progress := h.progress
  unfold Progress at progress
  cases turn with
  | publishes turn => exact kept_publishes h turn
  | onModuleDestroy =>
    unfold step
    cases at_ : t.shutdown with
    | running =>
      rw [at_] at progress
      exact kept_closes h.booked progress h.known
    | _ => exact h
  | closed ok =>
    unfold step
    cases at_ : t.shutdown with
    | closing place =>
      rw [at_] at progress
      obtain ⟨inside, closed⟩ := progress
      cases ok with
      | true =>
        refine kept_closes h.booked ?_ fun e member c had => ?_
        · rw [List.take_add_one, closed]
          rfl
        · exact (h.known e member c had).imp_left (List.mem_append_left _)
      | false => exact ⟨h.booked, ⟨place, Nat.le_of_lt inside, closed⟩, h.known⟩
    | _ => exact h

/-- What is asked of the pool while it is shut down. -/
structure Safe (t : Stopping) : Prop where
  exclusive : t.publishing.held.Nodup
  marked : t.service.channelsInUse ⊆ t.publishing.held
  known : ∀ e ∈ t.publishing.calls, ∀ c ∈ e.taken, c ∈ t.closed ∨ c ∈ t.service.channelPool
  closedOnce : t.closed.Nodup
  inOrder : ∀ place, t.shutdown = .closing place →
    place < t.service.channelPool.length ∧ t.closed = t.service.channelPool.take place
  retired : t.shutdown = .emptied → ∀ c ∈ t.closed, c ∉ t.service.channelPool

end Stopping

/-- Whatever calls of `emitDistributed` are on their way when the module is destroyed, however they
and the closing of the channels interleave and whichever of their steps fail: no channel has two
holders, each is closed once at most, every channel that a call was ever given is closed or in the
pool, and once the pool was emptied no closed channel comes back to it. -/
theorem channels_shut (poolSize : Nat) (turns : List StoppingTurn) :
    (run Stopping.step (.initialised poolSize) turns).Safe := by
  have kept := run_keeps (I := Stopping.Kept) (fun _ turn h => Stopping.kept_step h turn)
    (Stopping.kept_initialised poolSize) turns
  generalize run Stopping.step (.initialised poolSize) turns = t at kept
  have progress := kept.progress
  have pooled : t.service.channelPool.Nodup := by
    obtain ⟨live, lost, -, lasting⟩ := kept.booked
    exact lasting.balanced.accounts.stock_nodup
  unfold Stopping.Progress at progress
  refine ⟨kept.booked.exclusive, kept.booked.marked, kept.known, ?_, fun place at_ => ?_,
    fun at_ c member => ?_⟩
  · cases at_ : t.shutdown with
    | running =>
      rw [at_] at progress
      rw [progress]
      exact .nil
    | closing place =>
      rw [at_] at progress
      rw [progress.2]
      exact pooled.sublist (List.take_sublist _ _)
    | failed =>
      rw [at_] at progress
      obtain ⟨place, -, closed⟩ := progress
      rw [closed]
      exact pooled.sublist (List.take_sublist _ _)
    | emptied =>
      rw [at_] at progress
      exact progress.1
  · rw [at_] at progress
    exact progress
  · rw [at_] at progress
    exact (progress.2 c member).1

end SecondhandApi
