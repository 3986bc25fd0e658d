import SecondhandApi.ChannelPool

/-! Calls that hold a second channel. A retry runs inside the `try` whose `finally` releases
the channel of the failed attempt, so an attempt that gets a channel of its own makes two. -/
namespace SecondhandApi
open Interleaving Leases RabbitMQConnectionService

namespace Emission

/-- The back-off of a failed attempt ends while a channel is free, or the new channel of a
retry connects. -/
def servesRetry (s : RabbitMQConnectionService) (e : Emission) : EmissionEvent → Bool
  | .slept =>
    match e.stage with
    | .sleeping _ => s.availableChannel.isSome
    | _ => false
  | .connected ok =>
    match e.stage with
    | .connecting _ => ok && !e.retrying.isEmpty
    | _ => false
  | _ => false

variable {s : RabbitMQConnectionService} {e : Emission}

theorem catches_held (c : ChannelWrapper) (held : e.stage.held = [c]) :
    (catches s e c).2.held.length ≤ e.held.length ∧ (catches s e c).2.pending = [] ∧
      (catches s e c).1.channelPool = s.channelPool := by
  have all : e.held.length = e.retrying.length + 1 := by
    rw [Emission.held, held, List.singleton_append, List.length_cons]
  unfold catches
  split
  · exact ⟨Nat.le_of_eq all.symm, rfl, rfl⟩
  · exact ⟨all ▸ Nat.le_succ _, rfl, releaseChannel_channelPool ..⟩

theorem next_unserved (alone : e.held = [] → e.pending = []) {event : EmissionEvent}
    (h : e.servesRetry s event = false) :
    (e.next s event).2.held.length ≤ e.held.length ∧
      ((e.next s event).2.held = [] → (e.next s event).2.pending = []) ∧
      ((e.next s event).1.channelPool = s.channelPool) := by
  have unmoved : e.held.length ≤ e.held.length ∧ (e.held = [] → e.pending = []) ∧
      s.channelPool = s.channelPool := ⟨Nat.le_refl _, alone, rfl⟩
  obtain ⟨ev, options, retrying, stage, taken, returned⟩ := e
  cases event with
  | connected ok =>
    cases stage with
    | connecting c =>
      cases ok with
      | true =>
        have outer : retrying = [] := by simpa [servesRetry] using h
        subst outer
        cases alone rfl
      | false => exact ⟨Nat.le_refl _, fun _ => rfl, rfl⟩
    | _ => exact unmoved
  | resumed uuid now ok =>
    cases stage with
    | holding c =>
      cases ok with
      | true => exact ⟨Nat.le_refl _, fun none => (nomatch none), rfl⟩
      | false =>
        obtain ⟨fewer, none, pool⟩ := catches_held (s := s)
          (e := ⟨ev.identified uuid now, options, retrying, .holding c, taken, returned⟩) c rfl
        exact ⟨fewer, fun _ => none, pool⟩
    | _ => exact unmoved
  | published ok =>
    cases stage with
    | publishing c publication =>
      cases ok with
      | true => exact ⟨Nat.le_succ _, fun _ => rfl, releaseChannel_channelPool ..⟩
      | false =>
        obtain ⟨fewer, none, pool⟩ := catches_held (s := s)
          (e := ⟨ev, options, retrying, .publishing c publication, taken, returned⟩) c rfl
        exact ⟨fewer, fun _ => none, pool⟩
    | _ => exact unmoved
  | slept =>
    cases stage with
    | sleeping c =>
      have busy : s.availableChannel = none := by simpa [servesRetry] using h
      simp only [next, begins, getChannel, busy]
      exact ⟨Nat.le_refl _, fun none => (nomatch none), rfl⟩
    | _ => exact unmoved
  | retried =>
    cases stage with
    | settled ok =>
      cases retrying with
      | cons c outer => exact ⟨Nat.le_succ _, fun _ => rfl, releaseChannel_channelPool ..⟩
      | nil => exact unmoved
    | _ => exact unmoved

/-- The attempt before still holds its channel. -/
theorem next_served {event : EmissionEvent} (h : e.servesRetry s event = true) :
    2 ≤ (e.next s event).2.held.length := by
  obtain ⟨ev, options, retrying, stage, taken, returned⟩ := e
  cases event with
  | connected ok =>
    cases stage with
    | connecting c =>
      cases ok with
      | true =>
        cases retrying with
        | nil => cases h
        | cons d outer => exact Nat.le_add_left 2 _
      | false => cases h
    | _ => cases h
  | slept =>
    cases stage with
    | sleeping c =>
      obtain ⟨d, found⟩ := Option.isSome_iff_exists.mp h
      simp only [next, begins, getChannel, found]
      exact Nat.le_add_left 2 _
    | _ => cases h
  | _ => cases h

end Emission

namespace Publishing

def servesRetry (t : Publishing) : PublishingTurn → Bool
  | .emitDistributed .. => false
  | .goesOn i event =>
    match t.calls[i]? with
    | some e => e.servesRetry t.service event
    | none => false

/-- The pool has not grown beyond `n`, and each call holds one channel at most. -/
def Frugal (n : Nat) (t : Publishing) : Prop :=
  t.service.channelPool.length ≤ n ∧ ∀ e ∈ t.calls, e.held.length ≤ 1

/-- Only a call that holds a channel waits for another. -/
structure Single (n : Nat) (t : Publishing) : Prop where
  balanced : t.service.Balanced t.held t.pending
  size : t.service.channelPool.length = n
  one : ∀ e ∈ t.calls, e.held.length ≤ 1
  alone : ∀ e ∈ t.calls, e.held = [] → e.pending = []

theorem held_le_outstanding {calls : List Emission} (one : ∀ e ∈ calls, e.held.length ≤ 1) :
    (calls.flatMap Emission.held).length ≤ calls.countP Emission.outstanding := by
  induction calls with
  | nil => exact Nat.le_refl 0
  | cons e calls ih =>
    have rest := ih (fun f member => one f (List.mem_cons_of_mem _ member))
    have here := one e List.mem_cons_self
    rw [List.flatMap_cons, List.length_append, List.countP_cons]
    cases open_ : e.outstanding with
    | false =>
      rw [held_of_settled open_, List.length_nil]
      omega
    | true => simp only [if_true]; omega

theorem balanced_step {t : Publishing} (h : t.service.Balanced t.held t.pending)
    (turn : PublishingTurn) :
    (t.step turn).service.Balanced (t.step turn).held (t.step turn).pending := by
  have kept : Kept (t.service.channelPool.length + t.pending.length) [] t :=
    ⟨h, Nat.le_max_left ..⟩
  exact (kept_step kept turn).balanced

/-- The others hold one channel each, so one is free for a call that begins. -/
theorem single_begins {n : Nat} {t : Publishing} (h : Single n t) (e : Emission)
    (few : t.outstanding < n) :
    ∃ c, (Emission.begins t.service e).1.channelPool = t.service.channelPool ∧
      (Emission.begins t.service e).2 = e.holding c := by
  cases found : t.service.availableChannel with
  | some c =>
    simp only [Emission.begins, getChannel, found]
    exact ⟨c, markInUse_channelPool .., rfl⟩
  | none =>
    have full := h.balanced.full found
    have enough : t.held.length ≤ t.outstanding := held_le_outstanding h.one
    rw [h.size] at full
    omega

theorem single_step {n : Nat} {t : Publishing} (h : Single n t) {turn : PublishingTurn}
    (few : (t.step turn).outstanding ≤ n) (unserved : t.servesRetry turn = false) :
    Single n (t.step turn) := by
  have balanced := balanced_step h.balanced turn
  cases turn with
  | emitDistributed event options =>
    have room : t.outstanding < n := by
      refine Nat.lt_of_lt_of_le ?_ few
      simp only [step, outstanding, List.countP_append, List.countP_singleton]
      have open_ : (Emission.begins t.service
          ⟨event, options, [], .settled false, [], []⟩).2.outstanding = true := by
        unfold Emission.begins
        split <;> rfl
      rw [open_]
      exact Nat.lt_succ_self _
    obtain ⟨c, pool, begun⟩ :=
      single_begins h ⟨event, options, [], .settled false, [], []⟩ room
    have calls : (t.step (.emitDistributed event options)).calls =
        t.calls ++ [Emission.holding ⟨event, options, [], .settled false, [], []⟩ c] := by
      rw [← begun]; rfl
    refine ⟨balanced, (congrArg List.length pool).trans h.size, ?_, ?_⟩
    · rw [calls]
      exact List.forall_mem_append.mpr ⟨h.one, List.forall_mem_singleton.mpr (Nat.le_refl 1)⟩
    · rw [calls]
      exact List.forall_mem_append.mpr
        ⟨h.alone, List.forall_mem_singleton.mpr (fun none => absurd none (List.cons_ne_nil _ _))⟩
  | goesOn i event =>
    cases found : t.calls[i]? with
    | none =>
      have same : t.step (.goesOn i event) = t := by simp only [step, found]
      rwa [same]
    | some e =>
      have moved : t.step (.goesOn i event) =
          ⟨(e.next t.service event).1, t.calls.set i (e.next t.service event).2⟩ := by
        simp only [step, found]
      have member := List.mem_of_getElem? found
      simp only [servesRetry, found] at unserved
      obtain ⟨fewer, alone, pool⟩ := Emission.next_unserved (h.alone e member) unserved
      rw [moved] at balanced ⊢
      refine ⟨balanced, (congrArg List.length pool).trans h.size, ?_, ?_⟩
      · intro f among
        rcases List.mem_or_eq_of_mem_set among with old | rfl
        · exact h.one f old
        · exact Nat.le_trans fewer (h.one e member)
      · intro f among
        rcases List.mem_or_eq_of_mem_set among with old | rfl
        · exact h.alone f old
        · exact alone

theorem not_frugal_of_served {n : Nat} {t : Publishing} {turn : PublishingTurn}
    (served : t.servesRetry turn = true) : ¬ Frugal n (t.step turn) := by
  intro frugal
  cases turn with
  | emitDistributed event options => cases served
  | goesOn i event =>
    cases found : t.calls[i]? with
    | none => simp only [servesRetry, found] at served; cases served
    | some e =>
      simp only [servesRetry, found] at served
      have two := Emission.next_served served
      have inside : i < t.calls.length := (List.getElem?_eq_some_iff.mp found).1
      have member : (e.next t.service event).2 ∈ (t.step (.goesOn i event)).calls := by
        simp only [step, found]
        exact List.mem_set inside _
      exact absurd (frugal.2 _ member) (by omega)

theorem single_initialised (n : Nat) : Single n (initialised n) where
  balanced := balanced_onModuleInit n
  size := by rw [initialised, onModuleInit_channelPool, List.length_range']
  one _ none := nomatch none
  alone _ none := nomatch none

end Publishing

/-- In a run with `n` calls at most at a time, the pool stays at `n` channels and each call at
one exactly when no retry is served. -/
theorem one_channel_per_call_iff (n : Nat) (turns : List PublishingTurn)
    (few : ∀ t ∈ visited Publishing.step (.initialised n) turns, t.outstanding ≤ n) :
    (∀ t ∈ visited Publishing.step (.initialised n) turns, t.Frugal n) ↔
      Along Publishing.step (fun t turn => t.servesRetry turn = false) (.initialised n) turns := by
  have within : Along Publishing.step (fun t turn => (t.step turn).outstanding ≤ n)
      (.initialised n) turns := along_of_visited few
  refine always_iff_along_within (I := Publishing.Single n) ?_ ?_ ?_
    (Publishing.single_initialised n) within
  · intro t turn h room unserved
    exact Publishing.single_step h room unserved
  · intro t h
    exact ⟨Nat.le_of_eq h.size, h.one⟩
  · intro t turn _ _ served
    exact Publishing.not_frugal_of_served (Bool.of_not_eq_false served)

/-- A call with one retry, whose publish fails, up to the end of its back-off. -/
def failedAttempt : List PublishingTurn :=
  [.emitDistributed ⟨"order.created", none, none⟩ (some ⟨none, none, none, some 1⟩),
    .goesOn 0 (.resumed "e1" 0 true), .goesOn 0 (.published false), .goesOn 0 .slept]

/-- The only channel is taken, and the new channel does not connect. -/
theorem one_channel_unserved :
    Along Publishing.step (fun t turn => t.servesRetry turn = false) (.initialised 1)
      (failedAttempt ++ [.goesOn 0 (.connected false), .goesOn 0 .retried]) ∧
    ∀ t ∈ visited Publishing.step (.initialised 1)
      (failedAttempt ++ [.goesOn 0 (.connected false), .goesOn 0 .retried]), t.Frugal 1 := by
  have unserved : Along Publishing.step (fun t turn => t.servesRetry turn = false)
      (.initialised 1) (failedAttempt ++ [.goesOn 0 (.connected false), .goesOn 0 .retried]) := by
    decide
  exact ⟨unserved, (one_channel_per_call_iff 1 _ (by decide)).mpr unserved⟩

/-- One call at a time, with one retry: the pool of one channel has two from then on. -/
theorem retry_takes_second_channel :
    ¬ ∀ (n : Nat) (turns : List PublishingTurn),
      (∀ t ∈ visited Publishing.step (.initialised n) turns, t.outstanding ≤ n) →
      ∀ t ∈ visited Publishing.step (.initialised n) turns, t.Frugal n := by
  intro always
  have grown := (always 1 (failedAttempt ++ [.goesOn 0 (.connected true)]) (by decide)) _
    (run_mem_visited ..)
  exact absurd grown.1 (by decide)

end SecondhandApi
