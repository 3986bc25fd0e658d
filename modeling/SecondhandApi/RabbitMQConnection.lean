import SecondhandApi.Leases

/-! `src/rabbitmq/rabbitmq-connection.service.ts`: the pool of channels between
`onModuleInit` and `onModuleDestroy`. A channel is known by the number of `createChannel`
calls before the one that made it. -/
namespace SecondhandApi
open Leases

abbrev ChannelWrapper := Nat

/-- `created` counts the calls of `connection.createChannel`. -/
structure RabbitMQConnectionService where
  channelPool : List ChannelWrapper
  channelsInUse : List ChannelWrapper
  created : Nat
deriving Repr, DecidableEq

/-- How far `getChannel` comes before its first `await`. -/
inductive Getting where
  | available (channel : ChannelWrapper)
  | connecting (newChannel : ChannelWrapper)

namespace RabbitMQConnectionService

def createChannel (s : RabbitMQConnectionService) : RabbitMQConnectionService × ChannelWrapper :=
  ({ s with created := s.created + 1 }, s.created)

/-- `channelsInUse.add`: a `Set` keeps the order of its first insertions. -/
def markInUse (s : RabbitMQConnectionService) (channel : ChannelWrapper) :
    RabbitMQConnectionService :=
  if channel ∈ s.channelsInUse then s
  else { s with channelsInUse := s.channelsInUse ++ [channel] }

def push (s : RabbitMQConnectionService) (channel : ChannelWrapper) : RabbitMQConnectionService :=
  { s with channelPool := s.channelPool ++ [channel] }

/-- The loop of `createChannelPool`, every channel of which connects. -/
def createChannelPool : Nat → RabbitMQConnectionService → RabbitMQConnectionService
  | 0, s => s
  | rounds + 1, s => createChannelPool rounds (s.createChannel.1.push s.createChannel.2)

/-- After `onModuleInit`. -/
def onModuleInit (poolSize : Nat) : RabbitMQConnectionService :=
  createChannelPool poolSize ⟨[], [], 0⟩

def availableChannel (s : RabbitMQConnectionService) : Option ChannelWrapper :=
  s.channelPool.find? (· ∉ s.channelsInUse)

/-- `getChannel` up to `newChannel.waitForConnect()`, or all of it. -/
def getChannel (s : RabbitMQConnectionService) : RabbitMQConnectionService × Getting :=
  match s.availableChannel with
  | some channel => (s.markInUse channel, .available channel)
  | none => (s.createChannel.1, .connecting s.createChannel.2)

/-- The rest of `getChannel`, once the new channel is connected. -/
def connected (s : RabbitMQConnectionService) (newChannel : ChannelWrapper) :
    RabbitMQConnectionService :=
  (s.push newChannel).markInUse newChannel

def releaseChannel (s : RabbitMQConnectionService) (channel : ChannelWrapper) :
    RabbitMQConnectionService :=
  if channel ∈ s.channelsInUse then
    { s with channelsInUse := s.channelsInUse.erase channel }
  else s

@[simp] theorem markInUse_channelPool (s : RabbitMQConnectionService) (channel : ChannelWrapper) :
    (s.markInUse channel).channelPool = s.channelPool := by
  unfold markInUse
  split <;> rfl

@[simp] theorem connected_channelPool (s : RabbitMQConnectionService)
    (newChannel : ChannelWrapper) :
    (s.connected newChannel).channelPool = s.channelPool ++ [newChannel] :=
  markInUse_channelPool ..

@[simp] theorem releaseChannel_channelPool (s : RabbitMQConnectionService)
    (channel : ChannelWrapper) : (s.releaseChannel channel).channelPool = s.channelPool := by
  unfold releaseChannel
  split <;> rfl

@[simp] theorem createChannel_channelPool (s : RabbitMQConnectionService) :
    s.createChannel.1.channelPool = s.channelPool := rfl

/-- The books of the pool: who holds its channels, which are still connecting, and that
`createChannel` will make a channel that is neither. -/
structure Balanced (s : RabbitMQConnectionService) (held pending : List ChannelWrapper) :
    Prop where
  accounts : Accounted s.channelPool s.channelsInUse held pending
  numbered : ∀ c ∈ s.channelPool ++ pending, c < s.created

theorem createChannelPool_spec (rounds : Nat) (s : RabbitMQConnectionService) :
    (createChannelPool rounds s).channelPool =
      s.channelPool ++ List.range' s.created rounds ∧
    (createChannelPool rounds s).channelsInUse = s.channelsInUse ∧
    (createChannelPool rounds s).created = s.created + rounds := by
  induction rounds generalizing s with
  | zero => simp [createChannelPool]
  | succ rounds ih =>
    have next := ih (s.createChannel.1.push s.createChannel.2)
    simp only [push, createChannel] at next
    refine ⟨?_, next.2.1, by rw [createChannelPool, push, createChannel, next.2.2]; omega⟩
    rw [createChannelPool, push, createChannel, next.1, List.range'_succ, List.append_assoc]
    rfl

theorem onModuleInit_channelPool (poolSize : Nat) :
    (onModuleInit poolSize).channelPool = List.range' 0 poolSize :=
  (createChannelPool_spec poolSize ⟨[], [], 0⟩).1

theorem balanced_onModuleInit (poolSize : Nat) : (onModuleInit poolSize).Balanced [] [] := by
  obtain ⟨pool, inUse, created⟩ := createChannelPool_spec poolSize ⟨[], [], 0⟩
  constructor
  · rw [onModuleInit, pool, inUse]
    exact .idle _ (by simpa using List.nodup_range')
  · intro c hc
    rw [onModuleInit, pool] at hc
    rw [onModuleInit, created]
    simpa [List.mem_range'_1] using hc

variable {s : RabbitMQConnectionService} {held pending : List ChannelWrapper}

theorem Balanced.perm (h : s.Balanced held pending) {held' pending' : List ChannelWrapper}
    (same : held.Perm held') (waiting : pending.Perm pending') : s.Balanced held' pending' where
  accounts := h.accounts.perm same waiting
  numbered c hc := h.numbered c ((waiting.append_left s.channelPool).symm.subset hc)

theorem availableChannel_some {channel : ChannelWrapper}
    (h : s.availableChannel = some channel) :
    channel ∈ s.channelPool ∧ channel ∉ s.channelsInUse :=
  ⟨List.mem_of_find?_eq_some h, by simpa using List.find?_some h⟩

theorem availableChannel_none (h : s.availableChannel = none) :
    s.channelPool ⊆ s.channelsInUse := by
  intro c hc
  simpa using List.find?_eq_none.mp h c hc

theorem markInUse_free {channel : ChannelWrapper} (free : channel ∉ s.channelsInUse) :
    s.markInUse channel = { s with channelsInUse := s.channelsInUse ++ [channel] } :=
  if_neg free

theorem Balanced.available (h : s.Balanced held pending) {channel : ChannelWrapper}
    (found : s.availableChannel = some channel) :
    (s.markInUse channel).Balanced (channel :: held) pending := by
  obtain ⟨member, free⟩ := availableChannel_some found
  rw [markInUse_free free]
  exact ⟨h.accounts.take member free, h.numbered⟩

theorem Balanced.connecting (h : s.Balanced held pending) :
    s.createChannel.1.Balanced held (s.createChannel.2 :: pending) where
  accounts := h.accounts.request (fun old => Nat.lt_irrefl _ (h.numbered _ old))
  numbered c hc := by
    rcases List.mem_cons.mp (List.perm_middle.subset hc) with rfl | old
    · exact Nat.lt_succ_self _
    · exact Nat.lt_succ_of_lt (h.numbered c old)

theorem Balanced.connected {newChannel : ChannelWrapper}
    (h : s.Balanced held (newChannel :: pending)) :
    (s.connected newChannel).Balanced (newChannel :: held) pending := by
  have free : newChannel ∉ s.channelsInUse := fun marked =>
    (List.nodup_cons.mp (List.perm_middle.nodup_iff.mp h.accounts.distinct)).1
      (List.mem_append_left _ (h.accounts.busy_subset marked))
  have joined : s.connected newChannel =
      ⟨s.channelPool ++ [newChannel], s.channelsInUse ++ [newChannel], s.created⟩ := if_neg free
  rw [joined]
  exact ⟨h.accounts.arrive, by simpa using h.numbered⟩

theorem Balanced.failed {newChannel : ChannelWrapper}
    (h : s.Balanced held (newChannel :: pending)) : s.Balanced held pending where
  accounts := h.accounts.abandon
  numbered c hc := h.numbered c (List.perm_middle.symm.subset (List.mem_cons_of_mem _ hc))

/-- A channel that is held is marked, so its release takes effect. -/
theorem Balanced.release {channel : ChannelWrapper} (h : s.Balanced (channel :: held) pending) :
    (s.releaseChannel channel).Balanced held pending := by
  rw [releaseChannel, if_pos (h.accounts.marked.symm.subset List.mem_cons_self)]
  exact ⟨h.accounts.giveBack, h.numbered⟩

/-- `getChannel` makes a channel only when as many are held as there are. -/
theorem Balanced.full (h : s.Balanced held pending) (none : s.availableChannel = none) :
    held.length = s.channelPool.length :=
  h.accounts.length_held (availableChannel_none none)

end RabbitMQConnectionService
end SecondhandApi
