import SecondhandApi.Interleaving.Runs
import SecondhandApi.RabbitMQConnection

/-! `src/events/publishers/event-publisher.service.ts`: any number of `emitDistributed` calls
that share one pool of channels. A turn takes one call from an `await` to the next; what the
broker answers, and whether the code before `publish` throws, is part of the turn. -/
namespace SecondhandApi

structure PublishOptions where
  priority : Option Float
  expiration : Option String
  persistent : Option Bool
  maxRetries : Option Float

structure BaseEvent where
  eventType : String
  eventId : Option String
  timestamp : Option Nat

/-- The arguments of `channel.publish` other than the message, which is the event as JSON. -/
structure Publication where
  exchange : String
  routingKey : String
  persistent : Bool
  contentType : String
  timestamp : Nat
  priority : Option Float
  expiration : Option String

/-- Where the innermost activation of `emitDistributed` stands. -/
inductive Stage where
  | connecting (newChannel : ChannelWrapper)
  | holding (channel : ChannelWrapper)
  | publishing (channel : ChannelWrapper) (publication : Publication)
  | sleeping (channel : ChannelWrapper)
  | settled (ok : Bool)

/-- One call of `emitDistributed`: the innermost activation, the channels of the activations
around it (each awaits the next in its `catch`), and what the call got from `getChannel` and
gave to `releaseChannel` so far. -/
structure Emission where
  event : BaseEvent
  options : Option PublishOptions
  retrying : List ChannelWrapper
  stage : Stage
  taken : List ChannelWrapper
  returned : List ChannelWrapper

def Stage.held : Stage → List ChannelWrapper
  | holding c | publishing c _ | sleeping c => [c]
  | connecting _ | settled _ => []

def Stage.pending : Stage → List ChannelWrapper
  | connecting c => [c]
  | _ => []

namespace BaseEvent

/-- An empty id counts as none. -/
def identified (event : BaseEvent) (uuid : String) (now : Nat) : BaseEvent :=
  { event with
    eventId := if event.eventId.getD "" = "" then some uuid else event.eventId
    timestamp := some (event.timestamp.getD now) }

def publication (event : BaseEvent) (options : Option PublishOptions) (now : Nat) :
    Publication where
  exchange := "secondhand.events"
  routingKey := event.eventType
  persistent := options.bind (·.persistent) != some false
  contentType := "application/json"
  timestamp := event.timestamp.getD now
  priority := options.bind (·.priority)
  expiration := (options.bind (·.expiration)).filter (· ≠ "")

end BaseEvent

namespace PublishOptions

/-- `options?.maxRetries && options.maxRetries > 0` -/
def retries (options : Option PublishOptions) : Bool :=
  match options.bind (·.maxRetries) with
  | some maxRetries => 0 < maxRetries
  | none => false

def oneLess (options : Option PublishOptions) : Option PublishOptions :=
  options.map fun o => { o with maxRetries := o.maxRetries.map (· - 1) }

end PublishOptions

inductive EmissionEvent where
  | connected (ok : Bool)
  | resumed (uuid : String) (now : Nat) (ok : Bool)
  | published (ok : Bool)
  | slept
  | retried

namespace Emission

def held (e : Emission) : List ChannelWrapper := e.stage.held ++ e.retrying
def pending (e : Emission) : List ChannelWrapper := e.stage.pending

/-- The promise that the call returned has not settled. -/
def outstanding (e : Emission) : Bool :=
  match e.stage with
  | .settled _ => !e.retrying.isEmpty
  | _ => true

def holding (e : Emission) (channel : ChannelWrapper) : Emission :=
  { e with stage := .holding channel, taken := e.taken ++ [channel] }

/-- An activation begins, up to its first `await`. -/
def begins (s : RabbitMQConnectionService) (e : Emission) :
    RabbitMQConnectionService × Emission :=
  match s.getChannel with
  | (s', .available channel) => (s', e.holding channel)
  | (s', .connecting newChannel) => (s', { e with stage := .connecting newChannel })

/-- The `finally` block. -/
def releases (s : RabbitMQConnectionService) (e : Emission) (channel : ChannelWrapper)
    (ok : Bool) : RabbitMQConnectionService × Emission :=
  (s.releaseChannel channel,
    { e with stage := .settled ok, returned := e.returned ++ [channel] })

/-- The `catch` block, up to the wait of `retryPublish` or to the end. -/
def catches (s : RabbitMQConnectionService) (e : Emission) (channel : ChannelWrapper) :
    RabbitMQConnectionService × Emission :=
  if PublishOptions.retries e.options then (s, { e with stage := .sleeping channel })
  else releases s e channel false

/-- An event that the call does not wait for does nothing. -/
def next (s : RabbitMQConnectionService) (e : Emission) :
    EmissionEvent → RabbitMQConnectionService × Emission
  | .connected ok =>
    match e.stage with
    | .connecting newChannel =>
      if ok then (s.connected newChannel, e.holding newChannel)
      else (s, { e with stage := .settled false })
    | _ => (s, e)
  | .resumed uuid now ok =>
    match e.stage with
    | .holding channel =>
      if ok then
        (s, { e with
          event := e.event.identified uuid now
          stage := .publishing channel (e.event.publication e.options now) })
      else catches s { e with event := e.event.identified uuid now } channel
    | _ => (s, e)
  | .published ok =>
    match e.stage with
    | .publishing channel _ =>
      if ok then releases s e channel true else catches s e channel
    | _ => (s, e)
  | .slept =>
    match e.stage with
    | .sleeping channel =>
      begins s { e with
        options := PublishOptions.oneLess e.options
        retrying := channel :: e.retrying }
    | _ => (s, e)
  | .retried =>
    match e.stage, e.retrying with
    | .settled ok, channel :: outer => releases s { e with retrying := outer } channel ok
    | _, _ => (s, e)

end Emission

/-- All calls there ever were, the oldest first. -/
structure Publishing where
  service : RabbitMQConnectionService
  calls : List Emission

inductive PublishingTurn where
  | emitDistributed (event : BaseEvent) (options : Option PublishOptions)
  | goesOn (i : Nat) (event : EmissionEvent)

namespace Publishing

def initialised (poolSize : Nat) : Publishing := ⟨.onModuleInit poolSize, []⟩

def step (t : Publishing) : PublishingTurn → Publishing
  | .emitDistributed event options =>
    let begun := Emission.begins t.service ⟨event, options, [], .settled false, [], []⟩
    ⟨begun.1, t.calls ++ [begun.2]⟩
  | .goesOn i event =>
    match t.calls[i]? with
    | none => t
    | some e => ⟨(e.next t.service event).1, t.calls.set i (e.next t.service event).2⟩

def held (t : Publishing) : List ChannelWrapper := t.calls.flatMap Emission.held
def pending (t : Publishing) : List ChannelWrapper := t.calls.flatMap Emission.pending

/-- Acquisitions that hold a channel or wait for one. -/
def acquisitions (t : Publishing) : Nat := t.held.length + t.pending.length

def outstanding (t : Publishing) : Nat := t.calls.countP Emission.outstanding

end Publishing
end SecondhandApi
