import SecondhandApi.RedisService

/-! The server in time: keys that expire, the commands that the service needs beside those of
`Redis.lean`, and the service as a machine that answers one call after another. Every call of the
service is one command. -/
namespace SecondhandApi
open JavaScript (Number)
open Json (Text Value)

namespace Redis

/-- The number of keys removed, and the store afterwards. -/
def del (s : Store) (key : Text) : Nat × Store :=
  (if (s key).isSome then 1 else 0, Function.update s key none)

/-- A hash without fields is no longer stored. -/
def hdel (s : Store) (key field : Text) : Except Error (Nat × Store) := do
  let old ← fields s key
  let new := old.erase field
  return (if field ∈ old then 1 else 0,
    Function.update s key (if new.keys = [] then none else some (.hash new)))

def Members.erase (members : Members) (m : Text) : Members :=
  ⟨members.list.erase m, members.distinct.erase m⟩

/-- A set without members is no longer stored. -/
def srem (s : Store) (key m : Text) : Except Error (Nat × Store) := do
  let old ← members s key
  let new := old.erase m
  return (if old.list.contains m then 1 else 0,
    Function.update s key (if new.list = [] then none else some (.set new)))

/-- The milliseconds of an expiry time that is accepted, which is a positive integer. -/
def lifetime : Number → Nat
  | .finite seconds => (1000 * seconds).floor.toNat
  | _ => 0

/-- A store, and the times after which its keys are gone. -/
structure Timed where
  entries : Store
  deadlines : Text → Option Nat

namespace Timed

def empty : Timed := ⟨fun _ => none, fun _ => none⟩

/-- Keys whose time is over are removed before they are used. -/
def purged (t : Timed) (now : Nat) : Timed where
  entries key := if (t.deadlines key).any (· < now) then none else t.entries key
  deadlines := t.deadlines

/-- What a command leaves: a key that stays keeps its deadline. -/
def left (t : Timed) (s : Store) : Timed where
  entries := s
  deadlines key := if (t.entries key).isSome && (s key).isSome then t.deadlines key else none

def expire (t : Timed) (key : Text) (deadline : Option Nat) : Timed :=
  { t with deadlines := Function.update t.deadlines key deadline }

/-- In seconds, rounded; `-1` for a key that stays, `-2` where there is none. -/
def ttl (t : Timed) (now : Nat) (key : Text) : Int :=
  if (t.entries key).isNone then -2
  else match t.deadlines key with
    | none => -1
    | some deadline => ((deadline - now + 500) / 1000 : Nat)

end Timed
end Redis

open Redis (Server Store Error Timed)

inductive RedisOp where
  | set (key : Text) (value : Value) (ttlSeconds : Option Number)
  | get (key : Text)
  | delete (key : Text)
  | exists (key : Text)
  | getTTL (key : Text)
  | hset (key field : Text) (value : Value)
  | hget (key field : Text)
  | hgetall (key : Text)
  | hdel (key field : Text)
  | lpush (key : Text) (value : Value)
  | lpop (key : Text)
  | lrange (key : Text) (start stop : Int)
  | sadd (key : Text) (members : List Value)
  | smembers (key : Text)
  | srem (key : Text) (member : Value)
  | flushall

inductive RedisReply where
  | done
  | value (v : Value)
  | count (n : Nat)
  | present (b : Bool)
  | seconds (n : Int)
  | object (parsed : Option (List (Text × Value)))
  | values (vs : List Value)

namespace RedisService

/-- `set` drops the deadline that a key had, `setex` gives it a new one. -/
def setUntil (server : Server) (t : Timed) (now : Nat) (key : Text) (value : Value)
    (ttlSeconds : Option Number) : Except Error Timed := do
  let s ← RedisService.set server t.entries key value ttlSeconds
  return (t.left s).expire key
    ((ttlSeconds.filter Number.truthy).map fun seconds => now + Redis.lifetime seconds)

def delete (s : Store) (key : Text) : Nat × Store := Redis.del s key

/-- `result === 1` -/
def «exists» (s : Store) (key : Text) : Bool := (if (s key).isSome then 1 else 0) = 1

def hdel (s : Store) (key field : Text) : Except Error (Nat × Store) := Redis.hdel s key field

def srem (s : Store) (key : Text) (member : Value) : Except Error (Nat × Store) :=
  Redis.srem s key (encode member)

/-- A command that writes, and what the service answers. -/
def writes {A : Type} (t : Timed) (result : Except Error (A × Store)) (reply : A → RedisReply) :
    Timed × Except Error RedisReply :=
  match result with
  | .ok (a, s) => (t.left s, .ok (reply a))
  | .error e => (t, .error e)

/-- A command on a store without expired keys. -/
def answer (server : Server) (t : Timed) (now : Nat) : RedisOp → Timed × Except Error RedisReply
  | .set key value ttlSeconds =>
    match setUntil server t now key value ttlSeconds with
    | .ok t' => (t', .ok .done)
    | .error e => (t, .error e)
  | .get key => (t, return .value (← RedisService.get t.entries key))
  | .delete key => writes t (.ok (delete t.entries key)) .count
  | .exists key => (t, .ok (.present (RedisService.exists t.entries key)))
  | .getTTL key => (t, .ok (.seconds (t.ttl now key)))
  | .hset key field value => writes t (RedisService.hset t.entries key field value) .count
  | .hget key field => (t, return .value (← RedisService.hget t.entries key field))
  | .hgetall key => (t, return .object (← RedisService.hgetall server t.entries key))
  | .hdel key field => writes t (hdel t.entries key field) .count
  | .lpush key value => writes t (RedisService.lpush t.entries key value) .count
  | .lpop key => writes t (RedisService.lpop t.entries key) .value
  | .lrange key start stop => (t, return .values (← RedisService.lrange t.entries key start stop))
  | .sadd key members => writes t (RedisService.sadd t.entries key members) .count
  | .smembers key => (t, return .values (← RedisService.smembers server t.entries key))
  | .srem key member => writes t (srem t.entries key member) .count
  | .flushall => (Timed.empty, .ok .done)

/-- A call at a time of the server. -/
def serve (server : Server) (t : Timed) (q : Nat × RedisOp) : Timed × Except Error RedisReply :=
  answer server (t.purged q.1) q.1 q.2

end RedisService

end SecondhandApi
