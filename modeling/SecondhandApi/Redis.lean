import Mathlib.Data.List.AList
import SecondhandApi.JavaScript
import SecondhandApi.Json.Strings

/-! The Redis server as far as `RedisService` stores and reads values: what a key holds, and the
commands with their replies. No key expires between two commands here. -/
namespace SecondhandApi
namespace Redis
open JavaScript (Number)
open Json (Text)

/-- The members of a set, each of them once. -/
structure Members where
  list : List Text
  distinct : list.Nodup

namespace Members

def empty : Members := ⟨[], List.nodup_nil⟩

def insert (members : Members) (m : Text) : Members :=
  ⟨members.list.insert m, members.distinct.insert⟩

theorem mem_insertAll {added : List Text} {m : Text} {old : Members}
    (h : m ∈ added ∨ m ∈ old.list) : m ∈ (added.foldl insert old).list := by
  induction added generalizing old with
  | nil => simpa using h
  | cons a added ih =>
    refine ih ?_
    rcases h with listed | stored
    · rcases List.mem_cons.mp listed with rfl | later
      · exact .inr List.mem_insert_self
      · exact .inl later
    · exact .inr (List.mem_insert_of_mem stored)

end Members

inductive Entry where
  | string (value : Text) (ttl : Option Number)
  | hash (fields : AList fun _ : Text => Text)
  | list (values : List Text)
  | set (members : Members)

/-- What the commands leave open: which expiry times are accepted, and in which order the fields
of a hash and the members of a set are returned. -/
structure Server where
  accepts : Number → Bool
  order : {α : Type} → List α → List α
  order_perm : ∀ {α : Type} (l : List α), (order l).Perm l

inductive Error where
  | wrongType
  | invalidExpire
  | wrongNumberOfArguments

abbrev Store := Text → Option Entry

def set (s : Store) (key value : Text) : Store :=
  Function.update s key (some (.string value none))

def setex (server : Server) (s : Store) (key : Text) (seconds : Number) (value : Text) :
    Except Error Store :=
  if server.accepts seconds then
    .ok (Function.update s key (some (.string value (some seconds))))
  else .error .invalidExpire

def get (s : Store) (key : Text) : Except Error (Option Text) :=
  match s key with
  | none => .ok none
  | some (.string value _) => .ok (some value)
  | some _ => .error .wrongType

/-- The hash of a key; a key that holds nothing has the empty one. -/
def fields (s : Store) (key : Text) : Except Error (AList fun _ : Text => Text) :=
  match s key with
  | none => .ok ∅
  | some (.hash fields) => .ok fields
  | some _ => .error .wrongType

def list (s : Store) (key : Text) : Except Error (List Text) :=
  match s key with
  | none => .ok []
  | some (.list values) => .ok values
  | some _ => .error .wrongType

def members (s : Store) (key : Text) : Except Error Members :=
  match s key with
  | none => .ok .empty
  | some (.set members) => .ok members
  | some _ => .error .wrongType

/-- The number of new fields, and the store afterwards. -/
def hset (s : Store) (key field value : Text) : Except Error (Nat × Store) := do
  let old ← fields s key
  return (if field ∈ old then 0 else 1,
    Function.update s key (some (.hash (old.insert field value))))

def hget (s : Store) (key field : Text) : Except Error (Option Text) := do
  let old ← fields s key
  return old.lookup field

/-- The client makes an object of the reply, each field a property of its own. -/
def hgetall (server : Server) (s : Store) (key : Text) : Except Error (List (Text × Text)) := do
  let old ← fields s key
  return server.order (old.entries.map fun e => (e.1, e.2))

/-- The length of the list, and the store afterwards. -/
def lpush (s : Store) (key value : Text) : Except Error (Nat × Store) := do
  let old ← list s key
  return (old.length + 1, Function.update s key (some (.list (value :: old))))

/-- A list without elements is no longer stored. -/
def lpop (s : Store) (key : Text) : Except Error (Option Text × Store) := do
  let old ← list s key
  match old with
  | [] => return (none, s)
  | [value] => return (some value, Function.update s key none)
  | value :: rest => return (some value, Function.update s key (some (.list rest)))

/-- A position from the end counts backwards from -1. -/
def position (length : Nat) (i : Int) : Int := if i < 0 then length + i else i

def lrange (s : Store) (key : Text) (start stop : Int) : Except Error (List Text) := do
  let old ← list s key
  let first := max 0 (position old.length start)
  let last := position old.length stop
  return (old.drop first.toNat).take (last + 1 - first).toNat

/-- The number of new members, and the store afterwards. -/
def sadd (s : Store) (key : Text) (added : List Text) : Except Error (Nat × Store) := do
  if added = [] then throw .wrongNumberOfArguments
  let old ← members s key
  let new := added.foldl Members.insert old
  return (new.list.length - old.list.length, Function.update s key (some (.set new)))

def smembers (server : Server) (s : Store) (key : Text) : Except Error (List Text) := do
  let old ← members s key
  return server.order old.list

end Redis
end SecondhandApi
