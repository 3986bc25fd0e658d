import Mathlib.Data.Finset.Card
import Mathlib.Data.Finset.Image
import Mathlib.Data.Option.Basic
import SecondhandApi.Refinement
import SecondhandApi.RedisClock

/-! What the service is for: a cache of JSON values, in which a key has a value, an object, a list
or a set until its deadline. The texts that the server stores are such a cache. -/
namespace SecondhandApi
open Classical Refinement
open JavaScript (Number)
open Json (Text Value Representable ascii)
open Redis (Server Store Error Entry Members Timed)
open RedisService (encode decode decodeReply Kept decode_encode)

inductive Held where
  | value (v : Value)
  | object (fields : Text → Option Value)
  | list (values : List Value)
  | set (members : Finset Value)

structure Slot where
  held : Held
  deadline : Option Nat

abbrev Cache : Type := Text → Option Slot

inductive CacheReply where
  | done
  | value (v : Value)
  | count (n : Nat)
  | present (b : Bool)
  | seconds (n : Int)
  | object (fields : Text → Option Value)
  | values (vs : List Value)
  | members (vs : Finset Value)

namespace Cache

def purged (c : Cache) (now : Nat) : Cache :=
  fun key => (c key).filter fun slot => !slot.deadline.any (· < now)

/-- A key that stays keeps its deadline. -/
def keep (c : Cache) (key : Text) (held : Option Held) : Cache :=
  Function.update c key (held.map fun held => ⟨held, (c key).bind Slot.deadline⟩)

/-- What is not there and the empty text are told apart by no answer. -/
def shown : Option Value → Value
  | none | some (.string []) => .null
  | some v => v

def value (c : Cache) (key : Text) : Except Error (Option Value) :=
  match (c key).map Slot.held with
  | none => .ok none
  | some (.value v) => .ok (some v)
  | some _ => .error .wrongType

def fields (c : Cache) (key : Text) : Except Error (Text → Option Value) :=
  match (c key).map Slot.held with
  | none => .ok fun _ => none
  | some (.object fields) => .ok fields
  | some _ => .error .wrongType

def list (c : Cache) (key : Text) : Except Error (List Value) :=
  match (c key).map Slot.held with
  | none => .ok []
  | some (.list values) => .ok values
  | some _ => .error .wrongType

def members (c : Cache) (key : Text) : Except Error (Finset Value) :=
  match (c key).map Slot.held with
  | none => .ok ∅
  | some (.set members) => .ok members
  | some _ => .error .wrongType

noncomputable section

def set (accepts : Number → Bool) (c : Cache) (now : Nat) (key : Text) (v : Value)
    (ttlSeconds : Option Number) : Except Error Cache :=
  match ttlSeconds.filter Number.truthy with
  | none => .ok (Function.update c key (some ⟨.value v, none⟩))
  | some seconds =>
    if accepts seconds then
      .ok (Function.update c key (some ⟨.value v, some (now + Redis.lifetime seconds)⟩))
    else .error .invalidExpire

def ttl (c : Cache) (now : Nat) (key : Text) : Int :=
  match c key with
  | none => -2
  | some ⟨_, none⟩ => -1
  | some ⟨_, some deadline⟩ => ((deadline - now + 500) / 1000 : Nat)

def hset (c : Cache) (key field : Text) (v : Value) : Except Error (Nat × Cache) := do
  let old ← c.fields key
  return (if (old field).isSome then 0 else 1,
    c.keep key (some (.object (Function.update old field (some v)))))

def hdel (c : Cache) (key field : Text) : Except Error (Nat × Cache) := do
  let old ← c.fields key
  let new := Function.update old field none
  return (if (old field).isSome then 1 else 0,
    c.keep key (if ∀ f, new f = none then none else some (.object new)))

def lpush (c : Cache) (key : Text) (v : Value) : Except Error (Nat × Cache) := do
  let old ← c.list key
  return (old.length + 1, c.keep key (some (.list (v :: old))))

def lpop (c : Cache) (key : Text) : Except Error (Value × Cache) := do
  let old ← c.list key
  match old with
  | [] => return (.null, c)
  | v :: rest => return (shown (some v), c.keep key (if rest = [] then none else some (.list rest)))

def lrange (c : Cache) (key : Text) (start stop : Int) : Except Error (List Value) := do
  let old ← c.list key
  let first := max 0 (Redis.position old.length start)
  let last := Redis.position old.length stop
  return (old.drop first.toNat).take (last + 1 - first).toNat

def sadd (c : Cache) (key : Text) (added : List Value) : Except Error (Nat × Cache) := do
  if added = [] then throw .wrongNumberOfArguments
  let old ← c.members key
  let new := added.toFinset ∪ old
  return (new.card - old.card, c.keep key (some (.set new)))

def srem (c : Cache) (key : Text) (v : Value) : Except Error (Nat × Cache) := do
  let old ← c.members key
  let new := old.erase v
  return (if v ∈ old then 1 else 0, c.keep key (if new = ∅ then none else some (.set new)))

def writes {A : Type} (c : Cache) (result : Except Error (A × Cache)) (reply : A → CacheReply) :
    Cache × Except Error CacheReply :=
  match result with
  | .ok (a, c') => (c', .ok (reply a))
  | .error e => (c, .error e)

def answer (accepts : Number → Bool) (c : Cache) (now : Nat) :
    RedisOp → Cache × Except Error CacheReply
  | .set key v ttlSeconds =>
    match set accepts c now key v ttlSeconds with
    | .ok c' => (c', .ok .done)
    | .error e => (c, .error e)
  | .get key => (c, return .value (shown (← c.value key)))
  | .delete key => (c.keep key none, .ok (.count (if (c key).isSome then 1 else 0)))
  | .exists key => (c, .ok (.present (c key).isSome))
  | .getTTL key => (c, .ok (.seconds (c.ttl now key)))
  | .hset key field v => writes c (c.hset key field v) .count
  | .hget key field => (c, return .value (shown ((← c.fields key) field)))
  | .hgetall key => (c, return .object (← c.fields key))
  | .hdel key field => writes c (c.hdel key field) .count
  | .lpush key v => writes c (c.lpush key v) .count
  | .lpop key => writes c (c.lpop key) .value
  | .lrange key start stop => (c, return .values (← c.lrange key start stop))
  | .sadd key added => writes c (c.sadd key added) .count
  | .smembers key => (c, return .members (← c.members key))
  | .srem key v => writes c (c.srem key v) .count
  | .flushall => (fun _ => none, .ok .done)

def serve (accepts : Number → Bool) (c : Cache) (q : Nat × RedisOp) :
    Cache × Except Error CacheReply :=
  answer accepts (c.purged q.1) q.1 q.2

end

end Cache

/-- A value whose text `JSON.parse` gives back as the same value. -/
structure Faithful (v : Value) : Prop where
  representable : Representable v
  kept : Kept v

theorem Faithful.decode {v : Value} (h : Faithful v) : decode (encode v) = v :=
  (decode_encode h.representable).mpr h.kept

theorem Faithful.encode_inj {v w : Value} (h : Faithful v) (k : Faithful w) :
    encode v = encode w ↔ v = w := by
  constructor
  · intro same
    rw [← h.decode, same, k.decode]
  · exact congrArg encode

/-- The values that a call writes or looks for. -/
def RedisOp.Faithful : RedisOp → Prop
  | .set _ v _ | .lpush _ v | .srem _ v => SecondhandApi.Faithful v
  | .hset _ field v => SecondhandApi.Faithful v ∧ field ≠ ascii "__proto__"
  | .sadd _ added => ∀ v ∈ added, SecondhandApi.Faithful v
  | _ => True

/-! The texts of the server and the values of the cache. -/

structure EncodesFields (hash : AList fun _ : Text => Text) (fields : Text → Option Value) :
    Prop where
  texts : ∀ field, hash.lookup field = (fields field).map encode
  sound : ∀ field v, fields field = some v → Faithful v ∧ field ≠ ascii "__proto__"

structure EncodesList (texts : List Text) (values : List Value) : Prop where
  texts : texts = values.map encode
  sound : ∀ v ∈ values, Faithful v

structure EncodesMembers (members : Members) (vs : Finset Value) : Prop where
  texts : ∀ m, m ∈ members.list ↔ ∃ v ∈ vs, encode v = m
  sound : ∀ v ∈ vs, Faithful v

inductive Encodes : Entry → Held → Prop
  | value {v ttl} (sound : Faithful v) : Encodes (.string (encode v) ttl) (.value v)
  | object {hash fields} (h : EncodesFields hash fields) : Encodes (.hash hash) (.object fields)
  | list {texts values} (h : EncodesList texts values) : Encodes (.list texts) (.list values)
  | set {members vs} (h : EncodesMembers members vs) : Encodes (.set members) (.set vs)

structure Occupies (deadline : Option Nat) (e : Entry) (slot : Slot) : Prop where
  holds : Encodes e slot.held
  deadline : slot.deadline = deadline

def Represents (t : Timed) (c : Cache) : Prop :=
  ∀ key, Option.Rel (Occupies (t.deadlines key)) (t.entries key) (c key)

/-- The fields of an object and the members of a set come in any order. -/
inductive Agrees : RedisReply → CacheReply → Prop
  | done : Agrees .done .done
  | value (v) : Agrees (.value v) (.value v)
  | count (n) : Agrees (.count n) (.count n)
  | present (b) : Agrees (.present b) (.present b)
  | seconds (n) : Agrees (.seconds n) (.seconds n)
  | values (vs) : Agrees (.values vs) (.values vs)
  | object {parsed fields} (null : parsed = none ↔ ∀ field, fields field = none)
      (same : ∀ field, (parsed.getD []).lookup field = fields field) :
      Agrees (.object parsed) (.object fields)
  | members {vs ms} (distinct : vs.Nodup) (same : ∀ v, v ∈ vs ↔ v ∈ ms) :
      Agrees (.values vs) (.members ms)

section
variable {t : Timed} {c : Cache} {key : Text}

theorem represents_empty : Represents Timed.empty fun _ => none := fun _ => .none

theorem Represents.purged (h : Represents t c) (now : Nat) :
    Represents (t.purged now) (c.purged now) := by
  intro key
  have here := h key
  simp only [Timed.purged, Cache.purged]
  generalize t.entries key = e at here ⊢
  generalize c key = slot at here ⊢
  cases here with
  | none =>
    rw [ite_self]
    exact .none
  | @some e slot stands =>
    rw [← stands.deadline, Option.filter_some]
    cases gone : slot.deadline.any (· < now) with
    | true => exact .none
    | false => exact .some ⟨stands.holds, rfl⟩

/-- A write that leaves something else under one key. -/
theorem Represents.keep (h : Represents t c) {e : Option Entry} {held : Option Held}
    (new : Option.Rel Encodes e held) :
    Represents (t.left (Function.update t.entries key e)) (c.keep key held) := by
  intro other
  simp only [Timed.left, Cache.keep]
  by_cases same : other = key
  · subst same
    simp only [Function.update_self]
    cases new with
    | none => exact .none
    | some holds =>
      refine .some ⟨holds, ?_⟩
      have here := h other
      generalize t.entries other = before at here ⊢
      generalize c other = slot at here ⊢
      cases here with
      | none => rfl
      | some stands => exact stands.deadline
  · simp only [Function.update_of_ne same]
    have here := h other
    generalize t.entries other = before at here ⊢
    generalize c other = slot at here ⊢
    cases here with
    | none => exact .none
    | some stands => exact .some ⟨stands.holds, stands.deadline⟩

theorem Represents.unchanged (h : Represents t c) : Represents (t.left t.entries) c := by
  intro key
  have here := h key
  simp only [Timed.left]
  generalize t.entries key = e at here ⊢
  generalize c key = slot at here ⊢
  cases here with
  | none => exact .none
  | some stands => exact .some ⟨stands.holds, stands.deadline⟩

theorem Represents.held (h : Represents t c) (key : Text) :
    Option.Rel Encodes (t.entries key) ((c key).map Slot.held) := by
  have here := h key
  generalize t.entries key = e at here ⊢
  generalize c key = slot at here ⊢
  cases here with
  | none => exact .none
  | some stands => exact .some stands.holds

theorem Represents.isSome (h : Represents t c) (key : Text) :
    (t.entries key).isSome = (c key).isSome := by
  have here := h key
  generalize t.entries key = e at here ⊢
  generalize c key = slot at here ⊢
  cases here <;> rfl

theorem Represents.value (h : Represents t c) (key : Text) :
    Both (fun text v => text = v.map encode ∧ ∀ w ∈ v, Faithful w)
      (Redis.get t.entries key) (c.value key) := by
  have held := h.held key
  unfold Redis.get Cache.value
  generalize t.entries key = e at held ⊢
  generalize (c key).map Slot.held = found at held ⊢
  cases held with
  | none => exact .ok ⟨rfl, by simp⟩
  | some holds =>
    cases holds with
    | value sound => exact .ok ⟨rfl, by simpa using sound⟩
    | _ => exact .error _

theorem Represents.fields (h : Represents t c) (key : Text) :
    Both EncodesFields (Redis.fields t.entries key) (c.fields key) := by
  have held := h.held key
  unfold Redis.fields Cache.fields
  generalize t.entries key = e at held ⊢
  generalize (c key).map Slot.held = found at held ⊢
  cases held with
  | none => exact .ok ⟨fun _ => rfl, by simp⟩
  | some holds =>
    cases holds with
    | object hash => exact .ok hash
    | _ => exact .error _

theorem Represents.list (h : Represents t c) (key : Text) :
    Both EncodesList (Redis.list t.entries key) (c.list key) := by
  have held := h.held key
  unfold Redis.list Cache.list
  generalize t.entries key = e at held ⊢
  generalize (c key).map Slot.held = found at held ⊢
  cases held with
  | none => exact .ok ⟨rfl, by simp⟩
  | some holds =>
    cases holds with
    | list values => exact .ok values
    | _ => exact .error _

theorem Represents.members (h : Represents t c) (key : Text) :
    Both EncodesMembers (Redis.members t.entries key) (c.members key) := by
  have held := h.held key
  unfold Redis.members Cache.members
  generalize t.entries key = e at held ⊢
  generalize (c key).map Slot.held = found at held ⊢
  cases held with
  | none => exact .ok ⟨by simp [Members.empty], by simp⟩
  | some holds =>
    cases holds with
    | set members => exact .ok members
    | _ => exact .error _

/-- A write whose results agree and leave stores that do. -/
theorem writes_simulates {A B : Type} {P : A → B → Prop} (h : Represents t c)
    {x : Except Error (A × Store)} {y : Except Error (B × Cache)} {reply : A → RedisReply}
    {reply' : B → CacheReply}
    (both : Both (fun a b => P a.1 b.1 ∧ Represents (t.left a.2) b.2) x y)
    (alike : ∀ a b, P a b → Agrees (reply a) (reply' b)) :
    Both Agrees (RedisService.writes t x reply).2 (Cache.writes c y reply').2 ∧
      Represents (RedisService.writes t x reply).1 (Cache.writes c y reply').1 := by
  cases both with
  | ok related => exact ⟨.ok (alike _ _ related.1), related.2⟩
  | error e => exact ⟨.error e, h⟩

theorem decodeReply_shown {v : Option Value} (sound : ∀ w ∈ v, Faithful w) :
    decodeReply (v.map encode) = Cache.shown v := by
  cases v with
  | none => rfl
  | some v =>
    have own := sound v rfl
    by_cases empty : v = .string []
    · subst empty
      rfl
    · have read := (RedisService.decodeReply_encode own.representable).mpr ⟨own.kept, empty⟩
      rw [Option.map_some, read]
      unfold Cache.shown
      split
      · contradiction
      · rename_i same
        exact absurd (Option.some.inj same) empty
      · rename_i same
        exact Option.some.inj same

theorem EncodesFields.lookup {hash : AList fun _ : Text => Text} {fields : Text → Option Value}
    (h : EncodesFields hash fields) (field : Text) :
    decodeReply (hash.lookup field) = Cache.shown (fields field) := by
  rw [h.texts]
  exact decodeReply_shown fun w found => (h.sound field w found).1

theorem EncodesFields.mem {hash : AList fun _ : Text => Text} {fields : Text → Option Value}
    (h : EncodesFields hash fields) (field : Text) : field ∈ hash ↔ (fields field).isSome := by
  rw [← AList.lookup_isSome, h.texts, Option.isSome_map]

theorem EncodesFields.insert {hash : AList fun _ : Text => Text} {fields : Text → Option Value}
    (h : EncodesFields hash fields) {field : Text} {v : Value} (sound : Faithful v)
    (ordinary : field ≠ ascii "__proto__") :
    EncodesFields (hash.insert field (encode v)) (Function.update fields field (some v)) := by
  constructor
  · intro other
    by_cases same : other = field
    · subst same
      rw [AList.lookup_insert, Function.update_self, Option.map_some]
    · rw [AList.lookup_insert_ne same, Function.update_of_ne same, h.texts]
  · intro other w found
    by_cases same : other = field
    · subst same
      rw [Function.update_self] at found
      cases found
      exact ⟨sound, ordinary⟩
    · rw [Function.update_of_ne same] at found
      exact h.sound other w found

theorem EncodesFields.erase {hash : AList fun _ : Text => Text} {fields : Text → Option Value}
    (h : EncodesFields hash fields) (field : Text) :
    EncodesFields (hash.erase field) (Function.update fields field none) := by
  constructor
  · intro other
    by_cases same : other = field
    · subst same
      rw [AList.lookup_erase, Function.update_self, Option.map_none]
    · rw [AList.lookup_erase_ne same, Function.update_of_ne same, h.texts]
  · intro other w found
    by_cases same : other = field
    · subst same
      rw [Function.update_self] at found
      cases found
    · rw [Function.update_of_ne same] at found
      exact h.sound other w found

theorem EncodesFields.keys_nil {hash : AList fun _ : Text => Text} {fields : Text → Option Value}
    (h : EncodesFields hash fields) : hash.keys = [] ↔ ∀ field, fields field = none := by
  constructor
  · intro empty field
    have absent : ¬field ∈ hash := by simp [AList.mem_keys, empty]
    rw [h.mem, Bool.not_eq_true, Option.isSome_eq_false_iff, Option.isNone_iff_eq_none] at absent
    exact absent
  · intro none
    apply List.eq_nil_iff_forall_not_mem.mpr
    intro field member
    rw [← AList.mem_keys, h.mem, none] at member
    cases member

theorem EncodesList.decoded {texts : List Text} {values : List Value} (h : EncodesList texts values) :
    texts.map decode = values := by
  rw [h.texts, List.map_map]
  calc values.map (decode ∘ encode)
      _ = values.map id := List.map_congr_left fun v member => (h.sound v member).decode
      _ = values := List.map_id values

theorem EncodesMembers.mem {members : Members} {vs : Finset Value} (h : EncodesMembers members vs)
    {v : Value} (sound : Faithful v) : encode v ∈ members.list ↔ v ∈ vs := by
  rw [h.texts]
  constructor
  · rintro ⟨w, member, same⟩
    exact ((h.sound w member).encode_inj sound).mp same ▸ member
  · exact fun member => ⟨v, member, rfl⟩

theorem EncodesMembers.length {members : Members} {vs : Finset Value}
    (h : EncodesMembers members vs) : members.list.length = vs.card := by
  have image : members.list.toFinset = vs.image encode := by
    ext m
    rw [List.mem_toFinset, h.texts, Finset.mem_image]
  rw [← List.toFinset_card_of_nodup members.distinct, image]
  apply Finset.card_image_of_injOn
  intro v hv w hw same
  exact ((h.sound v hv).encode_inj (h.sound w hw)).mp same

theorem EncodesMembers.list_nil {members : Members} {vs : Finset Value}
    (h : EncodesMembers members vs) : members.list = [] ↔ vs = ∅ := by
  rw [← List.length_eq_zero_iff, h.length, Finset.card_eq_zero]

theorem EncodesMembers.insert {members : Members} {vs : Finset Value}
    (h : EncodesMembers members vs) {v : Value} (sound : Faithful v) :
    EncodesMembers (members.insert (encode v)) (Insert.insert v vs) := by
  constructor
  · intro m
    simp only [Members.insert, List.mem_insert_iff, h.texts, Finset.mem_insert, exists_eq_or_imp]
    exact or_congr_left eq_comm
  · intro w member
    rcases Finset.mem_insert.mp member with rfl | old
    · exact sound
    · exact h.sound w old

theorem EncodesMembers.insertAll {added : List Value} (sound : ∀ v ∈ added, Faithful v)
    {members : Members} {vs : Finset Value} (h : EncodesMembers members vs) :
    EncodesMembers ((added.map encode).foldl Members.insert members) (added.toFinset ∪ vs) := by
  induction added generalizing members vs with
  | nil => simpa using h
  | cons v added ih =>
    obtain ⟨first, rest⟩ := List.forall_mem_cons.mp sound
    have inserted := ih rest (h.insert first)
    rw [List.toFinset_cons, Finset.insert_union, ← Finset.union_insert]
    exact inserted

theorem EncodesMembers.erase {members : Members} {vs : Finset Value} (h : EncodesMembers members vs)
    {v : Value} (sound : Faithful v) : EncodesMembers (members.erase (encode v)) (vs.erase v) := by
  constructor
  · intro m
    simp only [Members.erase, members.distinct.mem_erase_iff, h.texts, Finset.mem_erase]
    constructor
    · rintro ⟨other, w, member, rfl⟩
      exact ⟨w, ⟨fun same => other (congrArg encode same), member⟩, rfl⟩
    · rintro ⟨w, ⟨other, member⟩, rfl⟩
      exact ⟨fun same => other (((h.sound w member).encode_inj sound).mp same), w, member, rfl⟩
  · exact fun w member => h.sound w (Finset.mem_of_mem_erase member)

/-! Command by command. -/

variable (server : Server)

theorem Represents.expire (h : Represents t c) {e : Entry} {held : Held} (holds : Encodes e held)
    (deadline : Option Nat) :
    Represents ((t.left (Function.update t.entries key (some e))).expire key deadline)
      (Function.update c key (some ⟨held, deadline⟩)) := by
  intro other
  by_cases same : other = key
  · subst same
    simp only [Timed.expire, Timed.left, Function.update_self]
    exact .some ⟨holds, rfl⟩
  · have cleared : Represents (t.left (Function.update t.entries key none)) (c.keep key none) :=
      h.keep .none
    have kept := cleared other
    simp only [Timed.left, Cache.keep, Timed.expire, Function.update_of_ne same] at kept ⊢
    exact kept

theorem set_simulates (h : Represents t c) (now : Nat) {v : Value} (sound : Faithful v)
    (ttlSeconds : Option Number) :
    Both Represents (RedisService.setUntil server t now key v ttlSeconds)
      (c.set server.accepts now key v ttlSeconds) := by
  unfold RedisService.setUntil RedisService.set Cache.set
  cases ttlSeconds.filter Number.truthy with
  | none => exact .ok (h.expire (.value sound) none)
  | some seconds =>
    unfold Redis.setex
    dsimp only
    split
    · exact .ok (h.expire (.value sound) _)
    · exact .error _

theorem get_simulates (h : Represents t c) (key : Text) :
    Both Agrees (return .value (← RedisService.get t.entries key))
      (return .value (Cache.shown (← c.value key))) := by
  unfold RedisService.get
  rw [bind_assoc]
  apply (h.value key).bind
  rintro text v ⟨rfl, sound⟩
  exact .ok (decodeReply_shown sound ▸ .value _)

theorem ttl_simulates (h : Represents t c) (now : Nat) (key : Text) :
    t.ttl now key = c.ttl now key := by
  have here := h key
  unfold Timed.ttl Cache.ttl
  generalize t.entries key = e at here ⊢
  generalize c key = slot at here ⊢
  cases here with
  | none => rfl
  | @some e slot stands =>
    obtain ⟨held, deadline⟩ := slot
    rw [← stands.deadline]
    cases deadline <;> rfl

theorem hset_simulates (h : Represents t c) {field : Text} {v : Value} (sound : Faithful v)
    (ordinary : field ≠ ascii "__proto__") :
    Both (fun a b => a.1 = b.1 ∧ Represents (t.left a.2) b.2)
      (RedisService.hset t.entries key field v) (c.hset key field v) := by
  apply (h.fields key).bind
  intro hash fields holds
  apply Both.ok
  refine ⟨?_, h.keep (.some (.object (holds.insert sound ordinary)))⟩
  simp only [holds.mem]

theorem hget_simulates (h : Represents t c) (key field : Text) :
    Both Agrees (return .value (← RedisService.hget t.entries key field))
      (return .value (Cache.shown ((← c.fields key) field))) := by
  unfold RedisService.hget Redis.hget
  rw [bind_assoc, bind_assoc]
  apply (h.fields key).bind
  intro hash fields holds
  exact .ok (holds.lookup field ▸ .value _)

theorem hdel_simulates (h : Represents t c) (key field : Text) :
    Both (fun a b => a.1 = b.1 ∧ Represents (t.left a.2) b.2)
      (RedisService.hdel t.entries key field) (c.hdel key field) := by
  apply (h.fields key).bind
  intro hash fields holds
  have erased := holds.erase field
  apply Both.ok
  refine ⟨by simp only [holds.mem], ?_⟩
  apply h.keep
  simp only [erased.keys_nil]
  split
  · exact .none
  · exact .some (.object erased)

theorem lpush_simulates (h : Represents t c) {v : Value} (sound : Faithful v) :
    Both (fun a b => a.1 = b.1 ∧ Represents (t.left a.2) b.2)
      (RedisService.lpush t.entries key v) (c.lpush key v) := by
  apply (h.list key).bind
  rintro texts values ⟨rfl, all⟩
  apply Both.ok
  refine ⟨by simp only [List.length_map], h.keep (.some (.list ⟨rfl, ?_⟩))⟩
  exact List.forall_mem_cons.mpr ⟨sound, all⟩

theorem lpop_simulates (h : Represents t c) (key : Text) :
    Both (fun a b => a.1 = b.1 ∧ Represents (t.left a.2) b.2)
      (RedisService.lpop t.entries key) (c.lpop key) := by
  unfold RedisService.lpop Redis.lpop
  rw [bind_assoc]
  apply (h.list key).bind
  rintro texts values ⟨rfl, all⟩
  cases values with
  | nil =>
    exact .ok ⟨rfl, h.unchanged⟩
  | cons v rest =>
    obtain ⟨first, all⟩ := List.forall_mem_cons.mp all
    have read : decodeReply (some (encode v)) = Cache.shown (some v) :=
      decodeReply_shown (v := some v) (by simpa using first)
    cases rest with
    | nil => exact .ok ⟨read, h.keep .none⟩
    | cons w rest => exact .ok ⟨read, h.keep (.some (.list ⟨rfl, all⟩))⟩

theorem lrange_simulates (h : Represents t c) (key : Text) (start stop : Int) :
    Both Agrees (return .values (← RedisService.lrange t.entries key start stop))
      (return .values (← c.lrange key start stop)) := by
  unfold RedisService.lrange Redis.lrange Cache.lrange
  simp only [bind_assoc, pure_bind]
  apply (h.list key).bind
  intro texts values holds
  have same : texts.length = values.length := by rw [holds.texts, List.length_map]
  apply Both.ok
  rw [List.map_take, List.map_drop, holds.decoded, same]
  exact .values _

theorem sadd_simulates (h : Represents t c) {added : List Value} (sound : ∀ v ∈ added, Faithful v) :
    Both (fun a b => a.1 = b.1 ∧ Represents (t.left a.2) b.2)
      (RedisService.sadd t.entries key added) (c.sadd key added) := by
  cases added with
  | nil => exact .error _
  | cons v added =>
    apply (h.members key).bind
    intro members vs holds
    have new := holds.insertAll sound
    apply Both.ok
    refine ⟨?_, h.keep (.some (.set new))⟩
    exact congr_arg₂ _ new.length holds.length

theorem smembers_simulates (h : Represents t c) (key : Text) :
    Both Agrees (return .values (← RedisService.smembers server t.entries key))
      (return .members (← c.members key)) := by
  unfold RedisService.smembers Redis.smembers
  simp only [bind_assoc, pure_bind]
  apply (h.members key).bind
  intro members vs holds
  have perm := server.order_perm members.list
  have mem (m : Text) : m ∈ server.order members.list ↔ ∃ v ∈ vs, encode v = m :=
    perm.mem_iff.trans (holds.texts m)
  apply Both.ok
  apply Agrees.members
  · apply List.Nodup.map_on _ (perm.nodup_iff.mpr members.distinct)
    intro m hm m' hm' same
    obtain ⟨v, hv, rfl⟩ := (mem m).mp hm
    obtain ⟨w, hw, rfl⟩ := (mem m').mp hm'
    rw [(holds.sound v hv).decode, (holds.sound w hw).decode] at same
    rw [same]
  · intro v
    rw [List.mem_map]
    constructor
    · rintro ⟨m, listed, rfl⟩
      obtain ⟨w, hw, rfl⟩ := (mem m).mp listed
      rwa [(holds.sound w hw).decode]
    · intro member
      exact ⟨encode v, (mem _).mpr ⟨v, member, rfl⟩, (holds.sound v member).decode⟩

theorem srem_simulates (h : Represents t c) {v : Value} (sound : Faithful v) :
    Both (fun a b => a.1 = b.1 ∧ Represents (t.left a.2) b.2)
      (RedisService.srem t.entries key v) (c.srem key v) := by
  apply (h.members key).bind
  intro members vs holds
  have erased := holds.erase sound
  apply Both.ok
  refine ⟨by simp only [List.contains_iff_mem, holds.mem sound], ?_⟩
  apply h.keep
  simp only [erased.list_nil]
  split
  · exact .none
  · exact .some (.set erased)

/-- The object that the service makes of a hash has its fields. -/
theorem hgetall_simulates (h : Represents t c) (key : Text) :
    Both Agrees (return .object (← RedisService.hgetall server t.entries key))
      (return .object (← c.fields key)) := by
  unfold RedisService.hgetall Redis.hgetall
  simp only [bind_assoc, pure_bind]
  apply (h.fields key).bind
  intro hash fields holds
  have perm := server.order_perm (hash.entries.map fun e => (e.1, e.2))
  generalize server.order (hash.entries.map fun e => (e.1, e.2)) = reply at perm ⊢
  have distinct : (reply.map Prod.fst).Nodup := by
    rw [(perm.map Prod.fst).nodup_iff, List.map_map]
    exact hash.nodupKeys
  have listed (field text : Text) : (field, text) ∈ reply ↔ hash.lookup field = some text := by
    rw [perm.mem_iff, ← Option.mem_def, AList.mem_lookup_iff]
    simp
  have empty : reply = [] ↔ ∀ field, fields field = none := by
    rw [← holds.keys_nil, ← List.length_eq_zero_iff, perm.length_eq]
    simp [AList.keys, List.keys]
  split
  · rename_i none
    exact .ok (.object (by simpa using empty.mp none) (fun field => (empty.mp none field).symm))
  · rename_i filled
    apply Both.ok
    apply Agrees.object
    · simpa using (not_congr empty).mp filled
    · intro field
      cases found : fields field with
      | none =>
        apply RedisService.Access.lookup_unassigned
        rintro ⟨other, text⟩ member rfl
        rw [listed, holds.texts, found] at member
        cases member
      | some v =>
        obtain ⟨sound, ordinary⟩ := holds.sound field v found
        have stored : (field, encode v) ∈ reply := by rw [listed, holds.texts, found, Option.map_some]
        have read := RedisService.Access.lookup_parsed ordinary distinct stored []
        rwa [sound.decode] at read

theorem answer_simulates (h : Represents t c) (now : Nat) {op : RedisOp} (sound : op.Faithful) :
    Both Agrees (RedisService.answer server t now op).2 (Cache.answer server.accepts c now op).2 ∧
      Represents (RedisService.answer server t now op).1
        (Cache.answer server.accepts c now op).1 := by
  have counts (n m : Nat) (same : n = m) : Agrees (.count n) (.count m) := same ▸ .count n
  cases op with
  | set key v ttlSeconds =>
    have stored : Both Represents (RedisService.setUntil server t now key v ttlSeconds)
        (c.set server.accepts now key v ttlSeconds) := set_simulates server h now sound ttlSeconds
    simp only [RedisService.answer, Cache.answer]
    generalize RedisService.setUntil server t now key v ttlSeconds = x at stored ⊢
    generalize Cache.set server.accepts c now key v ttlSeconds = y at stored ⊢
    cases stored with
    | ok related => exact ⟨.ok .done, related⟩
    | error e => exact ⟨.error e, h⟩
  | get key => exact ⟨get_simulates h key, h⟩
  | delete key =>
    refine ⟨.ok ?_, h.keep .none⟩
    exact counts _ _ (by rw [h.isSome])
  | «exists» key =>
    refine ⟨.ok ?_, h⟩
    have same : RedisService.exists t.entries key = (c key).isSome := by
      unfold RedisService.exists
      rw [h.isSome]
      cases (c key).isSome <;> rfl
    exact same ▸ .present _
  | getTTL key => exact ⟨.ok (ttl_simulates h now key ▸ .seconds _), h⟩
  | hset key field v => exact writes_simulates h (hset_simulates h sound.1 sound.2) counts
  | hget key field => exact ⟨hget_simulates h key field, h⟩
  | hgetall key => exact ⟨hgetall_simulates server h key, h⟩
  | hdel key field => exact writes_simulates h (hdel_simulates h key field) counts
  | lpush key v => exact writes_simulates h (lpush_simulates h sound) counts
  | lpop key =>
    exact writes_simulates h (lpop_simulates h key) fun v w same => same ▸ .value v
  | lrange key start stop => exact ⟨lrange_simulates h key start stop, h⟩
  | sadd key added => exact writes_simulates h (sadd_simulates h sound) counts
  | smembers key => exact ⟨smembers_simulates server h key, h⟩
  | srem key v => exact writes_simulates h (srem_simulates h sound) counts
  | flushall => exact ⟨.ok .done, represents_empty⟩

theorem serve_simulates : Simulates (RedisService.serve server) (Cache.serve server.accepts)
    (fun q => q.2.Faithful) Represents (Both Agrees) where
  answer {_ _ q} sound h := (answer_simulates server (h.purged q.1) q.1 sound).1
  next {_ _ q} sound h := (answer_simulates server (h.purged q.1) q.1 sound).2

end

def session : Value := .array [.string (ascii "ann"), .null]

/-- A session that is stored for a minute, beside a list and a set. -/
def sessionCalls : List (Nat × RedisOp) :=
  [(0, .set (ascii "session") session (some (.finite 60))),
    (1, .lpush (ascii "jobs") (.string (ascii "mail"))), (2, .lpop (ascii "jobs")),
    (3, .sadd (ascii "seen") [.bool true, .null])]

theorem sound_word {word : Text} (other : Json.parse word = none) : Faithful (.string word) :=
  ⟨.string word, fun _ same => by cases same; exact other⟩

theorem session_sound : Faithful session := by
  refine ⟨.array ?_, fun _ same => by cases same⟩
  simp only [List.forall_mem_cons, List.not_mem_nil, false_imp_iff, implies_true, and_true]
  exact ⟨.string _, .null⟩

theorem sessionCalls_sound : ∀ q ∈ sessionCalls, q.2.Faithful := by
  have flag : Faithful (.bool true) := ⟨.bool true, fun _ same => by cases same⟩
  have nothing : Faithful .null := ⟨.null, fun _ same => by cases same⟩
  have job : Faithful (.string (ascii "mail")) := sound_word (by decide)
  simp only [sessionCalls, List.forall_mem_cons, List.not_mem_nil, false_imp_iff, implies_true,
    and_true, true_and, RedisOp.Faithful]
  exact ⟨session_sound, job, flag, nothing⟩

def RedisOp.writesTo (key : Text) : RedisOp → Bool
  | .set k _ _ | .delete k | .hset k _ _ | .hdel k _ | .lpush k _ | .lpop k | .sadd k _
  | .srem k _ => k = key
  | .flushall => true
  | _ => false

/-- What stands under a key, and until when. -/
def Redis.Timed.slot (t : Timed) (key : Text) : Option (Entry × Option Nat) :=
  (t.entries key).map fun e => (e, t.deadlines key)

section
variable {t : Timed} {s : Store} {key other : Text} {server : Server}

theorem slot_purged (now : Nat) :
    (t.purged now).slot key = (t.slot key).filter fun e => !e.2.any (· < now) := by
  simp only [Timed.slot, Timed.purged]
  cases t.entries key with
  | none => rw [ite_self]; rfl
  | some e =>
    rw [Option.map_some, Option.filter_some]
    cases (t.deadlines key).any (· < now) <;> rfl

theorem slot_left (same : s key = t.entries key) : (t.left s).slot key = t.slot key := by
  simp only [Timed.slot, Timed.left, same]
  cases t.entries key <;> rfl

theorem left_elsewhere (apart : ¬other = key) (e : Option Entry) :
    (t.left (Function.update t.entries other e)).slot key = t.slot key :=
  slot_left (Function.update_of_ne (Ne.symm apart) ..)

theorem writes_elsewhere {A B : Type} (apart : ¬other = key) {found : Except Error B}
    {result : B → A} {held : B → Option Entry} {reply : A → RedisReply} :
    (RedisService.writes t (do
      let old ← found
      return (result old, Function.update t.entries other (held old))) reply).1.slot key =
        t.slot key := by
  cases found with
  | error e => rfl
  | ok old => exact left_elsewhere apart _

theorem set_elsewhere (apart : ¬other = key) (now : Nat) (v : Value) (ttlSeconds : Option Number) :
    (RedisService.answer server t now (.set other v ttlSeconds)).1.slot key = t.slot key := by
  have alone (u : Timed) (deadline : Option Nat) :
      (u.expire other deadline).slot key = u.slot key := by
    simp only [Timed.slot, Timed.expire, Function.update_of_ne (Ne.symm apart)]
  have expired (e : Option Entry) (deadline : Option Nat) :
      ((t.left (Function.update t.entries other e)).expire other deadline).slot key = t.slot key :=
    (alone _ _).trans (left_elsewhere apart e)
  simp only [RedisService.answer, RedisService.setUntil, RedisService.set]
  cases ttlSeconds.filter Number.truthy with
  | none => exact expired _ _
  | some seconds =>
    by_cases ok : server.accepts seconds = true
    · simp only [Redis.setex, if_pos ok]
      exact expired _ _
    · simp only [Redis.setex, if_neg ok]
      rfl

/-- A call that is not on the key leaves it as it is. -/
theorem answer_elsewhere (now : Nat) {op : RedisOp} (apart : op.writesTo key = false) :
    (RedisService.answer server t now op).1.slot key = t.slot key := by
  cases op with
  | set k v ttlSeconds => exact set_elsewhere (of_decide_eq_false apart) now v ttlSeconds
  | delete k => exact left_elsewhere (of_decide_eq_false apart) _
  | hset k field v => exact writes_elsewhere (of_decide_eq_false apart)
  | hdel k field => exact writes_elsewhere (of_decide_eq_false apart)
  | lpush k v => exact writes_elsewhere (of_decide_eq_false apart)
  | srem k v => exact writes_elsewhere (of_decide_eq_false apart)
  | sadd k added =>
    cases added with
    | nil => rfl
    | cons v added => exact writes_elsewhere (of_decide_eq_false apart)
  | lpop k =>
    simp only [RedisService.answer, RedisService.lpop, Redis.lpop]
    cases Redis.list t.entries k with
    | error e => rfl
    | ok old =>
      rcases old with _ | ⟨value, _ | ⟨next, rest⟩⟩
      · exact slot_left rfl
      · exact left_elsewhere (of_decide_eq_false apart) _
      · exact left_elsewhere (of_decide_eq_false apart) _
  | flushall => cases apart
  | _ => rfl

/-- What a key has after calls that are not on it, at the latest of their times. -/
theorem run_elsewhere {calls : List (Nat × RedisOp)} {later : Nat}
    (others : ∀ q ∈ calls, q.2.writesTo key = false) (order : ∀ q ∈ calls, q.1 ≤ later) :
    ((Interleaving.run (after (RedisService.serve server)) t calls).purged later).slot key =
      (t.purged later).slot key := by
  induction calls generalizing t with
  | nil => rfl
  | cons q calls ih =>
    obtain ⟨apart, others⟩ := List.forall_mem_cons.mp others
    obtain ⟨first, order⟩ := List.forall_mem_cons.mp order
    rw [Interleaving.run_cons, ih others order]
    have left : (after (RedisService.serve server) t q).slot key = (t.purged q.1).slot key :=
      answer_elsewhere q.1 apart
    rw [slot_purged, left, slot_purged, slot_purged, Option.filter_filter]
    congr 1
    funext e
    cases e.2 with
    | none => rfl
    | some deadline =>
      simp only [Option.any_some]
      by_cases gone : deadline < q.1
      · simp [gone, Nat.lt_of_lt_of_le gone first]
      · simp [gone]

/-- The time after which a value that is stored now is gone. -/
def deadlineOf (now : Nat) (ttlSeconds : Option Number) : Option Nat :=
  (ttlSeconds.filter Number.truthy).map fun seconds => now + Redis.lifetime seconds

theorem slot_set (t : Timed) (key : Text) (now : Nat) (v : Value) {ttlSeconds : Option Number}
    (accepted : ∀ seconds ∈ ttlSeconds.filter Number.truthy, server.accepts seconds = true) :
    (RedisService.answer server t now (.set key v ttlSeconds)).1.slot key =
      some (.string (encode v) (ttlSeconds.filter Number.truthy), deadlineOf now ttlSeconds) := by
  simp only [RedisService.answer, RedisService.setUntil, RedisService.set, deadlineOf]
  cases ttl : ttlSeconds.filter Number.truthy with
  | none => simp [Redis.set, Timed.slot, Timed.expire, Timed.left]
  | some seconds =>
    simp [Redis.setex, if_pos (accepted seconds ttl), Timed.slot, Timed.expire, Timed.left]

end

/-- Jobs, and a flag whose text is that of another value. -/
def otherCalls : List (Nat × RedisOp) :=
  sessionCalls.tail ++ [(5, .set (ascii "flag") (.string (ascii "true")) none)]

end SecondhandApi
