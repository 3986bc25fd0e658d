import SecondhandApi.Json.RoundTrip
import SecondhandApi.Redis

/-! `src/database/redis/redis.service.ts` -/
namespace SecondhandApi
open JavaScript (Number ok_bind pure_eq_ok ok_of_bind)
open Json (Text Value ascii stringify parse define Representable parse_stringify parse_ne_self)
open Redis (Server Store Error)

namespace RedisService

/-- `typeof value === 'string' ? value : JSON.stringify(value)` -/
def encode : Value → Text
  | .string s => s
  | v => stringify v

/-- A text that `JSON.parse` refuses counts as a string. -/
def decode (value : Text) : Value := (parse value).getD (.string value)

/-- `if (!value) return null`: this is also taken for an empty text. -/
def decodeReply : Option Text → Value
  | none | some [] => .null
  | some value => decode value

def set (server : Server) (s : Store) (key : Text) (value : Value) (ttlSeconds : Option Number) :
    Except Error Store :=
  match ttlSeconds.filter Number.truthy with
  | some seconds => Redis.setex server s key seconds (encode value)
  | none => .ok (Redis.set s key (encode value))

def get (s : Store) (key : Text) : Except Error Value := do
  let value ← Redis.get s key
  return decodeReply value

def hset (s : Store) (key field : Text) (value : Value) : Except Error (Nat × Store) :=
  Redis.hset s key field (encode value)

def hget (s : Store) (key field : Text) : Except Error Value := do
  let value ← Redis.hget s key field
  return decodeReply value

/-- `parsed[field] = v` on an object that inherits a setter for `__proto__`, which makes no
property. -/
def assign (parsed : List (Text × Value)) (field : Text) (v : Value) : List (Text × Value) :=
  if field = ascii "__proto__" then parsed else define parsed field v

/-- The own properties of the result, and `none` for `null`. -/
def hgetall (server : Server) (s : Store) (key : Text) :
    Except Error (Option (List (Text × Value))) := do
  let value ← Redis.hgetall server s key
  if value = [] then return none
  return some (value.foldl (fun parsed e => assign parsed e.1 (decode e.2)) [])

def lpush (s : Store) (key : Text) (value : Value) : Except Error (Nat × Store) :=
  Redis.lpush s key (encode value)

def lpop (s : Store) (key : Text) : Except Error (Value × Store) := do
  let (value, s) ← Redis.lpop s key
  return (decodeReply value, s)

def lrange (s : Store) (key : Text) (start stop : Int) : Except Error (List Value) := do
  let values ← Redis.lrange s key start stop
  return values.map decode

def sadd (s : Store) (key : Text) (members : List Value) : Except Error (Nat × Store) :=
  Redis.sadd s key (members.map encode)

def smembers (server : Server) (s : Store) (key : Text) : Except Error (List Value) := do
  let members ← Redis.smembers server s key
  return members.map decode

/-- `JSON.parse` does not take the value for something else. -/
def Kept (v : Value) : Prop := ∀ s, v = .string s → parse s = none

theorem decode_string (s : Text) : decode s = .string s ↔ parse s = none := by
  unfold decode
  cases read : parse s with
  | none => simp
  | some v =>
    have other : v ≠ .string s := fun same => parse_ne_self s (same ▸ read)
    simpa using other

theorem decode_encode {v : Value} (h : Representable v) : decode (encode v) = v ↔ Kept v := by
  by_cases text : ∃ s, v = .string s
  · obtain ⟨s, rfl⟩ := text
    simpa [encode, Kept] using decode_string s
  · have kept : Kept v := fun s same => absurd ⟨s, same⟩ text
    have written : encode v = stringify v := by
      cases v <;> first | rfl | exact absurd ⟨_, rfl⟩ text
    simp [written, decode, parse_stringify h, kept]

theorem encode_eq_nil {v : Value} (h : Representable v) : encode v = [] ↔ v = .string [] := by
  constructor
  · intro empty
    cases v with
    | string s => exact congrArg Value.string empty
    | _ =>
      obtain ⟨c, cs, first, -⟩ := Json.stringify_opens h
      exact absurd (first.symm.trans empty) (List.cons_ne_nil c cs)
  · rintro rfl
    rfl

theorem decodeReply_encode {v : Value} (h : Representable v) :
    decodeReply (some (encode v)) = v ↔ Kept v ∧ v ≠ .string [] := by
  by_cases empty : encode v = []
  · rw [empty, (encode_eq_nil h).mp empty]
    simp [decodeReply]
  · have given : v ≠ .string [] := fun same => empty ((encode_eq_nil h).mpr same)
    have read : decodeReply (some (encode v)) = decode (encode v) := by
      unfold decodeReply
      split <;> simp_all
    rw [read, decode_encode h]
    simp [given]

/-- A way to store a value, and the call that reads it. -/
inductive Access where
  | get (ttlSeconds : Option Number)
  | hget (field : Text)
  | hgetall (field : Text)
  | lpop
  | lrange
  | smembers (before after : List Value)

namespace Access

def write (server : Server) (s : Store) (key : Text) (v : Value) : Access → Except Error Store
  | get ttlSeconds => RedisService.set server s key v ttlSeconds
  | hget field | hgetall field => (hset s key field v).map Prod.snd
  | lpop | lrange => (lpush s key v).map Prod.snd
  | smembers before after => (sadd s key (before ++ v :: after)).map Prod.snd

/-- The value stands where it was stored: under its field, in front of every range of the list
that starts there, and at the place of its text in the reply of the server. -/
def ReadsBack (server : Server) (s : Store) (key : Text) (v : Value) : Access → Prop
  | get _ => RedisService.get s key = .ok v
  | hget field => RedisService.hget s key field = .ok v
  | hgetall field => ∃ parsed,
      RedisService.hgetall server s key = .ok (some parsed) ∧ parsed.lookup field = some v
  | lpop => ∃ s', RedisService.lpop s key = .ok (v, s')
  | lrange => ∃ values, Redis.list s key = .ok values ∧ ∀ start stop,
      Redis.position values.length start ≤ 0 → 0 ≤ Redis.position values.length stop →
        ∃ rest, RedisService.lrange s key start stop = .ok (v :: rest)
  | smembers _ _ => ∃ members values, Redis.smembers server s key = .ok members ∧
      RedisService.smembers server s key = .ok values ∧ encode v ∈ members ∧
      ∀ i : Nat, members[i]? = some (encode v) → values[i]? = some v

/-- What the value, and for `hgetall` the field, must be. -/
def Safe (v : Value) : Access → Prop
  | get _ | hget _ | lpop => Kept v ∧ v ≠ .string []
  | hgetall field => Kept v ∧ field ≠ ascii "__proto__"
  | lrange | smembers _ _ => Kept v

variable {server : Server} {s s' : Store} {key : Text} {v : Value}

theorem get_iff (h : Representable v) {ttlSeconds : Option Number}
    (written : (get ttlSeconds).write server s key v = .ok s') :
    (get ttlSeconds).ReadsBack server s' key v ↔ (get ttlSeconds).Safe v := by
  have stored : Redis.get s' key = .ok (some (encode v)) := by
    simp only [write, RedisService.set] at written
    split at written
    · simp only [Redis.setex] at written
      split_ifs at written
      cases written
      simp [Redis.get]
    · cases written
      simp [Redis.get, Redis.set]
  simpa [ReadsBack, Safe, RedisService.get, stored] using
    decodeReply_encode h

theorem of_written {n : Type} {result : Except Error (n × Store)}
    (written : result.map Prod.snd = .ok s') : ∃ count, result = .ok (count, s') := by
  cases result with
  | error e => cases written
  | ok p =>
    cases written
    exact ⟨p.1, rfl⟩

theorem hset_fields {field value : Text} {n : Nat}
    (h : Redis.hset s key field value = .ok (n, s')) :
    ∃ hash, Redis.fields s' key = .ok hash ∧ hash.lookup field = some value := by
  obtain ⟨old, -, same⟩ := ok_of_bind h
  cases same
  exact ⟨old.insert field value, by simp [Redis.fields], AList.lookup_insert old⟩

theorem hget_iff (h : Representable v) {field : Text}
    (written : (hget field).write server s key v = .ok s') :
    (hget field).ReadsBack server s' key v ↔ (hget field).Safe v := by
  obtain ⟨n, stored⟩ := of_written written
  obtain ⟨hash, given, found⟩ := hset_fields stored
  simpa [ReadsBack, Safe, RedisService.hget, Redis.hget, given, found] using decodeReply_encode h

theorem lookup_assign (parsed : List (Text × Value)) (field other : Text) (v : Value) :
    (assign parsed other v).lookup field =
      if field = other ∧ other ≠ ascii "__proto__" then some v else parsed.lookup field := by
  unfold assign
  split_ifs with special <;> simp_all [Json.lookup_define]

theorem lookup_unassigned {field : Text} {entries : List (Text × Text)}
    (other : ∀ e ∈ entries, e.1 = field → field = ascii "__proto__")
    (parsed : List (Text × Value)) :
    (entries.foldl (fun parsed e => assign parsed e.1 (decode e.2)) parsed).lookup field =
      parsed.lookup field := by
  induction entries generalizing parsed with
  | nil => rfl
  | cons e entries ih =>
    rw [List.foldl_cons, ih fun d listed => other d (List.mem_cons_of_mem e listed),
      lookup_assign, if_neg]
    rintro ⟨rfl, ordinary⟩
    exact ordinary (other e List.mem_cons_self rfl)

/-- A field other than `__proto__` is read from the text stored under it. -/
theorem lookup_parsed {field value : Text} (ordinary : field ≠ ascii "__proto__")
    {entries : List (Text × Text)} (distinct : (entries.map Prod.fst).Nodup)
    (listed : (field, value) ∈ entries) (parsed : List (Text × Value)) :
    (entries.foldl (fun parsed e => assign parsed e.1 (decode e.2)) parsed).lookup field =
      some (decode value) := by
  induction entries generalizing parsed with
  | nil => cases listed
  | cons e entries ih =>
    obtain ⟨new, distinct⟩ := List.nodup_cons.mp distinct
    rw [List.foldl_cons]
    rcases List.mem_cons.mp listed with rfl | later
    · rw [lookup_unassigned, lookup_assign, if_pos ⟨rfl, ordinary⟩]
      intro d among same
      exact absurd (List.mem_map.mpr ⟨d, among, same⟩) new
    · exact ih distinct later _

/-- The reply of `hgetall` after `hset` has the field once. -/
theorem hset_reply (server : Server) {field value : Text} {n : Nat}
    (h : Redis.hset s key field value = .ok (n, s')) :
    ∃ reply, Redis.hgetall server s' key = .ok reply ∧ (field, value) ∈ reply ∧
      (reply.map Prod.fst).Nodup := by
  obtain ⟨hash, given, found⟩ := hset_fields h
  have perm := server.order_perm (hash.entries.map fun e => (e.1, e.2))
  refine ⟨_, by simp only [Redis.hgetall, given, ok_bind, pure_eq_ok],
    perm.mem_iff.mpr ?_, (perm.map Prod.fst).nodup_iff.mpr ?_⟩
  · simpa using AList.mem_lookup_iff.mp found
  · rw [List.map_map]
    exact hash.nodupKeys

theorem hgetall_iff (h : Representable v) {field : Text}
    (written : (hgetall field).write server s key v = .ok s') :
    (hgetall field).ReadsBack server s' key v ↔ (hgetall field).Safe v := by
  obtain ⟨n, stored⟩ := of_written written
  obtain ⟨reply, given, listed, distinct⟩ := hset_reply server stored
  have filled : reply ≠ [] := List.ne_nil_of_mem listed
  have parsed : RedisService.hgetall server s' key =
      .ok (some (reply.foldl (fun parsed e => assign parsed e.1 (decode e.2)) [])) := by
    simp [RedisService.hgetall, given, filled]
  simp only [ReadsBack, Safe, parsed, Except.ok.injEq, Option.some.injEq, exists_eq_left']
  by_cases ordinary : field = ascii "__proto__"
  · rw [lookup_unassigned fun e _ same => ordinary]
    simp [ordinary]
  · rw [lookup_parsed ordinary distinct listed, Option.some.injEq, decode_encode h]
    simp [ordinary]

theorem lpush_list {value : Text} {n : Nat} (h : Redis.lpush s key value = .ok (n, s')) :
    ∃ rest, Redis.list s' key = .ok (value :: rest) := by
  obtain ⟨old, -, same⟩ := ok_of_bind h
  cases same
  exact ⟨old, by simp [Redis.list]⟩

theorem lpop_iff (h : Representable v) (written : lpop.write server s key v = .ok s') :
    lpop.ReadsBack server s' key v ↔ lpop.Safe v := by
  obtain ⟨n, stored⟩ := of_written written
  obtain ⟨rest, given⟩ := lpush_list stored
  have popped : ∃ s'', Redis.lpop s' key = .ok (some (encode v), s'') := by
    cases rest <;> exact ⟨_, by simp [Redis.lpop, given]; rfl⟩
  obtain ⟨s'', popped⟩ := popped
  simp [ReadsBack, Safe, RedisService.lpop, popped, decodeReply_encode h]

/-- A range from the front of the list on. -/
theorem lrange_front {value : Text} {rest : List Text}
    (given : Redis.list s key = .ok (value :: rest)) {start stop : Int}
    (first : Redis.position (value :: rest).length start ≤ 0)
    (last : 0 ≤ Redis.position (value :: rest).length stop) :
    ∃ values, Redis.lrange s key start stop = .ok (value :: values) := by
  obtain ⟨k, hk⟩ := Int.eq_ofNat_of_zero_le last
  have front : (max 0 (Redis.position (value :: rest).length start)).toNat = 0 := by omega
  have count : (Redis.position (value :: rest).length stop + 1 -
      max 0 (Redis.position (value :: rest).length start)).toNat = k + 1 := by omega
  exact ⟨rest.take k, by
    simp only [Redis.lrange, given, ok_bind, pure_eq_ok, front, count,
      List.drop_zero, List.take_succ_cons]⟩

theorem lrange_iff (h : Representable v) (written : lrange.write server s key v = .ok s') :
    lrange.ReadsBack server s' key v ↔ lrange.Safe v := by
  obtain ⟨n, stored⟩ := of_written written
  obtain ⟨rest, given⟩ := lpush_list stored
  have range (start stop : Int) (first : Redis.position (encode v :: rest).length start ≤ 0)
      (last : 0 ≤ Redis.position (encode v :: rest).length stop) :
      ∃ values, RedisService.lrange s' key start stop = .ok (decode (encode v) :: values) := by
    obtain ⟨values, raw⟩ := lrange_front given first last
    exact ⟨values.map decode, by
      simp [RedisService.lrange, raw]⟩
  rw [Safe, ← decode_encode h]
  constructor
  · rintro ⟨values, same, reads⟩
    cases given.symm.trans same
    obtain ⟨decoded, raw⟩ := range 0 0 (by simp [Redis.position])
      (by simp [Redis.position])
    obtain ⟨others, read⟩ := reads 0 0 (by simp [Redis.position]) (by simp [Redis.position])
    exact (List.cons.inj (Except.ok.inj (raw.symm.trans read))).1
  · intro kept
    exact ⟨_, given, fun start stop first last => kept ▸ range start stop first last⟩

theorem sadd_members {added : List Text} {n : Nat} (h : Redis.sadd s key added = .ok (n, s')) :
    ∃ members, Redis.members s' key = .ok members ∧ ∀ m ∈ added, m ∈ members.list := by
  unfold Redis.sadd at h
  split_ifs at h
  · cases h
  · obtain ⟨old, -, same⟩ := ok_of_bind h
    cases same
    exact ⟨added.foldl Redis.Members.insert old, by simp [Redis.members],
      fun m listed => Redis.Members.mem_insertAll (.inl listed)⟩

theorem smembers_iff (h : Representable v) {before after : List Value}
    (written : (smembers before after).write server s key v = .ok s') :
    (smembers before after).ReadsBack server s' key v ↔ (smembers before after).Safe v := by
  obtain ⟨n, stored⟩ := of_written written
  obtain ⟨members, given, all⟩ := sadd_members stored
  have listed : encode v ∈ server.order members.list :=
    (server.order_perm members.list).mem_iff.mpr (all _ (by simp))
  have raw : Redis.smembers server s' key = .ok (server.order members.list) := by
    simp [Redis.smembers, given]
  have read : RedisService.smembers server s' key = .ok ((server.order members.list).map decode) := by
    simp [RedisService.smembers, raw]
  rw [Safe, ← decode_encode h]
  constructor
  · rintro ⟨reply, values, same, decoded, -, places⟩
    cases raw.symm.trans same
    cases read.symm.trans decoded
    obtain ⟨i, place⟩ := List.mem_iff_getElem?.mp listed
    simpa [List.getElem?_map, place] using places i place
  · intro kept
    refine ⟨_, _, raw, read, listed, fun i place => ?_⟩
    simp [List.getElem?_map, place, kept]

end Access

/-- A value is read back, whatever the key held before, if and only if it is not a string that
`JSON.parse` takes, not the empty one where that counts as absent, and not under `__proto__`. -/
theorem reads_back_iff {server : Server} {s s' : Store} {key : Text} {v : Value}
    (h : Representable v) (access : Access) (written : access.write server s key v = .ok s') :
    access.ReadsBack server s' key v ↔ access.Safe v := by
  cases access with
  | get ttlSeconds => exact Access.get_iff h written
  | hget field => exact Access.hget_iff h written
  | hgetall field => exact Access.hgetall_iff h written
  | lpop => exact Access.lpop_iff h written
  | lrange => exact Access.lrange_iff h written
  | smembers before after => exact Access.smembers_iff h written

/-- A server that keeps the order in which things were stored. -/
def redis : Server := ⟨fun _ => true, fun l => l, fun l => List.Perm.refl l⟩

/-- A value of every kind inside others. -/
def basket : Value :=
  .object [(ascii "owner", .string (ascii "ann")),
    (ascii "items",
      .array [.array [.null, .bool true], .string (ascii "true"), .number (.finite 3)])]

theorem basket_representable : Representable basket := by
  have three : Json.Stored 3 := by
    refine ⟨Binary64.nearest_int (n := 3) (by norm_num), ?_⟩
    calc |(3 : Rat)| < 2 ^ 2 := by norm_num
      _ ≤ 2 ^ 1024 := pow_le_pow_right₀ (by norm_num) (by norm_num)
  have inner : Representable (.array [.null, .bool true]) := by
    apply Representable.array
    simp only [List.forall_mem_cons, List.not_mem_nil, false_imp_iff, implies_true, and_true]
    exact ⟨.null, .bool true⟩
  have items : Representable
      (.array [.array [.null, .bool true], .string (ascii "true"), .number (.finite 3)]) := by
    apply Representable.array
    simp only [List.forall_mem_cons, List.not_mem_nil, false_imp_iff, implies_true, and_true]
    exact ⟨inner, .string _, .number three⟩
  apply Representable.object
  · unfold Json.Ordered Json.Precedes
    decide
  · simp only [List.forall_mem_cons, List.not_mem_nil, false_imp_iff, implies_true, and_true]
    exact ⟨.string _, items⟩

/-- A hash with another field, and a list with another value. -/
def shelf : Store := fun key =>
  if key = ascii "baskets" then some (.hash ((∅ : AList fun _ : Text => Text).insert
    (ascii "bob") (ascii "1")))
  else some (.list [ascii "null"])

theorem reads_back_basket :
    (∃ s, (Access.hget (ascii "ann")).write redis shelf (ascii "baskets") basket = .ok s ∧
      (Access.hget (ascii "ann")).ReadsBack redis s (ascii "baskets") basket) ∧
    ∃ s, Access.lpop.write redis shelf (ascii "jobs") (.string (ascii "mail")) = .ok s ∧
      Access.lpop.ReadsBack redis s (ascii "jobs") (.string (ascii "mail")) := by
  have hash : ∃ s, (Access.hget (ascii "ann")).write redis shelf (ascii "baskets") basket = .ok s :=
    ⟨_, rfl⟩
  have list : ∃ s, Access.lpop.write redis shelf (ascii "jobs") (.string (ascii "mail")) = .ok s :=
    ⟨_, rfl⟩
  obtain ⟨s, stored⟩ := hash
  obtain ⟨s', pushed⟩ := list
  have nonempty : basket ≠ .string [] := fun same => by cases same
  have kept : Kept basket := by
    intro _ same
    cases same
  have mail : Kept (.string (ascii "mail")) := by
    intro _ same
    cases same
    decide
  refine ⟨⟨s, stored, ?_⟩, s', pushed, ?_⟩
  · exact (reads_back_iff basket_representable (.hget (ascii "ann")) stored).mpr
      ⟨kept, nonempty⟩
  · refine (reads_back_iff (.string _) .lpop pushed).mpr ⟨mail, fun same => ?_⟩
    cases same

/-- The string `true` comes back as a truth value, and the empty one as `null`. -/
theorem true_and_empty_lost :
    let stored := fun text => Redis.set (fun _ => none) (ascii "flag") text
    (Access.get none).write redis (fun _ => none) (ascii "flag") (.string (ascii "true")) =
        .ok (stored (ascii "true")) ∧
      get (stored (ascii "true")) (ascii "flag") = .ok (.bool true) ∧
      ¬(Access.get none).ReadsBack redis (stored (ascii "true")) (ascii "flag")
        (.string (ascii "true")) ∧
      (Access.get none).write redis (fun _ => none) (ascii "flag") (.string []) =
        .ok (stored []) ∧
      get (stored []) (ascii "flag") = .ok .null ∧
      ¬(Access.get none).ReadsBack redis (stored []) (ascii "flag") (.string []) := by
  intro stored
  have read : get (stored (ascii "true")) (ascii "flag") = .ok (.bool true) := rfl
  have absent : get (stored []) (ascii "flag") = .ok .null := rfl
  refine ⟨rfl, read, ?_, rfl, absent, ?_⟩
  · intro same
    cases read.symm.trans same
  · intro same
    cases absent.symm.trans same

end RedisService

end SecondhandApi
