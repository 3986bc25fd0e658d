import SecondhandApi.Obligations
import SecondhandApi.UserCalls
import SecondhandApi.Interleaving.Debts
import SecondhandApi.Interleaving.Tallies

/-! Accounts while the requests of all users interleave: what of an account never changes, and
that no two accounts ever share an email, a nickname or a phone number. -/
namespace SecondhandApi
open Keyed Interleaving

/-- What an account keeps of itself, once made; closed, it stays closed. -/
structure AccountKept (old new : User) : Prop where
  email : new.email = old.email
  role : new.role = old.role
  password : new.password = old.password
  createdAt : new.createdAt = old.createdAt
  closed : new.isActive = true → old.isActive = true

theorem AccountKept.refl (user : User) : AccountKept user user := ⟨rfl, rfl, rfl, rfl, id⟩

theorem AccountKept.trans {a b c : User} (h : AccountKept a b) (k : AccountKept b c) :
    AccountKept a c :=
  ⟨k.email.trans h.email, k.role.trans h.role, k.password.trans h.password,
    k.createdAt.trans h.createdAt, h.closed ∘ k.closed⟩

theorem UserUpdateInput.apply_kept {data : UserUpdateInput} {row new : User}
    (h : data.apply row = some new) : AccountKept row new := by
  simp only [UserUpdateInput.apply, Option.bind_eq_bind, Option.bind_eq_some_iff] at h
  obtain ⟨nickname, _, made⟩ := h
  cases made
  exact ⟨rfl, rfl, rfl, rfl, id⟩

theorem deactivated_kept (user : User) : AccountKept user (Prisma.deactivated user) :=
  ⟨rfl, rfl, rfl, rfl, fun active => by cases active⟩

theorem set_kept {t : Table Id User} {id u : Id} {old new row : User} (there : t.find? id = some old)
    (kept : AccountKept old new) (found : t.find? u = some row) :
    ∃ row', (t.set id new).find? u = some row' ∧ AccountKept row row' := by
  rw [Table.find?_set there]
  by_cases same : u = id
  · subst same
    cases there.symm.trans found
    exact ⟨new, if_pos rfl, kept⟩
  · exact ⟨row, by rw [if_neg same]; exact found, .refl row⟩

/-- No call loses an account or changes what it keeps. -/
theorem account_after (c : Call) (db : Db) {u : Id} {row : User}
    (found : db.users.find? u = some row) :
    ∃ row', (exec c db).1.users.find? u = some row' ∧ AccountKept row row' := by
  have effect := call_effect c db
  generalize (exec c db).2 = reply at effect
  generalize (exec c db).1.toTables = after at effect
  cases effect with
  | @userMade id now data new fresh =>
    refine ⟨row, ?_, .refl row⟩
    change (db.users.insert id new).find? u = some row
    rw [Table.find?_insert fresh, if_neg (fun same => by simp [same, fresh] at found)]
    exact found
  | userSet old new there made => exact set_kept there (UserUpdateInput.apply_kept made) found
  | userWithdrawn user there => exact set_kept there (deactivated_kept user) found
  | _ => exact ⟨row, found, .refl row⟩

/-- An account that a call has made is the one that was asked for. -/
theorem account_made {id : Id} {now : Date} {data : UserCreateInput} {db : Db} {row : User}
    (h : (exec (.userCreate id now data) db).2 = .ok row) :
    row = data.row now ∧ (exec (.userCreate id now data) db).1.users.find? id = some row := by
  rcases exec_write db (c := .userCreate id now data) rfl with ⟨e, _, done⟩ | ⟨mid, a, ok, done⟩
  · rw [done] at h
    cases h
  · obtain ⟨fresh, made, after⟩ := Prisma.userCreate_ok ok
    rw [done] at h ⊢
    cases h
    refine ⟨made, ?_⟩
    change mid.toTables.users.find? id = some row
    rw [after]
    exact Table.find?_insert_self fresh row

/-! The columns that no two accounts may share. -/

inductive Handle where
  | email (email : String)
  | nickname (nickname : String)
  | phone (phone : String)

def Handle.of : Handle → User → Bool
  | email e, user => user.email = e
  | nickname n, user => user.nickname = n
  | phone p, user => user.phoneNumber = some p

def Tables.holders (t : Tables) (h : Handle) : Nat := t.users.rows.countP fun row => h.of row.2

/-- Each handle is held by one account at most. -/
def OneEach (t : Tables) : Prop :=
  ∀ (g : Handle) (i j : Id) (u v : User), t.users.find? i = some u → t.users.find? j = some v →
    g.of u = true → g.of v = true → i = j

section
variable {t t' : Tables} {id : Id} {now : Date} {row old new : User}

theorem OneEach.insert (h : OneEach t) (fresh : t.users.find? id = none)
    (free : ∀ g : Handle, g.of row = true → ∀ j v, t.users.find? j = some v → g.of v = false) :
    OneEach (t.withUsers (t.users.insert id row)) := by
  intro g i j u v hi hj hu hv
  rw [Tables.users_withUsers] at hi hj
  rcases Table.find?_insert_cases hi with before | ⟨rfl, rfl⟩ <;>
    rcases Table.find?_insert_cases hj with before' | ⟨rfl, rfl⟩
  · exact h g i j u v before before' hu hv
  · cases hu.symm.trans (free g hv i u before)
  · cases hv.symm.trans (free g hu j v before')
  · rfl

/-- An account that is written may take up a handle that nobody else has. -/
theorem OneEach.set (h : OneEach t) (found : t.users.find? id = some old)
    (free : ∀ g : Handle, g.of new = true → g.of old = true ∨
      ∀ j v, j ≠ id → t.users.find? j = some v → g.of v = false) :
    OneEach (t.withUsers (t.users.set id new)) := by
  have other (g : Handle) (j : Id) (v : User) (hn : g.of new = true) (hj : t.users.find? j = some v)
      (hv : g.of v = true) : j = id := by
    rcases free g hn with held | nobody
    · exact h g j id v old hj found hv held
    · by_contra apart
      cases hv.symm.trans (nobody j v apart hj)
  intro g i j u v hi hj hu hv
  rw [Tables.users_withUsers, Table.find?_set found] at hi hj
  by_cases first : i = id <;> by_cases second : j = id
  · exact first.trans second.symm
  · rw [if_pos first] at hi
    rw [if_neg second] at hj
    cases hi
    exact absurd (other g j v hu hj hv) second
  · rw [if_neg first] at hi
    rw [if_pos second] at hj
    cases hj
    exact absurd (other g i u hv hi hu) first
  · rw [if_neg first] at hi
    rw [if_neg second] at hj
    exact h g i j u v hi hj hu hv

theorem userCreate_free {data : UserCreateInput}
    (h : Prisma.userCreate t id now data = .ok (t', row)) (g : Handle) (has : g.of row = true)
    {j : Id} {v : User} (found : t.users.find? j = some v) : g.of v = false := by
  obtain ⟨fresh, made, -⟩ := Prisma.userCreate_ok h
  have apart : j ≠ id := by
    rintro rfl
    cases fresh.symm.trans found
  unfold Prisma.userCreate at h
  split at h
  · cases h
  rename_i free
  simp only [Bool.or_eq_true, not_or, Bool.not_eq_true] at free
  obtain ⟨⟨⟨-, email⟩, nickname⟩, phone⟩ := free
  have nobody {p : Id → User → Bool} (none : t.users.any p = false) : p j v = false := by
    by_contra held
    rw [Bool.not_eq_false] at held
    cases none.symm.trans (Table.any_iff.mpr ⟨j, v, found, held⟩)
  subst made
  cases g with
  | email e =>
    have own : data.email = e := of_decide_eq_true has
    have free := nobody email
    rwa [own] at free
  | nickname n =>
    have own : data.nickname = n := of_decide_eq_true has
    have free := nobody (p := fun i u => i ≠ id && u.nickname = data.nickname) nickname
    simpa [Handle.of, apart, own] using free
  | phone p =>
    have own : data.phoneNumber.orNull = some p := of_decide_eq_true has
    cases number : data.phoneNumber with
    | undefined => simp [number, Field.orNull, Field.nullable] at own
    | null => simp [number, Field.orNull, Field.nullable] at own
    | value q =>
      rw [number] at phone own
      cases own
      have free := nobody (p := fun i u => i ≠ id && u.phoneNumber = some p) phone
      simpa [Handle.of, apart] using free

theorem userUpdate_free {data : UserUpdateInput}
    (h : Prisma.userUpdate t id data = .ok (t', new)) (found : t.users.find? id = some old)
    (g : Handle) (has : g.of new = true) : g.of old = true ∨
      ∀ j v, j ≠ id → t.users.find? j = some v → g.of v = false := by
  obtain ⟨row, there, made, -⟩ := Prisma.userUpdate_ok h
  cases there.symm.trans found
  have nobody {p : User → Bool} (none : t.users.any (fun i u => i ≠ id && p u) = false) :
      ∀ j v, j ≠ id → t.users.find? j = some v → p v = false := by
    intro j v apart at'
    by_contra held
    rw [Bool.not_eq_false] at held
    cases none.symm.trans (Table.any_iff.mpr ⟨j, v, at', by simp [apart, held]⟩)
  unfold Prisma.userUpdate at h
  rw [found] at h
  dsimp only at h
  rw [made] at h
  dsimp only at h
  split at h
  · cases h
  rename_i free
  simp only [Bool.or_eq_true, not_or, Bool.not_eq_true] at free
  have kept := UserUpdateInput.apply_kept made
  simp only [UserUpdateInput.apply, Option.bind_eq_bind, Option.bind_eq_some_iff] at made
  obtain ⟨nickname, named, made⟩ := made
  cases made
  cases g with
  | email e => exact Or.inl has
  | nickname n =>
    cases wanted : data.nickname with
    | undefined =>
      rw [wanted] at named
      cases named
      exact Or.inl has
    | null =>
      rw [wanted] at named
      cases named
    | value m =>
      rw [wanted] at named free
      cases Option.some.inj named
      cases (of_decide_eq_true has : _ = n)
      exact Or.inr (nobody free.1)
  | phone p =>
    cases wanted : data.phoneNumber with
    | undefined =>
      rw [wanted] at has
      exact Or.inl has
    | null =>
      rw [wanted] at has
      simp [Handle.of, Field.nullable] at has
    | value q =>
      rw [wanted] at has free
      have own : some q = some p := of_decide_eq_true has
      cases own
      exact Or.inr (nobody free.2)

end

/-- No call lets two accounts share a handle. -/
theorem oneEach_call {db : Db} (h : OneEach db.toTables) (c : Call) :
    OneEach (exec c db).1.toTables := by
  have effect := call_effect c db
  cases c with
  | userCreate id now data =>
    rcases exec_write db (c := .userCreate id now data) rfl with ⟨e, _, done⟩ | ⟨mid, row, ok, done⟩
    · rw [done]
      exact h
    · obtain ⟨fresh, -, after⟩ := Prisma.userCreate_ok ok
      rw [done]
      change OneEach mid.toTables
      rw [after]
      exact h.insert fresh fun g has j v found => userCreate_free ok g has found
  | userUpdate id data =>
    rcases exec_write db (c := .userUpdate id data) rfl with ⟨e, _, done⟩ | ⟨mid, new, ok, done⟩
    · rw [done]
      exact h
    · obtain ⟨old, found, -, after⟩ := Prisma.userUpdate_ok ok
      rw [done]
      change OneEach mid.toTables
      rw [after]
      exact h.set found (userUpdate_free ok found)
  | userSoftDelete id =>
    generalize (exec (.userSoftDelete id) db).2 = reply at effect
    generalize (exec (.userSoftDelete id) db).1.toTables = after at effect ⊢
    cases effect with
    | read _ reads => exact h
    | refused e => exact h
    | userWithdrawn user found =>
      exact h.set (t := db.toTables) found fun g has => Or.inl (by cases g <;> exact has)
  | _ =>
    generalize (exec _ db).2 = reply at effect
    generalize (exec _ db).1.toTables = after at effect ⊢
    cases effect <;> exact h

/-! Registrations: each that is answered adds an account, and nothing takes it away. -/

/-- An account with the email was made. -/
def registered (e : String) : Answer Call Call.Reply → Bool
  | ⟨.userCreate _ _ _, .ok row⟩ => row.email = e
  | _ => false

theorem holders_set {t : Tables} {id : Id} {old new : User} (found : t.users.find? id = some old)
    (kept : AccountKept old new) (e : String) :
    (t.withUsers (t.users.set id new)).holders (.email e) = t.holders (.email e) := by
  unfold Tables.holders
  rw [List.countP_eq_length_filter, List.countP_eq_length_filter]
  rw [← List.length_map fun row : Id × User => (),
    ← @List.length_map _ _ (t.users.rows.filter _) fun row : Id × User => ()]
  apply congrArg List.length
  apply Table.query_modifyAll
  intro k row there
  refine ⟨?_, fun _ => rfl⟩
  by_cases same : k = id
  · subst same
    cases found.symm.trans there
    simp [Handle.of, kept.email]
  · simp [same]

theorem holders_call (e : String) (c : Call) (db : Db) :
    (exec c db).1.holders (.email e) =
      db.holders (.email e) + if registered e ⟨c, (exec c db).2⟩ then 1 else 0 := by
  have effect := call_effect c db
  change (exec c db).1.toTables.holders _ = _
  generalize (exec c db).2 = reply at effect ⊢
  generalize (exec c db).1.toTables = after at effect ⊢
  cases effect with
  | read _ reads =>
    cases c <;> first
      | rfl
      | cases reads
  | refused err => cases c <;> rfl
  | @userMade id now data row fresh =>
    simp [Tables.holders, Table.rows_insert fresh, List.countP_append, List.countP_singleton,
      Handle.of, registered]
  | userSet old new found made => exact holders_set found (UserUpdateInput.apply_kept made) e
  | userWithdrawn user found => exact holders_set found (deactivated_kept user) e
  | _ => rfl

/-- A registration that is answered has made its account. -/
def registrationEnds (op : Op) (log : Log) : Except ApiError Response → Prop
  | .ok _ => match op with
    | .usersCreate dto id now hashed => ∃ data row, ⟨.userCreate id now data, .ok row⟩ ∈ log ∧
      data.email = dto.email ∧ data.password = hashed
    | _ => True
  | .error _ => True

theorem usersCreate_ends (dto : CreateUserDto) (id : Id) (now : Date) (hashed : String) :
    let op := Op.usersCreate dto id now hashed
    Request.Obeys (fun _ _ => True) (registrationEnds op) [] op.program := by
  intro op
  change Request.Obeys _ _ _ (Response.user <$> UsersService.create dto id now hashed)
  rw [Request.map_eq]
  apply Request.obeys_bind
  apply obeys_await trivial _ fun _ => trivial
  intro existingEmail
  split
  · trivial
  apply obeys_await trivial _ fun _ => trivial
  intro existingNickname
  split
  · trivial
  apply Request.obeys_bind
  have looks : Request.Makes (fun _ => True) (UsersService.refuseTaken
      UsersRepository.findByPhoneNumber "이미 사용 중인 전화번호입니다" dto.phoneNumber) :=
    refuseTaken_makes (fun v => makes_last trivial) _ _
  refine Request.obeys_weaken _ (fun log r _ => ?_) (looks.obeys _)
  cases r with
  | error e => trivial
  | ok _ =>
    apply obeys_await trivial _ fun _ => trivial
    exact fun row => ⟨_, row, List.mem_cons_self, rfl, rfl⟩

theorem registration_ends (op : Op) :
    Request.Obeys (fun _ _ => True) (registrationEnds op) [] op.program := by
  cases op with
  | usersCreate dto id now hashed => exact usersCreate_ends dto id now hashed
  | _ => exact Request.obeys_map (fun _ _ => trivial) fun _ _ => trivial

/-- The account that an answer says was made is there. -/
def Made (s : Db) (a : Answer Call Call.Reply) : Prop :=
  ∀ id now data row, a = ⟨.userCreate id now data, .ok row⟩ →
    row = data.row now ∧ ∃ row', s.users.find? id = some row' ∧ AccountKept row row'

structure AccountsRight (db : Db) (p : Requests) : Prop where
  obedient : Service.Obedient (fun _ _ _ => True) registrationEnds p
  logged : Service.Logged Made p
  once : OneEach p.store.toTables
  counted : ∀ e, p.store.holders (.email e) = db.holders (.email e) + tally (registered e) p
  kept : ∀ u row, db.users.find? u = some row →
    ∃ row', p.store.users.find? u = some row' ∧ AccountKept row row'

theorem accountsRight_step {db : Db} {p : Requests} (h : AccountsRight db p) (turn : Turn Op) :
    AccountsRight db (service.step p turn) := by
  constructor
  · apply service.obedient_step (fun op (_ : True) => registration_ends op) p turn h.obedient
    exact fun _ _ => trivial
  · apply service.logged_step h.logged turn
    intro i t c next _ _ _
    constructor
    · intro id now data row same
      generalize answer : (service.exec c p.store).2 = reply at same
      cases same
      obtain ⟨made, found⟩ := account_made answer
      exact ⟨made, row, found, .refl row⟩
    · intro t' _ a _ before id now data row same
      obtain ⟨made, row', found, kept⟩ := before id now data row same
      obtain ⟨row'', still, more⟩ := account_after c p.store found
      exact ⟨made, row'', still, kept.trans more⟩
  · apply service.store_step (I := fun s => OneEach s.toTables) h.once turn
    exact fun _ _ c _ _ _ _ => oneEach_call h.once c
  · apply service.tally_step
      (I := fun s n => ∀ e, s.holders (.email e) = db.holders (.email e) + n (registered e))
      h.counted turn
    intro i t c next _ _ _ e
    change (exec c p.store).1.holders _ = _
    rw [holders_call, h.counted e, Nat.add_assoc]
    rfl
  · apply service.store_step (I := fun s => ∀ u row, db.users.find? u = some row →
      ∃ row', s.users.find? u = some row' ∧ AccountKept row row') h.kept turn
    intro i t c next _ _ _ u row found
    obtain ⟨row', there, kept⟩ := h.kept u row found
    obtain ⟨row'', still, more⟩ := account_after c p.store there
    exact ⟨row'', still, kept.trans more⟩

theorem accountsRight_run (db : Db) (once : OneEach db.toTables) (turns : List (Turn Op)) :
    AccountsRight db (run service.step db.idle turns) := by
  apply run_keeps (I := AccountsRight db) fun _ turn h => accountsRight_step h turn
  constructor
  · intro t none
    cases none
  · intro t none
    cases none
  · exact once
  · exact fun e => rfl
  · exact fun u row found => ⟨row, found, .refl row⟩

/-- In any order of requests no email, nickname or phone number is held by two accounts; accounts
keep their email, role, password and date, and none is lost; those of an email are the ones that
were there and those that registrations were answered with, so that of the registrations with one
email at most one is answered. -/
theorem registrations_exact (db : Db) (once : OneEach db.toTables) (turns : List (Turn Op)) :
    let p := run service.step db.idle turns
    OneEach p.store.toTables ∧
    (∀ u row, db.users.find? u = some row →
      ∃ row', p.store.users.find? u = some row' ∧ AccountKept row row') ∧
    (∀ e, p.store.holders (.email e) = db.holders (.email e) + tally (registered e) p ∧
      p.store.holders (.email e) ≤ 1) ∧
    ∀ t ∈ p.threads, ∀ dto id now hashed answer, t.op = .usersCreate dto id now hashed →
      t.rest = .done answer → ∃ row, p.store.users.find? id = some row ∧ row.email = dto.email ∧
        row.password = hashed ∧ row.role = .user ∧ row.createdAt = now := by
  intro p
  have right : AccountsRight db p := accountsRight_run db once turns
  refine ⟨right.once, right.kept, fun e => ⟨right.counted e, ?_⟩, ?_⟩
  · apply Table.countP_le_one
    exact fun i j u v hi hj hu hv => right.once (.email e) i j u v hi hj hu hv
  · intro t member dto id now hashed answer asked answered
    have obeys := right.obedient t member
    rw [answered, asked] at obeys
    obtain ⟨data, row, seen, email, password⟩ := obeys
    obtain ⟨rfl, row', found, kept⟩ := right.logged t member _ seen id now data row rfl
    exact ⟨row', found, kept.email.trans email, kept.password.trans password, kept.role,
      kept.createdAt⟩

theorem market_oneEach : OneEach market.toTables := by
  have apart : ∀ a ∈ market.users.rows, ∀ b ∈ market.users.rows,
      a.2.email = b.2.email ∨ a.2.nickname = b.2.nickname ∨
        (a.2.phoneNumber = b.2.phoneNumber ∧ a.2.phoneNumber ≠ none) → a.1 = b.1 := by
    decide +kernel
  intro g i j u v hi hj hu hv
  apply apart (i, u) (market.users.mem_rows.mpr hi) (j, v) (market.users.mem_rows.mpr hj)
  cases g with
  | email e => exact Or.inl ((of_decide_eq_true hu).trans (of_decide_eq_true hv).symm)
  | nickname n =>
    exact Or.inr (Or.inl ((of_decide_eq_true hu).trans (of_decide_eq_true hv).symm))
  | phone q =>
    have number : u.phoneNumber = some q := of_decide_eq_true hu
    refine Or.inr (Or.inr ⟨number.trans (of_decide_eq_true hv).symm, ?_⟩)
    simp [number]

def danDto : CreateUserDto := { email := "dan@market", password := "pw", nickname := "dan" }

/-- Dan registers twice at once: both requests find the email free. -/
def danTwice : List (Turn Op) :=
  [.arrive (.usersCreate danDto "dan-1" 1 "hash"), .arrive (.usersCreate danDto "dan-2" 1 "hash"),
    .call 0, .call 1, .call 0, .call 1, .call 0, .call 1]

theorem registrations_exact_dan :
    (run service.step market.idle danTwice).store.holders (.email "dan@market") = 1 := by
  obtain ⟨_, _, counted, _⟩ := registrations_exact market market_oneEach danTwice
  rw [(counted "dan@market").1]
  decide +kernel

end SecondhandApi
