import SecondhandApi.Accounts
import SecondhandApi.Withdrawal

/-! Tokens while the requests of all users interleave. A visit passes the guards with a token that
was handed out before and goes on as a request among the others. This module says for whom requests
are carried out, and for how long after its withdrawal an account is still let in. -/
namespace SecondhandApi
open Keyed Interleaving

/- The tokens that a request was answered with. -/
def tokensOf (t : Running) : List JwtPayload :=
  match t.rest with
  | .done response => response.issues
  | _ => []

def handedOut (p : Requests) : List JwtPayload := p.threads.flatMap tokensOf

inductive SiteTurn where
  | visit (v : Visit)
  | call (i : Nat)

/-- A visit comes to the guards, or a request that is past them makes its next call. -/
def site (p : Requests) : SiteTurn → Requests
  | .visit v =>
    match Session.operation ⟨p.store, handedOut p⟩ v with
    | .error _ => p
    | .ok op => service.step p (.arrive op)
  | .call i => service.step p (.call i)

/-- What every call keeps, and every request that passes the guards, every turn keeps. -/
theorem site_keeps {I : Requests → Prop} {p : Requests} (h : I p)
    (called : ∀ i, I (service.step p (.call i)))
    (arrived : ∀ v op, Session.operation ⟨p.store, handedOut p⟩ v = .ok op →
      I (service.step p (.arrive op))) (turn : SiteTurn) : I (site p turn) := by
  cases turn with
  | call i => exact called i
  | visit v =>
    cases passed : Session.operation ⟨p.store, handedOut p⟩ v with
    | error e => simpa only [site, passed] using h
    | ok op => simpa only [site, passed] using arrived v op passed

/-! The guards. -/

theorem authenticate_ok {issued : List JwtPayload} {now : Date} {wanted : TokenType}
    {token : Option JwtPayload} {user : JwtValidationResult}
    (h : authenticate issued now wanted token = .ok user) : ∃ payload ∈ issued,
      token = some payload ∧ payload.expired now = false ∧
        (payload.type = none ∨ payload.type = some wanted) ∧
        user = ⟨payload.sub, payload.email, payload.role⟩ := by
  cases token with
  | none => cases h
  | some payload =>
    have valid (r : Except ApiError JwtValidationResult) (h : validatePayload wanted payload = r)
        (ok : r = .ok user) : (payload.type = none ∨ payload.type = some wanted) ∧
          user = ⟨payload.sub, payload.email, payload.role⟩ := by
      subst ok
      unfold validatePayload at h
      split at h
      · cases h
      rename_i type
      split at h
      · cases h
      · cases h
        exact ⟨by_contra fun none => type (not_or.mp none), rfl⟩
    unfold authenticate at h
    dsimp only at h
    split at h
    · cases h
    rename_i held
    split at h
    · cases h
    rename_i current
    refine ⟨payload, not_not.mp held, rfl, Bool.not_eq_true _ ▸ current, ?_⟩
    cases wanted with
    | access => exact valid _ rfl h
    | refresh => exact valid _ rfl h

/-- A visit that passes asks nothing, or shows a token that is accepted. -/
theorem operation_cases {s : Session} {v : Visit} {op : Op} (h : s.operation v = .ok op) :
    v.endpoint.access = .isPublic op ∨ ∃ wanted roles handle user,
      v.endpoint.access = .guarded wanted roles handle ∧
      authenticate s.issued v.now wanted v.token = .ok user ∧
      RolesGuard.canActivate roles user = .ok () ∧ op = handle user.userId := by
  unfold Session.operation at h
  cases access : v.endpoint.access with
  | isPublic op' =>
    rw [access] at h
    cases h
    exact Or.inl rfl
  | guarded wanted roles handle =>
    rw [access] at h
    dsimp only at h
    cases shown : authenticate s.issued v.now wanted v.token with
    | error e =>
      rw [shown] at h
      cases h
    | ok user =>
      rw [shown] at h
      dsimp only at h
      cases role : RolesGuard.canActivate roles user with
      | error e =>
        rw [role] at h
        cases h
      | ok _ =>
        rw [role] at h
        cases h
        exact Or.inr ⟨wanted, roles, handle, user, rfl, shown, role, rfl⟩

/- Whom an operation is carried out for. -/
def Op.caller : Op → Option Id
  | .ordersCreate buyerId _ _ => some buyerId
  | .ordersFindOne _ userId | .ordersUpdate _ userId _ | .ordersCancel _ userId _ |
    .ordersConfirm _ userId _ _ => some userId
  | .productsCreate sellerId _ _ _ => some sellerId
  | .productsUpdate _ userId _ | .productsRemove _ userId => some userId
  | .usersFindOne id | .usersUpdate id _ | .usersRemove id => some id
  | .usersRefreshAccessToken userId _ => some userId
  | .ordersRemove _ | .productsFindById _ | .usersCreate .. | .usersLogin .. => none

def Op.removal : Op → Bool
  | .ordersRemove _ => true
  | _ => false

theorem public_caller {e : Endpoint} {op : Op} (h : e.access = .isPublic op) :
    op.caller = none ∧ op.removal = false := by
  cases e <;> cases h <;> exact ⟨rfl, rfl⟩

theorem guarded_caller {e : Endpoint} {wanted : TokenType} {roles : List Role} {handle : Id → Op}
    (h : e.access = .guarded wanted roles handle) (u : Id) :
    ((handle u).caller = some u ∧ (handle u).removal = false) ∨
      ((handle u).caller = none ∧ roles = [.admin]) := by
  cases e <;> cases h <;> first
    | exact Or.inl ⟨rfl, rfl⟩
    | exact Or.inr ⟨rfl, rfl⟩

theorem admin_only {user : JwtValidationResult}
    (h : RolesGuard.canActivate [.admin] user = .ok ()) : user.role = "ADMIN" := by
  unfold RolesGuard.canActivate at h
  rw [if_neg (by decide)] at h
  split at h
  · cases h
  split at h
  · cases h
  · rename_i known
    simpa [Role.word] using known

theorem Role.word_admin {role : Role} (h : role.word = "ADMIN") : role = .admin := by
  cases role <;> first
    | rfl
    | exact absurd h (by decide)

/-! What hands out tokens. -/

/-- An operation may hand out tokens of an account after it has read its row. -/
inductive Vouched : Op → Answer Call Call.Reply → Id → User → Date → Prop where
  | login {dto compare now id user} (matched : compare dto.password user.password = true) :
      Vouched (.usersLogin dto compare now) ⟨.userFindByEmail dto.email, .ok (some (id, user))⟩
        id user now
  | refresh {id now user} :
      Vouched (.usersRefreshAccessToken id now) ⟨.userFindById id, .ok (some user)⟩ id user now

def tokenEnds (op : Op) (log : Log) : Except ApiError Response → Prop
  | .ok answer => answer.issues = [] ∨ ∃ a ∈ log, ∃ id user now, Vouched op a id user now ∧
      user.isActive = true ∧
      let tokens := UsersService.generateTokens id user.email user.role.word now
      answer.issues = [tokens.accessToken, tokens.refreshToken]
  | .error _ => True

theorem token_ends (op : Op) : Request.Obeys (fun _ _ => True) (tokenEnds op) [] op.program := by
  cases op with
  | usersLogin dto compare now =>
    rw [Op.program, Request.map_eq]
    apply Request.obeys_bind
    apply obeys_await trivial _ fun _ => trivial
    intro found
    rcases found with _ | ⟨id, user⟩
    · trivial
    dsimp only
    split
    · trivial
    rename_i active
    split
    · trivial
    rename_i matched
    apply obeys_await trivial _ fun _ => trivial
    intro row
    refine Or.inr ⟨_, List.mem_cons_of_mem _ List.mem_cons_self, id, user, now, .login ?_, ?_, rfl⟩
    · simpa using matched
    · simpa using active
  | usersRefreshAccessToken userId now =>
    rw [Op.program, Request.map_eq]
    apply Request.obeys_bind
    apply obeys_await trivial _ fun _ => trivial
    intro found
    rcases found with _ | user
    · trivial
    dsimp only
    split
    · trivial
    rename_i active
    exact Or.inr ⟨_, List.mem_cons_self, userId, user, now, .refresh, by simpa using active, rfl⟩
  | _ => exact Request.obeys_map (fun _ _ => Or.inl rfl) fun _ _ => trivial

/-- What was read of an account it still has, and a login finds it by its email. -/
def Known (s : Db) (a : Answer Call Call.Reply) : Prop :=
  ∀ op id user now, Vouched op a id user now →
    (∃ row, s.users.find? id = some row ∧ AccountKept user row) ∧
      ∀ dto compare clock, op = .usersLogin dto compare clock → user.email = dto.email

theorem Known.after {s : Db} {a : Answer Call Call.Reply} (h : Known s a) (c : Call) :
    Known (exec c s).1 a := by
  intro op id user now vouched
  obtain ⟨⟨row, found, kept⟩, email⟩ := h op id user now vouched
  obtain ⟨row', still, more⟩ := account_after c s found
  exact ⟨⟨row', still, kept.trans more⟩, email⟩

/-- The row as it is stored when it is read. -/
theorem vouched_read {c : Call} {s : Db} {op : Op} {id : Id} {user : User} {now : Date}
    (vouched : Vouched op ⟨c, (exec c s).2⟩ id user now) : s.users.find? id = some user ∧
      ∀ dto compare clock, op = .usersLogin dto compare clock → user.email = dto.email := by
  generalize replied : (exec c s).2 = reply at vouched
  cases vouched with
  | @login dto compare now id user matched =>
    change Except.ok (s.users.findBy fun u => u.email = dto.email) = _ at replied
    have found := Except.ok.inj replied
    have email : user.email = dto.email := of_decide_eq_true (List.find?_some found :)
    refine ⟨s.users.mem_rows.mp (List.mem_of_find?_eq_some found), fun dto' compare' clock same => ?_⟩
    cases same
    exact email
  | refresh => exact ⟨Except.ok.inj replied, fun _ _ _ same => by cases same⟩

theorem known_answer (c : Call) (s : Db) : Known (exec c s).1 ⟨c, (exec c s).2⟩ := by
  intro op id user now vouched
  obtain ⟨found, email⟩ := vouched_read vouched
  exact ⟨account_after c s found, email⟩

section
variable {db : Db} {p : Requests} {u : Id}

/-- The account that the tokens of a request are of. -/
theorem issued_by (obedient : Service.Obedient (fun _ _ _ => True) tokenEnds p) {t : Running}
    (member : t ∈ p.threads) {token : JwtPayload} (held : token ∈ tokensOf t) :
    ∃ a ∈ t.log, ∃ id user now, Vouched t.op a id user now ∧ user.isActive = true ∧
      let tokens := UsersService.generateTokens id user.email user.role.word now
      token = tokens.accessToken ∨ token = tokens.refreshToken := by
  have obeys := obedient t member
  unfold tokensOf at held
  cases rest : t.rest with
  | done answer =>
    rw [rest] at held obeys
    change token ∈ answer.issues at held
    rcases obeys with none | ⟨a, seen, id, user, now, vouched, active, pair⟩
    · rw [none] at held
      cases held
    · rw [pair] at held
      exact ⟨a, seen, id, user, now, vouched, active, by simpa using held⟩
  | fail e =>
    rw [rest] at held
    cases held
  | call c next =>
    rw [rest] at held
    cases held

/-- A login with the email and a matching password of the account was answered with its tokens. -/
def LoggedIn (p : Requests) (u : Id) : Prop :=
  ∃ t ∈ p.threads, ∃ dto compare now row, t.op = .usersLogin dto compare now ∧
    (∃ token ∈ tokensOf t, token.sub = u) ∧ p.store.users.find? u = some row ∧
    dto.email = row.email ∧ compare dto.password row.password = true

theorem tokensOf_ended {t : Running} {token : JwtPayload} (held : token ∈ tokensOf t) :
    t.rest.pending = none := by
  unfold tokensOf at held
  cases rest : t.rest with
  | call c next =>
    rw [rest] at held
    cases held
  | _ => rfl

theorem LoggedIn.step (h : LoggedIn p u) (turn : Turn Op) : LoggedIn (service.step p turn) u := by
  obtain ⟨t, member, dto, compare, now, row, login, ⟨token, held, sub⟩, found, email, matched⟩ := h
  have still : ∃ row', (service.step p turn).store.users.find? u = some row' ∧
      AccountKept row row' := by
    apply service.store_step (I := fun s => ∃ row', s.users.find? u = some row' ∧
      AccountKept row row') ⟨row, found, .refl row⟩ turn
    exact fun _ _ c _ _ _ _ => account_after c p.store found
  obtain ⟨row', found', kept⟩ := still
  refine ⟨t, service.ended_stays member (tokensOf_ended held) turn, dto, compare, now, row', login,
    ⟨token, held, sub⟩, found', ?_, ?_⟩
  · rw [kept.email, email]
  · rw [kept.password, matched]

/-- What every run keeps of requests and of the accounts they are carried out for. -/
structure SiteRight (db : Db) (p : Requests) : Prop where
  obedient : Service.Obedient (fun _ _ _ => True) tokenEnds p
  known : Service.Logged Known p
  callers : ∀ t ∈ p.threads, ∀ u, t.op.caller = some u → LoggedIn p u
  roles : ∀ u row, p.store.users.find? u = some row → row.role = .admin →
    ∃ row₀, db.users.find? u = some row₀ ∧ row₀.role = .admin

/-- A token names an account as it is stored, one that somebody has logged in to. -/
theorem SiteRight.holder (h : SiteRight db p) {token : JwtPayload} (held : token ∈ handedOut p) :
    ∃ row, p.store.users.find? token.sub = some row ∧ token.email = row.email ∧
      token.role = row.role.word ∧ LoggedIn p token.sub := by
  obtain ⟨t, member, held⟩ := List.mem_flatMap.mp held
  obtain ⟨a, seen, id, user, now, vouched, -, made⟩ := issued_by h.obedient member held
  obtain ⟨⟨row, found, kept⟩, looked⟩ := h.known t member a seen _ _ _ _ vouched
  have fields : token.sub = id ∧ token.email = user.email ∧ token.role = user.role.word := by
    rcases made with rfl | rfl <;> exact ⟨rfl, rfl, rfl⟩
  obtain ⟨rfl, email, role⟩ := fields
  refine ⟨row, found, email.trans kept.email.symm, by rw [role, kept.role], ?_⟩
  generalize asked : t.op = op at vouched looked
  cases vouched with
  | @login dto compare now id user matched =>
    refine ⟨t, member, dto, compare, now, row, asked, ⟨token, held, rfl⟩, found, ?_, ?_⟩
    · rw [kept.email, looked dto compare now rfl]
    · rw [kept.password, matched]
  | refresh => exact h.callers t member token.sub (by rw [asked]; rfl)

/-- No account gets to be an administrator's. -/
theorem admin_before {c : Call} {s : Db} {row : User}
    (found : (exec c s).1.users.find? u = some row) (admin : row.role = .admin) :
    ∃ row₀, s.users.find? u = some row₀ ∧ row₀.role = .admin := by
  cases before : s.users.find? u with
  | some row₀ =>
    obtain ⟨row', still, kept⟩ := account_after c s before
    cases found.symm.trans still
    exact ⟨row₀, rfl, kept.role.symm.trans admin⟩
  | none =>
    exfalso
    have effect := call_effect c s
    change (exec c s).1.toTables.users.find? u = _ at found
    generalize replied : (exec c s).2 = reply at effect
    generalize (exec c s).1.toTables = after at effect found
    cases effect with
    | @userMade id now data new fresh =>
      rcases Table.find?_insert_cases found with there | ⟨rfl, rfl⟩
      · cases before.symm.trans there
      · obtain ⟨rfl, -⟩ := account_made replied
        cases admin
    | userSet old new there made =>
      rcases Table.find?_set_cases found with there' | ⟨rfl, rfl⟩
      · cases before.symm.trans there'
      · cases before.symm.trans there
    | userWithdrawn user there =>
      rcases Table.find?_set_cases found with there' | ⟨rfl, rfl⟩
      · cases before.symm.trans there'
      · cases before.symm.trans there
    | _ => cases before.symm.trans found

theorem siteRight_turn (h : SiteRight db p) (turn : Turn Op)
    (callers : ∀ op, turn = .arrive op → ∀ u, op.caller = some u → LoggedIn p u) :
    SiteRight db (service.step p turn) := by
  constructor
  · apply service.obedient_step (fun op (_ : True) => token_ends op) p turn h.obedient
    exact fun _ _ => trivial
  · apply service.logged_step h.known turn
    intro i t c next _ _ _
    exact ⟨known_answer c p.store, fun u _ a _ before => before.after c⟩
  · intro t member u asks
    rcases service.thread_came t member with ⟨t', member', same⟩ | arrived
    · exact (h.callers t' member' u (same ▸ asks)).step turn
    · exact (callers t.op arrived u asks).step turn
  · apply service.store_step (I := fun s => ∀ u row, s.users.find? u = some row →
      row.role = .admin → ∃ row₀, db.users.find? u = some row₀ ∧ row₀.role = .admin) h.roles turn
    intro i t c next _ _ _ u row found admin
    obtain ⟨row', before, admin'⟩ := admin_before found admin
    exact h.roles u row' before admin'

/-- A visit that passes the guards has shown a token of an account that somebody has logged in to,
and is carried out for that account; to delete an order, it must be one of the first
administrators'. -/
structure Authentic (db : Db) (p : Requests) (v : Visit) (op : Op) (token : JwtPayload) : Prop where
  shown : v.token = some token
  held : token ∈ handedOut p
  loggedIn : LoggedIn p token.sub
  caller : ∀ u, op.caller = some u → u = token.sub
  removal : op.removal = true → ∃ row, db.users.find? token.sub = some row ∧ row.role = .admin

theorem SiteRight.visit (h : SiteRight db p) {v : Visit} {op : Op}
    (passed : Session.operation ⟨p.store, handedOut p⟩ v = .ok op) :
    (v.endpoint.access = .isPublic op ∧ op.caller = none ∧ op.removal = false) ∨
      ∃ token, Authentic db p v op token := by
  rcases operation_cases passed with open' | ⟨wanted, roles, handle, user, guarded, shown, role, rfl⟩
  · exact Or.inl ⟨open', public_caller open'⟩
  · obtain ⟨token, held, same, -, -, rfl⟩ := authenticate_ok shown
    obtain ⟨row, found, -, word, loggedIn⟩ := h.holder held
    refine Or.inr ⟨token, same, held, loggedIn, fun u asks => ?_, fun removes => ?_⟩
    · rcases guarded_caller guarded token.sub with ⟨caller, -⟩ | ⟨nobody, -⟩
      · cases caller.symm.trans asks
        rfl
      · cases nobody.symm.trans asks
    · rcases guarded_caller guarded token.sub with ⟨-, keeps⟩ | ⟨-, rfl⟩
      · cases keeps.symm.trans removes
      · have admin : token.role = "ADMIN" := admin_only role
        exact h.roles token.sub row found (Role.word_admin (word.symm.trans admin))

theorem siteRight_step (h : SiteRight db p) (turn : SiteTurn) : SiteRight db (site p turn) := by
  apply site_keeps h
  · exact fun i => siteRight_turn h (.call i) fun _ none => by cases none
  · intro v op passed
    apply siteRight_turn h (.arrive op)
    intro op' same u asks
    cases same
    rcases h.visit passed with ⟨-, nobody, -⟩ | ⟨token, authentic⟩
    · cases nobody.symm.trans asks
    · exact authentic.caller u asks ▸ authentic.loggedIn

theorem siteRight_idle (db : Db) : SiteRight db db.idle where
  obedient _ none := by cases none
  known _ none := by cases none
  callers _ none := by cases none
  roles _ row found admin := ⟨row, found, admin⟩

theorem siteRight_run (db : Db) (turns : List SiteTurn) : SiteRight db (run site db.idle turns) :=
  run_keeps (I := SiteRight db) (fun _ turn h => siteRight_step h turn) (siteRight_idle db) turns

/-! Only a request to delete an order makes the call that does. -/

theorem removal_makes (op : Op) :
    Request.Makes (fun c => ∀ o, c = .orderDelete o → op.removal = true) op.program := by
  have reads (c : Call) (reads : c.reads = true) : ∀ o, c = .orderDelete o → op.removal = true := by
    rintro o rfl
    cases reads
  cases op with
  | ordersRemove id => exact Request.makes_map (remove_makes reads fun _ _ => rfl) _
  | ordersCreate buyerId dto new =>
    refine Request.makes_map (create_makes reads (fun _ _ _ => ?_) ?_) _ <;> rintro o ⟨⟩
  | ordersFindOne id userId => exact Request.makes_map (findOne_makes reads id userId) _
  | ordersUpdate id userId dto =>
    refine Request.makes_map (update_makes reads userId dto ?_) _
    rintro o ⟨⟩
  | ordersCancel id userId now =>
    refine Request.makes_map
      (close_makes reads OrdersService.cancelling userId ?_ fun _ => ?_) _ <;> rintro o ⟨⟩
  | ordersConfirm id userId now soldAt =>
    refine Request.makes_map
      (close_makes reads (OrdersService.confirming soldAt) userId ?_ fun _ => ?_) _ <;> rintro o ⟨⟩
  | productsUpdate id userId dto =>
    refine Request.makes_map (edit_makes reads userId dto fun _ => ?_) _
    rintro o ⟨⟩
  | productsRemove id userId =>
    refine Request.makes_map (productsRemove_makes reads fun _ => ?_) _
    rintro o ⟨⟩
  | usersCreate dto id now hashed =>
    refine Request.makes_map (usersCreate_makes reads fun _ => ?_) _
    rintro o ⟨⟩
  | usersLogin dto compare now =>
    refine Request.makes_map (usersLogin_makes reads fun _ _ => ?_) _
    rintro o ⟨⟩
  | usersUpdate id dto =>
    refine Request.makes_map (usersUpdate_makes reads fun _ => ?_) _
    rintro o ⟨⟩
  | usersRemove id =>
    refine Request.makes_map (usersRemove_makes reads ?_) _
    rintro o ⟨⟩
  | productsCreate sellerId dto id now =>
    rw [Op.program, ProductsService.create]
    split
    · trivial
    · refine Request.makes_map (makes_last ?_) _
      rintro o ⟨⟩
  | productsFindById id =>
    refine Request.makes_map (makes_await (reads _ rfl) fun found => ?_) _
    cases found with
    | none => trivial
    | some product =>
      refine Request.makes_bind (Request.makes_tryCatch (makes_await ?_ fun _ => trivial)
        fun _ => trivial) fun _ => trivial
      rintro o ⟨⟩
  | usersFindOne id =>
    refine Request.makes_map (makes_await (reads _ rfl) fun found => ?_) _
    cases found <;> trivial
  | usersRefreshAccessToken userId now =>
    refine Request.makes_map (makes_await (reads _ rfl) fun found => ?_) _
    cases found with
    | none => trivial
    | some user =>
      dsimp only
      split <;> trivial

/-- Every request still to come makes only the calls of its operation. -/
def Withholding (p : Requests) : Prop :=
  Service.Obedient (fun op _ c => ∀ o, c = .orderDelete o → op.removal = true) (fun _ _ _ => True) p

theorem withholding_step {p : Requests} (h : Withholding p) (turn : SiteTurn) :
    Withholding (site p turn) := by
  have turned (turn : Turn Op) : Withholding (service.step p turn) :=
    service.obedient_step (fun op (_ : True) => (removal_makes op).obeys []) p turn h
      fun _ _ => trivial
  exact site_keeps h (fun _ => turned _) (fun _ _ _ => turned _) turn

/-- An order goes only with a call of a request to delete one. -/
theorem Withholding.deleted {p : Requests} (h : Withholding p) {turn : SiteTurn} {o : Id}
    (there : p.store.orders.has o = true) (gone : (site p turn).store.orders.has o = false) :
    ∃ i t, turn = .call i ∧ p.threads[i]? = some t ∧ t.op.removal = true := by
  have unchanged (same : (site p turn).store = p.store) :
      ∃ i t, turn = .call i ∧ p.threads[i]? = some t ∧ t.op.removal = true := by
    rw [same, there] at gone
    cases gone
  cases turn with
  | visit v =>
    apply unchanged
    rw [site]
    split <;> rfl
  | call i =>
    rcases service.step_cases p (.call i) with hs | ⟨op, none, _⟩ | ⟨j, t, c, next, same, ht, hr, hs⟩
    · exact unchanged (congrArg Pool.store hs)
    · cases none
    · cases same
      refine ⟨i, t, rfl, ht, ?_⟩
      by_contra stays
      obtain ⟨row, found⟩ := Table.has_iff.mp there
      have other : c ≠ .orderDelete o :=
        fun deletes => stays (Service.obedient_pending h ht hr o deletes)
      obtain ⟨new, kept, _⟩ := (call_effect c p.store).order_kept other found
      have after : (service.step p (.call i)).store.orders.has o = false := gone
      rw [hs] at after
      have still : (exec c p.store).1.orders.has o = true := Table.has_iff.mpr ⟨new, kept⟩
      cases after.symm.trans still

end

/-- In any order of visits and of calls, a token names an account with the email and the role that
are stored, one that somebody has logged in to with its email and a matching password; a visit is
carried out for nobody, or for the account whose token it shows; and an order is deleted only by a
request of one of the first administrators: nobody becomes one. -/
theorem requests_authentic (db : Db) (turns : List SiteTurn) :
    let p := run site db.idle turns
    (∀ token ∈ handedOut p, ∃ row, p.store.users.find? token.sub = some row ∧
      token.email = row.email ∧ token.role = row.role.word ∧ LoggedIn p token.sub) ∧
    Along site (fun q turn => ∀ v op, turn = .visit v →
      Session.operation ⟨q.store, handedOut q⟩ v = .ok op →
      (v.endpoint.access = .isPublic op ∧ op.caller = none ∧ op.removal = false) ∨
        ∃ token, Authentic db q v op token) db.idle turns ∧
    Along site (fun q turn => ∀ o, q.store.orders.has o = true →
      (site q turn).store.orders.has o = false →
      ∃ i t, turn = .call i ∧ q.threads[i]? = some t ∧ t.op.removal = true) db.idle turns := by
  have always : Along site (fun _ _ => True) db.idle turns := along_of_forall fun _ _ => trivial
  refine ⟨fun token held => (siteRight_run db turns).holder held, ?_, ?_⟩
  · apply along_of_invariant (I := SiteRight db) (fun q turn h _ => siteRight_step h turn) _
      (siteRight_idle db) always
    exact fun q turn h _ v op _ passed => h.visit passed
  · apply along_of_invariant (I := Withholding) (fun q turn h _ => withholding_step h turn) _
      (fun _ none => by cases none) always
    exact fun q turn h _ o there gone => h.deleted there gone

/-! Withdrawn accounts. -/

/- The clock that a request puts into its tokens. -/
def Op.clock : Op → Option Date
  | .usersLogin _ _ now | .usersRefreshAccessToken _ now => some now
  | _ => none

/-- The account is closed. Of its requests the first `n` may have read it before and drew their
clocks by `T`; no later one has found it active. -/
structure Closed (u : Id) (T : Date) (n : Nat) (q : Requests) : Prop where
  inactive : Inactive q.store.toTables u
  obedient : Service.Obedient (fun _ _ _ => True) tokenEnds q
  early : ∀ i t, q.threads[i]? = some t → i < n → ∀ now, t.op.clock = some now → now ≤ T
  late : ∀ i t, q.threads[i]? = some t → n ≤ i → ∀ a ∈ t.log, ∀ user now,
    Vouched t.op a u user now → user.isActive = false
  room : n ≤ q.threads.length

section
variable {u : Id} {T : Date} {n : Nat} {q : Requests}

theorem inactive_call {db : Db} (h : Inactive db.toTables u) (c : Call) :
    Inactive (exec c db).1.toTables u := by
  obtain ⟨row, found, off⟩ := Option.map_eq_some_iff.mp h
  obtain ⟨row', still, kept⟩ := account_after c db found
  apply Option.map_eq_some_iff.mpr
  refine ⟨row', still, Bool.eq_false_iff.mpr fun on => ?_⟩
  cases off.symm.trans (kept.closed on)

/-- What is read of a closed account shows that it is closed. -/
theorem reads_inactive {db : Db} (h : Inactive db.toTables u) {c : Call} {op : Op} {user : User}
    {now : Date} (vouched : Vouched op ⟨c, (exec c db).2⟩ u user now) : user.isActive = false := by
  obtain ⟨row, found, off⟩ := Option.map_eq_some_iff.mp h
  cases found.symm.trans (vouched_read vouched).1
  exact off

theorem Closed.turn (h : Closed u T n q) (turn : Turn Op) : Closed u T n (service.step q turn) := by
  have threads := service.threads_step_at
    (P := fun _ i t => (i < n → ∀ now, t.op.clock = some now → now ≤ T) ∧
      (n ≤ i → ∀ a ∈ t.log, ∀ user now, Vouched t.op a u user now → user.isActive = false))
    (fun j t at' => ⟨h.early j t at', h.late j t at'⟩) turn
    (fun op _ => ⟨fun inside => absurd h.room (Nat.not_le_of_lt inside), fun _ a none => by cases none⟩)
    (fun i t c next _ ht _ => ⟨fun j t' at' => ⟨h.early j t' at', h.late j t' at'⟩,
      h.early i t ht, fun outside a seen user now vouched => by
        rcases List.mem_cons.mp seen with rfl | old
        · exact reads_inactive h.inactive vouched
        · exact h.late i t ht outside a old user now vouched⟩)
  constructor
  · apply service.store_step (I := fun s => Inactive s.toTables u) h.inactive turn
    exact fun _ _ c _ _ _ _ => inactive_call h.inactive c
  · apply service.obedient_step (fun op (_ : True) => token_ends op) q turn h.obedient
    exact fun _ _ => trivial
  · exact fun i t at' => (threads i t at').1
  · exact fun i t at' => (threads i t at').2
  · apply h.room.trans
    rcases service.step_cases q turn with hs | ⟨op, _, hs⟩ | ⟨i, t, c, next, _, _, _, hs⟩
    · rw [hs]
    · rw [hs, List.length_append]
      exact Nat.le_add_right _ _
    · rw [hs, List.length_set]

theorem Closed.step (h : Closed u T n q) (turn : SiteTurn) : Closed u T n (site q turn) :=
  site_keeps h (fun _ => h.turn _) (fun _ _ _ => h.turn _) turn

/-- No request that came after the withdrawal is answered with tokens of the account. -/
theorem Closed.late_tokens (h : Closed u T n q) {i : Nat} {t : Running}
    (ht : q.threads[i]? = some t) (outside : n ≤ i) {token : JwtPayload} (held : token ∈ tokensOf t) :
    token.sub ≠ u := by
  rintro rfl
  obtain ⟨a, seen, id, user, now, vouched, active, made⟩ :=
    issued_by h.obedient (List.mem_of_getElem? ht) held
  have same : token.sub = id := by rcases made with rfl | rfl <;> rfl
  subst same
  cases active.symm.trans (h.late i t ht outside a seen user now vouched)

/-- The access tokens of the account that are still accepted were drawn by `T`. -/
theorem Closed.access (h : Closed u T n q) {now : Date} {token : Option JwtPayload}
    {user : JwtValidationResult} (shown : authenticate (handedOut q) now .access token = .ok user)
    (own : user.userId = u) : now / 1000 < T / 1000 + UsersService.accessLifetime := by
  obtain ⟨payload, held, -, current, type, rfl⟩ := authenticate_ok shown
  obtain ⟨t, member, held⟩ := List.mem_flatMap.mp held
  obtain ⟨i, ht⟩ := List.mem_iff_getElem?.mp member
  have inside : i < n := by
    by_contra outside
    exact h.late_tokens ht (Nat.le_of_not_lt outside) held own
  obtain ⟨a, seen, id, user, clock, vouched, -, made⟩ := issued_by h.obedient member held
  have drawn : clock ≤ T := by
    apply h.early i t ht inside clock
    generalize t.op = op at vouched
    cases vouched <;> rfl
  rcases made with rfl | rfl
  · simp only [UsersService.generateTokens, JwtPayload.expired, decide_eq_false_iff_not] at current
    have seconds : clock / 1000 ≤ T / 1000 := Nat.div_le_div_right drawn
    exact Nat.lt_of_lt_of_le (Nat.not_le.mp current) (Nat.add_le_add_right seconds _)
  · rcases type with none | other
    · cases none
    · cases other

end

/-- The guards let the visit in with a token of the account. -/
def Enters (q : Requests) (v : Visit) (u : Id) : Prop :=
  (∃ op, Session.operation ⟨q.store, handedOut q⟩ v = .ok op) ∧
    (∀ op, v.endpoint.access ≠ .isPublic op) ∧ ∃ token, v.token = some token ∧ token.sub = u

/-- The tokens of the account that are still accepted were drawn by `T`, or are shown for new ones. -/
theorem Closed.enters {u : Id} {T : Date} {n : Nat} {q : Requests} (h : Closed u T n q) {v : Visit}
    (enters : Enters q v u) :
    v.now / 1000 < T / 1000 + UsersService.accessLifetime ∨ ∃ now, v.endpoint = .usersRefresh now := by
  obtain ⟨⟨op, passed⟩, guarded, token, shown, own⟩ := enters
  rcases operation_cases passed with open' | ⟨wanted, roles, handle, user, access, accepted, _, _⟩
  · exact absurd open' (guarded op)
  · obtain ⟨payload, _, same, _, _, rfl⟩ := authenticate_ok accepted
    cases shown.symm.trans same
    cases wanted with
    | access => exact Or.inl (h.access accepted own)
    | refresh =>
      right
      generalize v.endpoint = e at access
      cases e <;> cases access
      exact ⟨_, rfl⟩

/-- In any order of visits and of calls, a withdrawn account stays closed and no request that comes
after the withdrawal is answered with tokens of it. Once a quarter of an hour has gone by since
the requests before it drew their clocks, no visit is let in for it but to ask for new tokens, and
so is answered with none. -/
theorem withdrawn_locked_out (db : Db) (before after : List SiteTurn) (u : Id) (T : Date)
    (off : Inactive (run site db.idle before).store.toTables u)
    (clocks : ∀ t ∈ (run site db.idle before).threads, ∀ now, t.op.clock = some now → now ≤ T) :
    let p := run site db.idle before
    (∀ q ∈ visited site p after, Inactive q.store.toTables u ∧ ∀ i t, q.threads[i]? = some t →
      p.threads.length ≤ i → ∀ token ∈ tokensOf t, token.sub ≠ u) ∧
    Along site (fun q turn => ∀ v, turn = .visit v → Enters q v u →
      v.now / 1000 < T / 1000 + UsersService.accessLifetime ∨
        ∃ now, v.endpoint = .usersRefresh now) p after := by
  intro p
  have closed : Closed u T p.threads.length p := by
    constructor
    · exact off
    · exact (siteRight_run db before).obedient
    · exact fun i t ht _ => clocks t (List.mem_of_getElem? ht)
    · intro i t ht outside
      exact absurd (List.getElem?_eq_some_iff.mp ht).1 (Nat.not_lt_of_le outside)
    · exact Nat.le_refl _
  have always : Along site (fun _ _ => True) p after := along_of_forall fun _ _ => trivial
  have keeps (q : Requests) (turn : SiteTurn) (h : Closed u T p.threads.length q) (_ : True) :
      Closed u T p.threads.length (site q turn) := h.step turn
  constructor
  · intro q member
    have here := visited_invariant keeps closed always q member
    exact ⟨here.inactive, fun i t ht outside token held => here.late_tokens ht outside held⟩
  · apply along_of_invariant keeps _ closed always
    exact fun q turn h _ v _ enters => h.enters enters

/-- Bob logs in and withdraws. -/
def inAndOut : List SiteTurn := [.visit bobLogin, .call 0, .call 0,
  .visit (bobVisit .usersWithdraw 2), .call 1, .call 1, .call 1]

/-- With the tokens he still has, bob asks for new ones and for his profile. -/
def backAgain : List SiteTurn :=
  [.visit { endpoint := .usersRefresh 3
            token := some (UsersService.generateTokens "bob" "bob@market" "USER" 0).refreshToken
            now := 3 }, .call 2, .visit (bobVisit .usersGetProfile 900000)]

/-- He is answered neither: his account stays closed, and no token of it is given out. -/
theorem withdrawn_locked_out_bob :
    Inactive (run site (run site market.idle inAndOut) backAgain).store.toTables "bob" ∧
    ∀ q ∈ visited site (run site market.idle inAndOut) backAgain,
      ∀ t, q.threads[2]? = some t → ∀ token ∈ tokensOf t, token.sub ≠ "bob" := by
  have off : Inactive (run site market.idle inAndOut).store.toTables "bob" := by
    unfold Inactive
    decide +kernel
  have clocks : ∀ t ∈ (run site market.idle inAndOut).threads, ∀ now,
      t.op.clock = some now → now ≤ 0 := by
    have all : (run site market.idle inAndOut).threads.all
        (fun t => t.op.clock.all fun now => decide (now ≤ 0)) = true := by decide +kernel
    intro t member now drawn
    have here := List.all_eq_true.mp all t member
    rw [drawn] at here
    exact of_decide_eq_true here
  have out := (withdrawn_locked_out market inAndOut backAgain "bob" 0 off clocks).1
  refine ⟨(out _ (run_mem_visited _ _ _)).1, fun q member t ht => ?_⟩
  exact (out q member).2 2 t ht (by decide +kernel)

end SecondhandApi
