import SecondhandApi.Interleaving.Runs
import SecondhandApi.Prisma

/-! `src/modules/notifications`: the service, whose operations are one query each, and when its
two marks of a read notification agree. -/
namespace SecondhandApi
open Keyed Interleaving

inductive NotificationType where
  | productLiked | newMessage | orderCreated | orderConfirmed | orderCancelled
  | paymentCompleted | reviewReceived | system
  deriving DecidableEq, Repr

structure Notification where
  userId : Id
  type : NotificationType
  title : String
  message : String
  relatedId : Option String := none
  relatedType : Option String := none
  isRead : Bool := false
  readAt : Option Date := none
  createdAt : Date
  deriving DecidableEq

structure NotificationCreateInput where
  userId : Id
  type : NotificationType
  title : String
  message : String
  relatedId : Field String := .undefined
  relatedType : Field String := .undefined

def NotificationCreateInput.row (data : NotificationCreateInput) (now : Date) : Notification :=
  { userId := data.userId
    type := data.type
    title := data.title
    message := data.message
    relatedId := data.relatedId.orNull
    relatedType := data.relatedType.orNull
    createdAt := now }

/-- The notifications beside the users they refer to. -/
structure NotificationTables where
  users : Table Id User
  notifications : Table Id Notification

namespace NotificationTables

/-- `updateMany` answers how many rows it has changed. -/
def updateMany (t : NotificationTables) (filter : Id → Notification → Bool)
    (data : Notification → Notification) : NotificationTables × Nat :=
  ({ t with notifications := t.notifications.modifyAll fun id n =>
      if filter id n then data n else n },
    t.notifications.rows.countP fun row => filter row.1 row.2)

def count (t : NotificationTables) (filter : Notification → Bool) : Nat :=
  t.notifications.rows.countP fun row => filter row.2

end NotificationTables

namespace NotificationsRepository

/-- The id is drawn by the database, which refuses a notification for nobody. -/
def create (t : NotificationTables) (id : Id) (now : Date) (data : NotificationCreateInput) :
    NotificationTables × Except PrismaError (Id × Notification) :=
  if t.notifications.has id then (t, .error .uniqueViolation)
  else if t.users.has data.userId then
    ({ t with notifications := t.notifications.insert id (data.row now) },
      .ok (id, data.row now))
  else (t, .error .restricted)

def markAsRead (t : NotificationTables) (id userId : Id) : NotificationTables × Nat :=
  t.updateMany (fun k n => k = id && n.userId = userId) fun n => { n with isRead := true }

def markAllAsRead (t : NotificationTables) (userId : Id) (now : Date) : NotificationTables × Nat :=
  t.updateMany (fun _ n => n.userId = userId && !n.isRead)
    fun n => { n with isRead := true, readAt := some now }

def delete (t : NotificationTables) (id userId : Id) :
    NotificationTables × Except PrismaError Notification :=
  match (t.notifications.find? id).filter fun n => n.userId = userId with
  | some n => ({ t with notifications := t.notifications.erase id }, .ok n)
  | none => (t, .error .recordNotFound)

def getUnreadCount (t : NotificationTables) (userId : Id) : Nat :=
  t.count fun n => n.userId = userId && !n.isRead

end NotificationsRepository

/-! The service hands its operations on to the repository. -/

namespace NotificationsService

def create := NotificationsRepository.create
def markAsRead := NotificationsRepository.markAsRead
def markAllAsRead := NotificationsRepository.markAllAsRead
def delete := NotificationsRepository.delete
def getUnreadCount := NotificationsRepository.getUnreadCount

end NotificationsService

inductive NotificationOp where
  | create (id : Id) (now : Date) (data : NotificationCreateInput)
  | markAsRead (id userId : Id)
  | markAllAsRead (userId : Id) (now : Date)
  | delete (id userId : Id)

namespace NotificationOp

def step (t : NotificationTables) : NotificationOp → NotificationTables
  | create id now data => (NotificationsService.create t id now data).1
  | markAsRead id userId => (NotificationsService.markAsRead t id userId).1
  | markAllAsRead userId now => (NotificationsService.markAllAsRead t userId now).1
  | delete id userId => (NotificationsService.delete t id userId).1

/-- The user whose notifications the operation is about; a new one is about no old one. -/
def user : NotificationOp → Option Id
  | create .. => none
  | markAsRead _ userId => some userId
  | markAllAsRead userId _ => some userId
  | delete _ userId => some userId

end NotificationOp

/-- Both columns say of every notification the same, and so does the unread count. -/
def ReadMarksAgree (t : NotificationTables) : Prop :=
  (∀ id n, t.notifications.find? id = some n → (n.isRead = true ↔ n.readAt ≠ none)) ∧
    ∀ userId, NotificationsService.getUnreadCount t userId =
      t.count fun n => n.userId = userId && n.readAt = none

/-- The notifications of everybody else are as they were. -/
def LeavesOthers (t : NotificationTables) (op : NotificationOp) : Prop :=
  ∀ id n, t.notifications.find? id = some n → op.user ≠ some n.userId →
    (op.step t).notifications.find? id = some n

/-- `markAsRead` is not called on an unread notification of its user. -/
def MarksNoUnread (t : NotificationTables) : NotificationOp → Prop
  | .markAsRead id userId => ∀ n, t.notifications.find? id = some n → n.userId = userId →
      n.isRead = true
  | _ => True

section
variable {t : NotificationTables} {op : NotificationOp}

/-- The count is right as soon as the columns are. -/
theorem readMarksAgree_iff : ReadMarksAgree t ↔
    ∀ id n, t.notifications.find? id = some n → (n.isRead = true ↔ n.readAt ≠ none) := by
  refine and_iff_left_of_imp (fun marks userId => List.countP_congr ?_)
  rintro ⟨id, n⟩ member
  have agree := marks id n (t.notifications.mem_rows.mp member)
  cases read : n.isRead <;> cases at_ : n.readAt <;> simp_all

theorem find?_updateMany {filter : Id → Notification → Bool} {data : Notification → Notification}
    (id : Id) : (t.updateMany filter data).1.notifications.find? id =
      (t.notifications.find? id).map fun n => if filter id n then data n else n :=
  Table.find?_modifyAll ..

/-- Every notification after a step, with the one before it. -/
theorem step_cases {id : Id} {n : Notification}
    (there : (op.step t).notifications.find? id = some n) :
    t.notifications.find? id = some n ∨
      (n.isRead = false ∧ n.readAt = none) ∨
      (∃ now, n.isRead = true ∧ n.readAt = some now) ∨
      (∃ old, t.notifications.find? id = some old ∧ op = .markAsRead id old.userId ∧
        n = { old with isRead := true }) := by
  cases op with
  | create id' now data =>
    simp only [NotificationOp.step, NotificationsService.create, NotificationsRepository.create] at there
    split at there
    · exact Or.inl there
    split at there
    · rcases Table.find?_insert_cases there with before | ⟨rfl, rfl⟩
      · exact Or.inl before
      · exact Or.inr (Or.inl ⟨rfl, rfl⟩)
    · exact Or.inl there
  | markAsRead id' userId =>
    change (t.updateMany _ _).1.notifications.find? id = some n at there
    rw [find?_updateMany] at there
    obtain ⟨old, before, rfl⟩ := Option.map_eq_some_iff.mp there
    by_cases marked : id = id' ∧ old.userId = userId
    · obtain ⟨rfl, rfl⟩ := marked
      exact Or.inr (Or.inr (Or.inr ⟨old, before, rfl, by simp⟩))
    · left
      simpa [marked] using before
  | markAllAsRead userId now =>
    change (t.updateMany _ _).1.notifications.find? id = some n at there
    rw [find?_updateMany] at there
    obtain ⟨old, before, rfl⟩ := Option.map_eq_some_iff.mp there
    by_cases marked : old.userId = userId ∧ old.isRead = false
    · exact Or.inr (Or.inr (Or.inl ⟨now, by simp [marked]⟩))
    · left
      simpa [marked] using before
  | delete id' userId =>
    simp only [NotificationOp.step, NotificationsService.delete, NotificationsRepository.delete] at there
    split at there
    · exact Or.inl (Table.find?_eraseAll_cases there).1
    · exact Or.inl there

theorem ReadMarksAgree.step (agree : ReadMarksAgree t) (spared : MarksNoUnread t op) :
    ReadMarksAgree (op.step t) := by
  rw [readMarksAgree_iff] at *
  intro id n there
  rcases step_cases there with before | ⟨unread, never⟩ | ⟨now, read, at_⟩ | ⟨old, before, rfl, rfl⟩
  · exact agree id n before
  · simp [unread, never]
  · simp [read, at_]
  · have already := spared old before rfl
    simpa [already] using agree id old before

/-- An unread notification that is marked on its own has no time at which it was read. -/
theorem not_readMarksAgree_step (agree : ReadMarksAgree t) (marks : ¬ MarksNoUnread t op) :
    ¬ ReadMarksAgree (op.step t) := by
  rw [readMarksAgree_iff] at *
  cases op with
  | markAsRead id userId =>
    simp only [MarksNoUnread, not_forall] at marks
    obtain ⟨n, found, rfl, unread⟩ := marks
    intro after
    have written : ((NotificationOp.markAsRead id n.userId).step t).notifications.find? id =
        some { n with isRead := true } := by
      change (t.updateMany _ _).1.notifications.find? id = _
      rw [find?_updateMany, found]
      simp
    have before := agree id n found
    have marked := after id _ written
    simp_all
  | _ => exact absurd trivial marks

theorem leavesOthers (t : NotificationTables) (op : NotificationOp) : LeavesOthers t op := by
  intro id n found other
  cases op with
  | create id' now data =>
    simp only [NotificationOp.step, NotificationsService.create, NotificationsRepository.create]
    split
    · exact found
    rename_i fresh
    split
    · rw [Table.find?_insert (Table.not_has_iff.mp fresh)]
      have away : id ≠ id' := by
        rintro rfl
        exact fresh (Table.has_iff.mpr ⟨n, found⟩)
      rwa [if_neg away]
    · exact found
  | markAsRead id' userId =>
    change (t.updateMany _ _).1.notifications.find? id = _
    have another : n.userId ≠ userId := fun same => other (by simp [NotificationOp.user, same])
    simp [find?_updateMany, found, another]
  | markAllAsRead userId now =>
    change (t.updateMany _ _).1.notifications.find? id = _
    have another : n.userId ≠ userId := fun same => other (by simp [NotificationOp.user, same])
    simp [find?_updateMany, found, another]
  | delete id' userId =>
    have another : n.userId ≠ userId := fun same => other (by simp [NotificationOp.user, same])
    simp only [NotificationOp.step, NotificationsService.delete, NotificationsRepository.delete]
    split
    · rename_i gone removed
      have away : id ≠ id' := by
        rintro rfl
        simp [found, Option.filter, another] at removed
      simpa [Table.find?_erase, away] using found
    · exact found

end

/-- A run that starts without notifications: the marks agree in every state of it, and nobody
touches the notifications of another user. -/
def ReadRight (users : Table Id User) (ops : List NotificationOp) : Prop :=
  (∀ t ∈ visited NotificationOp.step ⟨users, Table.empty⟩ ops, ReadMarksAgree t) ∧
    Along NotificationOp.step LeavesOthers ⟨users, Table.empty⟩ ops

theorem read_right_iff (users : Table Id User) (ops : List NotificationOp) :
    ReadRight users ops ↔ Along NotificationOp.step MarksNoUnread ⟨users, Table.empty⟩ ops := by
  have start : ReadMarksAgree ⟨users, Table.empty⟩ :=
    readMarksAgree_iff.mpr fun id n none => by cases none
  have anywhere : Along NotificationOp.step (fun _ _ => True) ⟨users, Table.empty⟩ ops :=
    along_of_forall (P := fun _ => True) fun _ _ => trivial
  have alike : (∀ t ∈ visited NotificationOp.step ⟨users, Table.empty⟩ ops, ReadMarksAgree t) ↔
      Along NotificationOp.step MarksNoUnread ⟨users, Table.empty⟩ ops :=
    always_iff_along_within (fun _ _ agree _ spared => agree.step spared) (fun _ agree => agree)
      (fun _ _ agree _ marks => not_readMarksAgree_step agree marks) start anywhere
  have others : Along NotificationOp.step LeavesOthers ⟨users, Table.empty⟩ ops :=
    along_iff_at.mpr fun _ op _ _ => leavesOthers _ op
  exact (and_iff_left others).trans alike

/-- One notification, read on its own. -/
theorem read_without_time :
    ¬ ∀ (users : Table Id User) (ops : List NotificationOp), ReadRight users ops := by
  intro all
  let ann : User := { email := "ann@a.kr", nickname := "ann", createdAt := 0, password := "" }
  let hello : NotificationCreateInput :=
    { userId := "ann", type := .system, title := "hello", message := "hello" }
  let ops : List NotificationOp := [.create "n" 1 hello, .markAsRead "n" "ann"]
  have agree := (all (Table.empty.insert "ann" ann) ops).1 _ (run_mem_visited NotificationOp.step _ ops)
  let read : Notification := { hello.row 1 with isRead := true }
  have times := agree.1 "n" read (by decide)
  simp [read, NotificationCreateInput.row] at times

end SecondhandApi
