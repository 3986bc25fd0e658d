import SecondhandApi.MessagesEffects
import SecondhandApi.Operations

/-! Who is in a room of the chat. A room is made for a buyer and the seller; both may leave, and
the buyer who stays is given the same room when asking again. -/
namespace SecondhandApi
open Keyed Interleaving
open Messages (ChatRoom ChatRoomMember ChatMessage RoomRecord Tables)

/-- The two people of a room: `b`, who asked for it, and `v`, who sells the product. -/
structure Pair (db : Db) (t : Messages.Tables) (r p b v : Id) : Prop where
  seller : (db.products.find? p).map Product.sellerId = some v
  apart : b ≠ v
  members : ∀ u, t.isMember r u = true → u = b ∨ u = v
  senders : ∀ k d, t.messages.find? k = some d → d.chatRoomId = r → d.senderId = b ∨ d.senderId = v

def Paired (db : Db) (t : Messages.Tables) : Prop :=
  ∀ r room, t.chatRooms.find? r = some room →
    ∃ p b v, room.productId = some p ∧ Pair db t r p b v

/-- What is said in a room after a step was said before it, and who is in it was in it. -/
structure Narrower (before after : Messages.Tables) (r : Id) : Prop where
  members : ∀ u, after.isMember r u = true → before.isMember r u = true
  messages : ∀ k d, after.messages.find? k = some d → d.chatRoomId = r →
    ∃ d', before.messages.find? k = some d' ∧ d'.chatRoomId = r ∧ d'.senderId = d.senderId

section
variable {t t' : Messages.Tables} {r u p : Id}

theorem Narrower.refl (t : Messages.Tables) (r : Id) : Narrower t t r :=
  ⟨fun _ member => member, fun _ d there room => ⟨d, there, room, rfl⟩⟩

theorem Narrower.trans {t'' : Messages.Tables} (first : Narrower t t' r)
    (second : Narrower t' t'' r) : Narrower t t'' r where
  members u member := first.members u (second.members u member)
  messages k d there room := by
    obtain ⟨d', there', room', sender'⟩ := second.messages k d there room
    obtain ⟨d'', there'', room'', sender''⟩ := first.messages k d' there' room'
    exact ⟨d'', there'', room'', sender''.trans sender'⟩

theorem Pair.narrower {db db' : Db} {b v : Id} (h : Pair db t r p b v) (shop : SameShop db db')
    (less : Narrower t t' r) : Pair db' t' r p b v where
  seller := (shop.sellers p).trans h.seller
  apart := h.apart
  members u member := h.members u (less.members u member)
  senders k d there room := by
    obtain ⟨d', before, room', sender⟩ := less.messages k d there room
    exact sender ▸ h.senders k d' before room'

theorem narrower_touch (id : Id) (now : Date) : Narrower t (t.touchRoom id now) r :=
  ⟨fun _ member => member, fun _ d there room => ⟨d, there, room, rfl⟩⟩

theorem narrower_markMember (id v : Id) (now : Date) : Narrower t (t.markMember id v now) r where
  members u member := by
    obtain ⟨m, row, there, room, user⟩ := isMember_iff.mp member
    obtain ⟨old, before, rfl⟩ := Option.map_eq_some_iff.mp
      ((Table.find?_modifyAll t.members _ m).symm.trans there)
    refine isMember_iff.mpr ⟨m, old, before, ?_⟩
    split at room <;> split at user <;> exact ⟨room, user⟩
  messages k d there room := ⟨d, there, room, rfl⟩

theorem narrower_markRead (id v : Id) (now : Date) : Narrower t (t.markRead id v now) r where
  members _ member := member
  messages k d there room := by
    obtain ⟨old, before, rfl⟩ := Option.map_eq_some_iff.mp
      ((Table.find?_modifyAll t.messages _ k).symm.trans there)
    refine ⟨old, before, ?_⟩
    split at room <;> split <;> exact ⟨room, rfl⟩

theorem narrower_removeMember (id v : Id) : Narrower t (t.removeMember id v) r where
  members u member := by
    obtain ⟨m, row, there, same⟩ := isMember_iff.mp member
    exact isMember_iff.mpr ⟨m, row, (Table.find?_eraseAll_cases there).1, same⟩
  messages k d there room := ⟨d, there, room, rfl⟩

theorem narrower_withoutRoom (id : Id) : Narrower t (t.withoutRoom id) r where
  members u member := by
    obtain ⟨m, row, there, same⟩ := isMember_iff.mp member
    exact isMember_iff.mpr ⟨m, row, (Table.find?_eraseAll_cases there).1, same⟩
  messages k d there room := ⟨d, (Table.find?_eraseAll_cases there).1, room, rfl⟩

/-- The two rows of a new room are the only ones of it. -/
theorem isMember_withRoom {id i j a b : Id} {now : Date} (free : t.members.find? i = none)
    (free' : t.members.find? j = none) (apart : i ≠ j) :
    (t.withRoom id now p (i, a) (j, b)).isMember r u = true ↔
      t.isMember r u = true ∨ r = id ∧ (u = a ∨ u = b) := by
  rw [isMember_iff, isMember_iff]
  constructor
  · rintro ⟨m, row, there, rfl, rfl⟩
    rcases Table.find?_insert_cases there with there | ⟨_, rfl⟩
    · rcases Table.find?_insert_cases there with before | ⟨_, rfl⟩
      · exact Or.inl ⟨m, row, before, rfl, rfl⟩
      · exact Or.inr ⟨rfl, Or.inl rfl⟩
    · exact Or.inr ⟨rfl, Or.inr rfl⟩
  · have later : (t.members.insert i { chatRoomId := id, userId := a, joinedAt := now }).find? j =
        none := by
      rw [Table.find?_insert free, if_neg apart.symm, free']
    have found (m : Id) := (Table.find?_insert later
      { chatRoomId := id, userId := b, joinedAt := now } m)
    rintro (⟨m, row, there, rfl, rfl⟩ | ⟨same, rfl | rfl⟩)
    · refine ⟨m, row, ?_, rfl, rfl⟩
      have old : m ≠ i ∧ m ≠ j := by
        constructor <;> rintro rfl
        · cases free.symm.trans there
        · cases free'.symm.trans there
      exact (found m).trans (by rw [if_neg old.2, Table.find?_insert free, if_neg old.1, there])
    · refine ⟨i, ⟨id, u, none, now⟩, (found i).trans ?_, same.symm, rfl⟩
      rw [if_neg apart, Table.find?_insert_self free]
    · exact ⟨j, ⟨id, u, none, now⟩, (found j).trans (if_pos rfl), same.symm, rfl⟩

end

/-- The rooms of the tables `t'` are rooms of `t`, about the same product, and no wider. -/
structure NoWider (t t' : Messages.Tables) : Prop where
  rooms : ∀ r room, t'.chatRooms.find? r = some room →
    ∃ room', t.chatRooms.find? r = some room' ∧ room'.productId = room.productId
  less : ∀ r, Narrower t t' r

section
variable {t t' : Messages.Tables}

theorem NoWider.refl (t : Messages.Tables) : NoWider t t :=
  ⟨fun _ room there => ⟨room, there, rfl⟩, fun r => .refl t r⟩

theorem NoWider.trans {t'' : Messages.Tables} (first : NoWider t t') (second : NoWider t' t'') :
    NoWider t t'' where
  rooms r room there := by
    obtain ⟨room', there', product'⟩ := second.rooms r room there
    obtain ⟨room'', there'', product''⟩ := first.rooms r room' there'
    exact ⟨room'', there'', product''.trans product'⟩
  less r := (first.less r).trans (second.less r)

theorem noWider_touch (id : Id) (now : Date) : NoWider t (t.touchRoom id now) where
  rooms r room there := by
    obtain ⟨old, before, rfl⟩ := Option.map_eq_some_iff.mp
      ((Table.find?_modifyAll t.chatRooms _ r).symm.trans there)
    refine ⟨old, before, ?_⟩
    split <;> rfl
  less _ := narrower_touch id now

theorem noWider_marked (id v : Id) (now now' : Date) :
    NoWider t ((t.markRead id v now).markMember id v now') where
  rooms _ room there := ⟨room, there, rfl⟩
  less _ := (narrower_markRead id v now).trans (narrower_markMember id v now')

theorem noWider_removeMember (id v : Id) : NoWider t (t.removeMember id v) where
  rooms _ room there := ⟨room, there, rfl⟩
  less _ := narrower_removeMember id v

theorem noWider_withoutRoom (id : Id) : NoWider t (t.withoutRoom id) where
  rooms _ room there := ⟨room, (Table.find?_eraseAll_cases there).1, rfl⟩
  less _ := narrower_withoutRoom id

end

section
variable {db db' : Db} {t t' : Messages.Tables}

theorem Paired.noWider (h : Paired db t) (shop : SameShop db db') (less : NoWider t t') :
    Paired db' t' := by
  intro r room there
  obtain ⟨room', before, product⟩ := less.rooms r room there
  obtain ⟨p, b, v, about, pair⟩ := h r room' before
  exact ⟨p, b, v, product ▸ about, pair.narrower shop (less.less r)⟩

/-- A message from a member is one of the two people of the room. -/
theorem Paired.sent (h : Paired db t) {k : Id} {d : ChatMessage}
    (member : t.isMember d.chatRoomId d.senderId = true) :
    Paired db { t with messages := t.messages.insert k d } := by
  intro r room there
  obtain ⟨p, b, v, about, pair⟩ := h r room there
  refine ⟨p, b, v, about, pair.seller, pair.apart, pair.members, fun j e said here => ?_⟩
  rcases Table.find?_insert_cases said with old | ⟨_, rfl⟩
  · exact pair.senders j e old here
  · exact pair.members e.senderId (here ▸ member)

theorem Paired.created (h : Paired db t) (linked : Messages.Linked t) {p u : Id} {new : NewRoom}
    {product : Product} (there : db.products.find? p = some product) (other : product.sellerId ≠ u)
    (fresh : t.chatRooms.find? new.id = none) (free : t.members.find? new.memberIds.1 = none)
    (free' : t.members.find? new.memberIds.2 = none)
    (apart : new.memberIds.1 ≠ new.memberIds.2) :
    Paired db (t.withRoom new.id new.now p (new.memberIds.1, u)
      (new.memberIds.2, product.sellerId)) := by
  have unused {j : Id} (known : t.chatRooms.has j = true) : j ≠ new.id := by
    rintro rfl
    obtain ⟨_, found⟩ := Table.has_iff.mp known
    cases fresh.symm.trans found
  intro r room stored
  rcases Table.find?_insert_cases stored with before | ⟨rfl, rfl⟩
  · obtain ⟨p', b, v, about, pair⟩ := h r room before
    have old : r ≠ new.id := unused (Table.has_iff.mpr ⟨room, before⟩)
    refine ⟨p', b, v, about, pair.seller, pair.apart, fun w inside => ?_, pair.senders⟩
    rcases (isMember_withRoom free free' apart).mp inside with was | ⟨same, _⟩
    · exact pair.members w was
    · exact absurd same old
  · refine ⟨p, u, product.sellerId, rfl, congrArg (Option.map _) there, other.symm,
      fun w inside => ?_, fun k d message here => ?_⟩
    · rcases (isMember_withRoom free free' apart).mp inside with was | ⟨_, both⟩
      · exact absurd rfl (unused (has_of_member linked was))
      · exact both
    · exact absurd here (unused (linked.message k d message))

end

/-- Every operation keeps the two people of each room. -/
theorem paired_step {s : MessagesStore} (h : Paired s.1 s.2.toTables) (op : MessagesOp) :
    Paired (messagesService.sequential s op).1 (messagesService.sequential s op).2.toTables := by
  obtain ⟨shop, effect⟩ := messages_does op s
  change SameShop s.1 (messagesService.sequential s op).1 at shop
  change MessagesEffect s op _ (messagesService.sequential s op).2.toTables at effect
  generalize (messagesService.sequential s op).2.toTables = t' at effect ⊢
  generalize (op.program.alone execBoard s).2 = reply at effect
  cases effect with
  | refused e => exact h.noWider shop (.refl _)
  | read reads => exact h.noWider shop (.refl _)
  | found product room there other listed known => exact h.noWider shop (.refl _)
  | created product event there other unknown fresh free free' apart _ made =>
    rw [made]
    exact (h.created s.2.linked there other fresh free free' apart).noWider shop (.refl _)
  | sent d event member fresh room sender unread never told =>
    rw [← room, ← sender] at member
    exact (h.sent member).noWider shop (noWider_touch _ _)
  | marked member => exact h.noWider shop (noWider_marked _ _ _ _)
  | left member others => exact h.noWider shop (noWider_removeMember _ _)
  | closed member last =>
    exact h.noWider shop ((noWider_removeMember _ _).trans (noWider_withoutRoom _))

/-! What asking for a room answers. -/

theorem findRoomOf_some {t : Messages.Tables} {p u : Id} {room : RoomRecord}
    (h : t.findRoomOf p u = some room) : ∃ r row, t.chatRooms.find? r = some row ∧
      row.productId = some p ∧ t.isMember r u = true ∧ room = t.record r row := by
  obtain ⟨⟨r, row⟩, found, rfl⟩ := Option.map_eq_some_iff.mp h
  have passes := List.find?_some found
  simp only [Bool.and_eq_true, decide_eq_true_eq] at passes
  exact ⟨r, row, t.chatRooms.mem_rows.mp (List.mem_of_find?_eq_some found), passes.1, passes.2, rfl⟩

/-- The seller of a product. -/
def sellerOf (db : Db) (p : Id) : Option Id := (db.products.find? p).map Product.sellerId

/-- The room is about the product; the one who asked and the seller are in it, nobody else is,
and a message sent there is announced to the seller. -/
structure AskedRoom (s : MessagesStore) (room : RoomRecord) (u p : Id) : Prop where
  product : room.room.productId = some p
  members : ∀ w, room.hasMember w = true ↔ w = u ∨ sellerOf s.1 p = some w
  reaches : ∀ content messageType fileUrl fileName id now touchedAt message event,
    ((MessagesOp.send u room.id content messageType fileUrl fileName id now
      touchedAt).program.alone execBoard s).2 = .ok (.sent message event) →
    ∀ v, sellerOf s.1 p = some v → v ∈ event.recipientIds

theorem AskedRoom.of_members {s : MessagesStore} {u p v r : Id} {row : ChatRoom}
    (product : row.productId = some p) (seller : sellerOf s.1 p = some v) (other : v ≠ u)
    (members : ∀ w, s.2.isMember r w = true ↔ w = u ∨ w = v) :
    AskedRoom s (s.2.record r row) u p where
  product := product
  members w := by
    rw [record_hasMember, members, seller, Option.some_inj, eq_comm (a := v)]
  reaches content messageType fileUrl fileName id now touchedAt message event sent v' seller' := by
    obtain rfl := Option.some.inj (seller.symm.trans seller')
    have effect := (messages_does (.send u r content messageType fileUrl fileName id now touchedAt)
      s).2
    generalize ((MessagesOp.send u r content messageType fileUrl fileName id now
      touchedAt).program.alone execBoard s).1.2.toTables = t' at effect
    change ((MessagesOp.send u r content messageType fileUrl fileName id now
      touchedAt).program.alone execBoard s).2 = _ at sent
    rw [sent] at effect
    cases effect with
    | read reads => cases reads
    | sent d event member fresh room sender unread never told =>
      exact (told v).mpr ⟨(members v).mpr (Or.inr rfl), other⟩

/-- The answer to one operation that asks for a room. -/
def AsksRight (s : MessagesStore) : MessagesOp → Prop
  | .findOrCreate u p new => ∀ room event,
    ((MessagesOp.findOrCreate u p new).program.alone execBoard s).2 = .ok (.room room event) →
      AskedRoom (messagesService.sequential s (.findOrCreate u p new)) room u p
  | _ => True

/-- A room that is going to be found still has the seller in it. -/
def SellerThere (s : MessagesStore) : MessagesOp → Prop
  | .findOrCreate u p _ => ∀ product room, s.1.products.find? p = some product →
    product.sellerId ≠ u → product.status ≠ .deleted → s.2.findRoomOf p u = some room →
    room.hasMember product.sellerId = true
  | _ => True

theorem found_alone {s : MessagesStore} {u p : Id} (new : NewRoom) {product : Product}
    {room : RoomRecord} (there : s.1.products.find? p = some product)
    (other : product.sellerId ≠ u) (listed : product.status ≠ .deleted)
    (known : s.2.findRoomOf p u = some room) :
    ∃ db, SameShop s.1 db ∧ (MessagesOp.findOrCreate u p new).program.alone execBoard s =
      ((db, s.2), .ok (.room room none)) := by
  rcases viewed_alone s.1 p with ⟨e, none, _⟩ | ⟨product', mid, there', same, done⟩
  · cases none.symm.trans there
  · obtain rfl : product' = product := Option.some.inj (there'.symm.trans there)
    obtain ⟨product'', there'', _⟩ := same.seller there
    refine ⟨mid, same, ?_⟩
    rw [MessagesOp.program, Request.alone_map, MessagesService.findOrCreateChatRoom,
      Request.alone_bind, fromShop_alone, done]
    simp only
    rw [if_neg other, if_neg listed]
    simp only [Request.pure_eq]
    rw [Request.alone_bind, repository_alone (s := (mid, s.2)) there'', known]
    rfl

theorem asksRight_iff {s : MessagesStore} (h : Paired s.1 s.2.toTables) (op : MessagesOp) :
    AsksRight s op ↔ SellerThere s op := by
  cases op with
  | findOrCreate u p new =>
    constructor
    · intro right product room there other listed known
      obtain ⟨db, same, done⟩ := found_alone new there other listed known
      have answer := (right room none (congrArg Prod.snd done)).members product.sellerId
      have after : messagesService.sequential s (.findOrCreate u p new) = (db, s.2) :=
        congrArg Prod.fst done
      rw [answer, after]
      exact Or.inr ((same.sellers p).trans (congrArg (Option.map _) there))
    · intro stays room event done
      obtain ⟨shop, effect⟩ := messages_does (.findOrCreate u p new) s
      change SameShop s.1 (messagesService.sequential s (.findOrCreate u p new)).1 at shop
      change MessagesEffect s _ _
        (messagesService.sequential s (.findOrCreate u p new)).2.toTables at effect
      generalize messagesService.sequential s (.findOrCreate u p new) = s' at shop effect ⊢
      rw [done] at effect
      generalize after : s'.2.toTables = t' at effect
      have seller (product : Product) (there : s.1.products.find? p = some product) :
          sellerOf s'.1 p = some product.sellerId :=
        (shop.sellers p).trans (congrArg (Option.map _) there)
      cases effect with
      | read reads => cases reads
      | found product room there other listed known =>
        have stands := stays product room there other listed known
        obtain ⟨r, row, stored, about, member, rfl⟩ := findRoomOf_some known
        obtain ⟨p', b, v, about', pair⟩ := h r row stored
        obtain rfl : p' = p := Option.some.inj (about'.symm.trans about)
        obtain rfl : product.sellerId = v :=
          Option.some.inj ((congrArg (Option.map _) there).symm.trans pair.seller)
        have asker : u = b := (pair.members u member).resolve_right other.symm
        rw [record_hasMember] at stands
        rw [← after] at member stands pair ⊢
        refine .of_members about (seller product there) other (fun w => ⟨fun inside => ?_, ?_⟩)
        · exact asker ▸ pair.members w inside
        · rintro (rfl | rfl)
          · exact member
          · exact stands
      | created product event there other unknown fresh free free' apart _ made =>
        have empty (w : Id) : s.2.isMember new.id w ≠ true := by
          intro inside
          obtain ⟨room, known⟩ := Table.has_iff.mp (has_of_member s.2.linked inside)
          cases fresh.symm.trans known
        rw [← after] at made ⊢
        refine .of_members rfl (seller product there) other (fun w => ?_)
        rw [made, isMember_withRoom free free' apart]
        exact ⟨fun inside => (inside.resolve_left (empty w)).2, fun both => Or.inr ⟨rfl, both⟩⟩
  | _ => exact Iff.rfl

/-- Every room that the run answers is the one that was asked for. -/
def RoomsAsRequested (s : MessagesStore) (ops : List MessagesOp) : Prop :=
  ∀ before op after, ops = before ++ op :: after →
    AsksRight (run messagesService.sequential s before) op

theorem noChat_paired (db : Db) : Paired db Messages.noChat.toTables := by
  intro r room there
  cases there

theorem paired_run {s : MessagesStore} (h : Paired s.1 s.2.toTables) (ops : List MessagesOp) :
    Paired (run messagesService.sequential s ops).1
      (run messagesService.sequential s ops).2.toTables :=
  run_keeps (I := fun s : MessagesStore => Paired s.1 s.2.toTables)
    (fun s op h => paired_step h op) h ops

/-- The room is right exactly as long as nobody is given a room that the seller has left. -/
theorem rooms_as_requested_iff (db : Db) (ops : List MessagesOp) :
    RoomsAsRequested (db, Messages.noChat) ops ↔
      Along messagesService.sequential SellerThere (db, Messages.noChat) ops := by
  rw [along_iff_at]
  have each (before : List MessagesOp) (op : MessagesOp) :
      AsksRight (run messagesService.sequential (db, Messages.noChat) before) op ↔
        SellerThere (run messagesService.sequential (db, Messages.noChat) before) op :=
    asksRight_iff (paired_run (noChat_paired db) before) op
  constructor
  · exact fun right before op after split => (each before op).mp (right before op after split)
  · exact fun there before op after split => (each before op).mpr (there before op after split)

def bobAsks : MessagesOp := .findOrCreate "bob" "lamp" ⟨"room", ("m1", "m2"), 1⟩

/-- The seller leaves; the buyer asks again and gets the room without the seller. -/
theorem room_without_seller :
    ¬ RoomsAsRequested (market, Messages.noChat) [bobAsks, .leave "room" "ann", bobAsks] := by
  intro right
  have asked := right [bobAsks, .leave "room" "ann"] bobAsks [] rfl _ _ rfl
  have seller : RoomRecord.hasMember _ "ann" = true := (asked.members "ann").mpr (Or.inr rfl)
  revert seller
  decide

end SecondhandApi
