import SecondhandApi.Json.Values

/-! The bounds of the reader never stop it: a text is longer than its values are deep and than its
lists have items. -/
namespace Json

theorem skip_length (t : Text) : (skip t).length ≤ t.length :=
  (t.dropWhile_sublist blank).length_le

section Lists
variable {α : Type}

/-- Something is read whenever the reader succeeds. -/
def Shrinks (read : Reader α) : Prop :=
  ∀ {t rest : Text} {a : α}, read t = some (a, rest) → rest.length < t.length

/-- The readers agree on texts of at most `n` characters. -/
def Agree (n : Nat) (read read' : Reader α) : Prop := ∀ t : Text, t.length ≤ n → read t = read' t

theorem Agree.mono {n m : Nat} {read read' : Reader α} (h : Agree n read read') (le : m ≤ n) :
    Agree m read read' :=
  fun t bound => h t (bound.trans le)

theorem expect_length {c : UInt16} {t rest : Text} (h : expect c t = some rest) :
    rest.length < t.length := by
  have shorter := skip_length t
  unfold expect at h
  split at h
  next => cases h
  next d rest' first =>
    rw [first, List.length_cons] at shorter
    split_ifs at h
    cases h
    omega

variable {item item' : Reader α} {close : UInt16}

theorem items_length (shrinks : Shrinks item) {n : Nat} : Shrinks (items item close n) := by
  induction n with
  | zero =>
    intro t rest as h
    cases h
  | succ n ih =>
    intro t rest as h
    simp only [items, Option.bind_eq_bind, Option.bind_eq_some_iff] at h
    obtain ⟨⟨a, t'⟩, first, h⟩ := h
    have front : t'.length < t.length := shrinks first
    split at h
    next u comma =>
      obtain ⟨p, found, same⟩ := Option.map_eq_some_iff.mp h
      cases same
      have separator : u.length < t'.length := expect_length comma
      exact (ih found).trans (separator.trans front)
    next =>
      obtain ⟨u, found, same⟩ := Option.map_eq_some_iff.mp h
      cases same
      have last : rest.length < t'.length := expect_length found
      exact last.trans front

theorem items_agree (shrinks : Shrinks item) {n m : Nat} {t : Text} (hn : t.length ≤ n)
    (hm : t.length ≤ m) (same : Agree t.length item item') :
    items item close n t = items item' close m t := by
  induction n generalizing m t with
  | zero =>
    have empty : item' t = none := by
      rw [← same t le_rfl]
      refine Option.eq_none_iff_forall_ne_some.mpr fun p read => ?_
      have := shrinks read
      omega
    cases m <;> simp [items, empty]
  | succ n ih =>
    cases m with
    | zero =>
      have empty : item t = none := by
        refine Option.eq_none_iff_forall_ne_some.mpr fun p read => ?_
        have := shrinks read
        omega
      simp [items, empty]
    | succ m =>
      simp only [items, ← same t le_rfl, Option.bind_eq_bind]
      refine Option.bind_congr fun p read => ?_
      have front : p.2.length < t.length := shrinks read
      split
      next u comma =>
        have separator := expect_length comma
        have rest : items item close n u = items item' close m u :=
          ih (by omega) (by omega) (same.mono (by omega))
        rw [rest]
      next => rfl

theorem listUpTo_length (shrinks : Shrinks item) : Shrinks (listUpTo item close) := by
  intro t rest as h
  unfold listUpTo at h
  split at h
  next u closed =>
    cases h
    exact expect_length closed
  next => exact items_length shrinks h

theorem listUpTo_agree (shrinks : Shrinks item) {t : Text} (same : Agree t.length item item') :
    listUpTo item close t = listUpTo item' close t := by
  unfold listUpTo
  rw [items_agree shrinks le_rfl le_rfl same]

end Lists

section Values
variable {value value' : Reader Value}

theorem member_length (shrinks : Shrinks value) : Shrinks (member value) := by
  intro t rest e h
  simp only [member, Option.bind_eq_bind, Option.bind_eq_some_iff, Option.pure_def,
    Option.some.injEq] at h
  obtain ⟨t₁, mark, ⟨key, t₂⟩, name, t₃, colon, ⟨v, t₄⟩, read, same⟩ := h
  cases same
  have mark_part := expect_length mark
  have name_part : t₂.length < t₁.length := by
    have : key.length + t₂.length < t₁.length := unquote_length name
    omega
  have colon_part : t₃.length < t₂.length := expect_length colon
  have value_part : t₄.length < t₃.length := shrinks read
  exact value_part.trans (colon_part.trans (name_part.trans mark_part))

theorem member_agree {t : Text} (same : Agree t.length value value') :
    member value t = member value' t := by
  unfold member
  refine Option.bind_congr fun t₁ mark => Option.bind_congr fun p name =>
    Option.bind_congr fun t₃ colon => ?_
  have mark_part := expect_length mark
  have name_part := unquote_length name
  have colon_part : t₃.length < p.2.length := expect_length colon
  rw [same t₃ (by omega)]

theorem literals_nonempty : ∀ l ∈ literals, 0 < l.1.length := by
  simp only [literals, List.forall_mem_cons]
  exact ⟨by decide, by decide, by decide, by simp⟩

theorem readValue_length (shrinks : Shrinks value) : Shrinks (readValue value) := by
  intro t rest v h
  have shorter := skip_length t
  unfold readValue at h
  split at h
  next => cases h
  next c cs first =>
    rw [first, List.length_cons] at shorter
    split_ifs at h
    · obtain ⟨p, found, same⟩ := Option.map_eq_some_iff.mp h
      cases same
      have := unquote_length found
      omega
    · obtain ⟨p, found, same⟩ := Option.map_eq_some_iff.mp h
      cases same
      have := listUpTo_length shrinks found
      omega
    · obtain ⟨p, found, same⟩ := Option.map_eq_some_iff.mp h
      cases same
      have := listUpTo_length (member_length shrinks) found
      omega
    · split at h
      next l found =>
        cases h
        have := literals_nonempty l (List.mem_of_find?_eq_some found)
        simp only [List.length_drop, List.length_cons]
        omega
      next =>
        obtain ⟨p, found, same⟩ := Option.map_eq_some_iff.mp h
        cases same
        have := readNumber_length found
        rw [List.length_cons] at this
        omega

theorem readValue_agree (shrinks : Shrinks value) {t : Text}
    (same : ∀ u : Text, u.length < t.length → value u = value' u) :
    readValue value t = readValue value' t := by
  have shorter := skip_length t
  unfold readValue
  split
  next => rfl
  next c cs first =>
    rw [first, List.length_cons] at shorter
    have agree : Agree cs.length value value' := fun u bound => same u (by omega)
    have members : Agree cs.length (member value) (member value') :=
      fun u bound => member_agree (agree.mono bound)
    rw [listUpTo_agree shrinks agree, listUpTo_agree (member_length shrinks) members]

theorem nested_length (n : Nat) : Shrinks (nested n) := by
  induction n with
  | zero =>
    intro t rest v h
    cases h
  | succ n ih => exact readValue_length ih

theorem nested_bound {t : Text} {n m : Nat} (hn : t.length < n) (hm : t.length < m) :
    nested n t = nested m t := by
  induction n generalizing t m with
  | zero => omega
  | succ n ih =>
    obtain ⟨k, rfl⟩ : ∃ k, m = k + 1 := ⟨m - 1, by omega⟩
    exact readValue_agree (nested_length n) fun u shorter => ih (by omega) (by omega)

end Values

/-- A value, however deep it is nested. -/
def anyValue : Reader Value := fun t => nested (t.length + 1) t

theorem anyValue_eq (t : Text) : anyValue t = readValue anyValue t :=
  readValue_agree (nested_length t.length) fun _ shorter => nested_bound shorter (Nat.lt_succ_self _)

theorem parse_eq (t : Text) :
    parse t = (anyValue t).bind fun p => if skip p.2 = [] then some p.1 else none :=
  rfl

end Json
