import SecondhandApi.Json.Numerals

/-! `JSON.stringify` and `JSON.parse`. -/
namespace Json
open JavaScript (Number positional)

/-- An object is the list of its properties in the order in which JavaScript has them. -/
inductive Value where
  | null
  | bool (b : Bool)
  | number (n : Number)
  | string (s : Text)
  | array (vs : List Value)
  | object (entries : List (Text × Value))

@[elab_as_elim] theorem Value.induction {P : Value → Prop} (null : P .null)
    (bool : ∀ b, P (.bool b)) (number : ∀ n, P (.number n)) (string : ∀ s, P (.string s))
    (array : ∀ vs, (∀ v ∈ vs, P v) → P (.array vs))
    (object : ∀ entries, (∀ e ∈ entries, P e.2) → P (.object entries)) (v : Value) : P v := by
  apply @Value.rec P (fun vs => ∀ v ∈ vs, P v) (fun entries => ∀ e ∈ entries, P e.2)
    (fun e => P e.2) null bool number string array object
  · intro v h
    cases h
  · intro v vs hv ih
    exact List.forall_mem_cons.2 ⟨hv, ih⟩
  · intro e h
    cases h
  · intro e entries he ih
    exact List.forall_mem_cons.2 ⟨he, ih⟩
  · intro key v hv
    exact hv

/-! The order of properties: the indices of an array go up, the other names follow in the order
in which they were created. -/

def arrayIndex (key : Text) : Option Nat :=
  let digits := (takeDigits key).1
  if (takeDigits key).2 = [] ∧ decimal (positional 10 digits) = digits ∧
      positional 10 digits < 2 ^ 32 - 1 then some (positional 10 digits)
  else none

section Properties
variable {α : Type}

/-- `CreateDataProperty`: a value given again takes the place of the old one. -/
def define (entries : List (Text × α)) (key : Text) (v : α) : List (Text × α) :=
  if key ∈ entries.map Prod.fst then
    entries.map fun e => if e.1 = key then (key, v) else e
  else
    match arrayIndex key with
    | none => entries ++ [(key, v)]
    | some i =>
      let smaller := fun e : Text × α => (arrayIndex e.1).any (· < i)
      entries.takeWhile smaller ++ (key, v) :: entries.dropWhile smaller

def Precedes (k l : Text) : Prop := k ≠ l ∧ ∀ j ∈ arrayIndex l, ∃ i ∈ arrayIndex k, i < j

/-- No name twice, and each in its place. -/
def Ordered (entries : List (Text × α)) : Prop := (entries.map Prod.fst).Pairwise Precedes

end Properties

/-! Writing. -/

/-- The texts with commas between them. -/
def commas : List Text → Text
  | [] => []
  | [t] => t
  | t :: ts => t ++ unit ',' :: commas ts

def word (b : Bool) : Text := ascii (if b then "true" else "false")

def memberText (key value : Text) : Text := quote key ++ unit ':' :: value

mutual

def stringify : Value → Text
  | .null => ascii "null"
  | .bool b => word b
  | .number n => numberText n
  | .string s => quote s
  | .array vs => unit '[' :: (commas (elementTexts vs) ++ [unit ']'])
  | .object entries => unit '{' :: (commas (memberTexts entries) ++ [unit '}'])

def elementTexts : List Value → List Text
  | [] => []
  | v :: vs => stringify v :: elementTexts vs

def memberTexts : List (Text × Value) → List Text
  | [] => []
  | (key, v) :: entries => memberText key (stringify v) :: memberTexts entries

end

/-! Reading. -/

/-- What stands in front of a text, and the rest of it. -/
abbrev Reader (α : Type) := Text → Option (α × Text)

def blank (c : UInt16) : Bool := c = 9 || c = 10 || c = 13 || c = 32

def skip (t : Text) : Text := t.dropWhile blank

/-- What follows a character, which blanks may precede. -/
def expect (c : UInt16) (t : Text) : Option Text :=
  match skip t with
  | [] => none
  | d :: rest => if d = c then some rest else none

section Lists
variable {α : Type}

/-- At most `n` items up to the character that closes their list. -/
def items (item : Reader α) (close : UInt16) : Nat → Reader (List α)
  | 0, _ => none
  | n + 1, t => do
    let (a, t) ← item t
    match expect (unit ',') t with
    | some t => (items item close n t).map fun p => (a :: p.1, p.2)
    | none => (expect close t).map fun t => ([a], t)

def listUpTo (item : Reader α) (close : UInt16) : Reader (List α) := fun t =>
  match expect close t with
  | some t => some ([], t)
  | none => items item close t.length t

end Lists

def member (value : Reader Value) : Reader (Text × Value) := fun t => do
  let t ← expect (unit '"') t
  let (key, t) ← unquote t
  let t ← expect (unit ':') t
  let (v, t) ← value t
  return ((key, v), t)

def literals : List (Text × Value) :=
  [(ascii "null", .null), (word true, .bool true), (word false, .bool false)]

/-- A value whose parts are read by `value`. -/
def readValue (value : Reader Value) : Reader Value := fun t =>
  match skip t with
  | [] => none
  | c :: cs =>
    if c = unit '"' then (unquote cs).map fun p => (.string p.1, p.2)
    else if c = unit '[' then (listUpTo value (unit ']') cs).map fun p => (.array p.1, p.2)
    else if c = unit '{' then
      (listUpTo (member value) (unit '}') cs).map fun p =>
        (.object (p.1.foldl (fun entries e => define entries e.1 e.2) []), p.2)
    else
      match literals.find? fun l => l.1.isPrefixOf (c :: cs) with
      | some l => some (l.2, (c :: cs).drop l.1.length)
      | none => (readNumber (c :: cs)).map fun p => (.number p.1, p.2)

/-- A value nested at most `n` deep. -/
def nested : Nat → Reader Value
  | 0 => fun _ => none
  | n + 1 => readValue (nested n)

/-- `JSON.parse`, with `none` for a `SyntaxError`. -/
def parse (t : Text) : Option Value :=
  (nested (t.length + 1) t).bind fun p => if skip p.2 = [] then some p.1 else none

end Json
