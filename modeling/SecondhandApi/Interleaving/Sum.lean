import SecondhandApi.Interleaving.Pool

/-! Requests that make calls of two families: what a request of one family is among
them, and stores with a part for each family. -/
namespace Interleaving

variable {C D : Type} {R : C → Type} {Q : D → Type} {E F A B S T : Type}

/-- The effect of a call of either family. -/
def either (exec : (c : C) → S → S × R c) (exec' : (d : D) → S → S × Q d) :
    (c : C ⊕ D) → S → S × Sum.elim R Q c
  | .inl c => exec c
  | .inr d => exec' d

@[simp] theorem either_inl (exec : (c : C) → S → S × R c) (exec' : (d : D) → S → S × Q d) (c : C)
    (s : S) : either exec exec' (.inl c) s = exec c s := rfl
@[simp] theorem either_inr (exec : (c : C) → S → S × R c) (exec' : (d : D) → S → S × Q d) (d : D)
    (s : S) : either exec exec' (.inr d) s = exec' d s := rfl

/-! A family that works on one part of the store leaves the other part alone. -/

def onFst (exec : (c : C) → S → S × R c) (c : C) (s : S × T) : (S × T) × R c :=
  (((exec c s.1).1, s.2), (exec c s.1).2)

def onSnd (exec : (d : D) → T → T × Q d) (d : D) (s : S × T) : (S × T) × Q d :=
  ((s.1, (exec d s.2).1), (exec d s.2).2)

@[simp] theorem onSnd_snd (exec : (d : D) → T → T × Q d) (d : D) (s : S × T) :
    (onSnd exec d s).1.2 = (exec d s.2).1 := rfl

namespace Request

/-- A request of the first family, with its errors renamed. -/
def left (err : E → F) : Request C R E A → Request (C ⊕ D) (Sum.elim R Q) F A
  | done a => done a
  | fail e => fail (err e)
  | call c next => call (.inl c) (fun r => (next r).left err)

section
variable (err : E → F)

theorem left_bind (p : Request C R E A) (f : A → Request C R E B) :
    ((p >>= f).left err : Request (C ⊕ D) (Sum.elim R Q) F B) =
      p.left err >>= fun a => (f a).left err := by
  induction p with
  | done a => rfl
  | fail e => rfl
  | call c next ih =>
    rw [call_bind, left, left, call_bind]
    exact congrArg (call (Sum.inl c)) (funext fun r => ih r)

theorem makes_left {P : C ⊕ D → Prop} {p : Request C R E A} (h : Makes (fun c => P (.inl c)) p) :
    Makes P (p.left err : Request (C ⊕ D) (Sum.elim R Q) F A) := by
  induction p with
  | done a => trivial
  | fail e => trivial
  | call c next ih => exact ⟨h.1, fun r => ih r (h.2 r)⟩

/-- Alone it does to the common store what it does by itself. -/
theorem alone_left (exec : (c : C) → S → S × R c) (exec' : (d : D) → S → S × Q d)
    (p : Request C R E A) (s : S) :
    (p.left err).alone (either exec exec') s =
      ((p.alone exec s).1, (p.alone exec s).2.mapError err) := by
  induction p generalizing s with
  | done a => rfl
  | fail e => rfl
  | call c next ih => exact ih _ _

/-- On a store of two parts it works as it does on its own. -/
theorem alone_onFst (exec : (c : C) → S → S × R c) (p : Request C R E A) (s : S × T) :
    p.alone (onFst exec) s = (((p.alone exec s.1).1, s.2), (p.alone exec s.1).2) := by
  induction p generalizing s with
  | done a => rfl
  | fail e => rfl
  | call c next ih => exact ih _ _

end

end Request

end Interleaving
