import Mathlib.Data.List.Forall2
import Mathlib.Order.Defs.Unbundled

/-! Computations over a state that may fail and whose successful runs only move the
state along a fixed preorder. The preorder is proved once, when a primitive is
defined; sequencing keeps it, so no later program has to be inspected for it. -/

/-- A failing state computation together with the relation its runs stay in. -/
structure Tracked {σ : Type} (r : σ → σ → Prop) (ε α : Type) where
  run : σ → Except ε (α × σ)
  tracks : ∀ {s a s'}, run s = .ok (a, s') → r s s'

namespace Tracked

variable {σ : Type} {r : σ → σ → Prop} {ε α β γ : Type}

@[ext] theorem ext {m n : Tracked r ε α} (h : ∀ s, m.run s = n.run s) : m = n := by
  cases m
  cases n
  congr
  exact funext h

def throw (e : ε) : Tracked r ε α := ⟨fun _ => .error e, fun h => by cases h⟩

@[simp] theorem run_throw (e : ε) (s : σ) : (throw e : Tracked r ε α).run s = .error e := rfl

theorem throw_ok {e : ε} {b : α} {s s' : σ} :
    (throw e : Tracked r ε α).run s = .ok (b, s') ↔ False := by
  simp

/-- Every run that succeeds has such a result. -/
def Returns (m : Tracked r ε α) (Q : α → Prop) : Prop :=
  ∀ s a s', m.run s = .ok (a, s') → Q a

namespace Returns

variable {Q : α → Prop}

theorem any (m : Tracked r ε α) : m.Returns fun _ => True := fun _ _ _ _ => trivial

theorem weaken {m : Tracked r ε α} {P : α → Prop} (h : m.Returns P) (le : ∀ a, P a → Q a) :
    m.Returns Q := fun s a s' run => le a (h s a s' run)

theorem throw (e : ε) : (Tracked.throw e : Tracked r ε α).Returns Q := by
  intro s a s' run
  exact (throw_ok.mp run).elim

end Returns

/-- Wherever the second computation succeeds, the first stops with the error. -/
def Stops (e : ε) (m n : Tracked r ε α) : Prop :=
  ∀ s p, n.run s = .ok p → m.run s = .error e

namespace Stops

theorem throw (e : ε) (n : Tracked r ε α) : Stops e (Tracked.throw e) n := fun _ _ _ => rfl

theorem never (e e' : ε) (m : Tracked r ε α) : Stops e m (Tracked.throw e') := by
  intro s p run
  cases run

end Stops

variable [IsPreorder σ r]

def pure (a : α) : Tracked r ε α :=
  ⟨fun s => .ok (a, s), fun h => by cases h; exact refl_of r _⟩

def bind (m : Tracked r ε α) (f : α → Tracked r ε β) : Tracked r ε β where
  run s := match m.run s with
    | .ok (a, s') => (f a).run s'
    | .error e => .error e
  tracks {s b s'} h := by
    cases hm : m.run s with
    | error e => simp only [hm] at h; cases h
    | ok p =>
      simp only [hm] at h
      exact trans_of r (m.tracks hm) ((f p.1).tracks h)

instance : Monad (Tracked r ε) where
  pure := pure
  bind := bind

def ofExcept : Except ε α → Tracked r ε α
  | .ok a => pure a
  | .error e => throw e

@[simp] theorem run_pure (a : α) (s : σ) :
    (Pure.pure a : Tracked r ε α).run s = .ok (a, s) := rfl

theorem run_bind (m : Tracked r ε α) (f : α → Tracked r ε β) (s : σ) :
    (m >>= f).run s = match m.run s with
      | .ok (a, s') => (f a).run s'
      | .error e => .error e := rfl

theorem id_map (m : Tracked r ε α) : id <$> m = m := by
  ext s
  change (m >>= fun a => Pure.pure a).run s = _
  rw [run_bind]
  cases m.run s <;> rfl

theorem bind_assoc (m : Tracked r ε α) (f : α → Tracked r ε β) (g : β → Tracked r ε γ) :
    m >>= f >>= g = m >>= fun a => f a >>= g := by
  ext s
  simp only [run_bind]
  cases m.run s <;> rfl

instance : LawfulMonad (Tracked r ε) :=
  LawfulMonad.mk' _ id_map (fun _ _ => ext fun _ => rfl) bind_assoc

/-- The only way a sequence succeeds: its parts do, one after the other. -/
theorem bind_ok {m : Tracked r ε α} {f : α → Tracked r ε β} {s s' : σ} {b : β} :
    (m >>= f).run s = .ok (b, s') ↔
      ∃ a t, m.run s = .ok (a, t) ∧ (f a).run t = .ok (b, s') := by
  rw [run_bind]
  cases hm : m.run s with
  | error e => simp
  | ok p =>
    obtain ⟨a, t⟩ := p
    simp [and_assoc]

theorem pure_ok {a b : α} {s s' : σ} :
    (Pure.pure a : Tracked r ε α).run s = .ok (b, s') ↔ a = b ∧ s = s' := by
  simp

theorem ofExcept_ok {x : Except ε α} {b : α} {s s' : σ} :
    (ofExcept x : Tracked r ε α).run s = .ok (b, s') ↔ x = .ok b ∧ s = s' := by
  cases x with
  | error e => simp [ofExcept]
  | ok a => exact pure_ok.trans (by simp)

namespace Returns

variable {Q : α → Prop}

theorem pure {a : α} (h : Q a) : (Pure.pure a : Tracked r ε α).Returns Q := by
  intro s b s' run
  obtain ⟨rfl, _⟩ := pure_ok.mp run
  exact h

theorem bind {m : Tracked r ε β} {f : β → Tracked r ε α} {P : β → Prop} (hm : m.Returns P)
    (hf : ∀ a, P a → (f a).Returns Q) : (m >>= f).Returns Q := by
  intro s b s' run
  obtain ⟨a, mid, first, rest⟩ := bind_ok.mp run
  exact hf a (hm s a mid first) mid b s' rest

theorem mapM {f : α → Tracked r ε β} {R : α → β → Prop} (h : ∀ a, (f a).Returns (R a))
    (xs : List α) : (xs.mapM f).Returns (List.Forall₂ R xs) := by
  induction xs with
  | nil => exact .pure .nil
  | cons x xs ih =>
    rw [List.mapM_cons]
    exact .bind (h x) fun y hy => .bind ih fun ys hys => .pure (.cons hy hys)

end Returns

/-- What follows matters only at the results there can be. -/
theorem bind_congr {m : Tracked r ε β} {P : β → Prop} (hm : m.Returns P)
    {f g : β → Tracked r ε α} (h : ∀ a, P a → f a = g a) : m >>= f = m >>= g := by
  ext s
  rw [run_bind, run_bind]
  cases run : m.run s with
  | error e => rfl
  | ok p => simp only [h p.1 (hm s p.1 p.2 run)]

namespace Stops

variable {e : ε} {m n : Tracked r ε β} {f g : β → Tracked r ε α}

theorem after {P : β → Prop} (hm : m.Returns P) (h : ∀ a, P a → Stops e (f a) (g a)) :
    Stops e (m >>= f) (m >>= g) := by
  intro s p run
  obtain ⟨a, t, first, rest⟩ := bind_ok.mp run
  rw [run_bind, first]
  exact h a (hm s a t first) t p rest

theorem bind (h : Stops e m n) : Stops e (m >>= f) (n >>= g) := by
  intro s p run
  obtain ⟨a, t, first, _⟩ := bind_ok.mp run
  rw [run_bind, h s (a, t) first]

end Stops

end Tracked
