import FutharkMlir.Lib.Tracked

/-- Both outcomes succeed and are related, or both fail with related errors; or the first is an
error at which the second may go on. -/
inductive Agree {ε δ α β : Type} (E : ε → δ → Prop) (stop : ε → Prop) (R : α → β → Prop) :
    Except ε α → Except δ β → Prop
  | ok {a : α} {b : β} (h : R a b) : Agree E stop R (.ok a) (.ok b)
  | error {e : ε} {d : δ} (h : E e d) : Agree E stop R (.error e) (.error d)
  | stopped {e : ε} {y : Except δ β} (h : stop e) : Agree E stop R (.error e) y

section Outcomes

variable {ε δ α β α' β' : Type} {E : ε → δ → Prop} {stop : ε → Prop} {R : α → β → Prop}
  {Q : α' → β' → Prop}

namespace Agree

theorem same {E : ε → ε → Prop} (errors : ∀ e, E e e) (x : Except ε α) : Agree E stop Eq x x := by
  cases x with
  | error e => exact .error (errors e)
  | ok a => exact .ok rfl

theorem weaken {x : Except ε α} {y : Except δ β} {R' : α → β → Prop} (h : Agree E stop R x y)
    (le : ∀ a b, R a b → R' a b) : Agree E stop R' x y := by
  cases h with
  | ok h => exact .ok (le _ _ h)
  | error h => exact .error h
  | stopped h => exact .stopped h

theorem bind {x : Except ε α} {y : Except δ β} {f : α → Except ε α'} {g : β → Except δ β'}
    (h : Agree E stop R x y) (k : ∀ a b, R a b → Agree E stop Q (f a) (g b)) :
    Agree E stop Q (x >>= f) (y >>= g) := by
  cases h with
  | ok h => exact k _ _ h
  | error h => exact .error h
  | stopped h => exact .stopped h

theorem toOption {x : Except ε α} {y : Except δ β} {γ : Type} {f : α → γ} {g : β → γ}
    (h : Agree E (fun _ => False) (fun a b => f a = g b) x y) :
    x.toOption.map f = y.toOption.map g := by
  cases h with
  | ok h => exact congrArg some h
  | error h => rfl
  | stopped h => exact h.elim

end Agree

end Outcomes

namespace Tracked

/-- The outcomes agree, and the states stay related. -/
def Alike {σ τ ε δ α β : Type} {r : σ → σ → Prop} {q : τ → τ → Prop} (S : σ → τ → Prop)
    (E : ε → δ → Prop) (stop : ε → Prop) (R : α → β → Prop) (m : Tracked r ε α)
    (n : Tracked q δ β) : Prop :=
  ∀ s t, S s t → Agree E stop (fun a b => R a.1 b.1 ∧ S a.2 b.2) (m.run s) (n.run t)

namespace Alike

variable {σ τ ε δ α β α' β' : Type} {r : σ → σ → Prop} {q : τ → τ → Prop}
  {S : σ → τ → Prop} {E : ε → δ → Prop} {stop : ε → Prop} {R : α → β → Prop} {Q : α' → β' → Prop}

theorem weaken {m : Tracked r ε α} {n : Tracked q δ β} {R' : α → β → Prop}
    (h : m.Alike S E stop R n) (le : ∀ a b, R a b → R' a b) : m.Alike S E stop R' n :=
  fun s t same => (h s t same).weaken fun _ _ p => ⟨le _ _ p.1, p.2⟩

theorem throw {e : ε} {d : δ} (h : E e d) :
    (Tracked.throw e : Tracked r ε α).Alike S E stop R (Tracked.throw d : Tracked q δ β) :=
  fun _ _ _ => .error h

variable [IsPreorder σ r] [IsPreorder τ q]

theorem pure {a : α} {b : β} (h : R a b) :
    (Pure.pure a : Tracked r ε α).Alike S E stop R (Pure.pure b : Tracked q δ β) :=
  fun _ _ same => .ok ⟨h, same⟩

theorem bind {m : Tracked r ε α} {n : Tracked q δ β} {f : α → Tracked r ε α'}
    {g : β → Tracked q δ β'} (h : m.Alike S E stop R n)
    (k : ∀ a b, R a b → (f a).Alike S E stop Q (g b)) :
    (m >>= f).Alike S E stop Q (n >>= g) := by
  intro s t same
  have agree := h s t same
  rw [run_bind, run_bind]
  generalize m.run s = x at agree ⊢
  generalize n.run t = y at agree ⊢
  cases agree with
  | ok h => exact k _ _ h.1 _ _ h.2
  | error h => exact .error h
  | stopped h => exact .stopped h

theorem next {m : Tracked r ε α} {n : Tracked q δ α} {f : α → Tracked r ε α'}
    {g : α → Tracked q δ β'} (h : m.Alike S E stop Eq n)
    (k : ∀ a, (f a).Alike S E stop Q (g a)) : (m >>= f).Alike S E stop Q (n >>= g) := by
  refine h.bind ?_
  rintro a _ rfl
  exact k a

theorem ofExcept {x : Except ε α} {y : Except δ β} (h : Agree E stop R x y) :
    (Tracked.ofExcept x : Tracked r ε α).Alike S E stop R (Tracked.ofExcept y : Tracked q δ β) := by
  intro s t same
  cases h with
  | ok h => exact .ok ⟨h, same⟩
  | error h => exact .error h
  | stopped h => exact .stopped h

theorem mapM {γ ξ : Type} {f : γ → Tracked r ε α} {g : ξ → Tracked q δ β} {xs : List γ}
    {ys : List ξ} (h : List.Forall₂ (fun x y => (f x).Alike S E stop R (g y)) xs ys) :
    (xs.mapM f).Alike S E stop (List.Forall₂ R) (ys.mapM g) := by
  induction h with
  | nil => exact .pure .nil
  | cons first _ ih =>
    rw [List.mapM_cons, List.mapM_cons]
    exact .bind first fun _ _ hab => .bind ih fun _ _ habs => .pure (.cons hab habs)

theorem mapM_map {γ ξ : Type} {f : γ → Tracked r ε α} {g : ξ → Tracked q δ α} {k : γ → ξ}
    (xs : List γ) (h : ∀ x ∈ xs, (f x).Alike S E stop Eq (g (k x))) :
    (xs.mapM f).Alike S E stop Eq ((xs.map k).mapM g) := by
  refine (mapM (List.forall₂_map_right_iff.mpr (List.forall₂_same.mpr h))).weaken ?_
  intro a b same
  rwa [List.forall₂_eq_eq_eq] at same

end Alike

end Tracked
