import Mathlib.Data.List.Forall2

namespace List

variable {α β γ : Type} {R S : α → β → γ → Prop} {xs : List α} {ys : List β} {zs : List γ}

inductive Forall₃ (R : α → β → γ → Prop) : List α → List β → List γ → Prop where
  | nil : Forall₃ R [] [] []
  | cons {x : α} {y : β} {z : γ} {xs : List α} {ys : List β} {zs : List γ} (head : R x y z)
      (tail : Forall₃ R xs ys zs) : Forall₃ R (x :: xs) (y :: ys) (z :: zs)

namespace Forall₃

theorem imp (h : Forall₃ R xs ys zs) (le : ∀ x y z, R x y z → S x y z) : Forall₃ S xs ys zs := by
  induction h with
  | nil => exact .nil
  | cons head _ ih => exact .cons (le _ _ _ head) ih

theorem length₁₂ (h : Forall₃ R xs ys zs) : xs.length = ys.length := by
  induction h with
  | nil => rfl
  | cons _ _ ih => exact congrArg (· + 1) ih

theorem of_both {P : α → β → Prop} {Q : α → γ → Prop} (h : Forall₂ P xs ys) (h' : Forall₂ Q xs zs) :
    Forall₃ (fun x y z => P x y ∧ Q x z) xs ys zs := by
  induction h generalizing zs with
  | nil =>
    cases h'
    exact .nil
  | cons hp _ ih =>
    cases h' with
    | cons hq hqs => exact .cons ⟨hp, hq⟩ (ih hqs)

theorem fst {P : α → β → Prop} (h : Forall₃ R xs ys zs) (le : ∀ x y z, R x y z → P x y) :
    Forall₂ P xs ys := by
  induction h with
  | nil => exact .nil
  | cons head _ ih => exact .cons (le _ _ _ head) ih

theorem snd {Q : α → γ → Prop} (h : Forall₃ R xs ys zs) (le : ∀ x y z, R x y z → Q x z) :
    Forall₂ Q xs zs := by
  induction h with
  | nil => exact .nil
  | cons head _ ih => exact .cons (le _ _ _ head) ih

end Forall₃

end List
