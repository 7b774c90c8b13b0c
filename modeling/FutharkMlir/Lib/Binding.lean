import FutharkMlir.Lib.Option

abbrev Binding (κ β : Type) := κ → Option β

namespace Binding

variable {κ β : Type}

def empty : Binding κ β := fun _ => none

section Insert

variable [DecidableEq κ]

def insert (m : Binding κ β) (k : κ) (x : β) : Binding κ β :=
  fun j => if j = k then some x else m j

def bind (m : Binding κ β) : List κ → List β → Option (Binding κ β)
  | [], [] => some m
  | k :: ks, x :: xs => bind (m.insert k x) ks xs
  | _, _ => none

@[simp] theorem insert_self (m : Binding κ β) (k : κ) (x : β) : m.insert k x k = some x := by
  simp [insert]

theorem insert_of_ne (m : Binding κ β) {k j : κ} (x : β) (h : j ≠ k) :
    m.insert k x j = m j := by
  simp [insert, h]

theorem bind_exists (m : Binding κ β) {ks : List κ} {xs : List β} (h : ks.length = xs.length) :
    ∃ m', m.bind ks xs = some m' := by
  induction ks generalizing m xs with
  | nil =>
    cases xs with
    | nil => exact ⟨m, rfl⟩
    | cons x xs => cases h
  | cons k ks ih =>
    cases xs with
    | nil => cases h
    | cons x xs => exact ih (m.insert k x) (Nat.succ.inj h)

theorem bind_of_not_mem {m m' : Binding κ β} {ks : List κ} {xs : List β}
    (h : m.bind ks xs = some m') {k : κ} (new : k ∉ ks) : m' k = m k := by
  induction ks generalizing m xs with
  | nil =>
    cases xs with
    | nil =>
      cases h
      rfl
    | cons x xs => cases h
  | cons j ks ih =>
    cases xs with
    | nil => cases h
    | cons x xs =>
      rw [List.mem_cons, not_or] at new
      rw [ih h new.2, insert_of_ne _ _ new.1]

theorem bind_mapM {m m' : Binding κ β} {ks : List κ} {xs : List β}
    (h : m.bind ks xs = some m') (nodup : ks.Nodup) : ks.mapM m' = some xs := by
  induction ks generalizing m xs with
  | nil =>
    cases xs with
    | nil => rfl
    | cons x xs => cases h
  | cons k ks ih =>
    cases xs with
    | nil => cases h
    | cons x xs =>
      rw [List.nodup_cons] at nodup
      have rest : (m.insert k x).bind ks xs = some m' := h
      rw [List.mapM_cons, bind_of_not_mem rest nodup.1, insert_self, ih rest nodup.2]
      rfl

/-- What is bound is an old value or one of the new ones at its name. -/
theorem bind_some {m m' : Binding κ β} {ks : List κ} {xs : List β}
    (h : m.bind ks xs = some m') {k : κ} {x : β} (bound : m' k = some x) :
    (k, x) ∈ ks.zip xs ∨ k ∉ ks ∧ m k = some x := by
  induction ks generalizing m xs with
  | nil =>
    cases xs with
    | nil =>
      cases h
      exact .inr ⟨List.not_mem_nil, bound⟩
    | cons x xs => cases h
  | cons j ks ih =>
    cases xs with
    | nil => cases h
    | cons y xs =>
      rcases ih h with later | ⟨new, old⟩
      · exact .inl (List.mem_cons_of_mem _ later)
      · by_cases eq : k = j
        · rw [eq, insert_self] at old
          cases old
          exact .inl (by simp [eq])
        · rw [insert_of_ne _ _ eq] at old
          exact .inr ⟨by simp [eq, new], old⟩

theorem bind_covers {γ : Type} {m m' : Binding κ β} {n n' : Binding κ γ}
    (h : ∀ k, m k ≠ none → n k ≠ none) {ks : List κ} {xs : List β} {ys : List γ}
    (bound : m.bind ks xs = some m') (bound' : n.bind ks ys = some n') :
    ∀ k, m' k ≠ none → n' k ≠ none := by
  induction ks generalizing m n xs ys with
  | nil =>
    cases xs with
    | nil =>
      cases ys with
      | nil =>
        cases bound
        cases bound'
        exact h
      | cons y ys => cases bound'
    | cons x xs => cases bound
  | cons k ks ih =>
    cases xs with
    | nil => cases bound
    | cons x xs =>
      cases ys with
      | nil => cases bound'
      | cons y ys =>
        refine ih (fun j hj => ?_) bound bound'
        by_cases eq : j = k
        · rw [eq, insert_self]
          exact Option.some_ne_none y
        · rw [insert_of_ne _ _ eq] at hj ⊢
          exact h j hj

end Insert

/-- Everything bound in `m` is bound to the same in `m'`. -/
def Sub (m m' : Binding κ β) : Prop := ∀ k x, m k = some x → m' k = some x

namespace Sub

theorem refl (m : Binding κ β) : m.Sub m := fun _ _ h => h

theorem trans {m m' m'' : Binding κ β} (h : m.Sub m') (k : m'.Sub m'') : m.Sub m'' :=
  fun j x hj => k j x (h j x hj)

theorem mapM {m m' : Binding κ β} (h : m.Sub m') {ks : List κ} {xs : List β}
    (bound : ks.mapM m = some xs) : ks.mapM m' = some xs := by
  rw [List.mapM_eq_some] at bound ⊢
  exact bound.imp fun k x hx => h k x hx

variable [DecidableEq κ]

theorem insert {m : Binding κ β} {k : κ} (new : m k = none) (x : β) : m.Sub (m.insert k x) := by
  intro j y h
  have ne : j ≠ k := by
    rintro rfl
    rw [new] at h
    cases h
  rw [insert_of_ne _ _ ne, h]

theorem bind {m m' : Binding κ β} {ks : List κ} {xs : List β} (h : m.bind ks xs = some m')
    (new : ∀ k ∈ ks, m k = none) : m.Sub m' := by
  intro j y old
  have ne : j ∉ ks := by
    intro member
    rw [new j member] at old
    cases old
  rw [bind_of_not_mem h ne, old]

end Sub

end Binding
