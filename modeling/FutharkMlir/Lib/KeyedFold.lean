import FutharkMlir.Lib.Option

/-! Folds whose steps each change a state at one key: what is read at a key afterwards is the
fold of the steps of that key. -/
namespace List

variable {ι κ σ β : Type} [DecidableEq κ] {Inv : σ → Prop} {Reads : σ → κ → β → Prop}
  {step : σ → ι → Option σ} {f : β → ι → Option β} {key : ι → κ}

/-- A step exists where the one on what is read at its key does, and reads at other keys are
not changed. -/
def StepsAt (Inv : σ → Prop) (Reads : σ → κ → β → Prop) (step : σ → ι → Option σ)
    (f : β → ι → Option β) (key : ι → κ) (l : List ι) : Prop :=
  ∀ i ∈ l, ∀ s b b', Inv s → Reads s (key i) b → f b i = some b' → ∃ s', step s i = some s' ∧
    Inv s' ∧ Reads s' (key i) b' ∧ ∀ q ≠ key i, ∀ c, Reads s q c → Reads s' q c

theorem filter_key_cons (key : ι → κ) (i : ι) (l : List ι) (q : κ) :
    (i :: l).filter (fun j => key j = q) =
      if key i = q then i :: l.filter (fun j => key j = q) else l.filter fun j => key j = q := by
  by_cases eq : key i = q
  · rw [filter_cons_of_pos (by simpa using eq), if_pos eq]
  · rw [filter_cons_of_neg (by simpa using eq), if_neg eq]

theorem foldlM_keyed {l : List ι} (h : StepsAt Inv Reads step f key l) {s : σ} (inv : Inv s)
    (defined : ∀ i ∈ l, ∃ b b', Reads s (key i) b ∧
      (l.filter fun j => key j = key i).foldlM f b = some b') :
    ∃ s', l.foldlM step s = some s' ∧ Inv s' ∧ ∀ q b b', Reads s q b →
      (l.filter fun j => key j = q).foldlM f b = some b' → Reads s' q b' := by
  induction l generalizing s with
  | nil =>
    refine ⟨s, rfl, inv, fun q b b' reads fold => ?_⟩
    cases fold
    exact reads
  | cons i l ih =>
    obtain ⟨b, b', reads, fold⟩ := defined i mem_cons_self
    rw [filter_key_cons, if_pos rfl, foldlM_cons] at fold
    obtain ⟨y, first, rest⟩ := Option.bind_eq_some_iff.mp fold
    obtain ⟨s₁, eq, inv₁, reads₁, frame⟩ := h i mem_cons_self s b y inv reads first
    have later : ∀ j ∈ l, ∃ b b', Reads s₁ (key j) b ∧
        (l.filter fun k => key k = key j).foldlM f b = some b' := by
      intro j hj
      by_cases same : key j = key i
      · rw [same]
        exact ⟨y, b', reads₁, rest⟩
      · obtain ⟨c, c', hc, fold⟩ := defined j (mem_cons_of_mem i hj)
        rw [filter_key_cons, if_neg (Ne.symm same)] at fold
        exact ⟨c, c', frame _ same c hc, fold⟩
    obtain ⟨s', folds, inv', holds⟩ :=
      ih (fun j hj => h j (mem_cons_of_mem i hj)) inv₁ later
    refine ⟨s', by rw [foldlM_cons, eq]; exact folds, inv', fun q c c' hc fold => ?_⟩
    rw [filter_key_cons] at fold
    by_cases same : key i = q
    · subst same
      rw [if_pos rfl, foldlM_cons] at fold
      obtain ⟨z, hz, fold⟩ := Option.bind_eq_some_iff.mp fold
      obtain ⟨s₂, eq₂, _, reads₂, _⟩ := h i mem_cons_self s c z inv hc hz
      cases eq.symm.trans eq₂
      exact holds _ z c' reads₂ fold
    · rw [if_neg same] at fold
      exact holds q c c' (frame q (Ne.symm same) c hc) fold

/-- Steps that may change places can be taken in any order. -/
theorem foldlM_perm {P : σ → Prop} {step : σ → ι → Option σ} {l l' : List ι} (perm : l.Perm l')
    (closed : ∀ i ∈ l, ∀ s s', P s → step s i = some s' → P s')
    (swap : ∀ i ∈ l, ∀ j ∈ l, ∀ s, P s →
      (step s i).bind (step · j) = (step s j).bind (step · i)) {s : σ} (hs : P s) :
    l.foldlM step s = l'.foldlM step s := by
  induction perm generalizing s with
  | nil => rfl
  | cons i _ ih =>
    rw [foldlM_cons, foldlM_cons]
    cases first : step s i with
    | none => rfl
    | some t =>
      exact ih (fun j hj => closed j (mem_cons_of_mem i hj))
        (fun j hj k hk => swap j (mem_cons_of_mem i hj) k (mem_cons_of_mem i hk))
        (closed i mem_cons_self s t hs first)
  | swap i j l =>
    have two := swap j mem_cons_self i (mem_cons_of_mem j mem_cons_self) s hs
    simp only [foldlM_cons, Option.bind_eq_bind, ← Option.bind_assoc]
    rw [two]
  | trans first _ ih₁ ih₂ =>
    rw [ih₁ closed swap hs]
    exact ih₂ (fun i hi => closed i (first.mem_iff.mpr hi))
      (fun i hi j hj => swap i (first.mem_iff.mpr hi) j (first.mem_iff.mpr hj)) hs

end List
