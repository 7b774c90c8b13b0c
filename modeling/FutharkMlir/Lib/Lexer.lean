import Mathlib.Data.List.Dedup

/-! Lexers: regular expressions by their derivatives, the longest match of a list of rules, and
the texts that are read back word for word. -/

/-- A class is given by its ranges. -/
inductive Regex (α : Type) where
  | never
  | empty
  | cls (ranges : List (α × α))
  | seq (a b : Regex α)
  | alt (a b : Regex α)
  | star (a : Regex α)
  deriving DecidableEq

namespace Regex

variable {α : Type} [LE α] [DecidableLE α]

def char (c : α) : Regex α := .cls [(c, c)]

def word : List α → Regex α
  | [] => .empty
  | c :: w => .seq (.char c) (word w)

def opt (a : Regex α) : Regex α := .alt .empty a

def plus (a : Regex α) : Regex α := .seq a (.star a)

def alts (rs : List (Regex α)) : Regex α := rs.foldr .alt .never

def seqs (rs : List (Regex α)) : Regex α := rs.foldr .seq .empty

def nullable : Regex α → Bool
  | .never => false
  | .empty => true
  | .cls _ => false
  | .seq a b => a.nullable && b.nullable
  | .alt a b => a.nullable || b.nullable
  | .star _ => true

/-- A sequence without parts that match nothing or just the empty word. -/
def andThen : Regex α → Regex α → Regex α
  | .never, _ => .never
  | .empty, b => b
  | a, b => .seq a b

def orElse : Regex α → Regex α → Regex α
  | .never, b => b
  | a, .never => a
  | a, b => .alt a b

def deriv (c : α) : Regex α → Regex α
  | .never => .never
  | .empty => .never
  | .cls ranges =>
    if ranges.any fun r => decide (r.1 ≤ c) && decide (c ≤ r.2) then .empty else .never
  | .seq a b =>
    if a.nullable then ((deriv c a).andThen b).orElse (deriv c b) else (deriv c a).andThen b
  | .alt a b => (deriv c a).orElse (deriv c b)
  | .star a => (deriv c a).andThen (.star a)

def avoids (c : α) : Regex α → Bool
  | .never => true
  | .empty => true
  | .cls ranges => !ranges.any fun r => decide (r.1 ≤ c) && decide (c ≤ r.2)
  | .seq a b => a.avoids c && b.avoids c
  | .alt a b => a.avoids c && b.avoids c
  | .star a => a.avoids c

theorem andThen_avoids {c : α} {a b : Regex α} (ha : a.avoids c = true) (hb : b.avoids c = true) :
    (a.andThen b).avoids c = true := by
  cases a with
  | never => rfl
  | empty => exact hb
  | _ => exact Bool.and_eq_true_iff.mpr ⟨ha, hb⟩

theorem orElse_avoids {c : α} {a b : Regex α} (ha : a.avoids c = true) (hb : b.avoids c = true) :
    (a.orElse b).avoids c = true := by
  have both := Bool.and_eq_true_iff.mpr ⟨ha, hb⟩
  cases a with
  | never => exact hb
  | _ => cases b <;> first | exact ha | exact both

/-- What is left to match has no classes of its own. -/
theorem deriv_avoids {c : α} (d : α) {r : Regex α} (h : r.avoids c = true) :
    (r.deriv d).avoids c = true := by
  induction r with
  | never => rfl
  | empty => rfl
  | cls ranges =>
    rw [deriv]
    split <;> rfl
  | seq a b iha ihb =>
    obtain ⟨ha, hb⟩ := Bool.and_eq_true_iff.mp h
    rw [deriv]
    split
    · exact orElse_avoids (andThen_avoids (iha ha) hb) (ihb hb)
    · exact andThen_avoids (iha ha) hb
  | alt a b iha ihb =>
    obtain ⟨ha, hb⟩ := Bool.and_eq_true_iff.mp h
    exact orElse_avoids (iha ha) (ihb hb)
  | star a ih => exact andThen_avoids (ih h) h

theorem deriv_avoided {c : α} {r : Regex α} (h : r.avoids c = true) : r.deriv c = .never := by
  induction r with
  | never => rfl
  | empty => rfl
  | cls ranges =>
    rw [avoids, Bool.not_eq_true'] at h
    rw [deriv, h, if_neg Bool.false_ne_true]
  | seq a b iha ihb =>
    obtain ⟨ha, hb⟩ := Bool.and_eq_true_iff.mp h
    rw [deriv, iha ha, ihb hb]
    split <;> rfl
  | alt a b iha ihb =>
    obtain ⟨ha, hb⟩ := Bool.and_eq_true_iff.mp h
    rw [deriv, iha ha, ihb hb]
    rfl
  | star a ih =>
    rw [deriv, ih h]
    rfl

end Regex

namespace Lexer

variable {α κ : Type} [LE α] [DecidableLE α]

/-- The rules after `c`, but those that match nothing any more. -/
def step (c : α) (rules : List (κ × Regex α)) : List (κ × Regex α) :=
  rules.filterMap fun rule => match rule.2.deriv c with
    | .never => none
    | r => some (rule.1, r)

def steps (rules : List (κ × Regex α)) (w : List α) : List (κ × Regex α) :=
  w.foldl (fun rules c => step c rules) rules

def matched (rules : List (κ × Regex α)) : Option κ :=
  (rules.find? fun rule => rule.2.nullable).map Prod.fst

/-- The longest match, and the first rule it is one of; `n` have been read before. -/
def munch (rules : List (κ × Regex α)) (best : Option (κ × Nat)) (n : Nat) :
    List α → Option (κ × Nat)
  | [] => best
  | c :: s =>
    if (step c rules).isEmpty then best
    else munch (step c rules) (((matched (step c rules)).map (·, n + 1)).or best) (n + 1) s

/-- The words of a text with their kinds, where the rules without a kind are skipped. -/
def lexFrom (rules : List (Option κ × Regex α)) : Nat → List α → Option (List (κ × List α))
  | _, [] => some []
  | 0, _ :: _ => none
  | fuel + 1, c :: s =>
    match munch rules none 0 (c :: s) with
    | none => none
    | some (kind, n) => do
      let rest ← lexFrom rules fuel ((c :: s).drop n)
      return match kind with
        | none => rest
        | some k => (k, (c :: s).take n) :: rest

def lex (rules : List (Option κ × Regex α)) (text : List α) : Option (List (κ × List α)) :=
  lexFrom rules text.length text

def write (sep : α) (words : List (κ × List α)) : List α := words.flatMap fun w => w.2 ++ [sep]

/-- The word is read as such, up to a separator at most, and is nothing a separator goes on
with. -/
structure Lexeme (rules : List (Option κ × Regex α)) (sep : α) (k : κ) (t : List α) : Prop where
  nonempty : t ≠ []
  reads : matched (steps rules t) = some (some k)
  ends : step sep (steps rules t) = []
  begins : ∀ c ∈ t.head?, step c (step sep rules) = []

instance [DecidableEq α] [DecidableEq κ] (rules : List (Option κ × Regex α)) (sep : α) (k : κ)
    (t : List α) : Decidable (Lexeme rules sep k t) :=
  decidable_of_iff (t ≠ [] ∧ matched (steps rules t) = some (some k) ∧
      step sep (steps rules t) = [] ∧ ∀ c ∈ t.head?, step c (step sep rules) = [])
    ⟨fun h => ⟨h.1, h.2.1, h.2.2.1, h.2.2.2⟩, fun h => ⟨h.nonempty, h.reads, h.ends, h.begins⟩⟩

theorem steps_append (rules : List (κ × Regex α)) (w t : List α) :
    steps rules (w ++ t) = steps (steps rules w) t := List.foldl_append

theorem steps_nil (t : List α) : steps ([] : List (κ × Regex α)) t = [] := by
  induction t with
  | nil => rfl
  | cons c t ih => exact ih

/-- The rules that are left are derivatives of some that were there. -/
theorem mem_step {c : α} {rules : List (κ × Regex α)} {rule : κ × Regex α} :
    rule ∈ step c rules ↔
      rule.2 ≠ .never ∧ ∃ old ∈ rules, old.1 = rule.1 ∧ old.2.deriv c = rule.2 := by
  rw [step, List.mem_filterMap]
  constructor
  · rintro ⟨old, member, h⟩
    split at h
    · cases h
    · cases h
      exact ⟨by assumption, old, member, rfl, rfl⟩
  · rintro ⟨live, old, member, kind, rest⟩
    refine ⟨old, member, ?_⟩
    rw [rest, kind]
    split
    · exact absurd ‹rule.2 = .never› live
    · rfl

theorem steps_kind {rules : List (κ × Regex α)} {w : List α} {rule : κ × Regex α}
    (h : rule ∈ steps rules w) : ∃ old ∈ rules, old.1 = rule.1 := by
  induction w generalizing rules with
  | nil => exact ⟨rule, h, rfl⟩
  | cons c w ih =>
    obtain ⟨next, member, kind⟩ := ih h
    obtain ⟨_, old, before, same, _⟩ := mem_step.mp member
    exact ⟨old, before, same.trans kind⟩

omit [LE α] [DecidableLE α] in
theorem matched_kind {rules : List (κ × Regex α)} {k : κ} (h : matched rules = some k) :
    ∃ rule ∈ rules, rule.1 = k := by
  obtain ⟨rule, found, kind⟩ := Option.map_eq_some_iff.mp h
  exact ⟨rule, List.mem_of_find?_eq_some found, kind⟩

theorem steps_avoid {c : α} {rules : List (κ × Regex α)}
    (h : ∀ rule ∈ rules, rule.2.avoids c = true) (w : List α) :
    ∀ rule ∈ steps rules w, rule.2.avoids c = true := by
  induction w generalizing rules with
  | nil => exact h
  | cons d w ih =>
    refine ih fun rule member => ?_
    obtain ⟨_, old, before, _, rest⟩ := mem_step.mp member
    exact rest ▸ Regex.deriv_avoids d (h old before)

theorem step_avoided {c : α} {rules : List (κ × Regex α)}
    (h : ∀ rule ∈ rules, rule.2.avoids c = true) : step c rules = [] := by
  refine List.eq_nil_iff_forall_not_mem.mpr fun rule member => ?_
  obtain ⟨live, old, before, _, rest⟩ := mem_step.mp member
  exact live (rest ▸ Regex.deriv_avoided (h old before))

/-- What the whole word matches is its longest match. -/
theorem munch_matched {rules : List (κ × Regex α)} {t : List α} {k : κ} (nonempty : t ≠ [])
    (reads : matched (steps rules t) = some k) (best : Option (κ × Nat)) (n : Nat) :
    munch rules best n t = some (k, n + t.length) := by
  induction t generalizing rules best n with
  | nil => exact absurd rfl nonempty
  | cons c t ih =>
    have live : (step c rules).isEmpty = false := by
      cases h : step c rules with
      | cons => rfl
      | nil =>
        rw [steps, List.foldl_cons, h] at reads
        cases (congrArg matched (steps_nil t)).symm.trans reads
    rw [munch, live]
    cases t with
    | nil =>
      have here : matched (step c rules) = some k := reads
      simp [munch, here]
    | cons d t =>
      have later := ih (List.cons_ne_nil d t) reads
        (((matched (step c rules)).map (·, n + 1)).or best) (n + 1)
      simpa [Nat.add_comm, Nat.add_left_comm] using later

theorem munch_ends {rules : List (κ × Regex α)} {t : List α} {b : α}
    (ends : step b (steps rules t) = []) (best : Option (κ × Nat)) (n : Nat) (rest : List α) :
    munch rules best n (t ++ b :: rest) = munch rules best n t := by
  induction t generalizing rules best n with
  | nil =>
    have none : step b rules = [] := ends
    simp [munch, none]
  | cons c t ih =>
    rw [List.cons_append, munch, munch]
    split
    · rfl
    · exact ih ends _ _

variable {rules : List (Option κ × Regex α)} {sep : α}

theorem lexFrom_word {k : κ} {t : List α} (h : Lexeme rules sep k t) (fuel : Nat)
    (rest : List α) : lexFrom rules (fuel + 1) (t ++ sep :: rest) =
      (lexFrom rules fuel (sep :: rest)).map ((k, t) :: ·) := by
  have reads : munch rules none 0 (t ++ sep :: rest) = some (some k, t.length) := by
    rw [munch_ends h.ends, munch_matched h.nonempty h.reads, Nat.zero_add]
  cases t with
  | nil => exact absurd rfl h.nonempty
  | cons c t =>
    rw [List.cons_append] at reads
    rw [List.cons_append, lexFrom, reads]
    have after : (c :: (t ++ sep :: rest)).drop (c :: t).length = sep :: rest := by simp
    have before : (c :: (t ++ sep :: rest)).take (c :: t).length = c :: t := by simp
    simp only [after, before]
    cases lexFrom rules fuel (sep :: rest) <;> rfl

theorem lexFrom_sep (skipped : munch rules none 0 [sep] = some (none, 1)) (fuel : Nat)
    {rest : List α} (begins : ∀ c ∈ rest.head?, step c (step sep rules) = []) :
    lexFrom rules (fuel + 1) (sep :: rest) = lexFrom rules fuel rest := by
  have reads : munch rules none 0 (sep :: rest) = some (none, 1) := by
    cases rest with
    | nil => exact skipped
    | cons c rest =>
      have ends : step c (steps rules [sep]) = [] := begins c rfl
      exact (munch_ends ends none 0 rest).trans skipped
  rw [lexFrom, reads]
  simp only [List.drop_succ_cons, List.drop_zero]
  cases lexFrom rules fuel rest <;> rfl

/-- Where no rule goes on with a separator after the first character, it is enough to know what
reads the whole word. -/
theorem Lexeme.of_matched {k : κ} {c : α} {t : List α}
    (avoid : ∀ rule ∈ step c rules, rule.2.avoids sep = true)
    (begins : step c (step sep rules) = [])
    (reads : matched (steps rules (c :: t)) = some (some k)) : Lexeme rules sep k (c :: t) where
  nonempty := List.cons_ne_nil c t
  reads := reads
  ends := step_avoided (steps_avoid avoid t)
  begins := by
    intro d head
    cases head
    exact begins

omit [LE α] [DecidableLE α] in
theorem write_cons (sep : α) (w : κ × List α) (words : List (κ × List α)) :
    write sep (w :: words) = w.2 ++ sep :: write sep words := by
  simp [write]

/-- No rule goes on from a separator into what is written next. -/
theorem write_begins {words : List (κ × List α)}
    (h : ∀ w ∈ words, Lexeme rules sep w.1 w.2) :
    ∀ c ∈ (write sep words).head?, step c (step sep rules) = [] := by
  cases words with
  | nil => exact nofun
  | cons w words =>
    have first := h w List.mem_cons_self
    intro c head
    rw [write_cons, List.head?_append_of_ne_nil _ first.nonempty] at head
    exact first.begins c head

/-- Words with separators in between are read back. -/
theorem lex_write (skipped : munch rules none 0 [sep] = some (none, 1)) {words : List (κ × List α)}
    (h : ∀ w ∈ words, Lexeme rules sep w.1 w.2) : lex rules (write sep words) = some words := by
  have enough : ∀ fuel, (write sep words).length ≤ fuel →
      lexFrom rules fuel (write sep words) = some words := by
    induction words with
    | nil =>
      intro fuel _
      cases fuel <;> rfl
    | cons w words ih =>
      intro fuel bound
      obtain ⟨first, others⟩ := List.forall_mem_cons.mp h
      have positive := List.length_pos_iff.mpr first.nonempty
      rw [write_cons, List.length_append, List.length_cons] at bound
      obtain ⟨more, rfl⟩ : ∃ more, fuel = more + 1 + 1 := ⟨fuel - 2, by omega⟩
      rw [write_cons, lexFrom_word first, lexFrom_sep skipped more (write_begins others),
        ih others more (by omega)]
      rfl
  exact enough _ (Nat.le_refl _)

section Stem

variable [DecidableEq α] [DecidableEq κ]

/-- The rules after a word and one or two of the characters. -/
def going (rules : List (κ × Regex α)) (cs w : List α) : List (List (κ × Regex α)) :=
  let once := (cs.map fun c => step c (steps rules w)).dedup
  (once ++ once.flatMap fun rules => cs.map fun c => step c rules).dedup

/-- However many of the characters come after the word, it is matched by the same rule. -/
structure Stem (rules : List (κ × Regex α)) (cs : List α) (k : κ) (w : List α) : Prop where
  reads : ∀ state ∈ going rules cs w, matched state = some k
  closed : ∀ state ∈ going rules cs w, ∀ c ∈ cs, step c state ∈ going rules cs w

instance (rules : List (κ × Regex α)) (cs : List α) (k : κ) (w : List α) :
    Decidable (Stem rules cs k w) :=
  decidable_of_iff (∀ state ∈ going rules cs w,
      matched state = some k ∧ ∀ c ∈ cs, step c state ∈ going rules cs w)
    ⟨fun h => ⟨fun s hs => (h s hs).1, fun s hs => (h s hs).2⟩,
      fun h s hs => ⟨h.reads s hs, h.closed s hs⟩⟩

theorem Stem.matched_append {rules : List (κ × Regex α)} {cs : List α} {k : κ} {w t : List α}
    (h : Stem rules cs k w) (nonempty : t ≠ []) (among : ∀ c ∈ t, c ∈ cs) :
    matched (steps rules (w ++ t)) = some k := by
  -- after the first of the characters, the rules are among those checked, and they stay there
  have stays : ∀ state ∈ going rules cs w, ∀ t : List α, (∀ c ∈ t, c ∈ cs) →
      steps state t ∈ going rules cs w := by
    intro state member t among
    induction t generalizing state with
    | nil => exact member
    | cons c t ih =>
      obtain ⟨first, rest⟩ := List.forall_mem_cons.mp among
      exact ih _ (h.closed state member c first) rest
  obtain ⟨c, t, rfl⟩ := List.exists_cons_of_ne_nil nonempty
  obtain ⟨first, rest⟩ := List.forall_mem_cons.mp among
  have once : step c (steps rules w) ∈ going rules cs w := by
    rw [going, List.mem_dedup, List.mem_append, List.mem_dedup]
    exact .inl (List.mem_map_of_mem first)
  rw [steps_append]
  exact h.reads _ (stays _ once t rest)

end Stem

end Lexer
