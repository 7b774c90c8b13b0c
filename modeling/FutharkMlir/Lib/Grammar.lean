import Mathlib.Algebra.BigOperators.Group.List.Basic
import Mathlib.Tactic.Ring

/-! Grammars in extended Backus-Naur form, the trees a parser builds for them, and what every
sentence keeps of the rules. A grammar sees only the kind of a token; a node carries the class
of the alternative it was built for. -/

/-- What a rule may stand for, over kinds of tokens and rules. -/
inductive Ebnf (κ ρ : Type) where
  | token (k : κ)
  | rule (r : ρ)
  | empty
  | seq (a b : Ebnf κ ρ)
  | alt (a b : Ebnf κ ρ)
  | opt (a : Ebnf κ ρ)
  | star (a : Ebnf κ ρ)

inductive ParseTree (τ γ : Type) where
  | leaf (tok : τ)
  | node (ctx : γ) (children : List (ParseTree τ γ))

namespace Ebnf

variable {κ ρ τ γ : Type}

def seqs : List (Ebnf κ ρ) → Ebnf κ ρ
  | [] => .empty
  | a :: rest => .seq a (seqs rest)

def plus (a : Ebnf κ ρ) : Ebnf κ ρ := .seq a (.star a)

def sepBy (a s : Ebnf κ ρ) : Ebnf κ ρ := .seq a (.star (.seq s a))

/-- The forests that an expression derives, where each rule has its alternatives. -/
inductive Derives (kind : τ → κ) (G : ρ → List (γ × Ebnf κ ρ)) :
    Ebnf κ ρ → List (ParseTree τ γ) → Prop where
  | token (tok : τ) : Derives kind G (.token (kind tok)) [.leaf tok]
  | rule {r : ρ} {ctx : γ} {body : Ebnf κ ρ} {ts : List (ParseTree τ γ)} :
      (ctx, body) ∈ G r → Derives kind G body ts → Derives kind G (.rule r) [.node ctx ts]
  | empty : Derives kind G .empty []
  | seq {a b : Ebnf κ ρ} {ts us : List (ParseTree τ γ)} :
      Derives kind G a ts → Derives kind G b us → Derives kind G (.seq a b) (ts ++ us)
  | left {a b : Ebnf κ ρ} {ts : List (ParseTree τ γ)} :
      Derives kind G a ts → Derives kind G (.alt a b) ts
  | right {a b : Ebnf κ ρ} {ts : List (ParseTree τ γ)} :
      Derives kind G b ts → Derives kind G (.alt a b) ts
  | absent {a : Ebnf κ ρ} : Derives kind G (.opt a) []
  | present {a : Ebnf κ ρ} {ts : List (ParseTree τ γ)} :
      Derives kind G a ts → Derives kind G (.opt a) ts
  | done {a : Ebnf κ ρ} : Derives kind G (.star a) []
  | more {a : Ebnf κ ρ} {ts us : List (ParseTree τ γ)} :
      Derives kind G a ts → Derives kind G (.star a) us → Derives kind G (.star a) (ts ++ us)

end Ebnf

namespace ParseTree

variable {τ γ : Type}

mutual

def yield : ParseTree τ γ → List τ
  | .leaf tok => [tok]
  | .node _ ts => yields ts

def yields : List (ParseTree τ γ) → List τ
  | [] => []
  | t :: ts => yield t ++ yields ts

end

@[simp] theorem yields_append (ts us : List (ParseTree τ γ)) :
    yields (ts ++ us) = yields ts ++ yields us := by
  induction ts with
  | nil => rfl
  | cons t ts ih => simp [yields, ih]

end ParseTree

namespace Ebnf

variable {κ ρ τ γ : Type}

def Sentence (kind : τ → κ) (G : ρ → List (γ × Ebnf κ ρ)) (start : ρ) (toks : List τ) : Prop :=
  ∃ ts, Derives kind G (.rule start) ts ∧ ParseTree.yields ts = toks

/-- The weight of everything that an expression stands for, if the rules weigh nothing and its
alternatives agree. -/
def weigh (w : κ → Int) : Ebnf κ ρ → Option Int
  | .token k => some (w k)
  | .rule _ => some 0
  | .empty => some 0
  | .seq a b => do return (← a.weigh w) + (← b.weigh w)
  | .alt a b => if a.weigh w = b.weigh w then a.weigh w else none
  | .opt a => if a.weigh w = some 0 then some 0 else none
  | .star a => if a.weigh w = some 0 then some 0 else none

def Balanced (w : κ → Int) (G : ρ → List (γ × Ebnf κ ρ)) : Prop :=
  ∀ r ctx body, (ctx, body) ∈ G r → body.weigh w = some 0

theorem Derives.weight {kind : τ → κ} {G : ρ → List (γ × Ebnf κ ρ)} {w : κ → Int}
    (balanced : Balanced w G) {e : Ebnf κ ρ} {ts : List (ParseTree τ γ)}
    (h : Derives kind G e ts) {n : Int} (weighs : e.weigh w = some n) :
    ((ParseTree.yields ts).map fun tok => w (kind tok)).sum = n := by
  induction h generalizing n with
  | token tok =>
    cases weighs
    simp [ParseTree.yields, ParseTree.yield]
  | rule member _ ih =>
    cases weighs
    simpa [ParseTree.yields, ParseTree.yield] using ih (balanced _ _ _ member)
  | empty =>
    cases weighs
    rfl
  | @seq a b ts us _ _ iha ihb =>
    obtain ⟨m, ha, rest⟩ := Option.bind_eq_some_iff.mp weighs
    obtain ⟨k, hb, sum⟩ := Option.bind_eq_some_iff.mp rest
    cases sum
    simp [iha ha, ihb hb]
  | left _ ih =>
    unfold weigh at weighs
    split at weighs
    · exact ih weighs
    · cases weighs
  | right _ ih =>
    unfold weigh at weighs
    split at weighs
    · next same => exact ih (same ▸ weighs)
    · cases weighs
  | absent =>
    unfold weigh at weighs
    split at weighs
    · cases weighs
      rfl
    · cases weighs
  | present _ ih =>
    unfold weigh at weighs
    split at weighs
    · next zero =>
      cases weighs
      exact ih zero
    · cases weighs
  | done =>
    unfold weigh at weighs
    split at weighs
    · cases weighs
      rfl
    · cases weighs
  | more _ _ iha ihb =>
    have whole := weighs
    unfold weigh at weighs
    split at weighs
    · next zero =>
      cases weighs
      simp [iha zero, ihb whole]
    · cases weighs

/-- Every sentence of a balanced grammar weighs nothing. -/
theorem Sentence.weight {kind : τ → κ} {G : ρ → List (γ × Ebnf κ ρ)} {w : κ → Int}
    (balanced : Balanced w G) {start : ρ} {toks : List τ} (h : Sentence kind G start toks) :
    (toks.map fun tok => w (kind tok)).sum = 0 := by
  obtain ⟨ts, derives, rfl⟩ := h
  exact derives.weight balanced rfl

theorem Sentence.tree {kind : τ → κ} {G : ρ → List (γ × Ebnf κ ρ)} {start : ρ} {toks : List τ}
    (h : Sentence kind G start toks) :
    ∃ t, Derives kind G (.rule start) [t] ∧ t.yield = toks := by
  obtain ⟨ts, derives, rfl⟩ := h
  cases derives with
  | @rule _ ctx _ ts member body =>
    exact ⟨.node ctx ts, .rule member body, by simp [ParseTree.yields]⟩

namespace Derives

variable {kind : τ → κ} {G : ρ → List (γ × Ebnf κ ρ)} {a s : Ebnf κ ρ} {as bs : List (Ebnf κ ρ)}
  {ts us : List (ParseTree τ γ)}

theorem last (h : Derives kind G a ts) : Derives kind G (.seqs [a]) ts := by
  have whole : Derives kind G (.seqs [a]) (ts ++ []) := .seq h .empty
  rwa [List.append_nil] at whole

theorem append (h : Derives kind G (.seqs as) ts) (k : Derives kind G (.seqs bs) us) :
    Derives kind G (.seqs (as ++ bs)) (ts ++ us) := by
  induction as generalizing ts with
  | nil =>
    cases h
    exact k
  | cons a as ih =>
    cases h with
    | seq first rest =>
      rw [List.append_assoc]
      exact .seq first (ih rest)

theorem many (tss : List (List (ParseTree τ γ))) (h : ∀ ts ∈ tss, Derives kind G a ts) :
    Derives kind G (.star a) tss.flatten := by
  induction tss with
  | nil => exact .done
  | cons ts tss ih =>
    obtain ⟨first, rest⟩ := List.forall_mem_cons.mp h
    exact .more first (ih rest)

end Derives

end Ebnf
