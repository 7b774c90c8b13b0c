import FutharkMlir.Compiler.Function
import FutharkMlir.Syntax.Recovery

/-! `ParseFuthark`: the visitor on the tree of the generated lexer and parser, which are taken
as they come. What becomes of a text outside the grammar. -/
namespace FutharkMlir

/-- The generated lexer, and the generated parser from `root`: a tree, and how many syntax
errors were printed. -/
structure Antlr where
  tokens : Text → List Token
  root : List Token → Visitor.Node × Nat

/-- With the default strategy the parser recovers from every error, and counts none exactly for
the sentences of the grammar, whose trees are derivations. -/
structure Antlr.Documented (p : Antlr) : Prop where
  counts : ∀ toks, (p.root toks).2 = 0 ↔ Grammar.Derivable toks
  derives : ∀ toks, Grammar.Derivable toks →
    Ebnf.Derives Token.kind Grammar.rules (.rule .root) [(p.root toks).1] ∧
      (p.root toks).1.yield = toks

def Antlr.tree (p : Antlr) (text : Text) : Visitor.Node := (p.root (p.tokens text)).1

def parseFuthark (p : Antlr) (conv : FloatConv) (text : Text) : Except Err Prog :=
  Visitor.visitProg conv (p.tree text)

/-- `main`, on a file that is found: the module it prints. -/
def mainModule (p : Antlr) (conv : FloatConv) (cfg : Config) (fuel : Nat) (text : Text) :
    Except Stop (List FuncOp) :=
  match parseFuthark p conv text with
  | .ok prog => compile cfg prog fuel
  | .error e => .error (.thrown e)

/-- Every text outside the grammar makes `ParseFuthark` throw. -/
def RefusesOutside (p : Antlr) (conv : FloatConv) : Prop :=
  ∀ text, ¬ Grammar.Derivable (p.tokens text) →
    ∃ e, parseFuthark p conv text = .error e ∧ e ≠ .ub

/-- A text whose tree is that of another with tokens thrown in that are not read is compiled as
that other, outside the grammar or not and however many errors were counted. -/
theorem parseFuthark_outside {p q : Antlr} (conv : FloatConv) {text inside : Text}
    (alike : Visitor.Alike (p.tree text) (q.tree inside)) :
    parseFuthark p conv text = parseFuthark q conv inside ∧
      ∀ cfg fuel, mainModule p conv cfg fuel text = mainModule q conv cfg fuel inside := by
  have same : parseFuthark p conv text = parseFuthark q conv inside :=
    Visitor.visitProg_alike alike
  constructor
  · exact same
  · intro cfg fuel
    rw [mainModule, same, mainModule]

namespace Recovered

def lit (s : String) : Visitor.Node := .leaf ⟨.lit s, s.toList⟩

def word (k : Kind) (s : String) : Visitor.Node := .leaf ⟨k, s.toList⟩

def retType : Visitor.Node := .node ⟨.pType, .typePrim⟩
  [.node ⟨.pPrimType, .primTypeInteger⟩ [word .integerType "i64"]]

def one : Visitor.Node := .node ⟨.pSubExp, .constantSubExpression⟩
  [.node ⟨.pPrimValue, .primValueInteger⟩ [word .number "1", word .integerType "i64"]]

def body : Visitor.Node := .node ⟨.pBody, .emptyBody⟩ [lit "\x7b", one, lit "\x7d"]

def function : Visitor.Node := .node ⟨.pFunDef, .none⟩
  [lit "fun", word .id "f", lit "(", lit ")", lit ":", lit "\x7b", retType, lit "\x7d", lit "=",
    lit "\x7b", body, lit "\x7d"]

def eof : Visitor.Node := .leaf ⟨.eof, []⟩

/-- `fun f () : \x7bi64\x7d = \x7b\x7b1i64\x7d\x7d`. -/
def goodTree : Visitor.Node := .node ⟨.root, .none⟩ [function, eof]

/-- With `)` behind it, which the parser skips as an error. -/
def badTree : Visitor.Node := .node ⟨.root, .none⟩ [function, lit ")", eof]

theorem alike : Visitor.Alike badTree goodTree :=
  .node rfl (.cons (.same _) (.skip rfl (.refl _)))

def prog : Prog where
  consts := []
  funs := [{ entry := false, attrs := [], name := "f", retType := [.prim (.int .int64)],
             params := [], body := .mk [] [.const (.createInt 1 64)] }]

theorem visit_bad (conv : FloatConv) : Visitor.visitProg conv badTree = .ok prog := rfl

theorem bad_outside : ¬ Grammar.Derivable badTree.yield := by
  intro derivable
  exact absurd derivable.balanced (by decide +kernel)

abbrev Der (e : PExpr) (ts : List Visitor.Node) : Prop := Ebnf.Derives Token.kind Grammar.rules e ts

theorem der_lit (t : String) : Der (Grammar.lit t) [lit t] := .token (⟨.lit t, t.toList⟩ : Token)

theorem der_word (k : Kind) (t : String) : Der (.token k) [word k t] := .token (⟨k, t.toList⟩ : Token)

theorem der_one : Der (.rule .pSubExp) [one] :=
  .rule (.head _) (.rule (.head _) (.seq (der_word .number "1") (der_word .integerType "i64")))

theorem der_retType : Der (.rule .pType) [retType] :=
  .rule (.tail _ (.head _)) (.seq (.rule (.head _) (der_word .integerType "i64"))
    (.seq .absent .empty))

theorem der_braced {a : PExpr} {t : Visitor.Node} (h : Der a [t]) :
    Der (Grammar.braced [a]) [lit "\x7b", t, lit "\x7d"] :=
  .seq (der_lit _) (.seq h (.seq (der_lit _) .empty))

theorem der_body : Der (.rule .pBody) [body] :=
  .rule (.tail _ (.head _)) (der_braced (.seq der_one .done))

theorem der_function : Der (.rule .pFunDef) [function] := by
  have params : Der (Grammar.parens [Grammar.looseList (.rule .fParam)]) [lit "(", lit ")"] :=
    .seq (der_lit _) (.seq (.seq .absent .done) (.seq (der_lit _) .empty))
  have types : Der (Grammar.braced [.sepBy (.seq (.opt (Grammar.lit "*")) (.rule .pType))
      Grammar.comma]) [lit "\x7b", retType, lit "\x7d"] :=
    der_braced (.seq (.seq .absent der_retType) .done)
  exact .rule (.head _) (.seq .done (.seq (.right (der_lit _)) (.seq (der_word .id "f")
    (.seq params (.seq (der_lit _) (.seq types (.seq (der_lit _)
      (.seq (der_braced der_body) .empty))))))))

theorem der_good : Der (.rule .root) [goodTree] :=
  .rule (.head _) (.seq .absent (.seq .done (.seq (.seq der_function .done)
    (.seq (.token (⟨.eof, []⟩ : Token)) .empty))))

theorem good_inside : Grammar.Derivable goodTree.yield :=
  ⟨[goodTree], der_good, by simp [ParseTree.yields]⟩

def goodText : Text := "fun f () : \x7bi64\x7d = \x7b\x7b1i64\x7d\x7d".toList

def badText : Text := goodText ++ [')']

open Classical in
/-- A parser that recovers from the parenthesis as the generated one does, and has a derivation
for every other sentence. -/
noncomputable def antlr : Antlr where
  tokens text := if text = badText then badTree.yield else goodTree.yield
  root toks :=
    if toks = badTree.yield then (badTree, 1)
    else if toks = goodTree.yield then (goodTree, 0)
    else if h : Grammar.Derivable toks then ((Ebnf.Sentence.tree h).choose, 0)
    else (.node ⟨.root, .none⟩ [], 1)

theorem good_ne_bad : goodTree.yield ≠ badTree.yield := by
  intro same
  have length := congrArg List.length same
  revert length
  decide +kernel

theorem antlr_bad : antlr.tree badText = badTree := by
  simp [Antlr.tree, antlr]

theorem antlr_good : antlr.tree goodText = goodTree := by
  have other : goodText ≠ badText := by simp [badText]
  simp [Antlr.tree, antlr, other, good_ne_bad]

theorem antlr_documented : antlr.Documented := by
  constructor
  · intro toks
    unfold antlr
    dsimp only
    split
    · next eq =>
      subst eq
      simp [bad_outside]
    · split
      · next eq =>
        subst eq
        simp [good_inside]
      · split
        · next h => simp [h]
        · next h => simp [h]
  · intro toks derivable
    unfold antlr
    dsimp only
    split
    · next eq =>
      subst eq
      exact (bad_outside derivable).elim
    · split
      · next eq =>
        subst eq
        exact ⟨der_good, rfl⟩
      · exact (Ebnf.Sentence.tree derivable).choose_spec

end Recovered

open Recovered in
/-- A parenthesis too many at the end of the text goes unnoticed. -/
theorem parseFuthark_parenthesis : ¬ ∀ (p : Antlr) (conv : FloatConv), p.Documented →
    RefusesOutside p conv := by
  intro all
  have tokens : antlr.tokens badText = badTree.yield := by simp [antlr]
  obtain ⟨e, throws, _⟩ := all antlr ⟨fun _ => .error .ub, id⟩ antlr_documented badText
    (tokens ▸ bad_outside)
  rw [parseFuthark, antlr_bad, visit_bad] at throws
  cases throws

open Recovered in
theorem parseFuthark_outside_parenthesis : ¬ Grammar.Derivable (antlr.tokens badText) ∧
    parseFuthark antlr ⟨fun _ => .error .ub, id⟩ badText =
      parseFuthark antlr ⟨fun _ => .error .ub, id⟩ goodText := by
  have tokens : antlr.tokens badText = badTree.yield := by simp [antlr]
  have recovered : Visitor.Alike (antlr.tree badText) (antlr.tree goodText) := by
    rw [antlr_bad, antlr_good]
    exact alike
  constructor
  · exact tokens ▸ bad_outside
  · exact (parseFuthark_outside _ recovered).1

end FutharkMlir
