import FutharkMlir.Syntax.Unparse

namespace FutharkMlir.Unparse

open Visitor (Node)

abbrev Der (e : PExpr) (ts : List Node) : Prop := Ebnf.Derives Token.kind Grammar.rules e ts

theorem der_word (k : Kind) (text : Text) : Der (.token k) [word k text] :=
  .token (⟨k, text⟩ : Token)

theorem der_lit (s : String) : Der (Grammar.lit s) [lit s] := der_word _ _

theorem der_ident (x : String) : Der (.token .id) [ident x] := der_word _ _

theorem der_rule {r : Rule} {l : Label} {e : PExpr} {ts : List Node}
    (member : (l, e) ∈ Grammar.alternatives r) (h : Der e ts) : Der (.rule r) [rule r l ts] :=
  .rule (List.mem_map_of_mem member) h

section Lists

variable {a e : PExpr} {es : List PExpr} {ts us : List Node} {tss : List (List Node)}

theorem der_cons (h : Der e ts) (rest : Der (.seqs es) us) :
    Der (.seqs (e :: es)) (ts ++ us) := .seq h rest

theorem der_absent (rest : Der (.seqs es) us) : Der (.seqs (.opt e :: es)) us :=
  .seq .absent rest

theorem der_enclosed (o c : String) (h : Der (.seqs es) ts) :
    Der (.seqs (Grammar.lit o :: es ++ [Grammar.lit c])) (lit o :: (ts ++ [lit c])) :=
  .append (der_cons (der_lit o) h) (.last (der_lit c))

theorem der_braced (h : Der (.seqs es) ts) : Der (Grammar.braced es) (braced ts) :=
  der_enclosed _ _ h

theorem der_parens (h : Der (.seqs es) ts) : Der (Grammar.parens es) (parens ts) :=
  der_enclosed _ _ h

theorem der_bracketed (h : Der (.seqs es) ts) : Der (Grammar.bracketed es) (bracketed ts) :=
  der_enclosed _ _ h

theorem der_commas (h : ∀ ts ∈ tss, Der a ts) :
    Der (.star (.seq Grammar.comma a)) (tss.flatMap (lit "," :: ·)) := by
  refine .many (tss.map (lit "," :: ·)) fun ts member => ?_
  obtain ⟨us, hus, rfl⟩ := List.mem_map.mp member
  exact .seq (der_lit ",") (h us hus)

theorem der_sepBy (nonempty : tss ≠ []) (h : ∀ ts ∈ tss, Der a ts) :
    Der (.sepBy a Grammar.comma) (joined tss) := by
  cases tss with
  | nil => exact absurd rfl nonempty
  | cons ts tss =>
    obtain ⟨first, rest⟩ := List.forall_mem_cons.mp h
    exact .seq first (der_commas rest)

theorem der_looseList (h : ∀ ts ∈ tss, Der a ts) : Der (Grammar.looseList a) (joined tss) := by
  cases tss with
  | nil => exact .seq .absent .done
  | cons ts tss =>
    obtain ⟨first, rest⟩ := List.forall_mem_cons.mp h
    exact .seq (.present first) (der_commas rest)

theorem der_optList (h : ∀ ts ∈ tss, Der a ts) : Der (Grammar.optList a) (joined tss) := by
  cases tss with
  | nil => exact .absent
  | cons ts tss => exact .present (der_sepBy (List.cons_ne_nil _ _) h)

abbrev DerAll (a : PExpr) (ts : List Node) : Prop := ∀ t ∈ ts, Der a [t]

theorem DerAll.singles (h : DerAll a ts) : ∀ us ∈ ts.map (fun t => [t]), Der a us := by
  intro us member
  obtain ⟨t, ht, rfl⟩ := List.mem_map.mp member
  exact h t ht

theorem DerAll.many (h : DerAll a ts) : Der (.star a) ts := by
  have whole := Ebnf.Derives.many _ h.singles
  rwa [← List.flatMap_def, List.flatMap_singleton'] at whole

theorem DerAll.sepBy (nonempty : ts ≠ []) (h : DerAll a ts) :
    Der (.sepBy a Grammar.comma) (separated ts) :=
  der_sepBy (by simpa using nonempty) h.singles

theorem DerAll.looseList (h : DerAll a ts) : Der (Grammar.looseList a) (separated ts) :=
  der_looseList h.singles

theorem DerAll.optList (h : DerAll a ts) : Der (Grammar.optList a) (separated ts) :=
  der_optList h.singles

theorem DerAll.of_map {α : Type} {f : α → Node} {xs : List α} (h : ∀ x ∈ xs, Der a [f x]) :
    DerAll a (xs.map f) := by
  intro t member
  obtain ⟨x, hx, rfl⟩ := List.mem_map.mp member
  exact h x hx

end Lists

variable {conv : FloatConv} {floatText : FloatValue → Text}

theorem der_primValue {c : PrimValue} (h : Expressible.primValue conv floatText c = true) :
    Der (.rule .pPrimValue) [primValue floatText c] := by
  cases c with
  | int c => exact der_rule (.head _) (.seq (der_word _ _) (der_word _ _))
  | float v => exact der_rule (.tail _ (.head _)) (.seq (der_word _ _) (der_word _ _))
  | bool b =>
    refine der_rule (.tail _ (.tail _ (.tail _ (.head _)))) ?_
    cases b with
    | true => exact .left (der_lit "true")
    | false => exact .right (der_lit "false")
  | unit => cases h

theorem der_subExp {se : SubExp} (h : Expressible.subExp conv floatText se = true) :
    Der (.rule .pSubExp) [subExp floatText se] := by
  cases se with
  | const c => exact der_rule (.head _) (der_primValue h)
  | var x => exact der_rule (.tail _ (.head _)) (der_ident x)

theorem der_subExps {ses : List SubExp} (h : Expressible.subExps conv floatText ses = true) :
    DerAll (.rule .pSubExp) (ses.map (subExp floatText)) :=
  .of_map fun se member => der_subExp (List.all_eq_true.mp h se member)

theorem der_vars (xs : List VName) :
    DerAll (.rule .pSubExp) ((xs.map SubExp.var).map (subExp floatText)) := by
  rw [List.map_map]
  exact .of_map fun x _ => der_rule (.tail _ (.head _)) (der_ident x)

theorem der_primType {t : PrimType} (named : t ≠ .unit) : Der (.rule .pPrimType) [primType t] := by
  cases t with
  | int t => exact der_rule (.head _) (der_word _ _)
  | float t => exact der_rule (.tail _ (.head _)) (der_word _ _)
  | bool => exact der_rule (.tail _ (.tail _ (.head _))) (der_lit "bool")
  | unit => exact absurd rfl named

theorem der_extShape {dims : List SubExp} (h : Expressible.subExps conv floatText dims = true) :
    Der (.rule .pExtShape) [extShape floatText dims] := by
  have one (d : SubExp) (hd : Expressible.subExp conv floatText d = true) :
      Der (Grammar.bracketed [.star (.rule .pSubExp)]) (bracketed [subExp floatText d]) :=
    der_bracketed (.last (DerAll.many (List.forall_mem_singleton.mpr (der_subExp hd))))
  have ok := List.all_eq_true.mp h
  cases dims with
  | nil => exact der_rule (.head _) (.seq (der_bracketed (.last .done)) .done)
  | cons d ds =>
    obtain ⟨first, rest⟩ := List.forall_mem_cons.mp ok
    refine der_rule (.head _) (.seq (one d first) ?_)
    refine .many (ds.map fun d => bracketed [subExp floatText d]) fun ts member => ?_
    obtain ⟨d, hd, rfl⟩ := List.mem_map.mp member
    exact one d (rest d hd)

theorem der_ty {t : Ty} (h : Expressible.ty conv floatText t = true) :
    Der (.rule .pType) [ty floatText t] := by
  have alias' {e : PExpr} {ts : List Node} (last : Der e ts) :
      Der (.seqs [e, .opt (.rule .pAlias)]) ts := by
    have whole := der_cons last (.last (.absent : Der (.opt (.rule .pAlias)) []))
    rwa [List.append_nil] at whole
  cases t with
  | prim t =>
    have named (ne : t ≠ .unit) : Der (.rule .pType) [rule .pType .typePrim [primType t]] :=
      der_rule (.tail _ (.head _)) (alias' (der_primType ne))
    cases t with
    | unit => exact der_rule (.tail _ (.tail _ (.tail _ (.head _)))) (der_lit "unit")
    | int t => exact named (by simp)
    | float t => exact named (by simp)
    | bool => exact named (by simp)
  | array t dims =>
    have named (ne : t ≠ .unit) :
        Der (.rule .pType) [rule .pType .typeShape [extShape floatText dims, primType t]] :=
      der_rule (.head _) (der_cons (der_extShape h) (alias' (der_primType ne)))
    cases t with
    | unit =>
      exact der_rule (.tail _ (.tail _ (.head _)))
        (der_cons (der_extShape h) (alias' (der_lit "unit")))
    | int t => exact named (by simp)
    | float t => exact named (by simp)
    | bool => exact named (by simp)
  | acc => cases h
  | mem => cases h

theorem der_tys {ts : List Ty} (h : Expressible.tys conv floatText ts = true) :
    DerAll (.rule .pType) (ts.map (ty floatText)) :=
  .of_map fun t member => der_ty (List.all_eq_true.mp h t member)

theorem der_types {ts : List Ty} (h : Expressible.tys conv floatText ts = true) :
    Der (.rule .pTypes) [types floatText ts] :=
  der_rule (.head _) (der_braced (.last (der_tys h).looseList))

theorem der_typed {r : Rule} (member : (.none, .seqs [.token .id, Grammar.lit ":", .rule .pType]) ∈
    Grammar.alternatives r) (name : VName) {t : Ty} (h : Expressible.ty conv floatText t = true) :
    Der (.rule r) [typed floatText r name t] :=
  der_rule member (.seq (der_ident name) (.seq (der_lit ":") (.last (der_ty h))))

theorem der_params {r : Rule} (member : (.none, .seqs [.token .id, Grammar.lit ":", .rule .pType]) ∈
    Grammar.alternatives r) {ps : List Param} (h : Expressible.params conv floatText ps = true) :
    Der (Grammar.looseList (.rule r)) (params floatText r ps) := by
  refine DerAll.looseList (.of_map fun p hp => ?_)
  exact der_typed member p.name (List.all_eq_true.mp h _ (List.mem_map_of_mem hp))

theorem der_pat {es : List PatElem} (h : Expressible.pat conv floatText es = true) :
    Der (.rule .pPat) [pat floatText es] := by
  obtain ⟨nonempty, tys⟩ := Bool.and_eq_true_iff.mp h
  refine der_rule (.head _) (der_braced (.last (DerAll.sepBy ?_ (.of_map fun e he => ?_))))
  · cases es with
    | nil => cases nonempty
    | cons e es => exact List.cons_ne_nil _ _
  · exact der_typed (.head _) e.name (List.all_eq_true.mp tys _ (List.mem_map_of_mem he))

theorem der_results {ses : List SubExp} (h : Expressible.results conv floatText ses = true) :
    Der (.sepBy (.rule .pSubExp) Grammar.comma) (subExps floatText ses) := by
  obtain ⟨nonempty, all⟩ := Bool.and_eq_true_iff.mp h
  refine DerAll.sepBy ?_ (der_subExps all)
  cases ses with
  | nil => cases nonempty
  | cons se ses => exact List.cons_ne_nil _ _

theorem der_opcodes {name a : String} {rest : List String} (member : name ∈ a :: rest)
    (text : Text) : Der (Grammar.opcodes a rest) [word (.opcode name) text] := by
  induction rest generalizing a with
  | nil =>
    obtain rfl := List.mem_singleton.mp member
    exact der_word _ text
  | cons b rest ih =>
    rcases List.mem_cons.mp member with rfl | member
    · exact .left (der_word _ text)
    · exact .right (ih member)

theorem der_words {s a : String} {rest : List String} (member : s ∈ a :: rest) :
    Der (Grammar.words a rest) [lit s] := by
  induction rest generalizing a with
  | nil =>
    obtain rfl := List.mem_singleton.mp member
    exact der_lit _
  | cons b rest ih =>
    rcases List.mem_cons.mp member with rfl | member
    · exact .left (der_lit _)
    · exact .right (ih member)

theorem der_binaryOpcode (op : BinOp) : Der (.rule .binaryOpcode)
    [rule .binaryOpcode .none [word (.opcode (binToken op)) op.text]] := by
  refine der_rule (.head _) (der_opcodes ?_ _)
  cases op with
  | add t ovf => cases ovf <;> simp [binToken]
  | sub t ovf => cases ovf <;> simp [binToken]
  | mul t ovf => cases ovf <;> simp [binToken]
  | _ => simp [binToken]

theorem der_cmpOpcode {op : CmpOp} (h : Expressible.cmpOp op = true) : Der (.rule .cmpOpcode)
    [rule .cmpOpcode .none [word (.opcode (cmpToken op)) op.text]] := by
  refine der_rule (.head _) (der_opcodes ?_ _)
  cases op with
  | llt => cases h
  | lle => cases h
  | _ => simp [cmpToken]

theorem der_convOpcode (op : ConvOp) :
    Der (.rule .convOpcode) [rule .convOpcode .none [lit (convParts op).1]] := by
  refine der_rule (.head _) (der_words ?_)
  cases op <;> simp [convParts]

theorem convParts_named (op : ConvOp) : (convParts op).2.1 ≠ .unit ∧ (convParts op).2.2 ≠ .unit := by
  cases op <;> simp [convParts]

theorem der_dimIndex {i : DimIndex} (h : Expressible.dimIndex conv floatText i = true) :
    Der (.rule .pDimIndex) [dimIndex floatText i] := by
  cases i with
  | fix i => exact der_rule (.tail _ (.head _)) (der_subExp h)
  | slice start length stride =>
    have ok := List.all_eq_true.mp h
    exact der_rule (.head _) (.seq (der_subExp (ok start (by simp))) (.seq (der_lit ":+")
      (.seq (der_subExp (ok length (by simp))) (.seq (der_lit "*")
        (.last (der_subExp (ok stride (by simp))))))))

theorem der_numbers {ns : List Nat} (nonempty : ns ≠ []) :
    Der (.sepBy (.token .number) Grammar.comma) (numbers ns) :=
  DerAll.sepBy (by simpa using nonempty) (.of_map fun n _ => der_word _ _)

theorem der_operands {a b : SubExp} (h : Expressible.subExps conv floatText [a, b] = true) :
    Der (Grammar.parens [.rule .pSubExp, Grammar.comma, .rule .pSubExp])
      (operands floatText [a, b]) := by
  have ok := List.all_eq_true.mp h
  have pair : Der (.seqs [.rule .pSubExp, Grammar.comma, .rule .pSubExp])
      [subExp floatText a, lit ",", subExp floatText b] :=
    .seq (der_subExp (ok a (by simp))) (.seq (der_lit ",")
      (.last (der_subExp (ok b (by simp)))))
  exact der_parens pair

theorem der_iotaOperands {n x s : SubExp}
    (h : Expressible.subExps conv floatText [n, x, s] = true) :
    Der (Grammar.parens [.rule .pSubExp, Grammar.comma, .rule .pSubExp, Grammar.comma,
      .rule .pSubExp]) (operands floatText [n, x, s]) := by
  have ok := List.all_eq_true.mp h
  have triple : Der (.seqs [.rule .pSubExp, Grammar.comma, .rule .pSubExp, Grammar.comma,
      .rule .pSubExp])
      [subExp floatText n, lit ",", subExp floatText x, lit ",", subExp floatText s] :=
    .seq (der_subExp (ok n (by simp))) (.seq (der_lit ",") (.seq (der_subExp (ok x (by simp)))
      (.seq (der_lit ",") (.last (der_subExp (ok s (by simp)))))))
  exact der_parens triple

theorem der_literal {values : List SubExp} (h : Expressible.results conv floatText values = true) :
    Der (.rule .pArrayLit) [rule .pArrayLit .none (bracketed (subExps floatText values))] :=
  der_rule (.head _) (der_bracketed (.last (der_results h)))

theorem rowTy_expressible {values : List SubExp} {t : Ty}
    (h : Expressible.literalTy conv floatText values t = true) :
    Expressible.ty conv floatText (rowTy t) = true := by
  cases t with
  | prim t => rfl
  | array t dims =>
    cases dims with
    | nil => cases h
    | cons d dims => exact (Bool.and_eq_true_iff.mp h).2
  | acc => cases h
  | mem => cases h

theorem der_basic {l : Label} {e : PExpr} {ts : List Node} (i : Nat)
    (place : (Grammar.alternatives .pBasicOp)[i]? = some (l, e)) (h : Der e ts) :
    Der (.rule .pBasicOp) [rule .pBasicOp l ts] :=
  der_rule (List.mem_of_getElem? place) h

theorem der_basicOp {op : BasicOp} (h : Expressible.basicOp conv floatText op = true) :
    Der (.rule .pBasicOp) [basicOp floatText op] := by
  cases op with
  | arrayLit values t =>
    obtain ⟨nonempty, ty⟩ := Bool.and_eq_true_iff.mp h
    exact der_basic 2 rfl (.seq (der_literal nonempty) (.seq (der_lit ":")
      (.last (der_ty (rowTy_expressible ty)))))
  | binOp op a b =>
    exact der_basic 6 rfl (der_rule (.head _) (.seq (der_binaryOpcode op) (der_operands h)))
  | cmpOp op a b =>
    obtain ⟨known, args⟩ := Bool.and_eq_true_iff.mp h
    exact der_basic 7 rfl (der_rule (.head _) (.seq (der_cmpOpcode known) (der_operands args)))
  | convOp op a =>
    obtain ⟨src, dst⟩ := convParts_named op
    exact der_basic 8 rfl (der_rule (.head _) (.seq (der_convOpcode op) (.seq (der_primType src)
      (.seq (der_subExp h) (.seq (der_lit "to") (.last (der_primType dst)))))))
  | assert =>
    have part : DerAll (.rule .pErrPart) [rule .pErrPart .none [quotes]] :=
      List.forall_mem_singleton.mpr (der_rule (.head _) (der_word _ _))
    exact der_basic 11 rfl (.seq (der_lit _) (der_parens (.seq (der_rule (.tail _ (.head _))
      (der_ident _)) (.seq (der_lit ",") (.last (der_braced (.last
        (part.sepBy (List.cons_ne_nil _ _)))))))))
  | index arr dims =>
    obtain ⟨nonempty, all⟩ := Bool.and_eq_true_iff.mp h
    have each : DerAll (.rule .pDimIndex) (dims.map (dimIndex floatText)) :=
      .of_map fun i hi => der_dimIndex (List.all_eq_true.mp all i hi)
    refine der_basic 3 rfl (.seq (der_rule (.tail _ (.head _)) (der_ident arr))
      (der_bracketed (.last (each.sepBy ?_))))
    cases dims with
    | nil => cases nonempty
    | cons i dims => exact List.cons_ne_nil _ _
  | concat dim arrs total =>
    obtain ⟨_, size⟩ := Bool.and_eq_true_iff.mp h
    have each : DerAll (.rule .pSubExp) ((total :: arrs.map SubExp.var).map (subExp floatText)) :=
      List.forall_mem_cons.mpr ⟨der_subExp size, der_vars arrs⟩
    exact der_basic 4 rfl (.seq (der_word _ _)
      (der_parens (.last (each.sepBy (List.cons_ne_nil _ _)))))
  | manifest =>
    exact der_basic 13 rfl (.seq (der_lit _) (der_parens (.seq (der_rule (.tail _ (.head _))
      (der_ident _)) (.seq (der_lit ",") (.last (der_parens (.last
        (der_numbers (List.cons_ne_nil _ _)))))))))
  | iota n x s t =>
    obtain ⟨_, args⟩ := Bool.and_eq_true_iff.mp h
    exact der_basic 5 rfl (.seq (der_word _ _) (der_iotaOperands args))
  | replicate shape val =>
    obtain ⟨value, dims⟩ := Bool.and_eq_true_iff.mp h
    exact der_basic 0 rfl (.seq (der_lit _) (der_parens (.seq (der_extShape dims)
      (.seq (der_lit ",") (.last (der_subExp value))))))
  | scratch t dims =>
    obtain ⟨named, all⟩ := Bool.and_eq_true_iff.mp h
    have each : ∀ ts ∈ dims.map (fun d => [lit ",", subExp floatText d]),
        Der (.seq Grammar.comma (.rule .pSubExp)) ts := by
      intro ts member
      obtain ⟨d, hd, rfl⟩ := List.mem_map.mp member
      exact .seq (der_lit ",") (der_subExp (List.all_eq_true.mp all d hd))
    exact der_basic 12 rfl (.seq (der_lit _) (der_parens (.seq (der_primType (by simpa using named))
      (.last (.many _ each)))))
  | reshape op0 dimBegin dimEnd reshapedDim remainder =>
    simp only [Expressible.basicOp, Bool.and_eq_true] at h
    obtain ⟨⟨⟨_, array⟩, inner⟩, outer⟩ := h
    have range : Der (.seqs [.token .number, Grammar.lit "::", .token .number, Grammar.lit "=>",
        .rule .pExtShape, Grammar.lit ";", .rule .pExtShape])
        [word .number (Text.natText dimBegin), lit "::", word .number (Text.natText dimEnd),
          lit "=>", extShape floatText reshapedDim, lit ";", extShape floatText remainder] :=
      .seq (der_word _ _) (.seq (der_lit _) (.seq (der_word _ _) (.seq (der_lit _)
        (.seq (der_extShape inner) (.seq (der_lit _) (.last (der_extShape outer)))))))
    exact der_basic 9 rfl (.seq (der_lit _) (der_parens (.seq (der_subExp array)
      (.seq (der_lit ",") (.last (der_parens range))))))
  | rearrange arr perm =>
    obtain ⟨nonempty, _⟩ := Bool.and_eq_true_iff.mp h
    refine der_basic 10 rfl (.seq (der_lit _) (der_parens (.seq (der_rule (.tail _ (.head _))
      (der_ident arr)) (.seq (der_lit ",") (.last (der_parens (.last (der_numbers ?_))))))))
    cases perm with
    | nil => cases nonempty
    | cons n perm => exact List.cons_ne_nil _ _
  | _ => cases h

theorem der_apply (fname : String) {args : List SubExp} {retTypes : List Ty}
    (argsOk : Expressible.subExps conv floatText args = true)
    (typesOk : Expressible.tys conv floatText retTypes = true) :
    Der (.rule .pApply) [apply floatText fname args retTypes] := by
  -- The types of the grammar are a run of types, and then types after commas.
  have types : Der (.seqs [.star (.rule .pType), .star (.seq Grammar.comma (.rule .pType))])
      (tys floatText retTypes) := by
    cases retTypes with
    | nil => exact .seq .done (.last .done)
    | cons t ts =>
      obtain ⟨first, rest⟩ := List.forall_mem_cons.mp (der_tys typesOk)
      exact .seq (DerAll.many (List.forall_mem_singleton.mpr first))
        (.last (der_commas (DerAll.singles rest)))
  exact der_rule (.head _) (.seq (der_lit _) (.seq (der_ident fname)
    (.seq (der_parens (.last (der_subExps argsOk).looseList)) (.seq (der_lit _)
      (.last (der_rule (.head _) (der_braced types)))))))

theorem der_loopForm {form : LoopForm} (h : Expressible.loopForm conv floatText form = true) :
    Der (.rule .pLoopForm) [loopForm floatText form] := by
  cases form with
  | forLoop i t bound =>
    exact der_rule (.head _) (.seq (der_lit _) (.seq (der_ident i) (.seq (der_lit _)
      (.seq (der_primType (by simp)) (.seq (der_lit _) (.last (der_subExp h)))))))
  | whileLoop cond => exact der_rule (.tail _ (.head _)) (.seq (der_lit _) (.last (der_ident cond)))

theorem der_segLevel (lvl : SegLevel) : Der (.rule .pSegLevel) [segLevel lvl] := by
  have virt : Der (.rule .pSegVirt) [rule .pSegVirt .none []] := der_rule (.head _) .absent
  cases lvl with
  | thread => exact der_rule (.head _) (.seq (der_lit _) (.seq (der_lit _) (.seq virt
      (.last (der_lit _)))))
  | block => exact der_rule (.tail _ (.head _)) (.seq (der_lit _) (.seq (der_lit _) (.seq virt
      (.last (der_lit _)))))
  | threadInBlock =>
    exact der_rule (.tail _ (.tail _ (.head _))) (.seq (der_lit _) (.last (der_lit _)))

theorem der_segSpace {space : SegSpace} (h : Expressible.segSpace conv floatText space = true) :
    Der (.rule .pSegSpace) [segSpace floatText space] := by
  obtain ⟨nonempty, all⟩ := Bool.and_eq_true_iff.mp h
  have dims : Der (.sepBy (.seqs [.token .id, Grammar.lit "<", .rule .pSubExp]) Grammar.comma)
      (joined (space.dims.map fun d => [ident d.1, lit "<", subExp floatText d.2])) := by
    refine der_sepBy ?_ fun ts member => ?_
    · simpa using nonempty
    · obtain ⟨d, hd, rfl⟩ := List.mem_map.mp member
      exact .seq (der_ident d.1) (.seq (der_lit _) (.last
        (der_subExp (List.all_eq_true.mp all d.2 (List.mem_map_of_mem hd)))))
  exact der_rule (.head _) (.seq (der_parens (.last dims))
    (der_parens (.seq (der_lit _) (.last (der_ident space.flatId)))))

section Bodies

variable {ss : List Node} {result : List SubExp} (stmsOk : DerAll (.rule .pStm) ss)
  (resultOk : Expressible.results conv floatText result = true)

include stmsOk resultOk

theorem der_body : Der (.rule .pBody) [body floatText ss result] :=
  der_rule (.head _) (.seq stmsOk.many (.seq (der_lit _)
    (.last (der_braced (.last (der_results resultOk))))))

theorem der_caseBody : Der (.rule .pCaseBody) [caseBody floatText ss result] :=
  der_rule (.head _) (der_braced (.seq stmsOk.many (.seq (der_lit _)
    (.last (der_braced (.last (der_results resultOk)))))))

theorem der_kernelBody : Der (.rule .pKernelBody) [kernelBody floatText ss result] := by
  obtain ⟨nonempty, all⟩ := Bool.and_eq_true_iff.mp resultOk
  have returns : Der (.sepBy (.seq (Grammar.lit "returns") (.rule .pSubExp)) Grammar.comma)
      (joined (result.map fun se => [lit "returns", subExp floatText se])) := by
    refine der_sepBy ?_ fun ts member => ?_
    · simpa using nonempty
    · obtain ⟨se, hse, rfl⟩ := List.mem_map.mp member
      exact .seq (der_lit _) (der_subExp (List.all_eq_true.mp all se hse))
  exact der_rule (.head _) (.seq stmsOk.many (.seq (der_lit _) (.last (der_braced (.last returns)))))

end Bodies

theorem der_segHead (keyword : String) (lvl : SegLevel) {space : SegSpace} {ret : List Ty}
    {kernel : Node} (spaceOk : Expressible.segSpace conv floatText space = true)
    (retOk : Expressible.tys conv floatText ret = true)
    (kernelOk : Der (.rule .pKernelBody) [kernel]) :
    Der (.seqs (Grammar.segHead keyword)) (segHead floatText keyword lvl space ret kernel) :=
  .seq (der_lit _) (.seq (der_parens (.last (der_segLevel lvl))) (.seq (der_segSpace spaceOk)
    (.seq (der_lit _) (.seq (der_types retOk) (.last (der_braced (.last kernelOk)))))))

theorem segBinOps_ne_nil {ops : List SegBinOp} (h : (!ops.isEmpty) = true) :
    segBinOps floatText ops ≠ [] := by
  cases ops with
  | nil => cases h
  | cons op ops => exact List.cons_ne_nil _ _

theorem histOps_ne_nil {ops : List HistOp} (h : (!ops.isEmpty) = true) :
    histOps floatText ops ≠ [] := by
  cases ops with
  | nil => cases h
  | cons op ops => exact List.cons_ne_nil _ _

mutual

theorem der_stm : (s : Stm) → Expressible.stm conv floatText s = true →
    Der (.rule .pStm) [stm floatText s]
  | .mk es e, h => by
    obtain ⟨pattern, value⟩ := Bool.and_eq_true_iff.mp h
    -- Without a comment, attributes and certificates.
    exact der_rule (.head _) (.seq .absent (.seq (der_lit _) (.seq (der_pat pattern)
      (.seq (der_lit _) (.seq .done (.seq .absent (.last (der_exp e value))))))))

theorem der_stms : (ss : List Stm) → Expressible.stms conv floatText ss = true →
    DerAll (.rule .pStm) (stms floatText ss)
  | [], _ => List.forall_mem_nil _
  | s :: rest, h => by
    obtain ⟨first, others⟩ := Bool.and_eq_true_iff.mp h
    exact List.forall_mem_cons.mpr ⟨der_stm s first, der_stms rest others⟩

theorem der_exp : (e : Exp) → Expressible.exp conv floatText e = true →
    Der (.rule .pExp) [exp floatText e]
  | .basicOp op, h => der_rule (.tail _ (.head _)) (der_basicOp h)
  | .apply fname args retTypes, h => by
    obtain ⟨argsOk, typesOk⟩ := Bool.and_eq_true_iff.mp h
    exact der_rule (.head _) (der_apply fname argsOk typesOk)
  | .hostOp op, h => der_hostOp op h
  | .subExp se, h =>
    der_rule (List.mem_of_getElem? (i := 7) rfl) (der_subExp h)
  | .ite cond (.mk thenStms thenResult) (.mk elseStms elseResult) retType, h => by
    simp only [Expressible.exp, Expressible.body, Bool.and_eq_true] at h
    obtain ⟨⟨⟨condOk, thenOk, thenResultOk⟩, elseOk, elseResultOk⟩, typesOk⟩ := h
    exact der_rule (List.mem_of_getElem? (i := 5) rfl) (.seq (der_lit _) (.seq .absent
      (.seq (der_subExp condOk) (.seq (der_lit _)
        (.seq (der_caseBody (der_stms thenStms thenOk) thenResultOk) (.seq (der_lit _)
          (.seq (der_caseBody (der_stms elseStms elseOk) elseResultOk) (.seq (der_lit _)
            (.last (der_types typesOk))))))))))
  | .loop merge form (.mk ss result), h => by
    simp only [Expressible.exp, Expressible.body, Bool.and_eq_true] at h
    obtain ⟨⟨⟨paramsOk, initsOk⟩, formOk⟩, stmsOk, resultOk⟩ := h
    exact der_rule (List.mem_of_getElem? (i := 4) rfl) (der_rule (.head _) (.seq (der_lit _)
      (.seq (der_braced (.last (der_params (.head _) paramsOk))) (.seq (der_lit _)
        (.seq (der_braced (.last (der_subExps initsOk).looseList))
          (.seq (der_loopForm formOk) (.seq (der_lit _)
            (.last (der_caseBody (der_stms ss stmsOk) resultOk)))))))))

theorem der_hostOp : (op : HostOp) → Expressible.hostOp conv floatText op = true →
    Der (.rule .pExp) [hostOp floatText op]
  | .segOp op, h => der_rule (List.mem_of_getElem? (i := 2) rfl) (der_segOp op h)
  | .sizeOp, _ =>
    der_rule (List.mem_of_getElem? (i := 3) rfl) (der_rule (.tail _ (.head _)) (.seq (der_lit _)
      (der_parens (.last (der_rule (.tail _ (.head _)) (der_ident _))))))
  | .gpuBody, _ =>
    der_rule (List.mem_of_getElem? (i := 6) rfl) (.seq (der_lit _) (.seq (der_lit _)
      (.seq (@der_types conv _ [] rfl)
        (.last (@der_caseBody conv _ [] _ (List.forall_mem_nil _) rfl)))))

theorem der_lambda : (l : Lambda) → Expressible.lambda conv floatText l = true →
    Der (.rule .pLambda) [lambda floatText l]
  | .mk ps ret (.mk ss result), h => by
    simp only [Expressible.lambda, Expressible.body, Bool.and_eq_true] at h
    obtain ⟨⟨paramsOk, retOk⟩, stmsOk, resultOk⟩ := h
    exact der_rule (.head _) (.seq (der_lit _)
      (.seq (der_braced (.last (der_params (.head _) paramsOk))) (.seq (der_lit _)
        (.seq (der_types retOk) (.seq (der_lit _)
          (.last (der_body (der_stms ss stmsOk) resultOk)))))))

theorem der_segBinOp : (op : SegBinOp) → Expressible.segBinOp conv floatText op = true →
    Der (.rule .pSegBinOp) [segBinOp floatText op]
  | .mk op neutral shape, h => by
    simp only [Expressible.segBinOp, Bool.and_eq_true] at h
    obtain ⟨⟨lambdaOk, neutralOk⟩, shapeOk⟩ := h
    exact der_rule (.head _) (.seq (der_braced (.last (der_subExps neutralOk).optList))
      (.seq (der_lit _) (.seq (.present (der_extShape shapeOk)) (.seq (der_lit _)
        (.seq (der_rule (.head _) .absent) (.last (der_lambda op lambdaOk)))))))

theorem der_segBinOps : (ops : List SegBinOp) → Expressible.segBinOps conv floatText ops = true →
    DerAll (.rule .pSegBinOp) (segBinOps floatText ops)
  | [], _ => List.forall_mem_nil _
  | op :: rest, h => by
    obtain ⟨first, others⟩ := Bool.and_eq_true_iff.mp h
    exact List.forall_mem_cons.mpr ⟨der_segBinOp op first, der_segBinOps rest others⟩

theorem der_histOp : (op : HistOp) → Expressible.histOp conv floatText op = true →
    Der (.rule .pHistOp) [histOp floatText op]
  | .mk dest op, h =>
    der_rule (.head _) (.seq (@der_extShape conv _ [] rfl) (.seq (der_lit _)
      (.seq (der_rule (.tail _ (.head _)) (der_ident _)) (.seq (der_lit _)
        (.seq (der_rule (.head _) (der_braced (.last (der_vars dest).optList))) (.seq (der_lit _)
          (.seq (der_rule (.head _) (der_braced (.last .absent))) (.seq (der_lit _) (.seq .absent
            (.seq (der_lit _) (.last (der_lambda op h))))))))))))

theorem der_histOps : (ops : List HistOp) → Expressible.histOps conv floatText ops = true →
    DerAll (.rule .pHistOp) (histOps floatText ops)
  | [], _ => List.forall_mem_nil _
  | op :: rest, h => by
    obtain ⟨first, others⟩ := Bool.and_eq_true_iff.mp h
    exact List.forall_mem_cons.mpr ⟨der_histOp op first, der_histOps rest others⟩

theorem der_segOp : (op : SegOp) → Expressible.segOp conv floatText op = true →
    Der (.rule .pSegOp) [segOp floatText op]
  | .segMap lvl space ret (.mk ss result), h => by
    simp only [Expressible.segOp, Expressible.body, Bool.and_eq_true] at h
    obtain ⟨⟨spaceOk, retOk⟩, stmsOk, resultOk⟩ := h
    exact der_rule (.head _) (der_segHead "segmap" lvl spaceOk retOk
      (der_kernelBody (der_stms ss stmsOk) resultOk))
  | .segRed lvl space ret (.mk ss result) ops, h => by
    simp only [Expressible.segOp, Expressible.body, Bool.and_eq_true] at h
    obtain ⟨⟨⟨⟨spaceOk, retOk⟩, stmsOk, resultOk⟩, nonempty⟩, opsOk⟩ := h
    exact der_rule (.tail _ (.head _)) (.append (der_segHead "segred" lvl spaceOk retOk
      (der_kernelBody (der_stms ss stmsOk) resultOk))
      (.last (der_parens (.last ((der_segBinOps ops opsOk).sepBy (segBinOps_ne_nil nonempty))))))
  | .segScan lvl space ret (.mk ss result) ops postOp, h => by
    simp only [Expressible.segOp, Expressible.body, Bool.and_eq_true] at h
    obtain ⟨⟨⟨⟨⟨spaceOk, retOk⟩, stmsOk, resultOk⟩, nonempty⟩, opsOk⟩, postOk⟩ := h
    exact der_rule (.tail _ (.tail _ (.head _))) (.append (der_segHead "segscan" lvl spaceOk retOk
      (der_kernelBody (der_stms ss stmsOk) resultOk))
      (.seq (der_parens (.last ((der_segBinOps ops opsOk).sepBy (segBinOps_ne_nil nonempty))))
        (.last (der_rule (.head _) (der_lambda postOp postOk)))))
  | .segHist lvl space ret (.mk ss result) ops, h => by
    simp only [Expressible.segOp, Expressible.body, Bool.and_eq_true] at h
    obtain ⟨⟨⟨⟨spaceOk, retOk⟩, stmsOk, resultOk⟩, nonempty⟩, opsOk⟩ := h
    exact der_rule (.tail _ (.tail _ (.tail _ (.head _)))) (.append (der_segHead "seghist" lvl spaceOk retOk
      (der_kernelBody (der_stms ss stmsOk) resultOk))
      (.last (der_parens (.last ((der_histOps ops opsOk).sepBy (histOps_ne_nil nonempty))))))

end

theorem der_attr {a : Attr} (h : Expressible.attr a = true) : Der (.rule .pAttr) [attr a] := by
  cases a with
  | atom name =>
    exact der_rule (.head _) (.seq (der_lit _) (.last (der_bracketed (.seq (der_ident name)
      (.last .absent)))))
  | comp name args =>
    have each : DerAll (.token .id) (args.map fun arg => word .id (atomText arg)) :=
      .of_map fun arg _ => der_word _ _
    exact der_rule (.head _) (.seq (der_lit _) (.last (der_bracketed (.seq (der_ident name)
      (.last (.present (der_parens (.last each.optList))))))))
  | int i => cases h

theorem der_entry : Der (.rule .pEntry) [entry] :=
  der_rule (.head _) (.seq (der_lit _) (.last (der_parens (.seq (der_word _ _) (.seq (der_lit _)
    (.seq (der_braced (.last (.seq .absent .done))) (.seq (der_lit _)
      (.last (.left (.seq (der_word _ _) (der_word _ _)))))))))))

theorem der_funDef {f : FunDef} (h : Expressible.funDef conv floatText f = true) :
    Der (.rule .pFunDef) [funDef floatText f] := by
  obtain ⟨entryPoint, attrs, name, retType, ps, ⟨ss, result⟩⟩ := f
  simp only [Expressible.funDef, Expressible.body, Bool.and_eq_true] at h
  obtain ⟨⟨⟨⟨attrsOk, paramsOk⟩, nonempty⟩, retOk⟩, stmsOk, resultOk⟩ := h
  have attrsDer : DerAll (.rule .pAttr) (attrs.map attr) :=
    .of_map fun a ha => der_attr (List.all_eq_true.mp attrsOk a ha)
  have kind : Der (.alt (.opt (.rule .pEntry)) (Grammar.lit "fun"))
      [if entryPoint then entry else lit "fun"] := by
    cases entryPoint with
    | true => exact .left (.present der_entry)
    | false => exact .right (der_lit _)
  have plain : DerAll (.seq (.opt (Grammar.lit "*")) (.rule .pType)) (retType.map (ty floatText)) :=
    .of_map fun t ht => .seq .absent (der_ty (List.all_eq_true.mp retOk t ht))
  have some : retType.map (ty floatText) ≠ [] := by simpa using nonempty
  exact der_rule (.head _) (.seq attrsDer.many (.seq kind (.seq (der_ident name)
    (.seq (der_parens (.last (der_params (.head _) paramsOk))) (.seq (der_lit _)
      (.seq (der_braced (.last (plain.sepBy some))) (.seq (der_lit _)
        (.last (der_braced (.last (der_body (der_stms ss stmsOk) resultOk)))))))))))

theorem der_prog {p : Prog} (h : Expressible.prog conv floatText p = true) :
    Der (.rule .root) [prog floatText p] := by
  simp only [Expressible.prog, Bool.and_eq_true] at h
  obtain ⟨⟨constsOk, nonempty⟩, funsOk⟩ := h
  have all := List.all_eq_true.mp funsOk
  refine der_rule (.head _) (der_absent (.seq (der_stms p.consts constsOk).many (.seq ?_
    (.last (der_word _ _)))))
  cases e : p.funs with
  | nil =>
    rw [e] at nonempty
    cases nonempty
  | cons f fs =>
    rw [e] at all
    obtain ⟨first, rest⟩ := List.forall_mem_cons.mp all
    exact .seq (der_funDef first) (DerAll.many (.of_map fun f hf => der_funDef (rest f hf)))

end FutharkMlir.Unparse
