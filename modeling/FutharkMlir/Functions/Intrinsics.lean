import Mathlib.Data.List.Pairwise
import FutharkMlir.Compiler.BlackBox

namespace FutharkMlir

/-- The operand width that ends the name of a primitive function. -/
def IsWidth (w : String) : Prop := w ≠ "" ∧ w.toList.all isDigit = true

instance (w : String) : Decidable (IsWidth w) := inferInstanceAs (Decidable (_ ∧ _))

def endsIn (p : Char → Bool) (s : String) : Bool := s.toList.getLast?.any p

/-- How a primitive function is named: by its base and a width, with an underscore between
them where the base ends in a digit. -/
inductive Spells : String → String → Prop
  | separated {b w : String} : b ≠ "" → endsIn (· == '_') b = false → IsWidth w →
      Spells b (b ++ "_" ++ w)
  | joined {b w : String} : b ≠ "" → endsIn (· == '_') b = false → endsIn isDigit b = false →
      IsWidth w → Spells b (b ++ w)

/-- The operation that a call of a primitive function is lowered to. -/
def Lowers (fname : String) (code : OpCode) : Prop :=
  ∃ args ip vs ip', (lowerIntrinsic fname args).run ip = .ok (vs, ip') ∧
    ∃ op, ip'.ops = ip.ops ++ [op] ∧ op.code = code

/-- What the scan keeps: everything before the width. -/
theorem scan_width {s w : List Char} (width : w.all isDigit = true)
    (stop : s.getLast?.any isDigit = false) :
    (s ++ w).reverse.dropWhile isDigit = s.reverse := by
  have digits : ∀ c ∈ w.reverse, isDigit c = true := by
    intro c hc
    exact List.all_eq_true.mp width c (List.mem_reverse.mp hc)
  rw [List.reverse_append, List.dropWhile_append_of_pos digits]
  cases h : s.reverse with
  | nil => rfl
  | cons c r =>
    have last : s.getLast? = some c := by rw [← List.head?_reverse, h, List.head?_cons]
    rw [last, Option.any_some] at stop
    rw [List.dropWhile_cons_of_neg (by simp [stop])]

/-- Every name is a part that does not end in a digit, and digits. -/
theorem exists_width (name : List Char) : ∃ s w, name = s ++ w ∧ w.all isDigit = true ∧
    s.getLast?.any isDigit = false := by
  induction name using List.reverseRecOn with
  | nil => exact ⟨[], [], rfl, rfl, rfl⟩
  | append_singleton name c ih =>
    by_cases digit : isDigit c = true
    · obtain ⟨s, w, rfl, width, stop⟩ := ih
      exact ⟨s, w ++ [c], by simp, by simp_all, stop⟩
    · exact ⟨name ++ [c], [], by simp, rfl, by simpa using digit⟩

theorem intrinsicBaseName_separated {name : String} {b w : List Char}
    (eq : name.toList = b ++ '_' :: w) (nonempty : w ≠ []) (width : w.all isDigit = true) :
    intrinsicBaseName name = if b = [] then none else some (String.ofList b) := by
  have scan := scan_width (s := b ++ ['_']) width (by simp [isDigit])
  rw [List.append_assoc, List.cons_append, List.nil_append, ← eq] at scan
  have longer : ¬ (b ++ ['_']).reverse.length = name.toList.length := by simp [eq, nonempty]
  simp only [intrinsicBaseName, scan, longer, if_false]
  simp

theorem intrinsicBaseName_joined {name : String} {s w : List Char}
    (eq : name.toList = s ++ w) (nonempty : w ≠ []) (width : w.all isDigit = true)
    (digit : s.getLast?.any isDigit = false) (separator : s.getLast?.any (· == '_') = false) :
    intrinsicBaseName name = if s = [] then none else some (String.ofList s) := by
  have scan := scan_width width digit
  rw [← eq] at scan
  have longer : ¬ s.reverse.length = name.toList.length := by simp [eq, nonempty]
  simp only [intrinsicBaseName, scan, longer, if_false]
  rcases List.eq_nil_or_concat s with rfl | ⟨s, c, rfl⟩
  · simp
  · have other : c ≠ '_' := by simpa using separator
    simp [other]

theorem intrinsicBaseName_unnumbered {name : String} (digit : endsIn isDigit name = false) :
    intrinsicBaseName name = none := by
  have scan := scan_width (w := []) rfl digit
  rw [List.append_nil] at scan
  simp [intrinsicBaseName, scan]

theorem underscore_width (name : String) : (∃ w, IsWidth w ∧ name = "_" ++ w) ↔
    ∃ w, w ≠ [] ∧ w.all isDigit = true ∧ name.toList = '_' :: w := by
  constructor
  · rintro ⟨w, ⟨nonempty, digits⟩, rfl⟩
    exact ⟨w.toList, by simpa using nonempty, digits, by simp⟩
  · rintro ⟨w, nonempty, digits, eq⟩
    refine ⟨String.ofList w, ⟨by simpa using nonempty, by simpa using digits⟩, ?_⟩
    rw [← String.toList_inj, eq]
    simp

/-- Where the digits at the end are known, so is the underscore before them. -/
theorem underscore_alone {name : String} {b w : List Char} {c : Char}
    (eq : name.toList = b ++ c :: w) (nonempty : w ≠ []) (width : w.all isDigit = true)
    (digit : isDigit c = false) :
    (∃ w, IsWidth w ∧ name = "_" ++ w) ↔ b = [] ∧ c = '_' := by
  rw [underscore_width, eq]
  constructor
  · rintro ⟨w', _, digits, same⟩
    cases b with
    | nil => exact ⟨rfl, (List.cons.inj same).1⟩
    | cons d b =>
      obtain ⟨_, rfl⟩ := List.cons.inj same
      simp [digit] at digits
  · rintro ⟨rfl, rfl⟩
    exact ⟨w, nonempty, width, rfl⟩

/-- A name has no base exactly if nothing but a separator would be left of it. -/
theorem intrinsicBaseName_none (name : String) :
    intrinsicBaseName name = none ↔ endsIn isDigit name = false ∨ name.toList.all isDigit = true ∨
      ∃ w, IsWidth w ∧ name = "_" ++ w := by
  obtain ⟨s, w, eq, width, stop⟩ := exists_width name.toList
  by_cases empty : w = []
  · subst empty
    rw [List.append_nil] at eq
    have digit : endsIn isDigit name = false := by rwa [endsIn, eq]
    simp [intrinsicBaseName_unnumbered digit, digit]
  have ends : endsIn isDigit name = true := by
    obtain ⟨w, c, rfl⟩ := (List.eq_nil_or_concat w).resolve_left empty
    simp_all [endsIn]
  rcases List.eq_nil_or_concat s with rfl | ⟨b, c, rfl⟩
  · rw [intrinsicBaseName_joined eq empty width rfl rfl]
    simp_all
  rw [List.concat_eq_append] at eq stop
  have digit : isDigit c = false := by simpa using stop
  have some_digit : name.toList.all isDigit = false := by simp [eq, digit]
  have split : name.toList = b ++ c :: w := by simp [eq]
  rw [underscore_alone split empty width digit]
  by_cases separator : c = '_'
  · subst separator
    rw [intrinsicBaseName_separated split empty width]
    simp [ends, some_digit]
  · rw [intrinsicBaseName_joined eq empty width (by simpa using digit) (by simpa using separator)]
    simp [ends, some_digit, separator]

theorem spells_base {b name : String} (h : Spells b name) : intrinsicBaseName name = some b := by
  cases h with
  | @separated w nonempty _ width =>
    have eq : (b ++ "_" ++ w).toList = b.toList ++ '_' :: w.toList := by simp
    rw [intrinsicBaseName_separated eq (by simpa using width.1) width.2]
    simp [nonempty]
  | @joined w nonempty separator digit width =>
    rw [intrinsicBaseName_joined String.toList_append (by simpa using width.1) width.2 digit
      separator]
    simp [nonempty]

def SameOperation (b b' : String) : Prop := b = "fma" ∧ b' = "mad" ∨ b = "mad" ∧ b' = "fma"

instance (b b' : String) : Decidable (SameOperation b b') := inferInstanceAs (Decidable (_ ∨ _))

theorem SameOperation.symm {b b' : String} (h : SameOperation b b') : SameOperation b' b :=
  Or.symm (h.imp And.symm And.symm)

theorem intrinsicTable_distinct : intrinsicTable.Pairwise fun p q =>
    p.2.2 = q.2.2 → SameOperation p.1 q.1 := by
  decide +kernel

/-- No two bases have the same operation, but for `fma` and `mad`. -/
theorem intrinsicTable_injective {b b' : String} {a a' : Arity} {op : MathOp}
    (h : intrinsicTable.lookup b = some (a, op)) (h' : intrinsicTable.lookup b' = some (a', op))
    (ne : b ≠ b') : SameOperation b b' := by
  obtain ⟨left, right, eq, _⟩ := List.lookup_eq_some_iff.mp h
  obtain ⟨left', right', eq', _⟩ := List.lookup_eq_some_iff.mp h'
  have member : (b, a, op) ∈ intrinsicTable := by simp [eq]
  have member' : (b', a', op) ∈ intrinsicTable := by simp [eq']
  have : Std.Symm fun p q : String × Arity × MathOp => p.2.2 = q.2.2 → SameOperation p.1 q.1 :=
    ⟨fun p q hpq same => (hpq same.symm).symm⟩
  exact intrinsicTable_distinct.forall member member' (by simp [ne]) rfl

def InsertsOne (m : Emit (List Value)) (code : OpCode) : Prop :=
  ∀ ip vs ip', m.run ip = .ok (vs, ip') → ∃ op, ip'.ops = ip.ops ++ [op] ∧ op.code = code

theorem create1_inserts (code : OpCode) (operands : List Value) (ty : MlirTy) :
    InsertsOne (do
      let res ← Emit.create1 code operands ty
      return [res]) code := by
  intro ip vs ip' run
  obtain ⟨res, mid, created, returned⟩ := Tracked.bind_ok.mp run
  cases created
  cases returned
  exact ⟨_, rfl, rfl⟩

theorem createMath_inserts (op : MathOp) (args : List Value) :
    InsertsOne (createMath op args) (.math op) := by
  intro ip vs ip' run
  obtain ⟨first, mid, found, created⟩ := Tracked.bind_ok.mp run
  obtain ⟨_, rfl⟩ := Tracked.ofExcept_ok.mp found
  exact create1_inserts _ _ _ _ _ _ created

/-- The operation that a primitive function resolves to is decided by its name. -/
theorem lowerIntrinsic_inserts (fname : String) (args : List Value) {ip ip' : Insertion}
    {vs : List Value} (run : (lowerIntrinsic fname args).run ip = .ok (vs, ip')) :
    ∃ op, ip'.ops = ip.ops ++ [op] ∧
      ("cond_".toList <+: fname.toList ∧ op.code = .select ∨
        ∃ base arity math, intrinsicBaseName fname = some base ∧
          intrinsicTable.lookup base = some (arity, math) ∧ op.code = .math math) := by
  unfold lowerIntrinsic at run
  split at run
  · next cond =>
    have call := List.isPrefixOf_iff_prefix.mp cond
    split at run
    · next c t f =>
      obtain ⟨op, inserted, code⟩ := create1_inserts .select [c, t, f] t.ty _ _ _ run
      exact ⟨op, inserted, .inl ⟨call, code⟩⟩
    · cases run
  · split at run
    · cases run
    · next base named =>
      split at run
      · next arity math found =>
        split at run
        · obtain ⟨op, inserted, code⟩ := createMath_inserts math args _ _ _ run
          exact ⟨op, inserted, .inr ⟨base, arity, math, named, found, code⟩⟩
        · cases run
      · cases run

theorem lowers_code {fname : String} {code : OpCode} (h : Lowers fname code) :
    "cond_".toList <+: fname.toList ∧ code = .select ∨
      ∃ base arity math, intrinsicBaseName fname = some base ∧
        intrinsicTable.lookup base = some (arity, math) ∧ code = .math math := by
  obtain ⟨args, ip, vs, ip', run, op, inserted, rfl⟩ := h
  obtain ⟨op', inserted', resolved⟩ := lowerIntrinsic_inserts fname args run
  rw [inserted] at inserted'
  cases List.append_cancel_left inserted'
  exact resolved

theorem lowers_math {fname base : String} {arity : Arity} {math : MathOp}
    (other : ¬ "cond_".toList <+: fname.toList) (named : intrinsicBaseName fname = some base)
    (found : intrinsicTable.lookup base = some (arity, math)) : Lowers fname (.math math) := by
  let v : Value := { func := "main", id := 0, ty := .scalar (.float .float32) }
  have notCond : "cond_".toList.isPrefixOf fname.toList = false := by
    rw [← Bool.not_eq_true, List.isPrefixOf_iff_prefix]
    exact other
  let args := List.replicate arity.count v
  have first : indexed args 0 = .ok v := by cases arity <;> rfl
  have run : (lowerIntrinsic fname args).run ⟨"main", 1, [], []⟩ =
      (createMath math args).run ⟨"main", 1, [], []⟩ := by
    have count : args.length = arity.count := List.length_replicate
    simp only [lowerIntrinsic, notCond, named, found, count, if_true]
    rfl
  let res : Value := { func := "main", id := 1, ty := math.resultTy v.ty }
  have created : (createMath math args).run ⟨"main", 1, [], []⟩ =
      .ok ([res], ⟨"main", 2, [.mk (.math math) args [res] []], []⟩) := by
    simp only [createMath, first]
    rfl
  exact ⟨args, _, _, _, run.trans created, _, rfl, rfl⟩

/-- The base of a name is read back from it, and decides the operation. -/
theorem intrinsic_names :
    (∀ b w : String, b ≠ "" → endsIn (· == '_') b = false → IsWidth w →
      intrinsicBaseName (b ++ "_" ++ w) = some b ∧
        (endsIn isDigit b = false → intrinsicBaseName (b ++ w) = some b)) ∧
    (∀ name, intrinsicBaseName name = none ↔ endsIn isDigit name = false ∨
      name.toList.all isDigit = true ∨ ∃ w, IsWidth w ∧ name = "_" ++ w) ∧
    ∀ b b' name name' code, Spells b name → Spells b' name' → b ≠ b' →
      Lowers name code → Lowers name' code →
        SameOperation b b' ∨ "cond_".toList <+: name.toList ∧ "cond_".toList <+: name'.toList := by
  refine ⟨?_, intrinsicBaseName_none, ?_⟩
  · intro b w nonempty separator width
    constructor
    · exact spells_base (.separated nonempty separator width)
    · intro digit
      exact spells_base (.joined nonempty separator digit width)
  · intro b b' name name' code spelled spelled' ne lowered lowered'
    rcases lowers_code lowered with ⟨cond, rfl⟩ | ⟨base, arity, math, named, found, rfl⟩
    · rcases lowers_code lowered' with ⟨cond', _⟩ | ⟨_, _, _, _, _, code⟩
      · exact .inr ⟨cond, cond'⟩
      · cases code
    · rcases lowers_code lowered' with ⟨_, code⟩ | ⟨base', arity', math', named', found', code⟩
      · cases code
      · cases code
        cases (spells_base spelled).symm.trans named
        cases (spells_base spelled').symm.trans named'
        exact .inl (intrinsicTable_injective found found' ne)

/-- `fma` and `mad` are one operation. -/
theorem intrinsic_names_fma : ¬ ∀ b b' name name' code, Spells b name → Spells b' name' → b ≠ b' →
    Lowers name code → ¬ Lowers name' code := by
  intro distinct
  have fma : Spells "fma" "fma32" :=
    .joined (w := "32") (by decide) (by decide) (by decide) (by decide)
  have mad : Spells "mad" "mad32" :=
    .joined (w := "32") (by decide) (by decide) (by decide) (by decide)
  have foundFma : intrinsicTable.lookup "fma" = some (.ternary, .fma) := by decide +kernel
  have foundMad : intrinsicTable.lookup "mad" = some (.ternary, .fma) := by decide +kernel
  apply distinct "fma" "mad" "fma32" "mad32" (.math .fma) fma mad (by decide)
  · exact lowers_math (by decide) (spells_base fma) foundFma
  · exact lowers_math (by decide) (spells_base mad) foundMad

end FutharkMlir
