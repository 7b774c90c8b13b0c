import FutharkMlir.Compiler.Function
import FutharkMlir.Lib.Except
import FutharkMlir.Lib.Zip

namespace FutharkMlir

def NamedAt (params : List Param) (j : Nat) (x : VName) : Prop :=
  ∃ q, params[j]? = some q ∧ q.name = x

/-- The table of positions once the parameters before `i` are in it. -/
structure Positioned (params : List Param) (i : Nat) (table : List (String × Int)) : Prop where
  sound : ∀ x k, table.lookup x = some k → ∃ j, j < i ∧ NamedAt params j x ∧ k = j
  complete : ∀ j x, j < i → NamedAt params j x → ∃ k, table.lookup x = some k

theorem positioned_nil (params : List Param) : Positioned params 0 [] where
  sound x k h := by simp at h
  complete j x h := by omega

theorem Positioned.insert {params : List Param} {i : Nat} {table : List (String × Int)} {p : Param}
    (h : Positioned params i table) (here : params[i]? = some p) :
    Positioned params (i + 1) ((p.name, (i : Int)) :: table) where
  sound x k found := by
    rw [List.lookup_cons] at found
    split at found
    · next eq =>
      cases found
      exact ⟨i, by omega, ⟨p, here, (beq_iff_eq.mp eq).symm⟩, rfl⟩
    · obtain ⟨j, lt, named, rfl⟩ := h.sound x k found
      exact ⟨j, by omega, named, rfl⟩
  complete j x lt named := by
    rw [List.lookup_cons]
    split
    · exact ⟨_, rfl⟩
    · next ne =>
      by_cases eq : j = i
      · subst eq
        obtain ⟨q, hq, rfl⟩ := named
        rw [here] at hq
        cases hq
        simp at ne
      · exact h.complete j x (by omega) named

/-- What a dimension of the parameter at position `i` is annotated with. -/
inductive DimAnnotated (params : List Param) (i : Nat) : SubExp → Int → Prop
  | size {x : VName} {j : Nat} : j ≤ i → NamedAt params j x → DimAnnotated params i (.var x) j
  | constant {c : PrimValue} : DimAnnotated params i (.const c) (-1)

def ParamAnnotated (params : List Param) (i : Nat) (p : Param) (pos : Option (List Int)) : Prop :=
  match p.ty with
  | .array _ dims => ∃ ps, pos = some ps ∧ List.Forall₂ (DimAnnotated params i) dims ps
  | _ => pos = none

def Ty.sizeVars : Ty → List VName
  | .array _ dims => dims.filterMap fun d => match d with
    | .var x => some x
    | .const _ => none
  | _ => []

theorem mem_sizeVars {elem : PrimType} {dims : List SubExp} {x : VName} :
    x ∈ (Ty.array elem dims).sizeVars ↔ SubExp.var x ∈ dims := by
  simp only [Ty.sizeVars, List.mem_filterMap]
  constructor
  · rintro ⟨d, hd, eq⟩
    cases d with
    | const c => cases eq
    | var y =>
      cases eq
      exact hd
  · intro h
    exact ⟨.var x, h, rfl⟩

theorem sizePositions_annotated {params : List Param} {i : Nat} {table : List (String × Int)}
    (h : Positioned params (i + 1) table) {dims : List SubExp} {ps : List Int}
    (run : sizePositions table dims = .ok ps) :
    List.Forall₂ (DimAnnotated params i) dims ps := by
  refine (Except.mapM_eq_ok.mp run).imp ?_
  intro d p step
  cases d with
  | const c =>
    cases step
    exact .constant
  | var x =>
    cases found : table.lookup x with
    | none => simp [found] at step
    | some k =>
      simp only [found, Except.ok.injEq] at step
      subst step
      obtain ⟨j, lt, named, rfl⟩ := h.sound x k found
      exact .size (by omega) named

theorem sizePositions_ok {params : List Param} {i : Nat} {table : List (String × Int)}
    (h : Positioned params (i + 1) table) {dims : List SubExp} :
    (∃ ps, sizePositions table dims = .ok ps) ↔
      ∀ x, .var x ∈ dims → ∃ j, j ≤ i ∧ NamedAt params j x := by
  constructor
  · rintro ⟨ps, run⟩ x hx
    obtain ⟨k, hk⟩ := List.getElem?_of_mem hx
    obtain ⟨p, _, annotated⟩ := List.forall₂_getElem? (sizePositions_annotated h run) hk
    cases annotated with
    | size le named => exact ⟨_, le, named⟩
  · intro known
    induction dims with
    | nil => exact ⟨[], rfl⟩
    | cons d dims ih =>
      obtain ⟨ps, run⟩ := ih fun x hx => known x (by simp [hx])
      unfold sizePositions at run ⊢
      cases d with
      | const c => exact ⟨-1 :: ps, by simp [List.mapM_cons, run, bind, Except.bind, pure, Except.pure]⟩
      | var x =>
        obtain ⟨j, le, named⟩ := known x (by simp)
        obtain ⟨k, found⟩ := h.complete j x (by omega) named
        exact ⟨k :: ps, by simp [List.mapM_cons, found, run, bind, Except.bind, pure, Except.pure]⟩

theorem sizeAnnotations_cons {i : Nat} {table : List (String × Int)} {p : Param}
    {rest : List Param} {anns : List (Option (List Int))} :
    sizeAnnotations i table (p :: rest) = .ok anns ↔
      ∃ pos others, anns = pos :: others ∧
        (match p.ty with
          | .array _ dims => some <$> sizePositions ((p.name, (i : Int)) :: table) dims
          | _ => .ok none) = .ok pos ∧
        sizeAnnotations ((i + 1 : Nat) : Int) ((p.name, (i : Int)) :: table) rest = .ok others := by
  have bind : sizeAnnotations i table (p :: rest) = .ok anns ↔
      ∃ pos, (match p.ty with
          | .array _ dims => some <$> sizePositions ((p.name, (i : Int)) :: table) dims
          | _ => .ok none) = .ok pos ∧
        ∃ others, sizeAnnotations ((i + 1 : Nat) : Int) ((p.name, (i : Int)) :: table) rest =
          .ok others ∧ pos :: others = anns := by
    rw [sizeAnnotations]
    cases p.ty <;> simp only [Except.bind_eq_ok, Except.pure_eq_ok] <;> rfl
  rw [bind]
  constructor
  · rintro ⟨pos, head, others, tail, rfl⟩
    exact ⟨pos, others, rfl, head, tail⟩
  · rintro ⟨pos, others, rfl, head, tail⟩
    exact ⟨pos, head, others, tail, rfl⟩

/-- The parameters from position `i` on, as the loop goes through them. -/
theorem sizeAnnotations_annotated {params : List Param} {i : Nat} {table : List (String × Int)}
    {rest : List Param} {anns : List (Option (List Int))} (h : Positioned params i table)
    (suffix : params.drop i = rest) (run : sizeAnnotations i table rest = .ok anns) :
    anns.length = rest.length ∧ ∀ k p, rest[k]? = some p →
      ∃ pos, anns[k]? = some pos ∧ ParamAnnotated params (i + k) p pos := by
  induction rest generalizing i table anns with
  | nil =>
    cases run
    simp
  | cons p rest ih =>
    have here : params[i]? = some p := by
      have head := congrArg (·[0]?) suffix
      simpa using head
    have tail : params.drop (i + 1) = rest := by
      rw [← List.drop_drop, suffix]
      rfl
    obtain ⟨pos, others, rfl, head, later⟩ := sizeAnnotations_cons.mp run
    obtain ⟨length, all⟩ := ih (h.insert here) tail later
    refine ⟨by simp [length], ?_⟩
    intro k q hq
    cases k with
    | zero =>
      cases hq
      refine ⟨pos, rfl, ?_⟩
      unfold ParamAnnotated
      split at head
      · next eq =>
        obtain ⟨ps, positions, rfl⟩ := Except.map_eq_ok.mp head
        exact ⟨ps, rfl, sizePositions_annotated (h.insert here) positions⟩
      · next plain =>
        cases head
        rfl
    | succ k =>
      obtain ⟨pos', hpos, annotated⟩ := all k q hq
      refine ⟨pos', hpos, ?_⟩
      rw [show i + (k + 1) = i + 1 + k by omega]
      exact annotated

theorem sizeAnnotations_ok {params : List Param} {i : Nat} {table : List (String × Int)}
    {rest : List Param} (h : Positioned params i table) (suffix : params.drop i = rest) :
    (∃ anns, sizeAnnotations i table rest = .ok anns) ↔
      ∀ k p, rest[k]? = some p → ∀ x ∈ p.ty.sizeVars, ∃ j, j ≤ i + k ∧ NamedAt params j x := by
  induction rest generalizing i table with
  | nil => simp [sizeAnnotations]
  | cons p rest ih =>
    have here : params[i]? = some p := by
      have head := congrArg (·[0]?) suffix
      simpa using head
    have tail : params.drop (i + 1) = rest := by
      rw [← List.drop_drop, suffix]
      rfl
    have later := ih (h.insert here) tail
    have first : (∃ pos, (match p.ty with
          | .array _ dims => some <$> sizePositions ((p.name, (i : Int)) :: table) dims
          | _ => .ok none) = (.ok pos : Except Err (Option (List Int)))) ↔
        ∀ x ∈ p.ty.sizeVars, ∃ j, j ≤ i ∧ NamedAt params j x := by
      split
      · next elem dims eq =>
        have positions : (∃ ps, sizePositions ((p.name, (i : Int)) :: table) dims = .ok ps) ↔ _ :=
          sizePositions_ok (h.insert here)
        rw [eq]
        simp only [mem_sizeVars, ← positions, Except.map_eq_ok]
        constructor
        · rintro ⟨pos, ps, run, rfl⟩
          exact ⟨ps, run⟩
        · rintro ⟨ps, run⟩
          exact ⟨_, ps, run, rfl⟩
      · next plain =>
        constructor
        · intro _ x hx
          unfold Ty.sizeVars at hx
          split at hx
          · next eq => exact absurd eq (plain _ _)
          · cases hx
        · intro _
          exact ⟨none, rfl⟩
    simp only [sizeAnnotations_cons]
    constructor
    · rintro ⟨anns, pos, others, rfl, head, run⟩ k q hq
      cases k with
      | zero =>
        cases hq
        exact first.mp ⟨pos, head⟩
      | succ k =>
        rw [show i + (k + 1) = i + 1 + k by omega]
        exact later.mp ⟨others, run⟩ k q hq
    · intro known
      obtain ⟨pos, head⟩ := first.mpr (known 0 p rfl)
      obtain ⟨others, run⟩ := later.mpr fun k q hq => by
        rw [show i + 1 + k = i + (k + 1) by omega]
        exact known (k + 1) q hq
      exact ⟨pos :: others, pos, others, rfl, head, run⟩

/-- Every array parameter is annotated: a dimension named after a parameter before it with
that parameter's position, and with -1 only if it is static or no parameter's. -/
def SizesAnnotated (f : FunDef) : Prop :=
  ∃ anns, sizeArgs f = .ok anns ∧
    ∀ i name elem dims, f.params[i]? = some ⟨name, .array elem dims⟩ →
      ∃ ps, anns[i]? = some (some ps) ∧ ps.length = dims.length ∧
        ∀ (d : Nat) (dim : SubExp), dims[d]? = some dim → ∃ pos : Int, ps[d]? = some pos ∧
          (∀ x, dim = .var x → (∃ j, j < i ∧ NamedAt f.params j x) →
            ∃ j : Nat, pos = (j : Int) ∧ NamedAt f.params j x) ∧
          (pos = -1 →
            (∃ shape e n, lowerTy (.array elem dims) = .ok (.tensor shape e) ∧
              shape[d]? = some n ∧ n ≠ kDynamic) ∨ ∀ q ∈ f.params, dim ≠ .var q.name)

/-- Every size of an array parameter is a parameter at that position or before. -/
def SizesAreParams (f : FunDef) : Prop :=
  ∀ i p, f.params[i]? = some p → ∀ x ∈ p.ty.sizeVars, ∃ j, j ≤ i ∧ NamedAt f.params j x

theorem sizeArgs_ok {f : FunDef} (entry : f.entry = true) :
    (∃ anns, sizeArgs f = .ok anns) ↔ SizesAreParams f := by
  have loop := sizeAnnotations_ok (positioned_nil f.params) (rfl : f.params.drop 0 = f.params)
  simp only [sizeArgs, entry, if_true]
  simp only [Nat.zero_add] at loop
  exact loop

theorem sizeArgs_annotated {f : FunDef} {anns : List (Option (List Int))}
    (entry : f.entry = true) (run : sizeArgs f = .ok anns) :
    anns.length = f.params.length ∧ ∀ i p, f.params[i]? = some p →
      ∃ pos, anns[i]? = some pos ∧ ParamAnnotated f.params i p pos := by
  simp only [sizeArgs, entry, if_true] at run
  have loop := sizeAnnotations_annotated (positioned_nil f.params) rfl run
  simp only [Nat.zero_add] at loop
  exact loop

theorem sizesAnnotated_iff {f : FunDef} (entry : f.entry = true) :
    SizesAnnotated f ↔ SizesAreParams f := by
  rw [← sizeArgs_ok entry]
  constructor
  · rintro ⟨anns, run, _⟩
    exact ⟨anns, run⟩
  · rintro ⟨anns, run⟩
    refine ⟨anns, run, ?_⟩
    intro i name elem dims param
    obtain ⟨pos, hpos, ps, rfl, annotated⟩ := (sizeArgs_annotated entry run).2 i _ param
    refine ⟨ps, hpos, annotated.length_eq.symm, ?_⟩
    intro d dim hdim
    obtain ⟨p, hp, step⟩ := List.forall₂_getElem? annotated hdim
    refine ⟨p, hp, ?_⟩
    cases step with
    | @size x j le named =>
      constructor
      · intro y eq _
        cases eq
        exact ⟨j, rfl, named⟩
      · intro negative
        omega
    | constant =>
      constructor
      · intro x eq
        cases eq
      · intro _
        right
        intro q _ eq
        cases eq

/-- The dimension is an integer, a parameter before position `i` or a top-level constant. -/
def DimInScope (prog : Prog) (f : FunDef) (i : Nat) : SubExp → Prop
  | .const c => ∃ v, c = .int v
  | .var x =>
    (∃ j, j < i ∧ NamedAt f.params j x) ∨ ∃ stm ∈ prog.consts, ∃ e ∈ stm.pat, e.name = x

def DimsInScope (prog : Prog) (f : FunDef) : Prop :=
  ∀ i name elem dims, f.params[i]? = some ⟨name, .array elem dims⟩ →
    ∀ d ∈ dims, DimInScope prog f i d

/-- An entry point with parameters `n : i64` and `x : [dim]i32`. -/
def sizedEntry (dim : SubExp) : FunDef where
  entry := true
  attrs := []
  name := "main"
  retType := []
  params := [⟨"n", .prim (.int .int64)⟩, ⟨"x", .array (.int .int32) [dim]⟩]
  body := .mk [] []

def constantProg : Prog where
  consts := [.mk [⟨"k", .prim (.int .int64)⟩]
    (.basicOp (.subExp (.const (.int ⟨.int64, 4⟩))))]
  funs := [sizedEntry (.var "k")]

theorem sizedEntry_array {dim : SubExp} {i : Nat} {name : VName} {elem : PrimType}
    {dims : List SubExp} (h : (sizedEntry dim).params[i]? = some ⟨name, .array elem dims⟩) :
    i = 1 ∧ dims = [dim] := by
  match i, h with
  | 0, h => cases h
  | 1, h =>
    cases h
    exact ⟨rfl, rfl⟩
  | _ + 2, h => cases h

/-- The loop throws at an array of the size of a top-level constant. -/
theorem sizeArgs_constant_size :
    DimsInScope constantProg (sizedEntry (.var "k")) ∧
      sizeArgs (sizedEntry (.var "k")) = .error .outOfRange ∧
      ¬ SizesAnnotated (sizedEntry (.var "k")) := by
  have run : sizeArgs (sizedEntry (.var "k")) = .error .outOfRange := by decide +kernel
  refine ⟨?_, run, ?_⟩
  · intro i name elem dims param d hd
    obtain ⟨rfl, rfl⟩ := sizedEntry_array param
    cases List.mem_singleton.mp hd
    exact .inr ⟨_, List.mem_singleton.mpr rfl, _, List.mem_singleton.mpr rfl, rfl⟩
  · rintro ⟨anns, ok, _⟩
    rw [run] at ok
    cases ok

theorem sizesAnnotated_iff_param : SizesAnnotated (sizedEntry (.var "n")) := by
  apply (sizesAnnotated_iff rfl).mpr
  intro i p hp x hx
  obtain ⟨name, ty⟩ := p
  match i, hp with
  | 0, hp =>
    cases hp
    cases hx
  | 1, hp =>
    cases hp
    cases List.mem_singleton.mp hx
    exact ⟨0, by omega, _, rfl, rfl⟩
  | _ + 2, hp => cases hp

end FutharkMlir
