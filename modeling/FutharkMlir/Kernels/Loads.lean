import FutharkMlir.Compiler.SegOp
import FutharkMlir.Lib.Except
import FutharkMlir.Lib.Option

/-! The loads of a kernel that are functions of its space alone. Only names decide which
they are. -/
namespace FutharkMlir

/-- The position of the gtid an index expression consists of, in the space. -/
def SegSpace.gtid (space : SegSpace) : DimIndex → Option Nat
  | .fix (.var x) => (space.dims.map Prod.fst).idxOf? x
  | _ => none

/-- The array and the dimensions of the space of a load at gtids only. -/
def SegSpace.gtidRead (space : SegSpace) : Exp → Option (VName × List Nat)
  | .basicOp (.index arr dims) => (dims.mapM space.gtid).map fun used => (arr, used)
  | _ => none

def SegSpace.affineRead (space : SegSpace) : Stm → Option AffineRead
  | .mk [elem] exp => (space.gtidRead exp).map fun r => ⟨elem.name, r.1, ⟨space.dims.length, r.2⟩⟩
  | _ => none

/-- The loads of a kernel at gtids only, as the kernel is lowered. -/
def SegSpace.affineReads (space : SegSpace) (stms : List Stm) : List AffineRead :=
  stms.filterMap space.affineRead

/-- The lowered dimensions have the names of the space and their positions. -/
def Names (i : Nat) (dims : List (VName × SubExp)) (ds : IterationSpace) : Prop :=
  ds.map (fun d => (d.id, d.index)) = (dims.map Prod.fst).zipIdx i

namespace Names

variable {i : Nat} {dims : List (VName × SubExp)} {ds : IterationSpace}

theorem cons_iff {p : VName × SubExp} {d : Dim} :
    Names i (p :: dims) (d :: ds) ↔ (d.id = p.1 ∧ d.index = i) ∧ Names (i + 1) dims ds := by
  simp [Names, List.zipIdx_cons]

theorem length (h : Names i dims ds) : ds.length = dims.length := by
  have same := congrArg List.length h
  simpa using same

theorem ids (h : Names i dims ds) : ds.map Dim.id = dims.map Prod.fst := by
  have same := congrArg (List.map Prod.fst) h
  rw [List.map_map, List.zipIdx_map_fst] at same
  exact same

theorem find (h : Names i dims ds) (x : VName) :
    (ds.find? fun d => d.id = x).map Dim.index = ((dims.map Prod.fst).idxOf? x).map (i + ·) := by
  induction ds generalizing i dims with
  | nil =>
    cases dims with
    | nil => rfl
    | cons p dims => cases h.length
  | cons d ds ih =>
    cases dims with
    | nil => cases h.length
    | cons p dims =>
      obtain ⟨⟨id, index⟩, rest⟩ := cons_iff.mp h
      rw [List.map_cons, List.idxOf?_cons, ← id]
      by_cases eq : d.id = x
      · rw [List.find?_cons_of_pos (by simpa using eq), if_pos (beq_iff_eq.mpr eq)]
        simp [index]
      · rw [List.find?_cons_of_neg (by simpa using eq), ih rest,
          if_neg (by simpa using eq), Option.map_map]
        congr 1
        funext j
        rw [Function.comp_apply, Nat.add_assoc, Nat.add_comm 1]

/-- Only the names of the space decide which loads are affine. -/
theorem toAffineRead_eq {space : SegSpace} (h : Names 0 space.dims ds) (x : VName) (exp : Exp) :
    toAffineRead x exp ds =
      (space.gtidRead exp).map fun r => ⟨x, r.1, ⟨space.dims.length, r.2⟩⟩ := by
  have index : gtidIndex ds = space.gtid := by
    funext d
    cases d with
    | fix i =>
      cases i with
      | var x =>
        simp only [gtidIndex, SegSpace.gtid, h.find]
        simp
      | const c => rfl
    | slice start length stride => rfl
  cases exp with
  | basicOp op =>
    cases op with
    | index arr dims =>
      simp only [toAffineRead, SegSpace.gtidRead, index, h.length, Option.map_map]
      rfl
    | _ => rfl
  | _ => rfl

theorem findSegOpAffineReads_eq {space : SegSpace} (names : Names 0 space.dims ds)
    {stms : List Stm} {reads : List AffineRead} (h : findSegOpAffineReads ds stms = .ok reads) :
    reads = space.affineReads stms ∧ ∀ stm ∈ stms, ∃ elem exp, stm = .mk [elem] exp := by
  induction stms generalizing reads with
  | nil =>
    cases h
    exact ⟨rfl, by simp⟩
  | cons stm rest ih =>
    obtain ⟨pat, exp⟩ := stm
    match pat with
    | [] => cases h
    | [elem] =>
      simp only [findSegOpAffineReads, Except.bind_eq_ok, Except.pure_eq_ok] at h
      obtain ⟨reads', h', rfl⟩ := h
      obtain ⟨rfl, single⟩ := ih h'
      refine ⟨?_, fun stm hstm => ?_⟩
      · have head : toAffineRead elem.name exp ds = space.affineRead (.mk [elem] exp) :=
          names.toAffineRead_eq _ _
        rw [head, SegSpace.affineReads, SegSpace.affineReads, List.filterMap_cons]
        cases space.affineRead (.mk [elem] exp) <;> rfl
      · rcases List.mem_cons.mp hstm with rfl | hstm
        · exact ⟨elem, exp, rfl⟩
        · exact single stm hstm
    | _ :: _ :: _ => cases h

end Names

theorem findSegOpAffineReads_exists {ds : IterationSpace} {stms : List Stm}
    (single : ∀ stm ∈ stms, ∃ elem exp, stm = .mk [elem] exp) :
    ∃ reads, findSegOpAffineReads ds stms = .ok reads := by
  induction stms with
  | nil => exact ⟨[], rfl⟩
  | cons stm rest ih =>
    rw [List.forall_mem_cons] at single
    obtain ⟨⟨elem, exp, rfl⟩, single⟩ := single
    obtain ⟨reads, found⟩ := ih single
    exact ⟨_, by rw [findSegOpAffineReads, found]; rfl⟩

theorem lowerSegDims_returns {ctx : Ctx} (i : Nat) (dims : List (VName × SubExp)) :
    (lowerSegDims ctx i dims).Returns (Names i dims) := by
  induction dims generalizing i with
  | nil =>
    unfold lowerSegDims
    exact .pure rfl
  | cons d dims ih =>
    unfold lowerSegDims
    refine .bind (.any _) fun value _ => .bind (.any _) fun extent _ => ?_
    exact .bind (ih (i + 1)) fun ds names => .pure (Names.cons_iff.mpr ⟨⟨rfl, rfl⟩, names⟩)

theorem affineRead_some {space : SegSpace} {stm : Stm} {read : AffineRead}
    (h : space.affineRead stm = some read) : ∃ elem arr dims used,
      stm = .mk [elem] (.basicOp (.index arr dims)) ∧ dims.mapM space.gtid = some used ∧
      read = ⟨elem.name, arr, ⟨space.dims.length, used⟩⟩ := by
  obtain ⟨pat, exp⟩ := stm
  match pat with
  | [] => cases h
  | [elem] =>
    obtain ⟨⟨arr, used⟩, gtids, rfl⟩ := Option.map_eq_some_iff.mp h
    cases exp with
    | basicOp op =>
      cases op with
      | index a dims =>
        obtain ⟨us, hus, eq⟩ := Option.map_eq_some_iff.mp gtids
        cases eq
        exact ⟨elem, arr, dims, used, rfl, hus, rfl⟩
      | _ => cases gtids
    | _ => cases gtids
  | _ :: _ :: _ => cases h

theorem mem_affineReads {space : SegSpace} {stms : List Stm} {read : AffineRead} :
    read ∈ space.affineReads stms ↔ ∃ stm ∈ stms, space.affineRead stm = some read :=
  List.mem_filterMap

theorem gtid_some {space : SegSpace} {d : DimIndex} {j : Nat} (h : space.gtid d = some j) :
    ∃ x, d = .fix (.var x) ∧ (space.dims.map Prod.fst)[j]? = some x := by
  cases d with
  | fix se =>
    cases se with
    | var x =>
      obtain ⟨lt, eq, _⟩ := List.idxOf?_eq_some_iff.mp h
      exact ⟨x, rfl, List.getElem?_eq_some_iff.mpr ⟨lt, by simpa using eq⟩⟩
    | const c => cases h
  | slice start length stride => cases h

/-- The dimensions a load is indexed by are dimensions of the space. -/
theorem affineReads_inside {space : SegSpace} {stms : List Stm} {read : AffineRead}
    (h : read ∈ space.affineReads stms) :
    read.indexMap.rank = space.dims.length ∧ ∀ d ∈ read.indexMap.results, d < space.dims.length := by
  obtain ⟨stm, _, hread⟩ := mem_affineReads.mp h
  obtain ⟨elem, arr, dims, used, rfl, gtids, rfl⟩ := affineRead_some hread
  refine ⟨rfl, fun d hd => ?_⟩
  rw [List.mapM_eq_some] at gtids
  obtain ⟨i, lt, rfl⟩ := List.mem_iff_getElem.mp hd
  have position := (List.forall₂_iff_get.mp gtids).2 i
    (by rw [(List.forall₂_iff_get.mp gtids).1]; exact lt) lt
  obtain ⟨x, _, named⟩ := gtid_some position
  obtain ⟨lt', _⟩ := List.getElem?_eq_some_iff.mp named
  simpa using lt'

end FutharkMlir
