import FutharkMlir.Compiler.Function
import Mathlib.Data.Set.Insert

/-! Operations that use only values they can see, and computations that insert nothing
else. The rules below are what the lowering functions are checked with. -/
namespace FutharkMlir

/-- What is asked of the operations of a function beyond their operands: `empty` of a
`tensor.empty` that a statement inserts itself, `owned` of one in a region inside. What
`state` says of the recorded statements and of the module is kept too. -/
structure Rules where
  func : String
  call : String → Prop
  empty : List Value → MlirTy → Prop
  owned : List Value → MlirTy → Prop
  trace : List StmEvent
  state : List StmEvent → List FuncOp → Prop

def Rules.nested (R : Rules) : Rules := { R with empty := R.owned }

/-- The rows of a scan are allocated in the body of its `scf.forall`. -/
def Rules.inside (R : Rules) : OpCode → Rules
  | .scfForall => R
  | _ => R.nested

def Rules.Allow (R : Rules) (code : OpCode) (operands : List Value) (resTys : List MlirTy) : Prop :=
  match code with
  | .call callee => R.call callee
  | .tensorEmpty => ∀ ty ∈ resTys, R.empty operands ty
  | _ => True

def defined (scope : Set Value) (ops : List Op) : Set Value :=
  scope ∪ {v | ∃ op ∈ ops, v ∈ op.results}

mutual

def Op.Valid (R : Rules) (scope : Set Value) : Op → Prop
  | .mk code operands results regions =>
    (∀ v ∈ operands, v ∈ scope) ∧ (∀ v ∈ results, v.func = R.func) ∧
      R.Allow code operands (results.map Value.ty) ∧ blocksValid (R.inside code) scope regions

def Block.Valid (R : Rules) (scope : Set Value) : Block → Prop
  | .mk args ops yield =>
    (∀ v ∈ args, v.func = R.func) ∧ opsValid R (scope ∪ {v | v ∈ args}) ops ∧
      ∀ v ∈ yield, v ∈ defined (scope ∪ {v | v ∈ args}) ops

def opsValid (R : Rules) (scope : Set Value) : List Op → Prop
  | [] => True
  | op :: rest => op.Valid R scope ∧ opsValid R (scope ∪ {v | v ∈ op.results}) rest

def blocksValid (R : Rules) (scope : Set Value) : List Block → Prop
  | [] => True
  | block :: rest => block.Valid R scope ∧ blocksValid R scope rest

end

section Own

mutual

/-- The operations a statement inserts itself: those of its block and of the body of its
`scf.forall`. -/
def Op.own : Op → List Op
  | .mk code operands results regions =>
    .mk code operands results regions ::
      match code with
      | .scfForall => blocksOwn regions
      | _ => []

def Block.own : Block → List Op
  | .mk _ ops _ => ownOps ops

def ownOps : List Op → List Op
  | [] => []
  | op :: rest => op.own ++ ownOps rest

def blocksOwn : List Block → List Op
  | [] => []
  | block :: rest => block.own ++ blocksOwn rest

end

end Own

/-- Every `tensor.empty` that a recorded statement inserts itself is owned. -/
def Rules.Covers (R : Rules) : Prop :=
  ∀ event ∈ R.trace, ∀ op ∈ ownOps event.ops, op.code = .tensorEmpty →
    ∀ v ∈ op.results, R.owned op.operands v.ty

/-- No demand on a `tensor.empty` outside a region. -/
def Rules.AnyEmpty (R : Rules) : Prop := ∀ sizes ty, R.empty sizes ty

/-- The rules with no demand on the statement's own `tensor.empty`. -/
def Rules.lenient (R : Rules) : Rules := { R with empty := fun _ _ => True }

theorem defined_mono {s t : Set Value} (le : s ⊆ t) (ops : List Op) :
    defined s ops ⊆ defined t ops :=
  Set.union_subset_union_left _ le

theorem subset_defined (s : Set Value) (ops : List Op) : s ⊆ defined s ops :=
  Set.subset_union_left

theorem defined_append (s : Set Value) (xs ys : List Op) :
    defined s (xs ++ ys) = defined (defined s xs) ys := by
  ext v
  simp only [defined, Set.mem_union, Set.mem_ofPred_eq, List.mem_append, or_assoc]
  refine or_congr_right ⟨?_, ?_⟩
  · rintro ⟨op, h | h, hv⟩
    · exact .inl ⟨op, h, hv⟩
    · exact .inr ⟨op, h, hv⟩
  · rintro (⟨op, h, hv⟩ | ⟨op, h, hv⟩)
    · exact ⟨op, .inl h, hv⟩
    · exact ⟨op, .inr h, hv⟩

theorem defined_cons (s : Set Value) (op : Op) (ops : List Op) :
    defined s (op :: ops) = defined (s ∪ {v | v ∈ op.results}) ops := by
  have h := defined_append s [op] ops
  simpa [defined] using h

section Mono

mutual

theorem Op.Valid.mono {R : Rules} {s t : Set Value} (le : s ⊆ t) :
    ∀ {op : Op}, op.Valid R s → op.Valid R t
  | .mk code operands results regions, h => by
    rw [Op.Valid] at h ⊢
    obtain ⟨seen, own, allowed, inner⟩ := h
    exact ⟨fun v hv => le (seen v hv), own, allowed, blocksValid_mono le inner⟩

theorem Block.Valid.mono {R : Rules} {s t : Set Value} (le : s ⊆ t) :
    ∀ {block : Block}, block.Valid R s → block.Valid R t
  | .mk args ops yield, h => by
    rw [Block.Valid] at h ⊢
    obtain ⟨own, inner, last⟩ := h
    have le' := Set.union_subset_union_left {v | v ∈ args} le
    exact ⟨own, opsValid_mono le' inner, fun v hv => defined_mono le' ops (last v hv)⟩

theorem opsValid_mono {R : Rules} {s t : Set Value} (le : s ⊆ t) :
    ∀ {ops : List Op}, opsValid R s ops → opsValid R t ops
  | [], _ => by
    rw [opsValid]
    exact trivial
  | op :: rest, h => by
    rw [opsValid] at h ⊢
    exact ⟨h.1.mono le, opsValid_mono (Set.union_subset_union_left _ le) h.2⟩

theorem blocksValid_mono {R : Rules} {s t : Set Value} (le : s ⊆ t) :
    ∀ {blocks : List Block}, blocksValid R s blocks → blocksValid R t blocks
  | [], _ => by
    rw [blocksValid]
    exact trivial
  | block :: rest, h => by
    rw [blocksValid] at h ⊢
    exact ⟨h.1.mono le, blocksValid_mono le h.2⟩

end

end Mono

section Empties

mutual

/-- Only the statement's own `tensor.empty` tell `empty` from another demand. -/
theorem Op.Valid.retarget {R : Rules} {empty : List Value → MlirTy → Prop} :
    ∀ {op : Op} {s : Set Value}, op.Valid R s →
      (∀ o ∈ op.own, o.code = .tensorEmpty → ∀ v ∈ o.results, empty o.operands v.ty) →
      op.Valid { R with empty } s
  | .mk code operands results regions, s, h, own => by
    rw [Op.Valid] at h ⊢
    obtain ⟨seen, ours, allowed, inner⟩ := h
    refine ⟨seen, ours, ?_, ?_⟩
    · cases code with
      | call callee => exact allowed
      | tensorEmpty =>
        intro ty hty
        obtain ⟨v, hv, rfl⟩ := List.mem_map.mp hty
        have self : Op.mk .tensorEmpty operands results regions ∈
            (Op.mk .tensorEmpty operands results regions).own := by simp [Op.own]
        exact own _ self rfl v hv
      | _ => exact trivial
    · cases code with
      | scfForall => exact blocksValid_retarget inner fun o ho => own o (by simp [Op.own, ho])
      | _ => exact inner

theorem Block.Valid.retarget {R : Rules} {empty : List Value → MlirTy → Prop} :
    ∀ {block : Block} {s : Set Value}, block.Valid R s →
      (∀ o ∈ block.own, o.code = .tensorEmpty → ∀ v ∈ o.results, empty o.operands v.ty) →
      block.Valid { R with empty } s
  | .mk args ops yield, s, h, own => by
    rw [Block.Valid] at h ⊢
    exact ⟨h.1, opsValid_retarget h.2.1 fun o ho => own o (by rwa [Block.own]), h.2.2⟩

theorem opsValid_retarget {R : Rules} {empty : List Value → MlirTy → Prop} :
    ∀ {ops : List Op} {s : Set Value}, opsValid R s ops →
      (∀ o ∈ ownOps ops, o.code = .tensorEmpty → ∀ v ∈ o.results, empty o.operands v.ty) →
      opsValid { R with empty } s ops
  | [], _, _, _ => by
    rw [opsValid]
    exact trivial
  | op :: rest, s, h, own => by
    rw [opsValid] at h ⊢
    exact ⟨h.1.retarget fun o ho => own o (by simp [ownOps, ho]),
      opsValid_retarget h.2 fun o ho => own o (by simp [ownOps, ho])⟩

theorem blocksValid_retarget {R : Rules} {empty : List Value → MlirTy → Prop} :
    ∀ {blocks : List Block} {s : Set Value}, blocksValid R s blocks →
      (∀ o ∈ blocksOwn blocks, o.code = .tensorEmpty → ∀ v ∈ o.results, empty o.operands v.ty) →
      blocksValid { R with empty } s blocks
  | [], _, _, _ => by
    rw [blocksValid]
    exact trivial
  | block :: rest, s, h, own => by
    rw [blocksValid] at h ⊢
    exact ⟨h.1.retarget fun o ho => own o (by simp [blocksOwn, ho]),
      blocksValid_retarget h.2 fun o ho => own o (by simp [blocksOwn, ho])⟩

end

end Empties

theorem opsValid_append {R : Rules} {s : Set Value} {xs ys : List Op} :
    opsValid R s (xs ++ ys) ↔ opsValid R s xs ∧ opsValid R (defined s xs) ys := by
  induction xs generalizing s with
  | nil => simp [opsValid, defined]
  | cons op xs ih => simp only [List.cons_append, opsValid, ih, defined_cons, and_assoc]

theorem blocksValid_iff {R : Rules} {s : Set Value} {blocks : List Block} :
    blocksValid R s blocks ↔ ∀ b ∈ blocks, b.Valid R s := by
  induction blocks with
  | nil => simp [blocksValid]
  | cons b blocks ih => simp [blocksValid, ih]

/-- Run where the values of `S` are in scope, `m` inserts operations that are valid, and `Q`
holds of its result and what is in scope then. -/
def Emit.Keeps {α : Type} (R : Rules) (S : Set Value) (m : Emit α)
    (Q : Set Value → α → Prop) : Prop :=
  ∀ D ip a ip', m.run ip = .ok (a, ip') → ip.func = R.func → S ⊆ D →
    ∃ new, ip'.ops = ip.ops ++ new ∧ opsValid R D new ∧ Q (defined D new) a

abbrev Seen (S : Set Value) (v : Value) : Prop := v ∈ S

def AllSeen (S : Set Value) (vs : List Value) : Prop := ∀ v ∈ vs, v ∈ S

namespace AllSeen

variable {S : Set Value} {v : Value} {vs ws : List Value}

@[simp] theorem nil : AllSeen S [] := fun v hv => by cases hv

@[simp] theorem cons : AllSeen S (v :: vs) ↔ v ∈ S ∧ AllSeen S vs := List.forall_mem_cons

@[simp] theorem append : AllSeen S (vs ++ ws) ↔ AllSeen S vs ∧ AllSeen S ws :=
  List.forall_mem_append

theorem mono {T : Set Value} (h : AllSeen S vs) (le : S ⊆ T) : AllSeen T vs :=
  fun v hv => le (h v hv)

theorem subset (h : AllSeen S vs) (sub : ws ⊆ vs) : AllSeen S ws := fun v hv => h v (sub hv)

end AllSeen

namespace Emit.Keeps

variable {α β : Type} {R : Rules} {S : Set Value}

theorem pure {a : α} {Q : Set Value → α → Prop} (h : ∀ S', S ⊆ S' → Q S' a) :
    Emit.Keeps R S (Pure.pure a) Q := by
  intro D ip b ip' run own le
  obtain ⟨rfl, rfl⟩ := Tracked.pure_ok.mp run
  exact ⟨[], by simp, by rw [opsValid]; trivial, h _ (le.trans (subset_defined _ _))⟩

theorem throw {e : Err} {Q : Set Value → α → Prop} : Emit.Keeps R S (Tracked.throw e) Q := by
  intro D ip b ip' run
  exact (Tracked.throw_ok.mp run).elim

theorem bind {m : Emit α} {f : α → Emit β} {P : Set Value → α → Prop}
    {Q : Set Value → β → Prop} (hm : Emit.Keeps R S m P)
    (hf : ∀ a S', S ⊆ S' → P S' a → Emit.Keeps R S' (f a) Q) : Emit.Keeps R S (m >>= f) Q := by
  intro D ip b ip' run own le
  obtain ⟨a, mid, hrun, hrest⟩ := Tracked.bind_ok.mp run
  obtain ⟨first, ops, valid, holds⟩ := hm D ip a mid hrun own le
  have same : mid.func = R.func := (m.tracks hrun).func.trans own
  obtain ⟨rest, ops', valid', holds'⟩ := hf a _ (le.trans (subset_defined _ _)) holds
    (defined D first) mid b ip' hrest same subset_rfl
  refine ⟨first ++ rest, ?_, opsValid_append.mpr ⟨valid, valid'⟩, ?_⟩
  · rw [ops', ops, List.append_assoc]
  · rwa [defined_append]

theorem weaken {m : Emit α} {P Q : Set Value → α → Prop} (hm : Emit.Keeps R S m P)
    (h : ∀ S' a, S ⊆ S' → P S' a → Q S' a) : Emit.Keeps R S m Q := by
  intro D ip a ip' run own le
  obtain ⟨new, ops, valid, holds⟩ := hm D ip a ip' run own le
  exact ⟨new, ops, valid, h _ _ (le.trans (subset_defined _ _)) holds⟩

theorem liftExcept (x : Except Err α) :
    Emit.Keeps R S (liftM x : Emit α) fun _ a => x = .ok a := by
  intro D ip a ip' run own le
  obtain ⟨h, rfl⟩ := Tracked.ofExcept_ok.mp run
  exact ⟨[], by simp, by rw [opsValid]; trivial, h⟩

theorem mapM {f : α → Emit β} {Q : Set Value → β → Prop}
    (mono : ∀ s t b, s ⊆ t → Q s b → Q t b) {xs : List α}
    (h : ∀ x ∈ xs, ∀ S', S ⊆ S' → Emit.Keeps R S' (f x) Q) :
    Emit.Keeps R S (xs.mapM f) fun s bs => ∀ b ∈ bs, Q s b := by
  induction xs generalizing S with
  | nil => exact .pure fun _ _ b hb => by cases hb
  | cons x xs ih =>
    rw [List.mapM_cons]
    refine .bind (h x List.mem_cons_self S subset_rfl) fun y S₁ le₁ hy => ?_
    refine .bind (ih fun z hz S' le => h z (List.mem_cons_of_mem _ hz) S' (le₁.trans le)) ?_
    intro ys S₂ le₂ hys
    refine .pure fun S' le b hb => ?_
    rcases List.mem_cons.mp hb with rfl | hb
    · exact mono _ _ _ (le₂.trans le) hy
    · exact mono _ _ _ le (hys b hb)

theorem seenM {f : α → Emit Value} {xs : List α}
    (h : ∀ x ∈ xs, ∀ S', S ⊆ S' → Emit.Keeps R S' (f x) Seen) :
    Emit.Keeps R S (xs.mapM f) AllSeen :=
  mapM (Q := Seen) (fun _ _ _ le hv => le hv) h

theorem one {D : Set Value} {op : Op} (h : op.Valid R D) :
    opsValid R D [op] ∧ ∀ v ∈ op.results, v ∈ defined D [op] := by
  refine ⟨by simpa [opsValid] using h, fun v hv => ?_⟩
  exact .inr ⟨op, List.mem_singleton.mpr rfl, hv⟩

theorem create {code : OpCode} {operands : List Value} {resTys : List MlirTy}
    {regions : List Block} (seen : AllSeen S operands)
    (inner : ∀ b ∈ regions, b.Valid (R.inside code) S)
    (allowed : R.Allow code operands resTys) :
    Emit.Keeps R S (Emit.create code operands resTys regions) AllSeen := by
  intro D ip a ip' run own le
  cases run
  refine ⟨_, rfl, one ?_⟩
  rw [Op.Valid]
  refine ⟨fun v hv => le (seen v hv), ?_, by simpa using allowed, ?_⟩
  · intro v hv
    exact (freshValues_within _ _ _ v hv).1.trans own
  · exact blocksValid_mono le (blocksValid_iff.mpr inner)

theorem create1 {code : OpCode} {operands : List Value} {ty : MlirTy}
    (seen : AllSeen S operands) (allowed : R.Allow code operands [ty]) :
    Emit.Keeps R S (Emit.create1 code operands ty) Seen := by
  intro D ip a ip' run own le
  cases run
  have valid :
      (Op.mk code operands [{ func := ip.func, id := ip.next, ty }] []).Valid R D := by
    rw [Op.Valid, blocksValid]
    refine ⟨fun v hv => le (seen v hv), fun v hv => ?_, allowed, trivial⟩
    rw [List.mem_singleton.mp hv]
    exact own
  exact ⟨_, rfl, (one valid).1, (one valid).2 _ (List.mem_singleton.mpr rfl)⟩

theorem createConstant {attr : ConstAttr} {ty : MlirTy} :
    Emit.Keeps R S (Emit.createConstant attr ty) Seen := by
  intro D ip a ip' run own le
  cases run
  have valid : (Op.mk (.constant attr) []
      [{ func := ip.func, id := ip.next, ty, const := some attr }] []).Valid R D := by
    rw [Op.Valid, blocksValid]
    refine ⟨by simp, fun v hv => ?_, trivial, trivial⟩
    rw [List.mem_singleton.mp hv]
    exact own
  exact ⟨_, rfl, (one valid).1, (one valid).2 _ (List.mem_singleton.mpr rfl)⟩

theorem inBlock {R' : Rules} (func : R'.func = R.func) {argTys : List MlirTy}
    {body : List Value → Emit (List Value)}
    (h : ∀ args S', S ⊆ S' → AllSeen S' args → args.length = argTys.length →
      Emit.Keeps R' S' (body args) AllSeen) :
    Emit.Keeps R S (Emit.inBlock argTys body) fun s block => block.Valid R' s := by
  intro D ip block ip' run own le
  rw [← func] at own
  simp only [Emit.inBlock] at run
  split at run
  · rename_i yield inner hrun
    cases run
    obtain ⟨new, ops, valid, last⟩ := h (freshValues ip.func ip.next argTys)
      (S ∪ {v | v ∈ freshValues ip.func ip.next argTys}) Set.subset_union_left
      (fun v hv => .inr hv) (freshValues_length _ _ _)
      (D ∪ {v | v ∈ freshValues ip.func ip.next argTys}) _ _ _ hrun own
      (Set.union_subset_union_left _ le)
    refine ⟨[], by simp, by rw [opsValid]; trivial, ?_⟩
    rw [List.nil_append] at ops
    have block : (Block.mk (freshValues ip.func ip.next argTys) inner.ops yield).Valid R' D := by
      rw [Block.Valid, ops]
      exact ⟨fun v hv => (freshValues_within _ _ _ v hv).1.trans own, valid, last⟩
    exact block.mono (subset_defined _ _)
  · cases run

theorem inNested {argTys : List MlirTy} {body : List Value → Emit (List Value)}
    (h : ∀ args S', S ⊆ S' → AllSeen S' args → args.length = argTys.length →
      Emit.Keeps R.nested S' (body args) AllSeen) :
    Emit.Keeps R S (Emit.inBlock argTys body) fun s block => block.Valid R.nested s :=
  have func : R.nested.func = R.func := rfl
  inBlock func h

end Emit.Keeps

/-- As `Emit.Keeps`, of the block that a lowering inserts into. -/
def Lower.Keeps {α : Type} (R : Rules) (S : Set Value) (m : Lower α)
    (Q : Set Value → α → Prop) : Prop :=
  ∀ D b a b', m.run b = .ok (a, b') → b.ip.func = R.func → b'.ip.trace <+: R.trace → S ⊆ D →
    R.state b.ip.trace b.module → R.state b'.ip.trace b'.module ∧
      ∃ new, b'.ip.ops = b.ip.ops ++ new ∧ opsValid R D new ∧ Q (defined D new) a

namespace Lower.Keeps

variable {α β : Type} {R : Rules} {S : Set Value}

theorem pure {a : α} {Q : Set Value → α → Prop} (h : ∀ S', S ⊆ S' → Q S' a) :
    Lower.Keeps R S (Pure.pure a) Q := by
  intro D b c b' run own recorded le state
  obtain ⟨rfl, rfl⟩ := Tracked.pure_ok.mp run
  exact ⟨state, [], by simp, by rw [opsValid]; trivial, h _ (le.trans (subset_defined _ _))⟩

theorem throw {e : Stop} {Q : Set Value → α → Prop} : Lower.Keeps R S (Tracked.throw e) Q := by
  intro D b c b' run
  exact (Tracked.throw_ok.mp run).elim

theorem bind {m : Lower α} {f : α → Lower β} {P : Set Value → α → Prop}
    {Q : Set Value → β → Prop} (hm : Lower.Keeps R S m P)
    (hf : ∀ a S', S ⊆ S' → P S' a → Lower.Keeps R S' (f a) Q) :
    Lower.Keeps R S (m >>= f) Q := by
  intro D b c b' run own recorded le state
  obtain ⟨a, mid, hrun, hrest⟩ := Tracked.bind_ok.mp run
  have later := ((f a).tracks hrest).ip.trace
  obtain ⟨state', first, ops, valid, holds⟩ :=
    hm D b a mid hrun own (later.trans recorded) le state
  have same : mid.ip.func = R.func := (m.tracks hrun).ip.func.trans own
  obtain ⟨state'', rest, ops', valid', holds'⟩ := hf a _ (le.trans (subset_defined _ _)) holds
    (defined D first) mid c b' hrest same recorded subset_rfl state'
  refine ⟨state'', first ++ rest, ?_, opsValid_append.mpr ⟨valid, valid'⟩, ?_⟩
  · rw [ops', ops, List.append_assoc]
  · rwa [defined_append]

theorem weaken {m : Lower α} {P Q : Set Value → α → Prop} (hm : Lower.Keeps R S m P)
    (h : ∀ S' a, S ⊆ S' → P S' a → Q S' a) : Lower.Keeps R S m Q := by
  intro D b a b' run own recorded le state
  obtain ⟨state', new, ops, valid, holds⟩ := hm D b a b' run own recorded le state
  exact ⟨state', new, ops, valid, h _ _ (le.trans (subset_defined _ _)) holds⟩

theorem lift {m : Emit α} {Q : Set Value → α → Prop} (hm : Emit.Keeps R S m Q) :
    Lower.Keeps R S (Lower.ofEmit m) Q := by
  intro D b a b' run own recorded le state
  simp only [Lower.ofEmit] at run
  split at run
  · rename_i x ip hrun
    cases run
    have same : ip.trace = b.ip.trace := (m.tracks hrun).same
    exact ⟨by simpa only [same] using state, hm D b.ip a ip hrun own le⟩
  · cases run

theorem liftExcept (x : Except Err α) :
    Lower.Keeps R S (liftM x : Lower α) fun _ a => x = .ok a :=
  lift (.liftExcept x)

theorem inBlock {R' : Rules} (func : R'.func = R.func) (trace : R'.trace = R.trace)
    (sameState : R'.state = R.state) {argTys : List MlirTy}
    {body : List Value → Lower (List Value × α)} {Q : α → Prop}
    (h : ∀ args S', S ⊆ S' → AllSeen S' args → args.length = argTys.length →
      Lower.Keeps R' S' (body args) fun s p => AllSeen s p.1 ∧ Q p.2) :
    Lower.Keeps R S (Lower.inBlock argTys body) fun s p => p.1.Valid R' s ∧ Q p.2 := by
  intro D b p b' run own recorded le state
  rw [← func] at own
  rw [← trace] at recorded
  rw [← sameState] at state ⊢
  simp only [Lower.inBlock] at run
  split at run
  · rename_i yield a inner hrun
    cases run
    obtain ⟨state', new, ops, valid, last, holds⟩ := h (freshValues b.ip.func b.ip.next argTys)
      (S ∪ {v | v ∈ freshValues b.ip.func b.ip.next argTys}) Set.subset_union_left
      (fun v hv => .inr hv) (freshValues_length _ _ _)
      (D ∪ {v | v ∈ freshValues b.ip.func b.ip.next argTys}) _ _ _ hrun own recorded
      (Set.union_subset_union_left _ le) state
    refine ⟨state', [], by simp, by rw [opsValid]; trivial, ?_, holds⟩
    rw [List.nil_append] at ops
    have block :
        (Block.mk (freshValues b.ip.func b.ip.next argTys) inner.ip.ops yield).Valid R' D := by
      rw [Block.Valid, ops]
      exact ⟨fun v hv => (freshValues_within _ _ _ v hv).1.trans own, valid, last⟩
    exact block.mono (subset_defined _ _)
  · cases run

theorem inNested {argTys : List MlirTy} {body : List Value → Lower (List Value × α)}
    {Q : α → Prop}
    (h : ∀ args S', S ⊆ S' → AllSeen S' args → args.length = argTys.length →
      Lower.Keeps R.nested S' (body args) fun s p => AllSeen s p.1 ∧ Q p.2) :
    Lower.Keeps R S (Lower.inBlock argTys body) fun s p => p.1.Valid R.nested s ∧ Q p.2 :=
  have func : R.nested.func = R.func := rfl
  have trace : R.nested.trace = R.trace := rfl
  have state : R.nested.state = R.state := rfl
  inBlock func trace state h

/-- What a recorded statement inserts itself is owned, so the rules of the enclosing block
ask nothing more of it. -/
theorem recording (covers : R.Covers) (owned : ∀ sizes ty, R.owned sizes ty → R.empty sizes ty)
    {stm : Stm} {ctx : Ctx} {m : Lower (List Value × Ctx)}
    {Q : Set Value → List Value × Ctx → Prop} (hm : Lower.Keeps R.lenient S m Q)
    (records : ∀ b values after b' new module, m.run b = .ok ((values, after), b') →
      b'.ip.ops = b.ip.ops ++ new → R.state b'.ip.trace module →
      R.state (b'.ip.trace ++ [⟨stm, ctx, after, values, new⟩]) module) :
    Lower.Keeps R S (Lower.recording stm ctx m) Q := by
  intro D b p b' run own recorded le state
  simp only [Lower.recording] at run
  split at run
  · rename_i values after inner hrun
    cases run
    have before := (List.prefix_append inner.ip.trace _).trans recorded
    obtain ⟨state', new, ops, valid, holds⟩ := hm D b _ inner hrun own before le state
    have event : StmEvent.mk stm ctx after values new ∈ R.trace := by
      refine recorded.subset (List.mem_append_right _ ?_)
      simp [ops]
    have kept := records b values after inner new inner.module hrun ops state'
    refine ⟨by simpa [ops] using kept, new, ops, ?_, holds⟩
    have back : opsValid { R.lenient with empty := R.empty } D new :=
      opsValid_retarget valid fun o ho code v hv => owned _ _ (covers _ event o ho code v hv)
    exact back
  · cases run

end Lower.Keeps

end FutharkMlir
