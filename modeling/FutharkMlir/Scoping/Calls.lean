import FutharkMlir.Compiler.BlackBox
import FutharkMlir.Scoping.Operations

namespace FutharkMlir

variable {R : Rules} {S : Set Value} (cfg : Config)

theorem getArg_mem {args : List Value} {n i : Nat} {v : Value} (h : getArg args n i = .ok v) :
    v ∈ args := by
  unfold getArg at h
  split at h
  · cases h
  · exact indexed_mem h

theorem lowerMatMul_keeps (any : R.AnyEmpty) {args : List Value} (seen : AllSeen S args)
    (retTypes : List MlirTy) : Emit.Keeps R S (lowerMatMul cfg args retTypes) AllSeen := by
  unfold lowerMatMul
  refine .bind (.liftExcept _) fun _ S₁ le₁ _ => .bind (.liftExcept _) fun _ S₂ le₂ _ => ?_
  refine .bind (.liftExcept _) fun x S₃ le₃ hx => .bind (.liftExcept _) fun y S₄ le₄ hy => ?_
  have seen := seen.mono (le₁.trans (le₂.trans (le₃.trans le₄)))
  have hx := seen x (indexed_mem hx)
  have hy := seen y (indexed_mem hy)
  refine .bind (tensorDim_keeps hx 0) fun m S₅ le₅ hm => ?_
  refine .bind (tensorDim_keeps (le₅ hy) 1) fun n S₆ le₆ hn => ?_
  refine .bind (.liftExcept _) fun retTy S₇ le₇ _ => .bind (.liftExcept _) fun p S₈ le₈ _ => ?_
  obtain ⟨shape, elem⟩ := p
  refine .bind (.liftExcept _) fun sizes S₉ le₉ zip => ?_
  have dynamic : AllSeen S₉ (sizes.filterMap fun p => if isDynamic p.2 then some p.1 else none) := by
    intro v hv
    obtain ⟨p, hp, hv⟩ := List.mem_filterMap.mp hv
    have member : p.1 ∈ [m, n] := (zipEqual_fst cfg zip).2 ▸ List.mem_map_of_mem hp
    have seen : AllSeen S₉ [m, n] := by
      simp [le₉ (le₈ (le₇ hn)), le₉ (le₈ (le₇ (le₆ hm)))]
    split at hv
    · cases hv
      exact seen _ member
    · cases hv
  refine .bind .createConstant fun zero S₁₀ le₁₀ hzero => ?_
  refine .bind (tensorEmpty_keeps any (dynamic.mono le₁₀)) fun empty S₁₁ le₁₁ hempty => ?_
  refine .bind (.create1 (by simp [le₁₁ hzero, hempty]) trivial) fun z S₁₂ le₁₂ hz => ?_
  refine .create ?_ (by simp) trivial
  have le : S₄ ⊆ S₁₂ := le₅.trans (le₆.trans (le₇.trans (le₈.trans (le₉.trans
    (le₁₀.trans (le₁₁.trans le₁₂))))))
  simp [le hx, le hy, hz]

theorem lowerDotGeneral_keeps {args : List Value} (seen : AllSeen S args)
    (retTypes : List MlirTy) : Emit.Keeps R S (lowerDotGeneral cfg args retTypes) AllSeen := by
  unfold lowerDotGeneral
  refine .bind (.liftExcept _) fun _ S₁ le₁ _ => .bind (.liftExcept _) fun _ S₂ le₂ _ => ?_
  refine .bind (.liftExcept _) fun lhs S₃ le₃ hlhs => .bind (.liftExcept _) fun rhs S₄ le₄ hrhs => ?_
  have seen := seen.mono (le₁.trans (le₂.trans (le₃.trans le₄)))
  have operands : AllSeen S₄ [lhs, rhs] := by simp [seen _ (getArg_mem hlhs), seen _ (getArg_mem hrhs)]
  refine .bind (.liftExcept _) fun a2 T₁ l₁ _ => .bind (.liftExcept _) fun d2 T₂ l₂ _ => ?_
  refine .bind (.liftExcept _) fun a3 T₃ l₃ _ => .bind (.liftExcept _) fun d3 T₄ l₄ _ => ?_
  refine .bind (.liftExcept _) fun a4 T₅ l₅ _ => .bind (.liftExcept _) fun d4 T₆ l₆ _ => ?_
  refine .bind (.liftExcept _) fun a5 T₇ l₇ _ => .bind (.liftExcept _) fun d5 T₈ l₈ _ => ?_
  refine .bind (.liftExcept _) fun p T₉ l₉ _ => ?_
  obtain ⟨lhsShape, elem⟩ := p
  refine .bind (.liftExcept _) fun q T₁₀ l₁₀ _ => .bind (.liftExcept _) fun r T₁₁ l₁₁ _ => ?_
  refine .create ?_ (by simp) trivial
  exact operands.mono (l₁.trans (l₂.trans (l₃.trans (l₄.trans (l₅.trans (l₆.trans (l₇.trans
    (l₈.trans (l₉.trans (l₁₀.trans l₁₁))))))))))

theorem lowerRaggedDot_keeps {args : List Value} (seen : AllSeen S args)
    (retTypes : List MlirTy) : Emit.Keeps R S (lowerRaggedDot cfg args retTypes) AllSeen := by
  unfold lowerRaggedDot
  refine .bind (.liftExcept _) fun _ S₁ le₁ _ => .bind (.liftExcept _) fun _ S₂ le₂ _ => ?_
  refine .bind (.liftExcept _) fun lhs S₃ le₃ hlhs => .bind (.liftExcept _) fun rhs S₄ le₄ hrhs => ?_
  refine .bind (.liftExcept _) fun gs S₅ le₅ hgs => ?_
  have seen := seen.mono (le₁.trans (le₂.trans (le₃.trans (le₄.trans le₅))))
  have operands : AllSeen S₅ [lhs, rhs, gs] := by
    simp [seen _ (getArg_mem hlhs), seen _ (getArg_mem hrhs), seen _ (getArg_mem hgs)]
  refine .bind (.liftExcept _) fun a3 T₁ l₁ _ => .bind (.liftExcept _) fun d3 T₂ l₂ _ => ?_
  refine .bind (.liftExcept _) fun a4 T₃ l₃ _ => .bind (.liftExcept _) fun d4 T₄ l₄ _ => ?_
  refine .bind (.liftExcept _) fun a5 T₅ l₅ _ => .bind (.liftExcept _) fun d5 T₆ l₆ _ => ?_
  refine .bind (.liftExcept _) fun a6 T₇ l₇ _ => .bind (.liftExcept _) fun d6 T₈ l₈ _ => ?_
  refine .bind (.liftExcept _) fun a7 T₉ l₉ _ => .bind (.liftExcept _) fun d7 T₁₀ l₁₀ _ => ?_
  refine .bind (.liftExcept _) fun a8 T₁₁ l₁₁ _ => .bind (.liftExcept _) fun d8 T₁₂ l₁₂ _ => ?_
  refine .bind (.liftExcept _) fun p T₁₃ l₁₃ _ => .bind (.liftExcept _) fun q T₁₄ l₁₄ _ => ?_
  obtain ⟨lhsShape, elem⟩ := p
  obtain ⟨rhsShape, elem'⟩ := q
  have operands := operands.mono (l₁.trans (l₂.trans (l₃.trans (l₄.trans (l₅.trans (l₆.trans
    (l₇.trans (l₈.trans (l₉.trans (l₁₀.trans (l₁₁.trans (l₁₂.trans (l₁₃.trans l₁₄)))))))))))))
  dsimp only
  split
  · exact .throw
  refine .bind (.liftExcept _) fun r T₁₅ l₁₅ _ => ?_
  obtain ⟨groupShape, elem''⟩ := r
  dsimp only
  split
  · refine .bind (.pure fun _ _ => trivial) (P := fun _ _ => True) fun g T₁₆ l₁₆ _ => ?_
    refine .bind (.liftExcept _) fun shape T₁₇ l₁₇ _ => ?_
    exact .create (operands.mono (l₁₅.trans (l₁₆.trans l₁₇))) (by simp) trivial
  · exact .bind (P := fun _ _ => True) .throw fun g T₁₆ l₁₆ _ => .bind (.liftExcept _)
      fun shape T₁₇ l₁₇ _ => .create (operands.mono (l₁₅.trans (l₁₆.trans l₁₇))) (by simp) trivial

theorem lowerArgSort_keeps (any : R.AnyEmpty) {args : List Value} (seen : AllSeen S args)
    (retTypes : List MlirTy) : Emit.Keeps R S (lowerArgSort cfg args retTypes) AllSeen := by
  unfold lowerArgSort
  refine .bind (.liftExcept _) fun _ S₁ le₁ _ => .bind (.liftExcept _) fun _ S₂ le₂ _ => ?_
  refine .bind (.liftExcept _) fun inputs S₃ le₃ hinputs => .bind (.liftExcept _) fun st S₄ le₄ _ => ?_
  refine .bind (.liftExcept _) fun stable S₅ le₅ _ => .bind (.liftExcept _) fun p S₆ le₆ _ => ?_
  have seen := seen.mono (le₁.trans (le₂.trans (le₃.trans (le₄.trans (le₅.trans le₆)))))
  have hinputs := seen _ (getArg_mem hinputs)
  obtain ⟨shape, elem⟩ := p
  dsimp only
  split
  · split
    · exact .throw
    refine .bind (tensorDim_keeps hinputs 0) fun n T₁ l₁ hn => ?_
    refine .bind .createConstant fun zero T₂ l₂ hzero => ?_
    refine .bind .createConstant fun one T₃ l₃ hone => ?_
    refine .bind (createIota_keeps any (l₃ (l₂ hn)) (l₃ hzero) hone) fun indices T₄ l₄ hind => ?_
    refine .bind (.inNested fun block S' _ hblock _ => ?_) fun body T₅ l₅ hbody => ?_
    · refine .bind (.liftExcept _) fun x S₁ l₁ hx => .bind (.liftExcept _) fun y S₂ l₂ hy => ?_
      refine .bind (.create1 ?_ trivial) fun lt S₃ l₃ hlt => .pure fun _ le => by simp [le hlt]
      simp [l₂ (l₁ (hblock _ (indexed_mem hx))), l₂ (l₁ (hblock _ (indexed_mem hy)))]
    · refine .bind (.create ?_ (List.forall_mem_singleton.mpr hbody) trivial) fun op T₆ l₆ hop => ?_
      · simp [l₅ (l₄ (l₃ (l₂ (l₁ hinputs)))), l₅ hind]
      refine .bind (.liftExcept _) fun result T₇ l₇ hres => .pure fun _ le => ?_
      simp [le (l₇ (hop _ (indexed_mem hres)))]
  · exact .throw

theorem lowerScatter_keeps {args : List Value} (seen : AllSeen S args)
    (retTypes : List MlirTy) : Emit.Keeps R S (lowerScatter cfg args retTypes) AllSeen := by
  unfold lowerScatter
  refine .bind (.liftExcept _) fun _ S₁ le₁ _ => .bind (.liftExcept _) fun _ S₂ le₂ _ => ?_
  refine .bind (.liftExcept _) fun dest S₃ le₃ hdest => .bind (.liftExcept _) fun ind S₄ le₄ hind => ?_
  refine .bind (.liftExcept _) fun values S₅ le₅ hval => .bind (.liftExcept _) fun p S₆ le₆ _ => ?_
  have seen := seen.mono (le₁.trans (le₂.trans (le₃.trans (le₄.trans (le₅.trans le₆)))))
  refine .bind (.inNested fun block S' _ hblock _ => ?_) fun body T₁ l₁ hbody => ?_
  · refine .bind (.liftExcept _) fun update S₁ l₁ hup => .pure fun _ le => ?_
    simp [le (l₁ (hblock _ (indexed_mem hup)))]
  · refine .create ?_ (List.forall_mem_singleton.mpr hbody) trivial
    simp [l₁ (seen _ (getArg_mem hdest)), l₁ (seen _ (getArg_mem hind)),
      l₁ (seen _ (getArg_mem hval))]

theorem lowerBlackBox_keeps (any : R.AnyEmpty) (b : BlackBox) {args : List Value}
    (seen : AllSeen S args) (retTypes : List MlirTy) :
    Emit.Keeps R S (lowerBlackBox cfg b args retTypes) AllSeen := by
  cases b with
  | matMul => exact lowerMatMul_keeps cfg any seen retTypes
  | dotGeneral => exact lowerDotGeneral_keeps cfg seen retTypes
  | raggedDot => exact lowerRaggedDot_keeps cfg seen retTypes
  | argSort => exact lowerArgSort_keeps cfg any seen retTypes
  | scatter => exact lowerScatter_keeps cfg seen retTypes

theorem createMath_keeps (op : MathOp) {args : List Value} (seen : AllSeen S args) :
    Emit.Keeps R S (createMath op args) AllSeen := by
  unfold createMath
  refine .bind (.liftExcept _) fun first S₁ le₁ _ => ?_
  refine .bind (.create1 (seen.mono le₁) trivial) fun res S₂ _ hres => .pure fun _ le => ?_
  simp [le hres]

theorem lowerIntrinsic_keeps (fname : String) {args : List Value} (seen : AllSeen S args) :
    Emit.Keeps R S (lowerIntrinsic fname args) AllSeen := by
  unfold lowerIntrinsic
  split
  · split
    · refine .bind (.create1 seen trivial) fun res S₁ _ hres => .pure fun _ le => ?_
      simp [le hres]
    · exact .throw
  split
  · exact .throw
  split
  · split
    · exact createMath_keeps _ seen
    · exact .throw
  · exact .throw

end FutharkMlir
