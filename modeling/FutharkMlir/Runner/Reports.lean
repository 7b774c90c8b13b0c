import FutharkMlir.Runner.Supported

namespace FutharkMlir

open Brackets (depth)

/-- What a test case does before it is run, once the parameters are known. -/
def caseFlags (text : Text) (params : List (Option (List Int))) : Except Failure (List Text) := do
  let values ← parseValues (tokenize text)
  buildFlags params values

/-- Either there is one flag for every parameter, or the test case is reported. -/
def Reported (params : List (Option (List Int))) (x : Except Failure (List Text)) : Prop :=
  (∃ flags, x = .ok flags ∧ flags.length = params.length) ∨ ∃ m, x = .error (.unsupported m)

theorem Reported.reports {params : List (Option (List Int))} {x : Except Failure (List Text)}
    (h : Reported params x) : Reports x := by
  rcases h with ⟨flags, rfl, _⟩ | ⟨m, rfl⟩
  · exact .ok flags
  · intro e eq
    cases eq
    exact ⟨m, rfl⟩

/-- The arrays that a test supplies, with the annotations of their parameters. -/
def suppliedArrays (params : List (Option (List Int))) (values : List TestValue) :
    List (TestValue × List Int) :=
  (values.zip (params.drop (params.length - values.length))).filterMap fun p =>
    p.2.map fun refs => (p.1, refs)

/-- The annotations have the ranks of the arrays; a hollow one has any. -/
def SizeArgsMatch (params : List (Option (List Int))) (values : List TestValue) : Prop :=
  ∀ p ∈ suppliedArrays params values, Hollow p.1 ∨ p.2.length = p.1.rank

/-- Every leading parameter is the size of some array. -/
def Sized (params : List (Option (List Int))) (values : List TestValue) : Prop :=
  ∀ i < params.length - values.length, ∃ p ∈ suppliedArrays params values, (i : Int) ∈ p.2

/-- A hollow array is looked into: for a size, or, where all sizes are known, for its payload,
with nothing before it that would be reported. -/
def ReachesHollow (params : List (Option (List Int))) (values : List TestValue) : Prop :=
  (∃ p ∈ suppliedArrays params values, Hollow p.1 ∧ ∃ r ∈ p.2, 0 ≤ r) ∨
    Sized params values ∧ ∃ before v after, values = before ++ v :: after ∧ Hollow v ∧
      ∀ u ∈ before, Supported u

/-- The loop over the parameters is a loop over the arrays supplied. -/
theorem resolveSizes_arrays {nSizes j : Nat} {values : List TestValue}
    {params : List (Option (List Int))} {sizeVal : List (Int × Nat)} :
    resolveSizes nSizes values (nSizes + j) params sizeVal =
      (((values.drop j).zip params).filterMap fun p => p.2.map fun refs => (p.1, refs)).foldlM
        (fun sizeVal p => sizesOf p.1 0 p.2 sizeVal) sizeVal := by
  induction params generalizing j sizeVal with
  | nil => simp [resolveSizes, pure, Except.pure]
  | cons param params ih =>
    have next := @ih (j + 1)
    rw [← Nat.add_assoc] at next
    have here : bound nSizes values (nSizes + j) = values[j]? := by
      rw [bound, if_neg (by omega), Nat.add_sub_cancel_left]
    cases hv : values[j]? with
    | none =>
      have past : values.length ≤ j := List.getElem?_eq_none_iff.mp hv
      have rest : values.drop (j + 1) = [] := List.drop_eq_nil_of_le (by omega)
      rw [rest] at next
      rw [List.drop_eq_nil_of_le past]
      cases param <;> simpa [resolveSizes, here, hv] using next
    | some v =>
      have head : values.drop j = v :: values.drop (j + 1) := by
        obtain ⟨lt, rfl⟩ := List.getElem?_eq_some_iff.mp hv
        exact List.drop_eq_getElem_cons lt
      rw [head]
      cases param with
      | none => simpa [resolveSizes] using next
      | some refs => simp [resolveSizes, here, hv, next]

theorem resolveSizes_unbound {nSizes i : Nat} {values : List TestValue}
    {params : List (Option (List Int))} {sizeVal : List (Int × Nat)} (le : i ≤ nSizes) :
    resolveSizes nSizes values i params sizeVal =
      resolveSizes nSizes values nSizes (params.drop (nSizes - i)) sizeVal := by
  induction params generalizing i with
  | nil => simp [resolveSizes]
  | cons param params ih =>
    rcases Nat.eq_or_lt_of_le le with rfl | lt
    · simp
    · have here : bound nSizes values i = none := by rw [bound, if_pos lt]
      have shift : nSizes - i = nSizes - (i + 1) + 1 := by omega
      have next := ih (i := i + 1) lt
      rw [shift, List.drop_succ_cons]
      cases param with
      | none => simpa [resolveSizes] using next
      | some refs => simpa [resolveSizes, here] using next

theorem resolveSizes_supplied {params : List (Option (List Int))} {values : List TestValue} :
    resolveSizes (params.length - values.length) values 0 params [] =
      (suppliedArrays params values).foldlM (fun sizeVal p => sizesOf p.1 0 p.2 sizeVal) [] := by
  rw [resolveSizes_unbound (Nat.zero_le _), Nat.sub_zero]
  exact @resolveSizes_arrays _ 0 _ _ _

/-- The extents of a hollow array are never asked for, or asking fails; those of any other are
entered for the positions that the annotation names. -/
theorem sizesOf_hollow {v : TestValue} (h : Hollow v) {refs : List Int} {dim : Nat}
    {sizeVal : List (Int × Nat)} :
    sizesOf v dim refs sizeVal =
      if ∃ r ∈ refs, 0 ≤ r then .error .indexError else .ok sizeVal := by
  induction refs generalizing dim with
  | nil => simp [sizesOf]
  | cons ref refs ih =>
    by_cases negative : ref < 0
    · have notHere : ¬ 0 ≤ ref := by omega
      simp only [sizesOf, if_pos negative, ih, List.mem_cons, exists_eq_or_imp, notHere, false_or]
    · have here : ∃ r ∈ ref :: refs, 0 ≤ r := ⟨ref, by simp, by omega⟩
      rw [if_pos here, sizesOf, if_neg negative, shape_hollow h]
      rfl

theorem sizesOf_solid {v : TestValue} {dims : List Nat} (shape : v.shape = .ok dims)
    {refs : List Int} {dim : Nat} (length : dim + refs.length = dims.length)
    {sizeVal : List (Int × Nat)} :
    ∃ after, sizesOf v dim refs sizeVal = .ok after ∧ ∀ r, (after.lookup r).isSome = true ↔
      (sizeVal.lookup r).isSome = true ∨ r ∈ refs ∧ 0 ≤ r := by
  induction refs generalizing dim sizeVal with
  | nil => exact ⟨sizeVal, rfl, by simp⟩
  | cons ref refs ih =>
    rw [List.length_cons] at length
    by_cases negative : ref < 0
    · obtain ⟨after, run, known⟩ := @ih (dim + 1) (by omega) sizeVal
      refine ⟨after, by rw [sizesOf, if_pos negative, run], fun r => ?_⟩
      have other : 0 ≤ r → r ≠ ref := by omega
      rw [known r, List.mem_cons]
      grind
    · have lt : dim < dims.length := by omega
      obtain ⟨after, run, known⟩ := @ih (dim + 1) (by omega) ((ref, dims[dim]) :: sizeVal)
      refine ⟨after, ?_, fun r => ?_⟩
      · rw [sizesOf, if_neg negative, shape]
        simp only [bind, Except.bind, List.getElem?_eq_getElem lt, run]
      · rw [known r, List.lookup_cons, List.mem_cons]
        by_cases eq : r = ref
        · subst eq
          have nonneg : 0 ≤ r := by omega
          simp [nonneg]
        · rw [beq_false_of_ne eq]
          simp only [eq, false_or]

/-- The run over the supplied arrays stops at a hollow one whose extents are asked for, and
else knows exactly the sizes that some annotation names. -/
theorem sizes_supplied {arrays : List (TestValue × List Int)}
    (rank : ∀ p ∈ arrays, Hollow p.1 ∨ p.2.length = p.1.rank) {sizeVal : List (Int × Nat)} :
    (∃ p ∈ arrays, Hollow p.1 ∧ ∃ r ∈ p.2, 0 ≤ r) ∧
        arrays.foldlM (fun sizeVal p => sizesOf p.1 0 p.2 sizeVal) sizeVal = .error .indexError ∨
      (¬ ∃ p ∈ arrays, Hollow p.1 ∧ ∃ r ∈ p.2, 0 ≤ r) ∧ ∃ after,
        arrays.foldlM (fun sizeVal p => sizesOf p.1 0 p.2 sizeVal) sizeVal = .ok after ∧
        ∀ r, (after.lookup r).isSome = true ↔
          (sizeVal.lookup r).isSome = true ∨ ∃ p ∈ arrays, r ∈ p.2 ∧ 0 ≤ r := by
  induction arrays generalizing sizeVal with
  | nil => exact .inr ⟨by simp, sizeVal, rfl, by simp⟩
  | cons p arrays ih =>
    -- One array either fails or adds what its annotation names.
    have step : (Hollow p.1 ∧ ∃ r ∈ p.2, 0 ≤ r) ∧
          sizesOf p.1 0 p.2 sizeVal = .error .indexError ∨
        ¬ (Hollow p.1 ∧ ∃ r ∈ p.2, 0 ≤ r) ∧ ∃ middle, sizesOf p.1 0 p.2 sizeVal = .ok middle ∧
          ∀ r, (middle.lookup r).isSome = true ↔
            (sizeVal.lookup r).isSome = true ∨ r ∈ p.2 ∧ 0 ≤ r := by
      by_cases hollow : Hollow p.1
      · rw [sizesOf_hollow hollow]
        by_cases asked : ∃ r ∈ p.2, 0 ≤ r
        · exact .inl ⟨⟨hollow, asked⟩, if_pos asked⟩
        · refine .inr ⟨fun h => asked h.2, sizeVal, if_neg asked, fun r => ?_⟩
          have none : ¬ (r ∈ p.2 ∧ 0 ≤ r) := fun h => asked ⟨r, h⟩
          simp [none]
      · obtain ⟨dims, shape, length⟩ := shape_solid hollow
        have match' := (rank p (by simp)).resolve_left hollow
        exact .inr ⟨fun h => hollow h.1, sizesOf_solid shape (by omega)⟩
    rw [List.foldlM_cons]
    rcases step with ⟨hit, run⟩ | ⟨miss, middle, run, known⟩
    · exact .inl ⟨⟨p, by simp, hit⟩, by rw [run]; rfl⟩
    · have rest := @ih (fun q hq => rank q (by simp [hq])) middle
      simp only [run, bind, Except.bind, List.mem_cons, exists_eq_or_imp, miss, false_or]
      simp only [known, or_assoc] at rest
      exact rest

section Flags

variable {nSizes : Nat} {values : List TestValue} {sizeVal : List (Int × Nat)}

theorem flagOf_size {i : Nat} (lt : i < nSizes) :
    Reports (flagOf nSizes values sizeVal i) ∧
      ((∃ t, flagOf nSizes values sizeVal i = .ok t) ↔ (sizeVal.lookup (i : Int)).isSome = true) := by
  unfold flagOf
  rw [if_pos lt]
  cases h : sizeVal.lookup (i : Int) with
  | none => simp [Reports]
  | some n => simp [Reports]

theorem flagOf_value {k : Nat} {v : TestValue} (hv : values[k]? = some v) :
    flagOf nSizes values sizeVal (nSizes + k) = flag <$> payload v := by
  have here : bound nSizes values (nSizes + k) = some v := by
    rw [bound, if_neg (by omega), Nat.add_sub_cancel_left, hv]
  rw [flagOf, if_neg (by omega), here]

theorem flagOf_supported {k : Nat} {v : TestValue} (hv : values[k]? = some v) (plain : Plain v) :
    (∃ t, flagOf nSizes values sizeVal (nSizes + k) = .ok t) ↔ Supported v := by
  rw [flagOf_value hv]
  simp only [Except.map_eq_ok]
  by_cases hollow : Hollow v
  · have unsupported : ¬ Supported v := fun supported => supported.solid hollow
    simp [payload_hollow hollow, unsupported]
  · rw [← (payload_solid plain hollow).2]
    constructor
    · rintro ⟨_, t, ht, _⟩
      exact ⟨t, ht⟩
    · rintro ⟨t, ht⟩
      exact ⟨_, t, ht, rfl⟩

/-- With all sizes known, a hollow value behind supported ones ends the flags. -/
theorem flags_stop (plain : PlainList values)
    (sized : ∀ i < nSizes, (sizeVal.lookup (i : Int)).isSome = true)
    {before after : List TestValue} {v : TestValue} (eq : values = before ++ v :: after)
    (hollow : Hollow v) (supported : ∀ u ∈ before, Supported u) :
    (List.range (nSizes + values.length)).mapM (flagOf nSizes values sizeVal) =
      .error .indexError := by
  have here : values[before.length]? = some v := by simp [eq]
  have room : before.length < values.length := by simp [eq]
  refine Except.mapM_range_eq_error.mpr ⟨nSizes + before.length, by omega, ?_, ?_⟩
  · rw [flagOf_value here, payload_hollow hollow]
    rfl
  · intro j hj
    by_cases lt : j < nSizes
    · exact (flagOf_size lt).2.mpr (sized j lt)
    · obtain ⟨i, rfl⟩ : ∃ i, j = nSizes + i := ⟨j - nSizes, by omega⟩
      have inside : i < before.length := by omega
      have earlier : values[i]? = some before[i] := by
        rw [eq, List.getElem?_append_left inside, List.getElem?_eq_getElem inside]
      have member := List.getElem_mem inside
      apply (flagOf_supported earlier (plain.mem _ (by simp [eq, member]))).mpr
      exact supported _ member

/-- The first parameter without a flag is reported, or a hollow value behind supported ones. -/
theorem flagOf_fails (plain : PlainList values) {k : Nat} (lt : k < nSizes + values.length)
    {e : Failure} (failed : flagOf nSizes values sizeVal k = .error e)
    (good : ∀ j < k, ∃ t, flagOf nSizes values sizeVal j = .ok t) :
    (∃ m, e = .unsupported m) ∨ (∀ i < nSizes, (sizeVal.lookup (i : Int)).isSome = true) ∧
      ∃ before v after, values = before ++ v :: after ∧ Hollow v ∧ ∀ u ∈ before, Supported u := by
  by_cases size : k < nSizes
  · exact .inl ((flagOf_size size).1 e failed)
  obtain ⟨i, rfl⟩ : ∃ i, k = nSizes + i := ⟨k - nSizes, by omega⟩
  have inside : i < values.length := by omega
  have member := List.getElem_mem inside
  rw [flagOf_value (List.getElem?_eq_getElem inside), Except.map_eq_error] at failed
  by_cases hollow : Hollow values[i]
  · right
    constructor
    · intro j hj
      exact (flagOf_size hj).2.mp (good j (by omega))
    · refine ⟨values.take i, values[i], values.drop (i + 1), by simp, hollow, fun u hu => ?_⟩
      obtain ⟨j, hj, rfl⟩ := List.mem_take_iff_getElem.mp hu
      have earlier : values[j]? = some values[j] := List.getElem?_eq_getElem (by omega)
      apply (flagOf_supported earlier (plain.mem _ (List.getElem_mem _))).mp
      exact good (nSizes + j) (by omega)
  · exact .inl ((payload_solid (plain.mem _ member) hollow).1 e failed)

/-- Where every size is known, the first value without a flag decides. -/
theorem flags_reported {params : List (Option (List Int))} (plain : PlainList values)
    (total : params.length = nSizes + values.length) :
    Reported params ((List.range params.length).mapM (flagOf nSizes values sizeVal)) ↔
      ¬ ((∀ i < nSizes, (sizeVal.lookup (i : Int)).isSome = true) ∧
        ∃ before v after, values = before ++ v :: after ∧ Hollow v ∧ ∀ u ∈ before, Supported u) := by
  constructor
  · rintro reported ⟨sized, before, v, after, eq, hollow, supported⟩
    rw [total, flags_stop plain sized eq hollow supported] at reported
    rcases reported with ⟨_, h, _⟩ | ⟨_, h⟩ <;> cases h
  · intro none
    cases run : (List.range params.length).mapM (flagOf nSizes values sizeVal) with
    | ok flags =>
      have length := (Except.mapM_eq_ok.mp run).length_eq
      rw [List.length_range] at length
      exact .inl ⟨flags, rfl, length.symm⟩
    | error e =>
      obtain ⟨k, lt, failed, good⟩ := Except.mapM_range_eq_error.mp run
      obtain ⟨m, rfl⟩ := (flagOf_fails plain (by omega) failed good).resolve_right none
      exact .inr ⟨m, rfl⟩

end Flags

theorem buildFlags_reported {params : List (Option (List Int))} {values : List TestValue}
    (plain : PlainList values) (le : values.length ≤ params.length)
    (rank : SizeArgsMatch params values) :
    Reported params (buildFlags params values) ↔ ¬ ReachesHollow params values := by
  have enough : ¬ params.length < values.length := by omega
  have total : params.length = params.length - values.length + values.length := by omega
  rw [buildFlags, if_neg enough]
  simp only [resolveSizes_supplied]
  rcases @sizes_supplied _ rank [] with ⟨hit, run⟩ | ⟨miss, after, run, known⟩
  · rw [run]
    have stopped : ¬ Reported params (.error .indexError) := by
      rintro (⟨_, h, _⟩ | ⟨_, h⟩) <;> cases h
    exact iff_of_false stopped fun none => none (.inl hit)
  · have sized : (∀ i < params.length - values.length, (after.lookup (i : Int)).isSome = true) ↔
        Sized params values := by
      refine forall₂_congr fun i _ => ?_
      rw [known]
      simp
    rw [run]
    simp only [bind, Except.bind]
    rw [flags_reported plain total, sized, ReachesHollow]
    simp only [miss, false_or]

/-- A test input is reported or gets its flags exactly if it does not end inside of an array,
and no hollow array of it is looked into. -/
theorem caseFlags_reported (text : Text) (params : List (Option (List Int)))
    (rank : ∀ values, HasValues values text → values.length ≤ params.length →
      SizeArgsMatch params values) :
    Reported params (caseFlags text params) ↔ ¬ EndsInside text ∧
      ∀ values, HasValues values text → values.length ≤ params.length →
        ¬ ReachesHollow params values := by
  cases run : parseValues (tokenize text) with
  | error e =>
    have none : ∀ values, ¬ HasValues values text := by
      intro values h
      rw [parseValues_iff.mpr h] at run
      cases run
    have failed : caseFlags text params = .error e := by
      rw [caseFlags, run]
      rfl
    rw [failed]
    rcases parseValues_error run with ⟨rfl, inside⟩ | ⟨⟨m, rfl⟩, outside⟩
    · refine iff_of_false ?_ fun h => h.1 inside
      rintro (⟨_, h, _⟩ | ⟨_, h⟩) <;> cases h
    · exact iff_of_true (.inr ⟨m, rfl⟩) ⟨outside, fun values h => absurd h (none values)⟩
  | ok values =>
    have has := parseValues_iff.mp run
    have unique : ∀ values', HasValues values' text → values' = values := by
      intro values' h
      cases run.symm.trans (parseValues_iff.mpr h)
      rfl
    have outside : ¬ EndsInside text := fun inside => by
      have closed := has.balanced.closed
      have open' := inside.2
      omega
    have flags : caseFlags text params = buildFlags params values := by
      rw [caseFlags, run]
      rfl
    rw [flags]
    by_cases le : values.length ≤ params.length
    · rw [buildFlags_reported has.plain le (rank values has le)]
      constructor
      · intro solid
        refine ⟨outside, fun values' h _ => ?_⟩
        rw [unique values' h]
        exact solid
      · intro h
        exact h.2 values has le
    · refine iff_of_true (.inr ⟨.tooFewParams params.length values.length, ?_⟩)
        ⟨outside, fun values' h le' => absurd (unique values' h ▸ le') le⟩
      rw [buildFlags, if_pos (by omega)]

/-- The vector of 1 and 2, for a parameter whose extent is the first argument. -/
theorem caseFlags_reported_pair :
    Reported [none, some [0]] (caseFlags "[1i32, 2i32]".toList [none, some [0]]) := by
  have second : HasValues [.scalar "2i32".toList] "2i32".toList :=
    .scalar (w := "2i32".toList) (s := []) (by decide) (by simp) .nil
  have both : HasValues [.scalar "1i32".toList, .scalar "2i32".toList] "1i32, 2i32".toList :=
    .scalar (w := "1i32".toList) (s := ", 2i32".toList) (by decide) (by simp; decide)
      (.skip (by decide) (.skip (by decide) second))
  have has : HasValues [.list [.scalar "1i32".toList, .scalar "2i32".toList]]
      "[1i32, 2i32]".toList := .list (t := "1i32, 2i32".toList) both .nil
  have only : ∀ values, HasValues values "[1i32, 2i32]".toList →
      values = [.list [.scalar "1i32".toList, .scalar "2i32".toList]] := by
    intro values h
    cases (parseValues_iff.mpr has).symm.trans (parseValues_iff.mpr h)
    rfl
  have solid : ¬ Hollow (.list [.scalar "1i32".toList, .scalar "2i32".toList]) := by
    rintro (_ | ⟨⟨⟩⟩)
  have rank : ∀ values, HasValues values "[1i32, 2i32]".toList →
      values.length ≤ [none, some [(0 : Int)]].length →
      SizeArgsMatch [none, some [0]] values := by
    intro values h _
    rw [only values h]
    intro p hp
    cases List.mem_singleton.mp hp
    exact .inr rfl
  apply (caseFlags_reported _ _ rank).mpr
  constructor
  · intro inside
    have deep := inside.2
    have closed := has.balanced.closed
    omega
  · intro values h _
    rw [only values h]
    rintro (⟨p, hp, hollow, _⟩ | ⟨_, before, v, after, eq, hollow, _⟩)
    · cases List.mem_singleton.mp hp
      exact solid hollow
    · have member : v ∈ [TestValue.list [.scalar "1i32".toList, .scalar "2i32".toList]] := by
        rw [eq]
        exact List.mem_append_right before List.mem_cons_self
      cases List.mem_singleton.mp member
      exact solid hollow

/-- An array that is never closed stops the runner, and so does an empty one. -/
theorem caseFlags_stops :
    caseFlags "[1i32".toList [none, some [0]] = .error .indexError ∧
    caseFlags "[]".toList [none, some [0]] = .error .indexError ∧
    ¬ ∀ text params, (∀ values, HasValues values text → values.length ≤ params.length →
      SizeArgsMatch params values) → Reported params (caseFlags text params) := by
  have unterminated : caseFlags "[1i32".toList [none, some [0]] = .error .indexError := by
    decide +kernel
  refine ⟨unterminated, by decide +kernel, fun always => ?_⟩
  have open' : depth squareWeight "[1i32".toList = 1 := by decide
  have reported := always "[1i32".toList [none, some [0]] fun values h => by
    have closed := h.balanced.closed
    omega
  rw [unterminated] at reported
  rcases reported with ⟨_, h, _⟩ | ⟨_, h⟩ <;> cases h

end FutharkMlir
