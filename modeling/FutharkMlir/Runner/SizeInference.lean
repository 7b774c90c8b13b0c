import FutharkMlir.Runner.Flags

namespace FutharkMlir

open Pattern (char many many1)

theorem first_int (i : Int) {r : Text} (ends : Pattern.Ends Text.isDigit r)
    {before : Option Char} (apart : before.any Char.isAlphanum = false) :
    (refPattern before).first (Text.intText i ++ r) = some (Text.intText i, r) := by
  have digits : ∀ n, IsDigits (Text.natText n) := fun n =>
    isDigits_decimal (Text.isDecimal_natText n)
  simp only [refPattern, apart, intPattern]
  cases i with
  | ofNat n =>
    apply Pattern.first_bind (first_sign (.inl rfl) (digits n))
    exact Pattern.first_bind (first_digits (digits n) ends) rfl
  | negSucc n =>
    apply Pattern.first_bind (first_sign (s := ['-']) (.inr rfl) (digits (n + 1)))
    exact Pattern.first_bind (first_digits (digits (n + 1)) ends) rfl

theorem refPattern_nil {c : Char} (h : c = ',' ∨ c = ' ' ∨ c = '[' ∨ c = ']')
    (before : Option Char) (s : Text) : refPattern before (c :: s) = [] := by
  have noSign : char (· == '-') (c :: s) = [] := by
    rcases h with rfl | rfl | rfl | rfl <;> rfl
  have noDigit : Text.isDigit c = false := by
    rcases h with rfl | rfl | rfl | rfl <;> decide +kernel
  have none : intPattern (c :: s) = [] := by
    simp [intPattern, Pattern.bind_apply, Pattern.optional, Pattern.orElse, noSign,
      Pattern.pure_apply, Pattern.many1_eq_nil ((Pattern.ends_cons _ c s).mpr noDigit)]
  by_cases blocked : before.any Char.isAlphanum = true
  · simp [refPattern, blocked]
  · simp [refPattern, blocked, none]

theorem intText_ne_nil (i : Int) : Text.intText i ≠ [] := by
  cases i with
  | ofNat n => exact (Text.isDecimal_natText n).1
  | negSucc n => simp [Text.intText]

theorem scan_refs (refs : List Int) {before : Option Char}
    (apart : before.any Char.isAlphanum = false) :
    Pattern.scan refPattern before 0 (Text.join [',', ' '] (refs.map Text.intText) ++ [']']) =
      refs.map Text.intText := by
  have noDigit : ∀ {c : Char} (s : Text), c = ',' ∨ c = ']' → Pattern.Ends Text.isDigit (c :: s) := by
    rintro c s (rfl | rfl) <;> simp only [Pattern.ends_cons] <;> decide +kernel
  induction refs generalizing before with
  | nil => exact Pattern.scan_fail (refPattern_nil (by simp) before [])
  | cons i refs ih =>
    cases refs with
    | nil =>
      simp only [List.map_cons, List.map_nil, Text.join]
      rw [Pattern.scan_match (intText_ne_nil i) (first_int i (noDigit [] (.inr rfl)) apart)]
      rw [Pattern.scan_fail (refPattern_nil (by simp) _ [])]
      rfl
    | cons j refs =>
      have later := @ih (some ' ') (by decide)
      simp only [List.map_cons, Text.join, List.append_assoc, List.cons_append,
        List.nil_append] at later ⊢
      rw [Pattern.scan_match (intText_ne_nil i) (first_int i (noDigit _ (.inl rfl)) apart),
        Pattern.scan_fail (refPattern_nil (by simp) _ _),
        Pattern.scan_fail (refPattern_nil (by simp) _ _), later]

theorem refs_printed (refs : List Int) :
    (Pattern.scan refPattern none 0 (printRefs refs)).map Text.toInt = refs := by
  rw [printRefs, Pattern.scan_fail (refPattern_nil (by simp) none _), scan_refs refs (by decide)]
  simp [Function.comp_def, Text.toInt_intText]

/-- The text in front of the attribute holds no start of it. -/
theorem search_sizeArgs {w r : Text} (noU : 'u' ∉ w) (last : w.getLast? ≠ some 'f') :
    sizeArgsPattern.search (w ++ r) = sizeArgsPattern.search r := by
  apply Pattern.search_fails
  intro u v eq nonempty
  apply Pattern.bind_nil
  apply Pattern.text_eq_nil
  intro start
  subst eq
  match v, nonempty with
  | [c], _ =>
    have head : c = 'f' := (List.cons_prefix_cons.mp start).1.symm
    simp [head] at last
  | c :: d :: v, _ =>
    have tail := (List.cons_prefix_cons.mp start).2
    have second : d = 'u' := (List.cons_prefix_cons.mp tail).1.symm
    simp [second] at noU

theorem natText_noU (n : Nat) : 'u' ∉ Text.natText n := by
  intro member
  exact absurd ((Text.isDecimal_natText n).2 'u' member) (by decide)

theorem printDim_noU (d : Int) : 'u' ∉ printDim d := by
  unfold printDim
  split
  · decide
  · cases d with
    | ofNat n => exact natText_noU n
    | negSucc n => simp [Text.intText, natText_noU]

theorem printElem_noU (e : ElemTy) : 'u' ∉ printElem e := by
  cases e with
  | int w => simp [printElem, natText_noU]
  | float t => simp [printElem, natText_noU]
  | index => decide +kernel

theorem printTy_noU (ty : MlirTy) : 'u' ∉ printTy ty := by
  cases ty with
  | scalar e => exact printElem_noU e
  | tensor shape e =>
    have dims : 'u' ∉ shape.flatMap fun d => printDim d ++ ['x'] := by
      intro member
      obtain ⟨d, _, h⟩ := List.mem_flatMap.mp member
      simp [printDim_noU] at h
    simp only [printTy, List.mem_append, not_or]
    exact ⟨⟨⟨by decide, dims⟩, printElem_noU e⟩, by decide⟩

theorem head_noU (i : Nat) (ty : MlirTy) :
    'u' ∉ ['%', 'a', 'r', 'g'] ++ Text.natText i ++ [':', ' '] ++ printTy ty := by
  simp only [List.mem_append, not_or]
  exact ⟨⟨⟨by decide, natText_noU i⟩, by decide⟩, printTy_noU ty⟩

theorem printTy_last (ty : MlirTy) :
    ∃ c, (printTy ty).getLast? = some c ∧ (c = 'x' ∨ c = '>' ∨ c.isDigit = true) := by
  have digits : ∀ (k : Char) n, ∃ c, (k :: Text.natText n).getLast? = some c ∧
      (c = 'x' ∨ c = '>' ∨ c.isDigit = true) := by
    intro k n
    obtain ⟨nonempty, all⟩ := Text.isDecimal_natText n
    refine ⟨_, List.getLast?_eq_some_getLast (List.cons_ne_nil k _), .inr (.inr ?_)⟩
    rw [List.getLast_cons nonempty]
    exact all _ (List.getLast_mem nonempty)
  cases ty with
  | tensor shape e =>
    refine ⟨'>', ?_, by decide⟩
    rw [printTy, List.getLast?_append]
    rfl
  | scalar e =>
    cases e with
    | int w => exact digits 'i' w
    | float t => exact digits 'f' t.getWidth
    | index => exact ⟨'x', rfl, by decide⟩

theorem first_sizeArgs (refs : List Int) :
    sizeArgsPattern.first
        ("futhark.size_args".toList ++ ([' ', '=', ' '] ++ (printRefs refs ++ ['}']))) =
      some (printRefs refs, ['}']) := by
  have inside : ∀ c ∈ Text.join [',', ' '] (refs.map Text.intText), (c != ']') = true := by
    intro c hc
    rw [bne_iff_ne]
    rintro rfl
    rcases Text.mem_join hc with sep | ⟨t, ht, hc⟩
    · revert sep
      decide
    · obtain ⟨i, _, rfl⟩ := List.mem_map.mp ht
      rcases Text.mem_intText hc with eq | digit
      · cases eq
      · exact absurd digit (by decide)
  have blank := Text.isGap_blank
  apply Pattern.first_bind (Pattern.first_text _ _)
  apply Pattern.first_bind (Pattern.first_many blank (by simp; decide))
  apply Pattern.first_bind (Pattern.first_char _ rfl)
  apply Pattern.first_bind (Pattern.first_many blank (by simp [printRefs]; decide))
  apply Pattern.first_orElse_left
  simp only [printRefs, List.cons_append, List.append_assoc, List.nil_append]
  apply Pattern.first_bind (Pattern.first_char _ rfl)
  apply Pattern.first_bind (Pattern.first_many inside (by simp))
  exact Pattern.first_bind (Pattern.first_char _ rfl) rfl

/-- The runner reads the annotation that was attached. -/
theorem classifyParam_printed (i : Nat) (ty : MlirTy) (refs : Option (List Int)) :
    classifyParam (printParam i ty refs) = refs := by
  obtain ⟨c, last, kind⟩ := printTy_last ty
  have ne : c ≠ 'f' := by
    rintro rfl
    revert kind
    decide
  have noU := head_noU i ty
  cases refs with
  | none =>
    have skip := search_sizeArgs (r := []) noU (by
      rw [List.getLast?_append, last]
      simpa using ne)
    rw [List.append_nil] at skip
    simp only [classifyParam, printParam, skip]
    rfl
  | some refs =>
    have noU' : 'u' ∉ ['%', 'a', 'r', 'g'] ++ Text.natText i ++ [':', ' '] ++ printTy ty ++
        [' ', '{'] := by
      simp only [List.mem_append (t := [' ', '{']), not_or]
      exact ⟨noU, by decide⟩
    have skip : ∀ r, _ = sizeArgsPattern.search r := fun r => search_sizeArgs noU' (by
      rw [List.getLast?_append]
      simp)
    simp only [classifyParam, printParam, skip, Pattern.search_first (first_sizeArgs refs),
      Option.map_some, refs_printed]

theorem classify_printedParams {func : FuncOp}
    (length : func.sig.argTypes.length = func.sizeArgs.length) :
    (printedParams func).map classifyParam = func.sizeArgs := by
  rw [printedParams, List.map_map]
  have read : (classifyParam ∘ fun p : (MlirTy × Option (List Int)) × Nat =>
      printParam p.2 p.1.1 p.1.2) = fun p => p.1.2 := by
    funext p
    exact classifyParam_printed p.2 p.1.1 p.1.2
  rw [read]
  have forget : (fun p : (MlirTy × Option (List Int)) × Nat => p.1.2) = Prod.snd ∘ Prod.fst := rfl
  rw [forget, ← List.map_map, List.zipIdx_map_fst, List.map_snd_zip (by omega)]

/-- Every entry of the table is right. -/
def SizesSound (size : Int → Nat) (sizeVal : List (Int × Nat)) : Prop :=
  ∀ r n, sizeVal.lookup r = some n → n = size r

/-- The entries are right, none is lost, and the positions `refs` have one. -/
def Resolves (size : Int → Nat) (refs : Int → Prop) (before : List (Int × Nat))
    (x : Except Failure (List (Int × Nat))) : Prop :=
  ∃ after, x = .ok after ∧ SizesSound size after ∧
    (∀ r, (before.lookup r).isSome → (after.lookup r).isSome) ∧
    ∀ r, refs r → (after.lookup r).isSome

/-- The extents of an array are the sizes that its annotation refers to. -/
def Agrees (size : Int → Nat) (refs : List Int) (extents : List Nat) : Prop :=
  List.Forall₂ (fun r n => 0 ≤ r → n = size r) refs extents

theorem SizesSound.insert {size : Int → Nat} {sizeVal : List (Int × Nat)} {r : Int} {n : Nat}
    (h : SizesSound size sizeVal) (right : n = size r) : SizesSound size ((r, n) :: sizeVal) := by
  intro q m found
  rw [List.lookup_cons] at found
  split at found
  · next eq =>
    cases found
    rw [beq_iff_eq.mp eq]
    exact right
  · exact h q m found

theorem sizesOf_resolves {size : Int → Nat} {v : TestValue} {extents : List Nat}
    (shape : v.shape = .ok extents) {refs : List Int} {dim : Nat}
    (agrees : Agrees size refs (extents.drop dim)) {sizeVal : List (Int × Nat)}
    (sound : SizesSound size sizeVal) :
    Resolves size (fun r => r ∈ refs ∧ 0 ≤ r) sizeVal (sizesOf v dim refs sizeVal) := by
  induction refs generalizing dim sizeVal with
  | nil => exact ⟨sizeVal, rfl, sound, fun _ h => h, by simp⟩
  | cons ref refs ih =>
    obtain ⟨n, rest, head, tail, eq⟩ := List.forall₂_cons_left_iff.mp agrees
    have here : extents[dim]? = some n := by
      have first := congrArg (·[0]?) eq
      simpa using first
    have later : extents.drop (dim + 1) = rest := by
      rw [← List.drop_drop, eq]
      rfl
    rw [← later] at tail
    by_cases negative : ref < 0
    · obtain ⟨after, run, sound', mono, known⟩ := ih tail sound
      refine ⟨after, ?_, sound', mono, ?_⟩
      · rw [sizesOf, if_pos negative, run]
      · rintro r ⟨hr, nonneg⟩
        rcases List.mem_cons.mp hr with rfl | hr
        · omega
        · exact known r ⟨hr, nonneg⟩
    · obtain ⟨after, run, sound', mono, known⟩ := ih tail (sound.insert (head (by omega)))
      refine ⟨after, ?_, sound', ?_, ?_⟩
      · rw [sizesOf, if_neg negative, shape]
        simp only [bind, Except.bind, here, run]
      · intro r hr
        apply mono
        rw [List.lookup_cons]
        split
        · rfl
        · exact hr
      · rintro r ⟨hr, nonneg⟩
        rcases List.mem_cons.mp hr with rfl | hr
        · apply mono
          simp
        · exact known r ⟨hr, nonneg⟩

theorem resolveSizes_resolves {size : Int → Nat} {nSizes : Nat} {values : List TestValue}
    {params : List (Option (List Int))} {i : Nat}
    (agrees : ∀ k refs, params[k]? = some (some refs) → nSizes ≤ i + k →
      ∃ v extents, bound nSizes values (i + k) = some v ∧ v.shape = .ok extents ∧
        Agrees size refs extents)
    {sizeVal : List (Int × Nat)} (sound : SizesSound size sizeVal) :
    Resolves size
      (fun r => ∃ k refs, params[k]? = some (some refs) ∧ nSizes ≤ i + k ∧ r ∈ refs ∧ 0 ≤ r)
      sizeVal (resolveSizes nSizes values i params sizeVal) := by
  induction params generalizing i sizeVal with
  | nil => exact ⟨sizeVal, rfl, sound, fun _ h => h, by simp⟩
  | cons param params ih =>
    have tail : ∀ k refs, params[k]? = some (some refs) → nSizes ≤ i + 1 + k →
        ∃ v extents, bound nSizes values (i + 1 + k) = some v ∧ v.shape = .ok extents ∧
          Agrees size refs extents := by
      intro k refs hk le
      rw [show i + 1 + k = i + (k + 1) by omega] at le ⊢
      exact agrees (k + 1) refs hk le
    -- The parameter at position `i` adds nothing, or what its own loop adds.
    have step : ∃ middle, resolveSizes nSizes values i (param :: params) sizeVal =
          resolveSizes nSizes values (i + 1) params middle ∧ SizesSound size middle ∧
        (∀ r, (sizeVal.lookup r).isSome → (middle.lookup r).isSome) ∧
        ∀ refs, param = some refs → nSizes ≤ i → ∀ r ∈ refs, 0 ≤ r → (middle.lookup r).isSome := by
      cases param with
      | none => exact ⟨sizeVal, rfl, sound, fun _ h => h, by simp⟩
      | some refs =>
        by_cases le : nSizes ≤ i
        · obtain ⟨v, extents, hv, shape, agree⟩ := agrees 0 refs rfl le
          have whole : Agrees size refs (extents.drop 0) := agree
          obtain ⟨middle, run, sound', mono, known⟩ := sizesOf_resolves shape whole sound
          refine ⟨middle, ?_, sound', mono, ?_⟩
          · rw [Nat.add_zero] at hv
            simp only [resolveSizes, hv, run]
            rfl
          · rintro refs' eq _ r hr nonneg
            cases eq
            exact known r ⟨hr, nonneg⟩
        · have unbound : bound nSizes values i = none := by
            rw [bound, if_pos (by omega)]
          refine ⟨sizeVal, ?_, sound, fun _ h => h, ?_⟩
          · simp only [resolveSizes, unbound]
          · intro _ _ le'
            omega
    obtain ⟨middle, eq, sound', mono, known⟩ := step
    obtain ⟨after, run, sound'', mono', known'⟩ := ih tail sound'
    refine ⟨after, by rw [eq, run], sound'', fun r hr => mono' r (mono r hr), ?_⟩
    rintro r ⟨k, refs, hk, le, hr, nonneg⟩
    cases k with
    | zero =>
      simp only [List.getElem?_cons_zero, Option.some.injEq] at hk
      exact mono' r (known refs hk (by omega) r hr nonneg)
    | succ k => exact known' r ⟨k, refs, hk, by omega, hr, nonneg⟩

/-- A scalar, or a rectangular array of literals. -/
inductive Supply where
  | scalar (l : Literal)
  | array (extents : List Nat) (leaf : List Nat → Literal)

def Supply.value : Supply → TestValue
  | .scalar l => .scalar l.text
  | .array extents leaf => rectangular extents fun p => (leaf p).text

/-- Extents and element type, and the numbers in row-major order. -/
def Supply.payload : Supply → Text
  | .scalar l => l.number
  | .array extents leaf =>
    payloadText extents (leaf (extents.map fun _ => 0)).suffix
      ((points extents).map fun p => (leaf p).number)

/-- The extent of a dimension when the sizes are assigned to their names. -/
def DimExtent (sizes : VName → Nat) : SubExp → Nat → Prop
  | .var x, n => n = sizes x
  | .const c, n => c.getIntValue = .ok (n : Int)

/-- The value has the shape that its parameter declares. -/
def Conforms (sizes : VName → Nat) (p : Param) : Supply → Prop
  | .scalar _ => ∃ t, p.ty = .prim t
  | .array extents _ => extents ≠ [] ∧ (∀ n ∈ extents, 1 ≤ n) ∧
    ∃ elem dims, p.ty = .array elem dims ∧ List.Forall₂ (DimExtent sizes) dims extents

theorem payload_supply {sizes : VName → Nat} {p : Param} {x : Supply} (h : Conforms sizes p x) :
    payload x.value = .ok x.payload := by
  cases x with
  | scalar l => exact stripSuffix_literal l
  | array extents leaf => exact payload_rectangular h.1 h.2.1 leaf

def sizeAt (sizes : VName → Nat) (params : List Param) (r : Int) : Nat :=
  (params[r.toNat]?).elim 0 fun p => sizes p.name

theorem sizeAt_named {sizes : VName → Nat} {params : List Param} {j : Nat} {x : VName}
    (h : NamedAt params j x) : sizeAt sizes params j = sizes x := by
  obtain ⟨p, hp, rfl⟩ := h
  simp [sizeAt, hp]

/-- The annotation of an array agrees with the extents of a value that conforms. -/
theorem agrees_conforms {sizes : VName → Nat} {params : List Param} {i : Nat} {dims : List SubExp}
    {refs : List Int} {extents : List Nat} (annotated : List.Forall₂ (DimAnnotated params i) dims refs)
    (conform : List.Forall₂ (DimExtent sizes) dims extents) :
    Agrees (sizeAt sizes params) refs extents := by
  induction annotated generalizing extents with
  | nil =>
    cases conform
    exact .nil
  | cons head _ ih =>
    cases conform with
    | cons extent rest =>
      refine .cons ?_ (ih rest)
      intro nonneg
      cases head with
      | size _ named => exact extent.trans (sizeAt_named named).symm
      | constant => omega

section Entry

variable {f : FunDef} {func : FuncOp} {s : Nat} {sizes : VName → Nat} {supplies : List Supply}

theorem declareFunction_sizeArgs (declared : declareFunction f = .ok func) :
    sizeArgs f = .ok func.sizeArgs ∧ func.sig.argTypes.length = f.params.length := by
  obtain ⟨sig, hsig, args, hargs, rfl⟩ := by
    simpa only [declareFunction, Except.bind_eq_ok, Except.pure_eq_ok] using declared
  obtain ⟨rets, _, types, htypes, rfl⟩ := by
    simpa only [funcSig, Except.bind_eq_ok, Except.pure_eq_ok] using hsig
  refine ⟨hargs, ?_⟩
  have length := (Except.mapM_eq_ok.mp htypes).length_eq
  simpa using length.symm

/-- The annotated arrays behind the first `s` parameters get values of the right sizes. -/
theorem agrees_supplies (entry : f.entry = true) {args : List (Option (List Int))}
    (run : sizeArgs f = .ok args)
    (conform : List.Forall₂ (Conforms sizes) (f.params.drop s) supplies) {k : Nat}
    {refs : List Int} (hk : args[k]? = some (some refs)) (le : s ≤ k) :
    ∃ v extents, bound s (supplies.map Supply.value) k = some v ∧ v.shape = .ok extents ∧
      Agrees (sizeAt sizes f.params) refs extents := by
  obtain ⟨length, annotated⟩ := sizeArgs_annotated entry run
  have lt : k < f.params.length := length ▸ (List.getElem?_eq_some_iff.mp hk).1
  obtain ⟨pos, hpos, here⟩ := annotated k _ (List.getElem?_eq_getElem lt)
  rw [hk] at hpos
  cases hpos
  have dropped : (f.params.drop s)[k - s]? = some f.params[k] := by
    rw [List.getElem?_drop, show s + (k - s) = k by omega, List.getElem?_eq_getElem lt]
  obtain ⟨x, hx, match'⟩ := List.forall₂_getElem? conform dropped
  have value : bound s (supplies.map Supply.value) k = some x.value := by
    rw [bound, if_neg (by omega), List.getElem?_map, hx]
    rfl
  unfold ParamAnnotated at here
  split at here
  · next elem dims eq =>
    obtain ⟨ps, same, dimwise⟩ := here
    cases same
    cases x with
    | scalar l =>
      obtain ⟨t, ht⟩ := match'
      rw [eq] at ht
      cases ht
    | array extents leaf =>
      obtain ⟨_, positive, elem', dims', eq', extentwise⟩ := match'
      rw [eq] at eq'
      cases eq'
      exact ⟨_, extents, value, shape_rectangular positive _, agrees_conforms dimwise extentwise⟩
  · cases here

/-- Every size parameter is referred to by an array behind the first `s` parameters. -/
theorem referred (entry : f.entry = true) {args : List (Option (List Int))}
    (run : sizeArgs f = .ok args) (distinct : (f.params.map Param.name).Nodup)
    (isSize : ∀ p ∈ f.params.take s, p.ty = .prim (.int .int64)) {j i : Nat} {p q : Param}
    (hp : f.params[j]? = some p) (hq : f.params[i]? = some q)
    (dim : p.name ∈ q.ty.sizeVars) :
    ∃ refs, args[i]? = some (some refs) ∧ s ≤ i ∧ (j : Int) ∈ refs := by
  obtain ⟨_, annotated⟩ := sizeArgs_annotated entry run
  obtain ⟨pos, hpos, here⟩ := annotated i q hq
  unfold ParamAnnotated at here
  split at here
  · next elem dims eq =>
    obtain ⟨refs, rfl, dimwise⟩ := here
    refine ⟨refs, hpos, ?_, ?_⟩
    · by_contra lt
      have early : q ∈ f.params.take s :=
        List.mem_of_getElem? (i := i) (by rw [List.getElem?_take_of_lt (by omega), hq])
      rw [isSize q early] at eq
      cases eq
    · rw [eq, mem_sizeVars] at dim
      obtain ⟨d, hd⟩ := List.getElem?_of_mem dim
      obtain ⟨r, hr, step⟩ := List.forall₂_getElem? dimwise hd
      cases step with
      | @size x j' _ named =>
        obtain ⟨p', hp', name⟩ := named
        have same : j' = j := by
          have left : (f.params.map Param.name)[j']? = some p.name := by simp [hp', name]
          have right : (f.params.map Param.name)[j]? = some p.name := by simp [hp]
          have lt := (List.getElem?_eq_some_iff.mp left).1
          exact (List.getElem?_inj lt distinct).mp (left.trans right.symm)
        subst same
        exact List.mem_of_getElem? hr
  · next plain =>
    unfold Ty.sizeVars at dim
    split at dim
    · next eq => exact absurd eq (plain _ _)
    · cases dim

/-- The flag at every position: an inferred size, or the payload of a value. -/
theorem flagOf_ok {sizeVal : List (Int × Nat)} (sound : SizesSound (sizeAt sizes f.params) sizeVal)
    (known : ∀ j, j < s → (sizeVal.lookup (j : Int)).isSome)
    (conform : List.Forall₂ (Conforms sizes) (f.params.drop s) supplies) {i : Nat} {t : Text}
    (h : ((f.params.take s).map (fun p => flag (Text.natText (sizes p.name))) ++
      supplies.map fun x => flag x.payload)[i]? = some t) (le : s ≤ f.params.length) :
    flagOf s (supplies.map Supply.value) sizeVal i = .ok t := by
  have length : (f.params.take s).length = s := by simp [le]
  by_cases size : i < s
  · rw [List.getElem?_append_left (by rw [List.length_map, length]; exact size), List.getElem?_map,
      List.getElem?_take_of_lt size] at h
    obtain ⟨p, hp, rfl⟩ := Option.map_eq_some_iff.mp h
    obtain ⟨n, hn⟩ := Option.isSome_iff_exists.mp (known i size)
    have value : n = sizes p.name := (sound i n hn).trans (sizeAt_named ⟨p, hp, rfl⟩)
    simp only [flagOf, size, if_true, hn, value]
  · rw [List.getElem?_append_right (by simp; omega), List.length_map, length,
      List.getElem?_map] at h
    obtain ⟨x, hx, rfl⟩ := Option.map_eq_some_iff.mp h
    have value : bound s (supplies.map Supply.value) i = some x.value := by
      rw [bound, if_neg size, List.getElem?_map, hx]
      rfl
    have positions := conform.length_eq
    have lt := (List.getElem?_eq_some_iff.mp hx).1
    obtain ⟨p, hp⟩ : ∃ p, (f.params.drop s)[i - s]? = some p :=
      ⟨_, List.getElem?_eq_getElem (by omega)⟩
    obtain ⟨y, hy, match'⟩ := List.forall₂_getElem? conform hp
    rw [hx] at hy
    cases hy
    simp only [flagOf, size, if_false, value, payload_supply match']
    rfl

/-- The runner infers the assigned sizes and passes every value as it is supplied. -/
theorem buildFlags_sizeArgs (entry : f.entry = true) (declared : declareFunction f = .ok func)
    (distinct : (f.params.map Param.name).Nodup) (le : s ≤ f.params.length)
    (isSize : ∀ p ∈ f.params.take s, p.ty = .prim (.int .int64))
    (used : ∀ j p, j < s → f.params[j]? = some p →
      ∃ i q, j < i ∧ f.params[i]? = some q ∧ p.name ∈ q.ty.sizeVars)
    (conform : List.Forall₂ (Conforms sizes) (f.params.drop s) supplies) :
    ∃ flags,
      buildFlags ((printedParams func).map classifyParam) (supplies.map Supply.value) = .ok flags ∧
      flags.length = f.params.length ∧
      flags = (f.params.take s).map (fun p => flag (Text.natText (sizes p.name))) ++
        supplies.map fun x => flag x.payload := by
  obtain ⟨run, types⟩ := declareFunction_sizeArgs declared
  obtain ⟨length, _⟩ := sizeArgs_annotated entry run
  rw [classify_printedParams (types.trans length.symm)]
  have positions := conform.length_eq
  rw [List.length_drop] at positions
  have total : ((f.params.take s).map (fun p => flag (Text.natText (sizes p.name))) ++
      supplies.map fun x => flag x.payload).length = f.params.length := by
    simp only [List.length_append, List.length_map, List.length_take]
    omega
  refine ⟨_, ?_, total, rfl⟩
  obtain ⟨sizeVal, resolve, sound, _, known⟩ :=
    @resolveSizes_resolves (sizeAt sizes f.params) s (supplies.map Supply.value) func.sizeArgs 0 (by
      intro k refs hk nonSize
      rw [Nat.zero_add] at nonSize ⊢
      exact agrees_supplies entry run conform hk nonSize) [] (by simp [SizesSound])
  have sizesKnown : ∀ j, j < s → (sizeVal.lookup (j : Int)).isSome := by
    intro j hj
    obtain ⟨p, hp⟩ : ∃ p, f.params[j]? = some p := ⟨_, List.getElem?_eq_getElem (by omega)⟩
    obtain ⟨i, q, _, hq, dim⟩ := used j p hj hp
    obtain ⟨refs, hrefs, nonSize, member⟩ := referred entry run distinct isSize hp hq dim
    exact known j ⟨i, refs, hrefs, by omega, member, by omega⟩
  have nSizes : func.sizeArgs.length - (supplies.map Supply.value).length = s := by
    rw [List.length_map]
    omega
  have enough : ¬ func.sizeArgs.length < (supplies.map Supply.value).length := by
    rw [List.length_map]
    omega
  simp only [buildFlags, enough, if_false, nSizes, resolve]
  refine Except.mapM_eq_ok.mpr (List.forall₂_iff_get.mpr ⟨by rw [List.length_range, total, length], ?_⟩)
  intro i left right
  simp only [List.get_eq_getElem, List.getElem_range]
  exact flagOf_ok sound sizesKnown conform (List.getElem?_eq_getElem right) le

end Entry

def pairLeaf (p : List Nat) : Literal where
  number := if p = [0] then ['1'] else ['2']
  suffix := ['i', '3', '2']
  isNumber := by
    have one : IsDigits ['1'] := isDigits_decimal (by decide)
    have two : IsDigits ['2'] := isDigits_decimal (by decide)
    split
    · exact .whole (.inl rfl) one
    · exact .whole (.inl rfl) two
  isSuffix := .width (.inl rfl) (isDigits_decimal (by decide))

/-- `[1i32, 2i32]` for `main(n : i64, x : [n]i32)`. -/
theorem buildFlags_sizeArgs_pair :
    ∃ func, declareFunction (sizedEntry (.var "n")) = .ok func ∧ ∃ flags,
      buildFlags ((printedParams func).map classifyParam)
          [.list [.scalar "1i32".toList, .scalar "2i32".toList]] = .ok flags ∧
        flags = ["--input=2".toList, "--input=2xi32=1 2".toList] := by
  obtain ⟨func, declared⟩ := Except.exists_ok (x := declareFunction (sizedEntry (.var "n")))
    (by decide +kernel)
  have conform : List.Forall₂ (Conforms fun _ => 2) ((sizedEntry (.var "n")).params.drop 1)
      [.array [2] pairLeaf] := by
    refine .cons ⟨by simp, by simp, _, _, rfl, .cons rfl .nil⟩ .nil
  obtain ⟨flags, run, _, eq⟩ := buildFlags_sizeArgs rfl declared (by decide) (by decide)
    (by
      intro p hp
      cases List.mem_singleton.mp hp
      rfl)
    (by
      intro j p hj hp
      have zero : j = 0 := by omega
      subst zero
      cases hp
      exact ⟨1, _, by omega, rfl, by decide⟩)
    conform
  refine ⟨func, declared, flags, ?_, ?_⟩
  · exact run
  · rw [eq]
    decide +kernel

end FutharkMlir
