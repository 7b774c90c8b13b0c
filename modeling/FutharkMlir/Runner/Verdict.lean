import FutharkMlir.Runner.Main

/-! What the runner counts: a suite whose programs are compiled and run passes the cases whose
printed numbers are near the expected ones, and fails the others. -/
namespace FutharkMlir

/-- An entry point with its leading sizes, and what is supplied for the other parameters. -/
structure EntryCall (f : FunDef) (func : FuncOp) (s : Nat) (sizes : VName → Nat)
    (supplies : List Supply) : Prop where
  entry : f.entry = true
  declared : declareFunction f = .ok func
  distinct : (f.params.map Param.name).Nodup
  le : s ≤ f.params.length
  isSize : ∀ p ∈ f.params.take s, p.ty = .prim (.int .int64)
  used : ∀ j p, j < s → f.params[j]? = some p →
    ∃ (i : Nat) (q : Param), f.params[i]? = some q ∧ p.name ∈ q.ty.sizeVars
  conform : List.Forall₂ (Conforms sizes) (f.params.drop s) supplies

def callFlags (f : FunDef) (s : Nat) (sizes : VName → Nat) (supplies : List Supply) : List Text :=
  (f.params.take s).map (fun p => flag (Text.natText (sizes p.name))) ++
    supplies.map fun x => flag x.payload

section Call

variable {f : FunDef} {func : FuncOp} {s : Nat} {sizes : VName → Nat} {supplies : List Supply}

theorem EntryCall.lengths (h : EntryCall f func s sizes supplies) :
    func.sizeArgs.length = f.params.length ∧ f.params.length - s = supplies.length ∧
      (callFlags f s sizes supplies).length = f.params.length := by
  obtain ⟨run, _⟩ := declareFunction_sizeArgs h.declared
  obtain ⟨length, _⟩ := sizeArgs_annotated h.entry run
  have positions := h.conform.length_eq
  rw [List.length_drop] at positions
  refine ⟨length, positions, ?_⟩
  have le := h.le
  simp only [callFlags, List.length_append, List.length_map, List.length_take]
  omega

/-- Every size is found at some array whose shape names it. -/
theorem EntryCall.resolves (h : EntryCall f func s sizes supplies) :
    ∃ sizeVal, resolveSizes s (supplies.map Supply.value) 0 func.sizeArgs [] = .ok sizeVal ∧
      SizesSound (sizeAt sizes f.params) sizeVal ∧
      ∀ j, j < s → (sizeVal.lookup (j : Int)).isSome := by
  obtain ⟨run, _⟩ := declareFunction_sizeArgs h.declared
  obtain ⟨sizeVal, resolve, sound, _, known⟩ :=
    @resolveSizes_resolves (sizeAt sizes f.params) s (supplies.map Supply.value) func.sizeArgs 0
      (fun k refs hk nonSize => by
        rw [Nat.zero_add] at nonSize ⊢
        exact agrees_supplies h.entry run h.conform hk nonSize) [] (by simp [SizesSound])
  refine ⟨sizeVal, resolve, sound, fun j hj => ?_⟩
  obtain ⟨p, hp⟩ : ∃ p, f.params[j]? = some p := by
    have le := h.le
    exact ⟨_, List.getElem?_eq_getElem (by omega)⟩
  obtain ⟨i, q, hq, dim⟩ := h.used j p hj hp
  obtain ⟨refs, hrefs, nonSize, member⟩ := referred h.entry run h.distinct h.isSize hp hq dim
  exact known j ⟨i, refs, hrefs, by omega, member, by omega⟩

theorem EntryCall.flags (h : EntryCall f func s sizes supplies) :
    buildFlags func.sizeArgs (supplies.map Supply.value) = .ok (callFlags f s sizes supplies) := by
  obtain ⟨length, positions, total⟩ := h.lengths
  obtain ⟨sizeVal, resolve, sound, known⟩ := h.resolves
  have le := h.le
  have nSizes : func.sizeArgs.length - (supplies.map Supply.value).length = s := by
    rw [List.length_map]
    omega
  have enough : ¬ func.sizeArgs.length < (supplies.map Supply.value).length := by
    rw [List.length_map]
    omega
  simp only [buildFlags, enough, if_false, nSizes, resolve]
  refine Except.mapM_eq_ok.mpr (List.forall₂_iff_get.mpr ⟨?_, fun i left right => ?_⟩)
  · rw [List.length_range, total, length]
  · simp only [List.get_eq_getElem, List.getElem_range]
    exact flagOf_ok sound known h.conform (List.getElem?_eq_getElem right) le

end Call

/-- The case is compiled to a module with an entry point of the model, its values are read, and
the run on them prints some numbers. -/
structure CaseRun (iree : RunIree) (c : TestCase) (printed expected : List Int) : Prop where
  called : ∃ f func s sizes supplies, EntryCall f func s sizes supplies ∧
    HasValues (supplies.map Supply.value) c.input ∧
    (∃ before rest, (∀ u v, before = u ++ v → v ≠ [] → ¬ entryKey <+: v ++ (entryKey ++
        (Text.join [',', ' '] (printedParams func) ++ ')' :: rest))) ∧
      iree.compile c.path = some (before ++ (entryKey ++
        (Text.join [',', ' '] (printedParams func) ++ ')' :: rest)))) ∧
    ∃ stdout, iree.run c.path (callFlags f s sizes supplies) = some stdout ∧
      PrintsInts (Text.splitLines stdout) printed
  expects : ExpectsInts c.output expected
  small : ∀ v ∈ printed ++ expected, v.natAbs < 2 ^ 64

section Verdict

variable {iree : RunIree} {float : Text → Option FloatLit} {conv : Int → Rat}
  (reads : ∀ t v, Text.IsNumeral t v → v.natAbs < 2 ^ 64 → float t = some (.finite (conv v)))

include reads

theorem runCase_verdict {c : TestCase} {vs ws : List Int} (h : CaseRun iree c vs ws) :
    runCase iree float c = .ok (decide (Close conv vs ws)) := by
  obtain ⟨f, func, s, sizes, supplies, call, values, ⟨before, rest, early, compiled⟩, stdout, ran,
    prints⟩ := h.called
  have length : func.sig.argTypes.length = func.sizeArgs.length := by
    obtain ⟨_, types⟩ := declareFunction_sizeArgs call.declared
    exact types.trans call.lengths.1.symm
  have read := parseValues_iff.mpr values
  have signature := entryParams_printed (outMlir c.path) before rest length early
  have matched := outputMatches_close reads prints h.expects h.small
  simp only [runCase, read, compiled, signature, call.flags, ran, matched, bind, Except.bind]

omit reads in
theorem runCases_verdicts {verdict : TestCase → Bool} {cs : List TestCase} {passed failed : Nat}
    (each : ∀ c ∈ cs, runCase iree float c = .ok (verdict c)) :
    runCases iree float cs passed failed =
      .ok (passed + cs.countP verdict, failed + cs.countP fun c => !verdict c) := by
  induction cs generalizing passed failed with
  | nil => rfl
  | cons c cs ih =>
    obtain ⟨first, others⟩ := List.forall_mem_cons.mp each
    rw [runCases, first]
    cases e : verdict c with
    | true => simp only [ih others, List.countP_cons, e]; simp; omega
    | false => simp only [ih others, List.countP_cons, e]; simp; omega

omit reads in
/-- Where every block is complete and quotes nothing, the cases are the blocks. -/
theorem readCases_complete {file : Text} {bs : List TestBlock}
    (h : WritesBlocks bs (commentText file)) (plain : ∀ b ∈ bs, b.Plain)
    (complete : ∀ b ∈ bs, b.output.isSome = true) :
    readCases file = bs.filterMap TestBlock.case := by
  refine readCases_orderly h ⟨fun b member => (plain b member).1, ?_⟩
  refine List.pairwise_of_forall_mem_list fun b member c _ _ => ?_
  obtain ⟨o, output⟩ := Option.isSome_iff_exists.mp (complete b member)
  exact ⟨o, output, (plain b member).2 o (by simp [output])⟩

def suite (files : List (Text × Text)) (blocks : Text → List TestBlock) : List TestCase :=
  files.flatMap fun file =>
    ((blocks file.2).filterMap TestBlock.case).map fun p => ⟨file.1, p.1, p.2⟩

/-- The counts of the runner, for files of complete blocks. -/
theorem main_verdicts {files : List (Text × Text)} {blocks : Text → List TestBlock}
    {printed expected : TestCase → List Int}
    (written : ∀ file ∈ files, WritesBlocks (blocks file.2) (commentText file.2))
    (plain : ∀ file ∈ files, ∀ b ∈ blocks file.2, b.Plain ∧ b.output.isSome = true)
    (runs : ∀ c ∈ suite files blocks, CaseRun iree c (printed c) (expected c)) :
    main iree float files =
      .ok ((suite files blocks).countP fun c => Close conv (printed c) (expected c),
        (suite files blocks).countP fun c => ¬ Close conv (printed c) (expected c)) := by
  have cases : testCases files = suite files blocks := by
    refine List.flatMap_congr fun file member => ?_
    rw [readCases_complete (written file member) (fun b hb => (plain file member b hb).1)
      (fun b hb => (plain file member b hb).2)]
  rw [main, cases, runCases_verdicts fun c member => runCase_verdict reads (runs c member)]
  simp

end Verdict

def sumFile : Text := ("-- ==\n-- input { [1i32, 2i32] }\n-- output { 3i32 }\n" ++
  "-- ==\n-- input { [1i32, 2i32] }\n-- output { 4i32 }\n").toList

def sumBlock (output : Char) (outputOpen : output ≠ '}') : TestBlock where
  input := " [1i32, 2i32] ".toList
  output := some [' ', output, 'i', '3', '2', ' ']
  inputOpen := by decide +kernel
  outputOpen := by simp [outputOpen.symm]

def sumBlocks : List TestBlock := [sumBlock '3' (by decide), sumBlock '4' (by decide)]

def sumIree (func : FuncOp) : RunIree where
  compile _ := some (entryKey ++ (Text.join [',', ' '] (printedParams func) ++ [')']))
  run _ flags :=
    if flags = ["--input=2".toList, "--input=2xi32=1 2".toList] then
      some "result[0]: i32=3".toList
    else none

def sumExpected (c : TestCase) : List Int := if c.output = " 3i32 ".toList then [3] else [4]

theorem sumFile_written : WritesBlocks sumBlocks (commentText sumFile) := by
  have text : commentText sumFile =
      [] ++ (['=', '='] ++ ([' '] ++ (inputKey ++ ([' '] ++ '{' :: " [1i32, 2i32] ".toList))) ++
        '}' :: ([' '] ++ (outputKey ++ ([' '] ++ '{' :: " 3i32 ".toList)) ++ '}' ::
          ([' '] ++ (['=', '='] ++ ([' '] ++ (inputKey ++ ([' '] ++ '{' ::
            " [1i32, 2i32] ".toList))) ++ '}' ::
              ([' '] ++ (outputKey ++ ([' '] ++ '{' :: " 4i32 ".toList)) ++ '}' :: []))))) := by
    decide +kernel
  rw [text]
  have blank := Text.isGap_blank
  exact .complete Text.isGap_nil rfl (.plain blank blank) (.mk blank blank)
    (.complete blank rfl (.plain blank blank) (.mk blank blank) (.nil Text.isGap_nil))

theorem sumCall {func : FuncOp} (declared : declareFunction (sizedEntry (.var "n")) = .ok func) :
    EntryCall (sizedEntry (.var "n")) func 1 (fun _ => 2) [.array [2] pairLeaf] where
  entry := rfl
  declared := declared
  distinct := by decide
  le := by decide
  isSize := by
    intro p hp
    cases List.mem_singleton.mp hp
    rfl
  used := by
    intro j p hj hp
    obtain rfl : j = 0 := by omega
    cases hp
    exact ⟨1, _, rfl, by decide⟩
  conform := .cons ⟨by simp, by simp, _, _, rfl, .cons rfl .nil⟩ .nil

theorem sumPrints : PrintsInts (Text.splitLines "result[0]: i32=3".toList) [3] := by
  have line : Text.splitLines "result[0]: i32=3".toList = ["result[0]: i32=3".toList] := by
    decide +kernel
  have result : resultLine "result[0]: i32=3".toList = some "i32=3".toList := by decide +kernel
  rw [line]
  exact printsInts_one result (by decide +kernel) (.plain (by decide +kernel)) (by decide +kernel)
    (by decide +kernel)

theorem sumExpects {d : Char} {v : Int} (numeral : Text.IsNumeral [d] v)
    (word : [d, 'i', '3', '2'].all (fun c => !(Text.isSpace c || isMark c)) = true) :
    ExpectsInts [' ', d, 'i', '3', '2', ' '] [v] := by
  have blank : ∀ c ∈ [' '], (Text.isSpace c || isMark c) = true := by
    intro c hc
    cases List.mem_singleton.mp hc
    rfl
  have apart : ∀ c ∈ [d, 'i', '3', '2'], (Text.isSpace c || isMark c) = false := by
    simpa using List.all_eq_true.mp word
  have ends : Pattern.Ends (fun c => !(Text.isSpace c || isMark c)) [' '] := by
    intro c hc
    cases hc
    decide +kernel
  exact ⟨[[d, 'i', '3', '2']], .cons blank (List.cons_ne_nil _ _) apart ends (.nil blank),
    .cons (.typed (w := ['3', '2']) numeral (.inl rfl) (by decide)) .nil⟩

theorem sumValues :
    HasValues ([Supply.array [2] pairLeaf].map Supply.value) " [1i32, 2i32] ".toList := by
  have tokens : tokenize " [1i32, 2i32] ".toList =
      [['['], ['1', 'i', '3', '2'], [','], ['2', 'i', '3', '2'], [']']] := by
    decide +kernel
  refine parseValues_iff.mp ?_
  rw [tokens]
  simp [parseValues, parseTop, parse, parseList, Supply.value, bind, Except.bind, pure,
    Except.pure]
  rfl

theorem sumRun {func : FuncOp} (declared : declareFunction (sizedEntry (.var "n")) = .ok func)
    {output : Text} {v : Int} (expects : ExpectsInts output [v]) (small : v.natAbs < 2 ^ 64) :
    CaseRun (sumIree func) ⟨"tests/sum.fut".toList, " [1i32, 2i32] ".toList, output⟩ [3] [v] where
  called := by
    refine ⟨_, func, 1, fun _ => 2, _, sumCall declared, sumValues,
      ⟨[], [], ?_, rfl⟩, "result[0]: i32=3".toList, ?_, sumPrints⟩
    · intro u v eq nonempty
      exact absurd (List.append_eq_nil_iff.mp eq.symm).2 nonempty
    · have flags : callFlags (sizedEntry (.var "n")) 1 (fun _ => 2) [.array [2] pairLeaf] =
          ["--input=2".toList, "--input=2xi32=1 2".toList] := by
        decide +kernel
      simp only [sumIree, flags, if_true]
  expects := expects
  small := by
    intro w member
    rcases List.mem_cons.mp member with rfl | member
    · decide
    · rwa [List.mem_singleton.mp member]

theorem main_verdicts_sum : ∃ func, declareFunction (sizedEntry (.var "n")) = .ok func ∧
    main (sumIree func) readFloat [("tests/sum.fut".toList, sumFile)] = .ok (1, 1) := by
  obtain ⟨func, declared⟩ := Except.exists_ok (x := declareFunction (sizedEntry (.var "n")))
    (by decide +kernel)
  have three : Text.IsNumeral ['3'] 3 := .plain (by decide +kernel)
  have four : Text.IsNumeral ['4'] 4 := .plain (by decide +kernel)
  have cases : suite [("tests/sum.fut".toList, sumFile)] (fun _ => sumBlocks) =
      [⟨"tests/sum.fut".toList, " [1i32, 2i32] ".toList, " 3i32 ".toList⟩,
        ⟨"tests/sum.fut".toList, " [1i32, 2i32] ".toList, " 4i32 ".toList⟩] := rfl
  have counts := @main_verdicts (sumIree func) readFloat double
    (fun t v h _ => by simp [readFloat, h.read]) [("tests/sum.fut".toList, sumFile)]
    (fun _ => sumBlocks) (fun _ => [3]) sumExpected
    (by
      intro file member
      cases List.mem_singleton.mp member
      exact sumFile_written)
    (by
      intro file member b hb
      rcases List.mem_cons.mp hb with rfl | hb
      · exact ⟨⟨by decide +kernel, by decide +kernel⟩, rfl⟩
      · cases List.mem_singleton.mp hb
        exact ⟨⟨by decide +kernel, by decide +kernel⟩, rfl⟩)
    (by
      intro c member
      rw [cases] at member
      rcases List.mem_cons.mp member with rfl | member
      · exact sumRun declared (sumExpects three (by decide +kernel)) (by decide)
      · cases List.mem_singleton.mp member
        exact sumRun declared (sumExpects four (by decide +kernel)) (by decide))
  refine ⟨func, declared, counts.trans ?_⟩
  rw [cases]
  decide +kernel

end FutharkMlir
