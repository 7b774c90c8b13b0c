import FutharkMlir.Runner.Cases
import FutharkMlir.Runner.Compare
import FutharkMlir.Runner.Reports
import FutharkMlir.Runner.Signature

namespace FutharkMlir

/-- What `run-iree` does: the module that it leaves for a program, and what a run of it with
some flags prints; `none` is a failure. -/
structure RunIree where
  compile : Text → Option Text
  run : Text → List Text → Option Text

/-- `\.fut(_gpu)?$`. -/
def futPattern : Pattern Unit := do
  let _ ← Pattern.text ".fut".toList
  let _ ← Pattern.optional (Pattern.text "_gpu".toList)
  Pattern.atEnd

def dropFut : Text → Text
  | [] => []
  | c :: s =>
    match futPattern.first (c :: s) with
    | some (_, rest) => rest
    | none => c :: dropFut s

def outMlir (path : Text) : Text :=
  "out/".toList ++ dropFut (path.reverse.takeWhile (· != '/')).reverse ++ ".mlir".toList

structure TestCase where
  path : Text
  input : Text
  output : Text

section Runner

variable (iree : RunIree) (float : Text → Option FloatLit)

/-- `_run_case`, without its messages. -/
def runCase (c : TestCase) : Except Failure Bool := do
  let values ← parseValues (tokenize c.input)
  match iree.compile c.path with
  | none => return false
  | some text => do
    let params ← entryParams (outMlir c.path) text
    let flags ← buildFlags params values
    match iree.run c.path flags with
    | none => return false
    | some stdout => outputMatches float stdout c.output

/-- The loop of `main`, which counts the passed and the failed test cases. -/
def runCases : List TestCase → Nat → Nat → Except Failure (Nat × Nat)
  | [], passed, failed => .ok (passed, failed)
  | c :: cs, passed, failed =>
    match runCase iree float c with
    | .ok true => runCases cs (passed + 1) failed
    | .ok false => runCases cs passed (failed + 1)
    | .error (.unsupported _) => runCases cs passed (failed + 1)
    | .error e => .error e

/-- The test cases of the files, each given by its path and its contents. -/
def testCases (files : List (Text × Text)) : List TestCase :=
  files.flatMap fun file => (readCases file.2).map fun p => ⟨file.1, p.1, p.2⟩

/-- `main`, up to the two totals it prints. The exit code, 1 if a test case failed, is left
out. -/
def main (files : List (Text × Text)) : Except Failure (Nat × Nat) :=
  runCases iree float (testCases files) 0 0

variable {iree float}

theorem runCases_cons (c : TestCase) (cs : List TestCase) (passed failed : Nat) :
    (Reports (runCase iree float c) ∧ ∃ p f, p + f = passed + failed + 1 ∧
        runCases iree float (c :: cs) passed failed = runCases iree float cs p f) ∨
      ∃ e, runCase iree float c = .error e ∧ (∀ m, e ≠ .unsupported m) ∧
        runCases iree float (c :: cs) passed failed = .error e := by
  cases run : runCase iree float c with
  | ok verdict =>
    left
    refine ⟨.ok verdict, ?_⟩
    cases verdict with
    | true => exact ⟨passed + 1, failed, by omega, by simp only [runCases, run]⟩
    | false => exact ⟨passed, failed + 1, by omega, by simp only [runCases, run]⟩
  | error e =>
    cases e with
    | unsupported m =>
      left
      constructor
      · intro e h
        cases h
        exact ⟨m, rfl⟩
      · exact ⟨passed, failed + 1, by omega, by simp only [runCases, run]⟩
    | indexError => exact .inr ⟨_, rfl, by simp, by simp only [runCases, run]⟩
    | keyError => exact .inr ⟨_, rfl, by simp, by simp only [runCases, run]⟩
    | fuel => exact .inr ⟨_, rfl, by simp, by simp only [runCases, run]⟩

/-- Where every case is reported at worst, the run counts all of them. -/
theorem runCases_counts {cs : List TestCase} (all : ∀ c ∈ cs, Reports (runCase iree float c))
    (passed failed : Nat) : ∃ p f, runCases iree float cs passed failed = .ok (p, f) ∧
      p + f = passed + failed + cs.length := by
  induction cs generalizing passed failed with
  | nil => exact ⟨passed, failed, rfl, rfl⟩
  | cons c cs ih =>
    obtain ⟨here, rest⟩ := List.forall_mem_cons.mp all
    rcases runCases_cons c cs passed failed with ⟨_, p, f, sum, step⟩ | ⟨e, run, other, _⟩
    · obtain ⟨p', f', run, sum'⟩ := ih rest p f
      refine ⟨p', f', step.trans run, ?_⟩
      rw [List.length_cons]
      omega
    · obtain ⟨m, eq⟩ := here e run
      exact absurd eq (other m)

/-- A run that gets to its end had nothing worse in any case. -/
theorem runCases_ok {cs : List TestCase} {passed failed : Nat} {counts : Nat × Nat}
    (h : runCases iree float cs passed failed = .ok counts) :
    ∀ c ∈ cs, Reports (runCase iree float c) := by
  induction cs generalizing passed failed with
  | nil => simp
  | cons c cs ih =>
    rcases runCases_cons c cs passed failed with ⟨here, p, f, _, step⟩ | ⟨e, _, _, step⟩
    · rw [step] at h
      exact List.forall_mem_cons.mpr ⟨here, ih h⟩
    · rw [step] at h
      cases h

theorem matchParenFrom_reports (j : Nat) (d : Int) (s : Text) : Reports (matchParenFrom j d s) := by
  induction s generalizing j d with
  | nil =>
    intro e h
    cases h
    exact ⟨_, rfl⟩
  | cons c s ih =>
    unfold matchParenFrom
    split
    · exact ih _ _
    · split
      · split
        · exact .ok j
        · exact ih _ _
      · exact ih _ _

theorem entryParams_reports (path text : Text) : Reports (entryParams path text) := by
  unfold entryParams
  split
  · intro e h
    cases h
    exact ⟨_, rfl⟩
  · exact (matchParenFrom_reports _ _ _).bind fun _ => .ok _

/-- The lines end where the contents of a buffer view should follow. -/
def Truncated (lines : List Text) : Prop :=
  ∃ line payload, lines.getLast? = some line ∧ resultLine line = some payload ∧
    "hal.buffer_view".toList <+: payload

theorem Truncated.cons {line : Text} {lines : List Text} (h : Truncated lines) :
    Truncated (line :: lines) := by
  obtain ⟨last, payload, eq, result, view⟩ := h
  refine ⟨last, payload, ?_, result, view⟩
  rw [List.getLast?_cons, eq]
  rfl

theorem resultValues_reports {lines : List Text} (whole : ¬ Truncated lines) :
    Reports (resultValues lines) := by
  fun_induction resultValues lines with
  | case1 => exact .ok []
  | case2 line lines _ ih => exact ih fun h => whole h.cons
  | case3 line payload result view => exact absurd ⟨line, payload, rfl, result, view⟩ whole
  | case4 line payload _ _ next lines ih =>
    exact (ih fun h => whole h.cons.cons).bind fun _ => .ok _
  | case5 line lines payload _ _ ih => exact (ih fun h => whole h.cons).bind fun _ => .ok _

theorem expectedValues_reports (block : Text) : Reports (expectedValues block) :=
  .mapM stripSuffix_reports _

theorem outputMatches_reports {stdout block : Text} (whole : ¬ Truncated (Text.splitLines stdout)) :
    Reports (outputMatches float stdout block) :=
  (resultValues_reports whole).bind fun _ => (expectedValues_reports block).bind fun _ => .ok _

/-- A case is reported at worst if its input can be read, the parameters of its module get
their flags, and what the run prints is whole. -/
theorem runCase_reports {c : TestCase} (outside : ¬ EndsInside c.input)
    (flags : ∀ text params, iree.compile c.path = some text →
      entryParams (outMlir c.path) text = .ok params → Reported params (caseFlags c.input params))
    (whole : ∀ flags stdout, iree.run c.path flags = some stdout →
      ¬ Truncated (Text.splitLines stdout)) : Reports (runCase iree float c) := by
  unfold runCase
  cases parsed : parseValues (tokenize c.input) with
  | error e =>
    intro e' h
    cases h
    rcases parseValues_error parsed with ⟨_, inside⟩ | ⟨reported, _⟩
    · exact absurd inside outside
    · exact reported
  | ok values =>
    change Reports (match iree.compile c.path with | none => _ | some text => _)
    split
    · exact .ok false
    · next text compiled =>
      cases signature : entryParams (outMlir c.path) text with
      | error e =>
        intro e' h
        cases h
        exact entryParams_reports _ _ e signature
      | ok params =>
        have reported := flags text params compiled signature
        have same : caseFlags c.input params = buildFlags params values := by
          rw [caseFlags, parsed]
          rfl
        rw [same] at reported
        apply reported.reports.bind
        intro built
        split
        · exact .ok false
        · next stdout ran => exact outputMatches_reports (whole built stdout ran)

/-- Where this holds of every case, the run counts all of them. -/
theorem main_counts {files : List (Text × Text)}
    (all : ∀ c ∈ testCases files, Reports (runCase iree float c)) :
    ∃ passed failed, main iree float files = .ok (passed, failed) ∧
      passed + failed = (testCases files).length := by
  obtain ⟨passed, failed, run, sum⟩ := runCases_counts all 0 0
  exact ⟨passed, failed, run, by omega⟩

/-- An input that ends inside of an array ends the whole run, whatever follows it. -/
theorem main_stops {files : List (Text × Text)} {c : TestCase} (member : c ∈ testCases files)
    (inside : EndsInside c.input) : ∃ e, main iree float files = .error e := by
  have stops : ¬ Reports (runCase iree float c) := by
    intro reports
    cases parsed : parseValues (tokenize c.input) with
    | ok values =>
      have closed := (parseValues_iff.mp parsed).balanced.closed
      have deep := inside.2
      omega
    | error e =>
      have run : runCase iree float c = .error e := by
        rw [runCase, parsed]
        rfl
      obtain ⟨m, rfl⟩ := reports e run
      rcases parseValues_error parsed with ⟨eq, _⟩ | ⟨_, outside⟩
      · cases eq
      · exact outside inside
  cases run : main iree float files with
  | error e => exact ⟨e, rfl⟩
  | ok counts => exact absurd (runCases_ok run c member) stops

end Runner

end FutharkMlir
