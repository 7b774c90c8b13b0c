import FutharkMlir.Lib.Text
import FutharkMlir.Lib.Zip

/-! How the test runner finds the test blocks of a file: all inputs and all outputs, in two
scans that do not know of each other. -/
namespace FutharkMlir

open Pattern (char many manyLazy)

/-- `key\s*\{(.*?)\}`, with its group. -/
def braces (key : Text) : Pattern Text := do
  let _ ← Pattern.text key
  let _ ← many Text.isSpace
  let _ ← char (· == '{')
  let t ← manyLazy (· != '\n')
  let _ ← char (· == '}')
  return t

def inputKey : Text := ['i', 'n', 'p', 'u', 't']

def outputKey : Text := ['o', 'u', 't', 'p', 'u', 't']

/-- What a line holds behind `--`, if it is a comment. -/
def commentLine (line : Text) : Option Text :=
  match line.strip with
  | '-' :: '-' :: s => some (Text.strip s)
  | _ => none

def commentText (file : Text) : Text :=
  Text.join [' '] ((Text.fileLines file).filterMap commentLine)

/-- `_read_cases`, from the contents of the file after newline translation. -/
def readCases (file : Text) : List (Text × Text) :=
  ((braces inputKey).findAll (commentText file)).zip
    ((braces outputKey).findAll (commentText file))

def closings (s : Text) : Nat := s.count '}'

/-- The same scan, with the place of each match. -/
def foundAt (key s : Text) : List (Nat × Text) := ((braces key).marked closings).findAll s

/-- The pairs of `_read_cases`, with the places of their texts. -/
def foundCases (file : Text) : List ((Nat × Text) × Nat × Text) :=
  (foundAt inputKey (commentText file)).zip (foundAt outputKey (commentText file))

theorem foundCases_texts (file : Text) :
    (foundCases file).map (fun p => (p.1.2, p.2.2)) = readCases file := by
  rw [readCases, ← Pattern.findAll_marked closings (braces inputKey),
    ← Pattern.findAll_marked closings (braces outputKey), List.zip_map]
  rfl

/-- A block with its input and perhaps an output, which hold no closing brace. -/
structure TestBlock where
  input : Text
  output : Option Text
  inputOpen : '}' ∉ input
  outputOpen : ∀ o ∈ output, '}' ∉ o

def TestBlock.case (b : TestBlock) : Option (Text × Text) := b.output.map fun o => (b.input, o)

/-- A block up to the brace that closes its input. -/
inductive WritesInput : Text → Text → Prop
  | plain {g h t : Text} : Text.IsGap g → Text.IsGap h →
      WritesInput t (['=', '='] ++ (g ++ (inputKey ++ (h ++ '{' :: t))))
  | random {g h k t : Text} : Text.IsGap g → Text.IsGap h → Text.IsGap k →
      WritesInput t (['=', '='] ++ (g ++ (['r', 'a', 'n', 'd', 'o', 'm'] ++
        (h ++ (inputKey ++ (k ++ '{' :: t))))))

/-- The output of a block up to its closing brace. -/
inductive WritesOutput : Text → Text → Prop
  | mk {g h t : Text} : Text.IsGap g → Text.IsGap h →
      WritesOutput t (g ++ (outputKey ++ (h ++ '{' :: t)))

inductive WritesBlocks : List TestBlock → Text → Prop
  | nil {g : Text} : Text.IsGap g → WritesBlocks [] g
  | incomplete {g s r : Text} {b : TestBlock} {bs : List TestBlock} : Text.IsGap g →
      b.output = none → WritesInput b.input s → WritesBlocks bs r →
      WritesBlocks (b :: bs) (g ++ (s ++ '}' :: r))
  | complete {g s s' r o : Text} {b : TestBlock} {bs : List TestBlock} : Text.IsGap g →
      b.output = some o → WritesInput b.input s → WritesOutput o s' → WritesBlocks bs r →
      WritesBlocks (b :: bs) (g ++ (s ++ '}' :: (s' ++ '}' :: r)))

def opens (key s : Text) : Option Text :=
  if key <+: s then
    match (s.drop key.length).dropWhile Text.isSpace with
    | '{' :: r => some r
    | _ => none
  else none

def quoted (key : Text) : Text → Option Text
  | [] => none
  | c :: s => (opens key (c :: s)).or (quoted key s)

section Scan

variable {key : Text}

theorem opens_iff {s r : Text} :
    opens key s = some r ↔ ∃ g, Text.IsGap g ∧ s = key ++ (g ++ '{' :: r) := by
  unfold opens
  constructor
  · intro h
    split at h
    · next start =>
      split at h
      · next r' eq =>
        cases h
        obtain ⟨rest, rfl⟩ := start
        rw [List.drop_left] at eq
        refine ⟨rest.takeWhile Text.isSpace, fun c hc => List.mem_takeWhile_imp hc, ?_⟩
        rw [← eq, List.takeWhile_append_dropWhile]
      · cases h
    · cases h
  · rintro ⟨g, gap, rfl⟩
    have skip : (g ++ '{' :: r).dropWhile Text.isSpace = '{' :: r := by
      rw [List.dropWhile_append_of_pos gap]
      rfl
    simp [skip]

/-- A key that opens in front of a closing brace matches up to that brace. -/
theorem first_braces {s r t : Text} (h : opens key s = some t) (close : '}' ∉ t)
    (line : '\n' ∉ t) : (braces key).first (s ++ '}' :: r) = some (t, r) := by
  obtain ⟨g, gap, rfl⟩ := opens_iff.mp h
  simp only [List.append_assoc, List.cons_append]
  apply Pattern.first_bind (Pattern.first_text _ _)
  apply Pattern.first_bind (Pattern.first_many gap (by simp; decide))
  apply Pattern.first_bind (Pattern.first_char _ rfl)
  apply Pattern.first_manyLazy
  · intro c hc
    rw [bne_iff_ne]
    rintro rfl
    exact line hc
  · intro u v eq nonempty
    obtain ⟨c, v, rfl⟩ := List.exists_cons_of_ne_nil nonempty
    apply Pattern.bind_nil
    apply Pattern.char_nil
    rw [beq_eq_false_iff_ne]
    rintro rfl
    exact close (by simp [eq])
  · exact Pattern.first_bind (Pattern.first_char _ rfl) rfl

theorem braces_nil {s : Text} (h : opens key s = none) : braces key s = [] := by
  unfold braces
  by_cases start : key <+: s
  · obtain ⟨s, rfl⟩ := start
    rw [Pattern.bind_apply, Pattern.text_apply, List.flatMap_singleton, Pattern.bind_eq_nil]
    intro m hm
    obtain ⟨split, gap⟩ := Pattern.mem_many hm
    apply Pattern.bind_nil
    cases rest : m.2 with
    | nil => rfl
    | cons c r =>
      apply Pattern.char_nil
      rw [beq_eq_false_iff_ne]
      rintro rfl
      have whole : s = m.1 ++ '{' :: r := rest ▸ split
      have found : opens key (key ++ s) = some r := opens_iff.mpr ⟨m.1, gap, by rw [whole]⟩
      rw [h] at found
      cases found
  · exact Pattern.bind_nil (Pattern.text_eq_nil start)

/-- A closing brace further on does not change where the key opens. -/
theorem opens_before {s r : Text} (keyOpen : '}' ∉ key) (h : opens key s = none) :
    opens key (s ++ '}' :: r) = none := by
  cases found : opens key (s ++ '}' :: r) with
  | none => rfl
  | some t =>
    exfalso
    obtain ⟨g, gap, eq⟩ := opens_iff.mp found
    have clear : '}' ∉ key ++ (g ++ ['{']) := by
      simp only [List.mem_append, not_or]
      exact ⟨keyOpen, fun member => absurd (gap '}' member) (by decide), by decide⟩
    have whole : s ++ '}' :: r = (key ++ (g ++ ['{'])) ++ t := by simp [eq]
    rcases List.append_eq_append_iff.mp whole with ⟨c, split, eq'⟩ | ⟨a, rfl, _⟩
    · cases c with
      | nil =>
        rw [List.append_nil] at split
        have here : opens key s = some [] := opens_iff.mpr ⟨g, gap, split.symm⟩
        rw [h] at here
        cases here
      | cons d c =>
        cases eq'
        rw [split] at clear
        simp at clear
    · have here : opens key (key ++ (g ++ ['{']) ++ a) = some a :=
        opens_iff.mpr ⟨g, gap, by simp⟩
      rw [h] at here
      cases here

theorem closings_open {s r : Text} (h : '}' ∉ s) : closings (s ++ r) = closings r := by
  rw [closings, List.count_append, List.count_eq_zero.mpr h, Nat.zero_add, closings]

/-- Up to a closing brace a scan finds what is quoted, if anything. -/
theorem foundAt_brace (nonempty : key ≠ []) (keyOpen : '}' ∉ key) {s : Text} (close : '}' ∉ s)
    (line : '\n' ∉ s) (r : Text) :
    foundAt key (s ++ '}' :: r) =
      (quoted key s).toList.map (fun t => (closings r + 1, t)) ++ foundAt key r := by
  induction s with
  | nil =>
    have noKey : opens key ('}' :: r) = none := by
      refine opens_before (s := []) keyOpen ?_
      cases key with
      | nil => exact absurd rfl nonempty
      | cons c k => simp [opens]
    exact Pattern.findAll_fail (Pattern.marked_nil _ (braces_nil noKey))
  | cons c s ih =>
    cases here : opens key (c :: s) with
    | none =>
      have fails := Pattern.marked_nil closings (braces_nil (opens_before (r := r) keyOpen here))
      rw [foundAt, List.cons_append] at *
      rw [Pattern.findAll_fail fails, quoted, here, Option.none_or]
      exact ih (fun h => close (by simp [h])) (fun h => line (by simp [h]))
    | some t =>
      have suffix : t <:+ c :: s := by
        obtain ⟨g, _, eq⟩ := opens_iff.mp here
        exact ⟨key ++ (g ++ ['{']), by simp [eq]⟩
      have found := first_braces (r := r) here (fun h => close (suffix.mem h))
        (fun h => line (suffix.mem h))
      have place : closings (c :: s ++ '}' :: r) = closings r + 1 := by
        rw [closings_open close]
        exact List.count_cons_self
      have marked := Pattern.first_marked closings (braces key) (c :: s ++ '}' :: r)
      rw [found, Option.map_some, place] at marked
      have split : c :: s ++ '}' :: r = (c :: s ++ ['}']) ++ r := by simp
      rw [split] at marked ⊢
      rw [foundAt, Pattern.findAll_match (by simp) marked, quoted, here]
      rfl

/-- The key does not open in a stretch without its first letter. -/
theorem quoted_skip {k : Char} {w : Text} (absent : k ∉ w) (s : Text) :
    quoted (k :: key) (w ++ s) = quoted (k :: key) s := by
  induction w with
  | nil => rfl
  | cons c w ih =>
    have ne : k ≠ c := fun eq => absent (by simp [eq])
    have here : opens (k :: key) (c :: (w ++ s)) = none := by
      simp [opens, List.cons_prefix_cons, ne]
    rw [List.cons_append, quoted, here, Option.none_or]
    exact ih fun h => absent (by simp [h])

theorem quoted_here (nonempty : key ≠ []) {g : Text} (gap : Text.IsGap g) (t : Text) :
    quoted key (key ++ (g ++ '{' :: t)) = some t := by
  have here : opens key (key ++ (g ++ '{' :: t)) = some t := opens_iff.mpr ⟨g, gap, rfl⟩
  obtain ⟨c, k, rfl⟩ := List.exists_cons_of_ne_nil nonempty
  rw [List.cons_append] at here ⊢
  rw [quoted, here]
  rfl

end Scan

theorem gap_absent {g : Text} (gap : Text.IsGap g) {c : Char} (h : Text.isSpace c = false) :
    c ∉ g := by
  intro member
  rw [gap c member] at h
  cases h

/-- In the first half of a block the input opens first, and an output only inside it. -/
theorem WritesInput.quoted {t s : Text} (h : WritesInput t s) :
    quoted inputKey s = some t ∧ quoted outputKey s = quoted outputKey t := by
  cases h with
  | @plain g h t gap gap' =>
    have lead : 'i' ∉ ['=', '='] ++ g := by
      simp only [List.mem_append, not_or]
      exact ⟨by decide, gap_absent gap (by decide)⟩
    have head : 'o' ∉ ['=', '='] ++ (g ++ (inputKey ++ (h ++ ['{']))) := by
      simp only [List.mem_append, not_or]
      exact ⟨by decide, gap_absent gap (by decide), by decide, gap_absent gap' (by decide),
        by decide⟩
    constructor
    · rw [← List.append_assoc, inputKey, quoted_skip lead]
      exact quoted_here (by decide) gap' t
    · have skip := @quoted_skip ['u', 't', 'p', 'u', 't'] _ _ head t
      simp only [List.append_assoc, List.cons_append, List.nil_append] at skip ⊢
      exact skip
  | @random g h k t gap gap' gap'' =>
    have lead : 'i' ∉ ['=', '='] ++ (g ++ (['r', 'a', 'n', 'd', 'o', 'm'] ++ h)) := by
      simp only [List.mem_append, not_or]
      exact ⟨by decide, gap_absent gap (by decide), by decide, gap_absent gap' (by decide)⟩
    have head : 'o' ∉ ['=', '='] ++ (g ++ ['r', 'a', 'n', 'd']) := by
      simp only [List.mem_append, not_or]
      exact ⟨by decide, gap_absent gap (by decide), by decide⟩
    have tail : 'o' ∉ ['m'] ++ (h ++ (inputKey ++ (k ++ ['{']))) := by
      simp only [List.mem_append, not_or]
      exact ⟨by decide, gap_absent gap' (by decide), by decide, gap_absent gap'' (by decide),
        by decide⟩
    constructor
    · have skip := @quoted_skip ['n', 'p', 'u', 't'] _ _ lead (inputKey ++ (k ++ '{' :: t))
      simp only [List.append_assoc] at skip ⊢
      exact skip.trans (quoted_here (by decide) gap'' t)
    · have skip := @quoted_skip ['u', 't', 'p', 'u', 't'] _ _ head
        ('o' :: 'm' :: (h ++ (inputKey ++ (k ++ '{' :: t))))
      have skip' := @quoted_skip ['u', 't', 'p', 'u', 't'] _ _ tail t
      have other : opens outputKey ('o' :: 'm' :: (h ++ (inputKey ++ (k ++ '{' :: t)))) = none := by
        simp [opens, outputKey, List.cons_prefix_cons]
      simp only [List.append_assoc, List.cons_append, List.nil_append] at skip skip' ⊢
      refine skip.trans ?_
      rw [outputKey] at other
      rw [FutharkMlir.quoted, other, Option.none_or]
      exact skip'

theorem WritesOutput.quoted {t s : Text} (h : WritesOutput t s) :
    quoted outputKey s = some t ∧ quoted inputKey s = quoted inputKey t := by
  cases h with
  | @mk g h t gap gap' =>
    have head : 'i' ∉ g ++ (outputKey ++ (h ++ ['{'])) := by
      simp only [List.mem_append, not_or]
      exact ⟨gap_absent gap (by decide), by decide, gap_absent gap' (by decide), by decide⟩
    constructor
    · rw [outputKey, quoted_skip (gap_absent gap (by decide))]
      exact quoted_here (by decide) gap' t
    · have skip := @quoted_skip ['n', 'p', 'u', 't'] _ _ head t
      simp only [List.append_assoc, List.cons_append, List.nil_append] at skip
      exact skip

theorem WritesInput.open {t s : Text} (h : WritesInput t s) (inside : '}' ∉ t) : '}' ∉ s := by
  cases h with
  | plain gap gap' =>
    simp only [List.mem_append, List.mem_cons, not_or]
    exact ⟨by decide, gap_absent gap (by decide), by decide, gap_absent gap' (by decide),
      by decide, inside⟩
  | random gap gap' gap'' =>
    simp only [List.mem_append, List.mem_cons, not_or]
    exact ⟨by decide, gap_absent gap (by decide), by decide, gap_absent gap' (by decide),
      by decide, gap_absent gap'' (by decide), by decide, inside⟩

theorem WritesOutput.open {t s : Text} (h : WritesOutput t s) (inside : '}' ∉ t) : '}' ∉ s := by
  cases h with
  | mk gap gap' =>
    simp only [List.mem_append, List.mem_cons, not_or]
    exact ⟨gap_absent gap (by decide), by decide, gap_absent gap' (by decide), by decide, inside⟩

def blockClosings : List TestBlock → Nat
  | [] => 0
  | b :: bs => 1 + b.output.toList.length + blockClosings bs

/-- What the scan for inputs finds: the inputs, and what is quoted in outputs. -/
def foundInputs : List TestBlock → List (Nat × Text)
  | [] => []
  | b :: bs =>
    (blockClosings (b :: bs), b.input) ::
      ((b.output.bind (quoted inputKey)).toList.map (fun t => (blockClosings bs + 1, t)) ++
        foundInputs bs)

/-- What the scan for outputs finds: what is quoted in inputs, and the outputs. -/
def foundOutputs : List TestBlock → List (Nat × Text)
  | [] => []
  | b :: bs =>
    (quoted outputKey b.input).toList.map (fun t => (blockClosings (b :: bs), t)) ++
      (b.output.toList.map (fun o => (blockClosings bs + 1, o)) ++ foundOutputs bs)

/-- The cases of the complete blocks: the input stands before the first brace that its block
closes, and the output before the second. -/
def blockCases : List TestBlock → List ((Nat × Text) × Nat × Text)
  | [] => []
  | b :: bs =>
    b.output.toList.map (fun o => ((blockClosings (b :: bs), b.input), blockClosings bs + 1, o)) ++
      blockCases bs

theorem blockCases_texts (bs : List TestBlock) :
    (blockCases bs).map (fun p => (p.1.2, p.2.2)) = bs.filterMap TestBlock.case := by
  induction bs with
  | nil => rfl
  | cons b bs ih =>
    rw [blockCases, List.map_append, ih]
    cases eq : b.output <;> simp [TestBlock.case, eq]

theorem quoted_gap {key g : Text} {k : Char} (gap : Text.IsGap g) (h : Text.isSpace k = false)
    (s : Text) : quoted (k :: key) (g ++ s) = quoted (k :: key) s :=
  quoted_skip (gap_absent gap h) s

theorem foundAt_gap {key g : Text} {k : Char} (gap : Text.IsGap g) (h : Text.isSpace k = false) :
    foundAt (k :: key) g = [] := by
  have fails : ∀ u v, g = u ++ v → v ≠ [] →
      (braces (k :: key)).marked closings (v ++ []) = [] := by
    intro u v eq nonempty
    obtain ⟨c, v, rfl⟩ := List.exists_cons_of_ne_nil nonempty
    have ne : k ≠ c := by
      rintro rfl
      rw [gap k (by simp [eq])] at h
      cases h
    apply Pattern.marked_nil
    apply braces_nil
    simp [opens, List.cons_prefix_cons, ne]
  have none := Pattern.findAll_fails fails
  rw [List.append_nil] at none
  exact none

theorem foundAt_part {key g s : Text} {k : Char} (gap : Text.IsGap g)
    (space : Text.isSpace k = false) (keyOpen : '}' ∉ k :: key) (close : '}' ∉ s) {r : Text}
    (line : '\n' ∉ g ++ (s ++ '}' :: r)) :
    foundAt (k :: key) (g ++ (s ++ '}' :: r)) =
      (quoted (k :: key) s).toList.map (fun t => (closings r + 1, t)) ++ foundAt (k :: key) r := by
  have clear : '}' ∉ g ++ s := by
    simp only [List.mem_append, not_or]
    exact ⟨gap_absent gap (by decide), close⟩
  have line' : '\n' ∉ g ++ s := by
    simp only [List.mem_append, not_or] at line ⊢
    exact ⟨line.1, line.2.1⟩
  rw [← List.append_assoc, foundAt_brace (by simp) keyOpen clear line', quoted_gap gap space]

theorem closings_blocks {bs : List TestBlock} {s : Text} (h : WritesBlocks bs s) :
    closings s = blockClosings bs := by
  induction h with
  | nil gap =>
    rw [closings, List.count_eq_zero.mpr (gap_absent gap (by decide))]
    rfl
  | @incomplete g s r b bs gap lacks input _ ih =>
    rw [closings_open (gap_absent gap (by decide)), closings_open (input.open b.inputOpen), closings,
      List.count_cons_self, ← closings, ih]
    simp [blockClosings, lacks, Nat.add_comm]
  | @complete g s s' r o b bs gap has input output _ ih =>
    have close' := output.open (b.outputOpen o (by simp [has]))
    rw [closings_open (gap_absent gap (by decide)), closings_open (input.open b.inputOpen), closings,
      List.count_cons_self, ← closings, closings_open close', closings, List.count_cons_self,
      ← closings, ih]
    simp [blockClosings, has]
    omega

theorem foundAt_blocks {bs : List TestBlock} {s : Text} (h : WritesBlocks bs s)
    (line : '\n' ∉ s) :
    foundAt inputKey s = foundInputs bs ∧ foundAt outputKey s = foundOutputs bs := by
  induction h with
  | nil gap => exact ⟨foundAt_gap gap (by decide), foundAt_gap gap (by decide)⟩
  | @incomplete g s r b bs gap lacks input blocks ih =>
    obtain ⟨hereIn, hereOut⟩ := input.quoted
    have close := input.open b.inputOpen
    have rest : '\n' ∉ r := fun h => line (by simp [h])
    obtain ⟨ins, outs⟩ := ih rest
    have count : blockClosings (b :: bs) = blockClosings bs + 1 := by
      simp [blockClosings, lacks, Nat.add_comm]
    constructor
    · rw [inputKey, foundAt_part gap (by decide) (by decide) close line, ← inputKey, hereIn, ins,
        closings_blocks blocks]
      simp [foundInputs, lacks, count]
    · rw [outputKey, foundAt_part gap (by decide) (by decide) close line, ← outputKey, hereOut, outs,
        closings_blocks blocks]
      simp [foundOutputs, lacks, count]
  | @complete g s s' r o b bs gap has input output blocks ih =>
    obtain ⟨hereIn, hereOut⟩ := input.quoted
    obtain ⟨thereOut, thereIn⟩ := output.quoted
    have close := input.open b.inputOpen
    have close' := output.open (b.outputOpen o (by simp [has]))
    have rest : '\n' ∉ [] ++ (s' ++ '}' :: r) := by
      intro h
      rw [List.nil_append] at h
      exact line (by simp [h])
    obtain ⟨ins, outs⟩ := ih fun h => rest (by simp [h])
    have partIn := @foundAt_part ['n', 'p', 'u', 't'] [] _ 'i' Text.isGap_nil (by decide)
      (by decide) close' _ rest
    have partOut := @foundAt_part ['u', 't', 'p', 'u', 't'] [] _ 'o' Text.isGap_nil
      (by decide) (by decide) close' _ rest
    have inner : closings (s' ++ '}' :: r) = blockClosings bs + 1 := by
      rw [closings_open close', closings, List.count_cons_self, ← closings, closings_blocks blocks]
    have count : blockClosings (b :: bs) = blockClosings bs + 1 + 1 := by
      simp [blockClosings, has]
      omega
    rw [List.nil_append, closings_blocks blocks] at partIn partOut
    constructor
    · rw [inputKey, foundAt_part gap (by decide) (by decide) close line, partIn, ← inputKey, hereIn,
        thereIn, ins, inner]
      simp [foundInputs, has, count]
    · rw [outputKey, foundAt_part gap (by decide) (by decide) close line, partOut, ← outputKey,
        hereOut, thereOut, outs, inner]
      simp [foundOutputs, has, count]

theorem commentText_line (file : Text) : '\n' ∉ commentText file := by
  intro member
  rcases Text.mem_join member with sep | ⟨t, ht, hc⟩
  · revert sep
    decide
  · obtain ⟨line, hline, eq⟩ := List.mem_filterMap.mp ht
    unfold commentLine at eq
    split at eq
    · next s strip =>
      cases eq
      apply Text.strip_line hline
      rw [strip]
      simp [Text.mem_strip hc]
    · cases eq

/-- No text of the block holds the start of another input or output. -/
def TestBlock.Plain (b : TestBlock) : Prop :=
  quoted outputKey b.input = none ∧ ∀ o ∈ b.output, quoted inputKey o = none

/-- The blocks up to the last complete one are complete, all but that one have outputs that
quote no input, and no input quotes an output. -/
def Orderly (bs : List TestBlock) : Prop :=
  (∀ b ∈ bs, quoted outputKey b.input = none) ∧
    bs.Pairwise fun b c => c.output.isSome = true →
      ∃ o, b.output = some o ∧ quoted inputKey o = none

theorem foundOutputs_nil {bs : List TestBlock} :
    foundOutputs bs = [] ↔ ∀ b ∈ bs, quoted outputKey b.input = none ∧ b.output = none := by
  induction bs with
  | nil => simp [foundOutputs]
  | cons b bs ih => simp [foundOutputs, ih, and_assoc]

theorem blockCases_place {bs : List TestBlock} {p : (Nat × Text) × Nat × Text}
    (h : p ∈ blockCases bs) : p.1.1 ≤ blockClosings bs ∧ p.2.1 < p.1.1 := by
  induction bs with
  | nil => cases h
  | cons b bs ih =>
    rw [blockCases, List.mem_append, List.mem_map] at h
    rcases h with ⟨o, member, rfl⟩ | h
    · have has : b.output = some o := by simpa using member
      simp [blockClosings, has]
      omega
    · obtain ⟨le, lt⟩ := ih h
      simp only [blockClosings]
      omega

theorem blockCases_nil {bs : List TestBlock} (h : ∀ b ∈ bs, b.output = none) :
    blockCases bs = [] := by
  induction bs with
  | nil => rfl
  | cons b bs ih =>
    obtain ⟨lacks, others⟩ := List.forall_mem_cons.mp h
    simp [blockCases, lacks, ih others]

/-- With an input too many in front, the cases come out only if there are none. -/
theorem zip_late {bs : List TestBlock} {n : Nat} {t : Text} {xs : List (Nat × Text)}
    (late : blockClosings bs < n) :
    ((n, t) :: xs).zip (foundOutputs bs) = blockCases bs ↔ foundOutputs bs = [] := by
  constructor
  · intro h
    cases outs : foundOutputs bs with
    | nil => rfl
    | cons u outs =>
      rw [outs, List.zip_cons_cons] at h
      have member : ((n, t), u) ∈ blockCases bs := by rw [← h]; simp
      have place := (blockCases_place member).1
      simp only at place
      omega
  · intro none
    rw [none, List.zip_nil_right, blockCases_nil fun b hb => (foundOutputs_nil.mp none b hb).2]

theorem orderly_cons {b : TestBlock} {bs : List TestBlock} :
    Orderly (b :: bs) ↔ quoted outputKey b.input = none ∧ Orderly bs ∧
      ((∃ o, b.output = some o ∧ quoted inputKey o = none) ∨ ∀ c ∈ bs, c.output = none) := by
  simp only [Orderly, List.forall_mem_cons, List.pairwise_cons]
  constructor
  · rintro ⟨⟨quiet, others⟩, before, rest⟩
    refine ⟨quiet, ⟨others, rest⟩, ?_⟩
    by_cases whole : ∃ o, b.output = some o ∧ quoted inputKey o = none
    · exact .inl whole
    · right
      intro c member
      rw [← Option.not_isSome_iff_eq_none]
      exact fun complete => whole (before c member complete)
  · rintro ⟨quiet, ⟨others, rest⟩, whole⟩
    refine ⟨⟨quiet, others⟩, fun c member complete => ?_, rest⟩
    rcases whole with whole | none
    · exact whole
    · rw [none c member] at complete
      cases complete

theorem orderly_none {bs : List TestBlock} (none : ∀ c ∈ bs, c.output = none) :
    Orderly bs ↔ foundOutputs bs = [] := by
  rw [foundOutputs_nil]
  constructor
  · rintro ⟨quiet, _⟩ b member
    exact ⟨quiet b member, none b member⟩
  · intro h
    refine ⟨fun b member => (h b member).1, ?_⟩
    refine List.pairwise_of_forall_mem_list fun b _ c member complete => ?_
    rw [none c member] at complete
    cases complete

/-- Behind a block that leaves an input over, the cases come out only if there are none. -/
theorem zip_leftover {bs : List TestBlock} {n : Nat} {t : Text} {xs : List (Nat × Text)}
    (late : blockClosings bs < n) :
    ((n, t) :: xs).zip (foundOutputs bs) = blockCases bs ↔
      Orderly bs ∧ ∀ c ∈ bs, c.output = none := by
  rw [zip_late late]
  constructor
  · intro outs
    have none := fun c member => (foundOutputs_nil.mp outs c member).2
    exact ⟨(orderly_none none).mpr outs, none⟩
  · rintro ⟨orderly, none⟩
    exact (orderly_none none).mp orderly

/-- The scans find each case in its own block exactly when the blocks are orderly. -/
theorem zip_found {bs : List TestBlock} :
    (foundInputs bs).zip (foundOutputs bs) = blockCases bs ↔ Orderly bs := by
  induction bs with
  | nil => simp [foundInputs, foundOutputs, blockCases, Orderly]
  | cons b bs ih =>
    have count : blockClosings (b :: bs) = 1 + b.output.toList.length + blockClosings bs := rfl
    rw [orderly_cons]
    cases quote : quoted outputKey b.input with
    | some u =>
      -- the quoted output is found with the input of its own block
      have found : (foundInputs (b :: bs)).zip (foundOutputs (b :: bs)) ≠ blockCases (b :: bs) := by
        intro h
        have member : ((blockClosings (b :: bs), b.input), blockClosings (b :: bs), u) ∈
            blockCases (b :: bs) := by
          rw [← h]
          simp [foundInputs, foundOutputs, quote]
        exact absurd (blockCases_place member).2 (Nat.lt_irrefl _)
      simp [found]
    | none =>
      cases output : b.output with
      | none =>
        have late := @zip_leftover bs (blockClosings (b :: bs)) b.input (foundInputs bs)
          (by rw [count]; omega)
        simpa [foundInputs, foundOutputs, blockCases, quote, output] using late
      | some o =>
        cases quote' : quoted inputKey o with
        | none => simpa [foundInputs, foundOutputs, blockCases, quote, quote', output] using ih
        | some t =>
          have late := @zip_leftover bs (blockClosings bs + 1) t (foundInputs bs) (by omega)
          simpa [foundInputs, foundOutputs, blockCases, quote, quote', output] using late

theorem foundCases_blocks {file : Text} {bs : List TestBlock}
    (h : WritesBlocks bs (commentText file)) :
    foundCases file = (foundInputs bs).zip (foundOutputs bs) := by
  obtain ⟨ins, outs⟩ := foundAt_blocks h (commentText_line file)
  rw [foundCases, ins, outs]

theorem readCases_orderly {file : Text} {bs : List TestBlock}
    (h : WritesBlocks bs (commentText file)) (orderly : Orderly bs) :
    readCases file = bs.filterMap TestBlock.case := by
  rw [← foundCases_texts, foundCases_blocks h, zip_found.mpr orderly, blockCases_texts]

theorem found_plain {bs : List TestBlock} (plain : ∀ b ∈ bs, b.Plain) :
    (foundInputs bs).map Prod.snd = bs.map TestBlock.input ∧
      (foundOutputs bs).map Prod.snd = (bs.filterMap TestBlock.case).map Prod.snd := by
  induction bs with
  | nil => exact ⟨rfl, rfl⟩
  | cons b bs ih =>
    obtain ⟨⟨quiet, quiet'⟩, others⟩ := List.forall_mem_cons.mp plain
    obtain ⟨ins, outs⟩ := ih others
    cases output : b.output with
    | none =>
      simp [foundInputs, foundOutputs, quiet, output, ins, outs, TestBlock.case]
    | some o =>
      have none := quiet' o (by simp [output])
      simp [foundInputs, foundOutputs, quiet, output, none, ins, outs, TestBlock.case]

/-- Where nothing is quoted, the cases are right as texts exactly when the complete blocks have
the inputs of the first blocks. -/
theorem readCases_plain {file : Text} {bs : List TestBlock} (h : WritesBlocks bs (commentText file))
    (plain : ∀ b ∈ bs, b.Plain) :
    readCases file = bs.filterMap TestBlock.case ↔
      (bs.map TestBlock.input).take (bs.filterMap TestBlock.case).length =
        (bs.filterMap TestBlock.case).map Prod.fst := by
  obtain ⟨ins, outs⟩ := found_plain plain
  have texts : readCases file =
      (bs.map TestBlock.input).zip ((bs.filterMap TestBlock.case).map Prod.snd) := by
    rw [← foundCases_texts, foundCases_blocks h, ← ins, ← outs, List.zip_map]
    rfl
  rw [texts, List.zip_eq_iff]
  constructor
  · rintro ⟨left, _⟩
    exact left
  · intro left
    exact ⟨left, List.take_of_length_le (by simp), .inr (by simp)⟩

/-- The cases are those of the complete blocks, each with both texts from its own block,
exactly when the blocks are orderly; and where nothing is quoted, they are right as texts
exactly when the complete blocks have the inputs of the first blocks. -/
theorem readCases_iff {file : Text} {bs : List TestBlock} (h : WritesBlocks bs (commentText file)) :
    (readCases file = bs.filterMap TestBlock.case ∧ foundCases file = blockCases bs ↔
      Orderly bs) ∧
    ((∀ b ∈ bs, b.Plain) → (readCases file = bs.filterMap TestBlock.case ↔
      (bs.map TestBlock.input).take (bs.filterMap TestBlock.case).length =
        (bs.filterMap TestBlock.case).map Prod.fst)) := by
  refine ⟨⟨?_, fun orderly => ⟨readCases_orderly h orderly, ?_⟩⟩, readCases_plain h⟩
  · rintro ⟨_, places⟩
    rw [foundCases_blocks h] at places
    exact zip_found.mp places
  · rw [foundCases_blocks h]
    exact zip_found.mpr orderly

/-- A block without an output, and then one with input and output 2. -/
def twoBlocks : List TestBlock :=
  [{ input := " 1i32 ".toList, output := none, inputOpen := by decide +kernel,
     outputOpen := by simp },
   { input := " 2i32 ".toList, output := some " 2i32 ".toList, inputOpen := by decide +kernel,
     outputOpen := by decide +kernel }]

def twoBlocksFile : Text :=
  "-- ==\n-- input { 1i32 }\n-- ==\n-- input { 2i32 }\n-- output { 2i32 }\n".toList

theorem writesBlocks_two : WritesBlocks twoBlocks (commentText twoBlocksFile) := by
  have text : commentText twoBlocksFile =
      [] ++ (['=', '='] ++ ([' '] ++ (inputKey ++ ([' '] ++ '{' :: " 1i32 ".toList))) ++ '}' ::
        ([' '] ++ (['=', '='] ++ ([' '] ++ (inputKey ++ ([' '] ++ '{' :: " 2i32 ".toList))) ++ '}' ::
          ([' '] ++ (outputKey ++ ([' '] ++ '{' :: " 2i32 ".toList)) ++ '}' :: [])))) := by
    decide +kernel
  rw [text]
  have blank := Text.isGap_blank
  exact .incomplete Text.isGap_nil rfl (.plain blank blank)
    (.complete blank rfl (.plain blank blank) (.mk blank blank)
      (.nil Text.isGap_nil))

/-- The input of the first block is paired with the output of the second. -/
theorem readCases_mispaired : WritesBlocks twoBlocks (commentText twoBlocksFile) ∧
    twoBlocks.filterMap TestBlock.case = [(" 2i32 ".toList, " 2i32 ".toList)] ∧
    readCases twoBlocksFile = [(" 1i32 ".toList, " 2i32 ".toList)] ∧
    readCases twoBlocksFile ≠ twoBlocks.filterMap TestBlock.case := by
  refine ⟨writesBlocks_two, ?_, ?_, ?_⟩
  · decide +kernel
  · decide +kernel
  · decide +kernel

/-- A block with input and output, and then one without an output. -/
def swappedFile : Text :=
  "-- ==\n-- input { 2i32 }\n-- output { 2i32 }\n-- ==\n-- input { 1i32 }".toList

theorem readCases_iff_swapped :
    readCases swappedFile = twoBlocks.reverse.filterMap TestBlock.case ∧
      foundCases swappedFile = blockCases twoBlocks.reverse := by
  have text : commentText swappedFile =
      [] ++ (['=', '='] ++ ([' '] ++ (inputKey ++ ([' '] ++ '{' :: " 2i32 ".toList))) ++ '}' ::
        ([' '] ++ (outputKey ++ ([' '] ++ '{' :: " 2i32 ".toList)) ++ '}' ::
          ([' '] ++ (['=', '='] ++ ([' '] ++ (inputKey ++ ([' '] ++ '{' :: " 1i32 ".toList))) ++
            '}' :: [])))) := by
    decide +kernel
  have blocks : WritesBlocks twoBlocks.reverse (commentText swappedFile) := by
    rw [text]
    have blank := Text.isGap_blank
    exact .complete Text.isGap_nil rfl (.plain blank blank) (.mk blank blank)
      (.incomplete blank rfl (.plain blank blank) (.nil Text.isGap_nil))
  exact (readCases_iff blocks).1.mpr ⟨by decide +kernel, .cons (by decide +kernel) (.cons nofun .nil)⟩

end FutharkMlir
