import FutharkMlir.Lib.Brackets
import FutharkMlir.Runner.SizeInference

namespace FutharkMlir

open Brackets (Above Balanced Inside depth)

def brackets : List (Char × Char) := [('(', ')'), ('[', ']'), ('{', '}'), ('<', '>')]

def isOpener (c : Char) : Bool := (brackets.map Prod.fst).contains c

def isCloser (c : Char) : Bool := (brackets.map Prod.snd).contains c

/-- The loop of `_match_paren` from index `j` on. -/
def matchParenFrom : Nat → Int → Text → Except Failure Nat
  | _, _, [] => .error (.unsupported .unterminatedParams)
  | j, depth, c :: s =>
    if isOpener c then matchParenFrom (j + 1) (depth + 1) s
    else if isCloser c then
      if depth - 1 = 0 then .ok j else matchParenFrom (j + 1) (depth - 1) s
    else matchParenFrom (j + 1) depth s

def matchParen (text : Text) (start : Nat) : Except Failure Nat :=
  matchParenFrom start 0 (text.drop start)

/-- The loop of `_split_top_level`: the finished parts, the depth and the current part. -/
def splitParts : List Text → Int → Text → Text → List Text
  | parts, _, cur, [] => parts ++ [cur]
  | parts, depth, cur, c :: s =>
    let depth :=
      if isOpener c then depth + 1 else if isCloser c then depth - 1 else depth
    if c = ',' ∧ depth = 0 then splitParts (parts ++ [cur]) depth [] s
    else splitParts parts depth (cur ++ [c]) s

def splitTopLevel (s : Text) : List Text :=
  ((splitParts [] 0 [] s).filter fun p => Text.strip p != []).map Text.strip

def slice (text : Text) (i j : Nat) : Text := (text.take j).drop i

def entryKey : Text := "@entry_main(".toList

/-- `_entry_params`, on the text of the file. -/
def entryParams (path text : Text) : Except Failure (List (Option (List Int))) :=
  match Text.find? entryKey text with
  | none => .error (.unsupported (.noEntryMain path))
  | some i => do
    let lparen := i + entryKey.length - 1
    let j ← matchParen text lparen
    return (splitTopLevel (slice text (lparen + 1) j)).map classifyParam

def bracketWeight (c : Char) : Int := if isOpener c then 1 else if isCloser c then -1 else 0

/-- What a parameter looks like: it is balanced, and has its commas inside of brackets. -/
structure IsParam (p : Text) : Prop where
  trimmed : Text.Trimmed p
  balanced : Balanced bracketWeight p
  commas : Inside bracketWeight ',' 0 p

theorem matchParenFrom_step {c : Char} {s : Text} {j : Nat} {d : Int}
    (inside : 0 < d + bracketWeight c) :
    matchParenFrom j d (c :: s) = matchParenFrom (j + 1) (d + bracketWeight c) s := by
  simp only [matchParenFrom, bracketWeight] at inside ⊢
  split
  · rfl
  · next closes =>
    rw [if_neg closes] at inside
    split
    · next closer =>
      rw [if_pos closer] at inside
      rw [if_neg (by omega)]
      rfl
    · rw [Int.add_zero]

/-- Inside the parentheses the search goes on, and keeps the depth. -/
theorem matchParenFrom_inside {s r : Text} {j : Nat} {d : Int}
    (above : Above bracketWeight (d - 1) s) :
    matchParenFrom j d (s ++ r) = matchParenFrom (j + s.length) (d + depth bracketWeight s) r := by
  induction s generalizing j d with
  | nil => simp
  | cons c s ih =>
    obtain ⟨_, above⟩ := Brackets.above_cons.mp above
    have level : d - 1 + bracketWeight c = d + bracketWeight c - 1 := by omega
    rw [level] at above
    have inside : 0 < d + bracketWeight c := by
      have ground := above.start
      omega
    rw [List.cons_append, matchParenFrom_step inside, ih above]
    simp [Int.add_assoc, Nat.add_comm 1, Nat.add_assoc]

theorem matchParen_balanced {before inner rest : Text} (h : Balanced bracketWeight inner) :
    matchParen (before ++ '(' :: (inner ++ ')' :: rest)) before.length =
      .ok (before.length + 1 + inner.length) := by
  have start : (before ++ '(' :: (inner ++ ')' :: rest)).drop before.length =
      '(' :: (inner ++ ')' :: rest) := List.drop_left
  have opening : bracketWeight '(' = 1 := rfl
  rw [matchParen, start, matchParenFrom_step (by decide), opening,
    matchParenFrom_inside (by simpa using h.above), h.closed]
  rfl

theorem splitParts_step {parts : List Text} {d : Int} {cur s : Text} {c : Char}
    (stay : c = ',' → d + bracketWeight c ≠ 0) :
    splitParts parts d cur (c :: s) = splitParts parts (d + bracketWeight c) (cur ++ [c]) s := by
  have level : (if isOpener c then d + 1 else if isCloser c then d - 1 else d) =
      d + bracketWeight c := by
    simp only [bracketWeight]
    split
    · rfl
    · split <;> omega
  simp only [splitParts, level]
  rw [if_neg]
  rintro ⟨comma, ground⟩
  exact stay comma ground

/-- A stretch with its commas inside of brackets is added to the current part. -/
theorem splitParts_inside {parts : List Text} {d : Int} {cur s r : Text}
    (inside : Inside bracketWeight ',' d s) :
    splitParts parts d cur (s ++ r) =
      splitParts parts (d + depth bracketWeight s) (cur ++ s) r := by
  induction s generalizing d cur with
  | nil => simp
  | cons c s ih =>
    obtain ⟨comma, inside⟩ := Brackets.inside_cons.mp inside
    have stay : c = ',' → d + bracketWeight c ≠ 0 := by
      rintro rfl
      have deep := comma rfl
      have flat : bracketWeight ',' = 0 := rfl
      omega
    rw [List.cons_append, splitParts_step stay, ih inside]
    simp [Int.add_assoc]

theorem splitParts_comma (parts : List Text) (cur s : Text) :
    splitParts parts 0 cur (',' :: s) = splitParts (parts ++ [cur]) 0 [] s := by
  rfl

/-- The parts of a joined list: all but the first begin with the blank of the separator. -/
theorem splitParts_join {parts : List Text} {cur p : Text} {ps : List Text}
    (h : ∀ q ∈ p :: ps, Balanced bracketWeight q ∧ Inside bracketWeight ',' 0 q) :
    splitParts parts 0 cur (Text.join [',', ' '] (p :: ps)) =
      parts ++ (cur ++ p) :: ps.map fun q => ' ' :: q := by
  induction ps generalizing parts cur p with
  | nil =>
    obtain ⟨balanced, inside⟩ := h p (by simp)
    have part := @splitParts_inside parts 0 cur p [] inside
    rw [List.append_nil, balanced.closed] at part
    rw [Text.join, part]
    simp [splitParts]
  | cons q ps ih =>
    obtain ⟨balanced, inside⟩ := h p (by simp)
    have blank : splitParts (parts ++ [cur ++ p]) 0 [] (' ' :: Text.join [',', ' '] (q :: ps)) =
        splitParts (parts ++ [cur ++ p]) 0 [' '] (Text.join [',', ' '] (q :: ps)) := rfl
    rw [Text.join, splitParts_inside inside, balanced.closed]
    simp only [List.cons_append, List.nil_append, Int.add_zero]
    rw [splitParts_comma, blank, ih fun r hr => h r (by simp_all)]
    simp

theorem balanced_join {params : List Text} (h : ∀ p ∈ params, Balanced bracketWeight p) :
    Balanced bracketWeight (Text.join [',', ' '] params) := by
  induction params with
  | nil => exact .flat (by simp [Text.join])
  | cons p ps ih =>
    have tail := ih fun q hq => h q (by simp [hq])
    cases ps with
    | nil => exact h p (by simp)
    | cons q ps =>
      have separator : Balanced bracketWeight [',', ' '] := .flat (by simp; decide)
      exact (h p (by simp)).append (separator.append tail)

theorem splitTopLevel_join {params : List Text} (h : ∀ p ∈ params, IsParam p) :
    splitTopLevel (Text.join [',', ' '] params) = params := by
  cases params with
  | nil => rfl
  | cons p ps =>
    have parts := @splitParts_join [] [] p ps fun q hq => ⟨(h q hq).balanced, (h q hq).commas⟩
    have first : Text.strip p = p :=
      Text.strip_trimmed Text.isGap_nil (h p (by simp)).trimmed
    have blank : ∀ q ∈ ps, Text.strip (' ' :: q) = q := fun q hq =>
      Text.strip_trimmed Text.isGap_blank (h q (by simp [hq])).trimmed
    have some : ∀ q ∈ p :: ps.map (fun q => ' ' :: q), (Text.strip q != []) = true := by
      intro q hq
      rw [bne_iff_ne]
      rcases List.mem_cons.mp hq with rfl | hq
      · rw [first]
        exact (h q (by simp)).trimmed.nonempty
      · obtain ⟨r, hr, rfl⟩ := List.mem_map.mp hq
        rw [blank r hr]
        exact (h r (by simp [hr])).trimmed.nonempty
    rw [splitTopLevel, parts]
    simp only [List.nil_append, List.filter_eq_self.mpr some, List.map_cons, first, List.map_map]
    exact congrArg (p :: ·) ((List.map_congr_left blank).trans (List.map_id ps))

theorem slice_middle (a b c : Text) : slice (a ++ (b ++ c)) a.length (a.length + b.length) = b := by
  have front : (a ++ (b ++ c)).take (a.length + b.length) = a ++ b := by
    rw [← List.append_assoc, ← List.length_append, List.take_left]
  rw [slice, front, List.drop_left]

/-- The parentheses of a signature are matched, and its parameters recovered. -/
theorem signature_splits (before rest : Text) {params : List Text} (h : ∀ p ∈ params, IsParam p) :
    let inner := Text.join [',', ' '] params
    let text := before ++ '(' :: (inner ++ ')' :: rest)
    let close := before.length + 1 + inner.length
    matchParen text before.length = .ok close ∧ text[close]? = some ')' ∧
      splitTopLevel (slice text (before.length + 1) close) = params := by
  intro inner text close
  have split : text = (before ++ ['(']) ++ (inner ++ ')' :: rest) := by simp [text]
  have here : (before ++ ['(']).length = before.length + 1 := List.length_append
  refine ⟨matchParen_balanced (balanced_join fun p hp => (h p hp).balanced), ?_, ?_⟩
  · rw [split, List.getElem?_append_right (by simp only [here, close]; omega), here]
    have last : close - (before.length + 1) = inner.length := by simp only [close]; omega
    simp [last]
  · rw [split]
    have middle := slice_middle (before ++ ['(']) inner (')' :: rest)
    rw [here] at middle
    rw [middle]
    exact splitTopLevel_join h

/-- Balanced, and with the commas inside of brackets. -/
def Sealed (s : Text) : Prop := Balanced bracketWeight s ∧ Inside bracketWeight ',' 0 s

theorem Sealed.append {s t : Text} (hs : Sealed s) (ht : Sealed t) : Sealed (s ++ t) := by
  refine ⟨hs.1.append ht.1, Brackets.inside_append.mpr ⟨hs.2, ?_⟩⟩
  rw [hs.1.closed]
  exact ht.2

theorem Sealed.enclose {a b : Char} {s : Text} (h : Balanced bracketWeight s)
    (opens : bracketWeight a = 1) (closes : bracketWeight b = -1) :
    Sealed (a :: (s ++ [b])) := by
  have notComma : ∀ {c}, bracketWeight c ≠ 0 → c ≠ ',' := by
    rintro c weight rfl
    exact weight rfl
  refine ⟨h.enclose opens closes, ?_⟩
  simp only [Brackets.inside_cons, Brackets.inside_append, Brackets.inside_nil, and_true]
  exact ⟨fun eq => absurd eq (notComma (by omega)), opens ▸ h.inside, 
    fun eq => absurd eq (notComma (by omega))⟩

def Quiet (s : Text) : Prop := ∀ c ∈ s, bracketWeight c = 0 ∧ c ≠ ','

instance (s : Text) : Decidable (Quiet s) :=
  decidable_of_iff (s.all (fun c => bracketWeight c == 0 && c != ',') = true) (by
    simp [Quiet])

theorem Quiet.append {s t : Text} (hs : Quiet s) (ht : Quiet t) : Quiet (s ++ t) := by
  intro c hc
  exact (List.mem_append.mp hc).elim (hs c) (ht c)

theorem Quiet.sealed {s : Text} (h : Quiet s) : Sealed s :=
  ⟨.flat fun c hc => (h c hc).1, Brackets.inside_absent fun member => (h ',' member).2 rfl⟩

theorem quiet_digit {c : Char} (h : c.isDigit = true) : bracketWeight c = 0 ∧ c ≠ ',' := by
  have none : ['(', ')', '[', ']', '{', '}', '<', '>', ','].all (fun b => !b.isDigit) = true := by
    decide
  have other : ∀ b ∈ ['(', ')', '[', ']', '{', '}', '<', '>', ','], c ≠ b := by
    rintro b hb rfl
    simpa [h] using List.all_eq_true.mp none c hb
  simp_all [bracketWeight, isOpener, isCloser, brackets]

theorem quiet_natText (n : Nat) : Quiet (Text.natText n) :=
  fun c hc => quiet_digit ((Text.isDecimal_natText n).2 c hc)

theorem quiet_intText (i : Int) : Quiet (Text.intText i) := by
  intro c hc
  rcases Text.mem_intText hc with rfl | digit
  · decide
  · exact quiet_digit digit

theorem quiet_printElem (e : ElemTy) : Quiet (printElem e) := by
  cases e with
  | int w => exact Quiet.append (s := ['i']) (by decide) (quiet_natText w)
  | float t => exact Quiet.append (s := ['f']) (by decide) (quiet_natText t.getWidth)
  | index => decide

theorem quiet_printDim (d : Int) : Quiet (printDim d) := by
  unfold printDim
  split
  · decide
  · exact quiet_intText d

theorem sealed_printTy (ty : MlirTy) : Sealed (printTy ty) := by
  cases ty with
  | scalar e => exact (quiet_printElem e).sealed
  | tensor shape e =>
    have dims : Quiet (shape.flatMap fun d => printDim d ++ ['x']) := by
      intro c hc
      obtain ⟨d, _, hc⟩ := List.mem_flatMap.mp hc
      exact (quiet_printDim d).append (by decide) c hc
    have keyword : Sealed ['t', 'e', 'n', 's', 'o', 'r'] := Quiet.sealed (by decide)
    have body := (dims.append (quiet_printElem e)).sealed.1
    have whole := keyword.append (Sealed.enclose (a := '<') (b := '>') body rfl rfl)
    simpa [printTy] using whole

theorem sealed_printRefs (refs : List Int) : Sealed (printRefs refs) := by
  apply Sealed.enclose (balanced_join ?_) rfl rfl
  intro t ht
  obtain ⟨i, _, rfl⟩ := List.mem_map.mp ht
  exact (quiet_intText i).sealed.1

theorem sealed_printParam (i : Nat) (ty : MlirTy) (refs : Option (List Int)) :
    Sealed (printParam i ty refs) := by
  have start : Sealed (['%', 'a', 'r', 'g'] ++ Text.natText i ++ [':', ' ']) :=
    (Quiet.append (Quiet.append (by decide) (quiet_natText i)) (by decide)).sealed
  have typed := start.append (sealed_printTy ty)
  cases refs with
  | none => exact typed
  | some refs =>
    have name : Sealed ("futhark.size_args".toList ++ [' ', '=', ' ']) :=
      Quiet.sealed (by decide +kernel)
    have attr := Sealed.enclose (a := '{') (b := '}') (name.append (sealed_printRefs refs)).1
      rfl rfl
    have blank : Sealed [' '] := Quiet.sealed (by decide)
    have whole := (typed.append blank).append attr
    simpa [printParam] using whole

theorem trimmed_printParam (i : Nat) (ty : MlirTy) (refs : Option (List Int)) :
    Text.Trimmed (printParam i ty refs) := by
  cases refs with
  | none =>
    refine ⟨by simp [printParam], by simp [printParam]; decide, ?_⟩
    obtain ⟨c, last, kind⟩ := printTy_last ty
    intro d hd
    rw [printParam, List.getLast?_append, last] at hd
    cases hd
    rcases kind with rfl | rfl | digit
    · decide
    · decide
    · exact Text.isSpace_digit digit
  | some refs =>
    refine ⟨by simp [printParam], by simp [printParam]; decide, ?_⟩
    intro d hd
    have last : (printParam i ty (some refs)).getLast? = some '}' := by
      simp only [printParam, List.getLast?_append, List.getLast?_singleton, Option.some_or]
    rw [last] at hd
    cases hd
    decide

theorem isParam_printParam (i : Nat) (ty : MlirTy) (refs : Option (List Int)) :
    IsParam (printParam i ty refs) where
  trimmed := trimmed_printParam i ty refs
  balanced := (sealed_printParam i ty refs).1
  commas := (sealed_printParam i ty refs).2

/-- A scalar, and a matrix whose extents are the first argument and static. -/
theorem signature_splits_two :
    let params := [printParam 0 (.scalar (.int 64)) none,
      printParam 1 (.tensor [kDynamic, 3] (.int 32)) (some [0, -1])]
    let text := "(%arg0: i64, %arg1: tensor<?x3xi32> \x7bfuthark.size_args = [0, -1]\x7d)".toList
    matchParen text 0 = .ok 65 ∧ splitTopLevel (slice text 1 65) = params := by
  intro params text
  have split : '(' :: (Text.join [',', ' '] params ++ [')']) = text := by decide +kernel
  have length : (Text.join [',', ' '] params).length = 64 := by decide +kernel
  have all : ∀ p ∈ params, IsParam p := by
    intro p hp
    rcases List.mem_cons.mp hp with rfl | hp
    · exact isParam_printParam _ _ _
    · cases List.mem_singleton.mp hp
      exact isParam_printParam _ _ _
  obtain ⟨matched, _, splits⟩ := signature_splits [] [] all
  simp only [List.nil_append, List.length_nil, length, split] at matched splits
  exact ⟨matched, splits⟩

/-- The entry point of a printed module gives its annotations back, whatever else the module
holds behind it. -/
theorem entryParams_printed (path before rest : Text) {func : FuncOp}
    (length : func.sig.argTypes.length = func.sizeArgs.length)
    (early : ∀ u v, before = u ++ v → v ≠ [] → ¬ entryKey <+: v ++ (entryKey ++
      (Text.join [',', ' '] (printedParams func) ++ ')' :: rest))) :
    entryParams path (before ++ (entryKey ++
      (Text.join [',', ' '] (printedParams func) ++ ')' :: rest))) = .ok func.sizeArgs := by
  have params : ∀ p ∈ printedParams func, IsParam p := by
    intro p hp
    obtain ⟨q, _, rfl⟩ := List.mem_map.mp hp
    exact isParam_printParam _ _ _
  have found := Text.find?_first (by decide) early
  obtain ⟨name, key⟩ : ∃ name, entryKey = name ++ ['('] := ⟨"@entry_main".toList, by decide⟩
  have split : before ++ (entryKey ++ (Text.join [',', ' '] (printedParams func) ++ ')' :: rest)) =
      (before ++ name) ++ '(' :: (Text.join [',', ' '] (printedParams func) ++ ')' :: rest) := by
    simp [key]
  have paren : before.length + entryKey.length - 1 = (before ++ name).length := by
    simp only [key, List.length_append, List.length_singleton]
    omega
  have matched := @matchParen_balanced (before ++ name) _ rest
    (balanced_join fun p hp => (params p hp).balanced)
  have middle := slice_middle (before ++ name ++ ['(']) (Text.join [',', ' '] (printedParams func))
    (')' :: rest)
  rw [List.length_append, List.length_singleton, List.append_assoc, List.singleton_append] at middle
  simp only [entryParams, found, paren]
  rw [split, matched]
  simp only [bind, Except.bind, middle, splitTopLevel_join params, classify_printedParams length]
  rfl

end FutharkMlir
