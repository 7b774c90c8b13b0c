import FutharkMlir.Lib.Text
import FutharkMlir.Lib.Except

namespace FutharkMlir

/-- The messages of the runner's `Unsupported`, by what they mention. -/
inductive Unsupported where
  | unexpectedToken (tok : Text)
  | cannotParseScalar (tok : Text)
  | noTypeSuffix (tok : Text)
  | tooFewParams (params values : Nat)
  | unresolvedSize (i : Nat)
  | unterminatedParams
  | noEntryMain (path : Text)
  deriving DecidableEq, Repr

/-- The text of a message, with Python's `repr` of the token it quotes. -/
def Unsupported.message (repr : Text → String) : Unsupported → String
  | .unexpectedToken tok => s!"unexpected token {repr tok}"
  | .cannotParseScalar tok => s!"cannot parse scalar {repr tok}"
  | .noTypeSuffix tok => s!"array element {repr tok} has no type suffix"
  | .tooFewParams params values =>
    s!"entry_main has {params} params but test supplies {values} values"
  | .unresolvedSize i => s!"could not resolve size for param {i}"
  | .unterminatedParams => "unterminated entry_main parameter list"
  | .noEntryMain path => s!"no entry_main in {String.ofList path}"

/-- The exceptions of the runner; `fuel` stands for none of them and never comes up. -/
inductive Failure where
  | unsupported (message : Unsupported)
  | indexError
  | keyError
  | fuel
  deriving DecidableEq, Repr

inductive TestValue where
  | scalar (tok : Text)
  | list (vs : List TestValue)
  deriving Repr

/-- The class `[^\s\[\],]`. -/
def wordChar (c : Char) : Bool := !(Text.isSpace c || c == '[' || c == ']' || c == ',')

def token : Pattern Text :=
  (Pattern.char (· == '[')).orElse <| (Pattern.char (· == ']')).orElse <|
    (Pattern.char (· == ',')).orElse (Pattern.many1 wordChar)

def tokenize (s : Text) : List Text := token.findAll s

mutual

/-- `parse` of `_parse_values`; the position is the list of tokens from there on. -/
def parse : Nat → List Text → Except Failure (TestValue × List Text)
  | 0, _ => .error .fuel
  | _ + 1, [] => .error .indexError
  | fuel + 1, tok :: rest =>
    if tok = ['['] then do
      let (arr, rest) ← parseList fuel rest
      return (.list arr, rest)
    else if tok = [','] ∨ tok = [']'] then
      .error (.unsupported (.unexpectedToken tok))
    else return (.scalar tok, rest)

/-- The loop that reads a list up to its closing bracket. -/
def parseList : Nat → List Text → Except Failure (List TestValue × List Text)
  | 0, _ => .error .fuel
  | _ + 1, [] => .error .indexError
  | fuel + 1, tok :: rest =>
    if tok = [']'] then return ([], rest)
    else if tok = [','] then parseList fuel rest
    else do
      let (v, rest) ← parse fuel (tok :: rest)
      let (vs, rest) ← parseList fuel rest
      return (v :: vs, rest)

end

/-- The outer loop of `_parse_values`. -/
def parseTop : Nat → List Text → Except Failure (List TestValue)
  | 0, _ => .error .fuel
  | _ + 1, [] => return []
  | fuel + 1, tok :: rest =>
    if tok = [','] then parseTop fuel rest
    else do
      let (v, rest) ← parse fuel (tok :: rest)
      let vs ← parseTop fuel rest
      return v :: vs

/-- `_parse_values`. A token is read by two calls at most, so the fuel suffices. -/
def parseValues (tokens : List Text) : Except Failure (List TestValue) :=
  parseTop (2 * tokens.length + 2) tokens

/-- The call answers, and has then left fewer tokens. -/
def Answers {α : Type} (n : Nat) (x : Except Failure (α × List Text)) : Prop :=
  x ≠ .error .fuel ∧ ∀ m, x = .ok m → m.2.length < n

theorem Answers.error {α : Type} {n : Nat} {e : Failure} (h : e ≠ .fuel) :
    Answers n (.error e : Except Failure (α × List Text)) := by
  simp [Answers, h]

theorem Answers.ok {α : Type} {n : Nat} {m : α × List Text} (h : m.2.length < n) :
    Answers n (.ok m : Except Failure (α × List Text)) := by
  simp [Answers, h]

theorem Answers.bind {α β : Type} {n : Nat} {x : Except Failure (α × List Text)}
    {f : α × List Text → Except Failure (β × List Text)} (h : Answers n x)
    (tail : ∀ m, m.2.length < n → Answers n (f m)) : Answers n (x >>= f) := by
  cases x with
  | error e => exact .error fun eq => h.1 (by rw [eq])
  | ok m => exact tail m (h.2 m rfl)

theorem Answers.mono {α : Type} {n n' : Nat} {x : Except Failure (α × List Text)}
    (h : Answers n x) (le : n ≤ n') : Answers n' x :=
  ⟨h.1, fun m hm => Nat.lt_of_lt_of_le (h.2 m hm) le⟩

theorem parse_answers (fuel : Nat) :
    (∀ toks, 2 * toks.length < fuel → Answers toks.length (parse fuel toks)) ∧
      ∀ toks, 2 * toks.length + 1 < fuel → Answers toks.length (parseList fuel toks) := by
  induction fuel with
  | zero =>
    constructor
    · intro toks bound
      omega
    · intro toks bound
      omega
  | succ fuel ih =>
    constructor
    · intro toks bound
      cases toks with
      | nil => exact .error (by simp)
      | cons tok rest =>
        simp only [List.length_cons] at bound ⊢
        simp only [parse]
        split
        · have arr := (ih.2 rest (by omega)).mono (Nat.le_succ rest.length)
          exact arr.bind fun m hm => .ok hm
        · split
          · exact .error (by simp)
          · exact .ok (by simp)
    · intro toks bound
      cases toks with
      | nil => exact .error (by simp)
      | cons tok rest =>
        simp only [List.length_cons] at bound ⊢
        simp only [parseList]
        split
        · exact .ok (by simp)
        · split
          · exact (ih.2 rest (by omega)).mono (by omega)
          · apply (ih.1 (tok :: rest) (by simp; omega)).bind
            intro m hm
            simp only [List.length_cons] at hm
            have tail := (ih.2 m.2 (by omega)).mono (Nat.le_of_lt hm)
            exact tail.bind fun m hm => .ok hm

theorem parseTop_answers (fuel : Nat) (toks : List Text) (bound : 2 * toks.length + 1 < fuel) :
    parseTop fuel toks ≠ .error .fuel := by
  induction fuel generalizing toks with
  | zero => omega
  | succ fuel ih =>
    cases toks with
    | nil => simp [parseTop, pure, Except.pure]
    | cons tok rest =>
      simp only [List.length_cons] at bound
      simp only [parseTop]
      split
      · exact ih rest (by omega)
      · have value := (parse_answers fuel).1 (tok :: rest) (by simp; omega)
        cases h : parse fuel (tok :: rest) with
        | error e => simpa [bind, Except.bind, h] using value.1
        | ok m =>
          have shorter := value.2 m h
          simp only [List.length_cons] at shorter
          have tail := ih m.2 (by omega)
          cases h' : parseTop fuel m.2 with
          | error e => simpa [bind, Except.bind, h'] using tail
          | ok vs => simp [bind, Except.bind, h', pure, Except.pure]

theorem parseValues_answers (toks : List Text) : parseValues toks ≠ .error .fuel :=
  parseTop_answers _ toks (by omega)

/-- A scalar token: not empty, and without whitespace, brackets and commas. -/
def IsWord (w : Text) : Prop := w ≠ [] ∧ ∀ c ∈ w, wordChar c = true

instance (w : Text) : Decidable (IsWord w) :=
  decidable_of_iff (w ≠ [] ∧ w.all wordChar = true) (by rw [IsWord, List.all_eq_true])

mutual

inductive Writes : TestValue → Text → Prop
  | scalar {g w h : Text} : Text.IsGap g → IsWord w → Text.IsGap h →
      Writes (.scalar w) (g ++ (w ++ h))
  | list {g s h : Text} {vs : List TestValue} : Text.IsGap g → WritesList vs s →
      Text.IsGap h → Writes (.list vs) (g ++ ('[' :: (s ++ (']' :: h))))

inductive WritesList : List TestValue → Text → Prop
  | empty {g : Text} : Text.IsGap g → WritesList [] g
  | last {v : TestValue} {s : Text} : Writes v s → WritesList [v] s
  | more {v w : TestValue} {vs : List TestValue} {s s' : Text} : Writes v s →
      WritesList (w :: vs) s' → WritesList (v :: w :: vs) (s ++ (',' :: s'))

end

inductive WritesAll : List TestValue → Text → Prop
  | empty {g : Text} : Text.IsGap g → WritesAll [] g
  | last {v : TestValue} {s : Text} : Writes v s → WritesAll [v] s
  | more {v w : TestValue} {vs : List TestValue} {s s' : Text} {c : Char} : Writes v s →
      Text.isSpace c = true → WritesAll (w :: vs) s' → WritesAll (v :: w :: vs) (s ++ (c :: s'))

mutual

def TestValue.tokens : TestValue → List Text
  | .scalar w => [w]
  | .list vs => ['['] :: (listTokens vs ++ [[']']])

def listTokens : List TestValue → List Text
  | [] => []
  | [v] => v.tokens
  | v :: w :: vs => v.tokens ++ ([','] :: listTokens (w :: vs))

end

theorem tokenize_gap {g : Text} (h : Text.IsGap g) (r : Text) : tokenize (g ++ r) = tokenize r := by
  apply Pattern.findAll_fails
  intro u v eq nonempty
  cases v with
  | nil => exact absurd rfl nonempty
  | cons c v =>
    have space : Text.isSpace c = true := h c (by simp [eq])
    have other : c ≠ '[' ∧ c ≠ ']' ∧ c ≠ ',' := by
      refine ⟨?_, ?_, ?_⟩ <;> rintro rfl <;> revert space <;> decide
    have noWord : wordChar c = false := by simp [wordChar, space]
    simp [token, Pattern.orElse, Pattern.char, other, noWord, Pattern.many1_eq_nil]

theorem tokenize_mark {c : Char} (h : c = '[' ∨ c = ']' ∨ c = ',') (r : Text) :
    tokenize (c :: r) = [c] :: tokenize r := by
  have found : token.first ([c] ++ r) = some ([c], r) := by
    rcases h with rfl | rfl | rfl <;> rfl
  exact Pattern.findAll_match (by simp) found

theorem tokenize_word {w r : Text} (h : IsWord w) (ends : Pattern.Ends wordChar r) :
    tokenize (w ++ r) = w :: tokenize r := by
  apply Pattern.findAll_match h.1
  obtain ⟨c, w, rfl⟩ := List.exists_cons_of_ne_nil h.1
  have here := h.2 c (by simp)
  simp only [wordChar, Bool.not_eq_true', Bool.or_eq_false_iff] at here
  have single : ∀ d, (c == d) = false → Pattern.char (· == d) (c :: w ++ r) = [] :=
    fun d ne => Pattern.char_nil (w ++ r) ne
  unfold token
  rw [Pattern.first_orElse_right (single '[' here.1.1.2),
    Pattern.first_orElse_right (single ']' here.1.2),
    Pattern.first_orElse_right (single ',' here.2)]
  exact Pattern.first_many1 h.1 h.2 ends

theorem ends_gap {g r : Text} (h : Text.IsGap g) (ends : Pattern.Ends wordChar r) :
    Pattern.Ends wordChar (g ++ r) := by
  cases g with
  | nil => exact ends
  | cons c g =>
    have space := h c (by simp)
    simp [wordChar, space]

theorem ends_mark {c : Char} (h : c = '[' ∨ c = ']' ∨ c = ',') (r : Text) :
    Pattern.Ends wordChar (c :: r) := by
  rcases h with rfl | rfl | rfl <;> simp [wordChar]

mutual

theorem tokenize_writes {v : TestValue} {s : Text} (h : Writes v s) {r : Text}
    (ends : Pattern.Ends wordChar r) : tokenize (s ++ r) = v.tokens ++ tokenize r := by
  cases h with
  | scalar gap word gap' =>
    simp only [List.append_assoc]
    rw [tokenize_gap gap, tokenize_word word (ends_gap gap' ends), tokenize_gap gap']
    rfl
  | list gap elements gap' =>
    simp only [List.append_assoc, List.cons_append]
    rw [tokenize_gap gap, tokenize_mark (.inl rfl),
      tokenize_writesList elements (ends_mark (.inr (.inl rfl)) _),
      tokenize_mark (.inr (.inl rfl)), tokenize_gap gap']
    simp [TestValue.tokens]

theorem tokenize_writesList {vs : List TestValue} {s : Text} (h : WritesList vs s) {r : Text}
    (ends : Pattern.Ends wordChar r) : tokenize (s ++ r) = listTokens vs ++ tokenize r := by
  cases h with
  | empty gap => exact tokenize_gap gap r
  | last value => exact tokenize_writes value ends
  | more value rest =>
    simp only [List.append_assoc, List.cons_append]
    rw [tokenize_writes value (ends_mark (.inr (.inr rfl)) _), tokenize_mark (.inr (.inr rfl)),
      tokenize_writesList rest ends]
    simp [listTokens]

end

theorem tokenize_writesAll {vs : List TestValue} {s : Text} (h : WritesAll vs s) :
    tokenize s = vs.flatMap TestValue.tokens := by
  induction h with
  | @empty g gap =>
    have toks := tokenize_gap gap []
    rw [List.append_nil] at toks
    exact toks
  | @last v s value =>
    have toks := tokenize_writes value (Pattern.ends_nil wordChar)
    rw [List.append_nil] at toks
    rw [toks]
    simp [tokenize, Pattern.findAll, Pattern.scan]
  | @more v w vs s s' c value space rest ih =>
    have gap : Text.IsGap [c] := by
      intro d hd
      cases List.mem_singleton.mp hd
      exact space
    have ends : Pattern.Ends wordChar (c :: s') := by simp [wordChar, space]
    have skip : tokenize (c :: s') = tokenize s' := tokenize_gap gap s'
    rw [tokenize_writes value ends, skip, ih]
    simp

mutual

/-- The scalars of the value are words, so none is a bracket or a comma. -/
inductive Plain : TestValue → Prop
  | scalar {w : Text} : IsWord w → Plain (.scalar w)
  | list {vs : List TestValue} : PlainList vs → Plain (.list vs)

inductive PlainList : List TestValue → Prop
  | nil : PlainList []
  | cons {v : TestValue} {vs : List TestValue} : Plain v → PlainList vs → PlainList (v :: vs)

end

mutual

theorem Writes.plain {v : TestValue} {s : Text} (h : Writes v s) : Plain v := by
  cases h with
  | scalar _ word _ => exact .scalar word
  | list _ elements _ => exact .list elements.plain

theorem WritesList.plain {vs : List TestValue} {s : Text} (h : WritesList vs s) :
    PlainList vs := by
  cases h with
  | empty _ => exact .nil
  | last value => exact .cons value.plain .nil
  | more value rest => exact .cons value.plain rest.plain

end

theorem WritesAll.plain {vs : List TestValue} {s : Text} (h : WritesAll vs s) :
    PlainList vs := by
  induction h with
  | empty _ => exact .nil
  | last value => exact .cons value.plain .nil
  | more value _ _ ih => exact .cons value.plain ih

theorem IsWord.ne_mark {w : Text} (h : IsWord w) {c : Char} (mark : wordChar c = false) :
    w ≠ [c] := by
  rintro rfl
  have here := h.2 c (by simp)
  rw [mark] at here
  cases here

/-- A value's first token is a word or an opening bracket. -/
theorem Plain.head {v : TestValue} (h : Plain v) :
    ∃ tok toks, v.tokens = tok :: toks ∧ tok ≠ [','] ∧ tok ≠ [']'] := by
  cases h with
  | scalar word =>
    exact ⟨_, [], rfl, word.ne_mark (by decide), word.ne_mark (by decide)⟩
  | list _ => exact ⟨['['], _, rfl, by decide, by decide⟩

theorem parseList_cons {v : TestValue} {vs : List TestValue} {toks r r' : List Text} {fuel : Nat}
    (plain : Plain v) (value : parse fuel (v.tokens ++ toks) = .ok (v, r))
    (rest : parseList fuel r = .ok (vs, r')) :
    parseList (fuel + 1) (v.tokens ++ toks) = .ok (v :: vs, r') := by
  obtain ⟨tok, more, eq, comma, close⟩ := plain.head
  rw [eq, List.cons_append] at value ⊢
  simp only [parseList, comma, close, if_false, value]
  simp [bind, Except.bind, rest, pure, Except.pure]

theorem parseList_comma (toks : List Text) (fuel : Nat) :
    parseList (fuel + 1) ([','] :: toks) = parseList fuel toks := by
  simp [parseList]

theorem parseList_close (toks : List Text) (fuel : Nat) :
    parseList (fuel + 1) ([']'] :: toks) = .ok ([], toks) := by
  simp [parseList, pure, Except.pure]

theorem Plain.tokens_pos {v : TestValue} (h : Plain v) : 0 < v.tokens.length := by
  obtain ⟨tok, more, eq, _⟩ := h.head
  simp [eq]

mutual

theorem parse_tokens {v : TestValue} (h : Plain v) (r : List Text) {fuel : Nat}
    (bound : 2 * (v.tokens.length + r.length) < fuel) :
    parse fuel (v.tokens ++ r) = .ok (v, r) := by
  obtain ⟨fuel, rfl⟩ : ∃ k, fuel = k + 1 := ⟨fuel - 1, by omega⟩
  cases h with
  | @scalar w word =>
    have notOpen := word.ne_mark (c := '[') (by decide)
    have notComma := word.ne_mark (c := ',') (by decide)
    have notClose := word.ne_mark (c := ']') (by decide)
    simp [TestValue.tokens, parse, notOpen, notComma, notClose, pure, Except.pure]
  | @list vs elements =>
    simp only [TestValue.tokens, List.length_cons, List.length_append, List.length_nil] at bound
    have arr : parseList fuel (listTokens vs ++ [']'] :: r) = .ok (vs, r) :=
      parseList_tokens elements r (by omega)
    simp [TestValue.tokens, parse, arr, bind, Except.bind, pure, Except.pure]

theorem parseList_tokens {vs : List TestValue} (h : PlainList vs) (r : List Text) {fuel : Nat}
    (bound : 2 * ((listTokens vs).length + r.length) + 3 < fuel) :
    parseList fuel (listTokens vs ++ [']'] :: r) = .ok (vs, r) := by
  obtain ⟨fuel, rfl⟩ : ∃ k, fuel = k + 2 := ⟨fuel - 2, by omega⟩
  cases h with
  | nil => exact parseList_close r _
  | @cons v vs value rest =>
    have head := value.tokens_pos
    cases vs with
    | nil =>
      simp only [listTokens] at bound ⊢
      apply parseList_cons value (parse_tokens value _ (by simp only [List.length_cons]; omega))
      exact parseList_close r _
    | cons w vs =>
      simp only [listTokens, List.length_append, List.length_cons] at bound
      simp only [listTokens, List.append_assoc, List.cons_append]
      apply parseList_cons value (parse_tokens value _ ?_)
      · rw [parseList_comma]
        exact parseList_tokens rest r (by omega)
      · simp only [List.length_append, List.length_cons]
        omega

end

theorem parseTop_tokens {vs : List TestValue} (h : PlainList vs) {fuel : Nat}
    (bound : 2 * (vs.flatMap TestValue.tokens).length + 1 < fuel) :
    parseTop fuel (vs.flatMap TestValue.tokens) = .ok vs := by
  induction vs generalizing fuel with
  | nil =>
    obtain ⟨fuel, rfl⟩ : ∃ k, fuel = k + 1 := ⟨fuel - 1, by omega⟩
    rfl
  | cons v vs ih =>
    obtain ⟨fuel, rfl⟩ : ∃ k, fuel = k + 1 := ⟨fuel - 1, by omega⟩
    cases h with
    | cons value rest =>
      have head := value.tokens_pos
      simp only [List.flatMap_cons, List.length_append] at bound ⊢
      have first : parse fuel (v.tokens ++ vs.flatMap TestValue.tokens) =
          .ok (v, vs.flatMap TestValue.tokens) := parse_tokens value _ (by omega)
      have tail : parseTop fuel (vs.flatMap TestValue.tokens) = .ok vs := ih rest (by omega)
      obtain ⟨tok, more, eq, comma, _⟩ := value.head
      rw [eq, List.cons_append] at first ⊢
      simp [parseTop, comma, first, tail, bind, Except.bind, pure, Except.pure]

/-- Parsing undoes writing. -/
theorem parseValues_writes {vs : List TestValue} {s : Text} (h : WritesAll vs s) :
    parseValues (tokenize s) = .ok vs := by
  rw [tokenize_writesAll h]
  exact parseTop_tokens h.plain (by omega)

theorem parseValues_ragged : parseValues (tokenize "[1i32,[]] -2f32".toList) =
    .ok [.list [.scalar "1i32".toList, .list []], .scalar "-2f32".toList] := by
  have one : Writes (.scalar "1i32".toList) "1i32".toList :=
    .scalar (g := []) (w := "1i32".toList) (h := []) Text.isGap_nil (by decide) Text.isGap_nil
  have none : Writes (.list []) "[]".toList :=
    .list (g := []) (h := []) (s := []) Text.isGap_nil (.empty Text.isGap_nil) Text.isGap_nil
  have both : Writes (.list [.scalar "1i32".toList, .list []]) "[1i32,[]]".toList :=
    .list (g := []) (h := []) Text.isGap_nil (.more one (.last none)) Text.isGap_nil
  have two : Writes (.scalar "-2f32".toList) "-2f32".toList :=
    .scalar (g := []) (w := "-2f32".toList) (h := []) Text.isGap_nil (by decide) Text.isGap_nil
  exact parseValues_writes (.more (c := ' ') both (by decide) (.last two))

end FutharkMlir
