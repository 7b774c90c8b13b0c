import FutharkMlir.Lib.Brackets
import FutharkMlir.Runner.Values

namespace FutharkMlir

open Brackets (Above Balanced depth)

/-- The values of a text: whitespace and commas may stand anywhere between them. -/
inductive HasValues : List TestValue → Text → Prop
  | nil : HasValues [] []
  | skip {c : Char} {s : Text} {vs : List TestValue} : Text.isSpace c = true ∨ c = ',' →
      HasValues vs s → HasValues vs (c :: s)
  | scalar {w s : Text} {vs : List TestValue} : IsWord w → Pattern.Ends wordChar s →
      HasValues vs s → HasValues (.scalar w :: vs) (w ++ s)
  | list {t s : Text} {us vs : List TestValue} : HasValues us t → HasValues vs s →
      HasValues (.list us :: vs) ('[' :: (t ++ ']' :: s))

def squareWeight (c : Char) : Int := if c = '[' then 1 else if c = ']' then -1 else 0

/-- The text ends inside of an array: every bracket it closes was open, and it leaves some. -/
def EndsInside (s : Text) : Prop := Above squareWeight 0 s ∧ 0 < depth squareWeight s

def IsMark (tok : Text) : Prop := tok = ['['] ∨ tok = [']'] ∨ tok = [',']

inductive ReadsAs : List TestValue → List Text → Prop
  | nil : ReadsAs [] []
  | comma {toks : List Text} {vs : List TestValue} : ReadsAs vs toks → ReadsAs vs ([','] :: toks)
  | scalar {tok : Text} {toks : List Text} {vs : List TestValue} : ¬ IsMark tok → ReadsAs vs toks →
      ReadsAs (.scalar tok :: vs) (tok :: toks)
  | list {ts toks : List Text} {us vs : List TestValue} : ReadsAs us ts → ReadsAs vs toks →
      ReadsAs (.list us :: vs) (['['] :: (ts ++ [']'] :: toks))

def tokenWeight (tok : Text) : Int := if tok = ['['] then 1 else if tok = [']'] then -1 else 0

theorem tokenWeight_other {tok : Text} (h : ¬ IsMark tok) : tokenWeight tok = 0 := by
  simp only [IsMark, not_or] at h
  simp [tokenWeight, h]

theorem ReadsAs.balanced {vs : List TestValue} {toks : List Text} (h : ReadsAs vs toks) :
    Balanced tokenWeight toks := by
  induction h with
  | nil => exact .flat (by simp)
  | comma _ ih => exact Balanced.append (s := [[',']]) (.flat (by simp [tokenWeight])) ih
  | @scalar tok _ _ word _ ih =>
    exact Balanced.append (s := [tok]) (.flat (by simp [tokenWeight_other word])) ih
  | list _ _ inner rest =>
    have array := (inner.enclose (a := ['[']) (b := [']']) rfl rfl).append rest
    simpa using array

theorem ReadsAs.append {us vs : List TestValue} {ts toks : List Text} (h : ReadsAs us ts)
    (h' : ReadsAs vs toks) : ReadsAs (us ++ vs) (ts ++ toks) := by
  induction h with
  | nil => exact h'
  | comma _ ih => exact .comma ih
  | scalar word _ ih => exact .scalar word ih
  | list inner _ _ rest =>
    have array := ReadsAs.list inner rest
    simpa using array

/-- A call gives a result and leaves some tokens, or runs out of them. -/
structure Outcome {α : Type} (x : Except Failure (α × List Text)) (good : α → List Text → Prop)
    (bad : Prop) : Prop where
  ok : ∀ a r, x = .ok (a, r) → good a r
  error : ∀ e, x = .error e → e = .fuel ∨ e = .indexError ∧ bad

namespace Outcome

variable {α β : Type} {x : Except Failure (α × List Text)} {good good' : α → List Text → Prop}
  {bad bad' : Prop}

theorem pure {a : α} {r : List Text} (h : good a r) :
    Outcome (.ok (a, r) : Except Failure (α × List Text)) good bad where
  ok := by
    intro a' r' eq
    cases eq
    exact h
  error := by simp

theorem short (h : bad) : Outcome (.error .indexError : Except Failure (α × List Text)) good bad where
  ok := by simp
  error := by simp [h]

theorem mono (h : Outcome x good bad) (le : ∀ a r, good a r → good' a r) (le' : bad → bad') :
    Outcome x good' bad' where
  ok a r eq := le a r (h.ok a r eq)
  error e eq := (h.error e eq).imp_right fun short => ⟨short.1, le' short.2⟩

theorem bind {f : α × List Text → Except Failure (β × List Text)}
    {goal : β → List Text → Prop} (h : Outcome x good bad)
    (tail : ∀ a r, good a r → Outcome (f (a, r)) goal bad') (le : bad → bad') :
    Outcome (x >>= f) goal bad' := by
  cases x with
  | error e =>
    constructor
    · intro b r eq
      cases eq
    · intro e' eq
      cases eq
      exact (h.error e rfl).imp_right fun short => ⟨short.1, le short.2⟩
  | ok p => exact tail p.1 p.2 (h.ok p.1 p.2 rfl)

end Outcome

theorem above_tokens {ts r : List Text} {vs : List TestValue} (h : ReadsAs vs ts) :
    Above tokenWeight 0 (ts ++ r) ↔ Above tokenWeight 0 r := by
  have balanced := h.balanced
  rw [Brackets.above_append, balanced.closed]
  exact and_iff_right balanced.above

/-- A value is read up to its end, and the loop of a list up to the bracket that closes it.
Only a list that is never closed runs out of tokens. -/
theorem parse_outcome (fuel : Nat) :
    (∀ tok rest, tok ≠ [','] → tok ≠ [']'] →
      Outcome (parse fuel (tok :: rest)) (fun v r => ∃ ts, tok :: rest = ts ++ r ∧ ReadsAs [v] ts)
        (tok = ['['] ∧ Above tokenWeight 0 rest)) ∧
    ∀ toks, Outcome (parseList fuel toks)
      (fun vs r => ∃ ts, toks = ts ++ [']'] :: r ∧ ReadsAs vs ts) (Above tokenWeight 0 toks) := by
  induction fuel with
  | zero =>
    exact ⟨fun tok rest _ _ => ⟨by simp [parse], by simp [parse]⟩,
      fun toks => ⟨by simp [parseList], by simp [parseList]⟩⟩
  | succ fuel ih =>
    obtain ⟨value, elements⟩ := ih
    constructor
    · intro tok rest comma close
      simp only [parse]
      split
      · next opens =>
        subst opens
        apply (elements rest).bind
        · rintro vs r ⟨ts, rfl, reads⟩
          exact .pure ⟨['['] :: (ts ++ [[']']]), by simp, .list reads .nil⟩
        · intro above
          exact ⟨rfl, above⟩
      · next opens =>
        rw [if_neg (by simp [comma, close])]
        exact .pure ⟨[tok], rfl, .scalar (by simp [IsMark, opens, comma, close]) .nil⟩
    · intro toks
      cases toks with
      | nil => exact .short (by simp)
      | cons tok rest =>
        simp only [parseList]
        split
        · next closes =>
          subst closes
          exact .pure ⟨[], rfl, .nil⟩
        · next close =>
          split
          · next comma =>
            subst comma
            apply (elements rest).mono
            · rintro vs r ⟨ts, rfl, reads⟩
              exact ⟨[','] :: ts, rfl, .comma reads⟩
            · intro above
              exact (above_tokens (.comma .nil)).mpr above
          · next comma =>
            apply (value tok rest comma close).bind
            · rintro v r ⟨ts, eq, reads⟩
              rw [eq]
              apply (elements r).bind
              · rintro vs r' ⟨ts', rfl, reads'⟩
                exact .pure ⟨ts ++ ts', by simp, reads.append reads'⟩
              · exact (above_tokens reads).mpr
            · rintro ⟨rfl, above⟩
              exact Brackets.above_cons.mpr ⟨by omega, above.mono (by decide)⟩

def LeftOpen (toks : List Text) : Prop := Above tokenWeight 0 toks ∧ 0 < depth tokenWeight toks

theorem leftOpen_append {ts r : List Text} {vs : List TestValue} (h : ReadsAs vs ts) :
    LeftOpen (ts ++ r) ↔ LeftOpen r := by
  rw [LeftOpen, above_tokens h, Brackets.depth_append, h.balanced.closed, Int.zero_add]
  rfl

/-- The tokens are read to their end, or a bracket closes nothing, or they end in an array. -/
structure TopOutcome (x : Except Failure (List TestValue)) (toks : List Text) : Prop where
  ok : ∀ vs, x = .ok vs → ReadsAs vs toks
  error : ∀ e, x = .error e → e = .fuel ∨ e = .indexError ∧ LeftOpen toks ∨
    (∃ m, e = .unsupported m) ∧ ¬ Above tokenWeight 0 toks

theorem TopOutcome.failed {e : Failure} {toks : List Text}
    (h : e = .fuel ∨ e = .indexError ∧ LeftOpen toks ∨
      (∃ m, e = .unsupported m) ∧ ¬ Above tokenWeight 0 toks) : TopOutcome (.error e) toks where
  ok := by simp
  error := by
    intro e' eq
    cases eq
    exact h

theorem TopOutcome.prepend {x : Except Failure (List TestValue)} {us : List TestValue}
    {ts r : List Text} (h : TopOutcome x r) (reads : ReadsAs us ts) :
    TopOutcome ((us ++ ·) <$> x) (ts ++ r) := by
  cases x with
  | ok vs =>
    refine ⟨?_, by simp [Functor.map, Except.map]⟩
    intro vs' eq
    cases eq
    exact reads.append (h.ok vs rfl)
  | error e =>
    apply TopOutcome.failed
    rw [leftOpen_append reads, above_tokens reads]
    exact h.error e rfl

theorem parseTop_outcome (fuel : Nat) (toks : List Text) :
    TopOutcome (parseTop fuel toks) toks := by
  induction fuel generalizing toks with
  | zero => exact .failed (.inl rfl)
  | succ fuel ih =>
    cases toks with
    | nil =>
      refine ⟨?_, by simp [parseTop, pure, Except.pure]⟩
      intro vs eq
      cases eq
      exact .nil
    | cons tok rest =>
      by_cases comma : tok = [',']
      · subst comma
        have skipped := (ih rest).prepend (.comma .nil)
        simpa [parseTop] using skipped
      by_cases close : tok = [']']
      · subst close
        have stops : ¬ Above tokenWeight 0 ([']'] :: rest) := by
          rw [Brackets.above_cons]
          rintro ⟨_, above⟩
          exact absurd above.start (by decide)
        cases fuel with
        | zero => exact .failed (.inl rfl)
        | succ fuel =>
          have unmatched : parseTop (fuel + 1 + 1) ([']'] :: rest) =
              .error (.unsupported (.unexpectedToken [']'])) := by
            simp [parseTop, parse, bind, Except.bind]
          rw [unmatched]
          exact .failed (.inr (.inr ⟨⟨_, rfl⟩, stops⟩))
      · have value := (parse_outcome fuel).1 tok rest comma close
        cases eq : parse fuel (tok :: rest) with
        | error e =>
          have failed : parseTop (fuel + 1) (tok :: rest) = .error e := by
            simp [parseTop, comma, eq, bind, Except.bind]
          rw [failed]
          apply TopOutcome.failed
          refine (value.error e eq).imp_right fun short => .inl ⟨short.1, ?_⟩
          obtain ⟨rfl, above⟩ := short.2
          have ground := above.finish
          refine ⟨Brackets.above_cons.mpr ⟨by omega, above.mono (by decide)⟩, ?_⟩
          have opens : tokenWeight ['['] = 1 := rfl
          rw [Brackets.depth_cons, opens]
          omega
        | ok p =>
          obtain ⟨ts, split, reads⟩ := value.ok p.1 p.2 eq
          have more : parseTop (fuel + 1) (tok :: rest) = ([p.1] ++ ·) <$> parseTop fuel p.2 := by
            simp only [parseTop, comma, if_false, eq]
            rfl
          rw [more, split]
          exact (ih p.2).prepend reads

theorem reads_parse {vs : List TestValue} {ts : List Text} (h : ReadsAs vs ts) :
    (∀ r fuel, 2 * (ts.length + r.length) + 3 < fuel →
      parseList fuel (ts ++ [']'] :: r) = .ok (vs, r)) ∧
    ∀ fuel, 2 * ts.length + 1 < fuel → parseTop fuel ts = .ok vs := by
  induction h with
  | nil =>
    constructor
    · intro r fuel bound
      obtain ⟨fuel, rfl⟩ : ∃ k, fuel = k + 1 := ⟨fuel - 1, by omega⟩
      exact parseList_close r fuel
    · intro fuel bound
      obtain ⟨fuel, rfl⟩ : ∃ k, fuel = k + 1 := ⟨fuel - 1, by omega⟩
      rfl
  | @comma toks vs _ ih =>
    simp only [List.length_cons]
    constructor
    · intro r fuel bound
      obtain ⟨fuel, rfl⟩ : ∃ k, fuel = k + 1 := ⟨fuel - 1, by omega⟩
      rw [List.cons_append, parseList_comma]
      exact ih.1 r fuel (by omega)
    · intro fuel bound
      obtain ⟨fuel, rfl⟩ : ∃ k, fuel = k + 1 := ⟨fuel - 1, by omega⟩
      simp only [parseTop, if_true]
      exact ih.2 fuel (by omega)
  | @scalar tok toks vs word _ ih =>
    simp only [IsMark, not_or] at word
    obtain ⟨opens, closes, comma⟩ := word
    simp only [List.length_cons]
    constructor
    · intro r fuel bound
      obtain ⟨fuel, rfl⟩ : ∃ k, fuel = k + 2 := ⟨fuel - 2, by omega⟩
      have tail := ih.1 r (fuel + 1) (by omega)
      simp [parseList, parse, opens, closes, comma, tail, bind, Except.bind, pure, Except.pure]
    · intro fuel bound
      obtain ⟨fuel, rfl⟩ : ∃ k, fuel = k + 2 := ⟨fuel - 2, by omega⟩
      have tail := ih.2 (fuel + 1) (by omega)
      simp [parseTop, parse, opens, closes, comma, tail, bind, Except.bind, pure, Except.pure]
  | @list ts toks us vs _ _ inner rest =>
    simp only [List.length_cons, List.length_append]
    constructor
    · intro r fuel bound
      obtain ⟨fuel, rfl⟩ : ∃ k, fuel = k + 2 := ⟨fuel - 2, by omega⟩
      have array := inner.1 (toks ++ [']'] :: r) fuel (by simp; omega)
      have tail := rest.1 r (fuel + 1) (by omega)
      simp [parseList, parse, array, tail, bind, Except.bind, pure, Except.pure]
    · intro fuel bound
      obtain ⟨fuel, rfl⟩ : ∃ k, fuel = k + 2 := ⟨fuel - 2, by omega⟩
      have array := inner.1 toks fuel (by omega)
      have tail := rest.2 (fuel + 1) (by omega)
      simp [parseTop, parse, array, tail, bind, Except.bind, pure, Except.pure]

theorem parseValues_reads {vs : List TestValue} {toks : List Text} :
    parseValues toks = .ok vs ↔ ReadsAs vs toks := by
  constructor
  · exact (parseTop_outcome _ toks).ok vs
  · intro h
    exact (reads_parse h).2 _ (by omega)

/-- A text cut into tokens, with whitespace around them. -/
inductive Lexed : List Text → Text → Prop
  | nil : Lexed [] []
  | space {c : Char} {s : Text} {toks : List Text} : Text.isSpace c = true → Lexed toks s →
      Lexed toks (c :: s)
  | mark {c : Char} {s : Text} {toks : List Text} : c = '[' ∨ c = ']' ∨ c = ',' → Lexed toks s →
      Lexed ([c] :: toks) (c :: s)
  | word {w s : Text} {toks : List Text} : IsWord w → Pattern.Ends wordChar s → Lexed toks s →
      Lexed (w :: toks) (w ++ s)

theorem tokenize_space {c : Char} (space : Text.isSpace c = true) (s : Text) :
    tokenize (c :: s) = tokenize s := by
  have gap : Text.IsGap [c] := by
    intro d hd
    cases List.mem_singleton.mp hd
    exact space
  exact tokenize_gap gap s

theorem tokenize_lexed (s : Text) : Lexed (tokenize s) s := by
  induction h : s.length using Nat.strong_induction_on generalizing s with
  | _ n ih =>
    cases s with
    | nil => exact .nil
    | cons c s =>
      rw [List.length_cons] at h
      have tail : Lexed (tokenize s) s := ih s.length (by omega) s rfl
      by_cases space : Text.isSpace c = true
      · rw [tokenize_space space]
        exact .space space tail
      by_cases mark : c = '[' ∨ c = ']' ∨ c = ','
      · rw [tokenize_mark mark]
        exact .mark mark tail
      · obtain ⟨w, r, eq, all, ends⟩ := Pattern.exists_run wordChar (c :: s)
        have here : wordChar c = true := by
          simp only [not_or] at mark
          simp [wordChar, space, mark]
        cases w with
        | nil =>
          rw [List.nil_append] at eq
          rw [← eq, Pattern.ends_cons, here] at ends
          cases ends
        | cons d w =>
          have word : IsWord (d :: w) := ⟨by simp, all⟩
          have total := congrArg List.length eq
          simp only [List.length_cons, List.length_append] at total
          rw [eq, tokenize_word word ends]
          exact .word word ends (ih r.length (by omega) r rfl)

theorem Lexed.tokenize {toks : List Text} {s : Text} (h : Lexed toks s) : tokenize s = toks := by
  induction h with
  | nil => rfl
  | space here _ ih => rw [tokenize_space here, ih]
  | mark here _ ih => rw [tokenize_mark here, ih]
  | word here ends _ ih => rw [tokenize_word here ends, ih]

theorem IsWord.notMark {w : Text} (h : IsWord w) : ¬ IsMark w := by
  rintro (eq | eq | eq)
  · exact h.ne_mark (c := '[') (by decide) eq
  · exact h.ne_mark (c := ']') (by decide) eq
  · exact h.ne_mark (c := ',') (by decide) eq

theorem squareWeight_other {c : Char} (opens : c ≠ '[') (closes : c ≠ ']') :
    squareWeight c = 0 := by
  simp [squareWeight, opens, closes]

theorem squareWeight_word {c : Char} (h : wordChar c = true) : squareWeight c = 0 := by
  apply squareWeight_other
  · rintro rfl
    cases h
  · rintro rfl
    cases h

theorem squareWeight_space {c : Char} (h : Text.isSpace c = true) : squareWeight c = 0 := by
  apply squareWeight_other <;> rintro rfl <;> revert h <;> decide

theorem Lexed.depth {toks : List Text} {s : Text} (h : Lexed toks s) :
    depth squareWeight s = depth tokenWeight toks := by
  induction h with
  | nil => rfl
  | space here _ ih => rw [Brackets.depth_cons, squareWeight_space here, ih, Int.zero_add]
  | @mark c _ _ mark _ ih =>
    have same : squareWeight c = tokenWeight [c] := by rcases mark with rfl | rfl | rfl <;> rfl
    rw [Brackets.depth_cons, Brackets.depth_cons, same, ih]
  | word here _ _ ih =>
    have flat := Brackets.depth_flat fun c hc => squareWeight_word (here.2 c hc)
    rw [Brackets.depth_append, flat, Brackets.depth_cons, tokenWeight_other here.notMark, ih]

theorem Lexed.above {toks : List Text} {s : Text} (h : Lexed toks s) {d : Int} :
    Above squareWeight d s ↔ Above tokenWeight d toks := by
  induction h generalizing d with
  | nil => simp
  | @space c s _ here _ ih =>
    have flat : ∀ b ∈ [c], squareWeight b = 0 := by simp [squareWeight_space here]
    exact (Brackets.above_flat (t := s) flat).trans ih
  | @mark c _ _ mark _ ih =>
    have same : squareWeight c = tokenWeight [c] := by rcases mark with rfl | rfl | rfl <;> rfl
    rw [Brackets.above_cons, Brackets.above_cons, same, ih]
  | @word w _ toks here _ _ ih =>
    have flat : ∀ b ∈ [w], tokenWeight b = 0 := by simp [tokenWeight_other here.notMark]
    rw [Brackets.above_flat fun c hc => squareWeight_word (here.2 c hc), ih]
    exact (Brackets.above_flat (t := toks) flat).symm

theorem leftOpen_tokenize (s : Text) : LeftOpen (tokenize s) ↔ EndsInside s := by
  have lexed := tokenize_lexed s
  rw [LeftOpen, EndsInside, lexed.above, lexed.depth]

theorem Lexed.append_mark {ts toks : List Text} {t s : Text} {c : Char} (h : Lexed ts t)
    (mark : c = '[' ∨ c = ']' ∨ c = ',') (rest : Lexed toks s) :
    Lexed (ts ++ [c] :: toks) (t ++ c :: s) := by
  induction h with
  | nil => exact .mark mark rest
  | space here _ ih => exact .space here ih
  | mark here _ ih => exact .mark here ih
  | @word w t ts here ends _ ih =>
    rw [List.append_assoc]
    apply Lexed.word here _ ih
    cases t with
    | nil => exact ends_mark mark s
    | cons d t => simpa using ends

theorem HasValues.lexed {vs : List TestValue} {s : Text} (h : HasValues vs s) :
    ∃ toks, Lexed toks s ∧ ReadsAs vs toks := by
  induction h with
  | nil => exact ⟨[], .nil, .nil⟩
  | @skip c s vs here _ ih =>
    obtain ⟨toks, lexed, reads⟩ := ih
    rcases here with space | rfl
    · exact ⟨toks, .space space lexed, reads⟩
    · exact ⟨[','] :: toks, .mark (by simp) lexed, .comma reads⟩
  | @scalar w s vs word ends _ ih =>
    obtain ⟨toks, lexed, reads⟩ := ih
    exact ⟨w :: toks, .word word ends lexed, .scalar word.notMark reads⟩
  | list _ _ inner rest =>
    obtain ⟨ts, lexed, reads⟩ := inner
    obtain ⟨toks, lexed', reads'⟩ := rest
    exact ⟨_, .mark (by simp) (lexed.append_mark (by simp) lexed'), .list reads reads'⟩

theorem Lexed.split {ts toks : List Text} {s : Text} {c : Char}
    (mark : c = '[' ∨ c = ']' ∨ c = ',') (h : Lexed (ts ++ [c] :: toks) s) :
    ∃ t r, s = t ++ c :: r ∧ Lexed ts t ∧ Lexed toks r := by
  generalize eq : ts ++ [c] :: toks = all at h
  induction h generalizing ts with
  | nil => simp at eq
  | space here _ ih =>
    obtain ⟨t, r, rfl, lexed, rest⟩ := ih eq
    exact ⟨_ :: t, r, rfl, .space here lexed, rest⟩
  | mark here lexed ih =>
    cases ts with
    | nil =>
      cases eq
      exact ⟨[], _, rfl, .nil, lexed⟩
    | cons tok ts =>
      obtain ⟨rfl, more⟩ := List.cons.inj eq
      obtain ⟨t, r, rfl, lexed, rest⟩ := ih more
      exact ⟨_ :: t, r, rfl, .mark here lexed, rest⟩
  | @word w s _ here ends lexed ih =>
    cases ts with
    | nil =>
      obtain ⟨rfl, _⟩ := List.cons.inj eq
      exact absurd (by rcases mark with rfl | rfl | rfl <;> simp [IsMark]) here.notMark
    | cons tok ts =>
      obtain ⟨rfl, more⟩ := List.cons.inj eq
      obtain ⟨t, r, rfl, lexed, rest⟩ := ih more
      refine ⟨tok ++ t, r, by simp, .word here ?_ lexed, rest⟩
      cases t with
      | nil => simp
      | cons d t => simpa using ends

theorem Lexed.head {tok : Text} {toks : List Text} {s : Text} (h : Lexed (tok :: toks) s) :
    ∃ g r, s = g ++ (tok ++ r) ∧ Text.IsGap g ∧ Lexed toks r ∧
      (IsMark tok ∨ IsWord tok ∧ Pattern.Ends wordChar r) := by
  generalize eq : tok :: toks = all at h
  induction h with
  | nil => cases eq
  | @space c s _ here _ ih =>
    obtain ⟨g, r, rfl, gap, rest⟩ := ih eq
    exact ⟨c :: g, r, rfl, by simpa [Text.IsGap, here] using gap, rest⟩
  | @mark c s _ here lexed _ =>
    cases eq
    refine ⟨[], s, rfl, Text.isGap_nil, lexed, .inl ?_⟩
    rcases here with rfl | rfl | rfl <;> simp [IsMark]
  | @word w s _ here ends lexed _ =>
    cases eq
    exact ⟨[], s, rfl, Text.isGap_nil, lexed, .inr ⟨here, ends⟩⟩

theorem HasValues.gap {g s : Text} {vs : List TestValue} (gap : Text.IsGap g)
    (h : HasValues vs s) : HasValues vs (g ++ s) := by
  induction g with
  | nil => exact h
  | cons c g ih => exact .skip (.inl (gap c (by simp))) (ih fun d hd => gap d (by simp [hd]))

theorem Lexed.hasValues {vs : List TestValue} {toks : List Text} (reads : ReadsAs vs toks)
    {s : Text} (h : Lexed toks s) : HasValues vs s := by
  induction reads generalizing s with
  | nil =>
    generalize eq : ([] : List Text) = none at h
    induction h with
    | nil => exact .nil
    | space here _ ih => exact .skip (.inl here) (ih eq)
    | mark => cases eq
    | word => cases eq
  | comma _ ih =>
    obtain ⟨g, r, rfl, gap, rest, _⟩ := h.head
    exact .gap gap (.skip (.inr rfl) (ih rest))
  | scalar word _ ih =>
    obtain ⟨g, r, rfl, gap, rest, kind⟩ := h.head
    obtain ⟨isWord, ends⟩ := kind.resolve_left word
    exact .gap gap (.scalar isWord ends (ih rest))
  | list _ _ inner ih =>
    obtain ⟨g, r, rfl, gap, rest, _⟩ := h.head
    obtain ⟨t, r, rfl, array, rest⟩ := rest.split (by simp)
    exact .gap gap (.list (inner array) (ih rest))

/-- The runner reads exactly the texts that have values, as these. -/
theorem parseValues_iff {s : Text} {vs : List TestValue} :
    parseValues (tokenize s) = .ok vs ↔ HasValues vs s := by
  rw [parseValues_reads]
  constructor
  · intro reads
    exact (tokenize_lexed s).hasValues reads
  · intro h
    obtain ⟨toks, lexed, reads⟩ := h.lexed
    rwa [lexed.tokenize]

/-- Reading a text that ends inside of an array runs out of tokens, and no other text does;
what else goes wrong is reported. -/
theorem parseValues_error {s : Text} {e : Failure} (h : parseValues (tokenize s) = .error e) :
    e = .indexError ∧ EndsInside s ∨ (∃ m, e = .unsupported m) ∧ ¬ EndsInside s := by
  have answers := parseValues_answers (tokenize s)
  have outcome := (parseTop_outcome _ (tokenize s)).error e h
  rw [leftOpen_tokenize] at outcome
  rcases outcome with rfl | inside | ⟨reported, below⟩
  · exact absurd h answers
  · exact .inl inside
  · refine .inr ⟨reported, fun inside => below ?_⟩
    exact ((leftOpen_tokenize s).mpr inside).1

theorem HasValues.balanced {vs : List TestValue} {s : Text} (h : HasValues vs s) :
    Balanced squareWeight s := by
  obtain ⟨toks, lexed, reads⟩ := h.lexed
  exact ⟨lexed.above.mpr reads.balanced.above, lexed.depth.trans reads.balanced.closed⟩

theorem HasValues.plain {vs : List TestValue} {s : Text} (h : HasValues vs s) : PlainList vs := by
  induction h with
  | nil => exact .nil
  | skip _ _ ih => exact ih
  | scalar word _ _ ih => exact .cons (.scalar word) ih
  | list _ _ inner ih => exact .cons (.list inner) ih

end FutharkMlir
