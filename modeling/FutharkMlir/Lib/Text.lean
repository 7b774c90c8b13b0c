import FutharkMlir.Lib.Pattern

/-! Texts as lists of characters, with the character classes of Python's `str`. -/

abbrev Text := List Char

namespace Text

/-- `str.isspace`, which is also `\s`. -/
def isSpace (c : Char) : Bool :=
  let n := c.toNat
  (9 ≤ n && n ≤ 13) || (28 ≤ n && n ≤ 32) || n == 0x85 || n == 0xa0 || n == 0x1680 ||
    (0x2000 ≤ n && n ≤ 0x200a) || n == 0x2028 || n == 0x2029 || n == 0x202f || n == 0x205f ||
    n == 0x3000

def IsGap (g : Text) : Prop := ∀ c ∈ g, isSpace c = true

theorem isGap_nil : IsGap [] := by simp [IsGap]

theorem isGap_blank : IsGap [' '] := by
  intro c hc
  cases List.mem_singleton.mp hc
  decide

/-- The zeros of the decimal digits of Unicode, each followed by its other nine digits. -/
def zeros : List Nat :=
  [0x30, 0x660, 0x6f0, 0x7c0, 0x966, 0x9e6, 0xa66, 0xae6, 0xb66, 0xbe6, 0xc66, 0xce6, 0xd66,
    0xde6, 0xe50, 0xed0, 0xf20, 0x1040, 0x1090, 0x17e0, 0x1810, 0x1946, 0x19d0, 0x1a80, 0x1a90,
    0x1b50, 0x1bb0, 0x1c40, 0x1c50, 0xa620, 0xa8d0, 0xa900, 0xa9d0, 0xa9f0, 0xaa50, 0xabf0,
    0xff10, 0x104a0, 0x10d30, 0x11066, 0x110f0, 0x11136, 0x111d0, 0x112f0, 0x11450, 0x114d0,
    0x11650, 0x116c0, 0x11730, 0x118e0, 0x11950, 0x11c50, 0x11d50, 0x11da0, 0x16a60, 0x16ac0,
    0x16b50, 0x1d7ce, 0x1d7d8, 0x1d7e2, 0x1d7ec, 0x1d7f6, 0x1e140, 0x1e2f0, 0x1e950, 0x1fbf0]

def decimal? (c : Char) : Option Nat :=
  zeros.findSome? fun z => if z ≤ c.toNat ∧ c.toNat < z + 10 then some (c.toNat - z) else none

/-- The class `\d`. -/
def isDigit (c : Char) : Bool := (decimal? c).isSome

theorem decimal?_ascii {c : Char} (h : c.isDigit = true) : decimal? c = some (c.toNat - 48) := by
  simp only [Char.isDigit, Bool.and_eq_true, decide_eq_true_eq] at h
  have low : 48 ≤ c.toNat := h.1
  have high : c.toNat < 58 := Nat.lt_succ_of_le h.2
  simp [decimal?, zeros, low, high]

theorem isDigit_ascii {c : Char} (h : c.isDigit = true) : isDigit c = true := by
  simp [isDigit, decimal?_ascii h]

theorem isSpace_digit {c : Char} (h : c.isDigit = true) : isSpace c = false := by
  simp only [Char.isDigit, Bool.and_eq_true, decide_eq_true_eq] at h
  have low : 48 ≤ c.toNat := h.1
  have high : c.toNat < 58 := Nat.lt_succ_of_le h.2
  simp [isSpace]
  omega

/-- `str.split()`: the maximal runs without whitespace. -/
def split (s : Text) : List Text := (Pattern.many1 fun c => !isSpace c).findAll s

def strip (s : Text) : Text := (s.reverse.dropWhile isSpace).reverse.dropWhile isSpace

theorem mem_strip {s : Text} {c : Char} (h : c ∈ strip s) : c ∈ s := by
  have inner := (List.dropWhile_suffix isSpace).mem h
  rw [List.mem_reverse] at inner
  exact List.mem_reverse.mp ((List.dropWhile_suffix isSpace).mem inner)

theorem strip_snoc {s : Text} {c : Char} (space : isSpace c = true) :
    strip (s ++ [c]) = strip s := by
  simp [strip, space]

structure Trimmed (s : Text) : Prop where
  nonempty : s ≠ []
  left : ∀ c ∈ s.head?, isSpace c = false
  right : ∀ c ∈ s.getLast?, isSpace c = false

theorem strip_trimmed {g s : Text} (gap : IsGap g) (h : Trimmed s) : strip (g ++ s) = s := by
  have right : ((g ++ s).reverse.dropWhile isSpace) = (g ++ s).reverse := by
    obtain ⟨s, c, rfl⟩ := (List.eq_nil_or_concat s).resolve_left h.nonempty
    have last := h.right c (by simp)
    simp [last]
  rw [strip, right, List.reverse_reverse, List.dropWhile_append_of_pos gap]
  obtain ⟨c, s, rfl⟩ := List.exists_cons_of_ne_nil h.nonempty
  have first := h.left c (by simp)
  simp [first]

def find? (key : Text) : Text → Option Nat
  | [] => if key = [] then some 0 else none
  | c :: s => if key <+: c :: s then some 0 else (find? key s).map (· + 1)

theorem find?_first {key before rest : Text} (nonempty : key ≠ [])
    (early : ∀ u v, before = u ++ v → v ≠ [] → ¬ key <+: v ++ (key ++ rest)) :
    find? key (before ++ (key ++ rest)) = some before.length := by
  induction before with
  | nil =>
    obtain ⟨c, key, rfl⟩ := List.exists_cons_of_ne_nil nonempty
    simp [find?]
  | cons c before ih =>
    have here := early [] (c :: before) rfl (by simp)
    have tail := ih fun u v eq => early (c :: u) v (by simp [eq])
    rw [List.cons_append] at here ⊢
    simp [find?, here, tail]

/-- The lines of a text file, each with its line break. The text is what reading the file in text
mode gives, with every line break translated to `\n`. -/
def fileLines : Text → List Text
  | [] => []
  | c :: s =>
    if c = '\n' then [c] :: fileLines s
    else
      match fileLines s with
      | [] => [[c]]
      | line :: lines => (c :: line) :: lines

/-- A line break stands at the end of a line only. -/
theorem fileLines_break {s line : Text} (h : line ∈ fileLines s) :
    ∃ w, '\n' ∉ w ∧ (line = w ∨ line = w ++ ['\n']) := by
  induction s generalizing line with
  | nil => cases h
  | cons c s ih =>
    rw [fileLines] at h
    split at h
    · next eq =>
      subst eq
      rcases List.mem_cons.mp h with rfl | h
      · exact ⟨[], by simp, .inr rfl⟩
      · exact ih h
    · next ne =>
      have here : '\n' ∉ [c] := by simpa [eq_comm] using ne
      split at h
      · cases List.mem_singleton.mp h
        exact ⟨[c], here, .inl rfl⟩
      · next first lines eq =>
        rcases List.mem_cons.mp h with rfl | h
        · obtain ⟨w, hw, rfl | rfl⟩ := ih (eq ▸ List.mem_cons_self)
          · exact ⟨c :: first, by simpa using ⟨by simpa using here, hw⟩, .inl rfl⟩
          · exact ⟨c :: w, by simpa using ⟨by simpa using here, hw⟩, .inr rfl⟩
        · exact ih (eq ▸ List.mem_cons_of_mem _ h)

theorem strip_line {s line : Text} (h : line ∈ fileLines s) : '\n' ∉ strip line := by
  obtain ⟨w, hw, rfl | rfl⟩ := fileLines_break h
  · exact fun member => hw (mem_strip member)
  · rw [strip_snoc (by decide)]
    exact fun member => hw (mem_strip member)

def isBreak (c : Char) : Bool :=
  let n := c.toNat
  (10 ≤ n && n ≤ 13) || (28 ≤ n && n ≤ 30) || n == 0x85 || n == 0x2028 || n == 0x2029

theorem isBreak_digit {c : Char} (h : c.isDigit = true) : isBreak c = false := by
  simp only [Char.isDigit, Bool.and_eq_true, decide_eq_true_eq] at h
  have low : 48 ≤ c.toNat := h.1
  have high : c.toNat < 58 := Nat.lt_succ_of_le h.2
  simp [isBreak]
  omega

def splitLines : Text → List Text
  | [] => []
  | '\r' :: '\n' :: s => [] :: splitLines s
  | c :: s =>
    if isBreak c then [] :: splitLines s
    else
      match splitLines s with
      | [] => [[c]]
      | line :: lines => (c :: line) :: lines

theorem splitLines_cons {c : Char} (h : isBreak c = false) (s : Text) :
    splitLines (c :: s) =
      match splitLines s with
      | [] => [[c]]
      | line :: lines => (c :: line) :: lines := by
  have ne : c ≠ '\r' := by
    rintro rfl
    cases h
  rw [splitLines]
  · simp [h]
  · rintro r rfl _
    exact ne rfl

theorem splitLines_last {s : Text} (nonempty : s ≠ []) (h : ∀ c ∈ s, isBreak c = false) :
    splitLines s = [s] := by
  induction s with
  | nil => exact absurd rfl nonempty
  | cons c s ih =>
    rw [splitLines_cons (h c (by simp))]
    cases s with
    | nil => rfl
    | cons d s => rw [ih (by simp) fun e he => h e (by simp [he])]

theorem splitLines_line {s : Text} (h : ∀ c ∈ s, isBreak c = false) (r : Text) :
    splitLines (s ++ '\n' :: r) = s :: splitLines r := by
  induction s with
  | nil => rfl
  | cons c s ih =>
    rw [List.cons_append, splitLines_cons (h c (by simp)), ih fun d hd => h d (by simp [hd])]

inductive Spaced (sep : Char → Bool) : List Text → Text → Prop
  | nil {g : Text} : (∀ c ∈ g, sep c = true) → Spaced sep [] g
  | cons {g t r : Text} {toks : List Text} : (∀ c ∈ g, sep c = true) → t ≠ [] →
      (∀ c ∈ t, sep c = false) → Pattern.Ends (fun c => !sep c) r → Spaced sep toks r →
      Spaced sep (t :: toks) (g ++ (t ++ r))

theorem findAll_gap {sep : Char → Bool} {g : Text} (h : ∀ c ∈ g, sep c = true) (r : Text) :
    (Pattern.many1 fun c => !sep c).findAll (g ++ r) =
      (Pattern.many1 fun c => !sep c).findAll r := by
  apply Pattern.findAll_fails
  intro u v eq nonempty
  obtain ⟨c, v, rfl⟩ := List.exists_cons_of_ne_nil nonempty
  apply Pattern.many1_eq_nil
  simp [h c (by simp [eq])]

theorem Spaced.findAll {sep : Char → Bool} {toks : List Text} {s : Text}
    (h : Spaced sep toks s) : (Pattern.many1 fun c => !sep c).findAll s = toks := by
  induction h with
  | @nil g gap =>
    have skip := findAll_gap gap []
    rw [List.append_nil] at skip
    exact skip
  | @cons g t r toks gap nonempty word ends _ ih =>
    rw [findAll_gap gap]
    have all : ∀ c ∈ t, (!sep c) = true := fun c hc => by simp [word c hc]
    rw [Pattern.findAll_match nonempty (Pattern.first_many1 nonempty all ends), ih]

theorem Spaced.split {toks : List Text} {s : Text} (h : Spaced isSpace toks s) :
    Text.split s = toks :=
  h.findAll

theorem Spaced.map {sep sep' : Char → Bool} {f : Char → Char} {toks : List Text} {s : Text}
    (h : Spaced sep toks s) (apart : ∀ c, sep c = true → sep' (f c) = true)
    (keep : ∀ c, sep c = false → f c = c ∧ sep' c = false) : Spaced sep' toks (s.map f) := by
  induction h with
  | nil gap =>
    apply Spaced.nil
    intro c hc
    obtain ⟨d, hd, rfl⟩ := List.mem_map.mp hc
    exact apart d (gap d hd)
  | @cons g t r toks gap nonempty word ends _ ih =>
    have same : t.map f = t := by
      rw [List.map_congr_left fun c hc => (keep c (word c hc)).1, List.map_id']
    rw [List.map_append, List.map_append, same]
    apply Spaced.cons _ nonempty fun c hc => (keep c (word c hc)).2
    · cases r with
      | nil => simp
      | cons d r =>
        simp only [Pattern.ends_cons, Bool.not_eq_false'] at ends
        simp [apart d ends]
    · exact ih
    · intro c hc
      obtain ⟨d, hd, rfl⟩ := List.mem_map.mp hc
      exact apart d (gap d hd)

/-- Decimal digits, as a programming language writes them. -/
def IsDecimal (ds : Text) : Prop := ds ≠ [] ∧ ∀ c ∈ ds, c.isDigit = true

instance (ds : Text) : Decidable (IsDecimal ds) :=
  decidable_of_iff (ds ≠ [] ∧ ds.all Char.isDigit = true) (by rw [IsDecimal, List.all_eq_true])

/-- A whole number in decimal, and its value. -/
inductive IsNumeral : Text → Int → Prop
  | plain {ds : Text} : IsDecimal ds → IsNumeral ds (Nat.ofDigitChars 10 ds 0)
  | minus {ds : Text} : IsDecimal ds → IsNumeral ('-' :: ds) (-(Nat.ofDigitChars 10 ds 0 : Int))

theorem IsNumeral.nonempty {t : Text} {v : Int} (h : IsNumeral t v) : t ≠ [] := by
  cases h with
  | plain digits => exact digits.1
  | minus digits => exact List.cons_ne_nil _ _

def readInt? : Text → Option Int
  | '-' :: ds => if IsDecimal ds then some (-(Nat.ofDigitChars 10 ds 0 : Int)) else none
  | ds => if IsDecimal ds then some (Nat.ofDigitChars 10 ds 0) else none

theorem IsNumeral.read {t : Text} {v : Int} (h : IsNumeral t v) : readInt? t = some v := by
  cases h with
  | @plain ds digits =>
    obtain ⟨c, ds, rfl⟩ := List.exists_cons_of_ne_nil digits.1
    have ne : c ≠ '-' := by
      rintro rfl
      exact absurd (digits.2 '-' (by simp)) (by decide)
    unfold readInt?
    split
    · next eq => exact absurd (List.cons.inj eq).1 ne
    · simp [digits]
  | minus digits => simp [readInt?, digits]

def join (sep : Text) : List Text → Text
  | [] => []
  | [t] => t
  | t :: u :: ts => t ++ (sep ++ join sep (u :: ts))

theorem mem_join {sep : Text} {ts : List Text} {c : Char} (h : c ∈ join sep ts) :
    c ∈ sep ∨ ∃ t ∈ ts, c ∈ t := by
  induction ts with
  | nil => cases h
  | cons t ts ih =>
    cases ts with
    | nil => exact .inr ⟨t, by simp, h⟩
    | cons u ts =>
      simp only [join, List.mem_append] at h
      rcases h with h | h | h
      · exact .inr ⟨t, by simp, h⟩
      · exact .inl h
      · rcases ih h with h | ⟨v, hv, h⟩
        · exact .inl h
        · exact .inr ⟨v, by simp [hv], h⟩

theorem spaced_join {sep : Char → Bool} {between g h : Text} {ts : List Text}
    (between_ne : between ≠ []) (apart : ∀ c ∈ between, sep c = true)
    (before : ∀ c ∈ g, sep c = true) (after : ∀ c ∈ h, sep c = true)
    (words : ∀ t ∈ ts, t ≠ [] ∧ ∀ c ∈ t, sep c = false) :
    Spaced sep ts (g ++ (join between ts ++ h)) := by
  induction ts generalizing g with
  | nil =>
    apply Spaced.nil
    intro c hc
    rcases List.mem_append.mp hc with hc | hc
    · exact before c hc
    · exact after c hc
  | cons t ts ih =>
    obtain ⟨⟨nonempty, word⟩, others⟩ := List.forall_mem_cons.mp words
    cases ts with
    | nil =>
      refine .cons before nonempty word ?_ (.nil after)
      intro c hc
      simp [after c (List.mem_of_head? hc)]
    | cons u ts =>
      obtain ⟨d, between, rfl⟩ := List.exists_cons_of_ne_nil between_ne
      have ends : Pattern.Ends (fun c => !sep c)
          (d :: between ++ (join (d :: between) (u :: ts) ++ h)) := by
        simpa using apart d (by simp)
      have spaced := Spaced.cons before nonempty word ends (ih apart others)
      simpa [join] using spaced

def natText (n : Nat) : Text := Nat.toDigits 10 n

def intText : Int → Text
  | .ofNat n => natText n
  | .negSucc n => '-' :: natText (n + 1)

theorem isDecimal_natText (n : Nat) : IsDecimal (natText n) :=
  ⟨Nat.toDigits_ne_nil, fun _ hc => Nat.isDigit_of_mem_toDigits (by omega) (by omega) hc⟩

theorem mem_intText {i : Int} {c : Char} (h : c ∈ intText i) : c = '-' ∨ c.isDigit = true := by
  cases i with
  | ofNat n => exact .inr ((isDecimal_natText n).2 c h)
  | negSucc n =>
    rcases List.mem_cons.mp h with rfl | h
    · exact .inl rfl
    · exact .inr ((isDecimal_natText (n + 1)).2 c h)

theorem isNumeral_intText (i : Int) : IsNumeral (intText i) i := by
  have digits (n : Nat) : Nat.ofDigitChars 10 (natText n) 0 = n := Nat.ofDigitChars_ten_toDigits
  cases i with
  | ofNat n =>
    have plain := IsNumeral.plain (isDecimal_natText n)
    rw [digits] at plain
    exact plain
  | negSucc n =>
    have minus := IsNumeral.minus (isDecimal_natText (n + 1))
    rw [digits] at minus
    exact minus

/-- Python's `int` of decimal digits. -/
def digitsInt (ds : Text) : Int := ds.foldl (fun n c => 10 * n + ((decimal? c).getD 0 : Int)) 0

def toInt : Text → Int
  | '-' :: ds => -(digitsInt ds)
  | ds => digitsInt ds

theorem foldl_digits {ds : Text} (h : ∀ c ∈ ds, c.isDigit = true) (n : Nat) :
    ds.foldl (fun n c => 10 * n + ((decimal? c).getD 0 : Int)) (n : Int) =
      Nat.ofDigitChars 10 ds n := by
  induction ds generalizing n with
  | nil => simp
  | cons c ds ih =>
    have digit := decimal?_ascii (h c (by simp))
    have step : 10 * (n : Int) + ((decimal? c).getD 0 : Int) =
        ((10 * n + (c.toNat - '0'.toNat) : Nat) : Int) := by
      rw [digit]
      push_cast
      rfl
    rw [List.foldl_cons, step, ih (fun d hd => h d (by simp [hd])), Nat.ofDigitChars_cons]

theorem digitsInt_natText (n : Nat) : digitsInt (natText n) = n := by
  refine (foldl_digits (isDecimal_natText n).2 0).trans ?_
  rw [natText, Nat.ofDigitChars_ten_toDigits]

theorem toInt_natText (n : Nat) : toInt (natText n) = n := by
  have decimal := isDecimal_natText n
  obtain ⟨c, ds, eq⟩ := List.exists_cons_of_ne_nil decimal.1
  have plain : c ≠ '-' := by
    rintro rfl
    exact absurd (decimal.2 '-' (by simp [eq])) (by decide)
  rw [← digitsInt_natText n, eq]
  unfold toInt
  split
  · next h => exact absurd (List.cons.inj h).1 plain
  · rfl

theorem toInt_intText (i : Int) : toInt (intText i) = i := by
  cases i with
  | ofNat n => exact toInt_natText n
  | negSucc n =>
    simp only [intText, toInt, digitsInt_natText]
    omega

end Text
