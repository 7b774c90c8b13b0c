import FutharkMlir.Runner.Accepted
import FutharkMlir.Runner.Flags

namespace FutharkMlir

open Pattern (Takes)

def IsLiteral (tok : Text) : Prop :=
  ∃ n t, tok = n ++ t ∧ IsNumber n ∧ (t = [] ∨ IsSuffix t)

def EndsInSuffix (tok : Text) : Prop := ∃ p t, tok = p ++ t ∧ IsSuffix t

theorem takes_sign : Takes (Pattern.optional (Pattern.char (· == '-'))) fun w a =>
    a = w ∧ (w = [] ∨ w = ['-']) := by
  apply (Takes.char (· == '-')).optional.mono
  rintro w a (⟨rfl, c, here, rfl⟩ | ⟨rfl, rfl⟩)
  · simpa using here
  · simp

theorem takes_fraction : Takes
    (Pattern.optional do
      let point ← Pattern.char (· == '.')
      let digits ← Pattern.many1 Text.isDigit
      return point ++ digits)
    fun w a => a = w ∧ (w = [] ∨ ∃ fs, IsDigits fs ∧ w = '.' :: fs) := by
  apply ((Takes.char (· == '.')).bind fun a =>
    (Takes.many1 Text.isDigit).bind fun b => Takes.pure (a ++ b)).optional.mono
  rintro w a (⟨u, v, _, rfl, ⟨rfl, c, here, rfl⟩, v, _, _, rfl, ⟨rfl, digits⟩, rfl, rfl⟩ | ⟨rfl, rfl⟩)
  · rw [beq_iff_eq] at here
    subst here
    exact ⟨by simp, .inr ⟨_, digits, by simp⟩⟩
  · simp

theorem takes_number : Takes number fun w a => a = w ∧ IsNumber w := by
  apply (takes_sign.bind fun sign => (Takes.many1 Text.isDigit).bind fun digits =>
    takes_fraction.bind fun fraction => Takes.pure (sign ++ (digits ++ fraction))).mono
  rintro w a ⟨s, v, _, rfl, ⟨rfl, sign⟩, ds, v, _, rfl, ⟨rfl, digits⟩, fs, v, _, rfl,
    ⟨rfl, fraction⟩, rfl, rfl⟩
  rw [List.append_nil]
  rcases fraction with rfl | ⟨fs, fraction, rfl⟩
  · exact ⟨rfl, .whole sign digits⟩
  · exact ⟨rfl, .fraction sign digits fraction⟩

theorem takes_typeSuffix : Takes typeSuffix fun w _ => IsSuffix w := by
  apply (((Takes.char fun c => c == 'i' || c == 'u' || c == 'f').bind fun a =>
    (Takes.many1 Text.isDigit).bind fun b => Takes.pure (a ++ b)).orElse (Takes.text _)).mono
  rintro w a (⟨u, v, _, rfl, ⟨rfl, c, here, rfl⟩, v, _, _, rfl, ⟨rfl, digits⟩, rfl, _⟩ | ⟨_, rfl⟩)
  · rw [List.append_nil]
    apply IsSuffix.width _ digits
    simpa [or_assoc] using here
  · exact .bool

theorem atEnd_word {r : Text} {m : Unit × Text} (h : m ∈ Pattern.atEnd r)
    (noBreak : '\n' ∉ r) : r = [] := by
  unfold Pattern.atEnd at h
  split at h
  · rfl
  · simp at noBreak
  · cases h

theorem IsWord.noBreak {w : Text} (h : IsWord w) : '\n' ∉ w := by
  intro member
  exact absurd (h.2 '\n' member) (by decide)

theorem stripSuffix_iff {tok : Text} (word : IsWord tok) :
    (∃ n, stripSuffix tok = .ok n) ↔ IsLiteral tok := by
  constructor
  · rintro ⟨n, strips⟩
    unfold stripSuffix at strips
    split at strips
    · cases strips
    · next found =>
      obtain ⟨r, hr⟩ := Pattern.mem_of_matchStart found
      obtain ⟨number, hnumber, hr⟩ := Pattern.mem_bind.mp hr
      obtain ⟨suffix, hsuffix, hr⟩ := Pattern.mem_bind.mp hr
      obtain ⟨stop, hstop, _⟩ := Pattern.mem_bind.mp hr
      obtain ⟨w, rfl, _, isNumber⟩ := takes_number tok number hnumber
      obtain ⟨t, eq, isSuffix⟩ := takes_typeSuffix.optional number.2 suffix hsuffix
      have noBreak := word.noBreak
      rw [eq] at noBreak
      have last := atEnd_word hstop fun member => noBreak (by simp [member])
      rw [eq, last, List.append_nil]
      exact ⟨w, t, rfl, isNumber, isSuffix.symm.imp_left And.left⟩
  · rintro ⟨n, t, rfl, number, suffix⟩
    exact ⟨n, stripSuffix_number number suffix⟩

theorem elemType_iff {tok : Text} (word : IsWord tok) :
    (∃ t, elemType tok = .ok t) ↔ EndsInSuffix tok := by
  constructor
  · rintro ⟨n, suffix⟩
    unfold elemType at suffix
    split at suffix
    · cases suffix
    · next found =>
      obtain ⟨u, v, r, rfl, hr⟩ := Pattern.mem_of_search found
      obtain ⟨suffix, hsuffix, hr⟩ := Pattern.mem_bind.mp hr
      obtain ⟨stop, hstop, _⟩ := Pattern.mem_bind.mp hr
      obtain ⟨t, rfl, isSuffix⟩ := takes_typeSuffix v suffix hsuffix
      have last := atEnd_word hstop fun member => word.noBreak (by simp [member])
      rw [last, List.append_nil]
      exact ⟨u, t, rfl, isSuffix⟩
  · rintro ⟨p, t, rfl, isSuffix⟩
    have found : elemTypePattern.first t = some (t, []) := by
      apply Pattern.first_bind (first_typeSuffix isSuffix)
      exact Pattern.first_bind (a := ()) (r := []) rfl rfl
    have some := Pattern.search_isSome (u := p) fun none => by
      rw [Pattern.first_eq_none.mpr none] at found
      cases found
    obtain ⟨a, eq⟩ := Option.isSome_iff_exists.mp some
    exact ⟨a, by simp [elemType, eq]⟩

def Reports {α : Type} (x : Except Failure α) : Prop :=
  ∀ e, x = .error e → ∃ m, e = .unsupported m

theorem stripSuffix_reports (tok : Text) : Reports (stripSuffix tok) := by
  intro e h
  unfold stripSuffix at h
  split at h
  · cases h
    exact ⟨_, rfl⟩
  · cases h

theorem elemType_reports (tok : Text) : Reports (elemType tok) := by
  intro e h
  unfold elemType at h
  split at h
  · cases h
    exact ⟨_, rfl⟩
  · cases h

/-- An array with nothing to be found at its first position, or at the first position there,
and so on: `[]`, `[[], [1i32]]`. -/
inductive Hollow : TestValue → Prop
  | empty : Hollow (.list [])
  | head {v : TestValue} {vs : List TestValue} : Hollow v → Hollow (.list (v :: vs))

mutual

def TestValue.rank : TestValue → Nat
  | .scalar _ => 0
  | .list vs => headRank vs + 1

def headRank : List TestValue → Nat
  | [] => 0
  | v :: _ => v.rank

end

theorem shape_hollow {v : TestValue} (h : Hollow v) : v.shape = .error .indexError := by
  induction h with
  | empty => rfl
  | head _ ih => simp [TestValue.shape, headShape, ih, bind, Except.bind]

theorem shape_solid : ∀ {v : TestValue}, ¬ Hollow v →
    ∃ dims, v.shape = .ok dims ∧ dims.length = v.rank
  | .scalar _, _ => ⟨[], rfl, rfl⟩
  | .list [], h => absurd .empty h
  | .list (v :: vs), h => by
    obtain ⟨dims, shape, rank⟩ := shape_solid fun hollow => h (.head hollow)
    refine ⟨(vs.length + 1) :: dims, ?_, ?_⟩
    · simp [TestValue.shape, headShape, shape, bind, Except.bind, pure, Except.pure]
    · simp [TestValue.rank, headRank, rank]

theorem leaves_solid : ∀ {v : TestValue}, ¬ Hollow v → v.leaves ≠ []
  | .scalar _, _ => by simp [TestValue.leaves]
  | .list [], h => absurd .empty h
  | .list (v :: vs), h => by
    have inner : v.leaves ≠ [] := leaves_solid fun hollow => h (.head hollow)
    simp [TestValue.leaves, listLeaves, inner]

mutual

theorem Plain.leaves {v : TestValue} (h : Plain v) : ∀ tok ∈ v.leaves, IsWord tok := by
  cases h with
  | scalar word => simpa [TestValue.leaves] using word
  | list elements => exact elements.leaves

theorem PlainList.leaves {vs : List TestValue} (h : PlainList vs) :
    ∀ tok ∈ listLeaves vs, IsWord tok := by
  cases h with
  | nil => simp [listLeaves]
  | cons value rest =>
    intro tok ht
    rcases List.mem_append.mp ht with ht | ht
    · exact value.leaves tok ht
    · exact rest.leaves tok ht

end

theorem PlainList.mem {vs : List TestValue} (h : PlainList vs) : ∀ v ∈ vs, Plain v := by
  induction vs with
  | nil => simp
  | cons v vs ih =>
    cases h with
    | cons value rest =>
      intro u hu
      rcases List.mem_cons.mp hu with rfl | hu
      · exact value
      · exact ih rest u hu

/-- What the runner can pass on: a literal, or an array of literals whose first one has a
type suffix. -/
inductive Supported : TestValue → Prop
  | scalar {tok : Text} : IsLiteral tok → Supported (.scalar tok)
  | list {vs : List TestValue} {first : Text} {rest : List Text} : ¬ Hollow (.list vs) →
      listLeaves vs = first :: rest → EndsInSuffix first →
      (∀ tok ∈ first :: rest, IsLiteral tok) → Supported (.list vs)

theorem Supported.solid {v : TestValue} (h : Supported v) : ¬ Hollow v := by
  cases h with
  | scalar => rintro ⟨⟩
  | list solid => exact solid

theorem payload_hollow {v : TestValue} (h : Hollow v) : payload v = .error .indexError := by
  have shape := shape_hollow h
  cases h with
  | empty => simp only [payload, shape, bind, Except.bind]
  | head => simp only [payload, shape, bind, Except.bind]

theorem Reports.ok {α : Type} (a : α) : Reports (.ok a : Except Failure α) := by
  intro e h
  cases h

theorem Reports.bind {α β : Type} {x : Except Failure α} {f : α → Except Failure β}
    (h : Reports x) (tail : ∀ a, Reports (f a)) : Reports (x >>= f) := by
  cases x with
  | error e =>
    intro e' eq
    cases eq
    exact h e rfl
  | ok a => exact tail a

theorem Reports.mapM {α β : Type} {f : α → Except Failure β} (h : ∀ x, Reports (f x))
    (xs : List α) : Reports (xs.mapM f) := by
  intro e failed
  obtain ⟨_, x, _, _, _, here⟩ := Except.mapM_eq_error.mp failed
  exact h x e here

/-- A value that is not hollow has a payload exactly if it is supported, and else it is
reported. -/
theorem payload_solid {v : TestValue} (plain : Plain v) (solid : ¬ Hollow v) :
    Reports (payload v) ∧ ((∃ t, payload v = .ok t) ↔ Supported v) := by
  cases v with
  | scalar tok =>
    refine ⟨stripSuffix_reports tok, ?_⟩
    have word : IsWord tok := by
      cases plain
      assumption
    rw [payload, stripSuffix_iff word]
    constructor
    · exact .scalar
    · rintro ⟨literal⟩
      exact literal
  | list vs =>
    obtain ⟨dims, shape, _⟩ := shape_solid solid
    obtain ⟨first, rest, eq⟩ := List.exists_cons_of_ne_nil (leaves_solid solid)
    have words : ∀ tok ∈ first :: rest, IsWord tok := eq ▸ plain.leaves
    have run : payload (.list vs) = do
        let etype ← elemType first
        let flat ← (first :: rest).mapM stripSuffix
        return payloadText dims etype flat := by
      simp only [payload, shape, eq, bind, Except.bind]
    rw [run]
    constructor
    · exact (elemType_reports first).bind fun _ =>
        (Reports.mapM stripSuffix_reports _).bind fun _ => .ok _
    have literals : (∃ flat, (first :: rest).mapM stripSuffix = .ok flat) ↔
        ∀ tok ∈ first :: rest, IsLiteral tok := by
      rw [Except.mapM_exists_ok]
      exact forall₂_congr fun tok ht => stripSuffix_iff (words tok ht)
    simp only [Except.bind_eq_ok]
    constructor
    · rintro ⟨_, etype, suffix, flat, strips, _⟩
      exact .list solid eq ((elemType_iff (words first (by simp))).mp ⟨etype, suffix⟩)
        (literals.mp ⟨flat, strips⟩)
    · intro supported
      cases supported with
      | list _ eq' suffix all =>
        cases eq.symm.trans eq'
        obtain ⟨etype, hetype⟩ := (elemType_iff (words first (by simp))).mpr suffix
        obtain ⟨flat, hflat⟩ := literals.mpr all
        exact ⟨_, etype, hetype, flat, hflat, rfl⟩

end FutharkMlir
