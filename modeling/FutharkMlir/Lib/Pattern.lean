import Mathlib.Data.List.Basic
import Mathlib.Data.List.TakeWhile

/-! Regular expressions as a backtracking engine runs them. A pattern takes the text at a
position to its matches in the order they are tried, each with its value and the text
left behind; a search takes the first. -/

def Pattern (α : Type) := List Char → List (α × List Char)

namespace Pattern

variable {α β : Type}

instance : Monad Pattern where
  pure a := fun s => [(a, s)]
  bind p f := fun s => (p s).flatMap fun m => f m.1 m.2

def char (p : Char → Bool) : Pattern (List Char)
  | [] => []
  | c :: s => if p c then [([c], s)] else []

def text : List Char → Pattern (List Char)
  | [] => pure []
  | c :: w => do
    let a ← char (· == c)
    let b ← text w
    return a ++ b

def many (p : Char → Bool) : Pattern (List Char)
  | [] => [([], [])]
  | c :: s =>
    (if p c then (many p s).map fun m => (c :: m.1, m.2) else []) ++ [([], c :: s)]

def many1 (p : Char → Bool) : Pattern (List Char) := do
  let a ← char p
  let b ← many p
  return a ++ b

def manyLazy (p : Char → Bool) : Pattern (List Char)
  | [] => [([], [])]
  | c :: s => ([], c :: s) :: if p c then (manyLazy p s).map fun m => (c :: m.1, m.2) else []

def orElse (p q : Pattern α) : Pattern α := fun s => p s ++ q s

def optional (p : Pattern (List Char)) : Pattern (List Char) := p.orElse (pure [])

/-- The end of the text, before a final line break or behind it. -/
def atEnd : Pattern Unit
  | [] => [((), [])]
  | ['\n'] => [((), ['\n'])]
  | _ => []

/-- The match that an engine reports at a position. -/
def first (p : Pattern α) (s : List Char) : Option (α × List Char) := (p s).head?

def matchStart (p : Pattern α) (s : List Char) : Option α := (p.first s).map Prod.fst

def search (p : Pattern α) : List Char → Option α
  | [] => p.matchStart []
  | c :: s => (p.matchStart (c :: s)).or (search p s)

/-- The matches from left to right, none overlapping; a pattern may look at the character
before it, and matches one character at least. -/
def scan (p : Option Char → Pattern α) : Option Char → Nat → List Char → List α
  | _, _, [] => []
  | _, skip + 1, c :: s => scan p (some c) skip s
  | before, 0, c :: s =>
    match (p before).first (c :: s) with
    | none => scan p (some c) 0 s
    | some (a, rest) => a :: scan p (some c) (s.length - rest.length) s

def findAll (p : Pattern α) (s : List Char) : List α := scan (fun _ => p) none 0 s

theorem bind_apply (p : Pattern α) (f : α → Pattern β) (s : List Char) :
    (p >>= f) s = (p s).flatMap fun m => f m.1 m.2 :=
  rfl

theorem mem_bind {p : Pattern α} {f : α → Pattern β} {s : List Char} {m : β × List Char} :
    m ∈ (p >>= f) s ↔ ∃ k ∈ p s, m ∈ f k.1 k.2 :=
  List.mem_flatMap

theorem pure_apply (a : α) (s : List Char) : (pure a : Pattern α) s = [(a, s)] :=
  rfl

@[simp] theorem first_pure (a : α) (s : List Char) : (pure a : Pattern α).first s = some (a, s) :=
  rfl

theorem first_bind {p : Pattern α} {f : α → Pattern β} {s r : List Char} {a : α}
    {m : β × List Char} (head : p.first s = some (a, r)) (tail : (f a).first r = some m) :
    (p >>= f).first s = some m := by
  unfold first at *
  obtain ⟨ms, hms⟩ := List.head?_eq_some_iff.mp head
  simp [bind_apply, hms, List.flatMap_cons, List.head?_append, tail]

theorem first_eq_none {p : Pattern α} {s : List Char} : p.first s = none ↔ p s = [] := by
  simp [first]

theorem bind_eq_nil {p : Pattern α} {f : α → Pattern β} {s : List Char} :
    (p >>= f) s = [] ↔ ∀ m ∈ p s, f m.1 m.2 = [] := by
  simp [bind_apply, List.flatMap_eq_nil_iff]

theorem bind_nil {p : Pattern α} {f : α → Pattern β} {s : List Char} (fails : p s = []) :
    (p >>= f) s = [] := by
  simp [bind_apply, fails]

@[simp] theorem first_char {p : Char → Bool} {c : Char} (s : List Char) (h : p c = true) :
    (char p).first (c :: s) = some ([c], s) := by
  simp [first, char, h]

theorem char_nil {p : Char → Bool} {c : Char} (s : List Char) (h : p c = false) :
    char p (c :: s) = [] := by
  simp [char, h]

theorem first_orElse_left {p q : Pattern α} {s : List Char} {m : α × List Char}
    (h : p.first s = some m) : (p.orElse q).first s = some m := by
  unfold first at *
  simp [orElse, List.head?_append, h]

theorem orElse_right {p q : Pattern α} {s : List Char} (h : p s = []) :
    p.orElse q s = q s := by
  simp [orElse, h]

theorem orElse_nil {p q : Pattern α} {s : List Char} (left : p s = []) (right : q s = []) :
    p.orElse q s = [] := by
  simp [orElse, left, right]

theorem first_orElse_right {p q : Pattern α} {s : List Char} (h : p s = []) :
    (p.orElse q).first s = q.first s := by
  simp [first, orElse_right h]

theorem text_apply (w r : List Char) : text w (w ++ r) = [(w, r)] := by
  induction w with
  | nil => rfl
  | cons c w ih => simp [text, bind_apply, char, ih, pure_apply]

theorem first_text (w r : List Char) : (text w).first (w ++ r) = some (w, r) := by
  simp [first, text_apply]

theorem text_eq_nil {w s : List Char} (h : ¬ w <+: s) : text w s = [] := by
  induction w generalizing s with
  | nil => simp at h
  | cons c w ih =>
    cases s with
    | nil => rfl
    | cons d s =>
      simp only [text, bind_apply, char]
      by_cases eq : d = c
      · subst eq
        have tail : ¬ w <+: s := by simpa using h
        simp [ih tail]
      · simp [eq]

/-- The class ends here: nothing of it comes next. -/
def Ends (p : Char → Bool) (s : List Char) : Prop := ∀ c ∈ s.head?, p c = false

@[simp] theorem ends_nil (p : Char → Bool) : Ends p [] := by simp [Ends]

@[simp] theorem ends_cons (p : Char → Bool) (c : Char) (s : List Char) :
    Ends p (c :: s) ↔ p c = false := by simp [Ends]

theorem exists_run (p : Char → Bool) (s : List Char) :
    ∃ w r, s = w ++ r ∧ (∀ c ∈ w, p c = true) ∧ Ends p r := by
  refine ⟨s.takeWhile p, s.dropWhile p, List.takeWhile_append_dropWhile.symm,
    fun c hc => List.mem_takeWhile_imp hc, ?_⟩
  intro c hc
  have stop := List.head?_dropWhile_not p s
  rw [Option.mem_def.mp hc] at stop
  simpa using stop

theorem first_many {p : Char → Bool} {w r : List Char} (all : ∀ c ∈ w, p c = true)
    (ends : Ends p r) : (many p).first (w ++ r) = some (w, r) := by
  induction w with
  | nil =>
    cases r with
    | nil => rfl
    | cons c r => simp [first, many, (ends_cons p c r).mp ends]
  | cons c w ih =>
    have tail := ih fun d hd => all d (by simp [hd])
    unfold first at *
    simp [many, all c (by simp), List.head?_append, tail]

theorem first_many1 {p : Char → Bool} {w r : List Char} (nonempty : w ≠ [])
    (all : ∀ c ∈ w, p c = true) (ends : Ends p r) :
    (many1 p).first (w ++ r) = some (w, r) := by
  cases w with
  | nil => exact absurd rfl nonempty
  | cons c w =>
    apply first_bind (first_char (w ++ r) (all c (by simp)))
    exact first_bind (first_many (fun d hd => all d (by simp [hd])) ends) rfl

theorem many1_eq_nil {p : Char → Bool} {s : List Char} (ends : Ends p s) : many1 p s = [] := by
  cases s with
  | nil => rfl
  | cons c s => exact bind_nil (char_nil s ((ends_cons p c s).mp ends))

theorem first_manyLazy {p : Char → Bool} {f : List Char → Pattern β} {w r : List Char}
    {m : β × List Char} (all : ∀ c ∈ w, p c = true)
    (early : ∀ u v, w = u ++ v → v ≠ [] → f u (v ++ r) = []) (found : (f w).first r = some m) :
    (manyLazy p >>= f).first (w ++ r) = some m := by
  induction w generalizing f with
  | nil =>
    have head : (manyLazy p).first r = some ([], r) := by cases r <;> rfl
    exact first_bind head found
  | cons c w ih =>
    have here := early [] (c :: w) rfl (by simp)
    have tail := ih (fun d hd => all d (by simp [hd]))
      (f := fun u => f (c :: u)) (fun u v eq => early (c :: u) v (by simp [eq])) found
    have step : (manyLazy p >>= f) (c :: w ++ r) =
        f [] (c :: w ++ r) ++ (manyLazy p >>= fun u => f (c :: u)) (w ++ r) := by
      simp [bind_apply, manyLazy, all c (by simp), List.flatMap_map]
    rw [first, step, here, List.nil_append]
    exact tail

theorem first_optional {p : Pattern (List Char)} {s r w : List Char}
    (h : p.first s = some (w, r)) : (optional p).first s = some (w, r) :=
  first_orElse_left h

theorem first_optional_nil {p : Pattern (List Char)} {s : List Char} (h : p s = []) :
    (optional p).first s = some ([], s) :=
  first_orElse_right h

theorem matchStart_first {p : Pattern α} {s r : List Char} {a : α}
    (h : p.first s = some (a, r)) : p.matchStart s = some a := by
  simp [matchStart, h]

theorem search_first {p : Pattern α} {s r : List Char} {a : α}
    (h : p.first s = some (a, r)) : p.search s = some a := by
  cases s with
  | nil => exact matchStart_first h
  | cons c s => simp [search, matchStart_first h]

theorem search_fail {p : Pattern α} {c : Char} {s : List Char} (h : p (c :: s) = []) :
    p.search (c :: s) = p.search s := by
  simp [search, matchStart, first_eq_none.mpr h]

/-- Nothing starts in a stretch where the pattern fails at every position. -/
theorem search_fails {p : Pattern α} {w r : List Char}
    (fails : ∀ u v, w = u ++ v → v ≠ [] → p (v ++ r) = []) : p.search (w ++ r) = p.search r := by
  induction w with
  | nil => rfl
  | cons c w ih =>
    have here := fails [] (c :: w) rfl (by simp)
    rw [List.cons_append] at here ⊢
    rw [search_fail here]
    exact ih fun u v eq => fails (c :: u) v (by simp [eq])

/-- A repetition takes a prefix of the text that lies in the class. -/
theorem mem_many {p : Char → Bool} {s : List Char} {m : List Char × List Char}
    (h : m ∈ many p s) : s = m.1 ++ m.2 ∧ ∀ c ∈ m.1, p c = true := by
  induction s generalizing m with
  | nil =>
    cases List.mem_singleton.mp h
    simp
  | cons c s ih =>
    rcases List.mem_append.mp h with more | stop
    · by_cases here : p c = true
      · rw [if_pos here, List.mem_map] at more
        obtain ⟨m, member, rfl⟩ := more
        obtain ⟨rfl, all⟩ := ih member
        simpa [here] using all
      · simp [here] at more
    · cases List.mem_singleton.mp stop
      simp

/-- Every match takes a prefix of the text, which is related to its value. -/
def Takes (p : Pattern α) (R : List Char → α → Prop) : Prop :=
  ∀ s, ∀ m ∈ p s, ∃ w, s = w ++ m.2 ∧ R w m.1

namespace Takes

variable {p q : Pattern α} {R R' : List Char → α → Prop}

theorem pure (a : α) : Takes (pure a) fun w b => w = [] ∧ b = a := by
  intro s m hm
  cases List.mem_singleton.mp hm
  exact ⟨[], rfl, rfl, rfl⟩

theorem bind {f : α → Pattern β} {S : α → List Char → β → Prop} (h : Takes p R)
    (tail : ∀ a, Takes (f a) (S a)) :
    Takes (p >>= f) fun w b => ∃ u v a, w = u ++ v ∧ R u a ∧ S a v b := by
  intro s m hm
  obtain ⟨k, hk, hm⟩ := mem_bind.mp hm
  obtain ⟨u, eq, left⟩ := h s k hk
  obtain ⟨v, eq', right⟩ := tail k.1 k.2 m hm
  exact ⟨u ++ v, by rw [eq, eq', List.append_assoc], u, v, k.1, rfl, left, right⟩

theorem mono (h : Takes p R) (le : ∀ w a, R w a → R' w a) : Takes p R' := by
  intro s m hm
  obtain ⟨w, eq, here⟩ := h s m hm
  exact ⟨w, eq, le w m.1 here⟩

theorem orElse (h : Takes p R) (h' : Takes q R') : Takes (p.orElse q) fun w a => R w a ∨ R' w a := by
  intro s m hm
  rcases List.mem_append.mp hm with hm | hm
  · obtain ⟨w, eq, here⟩ := h s m hm
    exact ⟨w, eq, .inl here⟩
  · obtain ⟨w, eq, here⟩ := h' s m hm
    exact ⟨w, eq, .inr here⟩

theorem char (p : Char → Bool) :
    Takes (Pattern.char p) fun w a => a = w ∧ ∃ c, p c = true ∧ w = [c] := by
  intro s m hm
  cases s with
  | nil => cases hm
  | cons c s =>
    by_cases here : p c = true
    · simp only [Pattern.char, here, if_true, List.mem_singleton] at hm
      subst hm
      exact ⟨[c], rfl, rfl, c, here, rfl⟩
    · simp [Pattern.char, here] at hm

theorem many (p : Char → Bool) :
    Takes (Pattern.many p) fun w a => a = w ∧ ∀ c ∈ w, p c = true := by
  intro s m hm
  obtain ⟨eq, all⟩ := mem_many hm
  exact ⟨m.1, eq, rfl, all⟩

theorem many1 (p : Char → Bool) :
    Takes (Pattern.many1 p) fun w a => a = w ∧ w ≠ [] ∧ ∀ c ∈ w, p c = true := by
  apply ((char p).bind fun a => (many p).bind fun b => pure (a ++ b)).mono
  rintro w a ⟨u, v, _, rfl, ⟨rfl, c, here, rfl⟩, v, _, _, rfl, ⟨rfl, all⟩, rfl, rfl⟩
  simpa [here] using all

theorem text (w : List Char) : Takes (Pattern.text w) fun u a => a = u ∧ u = w := by
  induction w with
  | nil => exact (pure []).mono fun u a h => ⟨h.2.trans h.1.symm, h.1⟩
  | cons c w ih =>
    apply ((char (· == c)).bind fun a => ih.bind fun b => pure (a ++ b)).mono
    rintro w a ⟨u, v, _, rfl, ⟨rfl, d, here, rfl⟩, v, _, _, rfl, ⟨rfl, rfl⟩, rfl, rfl⟩
    simpa using here

theorem optional {p : Pattern (List Char)} {R : List Char → List Char → Prop} (h : Takes p R) :
    Takes (optional p) fun w a => R w a ∨ w = [] ∧ a = [] :=
  h.orElse (pure [])

end Takes

theorem mem_of_matchStart {p : Pattern α} {s : List Char} {a : α} (h : p.matchStart s = some a) :
    ∃ r, (a, r) ∈ p s := by
  obtain ⟨m, first, rfl⟩ := Option.map_eq_some_iff.mp h
  exact ⟨m.2, List.mem_of_head? first⟩

theorem mem_of_search {p : Pattern α} {s : List Char} {a : α} (h : p.search s = some a) :
    ∃ u v r, s = u ++ v ∧ (a, r) ∈ p v := by
  induction s with
  | nil =>
    obtain ⟨r, hr⟩ := mem_of_matchStart h
    exact ⟨[], [], r, rfl, hr⟩
  | cons c s ih =>
    rw [search, Option.or_eq_some_iff] at h
    rcases h with here | ⟨_, later⟩
    · obtain ⟨r, hr⟩ := mem_of_matchStart here
      exact ⟨[], c :: s, r, rfl, hr⟩
    · obtain ⟨u, v, r, rfl, hr⟩ := ih later
      exact ⟨c :: u, v, r, rfl, hr⟩

theorem search_isSome {p : Pattern α} {u v : List Char} (h : p v ≠ []) :
    (p.search (u ++ v)).isSome = true := by
  have here : (p.matchStart v).isSome = true := by
    rw [matchStart, Option.isSome_map, first, List.isSome_head?]
    simpa using h
  induction u with
  | nil =>
    cases v with
    | nil => exact here
    | cons c v => simp [search, here]
  | cons c u ih => simp [search, ih]

variable {p : Option Char → Pattern α} {before : Option Char}

theorem scan_skip (w r : List Char) :
    scan p before w.length (w ++ r) = scan p (w.getLast?.or before) 0 r := by
  induction w generalizing before with
  | nil => simp
  | cons c w ih =>
    simp only [List.length_cons, List.cons_append, scan, ih]
    cases w with
    | nil => simp
    | cons d w => simp [List.getLast?_cons]

theorem scan_match {w r : List Char} {a : α} (nonempty : w ≠ [])
    (found : (p before).first (w ++ r) = some (a, r)) :
    scan p before 0 (w ++ r) = a :: scan p w.getLast? 0 r := by
  cases w with
  | nil => exact absurd rfl nonempty
  | cons c w =>
    simp only [List.cons_append] at found
    have skip : (w ++ r).length - r.length = w.length := by simp
    simp only [List.cons_append, scan, found, skip, scan_skip]
    cases w with
    | nil => simp
    | cons d w => simp [List.getLast?_cons]

theorem scan_fail {c : Char} {s : List Char} (fails : p before (c :: s) = []) :
    scan p before 0 (c :: s) = scan p (some c) 0 s := by
  simp [scan, first_eq_none.mpr fails]

theorem scan_const (q : Pattern α) (b b' : Option Char) (k : Nat) (s : List Char) :
    scan (fun _ => q) b k s = scan (fun _ => q) b' k s := by
  cases s with
  | nil => rfl
  | cons c s => cases k <;> rfl

theorem findAll_match {q : Pattern α} {w r : List Char} {a : α} (nonempty : w ≠ [])
    (found : q.first (w ++ r) = some (a, r)) : q.findAll (w ++ r) = a :: q.findAll r := by
  unfold findAll
  rw [scan_match nonempty found, scan_const q w.getLast? none]

theorem findAll_fail {q : Pattern α} {c : Char} {s : List Char} (fails : q (c :: s) = []) :
    q.findAll (c :: s) = q.findAll s := by
  unfold findAll
  rw [scan_fail fails, scan_const q (some c) none]

/-- Nothing starts in a stretch where the pattern fails at every position. -/
theorem findAll_fails {q : Pattern α} {w r : List Char}
    (fails : ∀ u v, w = u ++ v → v ≠ [] → q (v ++ r) = []) :
    q.findAll (w ++ r) = q.findAll r := by
  induction w with
  | nil => rfl
  | cons c w ih =>
    have here := fails [] (c :: w) rfl (by simp)
    rw [List.cons_append] at here ⊢
    rw [findAll_fail here]
    exact ih fun u v eq => fails (c :: u) v (by simp [eq])

section Marked

variable {β : Type} (mark : List Char → β)

/-- The pattern, with a mark that is read off where it starts. -/
def marked (q : Pattern α) : Pattern (β × α) := fun s => (q s).map fun m => ((mark s, m.1), m.2)

theorem marked_nil {q : Pattern α} {s : List Char} (h : q s = []) : q.marked mark s = [] := by
  simp [marked, h]

theorem first_marked (q : Pattern α) (s : List Char) :
    (q.marked mark).first s = (q.first s).map fun m => ((mark s, m.1), m.2) := by
  simp [first, marked]

theorem scan_marked (q : Pattern α) (b : Option Char) (k : Nat) (s : List Char) :
    (scan (fun _ => q.marked mark) b k s).map Prod.snd = scan (fun _ => q) b k s := by
  induction s generalizing b k with
  | nil => rfl
  | cons c s ih =>
    cases k with
    | succ k => exact ih (some c) k
    | zero =>
      simp only [scan, first_marked]
      cases q.first (c :: s) with
      | none => exact ih (some c) 0
      | some m => simp [ih]

theorem findAll_marked (q : Pattern α) (s : List Char) :
    ((q.marked mark).findAll s).map Prod.snd = q.findAll s :=
  scan_marked mark q none 0 s

end Marked

end Pattern
