import Mathlib.Data.List.Basic

/-! Anchored patterns: sequences of character classes, each to be met once or
once and more. `test` backtracks over the characters; `Matches` says how a
string is to be cut into pieces. -/

namespace EffectWorker.Text

inductive Piece
  /-- One character of the class. -/
  | one (cls : Char → Bool)
  /-- One or more characters of the class. -/
  | many (cls : Char → Bool)

def Piece.cls : Piece → Char → Bool
  | .one cls | .many cls => cls

abbrev Pattern := List Piece

def Pattern.lit (s : List Char) : Pattern := s.map fun c => .one (· == c)

namespace Pattern

def test : Pattern → List Char → Bool
  | [], cs => cs.isEmpty
  | _ :: _, [] => false
  | .one p :: ps, c :: cs => p c && test ps cs
  | .many p :: ps, c :: cs => p c && (test ps cs || test (.many p :: ps) cs)
  termination_by structural _ cs => cs

def Matches : Pattern → List Char → Prop
  | [], cs => cs = []
  | .one p :: ps, cs => ∃ c rest, cs = c :: rest ∧ p c = true ∧ Matches ps rest
  | .many p :: ps, cs => ∃ word rest, cs = word ++ rest ∧ word ≠ [] ∧
      (∀ c ∈ word, p c = true) ∧ Matches ps rest

/-- `test` finds a way to cut the string whenever there is one. -/
theorem test_iff (ps : Pattern) (cs : List Char) : test ps cs = true ↔ Matches ps cs := by
  induction cs generalizing ps with
  | nil =>
    cases ps with
    | nil => simp [test, Matches]
    | cons p ps => cases p <;> simp [test, Matches]
  | cons c cs ih =>
    cases ps with
    | nil => simp [test, Matches]
    | cons p ps =>
      cases p with
      | one p =>
        simp only [test, Matches, Bool.and_eq_true, ih]
        constructor
        · rintro ⟨hc, hrest⟩
          exact ⟨c, cs, rfl, hc, hrest⟩
        · rintro ⟨c', rest, heq, hc, hrest⟩
          cases heq
          exact ⟨hc, hrest⟩
      | many p =>
        simp only [test, Bool.and_eq_true, Bool.or_eq_true, ih, Matches]
        constructor
        · rintro ⟨hc, hrest | ⟨word, rest, rfl, -, hword, hrest⟩⟩
          · exact ⟨[c], cs, rfl, by simp, by simpa using hc, hrest⟩
          · refine ⟨c :: word, rest, rfl, by simp, ?_, hrest⟩
            simpa using ⟨hc, hword⟩
        · rintro ⟨word, rest, heq, hne, hword, hrest⟩
          cases word with
          | nil => exact absurd rfl hne
          | cons d word =>
            obtain ⟨rfl, rfl⟩ := List.cons.inj heq
            refine ⟨hword c List.mem_cons_self, ?_⟩
            cases word with
            | nil => exact .inl hrest
            | cons d word =>
              refine .inr ⟨d :: word, rest, rfl, by simp, ?_, hrest⟩
              exact fun x hx => hword x (List.mem_cons_of_mem _ hx)

/-- Every character of a match is in a class of the pattern. -/
theorem mem_of_matches {ps : Pattern} {cs : List Char} (h : Matches ps cs) {c : Char}
    (hc : c ∈ cs) : ∃ p ∈ ps, p.cls c = true := by
  induction ps generalizing cs with
  | nil =>
    rw [show cs = [] from h] at hc
    cases hc
  | cons p ps ih =>
    have later : ∀ rest, Matches ps rest → c ∈ rest → ∃ p' ∈ p :: ps, p'.cls c = true := by
      intro rest hrest hmem
      obtain ⟨p', hp', hcls⟩ := ih hrest hmem
      exact ⟨p', List.mem_cons_of_mem _ hp', hcls⟩
    cases p with
    | one cls =>
      obtain ⟨d, rest, rfl, hd, hrest⟩ := h
      rcases List.mem_cons.mp hc with rfl | hmem
      · exact ⟨.one cls, List.mem_cons_self, hd⟩
      · exact later rest hrest hmem
    | many cls =>
      obtain ⟨word, rest, rfl, -, hword, hrest⟩ := h
      rcases List.mem_append.mp hc with hmem | hmem
      · exact ⟨.many cls, List.mem_cons_self, hword c hmem⟩
      · exact later rest hrest hmem

theorem matches_lit_append (s : List Char) (ps : Pattern) (cs : List Char) :
    Matches (lit s ++ ps) cs ↔ ∃ rest, cs = s ++ rest ∧ Matches ps rest := by
  induction s generalizing cs with
  | nil => simp [lit]
  | cons c s ih =>
    change (∃ d rest, cs = d :: rest ∧ (d == c) = true ∧ Matches (lit s ++ ps) rest) ↔ _
    constructor
    · rintro ⟨d, rest, rfl, hd, hrest⟩
      obtain ⟨rest', rfl, h⟩ := (ih rest).mp hrest
      exact ⟨rest', by rw [eq_of_beq hd]; rfl, h⟩
    · rintro ⟨rest, rfl, h⟩
      exact ⟨c, s ++ rest, rfl, beq_self_eq_true c, (ih _).mpr ⟨rest, rfl, h⟩⟩

/-- The last piece takes the whole rest. -/
theorem matches_many (p : Char → Bool) (cs : List Char) :
    Matches [.many p] cs ↔ cs ≠ [] ∧ ∀ c ∈ cs, p c = true := by
  simp only [Matches]
  constructor
  · rintro ⟨word, rest, rfl, hne, hword, rfl⟩
    rw [List.append_nil]
    exact ⟨hne, hword⟩
  · rintro ⟨hne, hcs⟩
    exact ⟨cs, [], (List.append_nil cs).symm, hne, hcs, rfl⟩

/-- A literal prefix followed by one class: the shape of an id. -/
theorem test_lit_many (s : List Char) (p : Char → Bool) (cs : List Char) :
    test (lit s ++ [.many p]) cs = true ↔
      ∃ rest, cs = s ++ rest ∧ rest ≠ [] ∧ ∀ c ∈ rest, p c = true := by
  rw [test_iff, matches_lit_append]
  simp only [matches_many]

end Pattern

end EffectWorker.Text
