import EffectWorker.Text.Number
import EffectWorker.Users.Schema

/-! The id codec, in both of its copies. `toUserId` prints the number of a row,
`parseUserId` reads the digits back as a number. -/

namespace EffectWorker.Users

open Text

/-- `id.match(/^usr_(\d+)$/)` and, if it matches, its group. -/
def matchNumericId (id : String) : Option (List Char) :=
  if numericIdPattern.test id.toList then some (id.toList.drop 4) else none

namespace Http

def toUserId (id : Nat) : String := "usr_" ++ toString id

def parseUserId (id : UserId) : Option Number := (matchNumericId id.val).map parseInt

end Http

namespace Rpc

def toUserId (id : Nat) : String := "usr_" ++ toString id

def parseUserId (id : String) : Option Number := (matchNumericId id).map parseInt

end Rpc

/-- `s` is `usr_` followed by decimal digits that denote `n`. -/
def Denotes (s : String) (n : Nat) : Prop :=
  ∃ digits, s.toList = ['u', 's', 'r', '_'] ++ digits ∧ digits ≠ [] ∧
    (∀ c ∈ digits, c.isDigit = true) ∧ decimalValue digits = n

theorem matchNumericId_eq_some_iff (s : String) (digits : List Char) :
    matchNumericId s = some digits ↔ s.toList = ['u', 's', 'r', '_'] ++ digits ∧ digits ≠ [] ∧
      ∀ c ∈ digits, c.isDigit = true := by
  unfold matchNumericId
  by_cases htest : numericIdPattern.test s.toList = true
  · rw [if_pos htest]
    obtain ⟨rest, hs, hne, hdigits⟩ := (Pattern.test_lit_many _ _ _).mp htest
    constructor
    · intro h
      have hrest : rest = digits := by simpa [hs] using h
      subst hrest
      exact ⟨hs, hne, hdigits⟩
    · rintro ⟨hs', -, -⟩
      rw [hs']
      rfl
  · rw [if_neg htest]
    constructor
    · intro h
      cases h
    · rintro ⟨hs, hne, hdigits⟩
      exact absurd ((Pattern.test_lit_many _ _ _).mpr ⟨digits, hs, hne, hdigits⟩) htest

/-- Up to the safe integers, what is parsed is what the string denotes. -/
theorem parseInt_matchNumericId_iff (s : String) {n : Nat} (h : n < 2 ^ 53) :
    (matchNumericId s).map parseInt = some (.finite n) ↔ Denotes s n := by
  rw [Option.map_eq_some_iff]
  constructor
  · rintro ⟨digits, hmatch, hparse⟩
    obtain ⟨hs, hne, hdigits⟩ := (matchNumericId_eq_some_iff s digits).mp hmatch
    exact ⟨digits, hs, hne, hdigits, (parseInt_eq_finite_iff h).mp hparse⟩
  · rintro ⟨digits, hs, hne, hdigits, hvalue⟩
    exact ⟨digits, (matchNumericId_eq_some_iff s digits).mpr ⟨hs, hne, hdigits⟩,
      (parseInt_eq_finite_iff h).mpr hvalue⟩

theorem toUserId_toList (n : Nat) :
    (Http.toUserId n).toList = ['u', 's', 'r', '_'] ++ decimal n := by
  unfold Http.toUserId
  rw [String.toList_append]
  rfl

theorem toUserId_denotes (n : Nat) : Denotes (Http.toUserId n) n :=
  ⟨decimal n, toUserId_toList n, decimal_ne_nil n, fun _ hc => decimal_isDigit hc,
    decimalValue_decimal n⟩

theorem toUserId_injective : Function.Injective Http.toUserId := by
  intro m n h
  have hlist := congrArg String.toList h
  rw [toUserId_toList, toUserId_toList] at hlist
  exact decimal_injective (List.append_cancel_left hlist)

private theorem isAlphanum_of_isDigit {c : Char} (h : c.isDigit = true) : c.isAlphanum = true := by
  unfold Char.isAlphanum
  rw [h, Bool.or_true]

/-- A numeric id is an id: the narrower pattern implies the wider one. -/
theorem schema_of_denotes {s : String} {n : Nat} (h : Denotes s n) : UserIdSchema s = true := by
  obtain ⟨digits, hs, hne, hdigits, -⟩ := h
  refine (Pattern.test_lit_many _ _ _).mpr ⟨digits, hs, hne, ?_⟩
  intro c hc
  exact isAlphanum_of_isDigit (hdigits c hc)

/-- Every generated id passes the pattern of the responses and of the path. -/
theorem toUserId_schema (n : Nat) : UserIdSchema (Http.toUserId n) = true :=
  schema_of_denotes (toUserId_denotes n)

/-- The digits of the id start with a zero that is not their only digit. -/
def hasLeadingZero (s : String) : Bool := leadingZero (s.toList.drop 4)

/-- Printing what was read gives the same id back, unless it has a leading zero. -/
theorem toUserId_eq_iff {s : String} {n : Nat} (h : Denotes s n) :
    Http.toUserId n = s ↔ hasLeadingZero s = false := by
  obtain ⟨digits, hs, hne, hdigits, hvalue⟩ := h
  have hzero : hasLeadingZero s = leadingZero digits := by
    unfold hasLeadingZero
    rw [hs]
    rfl
  rw [hzero, ← String.toList_inj, toUserId_toList, hs, List.append_cancel_left_eq, ← hvalue]
  constructor
  · intro hprint
    rw [← hprint]
    exact decimal_not_leadingZero _
  · intro hno
    exact decimal_decimalValue hne hdigits hno

/-- Another id for the same number. -/
theorem padded_denotes (n : Nat) :
    Denotes ("usr_0" ++ toString n) n ∧ hasLeadingZero ("usr_0" ++ toString n) = true := by
  have hs : ("usr_0" ++ toString n).toList = ['u', 's', 'r', '_'] ++ '0' :: decimal n := by
    rw [String.toList_append]
    rfl
  constructor
  · refine ⟨'0' :: decimal n, hs, List.cons_ne_nil _ _, ?_, ?_⟩
    · intro c hc
      rcases List.mem_cons.mp hc with rfl | hc
      · rfl
      · exact decimal_isDigit hc
    · rw [decimalValue, Nat.ofDigitChars_cons]
      exact decimalValue_decimal n
  · unfold hasLeadingZero
    rw [hs]
    cases hd : decimal n with
    | nil => exact absurd hd (decimal_ne_nil n)
    | cons d ds => rfl

theorem parseInt_isSome_iff (s : String) :
    ((matchNumericId s).map parseInt).isSome = true ↔ ∃ n, Denotes s n := by
  rw [Option.isSome_map]
  constructor
  · intro h
    obtain ⟨digits, hmatch⟩ := Option.isSome_iff_exists.mp h
    obtain ⟨hs, hne, hdigits⟩ := (matchNumericId_eq_some_iff s digits).mp hmatch
    exact ⟨decimalValue digits, digits, hs, hne, hdigits, rfl⟩
  · rintro ⟨n, digits, hs, hne, hdigits, -⟩
    rw [(matchNumericId_eq_some_iff s digits).mpr ⟨hs, hne, hdigits⟩]
    rfl

/-! ## Both copies together -/

theorem toUserId_copies : Rpc.toUserId = Http.toUserId := rfl

/-- What one copy prints, both copies read back, and the schema lets through. -/
structure PrintsReadable (toUserId : Nat → String) : Prop where
  schema : ∀ n ≤ 2 ^ 53 - 1, UserIdSchema (toUserId n) = true
  http : ∀ n ≤ 2 ^ 53 - 1, ∀ h : UserIdSchema (toUserId n) = true,
    Http.parseUserId ⟨toUserId n, h⟩ = some (.finite n)
  rpc : ∀ n ≤ 2 ^ 53 - 1, Rpc.parseUserId (toUserId n) = some (.finite n)
  injective : ∀ m n, m ≤ 2 ^ 53 - 1 → n ≤ 2 ^ 53 - 1 → toUserId m = toUserId n → m = n

/-- Both copies read numeric ids and nothing else, and read them as what they
denote. -/
structure ReadsNumericIds (s : String) : Prop where
  schema : ∀ n, Denotes s n → UserIdSchema s = true
  http : (∃ h : UserIdSchema s = true, (Http.parseUserId ⟨s, h⟩).isSome = true) ↔ ∃ n, Denotes s n
  http_value : ∀ n ≤ 2 ^ 53 - 1, Denotes s n → ∀ h : UserIdSchema s = true,
    Http.parseUserId ⟨s, h⟩ = some (.finite n)
  rpc : (Rpc.parseUserId s).isSome = true ↔ ∃ n, Denotes s n
  rpc_value : ∀ n ≤ 2 ^ 53 - 1, Denotes s n → Rpc.parseUserId s = some (.finite n)

theorem parse_toUserId {n : Nat} (h : n ≤ 2 ^ 53 - 1) :
    (matchNumericId (Http.toUserId n)).map parseInt = some (.finite n) :=
  (parseInt_matchNumericId_iff _ (by omega)).mpr (toUserId_denotes n)

theorem printsReadable : PrintsReadable Http.toUserId where
  schema n _ := toUserId_schema n
  http _ hn _ := parse_toUserId hn
  rpc _ hn := parse_toUserId hn
  injective _ _ _ _ h := toUserId_injective h

theorem readsNumericIds (s : String) : ReadsNumericIds s := by
  constructor
  case schema =>
    intro n h
    exact schema_of_denotes h
  case http =>
    constructor
    · rintro ⟨h, hsome⟩
      exact (parseInt_isSome_iff s).mp hsome
    · rintro ⟨n, hn⟩
      exact ⟨schema_of_denotes hn, (parseInt_isSome_iff s).mpr ⟨n, hn⟩⟩
  case http_value =>
    intro n hle hn h
    exact (parseInt_matchNumericId_iff s (by omega)).mpr hn
  case rpc => exact parseInt_isSome_iff s
  case rpc_value =>
    intro n hle hn
    exact (parseInt_matchNumericId_iff s (by omega)).mpr hn

/-- The id codec is sound: ids printed by either copy are read by both, and the
only strings either copy reads are numeric ids. -/
theorem userIdCodec_sound :
    PrintsReadable Http.toUserId ∧ PrintsReadable Rpc.toUserId ∧ ∀ s, ReadsNumericIds s :=
  ⟨printsReadable, toUserId_copies ▸ printsReadable, readsNumericIds⟩

end EffectWorker.Users
