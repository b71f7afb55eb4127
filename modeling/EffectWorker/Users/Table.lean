import Mathlib.Data.List.Nodup
import EffectWorker.Effect.Program
import EffectWorker.Services
import EffectWorker.Text.Number
import EffectWorker.Users.Schema

/-! The `users` table and the three statements the handlers make. A table
carries the constraints of its columns. A statement is atomic: it is answered
from the table as it stands, or fails and changes nothing. This takes for
granted that a statement the client sees fail has changed nothing: an INSERT
whose answer is lost after its commit has no place here. -/

namespace EffectWorker.Users

open Effect Text

/-! ## Columns -/

/-- More than spaces stands after the 255th character. -/
def tooLong (s : String) : Bool := (s.toList.drop 255).any (· != ' ')

/-- What a `varchar(255)` column holds of a string, if it takes it: no text has
the character 0, and what is too long only by spaces at its end is cut off. -/
def stored (s : String) : Option String :=
  if s.toList.contains (Char.ofNat 0) || tooLong s then none
  else some (String.ofList (s.toList.take 255))

theorem stored_length {s s' : String} (h : stored s = some s') : s'.length ≤ 255 := by
  unfold stored at h
  split at h
  · cases h
  · cases h
    rw [String.length_ofList]
    exact List.length_take_le _ _

theorem not_tooLong {s : String} (h : s.length ≤ 255) : tooLong s = false := by
  rw [tooLong, List.drop_eq_nil_of_le (by rwa [String.length_toList])]
  rfl

/-- A short string is stored as it is. -/
theorem stored_of_length {s : String} (h : s.length ≤ 255)
    (hzero : s.toList.contains (Char.ofNat 0) = false) : stored s = some s := by
  rw [stored, hzero, not_tooLong h, if_neg (by decide),
    List.take_of_length_le (by rwa [String.length_toList]), String.ofList_toList]

/-- A column takes what it holds. -/
theorem stored_stored {s s' : String} (h : stored s = some s') : stored s' = some s' := by
  refine stored_of_length (stored_length h) ?_
  unfold stored at h
  split at h
  · cases h
  · rename_i hfits
    cases h
    rw [Bool.or_eq_true, not_or] at hfits
    rw [String.toList_ofList, Bool.eq_false_iff, Ne, List.contains_iff_mem]
    exact fun hzero => hfits.1 (List.contains_iff_mem.mpr (List.mem_of_mem_take hzero))

/-- A string without spaces is stored as it is, or not at all. -/
theorem stored_of_noSpace {s s' : String} (hspace : ' ' ∉ s.toList) (h : stored s = some s') :
    s' = s := by
  unfold stored at h
  split at h
  · cases h
  · rename_i hfits
    cases h
    rw [Bool.or_eq_true, not_or] at hfits
    have hlong : ∀ c ∈ s.toList.drop 255, False := by
      intro c hc
      refine hfits.2 (List.any_eq_true.mpr ⟨c, hc, bne_iff_ne.mpr ?_⟩)
      rintro rfl
      exact hspace (List.mem_of_mem_drop hc)
    have hnil : s.toList.drop 255 = [] := List.eq_nil_iff_forall_not_mem.mpr hlong
    have htake := List.take_append_drop 255 s.toList
    rw [hnil, List.append_nil] at htake
    rw [htake, String.ofList_toList]

example : stored "Ann" = some "Ann" := by decide

/-! ## Tables -/

structure Row where
  id : Nat
  email : String
  name : String
  createdAt : Date
  deriving DecidableEq, Repr

/-- `serial` and the two `varchar` columns. -/
structure Row.Valid (r : Row) : Prop where
  id_pos : 0 < r.id
  id_le : r.id ≤ 2147483647
  email_stored : stored r.email = some r.email
  name_stored : stored r.name = some r.name

theorem Row.Valid.id_lt {r : Row} (h : r.Valid) : r.id < 2 ^ 53 := by
  have := h.id_le
  omega

structure Table where
  rows : List Row
  valid : ∀ r ∈ rows, r.Valid
  ids_nodup : (rows.map Row.id).Nodup
  emails_nodup : (rows.map Row.email).Nodup

def Table.empty : Table where
  rows := []
  valid := by simp
  ids_nodup := List.nodup_nil
  emails_nodup := List.nodup_nil

/-- A row that keeps the constraints of the table. -/
structure Table.Accepts (t : Table) (r : Row) : Prop where
  valid : r.Valid
  fresh : r.id ∉ t.rows.map Row.id
  unique : r.email ∉ t.rows.map Row.email

private theorem nodup_map_snoc {α β : Type} {f : α → β} {l : List α} {a : α}
    (hl : (l.map f).Nodup) (ha : f a ∉ l.map f) : ((l ++ [a]).map f).Nodup := by
  rw [List.map_append, List.map_singleton]
  refine List.nodup_append.mpr ⟨hl, List.nodup_singleton _, fun b hb c hc => ?_⟩
  rw [List.mem_singleton.mp hc]
  rintro rfl
  exact ha hb

def Table.insert (t : Table) (r : Row) (h : t.Accepts r) : Table where
  rows := t.rows ++ [r]
  valid := by
    intro r' hr
    rcases List.mem_append.mp hr with hr | hr
    · exact t.valid r' hr
    · rw [List.mem_singleton.mp hr]
      exact h.valid
  ids_nodup := nodup_map_snoc t.ids_nodup h.fresh
  emails_nodup := nodup_map_snoc t.emails_nodup h.unique

@[simp] theorem Table.insert_rows (t : Table) (r : Row) (h : t.Accepts r) :
    (t.insert r h).rows = t.rows ++ [r] := rfl

/-- The rows a condition `id = n` selects. -/
def Table.whereId (t : Table) (n : Number) : List Row :=
  t.rows.filter fun r => Number.finite r.id = n

theorem Table.mem_whereId {t : Table} {n : Number} {r : Row} :
    r ∈ t.whereId n ↔ r ∈ t.rows ∧ Number.finite r.id = n := by
  simp [Table.whereId]

/-- The primary key selects one row. -/
theorem Table.whereId_of_mem {t : Table} {r : Row} (h : r ∈ t.rows) :
    t.whereId (.finite r.id) = [r] := by
  have hmem : r ∈ t.whereId (.finite r.id) := Table.mem_whereId.mpr ⟨h, rfl⟩
  have hnodup : (t.whereId (.finite r.id)).Nodup :=
    (List.Nodup.of_map _ t.ids_nodup).filter _
  have hall : ∀ r' ∈ t.whereId (.finite r.id), r' = r := by
    intro r' hr
    obtain ⟨hr, hid⟩ := Table.mem_whereId.mp hr
    exact List.inj_on_of_nodup_map t.ids_nodup hr h (Number.finite.inj hid)
  cases hw : t.whereId (.finite r.id) with
  | nil => simp [hw] at hmem
  | cons a as =>
    rw [hw] at hall hnodup
    have ha := hall a List.mem_cons_self
    cases as with
    | nil => rw [ha]
    | cons b bs =>
      have hb := hall b (by simp)
      simp [ha, hb] at hnodup

/-! ## Statements -/

inductive DbOp
  /-- `select().from(users)` -/
  | select
  /-- `select().from(users).where(eq(users.id, id))` -/
  | selectWhereId (id : Number)
  /-- `insert(users).values({ email, name }).returning()` -/
  | insert (email : String) (name : String)
  deriving DecidableEq, Repr

abbrev DbSig (U : Type) : Sig := ⟨DbOp, fun _ => Exit SqlError U (List Row)⟩

abbrev DbEff (U E A : Type) := Eff (DbSig U) E U A

section Statements

variable {U : Type}

def statement (o : DbOp) : DbEff U SqlError (List Row) := Eff.perform (S := DbSig U) o .exit

/-- What the database may answer to a statement, and the table it leaves. -/
inductive Answers : Table → DbOp → Exit SqlError U (List Row) → Table → Prop
  | select (t rows) : rows.Perm t.rows → Answers t .select (.success rows) t
  | selectWhereId (t n) : Answers t (.selectWhereId n) (.success (t.whereId n)) t
  | insert (t r email name h) : stored email = some r.email → stored name = some r.name →
      Answers t (.insert email name) (.success [r]) (t.insert r h)
  | failed (t o c) : Answers t o (.failure c) t

theorem answers_prefix {t t' : Table} {o : DbOp} {x : Exit SqlError U (List Row)}
    (h : Answers t o x t') : t.rows <+: t'.rows := by
  cases h with
  | select | selectWhereId | failed => exact List.prefix_rfl
  | insert => exact List.prefix_append _ _

end Statements

/-! ## A table with one row -/

def ann : Row where
  id := 1
  email := "ann@example.org"
  name := "Ann"
  createdAt := ⟨0⟩

theorem ann_stored : stored ann.email = some ann.email ∧ stored ann.name = some ann.name := by
  decide

theorem ann_accepted : Table.empty.Accepts ann :=
  ⟨⟨by decide, by decide, ann_stored.1, ann_stored.2⟩, by simp [Table.empty],
    by simp [Table.empty]⟩

def annTable : Table := Table.empty.insert ann ann_accepted

/-- A database error that is thrown, as a defect of the examples. -/
instance : Throwable SqlError String := ⟨SqlError.message⟩

end EffectWorker.Users
