import EffectWorker.Effect.Linearization
import EffectWorker.Users.Equivalence
import EffectWorker.Users.ReadYourWrites

/-! What both APIs are for: a directory that knows each user by a number and
has each email once. In every interleaving the requests might as well have been
made one after the other to such a directory. -/

namespace EffectWorker.Users

open Effect Text

/-! ## Directories -/

structure Profile where
  email : String
  name : String
  createdAt : DateTimeUtc
  deriving DecidableEq, Repr

structure Directory where
  lookup : Nat → Option Profile
  emails_injective : ∀ m n p p', lookup m = some p → lookup n = some p' → p.email = p'.email →
    m = n

/-- How the user with number `n` is shown. -/
def Profile.shown (n : Nat) (p : Profile) : User where
  id := Http.toUserId n
  email := p.email
  name := p.name
  createdAt := p.createdAt

/-- The number is not in use, and neither is the email. -/
structure Directory.Free (d : Directory) (n : Nat) (email : String) : Prop where
  number : d.lookup n = none
  email : ∀ m p, d.lookup m = some p → p.email ≠ email

section Specification

variable {U : Type}

/-- What a request returns, and the directory it leaves. -/
inductive Directory.Serves (d : Directory) :
    Request → Exit ApiError U Reply → Directory → Prop
  | lists {q list} : q.IsList → list.users.Nodup → list.total = list.users.length →
      (∀ u, u ∈ list.users ↔ ∃ n p, d.lookup n = some p ∧ u = p.shown n) →
      Serves d q (.success (.list list)) d
  | gets {q s n p} : q.Gets s → Denotes s n → d.lookup n = some p →
      Serves d q (.success (.user (p.shown n))) d
  | misses {q s e message} : q.Gets s → (∀ n, Denotes s n → d.lookup n = none) →
      e.problem = .notFound s message → Serves d q (.failure (.fail e)) d
  | creates {q n p d'} : q.Stores p.email p.name → d.Free n p.email →
      d'.lookup = Function.update d.lookup n (some p) →
      Serves d q (.success (.user (p.shown n))) d'

/-- A call that a database error disturbed changes nothing and shows nobody. -/
def ShowsNobody (x : Exit ApiError U Reply) : Prop :=
  x = .success (.list { users := [], total := 0 }) ∨ ∃ c, x = .failure c

/-- How a call moves the directory. -/
def Directory.Effect (log : List (ApiEvent U)) (e : Entry Request ApiError U Reply)
    (d d' : Directory) : Prop :=
  (Undisturbed log e.call ∧ d.Serves e.request e.result d') ∨
    (¬ Undisturbed log e.call ∧ ShowsNobody e.result ∧ d' = d)

end Specification

/-! ## The table as a directory -/

def Row.profile (r : Row) : Profile where
  email := r.email
  name := r.name
  createdAt := unsafeFromDate r.createdAt

def Table.lookup (t : Table) (n : Nat) : Option Profile :=
  (t.rows.find? fun r => r.id = n).map Row.profile

theorem lookup_eq_some_iff {t : Table} {n : Nat} {p : Profile} :
    t.lookup n = some p ↔ ∃ r ∈ t.rows, r.id = n ∧ r.profile = p := by
  unfold Table.lookup
  rw [Option.map_eq_some_iff]
  constructor
  · rintro ⟨r, hr, hp⟩
    exact ⟨r, List.mem_of_find?_eq_some hr, by simpa using List.find?_some hr, hp⟩
  · rintro ⟨r, hr, hid, hp⟩
    obtain ⟨r', hr'⟩ : ∃ r', t.rows.find? (fun r => r.id = n) = some r' := by
      rw [← Option.isSome_iff_exists, List.find?_isSome]
      exact ⟨r, hr, decide_eq_true hid⟩
    have hmem := List.mem_of_find?_eq_some hr'
    have hid' : r'.id = n := by simpa using List.find?_some hr'
    rw [List.inj_on_of_nodup_map t.ids_nodup hmem hr (hid'.trans hid.symm)] at hr'
    exact ⟨r, hr', hp⟩

theorem lookup_eq_none_iff {t : Table} {n : Nat} :
    t.lookup n = none ↔ n ∉ t.rows.map Row.id := by
  unfold Table.lookup
  rw [Option.map_eq_none_iff, List.find?_eq_none]
  simp

def Table.directory (t : Table) : Directory where
  lookup := t.lookup
  emails_injective := by
    intro m n p p' hm hn hemail
    obtain ⟨r, hr, rfl, rfl⟩ := lookup_eq_some_iff.mp hm
    obtain ⟨r', hr', rfl, rfl⟩ := lookup_eq_some_iff.mp hn
    exact congrArg Row.id (List.inj_on_of_nodup_map t.emails_nodup hr hr' hemail)

theorem directory_insert (t : Table) (r : Row) (h : t.Accepts r) :
    (t.insert r h).directory.lookup = Function.update t.directory.lookup r.id (some r.profile) := by
  funext n
  change (t.insert r h).lookup n = Function.update t.lookup r.id (some r.profile) n
  by_cases hn : n = r.id
  · subst hn
    rw [Function.update_self, lookup_eq_some_iff]
    exact ⟨r, by simp, rfl, rfl⟩
  · rw [Function.update_of_ne hn]
    unfold Table.lookup
    rw [Table.insert_rows, List.find?_append, List.find?_singleton,
      if_neg (by simpa using Ne.symm hn), Option.or_none]

theorem directory_free {t : Table} {r : Row} (h : t.Accepts r) :
    t.directory.Free r.id r.profile.email := by
  constructor
  · exact lookup_eq_none_iff.mpr h.fresh
  · intro m p hm hemail
    obtain ⟨r', hr', -, rfl⟩ := lookup_eq_some_iff.mp hm
    exact h.unique (List.mem_map.mpr ⟨r', hr', hemail⟩)

theorem mem_listed {t : Table} {rows : List Row} (hperm : rows.Perm t.rows) (u : User) :
    u ∈ rows.map Http.toUser ↔ ∃ n p, t.directory.lookup n = some p ∧ u = p.shown n := by
  rw [List.mem_map]
  constructor
  · rintro ⟨r, hr, rfl⟩
    exact ⟨r.id, r.profile, lookup_eq_some_iff.mpr ⟨r, hperm.subset hr, rfl, rfl⟩, rfl⟩
  · rintro ⟨n, p, hn, rfl⟩
    obtain ⟨r, hr, rfl, rfl⟩ := lookup_eq_some_iff.mp hn
    exact ⟨r, hperm.symm.subset hr, rfl⟩

/-! ## Every call serves the directory -/

section Calls

variable {U : Type} {t t' : Table} {q : Request} [Throwable SqlError U]

/-- The id of a row that is selected is the number the string denotes. -/
theorem denotes_of_whereId {s : String} {n : Number}
    (hparse : (matchNumericId s).map parseInt = some n) {r : Row} (hr : r ∈ t.whereId n) :
    r ∈ t.rows ∧ Denotes s r.id := by
  obtain ⟨hrow, rfl⟩ := Table.mem_whereId.mp hr
  exact ⟨hrow, (parseInt_matchNumericId_iff s (t.valid r hrow).id_lt).mp hparse⟩

/-- When no row is selected, the directory has no number the string denotes. -/
theorem lookup_of_whereId_nil {s : String} {n : Number}
    (hparse : (matchNumericId s).map parseInt = some n) (hnil : t.whereId n = []) (m : Nat)
    (hm : Denotes s m) : t.directory.lookup m = none := by
  refine lookup_eq_none_iff.mpr fun hmem => ?_
  obtain ⟨r, hr, rfl⟩ := List.mem_map.mp hmem
  have hfinite := (parseInt_matchNumericId_iff s (t.valid r hr).id_lt).mpr hm
  rw [hparse] at hfinite
  cases hfinite
  rw [Table.whereId_of_mem hr] at hnil
  cases hnil

/-- A request that selects by a number asks for a string that denotes it, and
answers by the first row. -/
theorem gets_of_selectWhereId {n : Number} (hq : q.statement = some (.selectWhereId n)) :
    ∃ s e message, q.Gets s ∧ (matchNumericId s).map parseInt = some n ∧
      e.problem = .notFound s message ∧
      q.exit (.success [] : Exit SqlError U (List Row)) = .failure (.fail e) ∧
      ∀ row rows, q.exit (.success (row :: rows) : Exit SqlError U (List Row)) =
        .success (.user (Http.toUser row)) := by
  cases q with
  | httpList | rpcListUsers | httpCreate | rpcCreateUser => cases hq
  | httpGet id =>
    obtain ⟨n', hn, hsame⟩ := Option.map_eq_some_iff.mp hq
    cases hsame
    exact ⟨id.val, .http (.UserNotFoundError id.val ("User not found: " ++ id.val)), _, rfl, hn,
      rfl, rfl, fun _ _ => rfl⟩
  | rpcGetUser id =>
    obtain ⟨n', hn, hsame⟩ := Option.map_eq_some_iff.mp hq
    cases hsame
    exact ⟨id, .rpc (.UserNotFound id ("User not found: " ++ id)), _, rfl, hn, rfl, rfl,
      fun _ _ => rfl⟩

theorem lists_of_select (hq : q.statement = some .select) :
    q.IsList ∧ ∀ rows, q.exit (.success rows : Exit SqlError U (List Row)) =
      .success (.list { users := rows.map Http.toUser, total := rows.length }) := by
  cases q with
  | httpList | rpcListUsers => exact ⟨trivial, fun _ => rfl⟩
  | httpGet id | rpcGetUser id =>
    obtain ⟨n, -, hsame⟩ := Option.map_eq_some_iff.mp hq
    cases hsame
  | httpCreate | rpcCreateUser => cases hq

theorem creates_of_insert {email name : String} (hq : q.statement = some (.insert email name)) :
    q.Creates email name ∧ ∀ row rows,
      q.exit (.success (row :: rows) : Exit SqlError U (List Row)) =
        .success (.user (Http.toUser row)) := by
  have hcreates := creates_of_statement hq
  refine ⟨hcreates, fun row rows => ?_⟩
  cases q with
  | httpCreate | rpcCreateUser => rfl
  | httpList | httpGet | rpcListUsers | rpcGetUser => exact hcreates.elim

/-- A statement that succeeds serves its request. -/
theorem serves_of_answers {o : DbOp} {rows : List Row} (hq : q.statement = some o)
    (h : Answers t o (.success rows : Exit SqlError U (List Row)) t') :
    t.directory.Serves q (q.exit (.success rows : Exit SqlError U (List Row))) t'.directory := by
  cases h with
  | select _ hperm =>
    obtain ⟨hlist, hexit⟩ := lists_of_select (U := U) hq
    rw [hexit]
    exact .lists hlist (List.Nodup.of_map _ (listed_nodup hperm).1) (by simp) (mem_listed hperm)
  | selectWhereId n =>
    obtain ⟨s, e, message, hgets, hparse, hproblem, hmissing, hfound⟩ :=
      gets_of_selectWhereId (U := U) hq
    cases hrows : t.whereId n with
    | nil =>
      rw [hmissing]
      exact .misses hgets (lookup_of_whereId_nil hparse hrows) hproblem
    | cons row rows =>
      obtain ⟨hrow, hdenotes⟩ := denotes_of_whereId hparse (by rw [hrows]; exact List.mem_cons_self)
      have hlookup : t.directory.lookup row.id = some row.profile :=
        lookup_eq_some_iff.mpr ⟨row, hrow, rfl, rfl⟩
      rw [hfound]
      exact .gets hgets hdenotes hlookup
  | insert row email name haccepts hemail hname =>
    obtain ⟨hcreates, hexit⟩ := creates_of_insert (U := U) hq
    rw [hexit]
    exact .creates ⟨email, name, hcreates, hemail, hname⟩ (directory_free haccepts)
      (directory_insert t row haccepts)

/-- A request whose id is not numeric asks for nobody. -/
theorem serves_of_noStatement {e : ApiError}
    (hq : q.statement = none) (hprogram : (q.program : DbEff U ApiError Reply) =
      .exit (.failure (.fail e))) :
    t.directory.Serves q (.failure (.fail e) : Exit ApiError U Reply) t.directory := by
  have none_denoted : ∀ s, (matchNumericId s).map parseInt = none → ∀ n, ¬ Denotes s n := by
    intro s hs n hn
    have hsome := (parseInt_isSome_iff s).mpr ⟨n, hn⟩
    rw [hs] at hsome
    cases hsome
  rcases noStatement_cases hq hprogram with ⟨id, rfl, hs, rfl⟩ | ⟨id, rfl, hs, rfl⟩
  · exact .misses (s := id.val) rfl (fun n hn => absurd hn (none_denoted _ hs n)) rfl
  · exact .misses (s := id) rfl (fun n hn => absurd hn (none_denoted _ hs n)) rfl

/-- After a database error nobody is shown. -/
theorem showsNobody_of_failure (q : Request) (c : Cause SqlError U) :
    ShowsNobody (q.exit (.failure c)) := by
  cases q with
  | httpList | rpcListUsers =>
    by_cases hc : c.Caught
    · exact .inl (by simp [Request.exit, allRows, hc, Exit.rename])
    · exact .inr ⟨_, by simp only [Request.exit, allRows, if_neg hc]; rfl⟩
  | httpGet | httpCreate | rpcGetUser | rpcCreateUser =>
    by_cases hc : c.Caught
    · exact .inr ⟨_, by simp only [Request.exit, firstRow, if_pos hc]; rfl⟩
    · exact .inr ⟨_, by simp only [Request.exit, firstRow, if_neg hc]; rfl⟩

end Calls

/-! ## Runs -/

section Runs

variable {U : Type} {t₀ : Table} {log : List (ApiEvent U)} {w : ApiState U}
  [Throwable SqlError U]

theorem program_within (q : Request) : (q.program : DbEff U ApiError Reply).Within 1 := by
  rcases program_eq (U := U) q with ⟨-, e, hp⟩ | ⟨o, -, hp⟩
  · rw [hp]
    exact .exit _ _
  · rw [hp]
    exact .perform fun r => .exit _ _

/-- A call that takes effect on the table has its effect on the directory. -/
theorem effect_of_takesEffect (h : ApiRun t₀ log w) {e : Entry Request ApiError U Reply}
    {t t' : Table} (hstarted : .started e.call e.request ∈ log)
    (heffect : (usersService U).TakesEffect log e t t') :
    Directory.Effect log e t.directory t'.directory := by
  cases heffect with
  | @pure k q x t hprogram =>
    have hundisturbed : Undisturbed log k := by
      intro o c hans
      obtain ⟨p, hpath⟩ := h.trace hstarted
      rw [hprogram] at hpath
      have hm := mem_callTrace.mpr hans
      rw [(Eff.path_exit hpath).1] at hm
      cases hm
    rcases program_eq (U := U) q with ⟨hnone, e, hp⟩ | ⟨o, -, hp⟩
    · obtain rfl := Eff.exit.inj (hp.symm.trans hprogram)
      exact .inl ⟨hundisturbed, serves_of_noStatement hnone hp⟩
    · cases hp.symm.trans hprogram
  | @operation k q o cont r x t t' hprogram hexit hans hanswers =>
    rcases program_eq (U := U) q with ⟨-, e, hp⟩ | ⟨o', ho, hp⟩
    · cases hp.symm.trans hprogram
    obtain ⟨rfl, hcont⟩ := Eff.perform.inj (hp.symm.trans hprogram)
    have hx : q.exit r = x := Eff.exit.inj ((congrFun (eq_of_heq hcont) r).trans hexit)
    cases r with
    | success rows =>
      refine .inl ⟨fun o c hfailed => ?_, hx ▸ serves_of_answers ho hanswers⟩
      cases answered_once program_within h hstarted hans hfailed
    | failure c =>
      refine .inr ⟨fun hundisturbed => hundisturbed o' c hans, hx ▸ showsNobody_of_failure q c, ?_⟩
      cases hanswers
      rfl

/-- Both APIs together are linearizable: whatever the interleaving, the calls
that have returned, and some that have not, might have been made one after the
other to a directory, in an order that keeps to real time. -/
theorem apiRun_linearizable {t₀ : Table} {log : List (ApiEvent U)} {w : ApiState U}
    (h : ApiRun t₀ log w) :
    ∃ order, Linearizes (Directory.Effect log) log t₀.directory order w.state.directory := by
  obtain ⟨order, hlin, -⟩ := h.placed program_within
  exact ⟨order, hlin.refines fun e he t t' heffect =>
    effect_of_takesEffect h (hlin.started e he) heffect⟩

theorem annLog_linearizable : ∃ (w : ApiState String) (order : _),
    Linearizes (Directory.Effect annLog) annLog Table.empty.directory order w.state.directory := by
  obtain ⟨w, h⟩ := annLog_run
  exact ⟨w, apiRun_linearizable h⟩

end Runs

end EffectWorker.Users
