import EffectWorker.Effect.Runs
import EffectWorker.Scripts.Seed

/-! The seed script at work on a table that others insert into at the same
time. The DELETE comes once and before all INSERTs; each INSERT adds a whole
batch or nothing. -/

namespace EffectWorker.Scripts

open Effect Users

/-! ## Runs -/

section Runs

variable {U : Type}

/-- What the columns hold of a user, if they take it. -/
def UserData.stored (u : UserData) : Option UserData :=
  match Users.stored u.email, Users.stored u.name with
  | some email, some name => some { email := email, name := name }
  | _, _ => none

theorem UserData.stored_eq_some {u v : UserData} :
    u.stored = some v ↔
      Users.stored u.email = some v.email ∧ Users.stored u.name = some v.name := by
  unfold UserData.stored
  cases Users.stored u.email <;> cases Users.stored u.name <;> simp [UserData.ext_iff]

def rowData (r : Row) : UserData := ⟨r.email, r.name⟩

/-- The rows hold these users, one each. -/
def Holds (rows : List Row) (data : List UserData) : Prop :=
  rows.map (fun r => some (rowData r)) = data.map UserData.stored

theorem Holds.append {rows rows' : List Row} {data data' : List UserData} (h : Holds rows data)
    (h' : Holds rows' data') : Holds (rows ++ rows') (data ++ data') := by
  rw [Holds, List.map_append, List.map_append, h, h']

theorem holds_nil {rows : List Row} : Holds rows [] ↔ rows = [] := List.map_eq_nil_iff

/-- What the database may do with an operation: the rows it adds, and the table
it leaves. The rows of one statement are inserted together or not at all. -/
inductive SeedAnswers : Table → Answered (SeedSig U) → List Row → Table → Prop
  | logInfo (t line r) : SeedAnswers t ⟨.logInfo line, r⟩ [] t
  | pgClientMake (t url r) : SeedAnswers t ⟨.pgClientMake url, r⟩ [] t
  | pgDrizzleMake (t pgClient r) : SeedAnswers t ⟨.pgDrizzleMake pgClient, r⟩ [] t
  | deleted (t db) : SeedAnswers t ⟨.delete db, .success ()⟩ [] .empty
  | inserted (t : Table) (db values rows) (t' : Table) : t'.rows = t.rows ++ rows →
      Holds rows values → SeedAnswers t ⟨.insert db values, .success ()⟩ rows t'
  | notDeleted (t db c) : SeedAnswers t ⟨.delete db, .failure c⟩ [] t
  | notInserted (t db values c) : SeedAnswers t ⟨.insert db values, .failure c⟩ [] t

inductive SeedEvent (U : Type)
  | own (a : Answered (SeedSig U)) (rows : List Row)
  /-- Somebody else inserts a user. -/
  | other (row : Row)

/-- The table, and what is left of the script. -/
structure SeedState (U : Type) where
  table : Table
  rest : SeedEff U Unit

/-- A step of the script, or of somebody else. -/
inductive SeedMove : SeedState U → SeedEvent U → SeedState U → Prop
  | own (t o k) (r : SeedOp.Ans U o) (rows t') : SeedAnswers t ⟨o, r⟩ rows t' →
      SeedMove ⟨t, Eff.perform (S := SeedSig U) o k⟩ (.own ⟨o, r⟩ rows) ⟨t', k r⟩
  | other (t : Table) (q row) (h : t.Accepts row) :
      SeedMove ⟨t, q⟩ (.other row) ⟨t.insert row h, q⟩

/-- A run of the script that finds the table `t₀`. -/
abbrev SeedRun (env : Option String) (faker : Faker) (t₀ : Table) :
    List (SeedEvent U) → SeedState U → Prop :=
  Runs SeedMove ⟨t₀, seed env faker⟩

def SeedEvent.answer : SeedEvent U → Option (Answered (SeedSig U))
  | .own a _ => some a
  | .other _ => none

/-- The rows that an event adds to the table. -/
def SeedEvent.rows : SeedEvent U → List Row
  | .own _ rows => rows
  | .other row => [row]

def SeedEvent.Deletes (e : SeedEvent U) : Prop :=
  ∃ db rows, e = .own ⟨.delete db, .success ()⟩ rows

/-- What the script has performed. -/
def answers (events : List (SeedEvent U)) : List (Answered (SeedSig U)) :=
  events.filterMap SeedEvent.answer

/-- The rows that the script has inserted. -/
def ownRows (events : List (SeedEvent U)) : List Row :=
  events.flatMap fun e => match e with
    | .own _ rows => rows
    | .other _ => []

@[simp] theorem answers_append (events events' : List (SeedEvent U)) :
    answers (events ++ events') = answers events ++ answers events' := List.filterMap_append

@[simp] theorem ownRows_append (events events' : List (SeedEvent U)) :
    ownRows (events ++ events') = ownRows events ++ ownRows events' := List.flatMap_append

variable {env : Option String} {faker : Faker} {t₀ t t' : Table} {e : SeedEvent U}
  {events before after : List (SeedEvent U)} {s s' : SeedState U}

theorem seedRun_path (h : SeedRun env faker t₀ events s) :
    Eff.Path (seed env faker) (answers events) s.rest := by
  induction h with
  | nil => exact .nil _
  | snoc _ hm ih =>
    rw [answers_append]
    cases hm with
    | own _ _ _ r => exact Eff.path_snoc ih r
    | other =>
      rw [show answers [SeedEvent.other _] = [] from rfl, List.append_nil]
      exact ih

theorem seedRun_progress (h : SeedRun env faker t₀ events s) :
    Progress SeedOp.step seedFailed (seedScript faker.userData) (answers events) s.rest :=
  straight_path (seed_isScript env faker) (seedRun_path h)

/-- The steps of the script that have succeeded. -/
def performed (as : List (Answered (SeedSig U))) : List SeedStep :=
  (as.filter fun a => (seedFailed a).isNone).map (·.1.step)

@[simp] theorem performed_append (as as' : List (Answered (SeedSig U))) :
    performed (as ++ as') = performed as ++ performed as' := by
  simp [performed]

theorem seedMove_ownRows (h : SeedMove s e s') :
    Holds (ownRows [e]) (inserted (performed (answers [e]))) := by
  cases h with
  | other => rfl
  | own _ o k r rows _ hans =>
    cases hans with
    | logInfo | deleted | notDeleted | notInserted => rfl
    | pgClientMake _ r | pgDrizzleMake _ r => cases r <;> rfl
    | inserted _ values _ _ _ hvalues =>
      change Holds (rows ++ []) (values ++ [])
      rwa [List.append_nil, List.append_nil]

/-- The script has inserted the data of the statements that have succeeded. -/
theorem seedRun_ownRows (h : SeedRun env faker t₀ events s) :
    Holds (ownRows events) (inserted (performed (answers events))) := by
  induction h with
  | nil => rfl
  | snoc _ hm ih =>
    rw [ownRows_append, answers_append, performed_append, inserted_append]
    exact ih.append (seedMove_ownRows hm)

theorem performed_of_succeeded {as : List (Answered (SeedSig U))}
    (h : ∀ a ∈ as, seedFailed a = none) : performed as = as.map (·.1.step) := by
  rw [performed, List.filter_eq_self.mpr fun a ha => by rw [h a ha]; rfl]

theorem performed_failed {c : Cause SqlError U} (h : seedFailed a = some c) :
    performed [a] = [] := by
  simp [performed, h]

theorem performed_isPrefix (h : SeedRun env faker t₀ events s) :
    performed (answers events) <+: seedScript faker.userData := by
  have hprogress := seedRun_progress h
  cases hprogress with
  | going rest hscript hok _ =>
    rw [performed_of_succeeded hok, hscript]
    exact List.prefix_append _ _
  | stopped before a c has hprefix hok ha _ =>
    rw [has, performed_append, performed_failed ha, List.append_nil, performed_of_succeeded hok]
    rw [has, List.map_append] at hprefix
    exact (List.prefix_append _ _).trans hprefix

/-- Only the DELETE takes rows away, and it takes all. -/
theorem seedMove_table (h : SeedMove s e s') :
    (e.Deletes → s'.table.rows = []) ∧
      (¬ e.Deletes → s'.table.rows = s.table.rows ++ e.rows) := by
  cases h with
  | other _ _ row haccepts =>
    refine ⟨fun hdeletes => ?_, fun _ => rfl⟩
    obtain ⟨_, _, he⟩ := hdeletes
    cases he
  | own _ o k r rows _ hans =>
    cases hans with
    | deleted db => exact ⟨fun _ => rfl, fun hno => absurd ⟨db, [], rfl⟩ hno⟩
    | inserted _ _ _ _ hrows =>
      refine ⟨fun hdeletes => ?_, fun _ => hrows⟩
      obtain ⟨_, _, he⟩ := hdeletes
      cases he
    | logInfo | pgClientMake | pgDrizzleMake | notDeleted | notInserted =>
      refine ⟨fun hdeletes => ?_, fun _ => (List.append_nil _).symm⟩
      obtain ⟨_, _, he⟩ := hdeletes
      cases he

theorem seedRun_kept (h : SeedRun env faker t₀ events s) (hno : ∀ e ∈ events, ¬ e.Deletes) :
    s.table.rows = t₀.rows ++ events.flatMap SeedEvent.rows := by
  induction h with
  | nil => exact (List.append_nil _).symm
  | snoc _ hm ih =>
    rw [(seedMove_table hm).2 (hno _ (by simp)),
      ih fun e he => hno e (List.mem_append_left _ he)]
    simp

/-- After the DELETE the table has what was inserted since. -/
theorem seedRun_replaced (h : SeedRun env faker t₀ events s)
    (hevents : events = before ++ e :: after) (he : e.Deletes) (hno : ∀ e ∈ after, ¬ e.Deletes) :
    s.table.rows = after.flatMap SeedEvent.rows := by
  induction h generalizing after with
  | nil => simp at hevents
  | snoc _ hm ih =>
    rcases append_split hevents with ⟨after', hlog⟩ | ⟨before', rfl, hlast⟩
    · obtain rfl : after' ++ [_] = after := by
        rw [hlog, List.append_assoc] at hevents
        exact (List.cons.inj (List.append_cancel_left hevents)).2
      rw [(seedMove_table hm).2 (hno _ (by simp)),
        ih hlog fun e he => hno e (List.mem_append_left _ he)]
      simp
    · cases before' with
      | cons x before' => simp at hlast
      | nil =>
        obtain ⟨rfl, rfl⟩ := List.cons.inj hlast
        exact (seedMove_table hm).1 he

/-! ## What a run leaves -/

theorem mem_answers {a : Answered (SeedSig U)} :
    a ∈ answers events ↔ ∃ rows, .own a rows ∈ events := by
  simp only [answers, List.mem_filterMap]
  constructor
  · rintro ⟨e, he, ha⟩
    cases e with
    | own b rows =>
      cases ha
      exact ⟨rows, he⟩
    | other row => cases ha
  · rintro ⟨rows, he⟩
    exact ⟨_, he, rfl⟩

theorem delete_mem_iff : .delete ∈ performed (answers events) ↔ ∃ e ∈ events, e.Deletes := by
  simp only [performed, List.mem_map, List.mem_filter, Option.isNone_iff_eq_none]
  constructor
  · rintro ⟨⟨o, r⟩, ⟨hm, hok⟩, hstep⟩
    obtain ⟨rows, he⟩ := mem_answers.mp hm
    cases o with
    | delete db =>
      cases r with
      | success a => exact ⟨_, he, db, rows, rfl⟩
      | failure c => cases hok
    | _ => cases hstep
  · rintro ⟨e, he, db, rows, rfl⟩
    exact ⟨_, ⟨mem_answers.mpr ⟨rows, he⟩, rfl⟩, rfl⟩

theorem delete_notMem_batchScript (userData : List UserData) (i : Nat) :
    .delete ∉ batchScript userData i := by
  fun_induction batchScript userData i with
  | case1 i _ ih => simpa using ih
  | case2 => simp

theorem delete_once (userData : List UserData) : (seedScript userData).count .delete = 1 := by
  rw [seedScript_eq, List.count_append, List.count_append,
    List.count_eq_zero_of_not_mem (delete_notMem_batchScript userData 0)]
  decide

/-- The DELETE is made once, and before all INSERTs. -/
theorem seedRun_delete (h : SeedRun env faker t₀ events s)
    (hevents : events = before ++ e :: after) (he : e.Deletes) :
    ownRows (before ++ [e]) = [] ∧ ∀ e' ∈ before ++ after, ¬ e'.Deletes := by
  have hdelete : performed (answers [e]) = [.delete] := by
    obtain ⟨db, rows, rfl⟩ := he
    rfl
  have hperformed : performed (answers events) =
      performed (answers before) ++ .delete :: performed (answers after) := by
    rw [hevents, ← List.singleton_append, answers_append, answers_append, performed_append,
      performed_append, hdelete]
    rfl
  have hprefix := performed_isPrefix h
  have honce := hprefix.sublist.count_le .delete
  rw [delete_once, hperformed, List.count_append, List.count_cons_self] at honce
  have hbefore : .delete ∉ performed (answers before) :=
    List.count_eq_zero.mp (by omega)
  have hafter : .delete ∉ performed (answers after) :=
    List.count_eq_zero.mp (by omega)
  constructor
  · rw [hevents, ← List.singleton_append, ← List.append_assoc] at h
    obtain ⟨s₁, hrun, -⟩ := h.append_inv
    obtain ⟨s₂, hrun', -⟩ := hrun.append_inv
    have hdata := seedRun_ownRows hrun
    rw [answers_append, performed_append, inserted_append, hdelete,
      (seedScript_batches (performed_isPrefix hrun')).2 hbefore] at hdata
    exact holds_nil.mp hdata
  · intro e' he' hdeletes
    rcases List.mem_append.mp he' with hm | hm
    · exact hbefore (delete_mem_iff.mpr ⟨e', hm, hdeletes⟩)
    · exact hafter (delete_mem_iff.mpr ⟨e', hm, hdeletes⟩)

theorem seedRun_batches (h : SeedRun env faker t₀ events s) :
    ∃ n, batchSize ∣ n ∧ Holds (ownRows events) (faker.userData.take n) := by
  obtain ⟨n, hn, htake⟩ := (seedScript_batches (performed_isPrefix h)).1
  exact ⟨n, hn, htake ▸ seedRun_ownRows h⟩

theorem seedRun_reported {line : String} {rows : List Row}
    (h : SeedRun env faker t₀ events s)
    (hevents : events = before ++ .own ⟨.logInfo line, ()⟩ rows :: after) :
    ∃ done, Holds (ownRows before) done ∧ Reports faker.userData done line := by
  have hanswers : answers events = answers before ++ ⟨.logInfo line, ()⟩ :: answers after := by
    rw [hevents, answers_append]
    rfl
  obtain ⟨hok, rest, hscript⟩ := (seedRun_progress h).before hanswers
  rw [hevents] at h
  obtain ⟨s₁, hrun, -⟩ := h.append_inv
  refine ⟨_, seedRun_ownRows hrun, ?_⟩
  rw [performed_of_succeeded hok]
  exact seedScript_line faker.userData_length hscript

theorem seedRun_stopped {a : Answered (SeedSig U)} {rows : List Row} {c : Cause SqlError U}
    (h : SeedRun env faker t₀ events s) (hevents : events = before ++ .own a rows :: after)
    (ha : seedFailed a = some c) : s.rest = .exit (.failure c) ∧ answers after = [] := by
  have hanswers : answers events = answers before ++ a :: answers after := by
    rw [hevents, answers_append]
    rfl
  cases seedRun_progress h with
  | going rest _ hok _ =>
    rw [hok a (by rw [hanswers]; simp)] at ha
    cases ha
  | stopped before' a' c' has _ hok ha' hq =>
    rcases append_split (has.symm.trans hanswers) with ⟨rest, hbefore⟩ | ⟨before'', hb, hlast⟩
    · rw [hok a (by rw [hbefore]; simp)] at ha
      cases ha
    · cases before'' with
      | cons x before'' => simp at hlast
      | nil =>
        obtain ⟨rfl, hafter⟩ := List.cons.inj hlast
        rw [ha'] at ha
        cases ha
        exact ⟨hq, hafter.symm⟩

theorem seedRun_finished {x : Exit SqlError U Unit} (h : SeedRun env faker t₀ events s)
    (hx : s.rest = .exit x) :
    (x = .success () ∧ Holds (ownRows events) faker.userData ∧ ∃ e ∈ events, e.Deletes) ∨
      ∃ a rows c, .own a rows ∈ events ∧ seedFailed a = some c ∧ x = .failure c := by
  have hprogress := seedRun_progress h
  rw [hx] at hprogress
  rcases hprogress.exit with ⟨hscript, hok, a, rfl⟩ | ⟨before, a, c, has, -, ha, rfl⟩
  · have hall : performed (answers events) = seedScript faker.userData := by
      rw [performed_of_succeeded hok, hscript]
    refine .inl ⟨rfl, ?_, delete_mem_iff.mp ?_⟩
    · have hdata := seedRun_ownRows h
      rwa [hall, inserted_seedScript] at hdata
    · rw [hall, seedScript_eq]
      exact List.mem_append_left _ (by decide)
  · obtain ⟨rows, hm⟩ := mem_answers.mp (show a ∈ answers events by rw [has]; simp)
    exact .inr ⟨a, rows, c, hm, ha, rfl⟩

/-! ## Whether it can succeed -/

/-- The users that `faker` has drawn satisfy the constraints of the table, as it
holds them. -/
structure Faker.Fits (faker : Faker) : Prop where
  taken : ∀ u ∈ faker.userData, ∃ v, u.stored = some v
  distinct : (faker.userData.map fun u => stored u.email).Nodup

theorem ownRows_sublist (events : List (SeedEvent U)) :
    (ownRows events).Sublist (events.flatMap SeedEvent.rows) := by
  induction events with
  | nil => exact .slnil
  | cons e events ih =>
    cases e with
    | own a rows => exact ih.append_left rows
    | other row => exact ih.trans (List.sublist_cons_self _ _)

theorem seedRun_fits (h : SeedRun env faker t₀ events s) (hs : s.rest = .exit (.success ())) :
    faker.Fits := by
  obtain ⟨hdata, e, he, hdeletes⟩ : Holds (ownRows events) faker.userData ∧
      ∃ e ∈ events, e.Deletes := by
    rcases seedRun_finished h hs with ⟨-, hrest⟩ | ⟨_, _, _, _, _, hx⟩
    · exact hrest
    · cases hx
  obtain ⟨before, after, hevents⟩ := List.append_of_mem he
  obtain ⟨hbefore, hno⟩ := seedRun_delete h hevents hdeletes
  -- the rows of the script are all still there
  have hrows : (ownRows events).Sublist s.table.rows := by
    have hown : ownRows events = ownRows after := by
      rw [hevents, ← List.singleton_append, ← List.append_assoc, ownRows_append, hbefore]
      rfl
    rw [seedRun_replaced h hevents hdeletes fun e he => hno e (List.mem_append_right _ he), hown]
    exact ownRows_sublist after
  have htaken : ∀ u ∈ faker.userData, ∃ v, u.stored = some v := by
    intro u hu
    have hmem : u.stored ∈ (ownRows events).map fun r => some (rowData r) := by
      rw [hdata]
      exact List.mem_map_of_mem hu
    obtain ⟨r, -, hr⟩ := List.mem_map.mp hmem
    exact ⟨rowData r, hr.symm⟩
  have hemails : (faker.userData.map fun u => stored u.email) =
      ((ownRows events).map Row.email).map some := by
    have hmapped := congrArg (List.map (Option.map UserData.email)) hdata
    rw [List.map_map, List.map_map] at hmapped
    rw [List.map_map]
    refine Eq.trans (List.map_congr_left fun u hu => ?_) hmapped.symm
    obtain ⟨v, hv⟩ := htaken u hu
    rw [Function.comp_apply, hv, (UserData.stored_eq_some.mp hv).1]
    rfl
  refine ⟨htaken, ?_⟩
  rw [hemails]
  exact ((hrows.map Row.email).nodup s.table.emails_nodup).map fun _ _ => Option.some.inj

/-- The statements of a part of the script can succeed, one after the other. -/
def Feasible : List SeedStep → Table → Prop
  | [], _ => True
  | .delete :: script, _ => Feasible script .empty
  | .insert values :: script, t => ∃ (rows : List Row) (t' : Table),
      t'.rows = t.rows ++ rows ∧ Holds rows values ∧ Feasible script t'
  | .log _ :: script, t | .connect :: script, t => Feasible script t

theorem seedRun_own {o : SeedOp} {k : SeedOp.Ans U o → SeedEff U Unit} {r : SeedOp.Ans U o}
    {rows : List Row} (h : SeedRun env faker t₀ events ⟨t, Eff.perform (S := SeedSig U) o k⟩)
    (hans : SeedAnswers t ⟨o, r⟩ rows t') :
    SeedRun env faker t₀ (events ++ [.own ⟨o, r⟩ rows]) ⟨t', k r⟩ :=
  .snoc h (.own t o k r rows t' hans)

theorem seedRun_completes {script : List SeedStep} {q : SeedEff U Unit}
    (hscript : IsScript script q) (h : SeedRun env faker t₀ events ⟨t, q⟩)
    (hfeasible : Feasible script t) : ∃ (events' : List (SeedEvent U)) (s' : SeedState U),
      SeedRun env faker t₀ events' s' ∧ s'.rest = .exit (.success ()) := by
  induction hscript generalizing events t with
  | exit a => exact ⟨events, _, h, rfl⟩
  | perform o k script _ _ ih =>
    cases o with
    | logInfo line => exact ih () rfl (seedRun_own h (.logInfo t line ())) hfeasible
    | pgClientMake url =>
      exact ih (Exit.success 0) rfl (seedRun_own h (.pgClientMake t url _)) hfeasible
    | pgDrizzleMake db =>
      exact ih (Exit.success ()) rfl (seedRun_own h (.pgDrizzleMake t db _)) hfeasible
    | delete db => exact ih (Exit.success ()) rfl (seedRun_own h (.deleted t db)) hfeasible
    | insert db values =>
      obtain ⟨rows, t', hrows, hvalues, hrest⟩ := hfeasible
      exact ih (Exit.success ()) rfl
        (seedRun_own h (.inserted t db values rows t' hrows hvalues)) hrest

/-- The row of the `n`-th user when nobody else inserts any. -/
def Faker.row (faker : Faker) (n : Nat) : Row where
  id := n + 1
  email := (stored (faker.toLowerCase (faker.internetEmail n))).getD ""
  name := (stored (faker.personFullName n)).getD ""
  createdAt := ⟨0⟩

def Faker.rows (faker : Faker) : List Row := (List.range USER_COUNT).map faker.row

theorem Faker.row_stored (hfits : faker.Fits) {n : Nat} (hn : n < USER_COUNT) :
    stored (faker.toLowerCase (faker.internetEmail n)) = some (faker.row n).email ∧
      stored (faker.personFullName n) = some (faker.row n).name := by
  obtain ⟨v, hv⟩ := hfits.taken _ (List.mem_map_of_mem (List.mem_range.mpr hn))
  obtain ⟨hemail, hname⟩ := UserData.stored_eq_some.mp hv
  exact ⟨by rw [Faker.row, hemail]; rfl, by rw [Faker.row, hname]; rfl⟩

theorem Faker.rows_data (hfits : faker.Fits) : Holds faker.rows faker.userData := by
  rw [Holds, Faker.rows, Faker.userData, List.map_map, List.map_map]
  refine List.map_congr_left fun n hn => ?_
  obtain ⟨hemail, hname⟩ := Faker.row_stored hfits (List.mem_range.mp hn)
  exact (UserData.stored_eq_some.mpr ⟨hemail, hname⟩).symm

/-- The table when the first `i` users are inserted. -/
def Faker.table (faker : Faker) (hfits : faker.Fits) (i : Nat) : Table where
  rows := faker.rows.take i
  valid := by
    intro r hr
    obtain ⟨n, hn, rfl⟩ := List.mem_map.mp (List.mem_of_mem_take hr)
    have hn : n < 50 := List.mem_range.mp hn
    obtain ⟨hemail, hname⟩ := Faker.row_stored hfits hn
    exact ⟨Nat.succ_pos n, by change n + 1 ≤ _; omega, stored_stored hemail, stored_stored hname⟩
  ids_nodup := by
    refine ((List.take_sublist i _).map Row.id).nodup ?_
    rw [Faker.rows, List.map_map]
    exact List.nodup_range.map fun m n h => Nat.succ.inj h
  emails_nodup := by
    refine ((List.take_sublist i _).map Row.email).nodup ?_
    have hemails : ((faker.rows.map Row.email).map some).Nodup := by
      have hdistinct := hfits.distinct
      rw [Faker.userData, List.map_map] at hdistinct
      rw [Faker.rows, List.map_map, List.map_map]
      refine Eq.mp (congrArg List.Nodup (List.map_congr_left fun n hn => ?_)) hdistinct
      exact (Faker.row_stored hfits (List.mem_range.mp hn)).1
    exact List.Nodup.of_map _ hemails

theorem feasible_batchScript (hfits : faker.Fits) (i : Nat) (rest : List SeedStep)
    (hrest : ∀ t, Feasible rest t) :
    Feasible (batchScript faker.userData i ++ rest) (faker.table hfits i) := by
  fun_induction batchScript faker.userData i with
  | case1 i _ ih =>
    refine ⟨(faker.rows.drop i).take batchSize, faker.table hfits (i + batchSize), ?_, ?_, ih⟩
    · exact List.take_add
    · have hdata := Faker.rows_data hfits
      rw [Holds] at hdata
      rw [Holds, batch, List.map_take, List.map_drop, hdata, List.map_take, List.map_drop]
  | case2 i _ => exact hrest _

/-- Alone, with users that fit, the script inserts all of them. -/
theorem seed_succeeds (env : Option String) (hfits : faker.Fits) (t₀ : Table) :
    ∃ (events : List (SeedEvent U)) (s : SeedState U),
      SeedRun env faker t₀ events s ∧ s.rest = .exit (.success ()) := by
  refine seedRun_completes (seed_isScript env faker) .nil ?_
  rw [seedScript_eq]
  exact feasible_batchScript hfits 0 [.log "Seeding complete!"] fun _ => trivial

/-- Whatever the table has, the script can succeed if and only if the columns take
all of its users and no two of them are held with one email. -/
theorem seed_canSucceed_iff (env : Option String) (faker : Faker) (t₀ : Table) :
    (∃ (events : List (SeedEvent U)) (s : SeedState U),
      SeedRun env faker t₀ events s ∧ s.rest = .exit (.success ())) ↔ faker.Fits := by
  constructor
  · rintro ⟨events, s, h, hs⟩
    exact seedRun_fits h hs
  · intro hfits
    exact seed_succeeds env hfits t₀

/-! ## Wherever it stops -/

/-- How the table and the log stand after a run, wherever it has come. -/
structure Seeded (faker : Faker) (t₀ : Table) (events : List (SeedEvent U)) (s : SeedState U) :
    Prop where
  /-- The script has inserted whole batches of its data. -/
  batches : ∃ n, batchSize ∣ n ∧ Holds (ownRows events) (faker.userData.take n)
  /-- Until the DELETE the table only gets what others insert. -/
  kept : (∀ e ∈ events, ¬ e.Deletes) →
    ownRows events = [] ∧ s.table.rows = t₀.rows ++ events.flatMap SeedEvent.rows
  /-- From then on it has what was inserted since. -/
  replaced : ∀ before e after, events = before ++ e :: after → e.Deletes →
    ownRows before = [] ∧ s.table.rows = after.flatMap SeedEvent.rows
  reported : ∀ before line rows after, events = before ++ .own ⟨.logInfo line, ()⟩ rows :: after →
    ∃ done, Holds (ownRows before) done ∧ Reports faker.userData done line
  /-- The first failure ends the script. -/
  stopped : ∀ before a rows after c, events = before ++ .own a rows :: after →
    seedFailed a = some c → s.rest = .exit (.failure c) ∧ answers after = []
  finished : ∀ x, s.rest = .exit x →
    (x = .success () ∧ Holds (ownRows events) faker.userData ∧ ∃ e ∈ events, e.Deletes) ∨
      ∃ a rows c, .own a rows ∈ events ∧ seedFailed a = some c ∧ x = .failure c

/-- Wherever the script has come, and whatever others insert at the same time,
it has put whole batches of its data into a table that it had cleared, and each
line it has logged says how many of its users there were; it succeeds with all
of them, and fails with its first failure. -/
theorem seedRun_seeded (h : SeedRun env faker t₀ events s) : Seeded faker t₀ events s := by
  constructor
  case batches => exact seedRun_batches h
  case kept =>
    intro hno
    refine ⟨?_, seedRun_kept h hno⟩
    have hnone := (seedScript_batches (performed_isPrefix h)).2 fun hm => by
      obtain ⟨e, he, hdeletes⟩ := delete_mem_iff.mp hm
      exact hno e he hdeletes
    have hdata := seedRun_ownRows h
    rw [hnone] at hdata
    exact holds_nil.mp hdata
  case replaced =>
    intro before e after hevents he
    obtain ⟨hbefore, hno⟩ := seedRun_delete h hevents he
    rw [ownRows_append, List.append_eq_nil_iff] at hbefore
    exact ⟨hbefore.1, seedRun_replaced h hevents he fun e he => hno e (List.mem_append_right _ he)⟩
  case reported => exact fun _ _ _ _ hevents => seedRun_reported h hevents
  case stopped => exact fun _ _ _ _ _ hevents ha => seedRun_stopped h hevents ha
  case finished =>
    intro x hx
    exact seedRun_finished h hx

end Runs

/-! ## A run -/

def longerNames : Faker where
  internetEmail n := String.ofList (List.replicate (n + 1) 'a') ++ "@example.org"
  personFullName _ := "Ann"
  toLowerCase := id

theorem longerNames_fits : longerNames.Fits := by
  have hlength : ∀ n, (longerNames.internetEmail n).length = n + 13 := fun n => by
    change (String.ofList (List.replicate (n + 1) 'a') ++ "@example.org").length = n + 13
    rw [String.length_append, String.length_ofList, List.length_replicate]
    rfl
  have hstored : ∀ n < USER_COUNT,
      stored (longerNames.internetEmail n) = some (longerNames.internetEmail n) := by
    intro n hn
    have hn : n < 50 := hn
    refine stored_of_length (by rw [hlength]; omega) (Bool.eq_false_iff.mpr fun hzero => ?_)
    rw [List.contains_iff_mem] at hzero
    change Char.ofNat 0 ∈ (String.ofList _ ++ "@example.org").toList at hzero
    rw [String.toList_append, String.toList_ofList, List.mem_append] at hzero
    rcases hzero with hzero | hzero
    · exact absurd (List.eq_of_mem_replicate hzero) (by decide)
    · exact absurd hzero (by decide)
  constructor
  · intro u hu
    obtain ⟨n, hn, rfl⟩ := List.mem_map.mp hu
    have hname : stored "Ann" = some "Ann" := by decide
    exact ⟨{ email := longerNames.internetEmail n, name := "Ann" },
      UserData.stored_eq_some.mpr ⟨hstored n (List.mem_range.mp hn), hname⟩⟩
  · rw [Faker.userData, List.map_map]
    have hemails : (List.range USER_COUNT).map (fun n => some (longerNames.internetEmail n)) =
        (List.range USER_COUNT).map fun n => stored (longerNames.internetEmail n) :=
      List.map_congr_left fun n hn => (hstored n (List.mem_range.mp hn)).symm
    change ((List.range USER_COUNT).map fun n => stored (longerNames.internetEmail n)).Nodup
    rw [← hemails]
    refine List.nodup_range.map fun m n h => ?_
    have hsame := congrArg String.length (Option.some.inj h)
    rw [hlength, hlength] at hsame
    omega

theorem seedRun_seeded_longerNames : ∃ (events : List (SeedEvent String)) (s : SeedState String),
    Seeded longerNames annTable events s ∧ s.rest = .exit (.success ()) ∧ annTable.rows ≠ [] := by
  obtain ⟨events, s, h, hs⟩ := seed_succeeds (U := String) none longerNames_fits annTable
  exact ⟨events, s, seedRun_seeded h, hs, by simp [annTable]⟩

end EffectWorker.Scripts
