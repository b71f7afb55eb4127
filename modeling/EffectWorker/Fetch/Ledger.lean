import EffectWorker.Fetch.Visibility
import EffectWorker.Users.Ledger

/-! The table as a ledger of the worker. Each of its new rows was inserted for
one create of one request, which is told of it unless it is interrupted; whoever
is told of a created user has a row, and nobody has two. As for the handlers
alone, a statement that the client sees fail is assumed to have changed nothing. -/

namespace EffectWorker.Fetch

open Effect Worker Users

section Ledger

variable {U : Type} {t₀ : Table} {d d' : Deployment U} {events : List (DeploymentEvent U)}
  {event : DeploymentEvent U} {log : List (ApiEvent U)} {k c n : Nat} {q : Users.Request}
  {row : Row}

/-- The row an event inserts, with the call that asked for it. -/
def DeploymentEvent.inserted : DeploymentEvent U → Option (Nat × Row)
  | .call k c (.answers (.handler _ o) r) =>
    Users.inserted (.answered (callId k c) o r : ApiEvent U)
  | .orphan n o r => Users.inserted (.answered n o r : ApiEvent U)
  | _ => none

/-- The rows the worker has inserted, oldest first. -/
def inserted (events : List (DeploymentEvent U)) : List (Nat × Row) :=
  events.filterMap DeploymentEvent.inserted

theorem insertions_singleton (e : ApiEvent U) : insertions [e] = (Users.inserted e).toList := by
  cases h : Users.inserted e <;> simp [insertions, h]

theorem inserted_snoc (events : List (DeploymentEvent U)) (event : DeploymentEvent U) :
    inserted (events ++ [event]) = inserted events ++ event.inserted.toList := by
  rw [inserted, List.filterMap_append]
  cases h : event.inserted <;> simp [inserted, h]

theorem shows_inserted {e : CallEvent (DbSig U) ApiError U Reply} {shown : List (ApiEvent U)}
    (h : Shows q (callId k c) log e shown) :
    insertions shown = (DeploymentEvent.call k c e).inserted.toList := by
  cases h with
  | starts | ends | refused => rfl
  | answers conn o r => exact insertions_singleton _
  | other _ _ _ hanswers =>
    cases e with
    | starts | begins | works | ends | interrupted => rfl
    | answers o r =>
      cases o with
      | handler conn o => exact absurd rfl (hanswers conn o r)
      | pgClientMake | pgDrizzleMake => rfl

/-- The handlers insert what the worker inserts. -/
theorem projects_inserted (h : Projects events log) : insertions log = inserted events := by
  induction h with
  | nil => rfl
  | call es as k c incoming a ev shown _ _ _ hshows ih =>
    rw [insertions_append, inserted_snoc, ih, shows_inserted hshows]
  | orphan es as n o r _ ih =>
    rw [insertions_append, inserted_snoc, ih, insertions_singleton]
    rfl
  | other es as ev _ hcall horphan ih =>
    rw [inserted_snoc, ih]
    cases ev with
    | call k c e => exact absurd rfl (hcall k c e)
    | orphan n o r => exact absurd rfl (horphan n o r)
    | _ => exact (List.append_nil _).symm

theorem inserted_left {n : Nat} (hm : (n, row) ∈ inserted events) :
    (∃ k c conn o r, n = callId k c ∧ .call k c (.answers (.handler conn o) r) ∈ events) ∨
      ∃ o r, .orphan n o r ∈ events := by
  obtain ⟨event, hevent, hrow⟩ := List.mem_filterMap.mp hm
  unfold DeploymentEvent.inserted at hrow
  split at hrow
  · obtain ⟨email, name, he⟩ := inserted_eq_some hrow
    cases he
    exact .inl ⟨_, _, _, _, _, rfl, hevent⟩
  · obtain ⟨email, name, he⟩ := inserted_eq_some hrow
    cases he
    exact .inr ⟨_, _, hevent⟩
  · cases hrow

/-! ## Statements left behind -/

/-- The call has been interrupted. -/
def Interrupted (events : List (DeploymentEvent U)) (n : Nat) : Prop :=
  ∃ k c, n = callId k c ∧ .call k c .interrupted ∈ events

theorem Interrupted.snoc (h : Interrupted events n) : Interrupted (events ++ [event]) n := by
  obtain ⟨k, c, hn, hm⟩ := h
  exact ⟨k, c, hn, List.mem_append_left _ hm⟩

variable [Throwable SqlError U] [Throwable DatabaseConnectionError U]
  {string : DatabaseConnectionError ⊕ SqlError → String}

/-- Only interrupted calls leave a statement with the database. -/
theorem orphans_interrupted (h : Deployment.Run string t₀ events d) {o : DbOp}
    (ho : d.orphans n = some o) : Interrupted events n := by
  induction h generalizing o with
  | nil => cases ho
  | @snoc events d event d' _ hs ih =>
    cases hs with
    | build | fetch | scope => exact (ih ho).snoc
    | orphan n' o' r t' _ _ =>
      by_cases hn : n = n'
      · subst hn
        simp at ho
      · exact (ih (by simpa [Function.update_of_ne hn] using ho)).snoc
    | call k inv c e state t' _ _ _ _ =>
      by_cases hn : n = callId k c
      · subst hn
        simp only [Function.update_self] at ho
        cases e with
        | interrupted => exact ⟨k, c, rfl, by simp⟩
        | starts | begins | works | answers | ends => cases ho
      · exact (ih (by simpa [Function.update_of_ne hn] using ho)).snoc

theorem orphan_interrupted (h : Deployment.Run string t₀ events d) {o : DbOp}
    {r : Exit SqlError U (List Row)} (hm : .orphan n o r ∈ events) : Interrupted events n := by
  induction h with
  | nil => cases hm
  | @snoc events d event d' hrun hs ih =>
    rcases List.mem_append.mp hm with hm | hm
    · exact (ih hm).snoc
    · rw [List.mem_singleton] at hm
      subst hm
      cases hs with
      | orphan _ _ _ t' ho _ => exact (orphans_interrupted hrun ho).snoc

/-- A call ends once. -/
theorem call_ends_once {e e' : CallEvent (DbSig U) ApiError U Reply}
    (h : Deployment.Run string t₀ events d) (he : e.ending.isSome) (he' : e'.ending.isSome)
    (hm : .call k c e ∈ events) (hm' : .call k c e' ∈ events) : e = e' := by
  obtain ⟨before, after, rfl⟩ := List.append_of_mem hm
  rcases List.mem_append.mp hm' with hbefore | hm'
  · obtain ⟨before, between, rfl⟩ := List.append_of_mem hbefore
    refine absurd ?_ (call_last (e := e) he' h (List.append_assoc ..))
    simp
  · rcases List.mem_cons.mp hm' with heq | hafter
    · exact (DeploymentEvent.call.inj heq).2.2.symm
    · exact absurd hafter (call_last he h rfl)

/-! ## The ledger -/

/-- The table, the creates that were made and what their callers were told. -/
structure WorkerAccounted (t₀ : Table) (events : List (DeploymentEvent U)) (t : Table) : Prop where
  rows : t.rows = t₀.rows ++ (inserted events).map Prod.snd
  once : ((inserted events).map Prod.fst).Nodup
  asked : ∀ n row, (n, row) ∈ inserted events →
    ∃ k c q, n = callId k c ∧ Asked events k c q ∧ q.Stores row.email row.name
  told : ∀ k c row x, (callId k c, row) ∈ inserted events → .call k c (.ends x) ∈ events →
    x = .success (.user (Http.toUser row))
  kept : ∀ k c q u, Asked events k c q → q.IsCreate →
    .call k c (.ends (.success (.user u))) ∈ events →
    ∃ row, (callId k c, row) ∈ inserted events ∧ u = Http.toUser row

/-- The worker loses no create and makes none twice, whatever is interrupted:
the table has its first rows and one for each create that inserted, which holds
what its columns make of the payload; a call that inserted ends with that user or
is interrupted, no statement having been lost on its way back; and whoever is told
of a created user has its row in the table. -/
theorem deployment_accounted (h : Deployment.Run string t₀ events d) :
    WorkerAccounted t₀ events d.table := by
  obtain ⟨log, w, hr, hsim⟩ := deployment_simulates h
  have hinserted := projects_inserted hsim.projects
  constructor
  case rows => rw [← hsim.table, ← hinserted, rows_insertions hr]
  case once =>
    rw [← hinserted]
    exact insertions_nodup hr
  case asked =>
    intro n row hrow
    rw [← hinserted] at hrow
    obtain ⟨q, email, name, hq, hstatement, -, hemail, hname⟩ := insertion_asked hr hrow
    obtain ⟨k, c, rfl⟩ : ∃ k c, n = callId k c := ⟨_, _, (Nat.pair_unpair n).symm⟩
    exact ⟨k, c, q, rfl, projects_started hsim.projects hq, email, name,
      creates_of_statement hstatement, hemail, hname⟩
  case told =>
    intro k c row x hrow hx
    rcases projects_ends h hsim.projects hx with ⟨cause, -, -, hnone⟩ | ⟨x', rfl, hreturned⟩
    · rcases inserted_left hrow with ⟨k', c', conn, o, r, hid, hm⟩ | ⟨o, r, hm⟩
      · obtain ⟨rfl, rfl⟩ := Nat.pair_eq_pair.mp hid
        exact absurd hm (hnone conn o r)
      · obtain ⟨k', c', hid, hm⟩ := orphan_interrupted h hm
        obtain ⟨rfl, rfl⟩ := Nat.pair_eq_pair.mp hid
        cases call_ends_once h rfl rfl hx hm
    · rw [← hinserted] at hrow
      rw [insertion_told hr hrow hreturned]
      rfl
  case kept =>
    intro k c q u hq hcreate hx
    rcases projects_ends h hsim.projects hx with ⟨cause, hcause, -, -⟩ | ⟨x', hx', hreturned⟩
    · cases hcause
    rw [mapFail_eq_success hx'.symm] at hreturned
    have hstarted := returned_started h hsim.projects hr hq hreturned
    obtain ⟨row, hrow, hu⟩ := created_inserted hr ⟨q, hstarted, hcreate, hreturned⟩
    exact ⟨row, hinserted ▸ hrow, hu⟩

end Ledger

theorem deployment_accounted_annServed : ∃ events : List (DeploymentEvent String),
    AnnServed events ∧ WorkerAccounted .empty events annTable := by
  obtain ⟨events, d, hrun, htable, hserved⟩ := annServed_run (U := String) fun _ => "refused"
  exact ⟨events, hserved, htable ▸ deployment_accounted hrun⟩

end EffectWorker.Fetch
