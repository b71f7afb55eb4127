import EffectWorker.Fetch.Visibility
import EffectWorker.Users.Contract

/-! What the worker promises its clients. Every call of every request, of either
API and in whatever run, ends in what its endpoint or its middleware declares,
or in a defect. -/

namespace EffectWorker.Fetch

open Effect Worker Users

section Contract

variable {U : Type} [Throwable SqlError U] [Throwable DatabaseConnectionError U]
  {string : DatabaseConnectionError ⊕ SqlError → String} {t₀ : Table} {d : Deployment U}
  {events : List (DeploymentEvent U)} {log : List (ApiEvent U)} {k c : Nat}
  {q : Users.Request}

/-- What a call of `q` may end in. -/
structure Conforms (events : List (DeploymentEvent U)) (k c : Nat) (q : Users.Request)
    (x : Exit (CallError ApiError) U Reply) : Prop where
  errors : ∀ cause error, x = .failure cause → cause.failureOption = some error →
    (∃ e, error = .inr e ∧ q.Declares e ∧ e.encodes = true) ∨
    (∃ message, error = .inl ⟨"Database connection failed: " ++ message⟩) ∧
      ∀ conn o r, .call k c (.answers (.handler conn o) r) ∉ events
  replies : ∀ reply, x = .success reply → q.Returns reply
  created : ∀ payload u, q = .httpCreate payload → x = .success (.user u) →
    UserSchema.encodes u = true

/-- Each call that has ended conforms to what it asked for. -/
def AnswersDeclared (events : List (DeploymentEvent U)) : Prop :=
  ∀ k c q x, Asked events k c q → .call k c (.ends x) ∈ events → Conforms events k c q x

/-- The worker keeps to its contract: an expected error is one that the endpoint
of the call declares, with what the call asked for in it and fit to be encoded,
or the middleware's own, and then no statement was made; a reply is of the kind
that was asked for, and a created user can be encoded. -/
theorem deployment_answersDeclared (h : Deployment.Run string t₀ events d) :
    AnswersDeclared events := by
  intro k c q x hq hx
  obtain ⟨log, w, hr, hsim⟩ := deployment_simulates h
  rcases projects_ends h hsim.projects hx with
    ⟨cause, rfl, hrefusal, hnone⟩ | ⟨x', rfl, hreturned⟩
  · refine ⟨fun cause' error hcause herror => .inr ⟨?_, hnone⟩, fun _ hreply => (by cases hreply),
      fun _ _ _ hu => (by cases hu)⟩
    cases hcause
    exact hrefusal error herror
  have hstarted := returned_started h hsim.projects hr hq hreturned
  have hconforms := returned_conforms hr hstarted hreturned
  have hreplies : ∀ reply, (x'.mapFail .inr : Exit (CallError ApiError) U Reply) = .success reply →
      q.Returns reply := fun reply hreply => hconforms.replies reply (mapFail_eq_success hreply)
  refine ⟨fun cause error hcause herror => .inl ?_, hreplies, fun payload u hq hu => ?_⟩
  · cases x' with
    | success reply => cases hcause
    | failure cause' =>
      cases hcause
      rw [Cause.failureOption_map, Option.map_eq_some_iff] at herror
      obtain ⟨e, he, rfl⟩ := herror
      have hdeclares := hconforms.errors cause' e rfl he
      exact ⟨e, rfl, hdeclares, declares_encodes hdeclares⟩
  · subst hq
    exact created_encodes (hreplies _ hu)

end Contract

theorem deployment_answersDeclared_annServed : ∃ events : List (DeploymentEvent String),
    AnnServed events ∧ AnswersDeclared events := by
  obtain ⟨events, d, hrun, -, hserved⟩ := annServed_run (U := String) fun _ => "refused"
  exact ⟨events, hserved, deployment_answersDeclared hrun⟩

end EffectWorker.Fetch
