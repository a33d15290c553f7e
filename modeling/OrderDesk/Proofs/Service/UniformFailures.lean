import OrderDesk.Proofs.Api.Answers
import OrderDesk.Service.Basic

/-!
Failures that clients of the service see. They have one form, an object of the status and the message
of the kind, unless the request is refused for the bytes of its id or for a parameter given twice.
-/

namespace OrderDesk

theorem Api.Request.method_of_ofStrings? {method uri : String} {q : Api.Request}
    (h : Api.Request.ofStrings? method uri = some q) : q.method = method := by
  unfold Request.ofStrings? at h
  split at h
  · obtain ⟨target, -, rfl⟩ := Option.map_eq_some_iff.1 h
    rfl
  · cases h

namespace Service

variable {uri : String} {q : Api.Request} {route : Api.Route}

theorem perform_get (s : Service) (hq : Api.Request.ofStrings? "GET" uri = some q)
    (hroute : Api.Route.ofPath? q.target.path = some route) :
    s.perform (.request "GET" uri) =
      (.response (Api.get s.exposure s.pipeline.desk q.target.query route).1,
        s.withDesk fun _ => (Api.get s.exposure s.pipeline.desk q.target.query route).2) := by
  have hmethod := Api.Request.method_of_ofStrings? hq
  simp only [perform, hq, Api.respond, hroute, hmethod, if_true]

theorem exists_text_of_refused (s : Service) (hq : Api.Request.ofStrings? "GET" uri = some q)
    (hroute : Api.Route.ofPath? q.target.path = some route)
    (hrefused : Api.Refused q.target.query route) :
    ∃ text, (s.perform (.request "GET" uri)).1 = .response (.plain 400 text) := by
  rw [s.perform_get hq hroute]
  rcases Api.get_cases s.exposure s.pipeline.desk q.target.query route with
    ⟨-, text, he⟩ | ⟨hserved, -⟩
  · exact ⟨text, congrArg Answer.response he⟩
  · exact absurd hrefused hserved

/-- In every state, a failure has the one form if and only if the request is not refused, and a refusal
is a text. -/
theorem failures_uniform_iff (s : Service) (uri : String) (q : Api.Request) (route : Api.Route)
    (hq : Api.Request.ofStrings? "GET" uri = some q)
    (hroute : Api.Route.ofPath? q.target.path = some route) :
    ∃ r, (s.perform (.request "GET" uri)).1 = .response r ∧
      ((r.status ≠ 200 → r.Uniform) ↔ ¬ Api.Refused q.target.query route) ∧
      (Api.Refused q.target.query route → ∃ text, r = .plain 400 text) := by
  by_cases hrefused : Api.Refused q.target.query route
  · obtain ⟨text, he⟩ := s.exists_text_of_refused hq hroute hrefused
    have hnot : ¬ ((Api.Response.plain 400 text).status ≠ 200 →
        (Api.Response.plain 400 text).Uniform) := fun h =>
      Api.Response.not_uniform_plain 400 text (h (show 400 ≠ 200 by decide))
    exact ⟨_, he, iff_of_false hnot (not_not_intro hrefused), fun _ => ⟨text, rfl⟩⟩
  · have hform := (Api.get_cases s.exposure s.pipeline.desk q.target.query route).resolve_left
      fun h => hrefused h.1
    refine ⟨_, congrArg Prod.fst (s.perform_get hq hroute), ?_, fun h => absurd h hrefused⟩
    exact iff_of_true hform.2.resolve_left hrefused

theorem failures_uniform_sample :
    let s := ((start .standard false false).performAll [.failReads (some (.storage "down"))]).2
    ∃ r, (s.perform (.request "GET" "/api/orders/abc/items?limit=5&a=1&a=2")).1 = .response r ∧
      r.status = 500 ∧ r.Uniform := by
  intro s
  have hserved : ¬ Api.Refused "limit=5&a=1&a=2".toList (.items "abc".toList) := by
    simp only [Api.Refused]
    decide +kernel
  obtain ⟨r, hr, hiff, -⟩ := s.failures_uniform_iff "/api/orders/abc/items?limit=5&a=1&a=2"
    ⟨"GET", "/api/orders/abc/items".toList, "limit=5&a=1&a=2".toList⟩ (.items "abc".toList)
    (by decide +kernel) (by decide +kernel)
  have hstatus : r.status = 500 := by
    obtain rfl := Answer.response.inj hr
    decide +kernel
  exact ⟨r, hr, hstatus, hiff.2 hserved (by rw [hstatus]; decide)⟩

/-- An id whose bytes are no text is refused without the form, and so is a limit that is given twice. -/
theorem refusals_not_uniform :
    let s := start .standard false false
    (∃ r, (s.perform (.request "GET" "/api/orders/%FF")).1 = .response r ∧
      r.status = 400 ∧ ¬ r.Uniform) ∧
    ∃ r, (s.perform (.request "GET" "/api/orders/abc/items?limit=1&limit=2")).1 = .response r ∧
      r.status = 400 ∧ ¬ r.Uniform := by
  intro s
  have hid : Api.Refused [] (.order "%FF".toList) := by
    simp only [Api.Refused]
    decide +kernel
  have hlimit : Api.Refused "limit=1&limit=2".toList (.items "abc".toList) := by
    simp only [Api.Refused]
    decide +kernel
  have hidRequest : Api.Request.ofStrings? "GET" "/api/orders/%FF" =
      some ⟨"GET", "/api/orders/%FF".toList, []⟩ := by decide +kernel
  have hlimitRequest : Api.Request.ofStrings? "GET" "/api/orders/abc/items?limit=1&limit=2" =
      some ⟨"GET", "/api/orders/abc/items".toList, "limit=1&limit=2".toList⟩ := by decide +kernel
  obtain ⟨idText, hidText⟩ := s.exists_text_of_refused hidRequest (by decide +kernel) hid
  obtain ⟨limitText, hlimitText⟩ :=
    s.exists_text_of_refused hlimitRequest (by decide +kernel) hlimit
  exact ⟨⟨_, hidText, rfl, Api.Response.not_uniform_plain 400 idText⟩, _, hlimitText, rfl,
    Api.Response.not_uniform_plain 400 limitText⟩

end Service

end OrderDesk
