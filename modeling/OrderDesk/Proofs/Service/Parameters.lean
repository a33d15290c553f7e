import OrderDesk.Proofs.Api.Parameters
import OrderDesk.Proofs.Service.Lookups

/-!
Requests that ask for no page, and requests that cannot be read. The service answers them by itself: it
takes no step at the desk but a note, so nothing is looked up, stored, cached or counted for them.
-/

namespace OrderDesk

namespace Api

variable {q : Request} {route : Route} {p : Access Response}

theorem respond_of_program? (exposure : Exposure) (d : Desk) (h : program? q = some p) :
    ∃ body, respond exposure q d = ({ (p.run d).1 with body := body }, (p.run d).2) := by
  unfold program? at h
  split at h
  case isFalse => cases h
  case isTrue hm =>
    have hget (id : Route) (hroute : Route.ofPath? q.target.path = some id)
        (hrun : get exposure d q.target.query id = p.run d) :
        ∃ body, respond exposure q d = ({ (p.run d).1 with body := body }, (p.run d).2) := by
      simp only [respond, hroute]
      split
      · exact ⟨_, hrun⟩
      · rename_i hnot
        rw [if_pos (hm.resolve_left hnot), hrun]
        exact ⟨_, rfl⟩
    split at h
    · obtain rfl := Option.some.inj h
      exact hget _ ‹_› rfl
    · obtain rfl := Option.some.inj h
      exact hget _ ‹_› rfl
    · cases h

theorem program?_order {id : List Char} (hm : q.method = "GET" ∨ q.method = "HEAD")
    (hroute : Route.ofPath? q.target.path = some (.order id)) : program? q = some (getOrder id) := by
  rw [program?, if_pos hm, hroute]

theorem program?_items {id : List Char} (hm : q.method = "GET" ∨ q.method = "HEAD")
    (hroute : Route.ofPath? q.target.path = some (.items id)) :
    program? q = some (getItems id q.target.query) := by
  rw [program?, if_pos hm, hroute]

theorem program?_of_rejected (hm : q.method = "GET" ∨ q.method = "HEAD")
    (hroute : Route.ofPath? q.target.path = some route) (h : Rejected q.target.query route) :
    program? q = some (fail .badRequest) := by
  cases route with
  | order id => rw [program?_order hm hroute, getOrder_of_rejected h]
  | items id => rw [program?_items hm hroute, getItems_of_rejected h]
  | health | metrics => exact h.elim

theorem program?_of_refused (hm : q.method = "GET" ∨ q.method = "HEAD")
    (hroute : Route.ofPath? q.target.path = some route) (h : Refused q.target.query route) :
    ∃ text, program? q = some (pure (.plain 400 text)) := by
  cases route with
  | order id =>
    obtain ⟨text, htext⟩ := exists_of_refused_order h
    exact ⟨text, by rw [program?_order hm hroute, htext]⟩
  | items id =>
    obtain ⟨text, htext⟩ := exists_of_refused_items h
    exact ⟨text, by rw [program?_items hm hroute, htext]⟩
  | health | metrics => exact h.elim

end Api

namespace Service

structure ChecksParameters (s : Service) : Prop where
  /-- A blank id, or parameters that ask for no page, are answered with a failure that is noted. -/
  rejected : ∀ method uri q route, Api.Request.ofStrings? method uri = some q →
    (q.method = "GET" ∨ q.method = "HEAD") → Api.Route.ofPath? q.target.path = some route →
    Api.Rejected q.target.query route →
      (∃ p, Api.program? q = some p ∧ p.steps s.desk = [⟨Unit, .note Api.clientError⟩]) ∧
        ∃ r, s.perform (.request method uri) =
          (.response r, s.withDesk (·.note Api.clientError)) ∧ r.status = 400
  /-- What cannot be read as an id or as parameters is answered without a step. -/
  refused : ∀ method uri q route, Api.Request.ofStrings? method uri = some q →
    (q.method = "GET" ∨ q.method = "HEAD") → Api.Route.ofPath? q.target.path = some route →
    Api.Refused q.target.query route →
      (∃ p, Api.program? q = some p ∧ p.steps s.desk = []) ∧
        ∃ r, s.perform (.request method uri) = (.response r, s) ∧ r.status = 400
  /-- All other pages are read with the cursor and the limit that are asked for. -/
  served : ∀ method uri q id, Api.Request.ofStrings? method uri = some q →
    (q.method = "GET" ∨ q.method = "HEAD") → Api.Route.ofPath? q.target.path = some (.items id) →
    ¬ Api.Refused q.target.query (.items id) → ¬ Api.Rejected q.target.query (.items id) →
      ∃ uid page last limit, Api.segmentText? id = some uid ∧
        Api.pageQuery (Api.formPairs q.target.query) = .ok page ∧ page.Asks last limit ∧
        (0 ≤ last ∧ 1 ≤ limit ∧ limit ≤ 100) ∧
        Api.program? q = some (Api.answer Wire.itemsText (Desk.readItems uid last limit))

theorem perform_request (s : Service) {method uri : String} {q : Api.Request} {p : Access Api.Response}
    (hq : Api.Request.ofStrings? method uri = some q) (hp : Api.program? q = some p) :
    ∃ body, s.perform (.request method uri) =
      (.response { (p.run s.desk).1 with body := body }, s.withDesk fun _ => (p.run s.desk).2) := by
  obtain ⟨body, hbody⟩ := Api.respond_of_program? s.exposure s.desk hp
  refine ⟨body, ?_⟩
  have hrequest : s.perform (.request method uri) =
      (.response (Api.respond s.exposure q s.desk).1,
        s.withDesk fun _ => (Api.respond s.exposure q s.desk).2) := by
    simp only [perform, hq, desk]
  rw [hrequest, hbody]

theorem checksParameters (s : Service) : s.ChecksParameters where
  rejected method uri q route hq hm hroute h := by
    have hp := Api.program?_of_rejected hm hroute h
    obtain ⟨body, hperform⟩ := s.perform_request hq hp
    rw [Api.run_fail_badRequest] at hperform
    exact ⟨⟨_, hp, Api.steps_fail_badRequest s.desk⟩, _, hperform, rfl⟩
  refused method uri q route hq hm hroute h := by
    obtain ⟨text, hp⟩ := Api.program?_of_refused hm hroute h
    obtain ⟨body, hperform⟩ := s.perform_request hq hp
    exact ⟨⟨_, hp, rfl⟩, _, hperform, rfl⟩
  served method uri q id hq hm hroute hrefused hrejected := by
    obtain ⟨uid, page, last, limit, hid, hpage, hasks, hget⟩ :=
      Api.exists_page_of_served hrefused hrejected
    have hbounds := page.exact.bounds last limit (Api.PageQuery.page_eq_ok_iff.2 hasks)
    refine ⟨uid, page, last, limit, hid, hpage, hasks, hbounds, ?_⟩
    rw [Api.program?_items hm hroute, hget]

/-- In every state, requests are served for exactly the pages that their parameters ask for, and those
that ask for none do nothing but note it. -/
theorem parameters_checked (s : Service) (q : Api.PageQuery) : q.Exact ∧ s.ChecksParameters :=
  ⟨q.exact, s.checksParameters⟩

theorem parameters_checked_sample :
    let s := start .standard false false
    (⟨some "+0250", some "-00"⟩ : Api.PageQuery).page = .ok (0, 100) ∧
      ∃ r, s.perform (.request "HEAD" "/api/orders/abc/items?last_id=%2B007&limit=-1") =
        (.response r, s.withDesk (·.note Api.clientError)) ∧ r.status = 400 := by
  intro s
  obtain ⟨hexact, hchecks⟩ := s.parameters_checked ⟨some "+0250", some "-00"⟩
  have hrejected : Api.Rejected "last_id=%2B007&limit=-1".toList (.items "abc".toList) := by
    have hpage : (⟨some "-1", some "+007"⟩ : Api.PageQuery).page = .error .badRequest := by
      decide +kernel
    exact ⟨"abc", ⟨some "-1", some "+007"⟩, by decide +kernel, by decide +kernel,
      .inr (Api.PageQuery.page_eq_error_iff.1 hpage).2⟩
  have hrequest := hchecks.rejected "HEAD" "/api/orders/abc/items?last_id=%2B007&limit=-1"
    ⟨"HEAD", "/api/orders/abc/items".toList, "last_id=%2B007&limit=-1".toList⟩ (.items "abc".toList)
    (by decide +kernel) (.inr rfl) (by decide +kernel) hrejected
  refine ⟨(hexact.ok_iff 0 100).2 ⟨?_, ?_⟩, hrequest.2⟩
  · exact Api.PageQuery.asksCursor_iff.2 (by decide +kernel)
  · exact Api.PageQuery.asksLimit_iff.2 ⟨250, by decide +kernel, by decide⟩

end Service
end OrderDesk
