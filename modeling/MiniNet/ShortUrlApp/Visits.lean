import MiniNet.ShortUrlApp

/-!
# What a visit does

Over all routes there are three things a visit can do to the store and to the
response: issue a link, follow one, or neither.  From this follows what any
sequence of visits leaves in the store.
-/

namespace MiniNet

open Bytes Serial ShortUrlService

namespace ShortUrlApp

/-- The url that a request asks to shorten, if the request is accepted. -/
def acceptedUrl (req : HttpRequest) : Option Bytes :=
  if req.path = lit "/api/shorten" ∧ req.method = lit "POST" then
    match jsonExtractString req.body (lit "url") with
    | .ok url => if (validUrl url).isOk then some url else none
    | .error _ => none
  else none

/-- The urls accepted in a sequence of visits, in order. -/
def accepted (visits : List Visit) : List Bytes :=
  visits.filterMap fun v => acceptedUrl v.req

/-- A response that is neither a new link nor a redirect. -/
structure Plain (resp : HttpResponse) : Prop where
  status : resp.status = 200 ∨ resp.status = 400 ∨ resp.status = 404 ∨
    resp.status = 405
  contentType : resp.contentType = lit "text/plain; charset=utf-8" ∨
    resp.contentType = lit "application/json; charset=utf-8"
  extraHeaders : resp.extraHeaders = [] ∨
    resp.extraHeaders = [(lit "Allow", lit "GET")] ∨
    resp.extraHeaders = [(lit "Allow", lit "POST")]

private theorem plain_badRequest (keepAlive : Bool) (code detail : Bytes) :
    Plain (badRequest { keepAlive } code detail) :=
  ⟨.inr (.inl rfl), .inr rfl, .inl rfl⟩

private theorem plain_notFound (keepAlive : Bool) :
    Plain (notFound { keepAlive }) :=
  ⟨.inr (.inr (.inl rfl)), .inr rfl, .inl rfl⟩

private theorem plain_notAllowed_get (keepAlive : Bool) (detail : String) :
    Plain (methodNotAllowed { keepAlive } "GET" detail) :=
  ⟨.inr (.inr (.inr rfl)), .inr rfl, .inr (.inl rfl)⟩

private theorem plain_notAllowed_post (keepAlive : Bool) (detail : String) :
    Plain (methodNotAllowed { keepAlive } "POST" detail) :=
  ⟨.inr (.inr (.inr rfl)), .inr rfl, .inr (.inr rfl)⟩

private theorem plain_handleStats (app : ShortUrlApp) (code : Bytes)
    (keepAlive : Bool) : Plain (handleStats app code { keepAlive }) := by
  unfold handleStats
  split
  · exact plain_badRequest keepAlive _ _
  · split
    · exact plain_notFound keepAlive
    · exact ⟨.inl rfl, .inr rfl, .inl rfl⟩

theorem visit_shorten (app : ShortUrlApp) {v : Visit} (path : v.req.path = lit "/api/shorten")
    (post : v.req.method = lit "POST") :
    visit app v = handleShorten app v.env v.req { keepAlive := v.keepAlive } := by
  have notHealth : lit "/api/shorten" ≠ lit "/healthz" := by decide
  have notMetrics : lit "/api/shorten" ≠ lit "/metrics" := by decide
  rw [visit, handle, path, post, if_neg notHealth, if_neg notMetrics, if_pos rfl,
    if_neg (not_not.mpr rfl)]

/-- An accepted request is answered as soon as `shorten` returns. -/
theorem visit_accepted (app : ShortUrlApp) {v : Visit} {url : Bytes}
    (asked : acceptedUrl v.req = some url) :
    visit app v = (app.service.shorten url v.env.now).map fun (service, code) =>
      ({ app with service }, created { keepAlive := v.keepAlive } app.host code url) := by
  unfold acceptedUrl at asked
  split at asked
  · rename_i route
    split at asked
    · rename_i other decoded
      split at asked
      · rename_i valid
        cases asked
        rw [visit_shorten app route.1 route.2, handleShorten, decoded]
        cases checked : validUrl url with
        | error err =>
            rw [checked] at valid
            cases valid
        | ok _ => simp only [checked]
      · cases asked
    · cases asked
  · cases asked

/-- What a visit can do: issue a link, follow a link, or neither. -/
inductive Visited (app : ShortUrlApp) (v : Visit) :
    ShortUrlApp → HttpResponse → Prop where
  | link {url code : Bytes} {service : ShortUrlService}
      (asked : acceptedUrl v.req = some url)
      (shortened : app.service.shorten url v.env.now = some (service, code)) :
      Visited app v { app with service }
        (created { keepAlive := v.keepAlive } app.host code url)
  | redirect {code : Bytes} {entry : Entry} {service : ShortUrlService}
      (asked : acceptedUrl v.req = none)
      (found : app.service.lookup code = (service, some entry)) :
      Visited app v { app with service }
        (redirect { keepAlive := v.keepAlive } entry.url)
  | plain {resp : HttpResponse} (asked : acceptedUrl v.req = none)
      (plain : Plain resp) : Visited app v app resp

private theorem visited_redirect {app : ShortUrlApp} {v : Visit} (code : Bytes)
    (asked : acceptedUrl v.req = none) :
    Visited app v (handleRedirect app code { keepAlive := v.keepAlive }).1
      (handleRedirect app code { keepAlive := v.keepAlive }).2 := by
  unfold handleRedirect
  split
  · exact .plain asked (plain_badRequest v.keepAlive _ _)
  · split
    · rename_i service missed
      have same : service = app.service := by
        unfold ShortUrlService.lookup at missed
        split at missed <;> cases missed
        rfl
      rw [same]
      exact .plain asked (plain_notFound v.keepAlive)
    · rename_i service entry found
      exact .redirect asked found

theorem visit_visited {app later : ShortUrlApp} {v : Visit} {resp : HttpResponse}
    (answered : visit app v = some (later, resp)) : Visited app v later resp := by
  unfold visit handle at answered
  by_cases posted : v.req.path = lit "/api/shorten"
  · have notHealth : lit "/api/shorten" ≠ lit "/healthz" := by decide
    have notMetrics : lit "/api/shorten" ≠ lit "/metrics" := by decide
    rw [posted, if_neg notHealth, if_neg notMetrics, if_pos rfl] at answered
    split at answered
    · rename_i other
      cases answered
      refine .plain ?_ (plain_notAllowed_post v.keepAlive _)
      simp [acceptedUrl, other]
    · rename_i post
      have route : v.req.path = lit "/api/shorten" ∧ v.req.method = lit "POST" :=
        ⟨posted, not_not.mp post⟩
      unfold handleShorten at answered
      split at answered
      · rename_i err failed
        cases answered
        refine .plain ?_ (plain_badRequest v.keepAlive _ _)
        simp [acceptedUrl, failed]
      · rename_i url decoded
        split at answered
        · rename_i err invalid
          cases answered
          refine .plain ?_ (plain_badRequest v.keepAlive _ _)
          simp [acceptedUrl, decoded, invalid, Except.isOk, Except.toBool]
        · rename_i valid
          obtain ⟨⟨service, code⟩, shortened, equal⟩ :=
            Option.map_eq_some_iff.mp answered
          cases equal
          refine .link ?_ shortened
          simp [acceptedUrl, route, decoded, valid, Except.isOk, Except.toBool]
  · have asked : acceptedUrl v.req = none := by simp [acceptedUrl, posted]
    rw [if_neg posted] at answered
    split at answered
    · split at answered <;> cases answered
      · exact .plain asked (plain_notAllowed_get v.keepAlive _)
      · exact .plain asked ⟨.inl rfl, .inl rfl, .inl rfl⟩
    · split at answered
      · split at answered <;> cases answered
        · exact .plain asked (plain_notAllowed_get v.keepAlive _)
        · exact .plain asked ⟨.inl rfl, .inl rfl, .inl rfl⟩
      · split at answered
        · split at answered <;> cases answered
          · exact .plain asked (plain_notAllowed_get v.keepAlive _)
          · exact .plain asked (plain_handleStats app _ v.keepAlive)
        · split at answered
          · split at answered
            · cases answered
              exact .plain asked (plain_notAllowed_get v.keepAlive _)
            · obtain ⟨rfl, rfl⟩ := Prod.ext_iff.mp (Option.some.inj answered)
              exact visited_redirect _ asked
          · cases answered
            exact .plain asked (plain_notFound v.keepAlive)

/-! ## Sequences of visits -/

theorem accepted_concat (visits : List Visit) (v : Visit) :
    accepted (visits ++ [v]) = accepted visits ++ (acceptedUrl v.req).toList := by
  simp only [accepted, List.filterMap_append, List.filterMap_cons,
    List.filterMap_nil]
  cases acceptedUrl v.req <;> rfl

theorem consistent_visit {visits : List Visit} {app later : ShortUrlApp}
    {v : Visit} {resp : HttpResponse}
    (consistent : Consistent (accepted visits) app.service)
    (answered : visit app v = some (later, resp)) :
    Consistent (accepted (visits ++ [v])) later.service ∧
      Extends app.service later.service ∧ later.host = app.host := by
  rw [accepted_concat]
  cases visit_visited answered with
  | link asked shortened =>
      rw [asked]
      exact ⟨consistent.shorten shortened, (Extends.shorten shortened).1, rfl⟩
  | @redirect code entry service asked found =>
      obtain ⟨kept, grown⟩ := consistent.lookup code
      rw [found] at kept grown
      rw [asked]
      exact ⟨by simpa using kept, grown, rfl⟩
  | plain asked _ =>
      rw [asked]
      exact ⟨by simpa using consistent, Extends.refl _, rfl⟩

/-- The application after the visits of a trace. -/
def Holds (host : Bytes) (trace : List (Visit × HttpResponse))
    (app : ShortUrlApp) : Prop :=
  Consistent (accepted (trace.map Prod.fst)) app.service ∧ app.host = host

theorem holds_empty (host : Bytes) : Holds host [] { host } :=
  ⟨consistent_empty, rfl⟩

theorem Holds.visit {host : Bytes} {past : List (Visit × HttpResponse)}
    {app later : ShortUrlApp} {v : Visit} {resp : HttpResponse}
    (holds : Holds host past app) (answered : app.visit v = some (later, resp)) :
    Holds host (past ++ [(v, resp)]) later := by
  obtain ⟨consistent, sameHost⟩ := holds
  obtain ⟨next, _, kept⟩ := consistent_visit consistent answered
  rw [Holds, List.map_append]
  exact ⟨next, kept.trans sameHost⟩

/-- The store after any sequence of visits. -/
theorem consistent_run {host : Bytes} {visits : List Visit} {app : ShortUrlApp}
    {trace : List (Visit × HttpResponse)}
    (ran : Machine.run visit { host } visits = some (app, trace)) :
    Consistent (accepted visits) app.service ∧ app.host = host := by
  rw [← Machine.map_fst_run ran]
  exact Machine.run_induct (motive := Holds host)
    (fun _ _ _ _ _ holds answered => holds.visit answered) (holds_empty host) ran

theorem run_visit_extends {visits more : List Visit} {app later : ShortUrlApp}
    {trace : List (Visit × HttpResponse)}
    (consistent : Consistent (accepted visits) app.service)
    (ran : Machine.run visit app more = some (later, trace)) :
    Extends app.service later.service := by
  have kept : ∃ visits, Consistent (accepted visits) later.service ∧
      Extends app.service later.service := by
    refine Machine.run_induct (motive := fun _ later =>
      ∃ visits, Consistent (accepted visits) later.service ∧
        Extends app.service later.service) ?_
      ⟨visits, consistent, .refl _⟩ ran
    rintro past m v next resp ⟨visits, consistent, grown⟩ answered
    obtain ⟨kept, more, _⟩ := consistent_visit consistent answered
    exact ⟨_, kept, grown.trans more⟩
  obtain ⟨_, _, grown⟩ := kept
  exact grown

/-- As long as there is room in the counter, every request is answered. -/
theorem exists_visit {urls : List Bytes} {app : ShortUrlApp}
    (consistent : Consistent urls app.service)
    (room : app.service.size + 1 < 2 ^ 64) (v : Visit) :
    ∃ later resp, visit app v = some (later, resp) := by
  have links : ∃ later resp, handleShorten app v.env v.req
      { keepAlive := v.keepAlive } = some (later, resp) := by
    unfold handleShorten
    split
    · exact ⟨_, _, rfl⟩
    · rename_i url _
      split
      · exact ⟨_, _, rfl⟩
      · obtain ⟨service, code, done⟩ :=
          consistent.exists_shorten (Nat.lt_of_succ_lt room) url v.env.now
        rw [done]
        exact ⟨_, _, rfl⟩
  -- only `/api/shorten` can fail to answer; the routes are gone through in order
  unfold visit handle
  split
  · split <;> exact ⟨_, _, rfl⟩
  · split
    · split <;> exact ⟨_, _, rfl⟩
    · split
      · split
        · exact ⟨_, _, rfl⟩
        · exact links
      · split
        · split <;> exact ⟨_, _, rfl⟩
        · split
          · split <;> exact ⟨_, _, rfl⟩
          · exact ⟨_, _, rfl⟩

/-- Every sequence of fewer than `2 ^ 64` requests is answered. -/
theorem run_visit_total (host : Bytes) (visits : List Visit)
    (few : visits.length < 2 ^ 64) :
    ∃ app trace, Machine.run visit { host } visits = some (app, trace) := by
  have next : ∀ past app v, past.length < 2 ^ 64 - 1 → Holds host past app →
      ∃ later resp, visit app v = some (later, resp) ∧
        Holds host (past ++ [(v, resp)]) later := by
    intro past app v short holds
    have atMost : app.service.size ≤ past.length := by
      rw [holds.1.size]
      calc
        _ ≤ (accepted (past.map Prod.fst)).length := List.toFinset_card_le _
        _ ≤ (past.map Prod.fst).length := List.length_filterMap_le _ _
        _ = past.length := List.length_map _
    obtain ⟨later, resp, answered⟩ := exists_visit holds.1 (by omega) v
    exact ⟨later, resp, answered, holds.visit answered⟩
  obtain ⟨app, trace, ran, _⟩ := Machine.run_total next (holds_empty host) visits
    (Nat.le_sub_one_of_lt few)
  exact ⟨app, trace, ran⟩

end ShortUrlApp

end MiniNet
