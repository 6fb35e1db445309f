import MiniNet.Lib.Linearizability
import MiniNet.ShortUrlApp.Frame
import MiniNet.ShortUrlApp.Stats

/-!
# Requests that overlap

The loops of the server call `handle` at the same time, on one application.
A request calls the service at most once, and the service does its work under a
lock; all the rest of `handle` is local.  So requests that overlap are
linearizable: their responses are those of the same requests one after the
other, in an order that respects which of them had responded before which was
begun.  What is known about sequences of visits is then true of overlapping
requests.

The text of `/metrics` is not read under the lock; it is an input of the visit.
-/

namespace MiniNet

open Bytes ShortUrlService Linearizability

namespace ShortUrlApp

/-! ## The call of a request -/

def planShorten (host : Bytes) (env : Env) (req : HttpRequest) (resp : HttpResponse) :
    Plan Call Reply HttpResponse :=
  match jsonExtractString req.body (lit "url") with
  | .error err => .answer (badRequest resp (lit "invalid_url") err)
  | .ok url =>
      match validUrl url with
      | .error err => .answer (badRequest resp (lit "invalid_url") err)
      | .ok () => .ask (.shorten url env.now) fun
          | .code code => created resp host code url
          | _ => resp

def planRedirect (code : Bytes) (resp : HttpResponse) : Plan Call Reply HttpResponse :=
  if !validCode code then
    .answer (badRequest resp (lit "invalid_code") (lit "短码只允许 1-8 位字母数字"))
  else .ask (.lookup code) fun
    | .entry (some entry) => redirect resp entry.url
    | _ => notFound resp

def statsBody (code : Bytes) (entry : Entry) : Bytes :=
  snprintf 512
    (lit "\x7b\"code\":\"" ++ cStr code ++ lit "\",\"url\":\"" ++
      cStr entry.url ++ lit "\",\"hits\":" ++ decimal entry.hits.toNat ++
      lit ",\"created_at\":" ++ decimalInt entry.createdAt ++ lit "\x7d")

def planStats (code : Bytes) (resp : HttpResponse) : Plan Call Reply HttpResponse :=
  if !validCode code then
    .answer (badRequest resp (lit "invalid_code") (lit "短码只允许 1-8 位字母数字"))
  else .ask (.stats code) fun
    | .entry (some entry) => resp.setJson (statsBody code entry)
    | _ => notFound resp

/-- `handle`, taken apart at the call of the service. -/
def plan (host : Bytes) (v : Visit) : Plan Call Reply HttpResponse :=
  let resp : HttpResponse := { keepAlive := v.keepAlive }
  if v.req.path = lit "/healthz" then
    if v.req.method ≠ lit "GET" then
      .answer (methodNotAllowed resp "GET" "/healthz 只支持 GET")
    else .answer { resp with body := lit "ok" }
  else if v.req.path = lit "/metrics" then
    if v.req.method ≠ lit "GET" then
      .answer (methodNotAllowed resp "GET" "/metrics 只支持 GET")
    else
      .answer { resp with
        contentType := lit "text/plain; charset=utf-8"
        body := v.env.metricsSource.getD [] }
  else if v.req.path = lit "/api/shorten" then
    if v.req.method ≠ lit "POST" then
      .answer (methodNotAllowed resp "POST" "/api/shorten 只支持 POST")
    else planShorten host v.env v.req resp
  else if startsWith v.req.path statsPrefix then
    if v.req.method ≠ lit "GET" then
      .answer (methodNotAllowed resp "GET" "该接口只支持 GET")
    else planStats (v.req.path.drop statsPrefix.length) resp
  else if v.req.path.head? = some 47 ∧ v.req.path.length > 1 then
    if v.req.method ≠ lit "GET" then
      .answer (methodNotAllowed resp "GET" "短链跳转只支持 GET")
    else planRedirect (v.req.path.drop 1) resp
  else .answer (notFound resp)

/-- A request as the lock lets it happen: the call of the service is one step. -/
def serve (host : Bytes) (service : ShortUrlService) (v : Visit) :
    Option (ShortUrlService × HttpResponse) :=
  (plan host v).perform ShortUrlService.call service

/-- The application with another service. -/
def withService (host : Bytes) : ShortUrlService × HttpResponse → ShortUrlApp × HttpResponse :=
  fun (service, resp) => ({ host, service }, resp)

theorem perform_planShorten (app : ShortUrlApp) (env : Env) (req : HttpRequest)
    (resp : HttpResponse) :
    handleShorten app env req resp =
      ((planShorten app.host env req resp).perform ShortUrlService.call app.service).map
        (withService app.host) := by
  unfold handleShorten planShorten
  cases jsonExtractString req.body (lit "url") with
  | error err => rfl
  | ok url =>
      cases checked : validUrl url with
      | error err =>
          simp only [checked]
          rfl
      | ok _ =>
          simp only [checked, Plan.perform, ShortUrlService.call, Option.map_map]
          rfl

theorem perform_planRedirect (app : ShortUrlApp) (code : Bytes) (resp : HttpResponse) :
    some (handleRedirect app code resp) =
      ((planRedirect code resp).perform ShortUrlService.call app.service).map
        (withService app.host) := by
  unfold handleRedirect planRedirect
  split
  · rfl
  · split
    · rename_i service found
      rw [Plan.perform, ShortUrlService.call, found]
      rfl
    · rename_i service entry found
      rw [Plan.perform, ShortUrlService.call, found]
      rfl

theorem perform_planStats (app : ShortUrlApp) (code : Bytes) (resp : HttpResponse) :
    some (app, handleStats app code resp) =
      ((planStats code resp).perform ShortUrlService.call app.service).map
        (withService app.host) := by
  unfold handleStats planStats
  split
  · rfl
  · split
    · rename_i found
      rw [Plan.perform, ShortUrlService.call, found]
      rfl
    · rename_i entry found
      rw [Plan.perform, ShortUrlService.call, found]
      rfl

/-- `handle` calls the service at most once. -/
theorem visit_eq_serve (app : ShortUrlApp) (v : Visit) :
    visit app v = (serve app.host app.service v).map (withService app.host) := by
  unfold visit handle serve plan
  split
  · split <;> rfl
  · split
    · split <;> rfl
    · split
      · split
        · rfl
        · exact perform_planShorten app v.env v.req _
      · split
        · split
          · rfl
          · exact perform_planStats app _ _
        · split
          · split
            · rfl
            · exact perform_planRedirect app _ _
          · rfl

theorem run_visit_of_serve {host : Bytes} {service later : ShortUrlService}
    {visits : List Visit} {trace : List (Visit × HttpResponse)}
    (ran : Machine.run (serve host) service visits = some (later, trace)) :
    Machine.run visit { host, service } visits = some ({ host, service := later }, trace) := by
  induction visits generalizing service trace with
  | nil =>
      cases ran
      rfl
  | cons v visits ih =>
      obtain ⟨m, resp, rest, served, continued, rfl⟩ := Machine.run_cons_eq_some.mp ran
      refine Machine.run_cons_eq_some.mpr ⟨_, resp, rest, ?_, ih continued, rfl⟩
      rw [visit_eq_serve, served]
      rfl

/-- In every interleaving of requests, the responses are those of the requests
one after the other, in an order in which a request that has been answered
before another one was begun comes first. -/
theorem run_linearizable (host : Bytes) (actions : List (Action Visit))
    (s : State ShortUrlService Visit HttpResponse)
    (trace : List (Action Visit × List (Event Visit HttpResponse)))
    (ran : Machine.run (step (serve host)) { object := {} } actions = some (s, trace)) :
    ∃ order, Linearizes visit { host } { host, service := s.object }
      (trace.flatMap Prod.snd) order := by
  obtain ⟨order, linearizes⟩ := exists_linearizes ran
  exact ⟨order, { linearizes with legal := run_visit_of_serve linearizes.legal }⟩

/-! ## Two overlapping posts -/

/-- The redirect and the statistics of the link that `postLink` makes. -/
def getLink : Visit := { req := { method := lit "GET", path := lit "/V0q" } }

def askStats : Visit := { req := { method := lit "GET", path := lit "/api/stats/V0q" } }

/-- Two posts of the same url overlap, and the second one calls the service
first; then the link is followed and the hits are asked for. -/
def overlap : List (Action Visit) :=
  [.invoke postLink, .invoke postLink, .perform 1, .perform 0, .respond 0,
    .invoke getLink, .perform 2, .respond 1, .respond 2, .invoke askStats, .perform 3,
    .respond 3]

def overlapHistory : List (Event Visit HttpResponse) :=
  let issued := created {} (lit "h") (lit "V0q") (lit "http://a")
  [.invoke 0 postLink, .invoke 1 postLink, .respond 0 issued, .invoke 2 getLink,
    .respond 1 issued, .respond 2 (redirect {} (lit "http://a")), .invoke 3 askStats,
    .respond 3 (HttpResponse.setJson {} (statsBody (lit "V0q")
      { url := lit "http://a", hits := 1, createdAt := 0 }))]

theorem run_overlap :
    ∃ s trace, Machine.run (step (serve (lit "h"))) { object := {} } overlap =
      some (s, trace) ∧ trace.flatMap Prod.snd = overlapHistory := by
  have ends : ((Machine.run (step (serve (lit "h"))) { object := {} } overlap).any fun r =>
      decide (r.2.flatMap Prod.snd = overlapHistory)) = true := by
    decide +kernel
  obtain ⟨⟨s, trace⟩, ran, history⟩ := (Option.any_eq_true _ _).mp ends
  exact ⟨s, trace, ran, of_decide_eq_true history⟩

theorem run_linearizable_overlap :
    ∃ s order, Linearizes visit { host := lit "h" } { host := lit "h", service := s }
      overlapHistory order := by
  obtain ⟨s, trace, ran, history⟩ := run_overlap
  obtain ⟨order, linearizes⟩ := run_linearizable (lit "h") overlap s trace ran
  exact ⟨s.object, order, history ▸ linearizes⟩

/-! ## Links -/

section

variable {host : Bytes} {actions : List (Action Visit)}
  {s : State ShortUrlService Visit HttpResponse}
  {trace : List (Action Visit × List (Event Visit HttpResponse))}

/-- A visit that is accepted is told the code under which the url is stored. -/
theorem told_of_accepted {app later : ShortUrlApp} {v : Visit} {resp : HttpResponse}
    {url : Bytes} (asked : acceptedUrl v.req = some url)
    (answered : visit app v = some (later, resp)) :
    ∃ code, resp = created { keepAlive := v.keepAlive } app.host code url ∧
      later.service.byUrl.lookup url = some code := by
  rw [visit_accepted app asked] at answered
  obtain ⟨⟨service, code⟩, shortened, result⟩ := Option.map_eq_some_iff.mp answered
  cases result
  exact ⟨code, rfl, (Extends.shorten shortened).2⟩

/-- In every interleaving of requests, a request that was begun after a url had
been answered with its code, and that gets the code, is redirected to the url,
if the code has at most eight characters and is not the name of another page. -/
theorem run_resolves
    (ran : Machine.run (step (serve host)) { object := {} } actions = some (s, trace))
    {i j : Nat} {v w : Visit} {resp resp' : HttpResponse} {url : Bytes}
    (began : .invoke i v ∈ trace.flatMap Prod.snd) (asked : acceptedUrl v.req = some url)
    (after : Precedes (trace.flatMap Prod.snd) (.respond i resp) (.invoke j w))
    (answered : .respond j resp' ∈ trace.flatMap Prod.snd) :
    ∃ code, resp = created { keepAlive := v.keepAlive } host code url ∧
      (code.length ≤ 8 → code ≠ lit "healthz" → code ≠ lit "metrics" →
        w.req.method = lit "GET" → w.req.path = lit "/" ++ code →
        resp' = redirect { keepAlive := w.keepAlive } url) := by
  obtain ⟨order, linearizes⟩ := run_linearizable host actions s trace ran
  obtain ⟨before, app, past, next, between, m, _, n, ranBefore, posted, ranBetween, got⟩ :=
    linearizes.successive began after answered
  obtain ⟨consistent, sameHost⟩ := consistent_run ranBefore
  obtain ⟨code, told, stored⟩ := told_of_accepted asked posted
  refine ⟨code, sameHost ▸ told, fun short notHealth notMetrics get path => ?_⟩
  have kept := (consistent_visit consistent posted).1
  obtain ⟨entry, found, rfl⟩ := (kept.inverse _ _).mp stored
  have member : code ∈ next.service.byCode := AList.lookup_isSome.mp (by rw [found]; rfl)
  have valid := (((coded_run ranBefore).visit posted).valid_iff member).mpr short
  obtain ⟨still, foundStill, sameUrl, _⟩ :=
    (run_visit_extends kept ranBetween).byCode _ _ found
  obtain ⟨nonempty, alnum⟩ := alnum_of_validCode valid
  rw [visit_code m alnum nonempty notHealth notMetrics get path] at got
  have shown := handleRedirect_stored valid foundStill { keepAlive := w.keepAlive }
  rw [← sameUrl, ← shown, Option.some.inj got]

theorem run_resolves_overlap :
    ∃ resp, .respond 2 resp ∈ overlapHistory ∧
      ∃ code, created {} (lit "h") (lit "V0q") (lit "http://a") =
          created {} (lit "h") code (lit "http://a") ∧
        (code.length ≤ 8 → code ≠ lit "healthz" → code ≠ lit "metrics" →
          getLink.req.method = lit "GET" → getLink.req.path = lit "/" ++ code →
          resp = redirect {} (lit "http://a")) := by
  obtain ⟨s, trace, ran, history⟩ := run_overlap
  have answered : .respond 2 (redirect {} (lit "http://a")) ∈ overlapHistory := by
    decide +kernel
  exact ⟨_, answered, run_resolves ran (i := 0) (v := postLink) (w := getLink)
    (history ▸ by decide +kernel) (by decide +kernel) (history ▸ by decide +kernel)
    (history ▸ answered)⟩

/-- Every answer to an accepted url has told the code under which the url is
stored. -/
def Told (host : Bytes) (past : List (Visit × HttpResponse)) (app : ShortUrlApp) : Prop :=
  ∀ v resp url, (v, resp) ∈ past → acceptedUrl v.req = some url →
    ∃ code, resp = created { keepAlive := v.keepAlive } host code url ∧
      app.service.byUrl.lookup url = some code

theorem told_run {visits : List Visit} {app : ShortUrlApp}
    {past : List (Visit × HttpResponse)}
    (ran : Machine.run visit { host } visits = some (app, past)) : Told host past app := by
  refine (Machine.run_induct (motive := fun past app => Holds host past app ∧
    Told host past app) ?_ ⟨holds_empty host, nofun⟩ ran).2
  rintro past app v later resp ⟨holds, told⟩ answered
  refine ⟨holds.visit answered, ?_⟩
  intro w answer url member asked
  rcases List.mem_append.mp member with old | new
  · obtain ⟨code, same, stored⟩ := told w answer url old asked
    exact ⟨code, same, (consistent_visit holds.1 answered).2.1.byUrl url code stored⟩
  · cases List.mem_singleton.mp new
    obtain ⟨code, same, stored⟩ := told_of_accepted asked answered
    exact ⟨code, holds.2 ▸ same, stored⟩

/-- In every interleaving of requests, urls are answered with codes, and two of
them with the same code exactly when they are the same. -/
theorem run_codes
    (ran : Machine.run (step (serve host)) { object := {} } actions = some (s, trace))
    {i j : Nat} {v w : Visit} {resp resp' : HttpResponse} {url url' : Bytes}
    (began : .invoke i v ∈ trace.flatMap Prod.snd)
    (answered : .respond i resp ∈ trace.flatMap Prod.snd)
    (asked : acceptedUrl v.req = some url)
    (began' : .invoke j w ∈ trace.flatMap Prod.snd)
    (answered' : .respond j resp' ∈ trace.flatMap Prod.snd)
    (asked' : acceptedUrl w.req = some url') :
    ∃ code code', resp = created { keepAlive := v.keepAlive } host code url ∧
      resp' = created { keepAlive := w.keepAlive } host code' url' ∧
      (code = code' ↔ url = url') := by
  obtain ⟨order, linearizes⟩ := run_linearizable host actions s trace ran
  have told := told_run linearizes.legal
  have visited {k : Nat} {u : Visit} {answer : HttpResponse}
      (member : (k, u, answer) ∈ order) : (u, answer) ∈ order.map (·.2) :=
    List.mem_map_of_mem (f := (·.2)) member
  obtain ⟨code, same, stored⟩ :=
    told v resp url (visited (linearizes.mem began answered)) asked
  obtain ⟨code', same', stored'⟩ :=
    told w resp' url' (visited (linearizes.mem began' answered')) asked'
  refine ⟨code, code', same, same', ?_, ?_⟩
  · rintro rfl
    have inverse := (consistent_run linearizes.legal).1.inverse
    obtain ⟨entry, found, rfl⟩ := (inverse _ _).mp stored
    obtain ⟨entry', found', rfl⟩ := (inverse _ _).mp stored'
    rw [Option.some.inj (found.symm.trans found')]
  · rintro rfl
    exact Option.some.inj (stored.symm.trans stored')

theorem run_codes_overlap :
    ∃ code code', created {} (lit "h") (lit "V0q") (lit "http://a") =
        created {} (lit "h") code (lit "http://a") ∧
      created {} (lit "h") (lit "V0q") (lit "http://a") =
        created {} (lit "h") code' (lit "http://a") ∧
      (code = code' ↔ lit "http://a" = lit "http://a") := by
  obtain ⟨s, trace, ran, history⟩ := run_overlap
  exact run_codes ran (i := 0) (j := 1) (v := postLink) (w := postLink)
    (history ▸ by decide +kernel) (history ▸ by decide +kernel) (by decide +kernel)
    (history ▸ by decide +kernel) (history ▸ by decide +kernel) (by decide +kernel)

end

/-! ## Hits -/

/-- The answer of the route of the codes, given what the service has found. -/
def redirected (resp : HttpResponse) : Reply → HttpResponse
  | .entry (some entry) => redirect resp entry.url
  | _ => notFound resp

/-- Which calls there are, and for which paths. -/
inductive Planned (v : Visit) : Plan Call Reply HttpResponse → Prop where
  | answer {resp : HttpResponse} (other : resp.status ≠ 302) : Planned v (.answer resp)
  | shorten {url : Bytes} {finish : Reply → HttpResponse}
      (other : ∀ r, (finish r).status ≠ 302) :
      Planned v (.ask (.shorten url v.env.now) finish)
  | stats {code : Bytes} {finish : Reply → HttpResponse}
      (other : ∀ r, (finish r).status ≠ 302) : Planned v (.ask (.stats code) finish)
  | lookup {code : Bytes} (path : v.req.path = lit "/" ++ code) :
      Planned v (.ask (.lookup code) (redirected { keepAlive := v.keepAlive }))

theorem planned_planShorten (host : Bytes) (v : Visit) :
    Planned v (planShorten host v.env v.req { keepAlive := v.keepAlive }) := by
  unfold planShorten
  split
  · exact .answer (by decide : (400 : Int) ≠ 302)
  · split
    · exact .answer (by decide : (400 : Int) ≠ 302)
    · refine .shorten fun r => ?_
      split
      · exact (by decide : (201 : Int) ≠ 302)
      · exact (by decide : (200 : Int) ≠ 302)

theorem planned_planStats (code : Bytes) (v : Visit) :
    Planned v (planStats code { keepAlive := v.keepAlive }) := by
  unfold planStats
  split
  · exact .answer (by decide : (400 : Int) ≠ 302)
  · refine .stats fun r => ?_
    split
    · exact (by decide : (200 : Int) ≠ 302)
    · exact (by decide : (404 : Int) ≠ 302)

theorem planned_plan (host : Bytes) (v : Visit) : Planned v (plan host v) := by
  have notAllowed : (405 : Int) ≠ 302 := by decide
  have fine : (200 : Int) ≠ 302 := by decide
  unfold plan
  dsimp only
  split
  · split
    · exact .answer notAllowed
    · exact .answer fine
  · split
    · split
      · exact .answer notAllowed
      · exact .answer fine
    · split
      · split
        · exact .answer notAllowed
        · exact planned_planShorten host v
      · split
        · split
          · exact .answer notAllowed
          · exact planned_planStats _ v
        · split
          · rename_i route
            split
            · exact .answer notAllowed
            · unfold planRedirect
              split
              · exact .answer (by decide : (400 : Int) ≠ 302)
              · refine .lookup ?_
                obtain ⟨rest, path⟩ := List.head?_eq_some_iff.mp route.1
                rw [path]
                rfl
          · exact .answer (by decide : (404 : Int) ≠ 302)

/-- The visit is a redirect of the code. -/
def Redirects (code : Bytes) (x : Visit × HttpResponse) : Prop :=
  x.1.req.path = lit "/" ++ code ∧ x.2.status = 302

instance (code : Bytes) : DecidablePred (Redirects code) :=
  fun _ => inferInstanceAs (Decidable (_ ∧ _))

/-- The hits that the service has counted for a code. -/
def hitsOf (service : ShortUrlService) (code : Bytes) : UInt64 :=
  ((service.byCode.lookup code).map (·.hits)).getD 0

def HitsCounted (past : List (Visit × HttpResponse)) (service : ShortUrlService) : Prop :=
  ∀ code, hitsOf service code = UInt64.ofNat (past.countP fun x => Redirects code x)

theorem hitsOf_shorten {service later : ShortUrlService} {url code : Bytes} {now : Int}
    (shortened : service.shorten url now = some (later, code)) (c : Bytes) :
    hitsOf later c = hitsOf service c := by
  unfold hitsOf
  rcases issued_of_shorten shortened with reissued | issued
  · rw [reissued.byCode]
  · rw [issued.byCode]
    split
    · rename_i same
      subst same
      rw [AList.lookup_eq_none.mpr issued.newCode]
      rfl
    · rfl

theorem hitsOf_followed {service later : ShortUrlService} {code : Bytes}
    (followed : Followed code service later) (c : Bytes) :
    hitsOf later c = if c = code then hitsOf service c + 1 else hitsOf service c := by
  obtain ⟨entry, found, after⟩ := followed.byCode
  unfold hitsOf
  rw [after]
  split
  · rename_i same
    rw [same, found]
    rfl
  · rfl

theorem hitsCounted_serve {host : Bytes} {past : List (Visit × HttpResponse)}
    {service later : ShortUrlService} {v : Visit} {resp : HttpResponse}
    (counted : HitsCounted past service) (served : serve host service v = some (later, resp)) :
    HitsCounted (past ++ [(v, resp)]) later := by
  have others (same : ∀ code, hitsOf later code = hitsOf service code)
      (other : resp.status ≠ 302) : HitsCounted (past ++ [(v, resp)]) later := by
    intro code
    rw [same, counted, List.countP_append, List.countP_singleton, if_neg]
    · rfl
    · exact fun redirects => other (of_decide_eq_true redirects).2
  have planned := planned_plan host v
  unfold serve at served
  generalize plan host v = planOf at planned served
  cases planned with
  | answer other =>
      cases served
      exact others (fun _ => rfl) other
  | shorten other =>
      obtain ⟨⟨_, r⟩, called, result⟩ := Option.map_eq_some_iff.mp served
      cases result
      obtain ⟨⟨_, code⟩, shortened, result⟩ := Option.map_eq_some_iff.mp called
      cases result
      exact others (hitsOf_shorten shortened) (other _)
  | stats other =>
      cases served
      exact others (fun _ => rfl) (other _)
  | @lookup code path =>
      cases found : service.lookup code with
      | mk after entry =>
          rw [Plan.perform, ShortUrlService.call, found] at served
          cases served
          cases entry with
          | none =>
              have same : later = service := by
                unfold ShortUrlService.lookup at found
                split at found <;> cases found
                rfl
              exact others (fun _ => same ▸ rfl) (by decide : (404 : Int) ≠ 302)
          | some entry =>
              intro c
              have redirects : Redirects c
                  (v, redirect { keepAlive := v.keepAlive } entry.url) ↔ c = code := by
                rw [Redirects, path, List.append_cancel_left_eq]
                exact ⟨fun both => both.1.symm, fun same => ⟨same.symm, rfl⟩⟩
              rw [hitsOf_followed (followed_of_lookup found), counted, List.countP_append,
                List.countP_singleton, UInt64.ofNat_add]
              simp only [redirected, redirects, decide_eq_true_eq]
              split
              · rfl
              · exact (UInt64.add_zero _).symm

theorem hitsCounted_run {host : Bytes} {visits : List Visit} {service : ShortUrlService}
    {past : List (Visit × HttpResponse)}
    (ran : Machine.run (serve host) {} visits = some (service, past)) :
    HitsCounted past service :=
  Machine.run_induct (motive := HitsCounted)
    (fun _ _ _ _ _ counted served => hitsCounted_serve counted served)
    (fun _ => rfl) ran

/-- Read as the statistics of a code, the answer tells this number of hits and
no other one. -/
structure TellsHits (resp : HttpResponse) (code : Bytes) (hits : UInt64) : Prop where
  told : ∃ url createdAt, resp.body = statsText code { url, hits, createdAt }
  only : ∀ entry, resp.body = statsText code entry → entry.hits = hits

/-- What is shorter than the array has not been cut off. -/
theorem statsBody_of_short {code : Bytes} {entry : Entry} (noZero : 0 ∉ code)
    (short : (statsBody code entry).length < 511) :
    statsBody code entry = statsText code { entry with url := cStr entry.url } := by
  have printed : statsBody code entry =
      snprintf 512 (statsText code { entry with url := cStr entry.url }) := by
    rw [statsBody, cStr_eq_iff.mpr noZero]
    rfl
  rw [printed, snprintf, List.length_take] at short
  rw [printed]
  exact List.take_of_length_le (by omega)

theorem handleStats_fine {app : ShortUrlApp} {code : Bytes} {keepAlive : Bool}
    (fine : (handleStats app code { keepAlive }).status = 200) :
    validCode code = true ∧ ∃ entry, app.service.byCode.lookup code = some entry ∧
      handleStats app code { keepAlive } =
        HttpResponse.setJson { keepAlive } (statsBody code entry) := by
  unfold handleStats at fine ⊢
  split at fine
  · exact absurd fine (by decide : (400 : Int) ≠ 200)
  · rename_i accepted
    rw [if_neg accepted]
    rw [Bool.not_eq_true', Bool.not_eq_false] at accepted
    split at fine
    · exact absurd fine (by decide : (404 : Int) ≠ 200)
    · rename_i entry found
      exact ⟨accepted, entry, found, rfl⟩

theorem tellsHits_of_short {app : ShortUrlApp} {code : Bytes} {keepAlive : Bool}
    (fine : (handleStats app code { keepAlive }).status = 200)
    (short : (handleStats app code { keepAlive }).body.length < 511) :
    TellsHits (handleStats app code { keepAlive }) code (hitsOf app.service code) := by
  obtain ⟨valid, entry, found, answer⟩ := handleStats_fine fine
  have hits : hitsOf app.service code = entry.hits := by
    rw [hitsOf, found]
    rfl
  have noZero : 0 ∉ code := fun member =>
    absurd ((alnum_of_validCode valid).2 0 member) (by decide)
  rw [answer] at short ⊢
  have body := statsBody_of_short noZero short
  rw [hits]
  exact ⟨⟨_, _, body⟩, fun other same => (hits_of_statsText (body.symm.trans same)).symm⟩

/-- In every interleaving of requests, the hits that the statistics of a code
tell are, as a number of 64 bits, at least the redirects that had been answered
when the statistics were asked for, and at most the requests for the code that
were begun before the statistics were answered.  An answer of 511 characters
may have been cut off before the hits. -/
theorem run_hits {host : Bytes} {actions : List (Action Visit)}
    {s : State ShortUrlService Visit HttpResponse}
    {trace : List (Action Visit × List (Event Visit HttpResponse))}
    (ran : Machine.run (step (serve host)) { object := {} } actions = some (s, trace))
    {i : Nat} {w : Visit} {resp : HttpResponse} {code : Bytes}
    (began : .invoke i w ∈ trace.flatMap Prod.snd)
    (answered : .respond i resp ∈ trace.flatMap Prod.snd)
    (get : w.req.method = lit "GET") (path : w.req.path = statsPrefix ++ code)
    (fine : resp.status = 200) (short : resp.body.length < 511) :
    ∃ n, TellsHits resp code (UInt64.ofNat n) ∧
      (∀ done : Finset Nat, (∀ k ∈ done, ∃ v b, .invoke k v ∈ trace.flatMap Prod.snd ∧
          Redirects code (v, b) ∧
          Precedes (trace.flatMap Prod.snd) (.respond k b) (.invoke i w)) →
        done.card ≤ n) ∧
      ∀ begun : Finset Nat, (∀ k v, .invoke k v ∈ trace.flatMap Prod.snd →
          v.req.path = lit "/" ++ code →
          ¬Precedes (trace.flatMap Prod.snd) (.respond i resp) (.invoke k v) → k ∈ begun) →
        n ≤ begun.card := by
  obtain ⟨order, linearizes⟩ := exists_linearizes ran
  obtain ⟨before, service, _, among, once, ranBefore, served, responded, notBegun⟩ :=
    linearizes.split (linearizes.mem began answered)
  -- The entry that is read.
  have shown := visit_stats code { host, service } get path
  rw [visit_eq_serve, served] at shown
  obtain rfl : resp = handleStats { host, service } code { keepAlive := w.keepAlive } :=
    congrArg Prod.snd (Option.some.inj shown)
  have tells := tellsHits_of_short fine short
  rw [hitsCounted_run ranBefore code] at tells
  -- Who has been counted.
  let redirects := before.filter fun x => Redirects code x.2
  have number : (before.map Prod.snd).countP (fun x => Redirects code x) =
      (redirects.map Prod.fst).toFinset.card := by
    rw [List.toFinset_card_of_nodup (once.sublist (List.filter_sublist.map _)),
      List.length_map, List.countP_map, List.countP_eq_length_filter]
    rfl
  refine ⟨_, tells, ?_, ?_⟩
  · intro done early
    rw [number]
    refine Finset.card_le_card fun k member => ?_
    obtain ⟨v, b, invoked, isRedirect, precedes⟩ := early k member
    obtain ⟨x, inBefore, rfl⟩ := List.mem_map.mp (responded k b precedes)
    have this : x = (x.1, v, b) :=
      linearizes.eq_of_fst_eq (among inBefore) (linearizes.mem invoked precedes.mem.1) rfl
    rw [List.mem_toFinset]
    refine List.mem_map_of_mem (List.mem_filter.mpr ⟨inBefore, ?_⟩)
    rw [this]
    exact decide_eq_true isRedirect
  · intro begun early
    rw [number]
    refine Finset.card_le_card fun k member => ?_
    obtain ⟨⟨_, v, b⟩, kept, rfl⟩ := List.mem_map.mp (List.mem_toFinset.mp member)
    obtain ⟨inBefore, isRedirect⟩ := List.mem_filter.mp kept
    refine early _ v ((linearizes.invoked _ v b (among inBefore) v).mpr rfl)
      (of_decide_eq_true isRedirect).1 ?_
    exact notBegun _ (List.mem_map_of_mem inBefore) v

theorem run_hits_overlap :
    ∃ resp, .respond 3 resp ∈ overlapHistory ∧
      ∃ n, TellsHits resp (lit "V0q") (UInt64.ofNat n) ∧
        (∀ done : Finset Nat, (∀ k ∈ done, ∃ v b, .invoke k v ∈ overlapHistory ∧
            Redirects (lit "V0q") (v, b) ∧
            Precedes overlapHistory (.respond k b) (.invoke 3 askStats)) →
          done.card ≤ n) ∧
        ∀ begun : Finset Nat, (∀ k v, .invoke k v ∈ overlapHistory →
            v.req.path = lit "/" ++ lit "V0q" →
            ¬Precedes overlapHistory (.respond 3 resp) (.invoke k v) → k ∈ begun) →
          n ≤ begun.card := by
  obtain ⟨s, trace, ran, history⟩ := run_overlap
  let told := HttpResponse.setJson {} (statsBody (lit "V0q")
    { url := lit "http://a", hits := 1, createdAt := 0 })
  have answered : .respond 3 told ∈ overlapHistory := by
    decide +kernel
  refine ⟨told, answered, ?_⟩
  rw [← history] at answered ⊢
  exact run_hits ran (i := 3) (w := askStats) (history ▸ by decide +kernel) answered
    (by decide +kernel) (by decide +kernel) rfl (by decide +kernel)

end ShortUrlApp

end MiniNet
