import MiniNet.Bench.Loopback
import MiniNet.HttpServer.Answers
import MiniNet.ShortUrlApp.Received

/-!
# The application as the handler of the server

The server hands every request to the application, and the benchmark client is
one of those who ask.  As long as no request asks to shorten a url with a line
end, the two sides agree, whatever other clients ask and in any interleaving.
-/

namespace MiniNet

open Bytes HttpServer ShortUrlService

namespace ShortUrlApp

/-- The handler that `main` installs.  What a call finds outside the application
changes between the calls. -/
def handler : Handler (ShortUrlApp × Env) := fun (app, env) req resp =>
  match app.handle env req resp with
  | some (app, resp) => ((app, env), resp)
  -- `shorten` does not end, and the loop does not go on
  | none => ((app, env), resp)

/-- Visits that stored urls of one line only have led to this application. -/
def Clean (app : ShortUrlApp) : Prop :=
  ∃ visits, Consistent (accepted visits) app.service ∧ ∀ url ∈ accepted visits, OneLine url

theorem clean_new (host : Bytes) : Clean { host } :=
  ⟨[], consistent_empty, fun _ none => by cases none⟩

/-- The request does not ask to store a url with a line end. -/
def AsksClean (req : HttpRequest) : Prop := ∀ url ∈ acceptedUrl req, OneLine url

instance (req : HttpRequest) : Decidable (AsksClean req) :=
  inferInstanceAs (Decidable (∀ url ∈ acceptedUrl req, OneLine url))

theorem Clean.visit {app later : ShortUrlApp} {v : Visit} {resp : HttpResponse}
    (clean : Clean app) (asks : AsksClean v.req)
    (answered : app.visit v = some (later, resp)) : Clean later := by
  obtain ⟨visits, consistent, oneLine⟩ := clean
  refine ⟨visits ++ [v], (consistent_visit consistent answered).1, fun url member => ?_⟩
  rw [accepted_concat] at member
  rcases List.mem_append.mp member with before | now
  · exact oneLine url before
  · exact asks url (Option.mem_toList.mp now)

/-- One call of the handler. -/
theorem respond_handler {app : ShortUrlApp} {env : Env} {req : HttpRequest}
    (clean : Clean app) (asks : AsksClean req) :
    Clean (respond (some handler) (app, env) req).1.1 ∧
      ((respond (some handler) (app, env) req).2.body.length < 2 ^ 63 →
        Readable (respond (some handler) (app, env) req).2) := by
  let v : Visit := { req, keepAlive := req.keepAlive, env }
  have called : respond (some handler) (app, env) req =
      match app.visit v with
      | some (app, resp) => ((app, env), resp)
      | none => ((app, env), { keepAlive := req.keepAlive }) := rfl
  rw [called]
  cases answered : app.visit v with
  | none =>
      have plain : Plain { keepAlive := req.keepAlive } := ⟨.inl rfl, .inl rfl, .inl rfl⟩
      exact ⟨clean, plain.readable⟩
  | some result =>
      obtain ⟨later, resp⟩ := result
      have kept : Clean later := Clean.visit (v := v) clean asks answered
      obtain ⟨visits, consistent, oneLine⟩ := clean
      exact ⟨kept, readable_visit consistent oneLine answered⟩

/-- Everything the server answers can be read. -/
theorem readable_of_run {host : Bytes} {env : Env} {w : Loop.Watched (ShortUrlApp × Env)}
    {actions : List (Loop.Action (ShortUrlApp × Env))}
    {trace : List (Loop.Action (ShortUrlApp × Env) × List Loop.Event)}
    (ran : Machine.run (Loop.Watched.step (some handler))
      { loop := { app := ({ host }, env) } } actions = some (w, trace))
    (others : ∀ app env, .elsewhere (app, env) ∈ actions → Clean app)
    (asks : ∀ id, ∀ req ∈ (w.logs id).requests, AsksClean req) (id : Nat) (resp : HttpResponse)
    (member : resp ∈ (w.logs id).replies) (sized : resp.body.length < 2 ^ 63) :
    Readable resp := by
  have each (state : ShortUrlApp × Env) (req : HttpRequest) (clean : Clean state.1)
      (asks : AsksClean req) : Clean (respond (some handler) state req).1.1 ∧
        ((respond (some handler) state req).2.body.length < 2 ^ 63 →
          Readable (respond (some handler) state req).2) := respond_handler clean asks
  have start : Clean ({ host } : ShortUrlApp) ∧ ∀ id, ∀ resp ∈
      (({ loop := { app := (({ host } : ShortUrlApp), env) } } :
        Loop.Watched (ShortUrlApp × Env)).logs id).replies,
      resp.body.length < 2 ^ 63 → Readable resp :=
    ⟨clean_new host, fun _ _ none => by cases none⟩
  exact (Loop.Watched.good_run each ran (fun app => others app.1 app.2) asks start).2 id resp
    member sized

/-- In every run of the client in HTTP mode, with a fixed number of sendable
requests, against a server of the application that is asked to store urls of one
line only, both sides agree on what has been asked and answered.  As in
`Loop.run_sessions`, a descriptor is taken to stand for its connection. -/
theorem run_agreement {n : Nat} {host : Bytes} {env : Env} {expectStatus : List Int}
    {clock : Nat → UInt64} {opts : Bench.Options} {http : Bench.RequestOptions}
    {outcomes : Fin n → Bench.Outcome × Bool} {s : Bench.Load n}
    {w : Loopback (ShortUrlApp × Env) n} {actions : List (Loopback.Action (ShortUrlApp × Env) n)}
    {trace : List (Loopback.Action (ShortUrlApp × Env) n × Unit)}
    (requestsMode : opts.durationMode = false) (sendable : ∀ i : Fin n, http.Sendable i)
    (built : ∀ i : Fin n, opts.request i = http.buildHttpRequest i)
    (setUp : Bench.Load.setupConns (Bench.Client.initial true expectStatus clock opts)
      outcomes = some s)
    (ran : Machine.run (Loopback.step (some handler))
      { server := { loop := { app := ({ host }, env) } }, client := s } actions =
        some (w, trace))
    (others : ∀ app env, .server (.elsewhere (app, env)) ∈ actions → Clean app)
    (asks : ∀ id, ∀ req ∈ (w.server.logs id).requests, AsksClean req)
    (sized : ∀ id, ∀ resp ∈ (w.server.logs id).replies, resp.body.length < 2 ^ 63) :
    Loopback.Agreement w (fun i => http.clientRequest i (sendable i)) opts expectStatus := by
  obtain ⟨taken, shown, served, elsewhere⟩ := Loopback.server_run ran
  have plain : w.Plain := fun i peer _ resp member =>
    readable_of_run served (fun app env inside => others app env (elsewhere (app, env) inside))
      asks peer.id resp member (sized peer.id resp member)
  have rendered (i : Fin n) : opts.request i = (http.clientRequest i (sendable i)).render :=
    (built i).trans (http.render_message i).symm
  exact ((Loopback.joined_start requestsMode rendered setUp).run requestsMode plain ran).agreement
    plain

def postOwn : Bench.RequestOptions where
  host := lit "h"
  port := 80
  method := lit "POST"
  path := lit "/api/shorten"
  body := lit "\x7b\"url\":\"http://a/%d\"\x7d"

/-- A client asks twice for the same link, and is given it. -/
def postsInParts : List (Loopback.Action (ShortUrlApp × Env) 1) :=
  let link := created {} (lit "h") (lit "V0q") (lit "http://a/0")
  Loopback.inParts _ (postOwn.buildHttpRequest 0) link.serialize link.serialize

theorem run_agreement_postsInParts :
    ∃ (sendable : ∀ i : Fin 1, postOwn.Sendable i) (s : Bench.Load 1)
        (w : Loopback (ShortUrlApp × Env) 1)
        (trace : List (Loopback.Action (ShortUrlApp × Env) 1 × Unit)),
      let opts := { Loopback.twoGets with request := postOwn.buildHttpRequest }
      Bench.Load.setupConns (Bench.Client.initial true [201] (fun _ => 0) opts)
          (fun _ => (.connected, true)) = some s ∧
        Machine.run (Loopback.step (some handler))
            { server := { loop := { app := ({ host := lit "h" }, {}) } }, client := s }
            postsInParts = some (w, trace) ∧
        w.client.client.ok = 2 ∧ (w.client.conns 0).doneReq = 2 ∧
        Loopback.Agreement w (fun i => postOwn.clientRequest i (sendable i)) opts [201] := by
  have sendable (i : Fin 1) : postOwn.Sendable i := by
    rw [Fin.fin_one_eq_zero i]
    exact ⟨by decide, by decide, by decide, by decide +kernel, by decide⟩
  let opts := { Loopback.twoGets with request := postOwn.buildHttpRequest }
  have ends : ((Bench.Load.setupConns (Bench.Client.initial true [201] (fun _ => 0) opts)
      (fun _ : Fin 1 => (.connected, true))).any fun s =>
        (Machine.run (Loopback.step (some handler))
          { server := { loop := { app := ({ host := lit "h" }, {}) } }, client := s }
          postsInParts).any fun r =>
            decide (r.1.client.client.ok = 2 ∧ (r.1.client.conns 0).doneReq = 2 ∧
              r.1.server.loop.nextConnId = 2 ∧ ∀ id ∈ List.range 2,
                (∀ req ∈ (r.1.server.logs id).requests, AsksClean req) ∧
                  ∀ resp ∈ (r.1.server.logs id).replies, resp.body.length < 100)) = true := by
    decide +kernel
  obtain ⟨s, setUp, ends⟩ := (Option.any_eq_true _ _).mp ends
  obtain ⟨⟨w, trace⟩, ran, ends⟩ := (Option.any_eq_true _ _).mp ends
  obtain ⟨ok, number, next, recorded⟩ := of_decide_eq_true ends
  obtain ⟨taken, shown, served, _⟩ := Loopback.server_run ran
  have unused (id : Nat) (late : 2 ≤ id) : w.server.logs id = {} :=
    (Loop.follows_run served).fresh id (next ▸ late)
  have asks (id : Nat) (req : HttpRequest) (member : req ∈ (w.server.logs id).requests) :
      AsksClean req := by
    rcases Nat.lt_or_ge id 2 with early | late
    · exact (recorded id (List.mem_range.mpr early)).1 req member
    · rw [unused id late] at member
      cases member
  have sized (id : Nat) (resp : HttpResponse) (member : resp ∈ (w.server.logs id).replies) :
      resp.body.length < 2 ^ 63 := by
    rcases Nat.lt_or_ge id 2 with early | late
    · exact Nat.lt_trans ((recorded id (List.mem_range.mpr early)).2 resp member) (by decide)
    · rw [unused id late] at member
      cases member
  have others (app : ShortUrlApp) (env : Env)
      (member : .server (.elsewhere (app, env)) ∈ postsInParts) : Clean app := by
    simp [postsInParts, Loopback.inParts] at member
  exact ⟨sendable, s, w, trace, setUp, ran, ok, number,
    run_agreement rfl sendable (fun _ => rfl) setUp ran others asks sized⟩

end ShortUrlApp

end MiniNet
