import MiniNet.ShortUrlApp.Visits
import MiniNet.HttpTypes.Reading

/-!
# Header injection through a stored url

A url travels from a JSON body through the store into the `Location` header
of a later redirect.  Nothing on the way looks at its characters, so a CRLF
that is escaped in the JSON ends the header line.  Without such urls every
response is read back as it was written.
-/

namespace MiniNet

open Bytes ShortUrlService HttpResponse

namespace ShortUrlApp

theorem Plain.readsBack {resp : HttpResponse} (plain : Plain resp)
    (sized : resp.body.length < 2 ^ 64) : ReadsBack resp := by
  refine readsBack_of_oneLine ?_ sized ?_ ?_
  · rcases plain.status with status | status | status | status <;>
      rw [status] <;> decide
  · rcases plain.contentType with text | json
    · rw [text]
      decide
    · rw [json]
      decide
  · intro header member
    rcases plain.extraHeaders with none | get | post
    · rw [none] at member
      cases member
    · rw [get, List.mem_singleton] at member
      subst member
      exact oneLine_of_name (by decide) (by decide)
    · rw [post, List.mem_singleton] at member
      subst member
      exact oneLine_of_name (by decide) (by decide)

theorem readsBack_created (keepAlive : Bool) (host code url : Bytes)
    (sized : (created { keepAlive } host code url).body.length < 2 ^ 64) :
    ReadsBack (created { keepAlive } host code url) := by
  refine readsBack_of_oneLine ?_ sized ?_ (by intro header member; cases member)
  · exact show StatusReads 201 by decide
  · exact show ¬crlf <:+: lit "application/json; charset=utf-8" by decide

theorem readsBack_redirect (keepAlive : Bool) {url : Bytes}
    (clean : ¬crlf <:+: url) : ReadsBack (redirect { keepAlive } url) := by
  refine readsBack_of_oneLine ?_ (show 0 < 2 ^ 64 by decide) ?_ ?_
  · exact show StatusReads 302 by decide
  · exact show ¬crlf <:+: lit "text/plain; charset=utf-8" by decide
  · intro header member
    simp only [redirect, List.nil_append, List.mem_cons, List.not_mem_nil,
      or_false] at member
    rcases member with rfl | rfl
    · exact oneLine_of_name (by decide) clean
    · exact oneLine_of_name (by decide) (by decide)

/-- What the store holds was accepted before. -/
theorem mem_accepted_of_lookup {visits : List Visit} {app : ShortUrlApp}
    (consistent : Consistent (accepted visits) app.service) {code : Bytes}
    {entry : Entry} {service : ShortUrlService}
    (found : app.service.lookup code = (service, some entry)) :
    entry.url ∈ accepted visits := by
  unfold ShortUrlService.lookup at found
  split at found
  · cases found
  · rename_i stored inTable
    cases found
    have known := (consistent.inverse stored.url code).mpr ⟨stored, inTable, rfl⟩
    exact (consistent.stored _).mp (AList.lookup_isSome.mp (by rw [known]; rfl))

/-- One visit to an application that has accepted clean urls only. -/
theorem readsBack_visit {visits : List Visit} {app later : ShortUrlApp}
    {v : Visit} {resp : HttpResponse}
    (consistent : Consistent (accepted visits) app.service)
    (clean : ∀ url ∈ accepted visits, ¬crlf <:+: url)
    (answered : visit app v = some (later, resp))
    (sized : resp.body.length < 2 ^ 64) : ReadsBack resp := by
  cases visit_visited answered with
  | link _ _ => exact readsBack_created _ _ _ _ sized
  | redirect _ found =>
      exact readsBack_redirect _ (clean _ (mem_accepted_of_lookup consistent found))
  | plain _ plain => exact plain.readsBack sized

/-- What is so of every response as long as clean urls only have been accepted. -/
theorem run_responses {host : Bytes} {visits : List Visit} {app : ShortUrlApp}
    {trace : List (Visit × HttpResponse)} {clean : Bytes → Prop} {good : HttpResponse → Prop}
    (each : ∀ {past : List Visit} {app later : ShortUrlApp} {v : Visit} {resp : HttpResponse},
      Consistent (accepted past) app.service → (∀ url ∈ accepted past, clean url) →
        visit app v = some (later, resp) → good resp)
    (ran : Machine.run visit { host } visits = some (app, trace))
    (accepts : ∀ url ∈ accepted visits, clean url) :
    ∀ v resp, (v, resp) ∈ trace → good resp := by
  have kept : Holds host trace app ∧
      ((∀ url ∈ accepted (trace.map Prod.fst), clean url) →
        ∀ v resp, (v, resp) ∈ trace → good resp) := by
    refine Machine.run_induct (motive := fun past app => Holds host past app ∧
      ((∀ url ∈ accepted (past.map Prod.fst), clean url) →
        ∀ v resp, (v, resp) ∈ past → good resp)) ?_
      ⟨holds_empty host, fun _ _ _ member => by cases member⟩ ran
    rintro past app v later resp ⟨holds, earlier⟩ answered
    refine ⟨holds.visit answered, ?_⟩
    intro accepts w shown member
    have acceptsPast : ∀ url ∈ accepted (past.map Prod.fst), clean url := by
      intro url inPast
      refine accepts url ?_
      rw [List.map_append, List.map_singleton, accepted_concat]
      exact List.mem_append_left _ inPast
    rcases List.mem_append.mp member with inPast | now
    · exact earlier acceptsPast w shown inPast
    · cases List.mem_singleton.mp now
      exact each holds.1 acceptsPast answered
  rw [Machine.map_fst_run ran] at kept
  exact kept.2 accepts

/-- In every run in which no accepted url contains a CRLF, every response is
read back as it was written. -/
theorem run_readsBack {host : Bytes} {visits : List Visit} {app : ShortUrlApp}
    {trace : List (Visit × HttpResponse)}
    (ran : Machine.run visit { host } visits = some (app, trace))
    (clean : ∀ url ∈ accepted visits, ¬crlf <:+: url) :
    ∀ v resp, (v, resp) ∈ trace → resp.body.length < 2 ^ 64 → ReadsBack resp :=
  run_responses readsBack_visit ran clean

/-- Shorten the url in this JSON string literal, then follow the first link. -/
def shortenAndFollow (literal : String) : List Visit :=
  [{ req := {
      method := lit "POST"
      path := lit "/api/shorten"
      body := lit "\x7b\"url\":\"" ++ lit literal ++ lit "\"\x7d" } },
    { req := { method := lit "GET", path := lit "/V0q" } }]

theorem run_readsBack_link :
    ∃ app trace,
      Machine.run visit { host := lit "h" } (shortenAndFollow "http://a") =
          some (app, trace) ∧
        ∀ v resp, (v, resp) ∈ trace → ReadsBack resp := by
  have shown : ((Machine.run visit { host := lit "h" }
      (shortenAndFollow "http://a")).map fun (_, trace) =>
        trace.all fun (_, resp) => resp.body.length < 100) = some true := by
    decide +kernel
  obtain ⟨⟨app, trace⟩, ran, short⟩ := Option.map_eq_some_iff.mp shown
  refine ⟨app, trace, ran, ?_⟩
  intro v resp member
  have sized : resp.body.length < 100 := by
    simpa using List.all_eq_true.mp short _ member
  exact run_readsBack ran (by decide +kernel) v resp member (by omega)

/-- A url with an escaped line end adds a header to the redirect. -/
theorem shortenAndFollow_splits :
    ∃ app trace v resp,
      Machine.run visit { host := lit "h" }
          (shortenAndFollow "http://a\\r\\nSet-Cookie: x") = some (app, trace) ∧
        (v, resp) ∈ trace ∧ resp.status = 302 ∧
        (∃ reading, read resp.serialize = some reading ∧
          (lit "Set-Cookie", lit "x") ∈ reading.headers) ∧
        ¬ReadsBack resp := by
  let url := lit "http://a\r\nSet-Cookie: x"
  have shown : ((Machine.run visit { host := lit "h" }
      (shortenAndFollow "http://a\\r\\nSet-Cookie: x")).map fun (_, trace) =>
        trace.map Prod.snd) =
      some [created {} (lit "h") (lit "V0q") url, redirect {} url] := by
    decide +kernel
  obtain ⟨⟨app, trace⟩, ran, responses⟩ := Option.map_eq_some_iff.mp shown
  have last : redirect {} url ∈ trace.map Prod.snd := by
    rw [show trace.map Prod.snd = _ from responses]
    exact List.mem_cons_of_mem _ List.mem_cons_self
  obtain ⟨⟨v, resp⟩, member, rfl⟩ := List.mem_map.mp last
  have reads : read (redirect {} url).serialize =
      some {
        status := 302
        headers := [(lit "Content-Length", lit "0"),
          (lit "Content-Type", lit "text/plain; charset=utf-8"),
          (lit "Connection", lit "keep-alive"), (lit "Location", lit "http://a"),
          (lit "Set-Cookie", lit "x"), (lit "Cache-Control", lit "no-store")]
        body := [] } := by
    decide +kernel
  refine ⟨app, trace, v, _, ran, member, rfl, ⟨_, reads, by decide⟩, ?_⟩
  intro back
  exact absurd (reads.symm.trans back.reading) (by decide +kernel)

end ShortUrlApp

end MiniNet
