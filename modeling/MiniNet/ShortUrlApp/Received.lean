import MiniNet.HttpServer.Exchange
import MiniNet.ShortUrlApp.Splitting
import Mathlib.Data.Set.List

/-!
# The responses as the benchmark client reads them

A client that has asked an application for some things gets its responses one
behind the other, in any pieces.  As long as no url with a line end has been
accepted, it finds where each of them ends, and reads its status.
-/

namespace MiniNet

open Bytes ShortUrlService

namespace ShortUrlApp

theorem length_serialize_le (resp : HttpResponse) :
    resp.serialize.length ≤ 600 + resp.contentType.length +
      (resp.extraHeaders.flatMap HttpResponse.headerLine).length + resp.body.length := by
  have first (formatted : Bytes) : (snprintf 256 formatted).length ≤ 255 := by
    rw [snprintf, List.length_take]
    exact Nat.min_le_left _ _
  have status := first (lit "HTTP/1.1 " ++ decimalInt resp.status ++ lit " " ++
    HttpResponse.reason resp.status ++ crlf)
  have length := first (lit "Content-Length: " ++ decimal resp.body.length ++ crlf)
  have connection : (if resp.keepAlive then lit "Connection: keep-alive" ++ crlf
      else lit "Connection: close" ++ crlf).length ≤ 24 := by
    split <;> decide
  have type : (lit "Content-Type: ").length = 14 := by decide
  have line : crlf.length = 2 := rfl
  rw [HttpResponse.serialize]
  simp only [List.length_append] at *
  omega

/-- The client can read this response. -/
def Readable (resp : HttpResponse) : Prop :=
  ∃ r : Bench.PlainResponse, r.toHttpResponse = resp

theorem readable_of_oneLine {resp : HttpResponse} (status : 100 ≤ resp.status ∧ resp.status ≤ 599)
    (type : resp.contentType = lit "text/plain; charset=utf-8" ∨
      resp.contentType = lit "application/json; charset=utf-8")
    (extra : ∀ header ∈ resp.extraHeaders, Bench.PlainExtra header)
    (short : (resp.extraHeaders.flatMap HttpResponse.headerLine).length ≤ 4096)
    (sized : resp.body.length < 2 ^ 63) : Readable resp := by
  have oneLine : (cr ∉ resp.contentType ∧ lf ∉ resp.contentType) ∧
      resp.contentType.length ≤ 40 := by
    rcases type with text | json
    · rw [text]
      decide
    · rw [json]
      decide
  have whole := length_serialize_le resp
  exact ⟨{ resp with
    status_valid := status
    contentType_oneLine := oneLine.1
    extra_plain := extra
    section_fits := by omega
    body_fits := sized }, rfl⟩

/-- No line ends in the url, in either of its two octets. -/
def OneLine (url : Bytes) : Prop := cr ∉ url ∧ lf ∉ url

instance (url : Bytes) : Decidable (OneLine url) :=
  inferInstanceAs (Decidable (cr ∉ url ∧ lf ∉ url))

theorem Plain.readable {resp : HttpResponse} (plain : Plain resp)
    (sized : resp.body.length < 2 ^ 63) : Readable resp := by
  have allow : ∀ value ∈ [lit "GET", lit "POST"], Bench.PlainExtra (lit "Allow", value) ∧
      ([(lit "Allow", value)].flatMap HttpResponse.headerLine).length ≤ 4096 := by decide
  refine readable_of_oneLine ?_ plain.contentType ?_ ?_ sized
  · rcases plain.status with status | status | status | status <;> rw [status] <;> decide
  · intro header member
    rcases plain.extraHeaders with none | get | post
    · rw [none] at member
      cases member
    · rw [get, List.mem_singleton] at member
      rw [member]
      exact (allow _ (by simp)).1
    · rw [post, List.mem_singleton] at member
      rw [member]
      exact (allow _ (by simp)).1
  · rcases plain.extraHeaders with none | get | post
    · rw [none]
      exact Nat.zero_le _
    · rw [get]
      exact (allow _ (by simp)).2
    · rw [post]
      exact (allow _ (by simp)).2

theorem readable_created (keepAlive : Bool) (host code url : Bytes)
    (sized : (created { keepAlive } host code url).body.length < 2 ^ 63) :
    Readable (created { keepAlive } host code url) := by
  refine readable_of_oneLine ?_ (.inr rfl) ?_ (Nat.zero_le _) sized
  · exact show (100 : Int) ≤ 201 ∧ (201 : Int) ≤ 599 by decide
  · intro header member
    cases member

theorem readable_redirect (keepAlive : Bool) {url : Bytes} (clean : OneLine url)
    (short : url.length ≤ 2048) : Readable (redirect { keepAlive } url) := by
  have cache : Bench.PlainExtra (lit "Cache-Control", lit "no-store") := by decide
  have location : Bench.PlainExtra (lit "Location", url) :=
    { noColon := show 58 ∉ lit "Location" by decide
      name_oneLine := show cr ∉ lit "Location" ∧ lf ∉ lit "Location" by decide
      value_oneLine := clean
      notLength := show Bench.toLower (lit "Location") ≠ lit "content-length" by decide
      notCoding := show Bench.toLower (lit "Location") ≠ lit "transfer-encoding" by decide }
  have headers : (redirect { keepAlive } url).extraHeaders =
      [(lit "Location", url), (lit "Cache-Control", lit "no-store")] := rfl
  refine readable_of_oneLine ?_ (.inl rfl) ?_ ?_ (show 0 < 2 ^ 63 by decide)
  · exact show (100 : Int) ≤ 302 ∧ (302 : Int) ≤ 599 by decide
  · intro header member
    rw [headers] at member
    rcases List.mem_cons.mp member with rfl | member
    · exact location
    · rw [List.mem_singleton.mp member]
      exact cache
  · have names : (lit "Location").length = 8 ∧ (lit ": ").length = 2 ∧ crlf.length = 2 ∧
        (lit "Cache-Control").length = 13 ∧ (lit "no-store").length = 8 := by decide
    rw [headers]
    simp only [List.flatMap_cons, List.flatMap_nil, HttpResponse.headerLine, List.length_append,
      List.length_nil]
    omega

theorem length_le_of_accepted {visits : List Visit} {url : Bytes}
    (member : url ∈ accepted visits) : url.length ≤ 2048 := by
  obtain ⟨v, _, asked⟩ := List.mem_filterMap.mp member
  unfold acceptedUrl at asked
  split at asked
  · split at asked
    · split at asked
      · rename_i valid
        cases asked
        by_contra long
        have refused : validUrl url = .error (lit "url 超过 2048 字节") := by
          unfold validUrl
          rw [if_neg (by rintro rfl; exact long (Nat.zero_le _)), if_pos (by omega)]
        rw [refused] at valid
        cases valid
      · cases asked
    · cases asked
  · cases asked

/-- One visit to an application that has accepted urls of one line only. -/
theorem readable_visit {visits : List Visit} {app later : ShortUrlApp} {v : Visit}
    {resp : HttpResponse} (consistent : Consistent (accepted visits) app.service)
    (clean : ∀ url ∈ accepted visits, OneLine url)
    (answered : visit app v = some (later, resp)) (sized : resp.body.length < 2 ^ 63) :
    Readable resp := by
  cases visit_visited answered with
  | link _ _ => exact readable_created _ _ _ _ sized
  | redirect _ found =>
      have among := mem_accepted_of_lookup consistent found
      exact readable_redirect _ (clean _ among) (length_le_of_accepted among)
  | plain _ plain => exact plain.readable sized

/-- In every run in which only urls of one line are accepted: a client that receives
the responses, or the first bytes of them, in any chunks, finds no error and reports
the statuses of the first of them, once and in order; of all, when all have arrived. -/
theorem run_received {host : Bytes} {visits : List Visit} {app : ShortUrlApp}
    {trace : List (Visit × HttpResponse)} {chunks : List Bytes} {future : Bytes}
    (ran : Machine.run visit { host } visits = some (app, trace))
    (clean : ∀ url ∈ accepted visits, OneLine url)
    (sized : ∀ v resp, (v, resp) ∈ trace → resp.body.length < 2 ^ 63)
    (arrived : chunks.flatten ++ future = trace.flatMap (·.2.serialize)) (b : Bench) :
    (b.receive {} chunks).ok = true ∧ ∃ told left, trace = told ++ left ∧
      (b.receive {} chunks).calls = told.map (fun r => .onResponseComplete r.2.status) ∧
      (future = [] → left = []) := by
  have readable : ∀ v resp, (v, resp) ∈ trace → resp.body.length < 2 ^ 63 → Readable resp :=
    run_responses readable_visit ran clean
  have all : trace.map Prod.snd ∈
      Set.range (List.map fun r : Bench.PlainResponse => r.toHttpResponse) := by
    rw [Set.range_list_map]
    intro resp member
    obtain ⟨⟨v, resp⟩, among, rfl⟩ := List.mem_map.mp member
    exact readable v resp among (sized v resp among)
  obtain ⟨responses, same⟩ := all
  have wire : trace.flatMap (·.2.serialize) = responses.flatMap (·.serialize) := by
    have mapped := congrArg (List.flatMap HttpResponse.serialize) same
    rw [List.flatMap_map, List.flatMap_map] at mapped
    exact mapped.symm
  obtain ⟨told, left, rfl, ok, calls, finished⟩ :=
    @Bench.receive_arrived responses chunks b {} [] future ⟨Nat.le_refl _, rfl⟩ (by
      rw [List.nil_append, arrived, wire])
  rw [List.map_append] at same
  obtain ⟨first, second, rfl, firstSame, secondSame⟩ := List.map_eq_append_iff.mp same.symm
  refine ⟨ok, first, second, rfl, ?_, fun nothing => ?_⟩
  · have statuses := congrArg (List.map fun resp : HttpResponse =>
      Bench.Call.onResponseComplete resp.status) firstSame
    rw [List.map_map, List.map_map] at statuses
    exact calls.trans statuses.symm
  · have none : left = [] := finished nothing fun empty => by
      rw [empty, nothing, wire] at arrived
      exact HttpServer.Loop.responses_eq_nil arrived.symm
    rw [none] at secondSame
    exact List.map_eq_nil_iff.mp secondSame

theorem run_received_link :
    ∃ app trace,
      Machine.run visit { host := lit "h" } (shortenAndFollow "http://a") =
          some (app, trace) ∧
        let b : Bench := { clock := fun reads => UInt64.ofNat reads }
        let wire := trace.flatMap (·.2.serialize)
        (b.receive {} [wire.take 40, wire.drop 40]).ok = true ∧
          (b.receive {} [wire.take 40, wire.drop 40]).calls =
            [.onResponseComplete 201, .onResponseComplete 302] := by
  have shown : ((Machine.run visit { host := lit "h" }
      (shortenAndFollow "http://a")).map fun (_, trace) =>
        decide (trace.map (·.2.status) = [201, 302] ∧
          ∀ r ∈ trace, r.2.body.length < 100)) = some true := by
    decide +kernel
  obtain ⟨⟨app, trace⟩, ran, ends⟩ := Option.map_eq_some_iff.mp shown
  obtain ⟨statuses, short⟩ := of_decide_eq_true ends
  refine ⟨app, trace, ran, ?_⟩
  intro b wire
  have sized : ∀ v resp, (v, resp) ∈ trace → resp.body.length < 2 ^ 63 :=
    fun v resp member => Nat.lt_trans (short (v, resp) member) (by decide)
  have arrived : [wire.take 40, wire.drop 40].flatten ++ [] = wire := by simp
  obtain ⟨ok, told, left, rfl, calls, finished⟩ :=
    run_received ran (by decide +kernel) sized arrived b
  rw [finished rfl, List.append_nil] at statuses
  have reported := congrArg (List.map Bench.Call.onResponseComplete) statuses
  rw [List.map_map] at reported
  exact ⟨ok, calls.trans reported⟩

end ShortUrlApp

end MiniNet
