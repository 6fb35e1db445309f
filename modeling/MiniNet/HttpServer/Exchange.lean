import MiniNet.HttpParser.Errors
import MiniNet.HttpServer.Delivery
import MiniNet.HttpServer.RoundTrip
import MiniNet.HttpServer.Sessions
import MiniNet.Bench.Decoding

/-!
# Requests and responses over a connection

From the client's requests to what the client reads from the responses: the
requests are rendered, arrive in chunks among those of other connections, are
parsed and answered by the handler, serialized, sent as far as the kernel takes
them, and decoded from chunks again.  No request is lost, repeated or mixed up
with another one, and neither is a response.
-/

namespace MiniNet

open Bytes TcpServer

namespace HttpServer

/-! ## Rendered requests on the stream -/

theorem render_pos (m : HttpParser.Message) : 0 < m.render.length := by
  have ending : 0 < crlf.length := by decide
  rw [HttpParser.Message.render, HttpParser.Message.headerSection, List.length_append,
    List.length_append]
  omega

/-- A request that has arrived is parsed. -/
theorem stream_parse_rendered (r : HttpParser.ClientRequest) (more : Bytes) :
    ∃ q, HttpParser.Stream.parse {} (r.render ++ more) = (.complete, q, more) ∧
      q.req = r.request := by
  have queue : ((Buffer.create 1024).append (r.render ++ more)).readable =
      r.render ++ more := by simp
  obtain ⟨q, rest, called, left, req⟩ := r.complete queue
  have onStream := HttpParser.stream_parse_of_parse called nofun
  rw [queue, left] at onStream
  exact ⟨q.forgetCount, onStream, req⟩

/-- One that has not is waited for. -/
theorem stream_parse_unfinished {r : HttpParser.ClientRequest} {arrived missing : Bytes}
    (cut : arrived ++ missing = r.render) (some_octet : missing ≠ []) :
    ∃ q rest, HttpParser.Stream.parse {} arrived = (.needMore, q, rest) := by
  obtain ⟨q, whole, _⟩ := stream_parse_rendered r []
  have resumes := HttpParser.Stream.parse_resumes {} arrived missing
  rw [cut, ← List.append_nil r.render, whole] at resumes
  rcases outcome : HttpParser.Stream.parse {} arrived with ⟨result, p, rest⟩
  rw [outcome] at resumes
  cases result with
  | needMore => exact ⟨p, rest, rfl⟩
  | complete =>
      have left : [] = rest ++ missing := congrArg (·.2.2) resumes
      exact absurd (List.append_eq_nil_iff.mp left.symm).2 some_octet
  | error err => cases congrArg Prod.fst resumes

/-! ## A connection on rendered requests -/

/-- The first request has arrived, or all that has arrived is part of it. -/
theorem first_rendered {queue missing : Bytes} {requests : List HttpParser.ClientRequest}
    (stream : queue ++ missing = requests.flatMap (·.render)) :
    (∃ q rest, HttpParser.Stream.parse {} queue = (.needMore, q, rest) ∧
        ∀ r ∈ requests.head?, queue.length < r.render.length) ∨
      ∃ r later q more, requests = r :: later ∧
        HttpParser.Stream.parse {} queue = (.complete, q, more) ∧ q.req = r.request ∧
        more ++ missing = later.flatMap (·.render) := by
  cases requests with
  | nil =>
      obtain ⟨rfl, _⟩ := List.append_eq_nil_iff.mp stream
      have nothing : (Buffer.create 1024).readable = [] := by simp
      have waiting := HttpParser.stream_parse_of_parse (parse_nothing nothing) nofun
      rw [nothing] at waiting
      exact .inl ⟨_, _, waiting, nofun⟩
  | cons r later =>
      rw [List.flatMap_cons] at stream
      have whole (more : Bytes) (arrived : queue = r.render ++ more)
          (left : more ++ missing = later.flatMap (·.render)) :
          ∃ r' later' q more, r :: later = r' :: later' ∧
            HttpParser.Stream.parse {} queue = (.complete, q, more) ∧ q.req = r'.request ∧
            more ++ missing = later'.flatMap (·.render) := by
        obtain ⟨q, called, req⟩ := stream_parse_rendered r more
        exact ⟨r, later, q, more, rfl, arrived ▸ called, req, left⟩
      rcases List.append_eq_append_iff.mp stream with
        ⟨gap, cut, left⟩ | ⟨more, arrived, left⟩
      · cases gap with
        | nil =>
            rw [List.append_nil] at cut
            exact .inr (whole [] (by rw [cut, List.append_nil]) left)
        | cons c gap =>
            obtain ⟨q, rest, waiting⟩ :=
              stream_parse_unfinished cut.symm (List.cons_ne_nil _ _)
            refine .inl ⟨q, rest, waiting, fun r' same => ?_⟩
            cases Option.some.inj same
            rw [cut, List.length_append]
            exact Nat.lt_add_of_pos_right (Nat.succ_pos _)
      · exact .inr (whole more arrived left.symm)

/-- Of the requests `done` have been answered; of the `rest`, `unread` has
arrived and more is `missing`. -/
structure Answered (requests : List HttpParser.ClientRequest) (log : Log)
    (given unread missing : Bytes) (done rest : List HttpParser.ClientRequest) : Prop where
  all : requests = done ++ rest
  handled : log.requests = done.map (·.request)
  number : log.replies.length = done.length
  sent : given = log.replies.flatMap (·.serialize)
  stream : unread ++ missing = rest.flatMap (·.render)

/-- What has been passed to the parser since it was new. -/
structure TakenIn (conn : HttpConn) (unread : Bytes) : Prop where
  resumes : ∀ more, HttpParser.Stream.parse conn.parser.forgetCount
    (conn.inBuf.readable ++ more) = HttpParser.Stream.parse {} (unread ++ more)
  nothing : unread = [] → conn.parser = {} ∧ conn.inBuf.readable = []

/-- Where `onMessage` can be on a connection that receives rendered requests.
An error ends the connection within a request. -/
def Exchanging (requests : List HttpParser.ClientRequest) (missing : Bytes) (log : Log)
    (given : Bytes) : Phase → Prop
  | .waiting conn => ∃ done rest unread, Answered requests log given unread missing done rest ∧
      TakenIn conn unread ∧ ∀ r ∈ rest.head?, unread.length < r.render.length
  | .parsing conn => ∃ done rest unread, Answered requests log given unread missing done rest ∧
      TakenIn conn unread
  | .answered conn _ => ∃ done rest,
      Answered requests log given conn.inBuf.readable missing done rest
  | .closing _ => ∃ done rest unread before, Answered requests log before unread missing done rest ∧
      (given = before ∨ unread ≠ [] ∧
        ∃ err ∈ HttpParser.errors, given = before ++ (errorResponse err).serialize)

section

variable {σ : Type} {handler : Option (Handler σ)} {requests : List HttpParser.ClientRequest}
  {log : Log} {given unread missing : Bytes} {conn rest : HttpConn}
  {done others : List HttpParser.ClientRequest}

theorem takenIn_new {conn : HttpConn} (fresh : conn.parser = {}) :
    TakenIn conn conn.inBuf.readable :=
  ⟨fun _ => by rw [fresh]; rfl, fun nothing => ⟨fresh, nothing⟩⟩

theorem TakenIn.append (taken : TakenIn conn unread) (data : Bytes) :
    TakenIn { conn with inBuf := conn.inBuf.append data } (unread ++ data) where
  resumes more := by
    rw [Buffer.readable_append, List.append_assoc, List.append_assoc]
    exact taken.resumes (data ++ more)
  nothing none := by
    obtain ⟨first, last⟩ := List.append_eq_nil_iff.mp none
    obtain ⟨fresh, drained⟩ := taken.nothing first
    exact ⟨fresh, by rw [Buffer.readable_append, drained, last]; rfl⟩

theorem TakenIn.parse (taken : TakenIn conn unread) {state : σ}
    (turned : turn handler state conn = .needMore rest) :
    TakenIn rest unread ∧ ∃ q more, HttpParser.Stream.parse {} unread = (.needMore, q, more) := by
  have parsed := parse_of_turn_needMore turned
  have waiting := HttpParser.stream_parse_of_parse parsed nofun
  have whole := taken.resumes []
  rw [List.append_nil, List.append_nil, waiting] at whole
  refine ⟨⟨fun more => ?_, fun nothing => ?_⟩, _, _, whole.symm⟩
  · have longer := HttpParser.Stream.parse_resumes conn.parser.forgetCount
      conn.inBuf.readable more
    rw [waiting] at longer
    exact longer.symm.trans (taken.resumes more)
  · obtain ⟨fresh, drained⟩ := taken.nothing nothing
    rw [fresh, parse_nothing drained] at parsed
    have parser : {} = rest.parser := congrArg (·.2.1) parsed
    have inBuf : conn.inBuf = rest.inBuf := congrArg (·.2.2) parsed
    exact ⟨parser.symm, by rw [← inBuf, drained]⟩

/-- When the parser has completed a request, it was the first of the rest. -/
theorem Answered.respond {state later : σ} {resp : HttpResponse}
    (answered : Answered requests log given unread missing done others)
    (taken : TakenIn conn unread)
    (turned : turn handler state conn = .respond rest later resp) :
    ∃ done rest', Answered requests (log.answer rest.parser.req resp) (given ++ resp.serialize)
      rest.inBuf.readable missing done rest' := by
  have finished := HttpParser.stream_parse_of_parse (parse_of_turn_respond turned).1 nofun
  have whole := taken.resumes []
  rw [List.append_nil, List.append_nil, finished] at whole
  rcases first_rendered answered.stream with
    ⟨_, _, waiting, _⟩ | ⟨r, later, _, _, rfl, called, req, behind⟩
  · cases whole.trans waiting
  · cases whole.trans called
    refine ⟨done ++ [r], later, ?_, ?_, ?_, ?_, behind⟩
    · rw [answered.all, List.append_assoc]
      rfl
    · rw [List.map_append, ← answered.handled]
      exact congrArg (log.requests ++ [·]) req
    · rw [Log.answer, List.length_append, List.length_append, answered.number]
      rfl
    · rw [Log.answer, List.flatMap_append, ← answered.sent, List.flatMap_singleton]

/-- The parser finds nothing wrong with a connection on which nothing of the
next request has arrived. -/
theorem TakenIn.some_octet {state : σ} {err : HttpParser.Error} (taken : TakenIn conn unread)
    (turned : turn handler state conn = .error rest err) : unread ≠ [] := by
  intro nothing
  obtain ⟨fresh, drained⟩ := taken.nothing nothing
  have parsed := parse_of_turn_error turned
  rw [fresh, parse_nothing drained] at parsed
  cases congrArg Prod.fst parsed

/-- Wherever a connection gets to on a part of some rendered requests, it has
answered the first of them. -/
theorem Reached.exchanging {phase : Phase} (reached : Reached handler log given phase)
    (stream : log.chunks.flatten ++ missing = requests.flatMap (·.render)) :
    Exchanging requests missing log given phase := by
  induction reached generalizing missing with
  | start =>
      have drained : (Buffer.create 1024).readable = [] := by simp
      refine ⟨[], requests, [], ⟨rfl, rfl, rfl, rfl, stream⟩, ?_, fun r member => ?_⟩
      · rw [← drained]
        exact takenIn_new rfl
      · exact render_pos r.toMessage
  | message _ data ih =>
      rw [Log.message, List.flatten_append, List.flatten_singleton, List.append_assoc] at stream
      obtain ⟨done, rest, unread, answered, taken, _⟩ := ih stream
      refine ⟨done, rest, unread ++ data, ?_, taken.append data⟩
      exact { answered with stream := by rw [List.append_assoc, answered.stream] }
  | needMore _ turned ih =>
      obtain ⟨done, rest, unread, answered, taken⟩ := ih stream
      obtain ⟨still, q, more, waiting⟩ := taken.parse turned
      refine ⟨done, rest, unread, answered, still, ?_⟩
      rcases first_rendered answered.stream with
        ⟨_, _, _, short⟩ | ⟨_, _, _, _, _, called, _⟩
      · exact short
      · cases waiting.symm.trans called
  | error _ turned ih =>
      obtain ⟨done, rest, unread, answered, taken⟩ := ih stream
      have known := HttpParser.known_parse _ _ _ (congrArg Prod.fst (parse_of_turn_error turned))
      exact ⟨done, rest, unread, _, answered, .inr ⟨taken.some_octet turned, _, known, rfl⟩⟩
  | respond _ turned ih =>
      obtain ⟨done, rest, unread, answered, taken⟩ := ih stream
      exact answered.respond taken turned
  | close _ _ ih =>
      obtain ⟨done, rest, answered⟩ := ih stream
      exact ⟨done, rest, _, _, answered, .inl rfl⟩
  | next _ _ ih =>
      obtain ⟨done, rest, answered⟩ := ih stream
      exact ⟨done, rest, _, answered, takenIn_new rfl⟩

end

end HttpServer

namespace Bench

/-- Of a stream of responses as much as has arrived is reported. -/
theorem receive_arrived {responses : List PlainResponse} {chunks : List Bytes} {b : Bench}
    {c : Conn} {unread future : Bytes} (holds : Holds c unread)
    (stream : unread ++ (chunks.flatten ++ future) = responses.flatMap (·.serialize)) :
    ∃ told left, responses = told ++ left ∧ (receive b c chunks).ok = true ∧
      (receive b c chunks).calls = told.map (fun r => .onResponseComplete r.status) ∧
      (future = [] → (chunks = [] → responses = []) → left = []) := by
  induction chunks generalizing responses b c unread with
  | nil => exact ⟨[], responses, rfl, rfl, rfl, fun _ none => none rfl⟩
  | cons chunk chunks ih =>
      rw [List.flatten_cons, List.append_assoc, ← List.append_assoc unread] at stream
      obtain ⟨done, rest, left, rfl, reports⟩ :=
        drainHttp_serialized (b := b) (holds.append chunk) stream
      obtain ⟨told, others, rfl, ok, calls, finished⟩ :=
        ih (b := (drainHttp b _).bench) reports.holds reports.stream
      refine ⟨done ++ told, others, (List.append_assoc _ _ _).symm, ?_⟩
      rw [receive]
      dsimp only
      rw [if_pos reports.ok]
      refine ⟨ok, ?_, fun nothing _ => finished nothing fun none => ?_⟩
      · rw [List.map_append, ← reports.calls, ← calls]
      · exact reports.finished (by rw [none, nothing]; rfl)

end Bench

namespace HttpServer

namespace Loop

variable {σ : Type}

theorem run_loop_of_watched {handler : Option (Handler σ)} {w m : Watched σ}
    {actions : List (Action σ)} {trace : List (Action σ × List Event)}
    (ran : Machine.run (Watched.step handler) w actions = some (m, trace)) :
    Machine.run (Loop.step handler) w.loop actions = some (m.loop, trace) := by
  induction actions generalizing w trace with
  | nil =>
      cases ran
      rfl
  | cons action actions ih =>
      obtain ⟨next, output, rest, stepped, continued, rfl⟩ := Machine.run_cons_eq_some.mp ran
      obtain ⟨⟨loop, events⟩, taken, result⟩ := Option.map_eq_some_iff.mp stepped
      cases result
      exact Machine.run_cons_eq_some.mpr ⟨loop, output, rest, taken, ih continued, rfl⟩

theorem steady_run {handler : Option (Handler σ)} {app : σ} {actions : List (Action σ)}
    {s : State σ} {trace : List (Action σ × List Event)}
    (ran : Machine.run (Loop.step handler) { app } actions = some (s, trace)) : Steady s := by
  refine Machine.run_induct (motive := fun _ s => Steady s)
    (fun _ _ _ _ _ steady stepped => (steady.step stepped).1) ?_ ran
  refine steady_of_quiet fun fd entry found => ?_
  cases (AList.lookup_empty fd).symm.trans found

/-- Responses whose serializations make up no bytes are no responses. -/
theorem responses_eq_nil {responses : List Bench.PlainResponse}
    (nothing : responses.flatMap (·.serialize) = []) : responses = [] := by
  cases responses with
  | nil => rfl
  | cons r responses =>
      have none : r.serialize = [] := (List.append_eq_nil_iff.mp nothing).1
      have size := congrArg List.length none
      rw [r.serialize_eq, List.length_append, List.length_nil] at size
      have some_octet := r.length_head.1
      omega

/-- In every run, for every open connection: if its client sends rendered
requests, of which a part has arrived, and the answers of the handler are plain
ones, then between callbacks the handler has been called with the requests that
have arrived whole, once and in order, and has answered each.  A client that
decodes what the kernel has taken finds no error and the statuses of the first
of these answers, and of all of them if nothing is waiting to be sent.  As in
`run_sessions`, a descriptor is taken to stand for its connection. -/
theorem run_exchange {handler : Option (Handler σ)} {app : σ} {actions : List (Action σ)}
    {w : Watched σ} {trace : List (Action σ × List Event)}
    (ran : Machine.run (Watched.step handler) { loop := { app } } actions = some (w, trace))
    (control : w.loop.control = .poll) {fd : Nat} {entry : Entry}
    (found : w.loop.conns.lookup fd = some entry)
    {requests : List HttpParser.ClientRequest} {missing : Bytes}
    (stream : (w.logs entry.id).chunks.flatten ++ missing = requests.flatMap (·.render))
    {responses : List Bench.PlainResponse}
    (plain : (w.logs entry.id).replies = responses.map (·.toHttpResponse))
    {chunks : List Bytes} (cut : chunks.flatten = entry.path.accepted) (b : Bench) :
    ∃ done rest told left, requests = done ++ rest ∧
      (w.logs entry.id).requests = done.map (·.request) ∧
      (∃ unread, unread ++ missing = rest.flatMap (·.render) ∧
        ∀ r ∈ rest.head?, unread.length < r.render.length) ∧
      responses = told ++ left ∧ responses.length = done.length ∧
      (b.receive {} chunks).ok = true ∧
      (b.receive {} chunks).calls = told.map (fun r => .onResponseComplete r.status) ∧
      (entry.path.conn.out = [] → left = []) := by
  obtain ⟨done, rest, unread, answered, _, short⟩ :=
    ((follows_run ran).idle control found).exchanging stream
  have given : entry.given = responses.flatMap (·.serialize) := by
    rw [answered.sent, plain, List.flatMap_map]
  have intact := ((steady_run (run_loop_of_watched ran)).tracks fd entry found).intact.stream
  have holds : Bench.Holds ({} : Bench.Conn) [] := ⟨Nat.le_refl _, rfl⟩
  obtain ⟨told, left, all, ok, calls, finished⟩ :=
    @Bench.receive_arrived responses chunks b {} [] entry.path.conn.out holds (by
      rw [List.nil_append, cut, intact, given])
  refine ⟨done, rest, told, left, answered.all, answered.handled,
    ⟨unread, answered.stream, short⟩, all, ?_, ok, calls,
    fun nothing => finished nothing fun none => ?_⟩
  · rw [← answered.number, plain, List.length_map]
  · rw [nothing, List.append_nil, ← cut, none] at intact
    exact responses_eq_nil (given ▸ intact.symm)

/-- A client's request. -/
def getPage : HttpParser.Message where
  method := lit "GET"
  target := lit "/a"
  version := lit "HTTP/1.1"
  headers := [(lit "Host", lit "h")]
  body := []

/-- The first response of `numbered`. -/
def zeroPage : HttpResponse := { body := lit "0" }

/-- A request and the start of another one arrive; the response is taken in two
parts. -/
def onePage : List (Action Nat) :=
  [.connected 5 1 0, .message 5 (getPage.render ++ getPage.render.take 10), .run none 0,
    .run none 0, .run (some (.sent 30)) 0,
    .run (some (.sent (zeroPage.serialize.length - 30))) 0, .run none 0, .run none 0,
    .run none 0]

theorem run_exchange_onePage :
    let b : Bench := { clock := fun reads => UInt64.ofNat reads }
    ∃ (get : HttpParser.ClientRequest) (page : Bench.PlainResponse)
        (done rest : List HttpParser.ClientRequest) (told left : List Bench.PlainResponse),
      get.toMessage = getPage ∧ page.toHttpResponse = zeroPage ∧
        [get, get] = done ++ rest ∧ done.length = 1 ∧ [page] = told ++ left ∧
        (b.receive {} [zeroPage.serialize.take 20, zeroPage.serialize.drop 20]).calls =
          told.map (fun r => .onResponseComplete r.status) ∧
        left = [] := by
  intro b
  let get : HttpParser.ClientRequest :=
    { getPage with
      method_word := by decide
      target_word := by decide
      version_known := by decide
      headers_plain := by decide
      no_coding := by decide
      one_length := fun some_octet => absurd rfl some_octet
      no_length := fun _ => by decide
      section_fits := by decide
      body_fits := by decide }
  let page : Bench.PlainResponse :=
    { zeroPage with
      status_valid := by decide
      contentType_oneLine := by decide
      extra_plain := by decide
      section_fits := by decide +kernel
      body_fits := by decide }
  have ends : ((Machine.run (Watched.step (some numbered)) { loop := { app := 0 } }
      onePage).any fun r => r.1.loop.control.polls &&
        decide ((r.1.logs 1).chunks = [getPage.render ++ getPage.render.take 10] ∧
          (r.1.logs 1).replies = [zeroPage]) &&
        (r.1.loop.conns.lookup 5).any fun entry => decide (entry.id = 1 ∧
          entry.path.accepted = zeroPage.serialize ∧ entry.path.conn.out = [])) = true := by
    decide +kernel
  obtain ⟨⟨w, trace⟩, ran, ends⟩ := (Option.any_eq_true _ _).mp ends
  rw [Bool.and_eq_true, Bool.and_eq_true] at ends
  obtain ⟨⟨polls, logged⟩, open_⟩ := ends
  obtain ⟨entry, found, sent⟩ := (Option.any_eq_true _ _).mp open_
  obtain ⟨arrived, replied⟩ := of_decide_eq_true logged
  obtain ⟨first, accepted, out⟩ := of_decide_eq_true sent
  have stream : (w.logs entry.id).chunks.flatten ++ getPage.render.drop 10 =
      [get, get].flatMap (·.render) := by
    rw [first, arrived]
    simp [get]
  have plain : (w.logs entry.id).replies = [page].map (·.toHttpResponse) := by
    rw [first, replied]
    rfl
  have cut : [zeroPage.serialize.take 20, zeroPage.serialize.drop 20].flatten =
      entry.path.accepted := by
    rw [accepted]
    simp
  obtain ⟨done, rest, told, left, all, _, _, split, number, _, calls, finished⟩ :=
    run_exchange ran (Control.eq_poll polls) found stream plain cut b
  exact ⟨get, page, done, rest, told, left, rfl, rfl, all, number.symm, split, calls,
    finished out⟩

end Loop

end HttpServer

end MiniNet
