import MiniNet.HttpParser

/-!
# The parser on a byte stream

`Stream.parse` is the parser without its two accidental parts: it works on a
byte queue instead of a buffer, and it does not count the bytes of the header
section, so it never answers 431.  Cutting its input differently cannot change
what it does (`parse_resumes`).

The parser proper agrees with it on every call that does not answer 431
(`parse_eq_stream`), which is how facts about streams reach the code.
-/

namespace MiniNet

open Bytes

namespace HttpParser

/-- The parser state that does not depend on how the bytes arrived. -/
def forgetCount (p : HttpParser) : HttpParser := { p with headerBytes := 0 }

/-- The call answered 431. -/
def Result.TooLarge (result : Result) : Prop :=
  ∃ err, result = .error err ∧ err.status = 431

@[simp] theorem forgetCount_state (p : HttpParser) :
    p.forgetCount.state = p.state := rfl

@[simp] theorem forgetCount_req (p : HttpParser) :
    p.forgetCount.req = p.req := rfl

@[simp] theorem forgetCount_contentLength (p : HttpParser) :
    p.forgetCount.contentLength = p.contentLength := rfl

/-- What a call shows to a reader who cannot see the byte counter or the
layout of the buffer. -/
def observe (outcome : Result × HttpParser × Buffer) :
    Result × HttpParser × Bytes :=
  (outcome.1, outcome.2.1.forgetCount, outcome.2.2.readable)

namespace Stream

def parseRequestLine (p : HttpParser) (queue : Bytes) :
    Result × HttpParser × Bytes :=
  match cut? lf queue with
  | none => (.needMore, p, queue)
  | some (line, rest) =>
      match readRequestLine p.req line with
      | .error err => (.error err, p, rest)
      | .ok req => (.complete, { p with req }, rest)

def parseHeaders (p : HttpParser) (queue : Bytes) :
    Result × HttpParser × Bytes :=
  match _found : cut? lf queue with
  | none => (.needMore, p, queue)
  | some (raw, rest) =>
      if trim raw = [] then
        match finishHeaders p with
        | .error err => (.error err, p, rest)
        | .ok p => (.complete, p, rest)
      else
        match readHeaderLine p.req (trim raw) with
        | .error err => (.error err, p, rest)
        | .ok req => parseHeaders { p with req } rest
termination_by queue.length
decreasing_by exact length_lt_of_cut? ‹_›

def parseBody (p : HttpParser) (queue : Bytes) :
    Result × HttpParser × Bytes :=
  if queue.length < p.contentLength then (.needMore, p, queue)
  else
    (.complete,
      { p with req := { p.req with body := queue.take p.contentLength } },
      queue.drop p.contentLength)

def parse : HttpParser → Bytes → Result × HttpParser × Bytes :=
  parseLoop parseRequestLine parseHeaders parseBody

theorem parseHeaders_of_none {p : HttpParser} {queue : Bytes}
    (uncut : cut? lf queue = none) :
    parseHeaders p queue = (.needMore, p, queue) := by
  rw [parseHeaders]
  split
  · rfl
  · rename_i found
    rw [uncut] at found
    cases found

theorem parseHeaders_of_some {p : HttpParser} {queue raw rest : Bytes}
    (found : cut? lf queue = some (raw, rest)) :
    parseHeaders p queue =
      if trim raw = [] then
        match finishHeaders p with
        | .error err => (.error err, p, rest)
        | .ok p => (.complete, p, rest)
      else
        match readHeaderLine p.req (trim raw) with
        | .error err => (.error err, p, rest)
        | .ok req => parseHeaders { p with req } rest := by
  rw [parseHeaders]
  split
  · rename_i uncut
    rw [found] at uncut
    cases uncut
  · rename_i line remaining cut
    obtain ⟨rfl, rfl⟩ : line = raw ∧ remaining = rest := by
      simpa [found, eq_comm] using cut
    rfl

/-! ## Resuming an interrupted call -/

/-- `long` is the outcome on a longer queue when `short` is the outcome on
the queue without its last part `more`: a call that asked for more bytes is
taken up again where it stopped, any other call is not affected. -/
def Resumes (again : HttpParser → Bytes → Result × HttpParser × Bytes)
    (more : Bytes) (short long : Result × HttpParser × Bytes) : Prop :=
  match short with
  | (.needMore, p, queue) => long = again p (queue ++ more)
  | (.complete, p, queue) => long = (.complete, p, queue ++ more)
  | (.error err, p, queue) => long = (.error err, p, queue ++ more)

theorem parseRequestLine_resumes (p : HttpParser) (queue more : Bytes) :
    Resumes parseRequestLine more (parseRequestLine p queue)
      (parseRequestLine p (queue ++ more)) := by
  cases found : cut? lf queue with
  | none =>
      have short : parseRequestLine p queue = (.needMore, p, queue) := by
        simp [parseRequestLine, found]
      rw [short]
      rfl
  | some parts =>
      obtain ⟨line, rest⟩ := parts
      simp only [parseRequestLine, found, cut?_append_right found more]
      cases readRequestLine p.req line with
      | error err => rfl
      | ok req => rfl

theorem parseHeaders_resumes (p : HttpParser) (queue more : Bytes) :
    Resumes parseHeaders more (parseHeaders p queue)
      (parseHeaders p (queue ++ more)) := by
  induction p, queue using parseHeaders.induct with
  | case1 p queue found =>
      rw [parseHeaders_of_none found]
      rfl
  | case2 p queue raw rest found blank err ended =>
      rw [parseHeaders_of_some found,
        parseHeaders_of_some (cut?_append_right found more)]
      simp only [blank, if_true, ended]
      rfl
  | case3 p queue raw rest found blank ended finished =>
      rw [parseHeaders_of_some found,
        parseHeaders_of_some (cut?_append_right found more)]
      simp only [blank, if_true, finished]
      rfl
  | case4 p queue raw rest found text err rejected =>
      rw [parseHeaders_of_some found,
        parseHeaders_of_some (cut?_append_right found more)]
      simp only [text, if_false, rejected]
      rfl
  | case5 p queue raw rest found text req accepted ih =>
      rw [parseHeaders_of_some found,
        parseHeaders_of_some (cut?_append_right found more)]
      simpa only [text, if_false, accepted] using ih

theorem parseBody_resumes (p : HttpParser) (queue more : Bytes) :
    Resumes parseBody more (parseBody p queue)
      (parseBody p (queue ++ more)) := by
  by_cases short : queue.length < p.contentLength
  · have waiting : parseBody p queue = (.needMore, p, queue) := by
      simp [parseBody, short]
    rw [waiting]
    rfl
  · have enough : p.contentLength ≤ queue.length := by omega
    have still : ¬(queue ++ more).length < p.contentLength := by
      rw [List.length_append]
      omega
    simp only [parseBody, short, still, if_false, Resumes]
    rw [List.take_append_of_le_length enough, List.drop_append_of_le_length enough]

/-- A header loop that asks for more bytes leaves the parser in its stage. -/
theorem state_parseHeaders {p q : HttpParser} {queue rest : Bytes}
    (waiting : parseHeaders p queue = (.needMore, q, rest)) :
    q.state = p.state := by
  induction p, queue using parseHeaders.induct with
  | case1 p queue found =>
      rw [parseHeaders_of_none found] at waiting
      cases waiting
      rfl
  | case2 p queue raw tail found blank err ended =>
      rw [parseHeaders_of_some found] at waiting
      simp [blank, ended] at waiting
  | case3 p queue raw tail found blank ended finished =>
      rw [parseHeaders_of_some found] at waiting
      simp [blank, finished] at waiting
  | case4 p queue raw tail found text err rejected =>
      rw [parseHeaders_of_some found] at waiting
      simp [text, rejected] at waiting
  | case5 p queue raw tail found text req accepted ih =>
      rw [parseHeaders_of_some found] at waiting
      simp only [text, if_false, accepted] at waiting
      exact ih waiting

theorem resumes_andThen {more : Bytes}
    {stage next : HttpParser → Bytes → Result × HttpParser × Bytes}
    {short long : Result × HttpParser × Bytes}
    (first : Resumes stage more short long)
    (again : ∀ p queue, short = (.needMore, p, queue) →
      parse p (queue ++ more) = andThen (stage p (queue ++ more)) next)
    (later : ∀ p queue,
      Resumes parse more (next p queue) (next p (queue ++ more))) :
    Resumes parse more (andThen short next) (andThen long next) := by
  obtain ⟨result, p, queue⟩ := short
  cases result with
  | needMore =>
      change long = stage p (queue ++ more) at first
      rw [first, ← again p queue rfl]
      rfl
  | complete =>
      change long = (.complete, p, queue ++ more) at first
      rw [first]
      exact later p queue
  | error err =>
      change long = (.error err, p, queue ++ more) at first
      rw [first]
      rfl

/-- Parsing can be interrupted anywhere: bytes that arrive later give the
same outcome as if they had been there from the start. -/
theorem parse_resumes (p : HttpParser) (queue more : Bytes) :
    Resumes parse more (parse p queue) (parse p (queue ++ more)) := by
  unfold parse
  induction p, queue using parseLoop.induct with
  | case1 p queue stage ih =>
      rw [parseLoop_requestLine _ _ _ _ stage, parseLoop_requestLine _ _ _ _ stage]
      refine resumes_andThen (parseRequestLine_resumes p queue more) ?_ ih
      intro q rest waiting
      refine parseLoop_requestLine _ _ _ _ ?_
      unfold parseRequestLine at waiting
      split at waiting
      · cases waiting
        exact stage
      · split at waiting <;> simp at waiting
  | case2 p queue stage ihDone ihBody =>
      rw [parseLoop_headers _ _ _ _ stage, parseLoop_headers _ _ _ _ stage]
      refine resumes_andThen (parseHeaders_resumes p queue more) ?_ ?_
      · intro q rest waiting
        exact parseLoop_headers _ _ _ _ ((state_parseHeaders waiting).trans stage)
      · intro q rest
        split
        · exact ihDone q rest
        · exact ihBody q rest
  | case3 p queue stage ih =>
      rw [parseLoop_body _ _ _ _ stage, parseLoop_body _ _ _ _ stage]
      refine resumes_andThen (parseBody_resumes p queue more) ?_ ih
      intro q rest waiting
      refine parseLoop_body _ _ _ _ ?_
      unfold parseBody at waiting
      split at waiting
      · cases waiting
        exact stage
      · simp at waiting
  | case4 p queue stage =>
      rw [parseLoop_done _ _ _ _ stage, parseLoop_done _ _ _ _ stage]
      rfl

/-! ## Consumption -/

theorem andThen_eq_complete {β : Type}
    {outcome : Result × HttpParser × β}
    {next : HttpParser → β → Result × HttpParser × β}
    {p : HttpParser} {rest : β}
    (finished : andThen outcome next = (.complete, p, rest)) :
    ∃ middle between, outcome = (.complete, middle, between) ∧
      next middle between = (.complete, p, rest) := by
  obtain ⟨result, middle, between⟩ := outcome
  cases result with
  | complete => exact ⟨middle, between, rfl, finished⟩
  | needMore => cases finished
  | error err => cases finished

theorem length_parseRequestLine {p q : HttpParser} {queue rest : Bytes}
    (finished : parseRequestLine p queue = (.complete, q, rest)) :
    rest.length < queue.length := by
  unfold parseRequestLine at finished
  split at finished
  · cases finished
  · rename_i found
    split at finished
    · cases finished
    · cases finished
      exact length_lt_of_cut? found

theorem length_parseHeaders {p q : HttpParser} {queue rest : Bytes}
    (finished : parseHeaders p queue = (.complete, q, rest)) :
    rest.length < queue.length := by
  induction p, queue using parseHeaders.induct with
  | case1 p queue found =>
      rw [parseHeaders_of_none found] at finished
      cases finished
  | case2 p queue raw tail found blank err ended =>
      rw [parseHeaders_of_some found] at finished
      simp [blank, ended] at finished
  | case3 p queue raw tail found blank ended accepted =>
      rw [parseHeaders_of_some found] at finished
      simp only [blank, if_true, accepted] at finished
      cases finished
      exact length_lt_of_cut? found
  | case4 p queue raw tail found text err rejected =>
      rw [parseHeaders_of_some found] at finished
      simp [text, rejected] at finished
  | case5 p queue raw tail found text req accepted ih =>
      rw [parseHeaders_of_some found] at finished
      simp only [text, if_false, accepted] at finished
      exact (ih finished).trans (length_lt_of_cut? found)

theorem length_parseBody {p q : HttpParser} {queue rest : Bytes}
    (finished : parseBody p queue = (.complete, q, rest)) :
    rest.length ≤ queue.length := by
  unfold parseBody at finished
  split at finished
  · cases finished
  · cases finished
    simp

/-- The stages that read a line before they can finish. -/
def State.readsLine : State → Nat
  | .requestLine => 1
  | .headers => 1
  | .body => 0
  | .done => 0

theorem length_parse {p q : HttpParser} {queue rest : Bytes}
    (finished : parse p queue = (.complete, q, rest)) :
    rest.length + State.readsLine p.state ≤ queue.length := by
  unfold parse at finished
  induction p, queue using parseLoop.induct with
  | case1 p queue stage ih =>
      rw [parseLoop_requestLine _ _ _ _ stage] at finished
      obtain ⟨middle, between, first, later⟩ := andThen_eq_complete finished
      have shorter := length_parseRequestLine first
      have remaining := ih middle between later
      simp only [stage, State.readsLine] at remaining ⊢
      omega
  | case2 p queue stage ihDone ihBody =>
      rw [parseLoop_headers _ _ _ _ stage] at finished
      obtain ⟨middle, between, first, later⟩ := andThen_eq_complete finished
      have shorter := length_parseHeaders first
      have remaining : rest.length ≤ between.length := by
        split at later
        · exact ihDone middle between later
        · exact ihBody middle between later
      simp only [stage, State.readsLine]
      omega
  | case3 p queue stage ih =>
      rw [parseLoop_body _ _ _ _ stage] at finished
      obtain ⟨middle, between, first, later⟩ := andThen_eq_complete finished
      have shorter := length_parseBody first
      have remaining := ih middle between later
      simp only [stage, State.readsLine] at remaining ⊢
      omega
  | case4 p queue stage =>
      rw [parseLoop_done _ _ _ _ stage] at finished
      cases finished
      simp [stage, State.readsLine]

end Stream

/-! ## Agreement with the parser -/

theorem finishHeaders_forgetCount (p : HttpParser) :
    finishHeaders p.forgetCount = (finishHeaders p).map forgetCount := by
  simp only [finishHeaders, forgetCount_req, forgetCount_contentLength]
  by_cases chunked : isChunked p.req = true
  · simp [chunked, Except.map]
  · cases readContentLength p.req p.contentLength with
    | error err => simp [chunked, Except.map]
    | ok contentLength => simp [chunked, Except.map, forgetCount]

theorem parseRequestLine_eq_stream (p : HttpParser) (buf : Buffer) :
    (parseRequestLine p buf).1.TooLarge ∨
      observe (parseRequestLine p buf) =
        Stream.parseRequestLine p.forgetCount buf.readable := by
  unfold parseRequestLine Stream.parseRequestLine
  rcases buf.findEOL_cases with
    ⟨absent, uncut⟩ | ⟨eol, line, rest, located, cut, text, left⟩
  · simp only [absent, uncut]
    split
    · exact .inl ⟨_, rfl, rfl⟩
    · exact .inr rfl
  · right
    simp only [located, cut, text, forgetCount_req]
    cases readRequestLine p.req line with
    | error err => simp [forgetCount, observe, left]
    | ok req => simp [forgetCount, observe, left]

theorem parseHeaders_eq_stream (p : HttpParser) (buf : Buffer) :
    (parseHeaders p buf).1.TooLarge ∨
      observe (parseHeaders p buf) =
        Stream.parseHeaders p.forgetCount buf.readable := by
  induction size : buf.readableBytes using Nat.strong_induction_on
    generalizing p buf with
  | _ size ih =>
      rcases buf.findEOL_cases with
        ⟨absent, uncut⟩ | ⟨eol, line, rest, located, cut, text, left⟩
      · rw [parseHeaders_of_none absent, Stream.parseHeaders_of_none uncut]
        dsimp only
        split
        · exact .inl ⟨_, rfl, rfl⟩
        · exact .inr rfl
      · rw [parseHeaders_of_some located, Stream.parseHeaders_of_some cut]
        simp only [text, forgetCount_req]
        split
        · exact .inl ⟨_, rfl, rfl⟩
        · split
          · right
            have same := finishHeaders_forgetCount
              { p with headerBytes := p.headerBytes + (line.length + 1) }
            change finishHeaders p.forgetCount = _ at same
            rw [same]
            cases finishHeaders
              { p with headerBytes := p.headerBytes + (line.length + 1) } with
            | error err => simp [observe, forgetCount, left, Except.map]
            | ok ended => simp [observe, left, Except.map]
          · cases readHeaderLine p.req (trim line) with
            | error err => exact .inr (by simp [observe, forgetCount, left])
            | ok req =>
                have smaller := readableBytes_retrieveUntil_lt located
                rw [size] at smaller
                have tail := ih _ smaller
                  { p with
                    req
                    headerBytes := p.headerBytes + (line.length + 1) }
                  _ rfl
                rw [left] at tail
                exact tail

theorem parseBody_eq_stream (p : HttpParser) (buf : Buffer) :
    observe (parseBody p buf) =
      Stream.parseBody p.forgetCount buf.readable := by
  unfold parseBody Stream.parseBody
  rw [Buffer.length_readable, forgetCount_contentLength]
  split
  · rfl
  · simp [observe, forgetCount]

theorem andThen_eq_stream
    {outcome : Result × HttpParser × Buffer}
    {streamed : Result × HttpParser × Bytes}
    {next : HttpParser → Buffer → Result × HttpParser × Buffer}
    {streamNext : HttpParser → Bytes → Result × HttpParser × Bytes}
    (first : outcome.1.TooLarge ∨ observe outcome = streamed)
    (later : ∀ p buf, (next p buf).1.TooLarge ∨
      observe (next p buf) = streamNext p.forgetCount buf.readable) :
    (andThen outcome next).1.TooLarge ∨
      observe (andThen outcome next) = andThen streamed streamNext := by
  obtain ⟨result, p, buf⟩ := outcome
  cases result with
  | complete =>
      rcases first with ⟨_, absurdity, _⟩ | rfl
      · cases absurdity
      · exact later p buf
  | needMore =>
      rcases first with ⟨_, absurdity, _⟩ | rfl
      · cases absurdity
      · exact .inr rfl
  | error err =>
      rcases first with large | rfl
      · exact .inl large
      · exact .inr rfl

/-- Every call that does not answer 431 is a call on the stream. -/
theorem parse_eq_stream (p : HttpParser) (buf : Buffer) :
    (parse p buf).1.TooLarge ∨
      observe (parse p buf) = Stream.parse p.forgetCount buf.readable := by
  unfold parse Stream.parse
  induction p, buf using parseLoop.induct with
  | case1 p buf stage ih =>
      rw [parseLoop_requestLine _ _ _ _ stage,
        parseLoop_requestLine _ _ _ _ (p := p.forgetCount) stage]
      exact andThen_eq_stream (parseRequestLine_eq_stream p buf) ih
  | case2 p buf stage ihDone ihBody =>
      rw [parseLoop_headers _ _ _ _ stage,
        parseLoop_headers _ _ _ _ (p := p.forgetCount) stage]
      apply andThen_eq_stream (parseHeaders_eq_stream p buf)
      intro p buf
      rw [forgetCount_contentLength]
      split
      · exact ihDone p buf
      · exact ihBody p buf
  | case3 p buf stage ih =>
      rw [parseLoop_body _ _ _ _ stage,
        parseLoop_body _ _ _ _ (p := p.forgetCount) stage]
      exact andThen_eq_stream (.inr (parseBody_eq_stream p buf)) ih
  | case4 p buf stage =>
      rw [parseLoop_done _ _ _ _ stage,
        parseLoop_done _ _ _ _ (p := p.forgetCount) stage]
      exact .inr rfl

theorem stream_parse_of_parse {p q : HttpParser} {buf rest : Buffer}
    {result : Result} (called : parse p buf = (result, q, rest))
    (small : ∀ err, result = .error err → err.status ≠ 431) :
    Stream.parse p.forgetCount buf.readable =
      (result, q.forgetCount, rest.readable) := by
  rcases parse_eq_stream p buf with ⟨err, large, status⟩ | same
  · rw [called] at large
    exact absurd status (small err large)
  · rw [called] at same
    exact same.symm

/-- A call that completes a request consumes at least one byte, unless it was
already past the headers. -/
theorem readableBytes_parse {p q : HttpParser} {buf rest : Buffer}
    (finished : parse p buf = (.complete, q, rest)) :
    rest.readableBytes + Stream.State.readsLine p.state ≤ buf.readableBytes := by
  have shorter := Stream.length_parse (stream_parse_of_parse finished nofun)
  simpa using shorter

end HttpParser

end MiniNet
