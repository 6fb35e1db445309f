import MiniNet.HttpParser.Stream

/-!
# Header sections

`Head bytes req` says that a header section, from the request line through
the blank line, is read as the head of a request.  What a call of the parser
does is stated in these terms: which lines it has taken off the buffer, which
fields it has read from them and how far its counter has moved.
-/

namespace MiniNet

open Bytes

namespace HttpParser

/-- Complete header lines, and the fields they are read as. -/
inductive Fields : Bytes → List (Bytes × Bytes) → Prop where
  | nil : Fields [] []
  | line {line name value rest : Bytes} {fields : List (Bytes × Bytes)}
      (oneLine : lf ∉ line) (text : trim line ≠ [])
      (colon : cut? 58 (trim line) = some (name, value))
      (tail : Fields rest fields) :
      Fields (line ++ lf :: rest) ((lower (trim name), trim value) :: fields)

/-- A request line and some complete header lines. -/
inductive OpenHead : Bytes → HttpRequest → Prop where
  | mk {line rest : Bytes} {first : HttpRequest} {fields : List (Bytes × Bytes)}
      (oneLine : lf ∉ line) (accepted : readRequestLine {} line = .ok first)
      (tail : Fields rest fields) :
      OpenHead (line ++ lf :: rest) { first with headers := fields }

/-- A header section through the blank line that ends it. -/
inductive Head : Bytes → HttpRequest → Prop where
  | mk {lines blank : Bytes} {req : HttpRequest} (lines_ : OpenHead lines req)
      (oneLine : lf ∉ blank) (empty : trim blank = []) :
      Head (lines ++ (blank ++ [lf])) req

theorem Fields.append {lines more : Bytes} {fields others : List (Bytes × Bytes)}
    (first : Fields lines fields) (second : Fields more others) :
    Fields (lines ++ more) (fields ++ others) := by
  induction first with
  | nil => exact second
  | line oneLine text colon tail ih =>
      rw [List.append_assoc, List.cons_append]
      exact .line oneLine text colon ih

theorem OpenHead.append {lines more : Bytes} {req : HttpRequest}
    {fields : List (Bytes × Bytes)} (first : OpenHead lines req)
    (second : Fields more fields) :
    OpenHead (lines ++ more) { req with headers := req.headers ++ fields } := by
  obtain ⟨oneLine, accepted, tail⟩ := first
  rw [List.append_assoc, List.cons_append]
  have longer := OpenHead.mk oneLine accepted (tail.append second)
  exact longer

/-! ## The end of the header section -/

theorem finishHeaders_eq_ok {p q : HttpParser} :
    finishHeaders p = .ok q ↔
      isChunked p.req = false ∧
        ∃ length, readContentLength p.req p.contentLength = .ok length ∧
          q = { p with
            contentLength := length
            req := { p.req with keepAlive := readConnection p.req } } := by
  unfold finishHeaders
  cases isChunked p.req with
  | true => simp
  | false =>
      cases readContentLength p.req p.contentLength with
      | error err => simp
      | ok length => simp [eq_comm]

theorem readContentLength_le {req : HttpRequest} {length : Nat}
    (read : readContentLength req 0 = .ok length) : length ≤ kMaxBodyBytes := by
  unfold readContentLength at read
  split at read
  · cases read
    exact Nat.zero_le _
  · split at read
    · cases read
    · split at read
      · cases read
      · split at read
        · cases read
        · rename_i small
          cases read
          omega

/-! ## One turn of the header loop -/

/-- The parser after it has read these fields and counted these bytes. -/
def withFields (p : HttpParser) (fields : List (Bytes × Bytes)) (count : Nat) :
    HttpParser :=
  { p with
    req := { p.req with headers := p.req.headers ++ fields }
    headerBytes := p.headerBytes + count }

theorem withFields_nil (p : HttpParser) (count : Nat) :
    withFields p [] count = { p with headerBytes := p.headerBytes + count } := by
  simp [withFields]

theorem withFields_withFields (p : HttpParser) (fields more : List (Bytes × Bytes))
    (count later : Nat) :
    withFields (withFields p fields count) more later =
      withFields p (fields ++ more) (count + later) := by
  simp [withFields, Nat.add_assoc]

/-- What a call of `parseHeaders` can do in its first turn. -/
inductive HeaderTurn (p : HttpParser) (buf : Buffer) :
    Result × HttpParser × Buffer → Prop where
  | unfinished (uncut : lf ∉ buf.readable)
      (fits : p.headerBytes + buf.readable.length ≤ kMaxHeaderBytes) :
      HeaderTurn p buf (.needMore, withFields p [] buf.readable.length, buf)
  | unfinishedTooLarge (uncut : lf ∉ buf.readable)
      (large : kMaxHeaderBytes < p.headerBytes + buf.readable.length) :
      HeaderTurn p buf
        (.error headersTooLarge, withFields p [] buf.readable.length, buf)
  | tooLarge {line : Bytes} {rest : Buffer} (oneLine : lf ∉ line)
      (queue : buf.readable = line ++ lf :: rest.readable)
      (large : kMaxHeaderBytes < p.headerBytes + (line.length + 1)) :
      HeaderTurn p buf
        (.error headersTooLarge, withFields p [] (line.length + 1), rest)
  | rejected {line : Bytes} {rest : Buffer} {err : Error} (oneLine : lf ∉ line)
      (queue : buf.readable = line ++ lf :: rest.readable)
      (fits : p.headerBytes + (line.length + 1) ≤ kMaxHeaderBytes)
      (empty : trim line = [])
      (failed : finishHeaders (withFields p [] (line.length + 1)) = .error err) :
      HeaderTurn p buf (.error err, withFields p [] (line.length + 1), rest)
  | ended {line : Bytes} {rest : Buffer} {q : HttpParser} (oneLine : lf ∉ line)
      (queue : buf.readable = line ++ lf :: rest.readable)
      (fits : p.headerBytes + (line.length + 1) ≤ kMaxHeaderBytes)
      (empty : trim line = [])
      (finished : finishHeaders (withFields p [] (line.length + 1)) = .ok q) :
      HeaderTurn p buf (.complete, q, rest)
  | noColon {line : Bytes} {rest : Buffer} {err : Error} (oneLine : lf ∉ line)
      (queue : buf.readable = line ++ lf :: rest.readable)
      (fits : p.headerBytes + (line.length + 1) ≤ kMaxHeaderBytes)
      (text : trim line ≠ []) (none : cut? 58 (trim line) = none) :
      HeaderTurn p buf (.error err, withFields p [] (line.length + 1), rest)
  | line {line name value : Bytes} {rest : Buffer} (oneLine : lf ∉ line)
      (queue : buf.readable = line ++ lf :: rest.readable)
      (fits : p.headerBytes + (line.length + 1) ≤ kMaxHeaderBytes)
      (text : trim line ≠ []) (colon : cut? 58 (trim line) = some (name, value)) :
      HeaderTurn p buf
        (parseHeaders (withFields p [(lower (trim name), trim value)] (line.length + 1))
          rest)

theorem headerTurn (p : HttpParser) (buf : Buffer) :
    HeaderTurn p buf (parseHeaders p buf) := by
  rcases buf.findEOL_cases with
    ⟨absent, uncut⟩ | ⟨eol, line, rest, located, cut, text, left⟩
  · have noLine := cut?_eq_none_iff.mp uncut
    rw [parseHeaders_of_none absent, ← Buffer.length_readable, ← withFields_nil]
    dsimp only
    split
    · rename_i large
      exact .unfinishedTooLarge noLine large
    · rename_i fits
      exact .unfinished noLine (Nat.le_of_not_lt fits)
  · obtain ⟨oneLine, queue⟩ := cut?_eq_some_iff.mp cut
    rw [← left] at queue
    have counted := withFields_nil p (line.length + 1)
    rw [parseHeaders_of_some located, text]
    dsimp only
    split
    · rename_i large
      rw [← counted]
      exact .tooLarge oneLine queue large
    · rename_i small
      have fits : p.headerBytes + (line.length + 1) ≤ kMaxHeaderBytes :=
        Nat.le_of_not_lt small
      split
      · rename_i empty
        rw [← counted]
        cases finished : finishHeaders (withFields p [] (line.length + 1)) with
        | error err => exact .rejected oneLine queue fits empty finished
        | ok q => exact .ended oneLine queue fits empty finished
      · rename_i text
        unfold readHeaderLine
        cases colon : cut? 58 (trim line) with
        | none =>
            rw [← counted]
            exact .noColon oneLine queue fits text colon
        | some parts =>
            obtain ⟨name, value⟩ := parts
            exact .line oneLine queue fits text colon

private theorem readableBytes_lt {buf rest : Buffer} {line : Bytes}
    (queue : buf.readable = line ++ lf :: rest.readable) :
    rest.readableBytes < buf.readableBytes := by
  rw [← Buffer.length_readable, ← Buffer.length_readable, queue]
  simp only [List.length_append, List.length_cons]
  omega

/-! ## The header loop -/

/-- Where the loop has got to when it asks for more bytes. -/
theorem parseHeaders_needMore {p q : HttpParser} {buf rest : Buffer}
    (waiting : parseHeaders p buf = (.needMore, q, rest)) :
    ∃ lines fields, Fields lines fields ∧ buf.readable = lines ++ rest.readable ∧
      lf ∉ rest.readable ∧ q = withFields p fields buf.readable.length ∧
      q.headerBytes ≤ kMaxHeaderBytes := by
  induction size : buf.readableBytes using Nat.strong_induction_on
    generalizing p buf with
  | _ size ih =>
      have turn := headerTurn p buf
      rw [waiting] at turn
      generalize outcome : (Result.needMore, q, rest) = result at turn
      cases turn with
      | unfinished uncut fits =>
          cases outcome
          exact ⟨[], [], .nil, rfl, uncut, rfl, fits⟩
      | unfinishedTooLarge uncut large => cases outcome
      | tooLarge oneLine queue large => cases outcome
      | rejected oneLine queue fits empty failed => cases outcome
      | ended oneLine queue fits empty finished => cases outcome
      | noColon oneLine queue fits text none => cases outcome
      | @line line name value later oneLine queue fits text colon =>
          have shorter := readableBytes_lt queue
          rw [size] at shorter
          obtain ⟨lines, fields, read, left, uncut, same, small⟩ :=
            ih _ shorter outcome.symm rfl
          refine ⟨_, _, .line oneLine text colon read, ?_, uncut, ?_, small⟩
          · rw [queue, left]
            simp
          · rw [same, withFields_withFields, queue]
            simp only [List.length_append, List.length_cons, List.singleton_append]
            congr 1
            omega

/-- What the loop has read when it has found the end of the section. -/
theorem parseHeaders_complete {p q : HttpParser} {buf rest : Buffer}
    (ended : parseHeaders p buf = (.complete, q, rest)) :
    ∃ lines fields blank, Fields lines fields ∧ lf ∉ blank ∧ trim blank = [] ∧
      buf.readable = lines ++ (blank ++ [lf]) ++ rest.readable ∧
      p.headerBytes + (lines ++ (blank ++ [lf])).length ≤ kMaxHeaderBytes ∧
      finishHeaders (withFields p fields (lines ++ (blank ++ [lf])).length) = .ok q := by
  induction size : buf.readableBytes using Nat.strong_induction_on
    generalizing p buf with
  | _ size ih =>
      have turn := headerTurn p buf
      rw [ended] at turn
      generalize outcome : (Result.complete, q, rest) = result at turn
      cases turn with
      | unfinished uncut fits => cases outcome
      | unfinishedTooLarge uncut large => cases outcome
      | tooLarge oneLine queue large => cases outcome
      | rejected oneLine queue fits empty failed => cases outcome
      | @ended line _ _ oneLine queue fits empty finished =>
          cases outcome
          refine ⟨[], [], line, .nil, oneLine, empty, ?_, ?_, ?_⟩
          · simpa using queue
          · simpa using fits
          · simpa using finished
      | noColon oneLine queue fits text none => cases outcome
      | @line line name value later oneLine queue fits text colon =>
          have shorter := readableBytes_lt queue
          rw [size] at shorter
          obtain ⟨lines, fields, blank, read, lastLine, empty, left, small, finished⟩ :=
            ih _ shorter outcome.symm rfl
          refine ⟨_, _, blank, .line oneLine text colon read, lastLine, empty, ?_, ?_, ?_⟩
          · rw [queue, left]
            simp
          · simp only [withFields, List.length_append, List.length_cons] at small ⊢
            omega
          · rw [withFields_withFields] at finished
            convert finished using 2
            simp only [List.length_append, List.length_cons]
            congr 1
            omega

theorem suffix_parseHeaders (p : HttpParser) (buf : Buffer) :
    (parseHeaders p buf).2.2.readable <:+ buf.readable := by
  induction size : buf.readableBytes using Nat.strong_induction_on
    generalizing p buf with
  | _ size ih =>
      have afterLine : ∀ {line : Bytes} {rest : Buffer},
          buf.readable = line ++ lf :: rest.readable → rest.readable <:+ buf.readable := by
        intro line rest queue
        exact ⟨line ++ [lf], by simp [queue]⟩
      have turn := headerTurn p buf
      generalize parseHeaders p buf = result at turn
      cases turn with
      | unfinished uncut fits => exact List.suffix_rfl
      | unfinishedTooLarge uncut large => exact List.suffix_rfl
      | tooLarge oneLine queue large => exact afterLine queue
      | rejected oneLine queue fits empty failed => exact afterLine queue
      | ended oneLine queue fits empty finished => exact afterLine queue
      | noColon oneLine queue fits text none => exact afterLine queue
      | line oneLine queue fits text colon =>
          have shorter := readableBytes_lt queue
          rw [size] at shorter
          exact (ih _ shorter _ _ rfl).trans (afterLine queue)

/-! ## The whole of a call -/

/-- The parser after it has taken `seen` of the current request off the
buffer. -/
inductive Progress : Bytes → HttpParser → Prop where
  | requestLine {p : HttpParser} (stage : p.state = .requestLine)
      (fresh : p.req = {}) (unknown : p.contentLength = 0) : Progress [] p
  | headers {seen : Bytes} {p : HttpParser} (stage : p.state = .headers)
      (head : OpenHead seen p.req) (unknown : p.contentLength = 0)
      (counted : seen.length ≤ p.headerBytes) : Progress seen p
  | body {seen : Bytes} {p : HttpParser} {head : HttpRequest}
      (stage : p.state = .body) (read : Head seen head)
      (plain : isChunked head = false)
      (announced : readContentLength head 0 = .ok p.contentLength)
      (req : p.req = { head with keepAlive := readConnection head })
      (counted : seen.length ≤ kMaxHeaderBytes) : Progress seen p
  | done {header : Bytes} {p : HttpParser} {head : HttpRequest}
      (stage : p.state = .done) (read : Head header head)
      (plain : isChunked head = false)
      (announced : readContentLength head 0 = .ok p.req.body.length)
      (req : p.req =
        { head with keepAlive := readConnection head, body := p.req.body })
      (counted : header.length ≤ kMaxHeaderBytes) :
      Progress (header ++ p.req.body) p

theorem progress_fresh : Progress [] {} := .requestLine rfl rfl rfl

/-- What is known of a request that has been read. -/
theorem Progress.of_done {seen : Bytes} {p : HttpParser} (progress : Progress seen p)
    (stage : p.state = .done) :
    ∃ header head, seen = header ++ p.req.body ∧ Head header head ∧
      isChunked head = false ∧ readContentLength head 0 = .ok p.req.body.length ∧
      p.req = { head with keepAlive := readConnection head, body := p.req.body } ∧
      header.length ≤ kMaxHeaderBytes := by
  cases progress with
  | requestLine early _ _ => cases early.symm.trans stage
  | headers early _ _ _ => cases early.symm.trans stage
  | body early _ _ _ _ _ => cases early.symm.trans stage
  | @done header _ head _ read plain announced req counted =>
      exact ⟨header, head, rfl, read, plain, announced, req, counted⟩

/-- What a call that reports no error has done: it has taken bytes off the
front, and it stops in the middle of a request or at its end. -/
def Continues (seen : Bytes) (buf : Buffer) : Result × HttpParser × Buffer → Prop
  | (.error _, _, _) => True
  | (.needMore, q, rest) =>
      ∃ taken, buf.readable = taken ++ rest.readable ∧ Progress (seen ++ taken) q ∧
        q.state ≠ .done ∧ (q.state = .body ∨ lf ∉ rest.readable) ∧
        (seen ++ taken).length ≤ 8192 ∧ rest.readable.length ≤ 8192
  | (.complete, q, rest) =>
      ∃ taken, buf.readable = taken ++ rest.readable ∧ Progress (seen ++ taken) q ∧
        q.state = .done

/-- A call that goes on from where an earlier stage has stopped. -/
private theorem continues_after {seen taken : Bytes} {buf between : Buffer}
    {outcome : Result × HttpParser × Buffer}
    (queue : buf.readable = taken ++ between.readable)
    (later : Continues (seen ++ taken) between outcome) : Continues seen buf outcome := by
  obtain ⟨result, q, rest⟩ := outcome
  cases result with
  | error err => trivial
  | needMore =>
      obtain ⟨more, left, progress, limits⟩ := later
      rw [List.append_assoc] at progress limits
      exact ⟨taken ++ more, by rw [queue, left, List.append_assoc], progress, limits⟩
  | complete =>
      obtain ⟨more, left, progress, stage⟩ := later
      rw [List.append_assoc] at progress
      exact ⟨taken ++ more, by rw [queue, left, List.append_assoc], progress, stage⟩

theorem readRequestLine_rest {line : Bytes} {first : HttpRequest}
    (accepted : readRequestLine {} line = .ok first) :
    first.body = [] ∧ first.headers = [] := by
  unfold readRequestLine at accepted
  dsimp only at accepted
  split at accepted
  · cases accepted
  · split at accepted
    · cases accepted
    · split at accepted
      · cases accepted
      · split at accepted
        · cases accepted
        · split at accepted <;> cases accepted <;> exact ⟨rfl, rfl⟩

theorem OpenHead.body {lines : Bytes} {req : HttpRequest} (head : OpenHead lines req) :
    req.body = [] := by
  obtain ⟨_, accepted, _⟩ := head
  exact (readRequestLine_rest accepted).1

theorem Head.body {lines : Bytes} {req : HttpRequest} (head : Head lines req) :
    req.body = [] := by
  obtain ⟨lines, _, _⟩ := head
  exact lines.body

/-- A request without a body is complete at the end of its header section. -/
theorem progress_done_of_empty {header : Bytes} {p : HttpParser} {head : HttpRequest}
    (stage : p.state = .done) (read : Head header head) (plain : isChunked head = false)
    (announced : readContentLength head 0 = .ok 0)
    (req : p.req = { head with keepAlive := readConnection head })
    (counted : header.length ≤ kMaxHeaderBytes) : Progress header p := by
  have noBody : p.req.body = [] := by
    rw [req]
    exact read.body
  have done := Progress.done stage read plain (by rw [announced, noBody]; rfl)
    (by rw [req]) counted
  rwa [noBody, List.append_nil] at done

theorem continues_done {header : Bytes} {p : HttpParser} {buf : Buffer}
    (progress : Progress header p) (stage : p.state = .done) :
    Continues header buf (parse p buf) := by
  rw [parse, parseLoop_done _ _ _ _ stage]
  exact ⟨[], rfl, by simpa using progress, stage⟩

theorem continues_body {seen : Bytes} {p : HttpParser} {buf : Buffer} {head : HttpRequest}
    (stage : p.state = .body) (read : Head seen head) (plain : isChunked head = false)
    (announced : readContentLength head 0 = .ok p.contentLength)
    (req : p.req = { head with keepAlive := readConnection head })
    (counted : seen.length ≤ kMaxHeaderBytes) :
    Continues seen buf (parse p buf) := by
  have small := readContentLength_le announced
  rw [parse, parseLoop_body _ _ _ _ stage]
  unfold parseBody
  split
  · rename_i short
    refine ⟨[], rfl, ?_, by simp [stage], .inl stage, ?_, ?_⟩
    · rw [List.append_nil]
      exact .body stage read plain announced req counted
    · rw [List.append_nil]
      exact counted
    · rw [Buffer.length_readable]
      simp only [kMaxBodyBytes] at small
      omega
  · rename_i enough
    simp only [andThen]
    rw [parseLoop_done _ _ _ _ rfl]
    have size : (buf.readable.take p.contentLength).length = p.contentLength := by
      rw [List.length_take, Buffer.length_readable]
      omega
    refine ⟨buf.readable.take p.contentLength, ?_, ?_, rfl⟩
    · simp
    · rw [← Buffer.retrieveAsString_fst] at size ⊢
      refine Progress.done (p := { p with
        state := .done
        req := { p.req with body := (buf.retrieveAsString p.contentLength).1 } })
        rfl read plain ?_ ?_ counted
      · exact announced.trans (congrArg Except.ok size.symm)
      · rw [req]

theorem continues_headers {seen : Bytes} {p : HttpParser} {buf : Buffer}
    (stage : p.state = .headers) (head : OpenHead seen p.req)
    (unknown : p.contentLength = 0) (counted : seen.length ≤ p.headerBytes) :
    Continues seen buf (parse p buf) := by
  rw [parse, parseLoop_headers _ _ _ _ stage]
  rcases called : parseHeaders p buf with ⟨result, q, rest⟩
  cases result with
  | error err => trivial
  | needMore =>
      obtain ⟨lines, fields, read, queue, uncut, rfl, fits⟩ := parseHeaders_needMore called
      have size : buf.readable.length = lines.length + rest.readable.length := by
        rw [queue, List.length_append]
      simp only [withFields, kMaxHeaderBytes] at fits
      refine ⟨lines, queue, ?_, ?_, .inr uncut, ?_, ?_⟩
      · refine .headers stage (head.append read) unknown ?_
        simp only [withFields, List.length_append]
        omega
      · simp [withFields, stage]
      · rw [List.length_append]
        omega
      · omega
  | complete =>
      obtain ⟨lines, fields, blank, read, oneLine, empty, queue, fits, finished⟩ :=
        parseHeaders_complete called
      obtain ⟨plain, length, announced, rfl⟩ := finishHeaders_eq_ok.mp finished
      have whole : Head (seen ++ (lines ++ (blank ++ [lf])))
          { p.req with headers := p.req.headers ++ fields } := by
        rw [← List.append_assoc]
        exact .mk (head.append read) oneLine empty
      have total : (seen ++ (lines ++ (blank ++ [lf]))).length ≤ kMaxHeaderBytes := by
        rw [List.length_append]
        omega
      have known : readContentLength
          { p.req with headers := p.req.headers ++ fields } 0 = .ok length :=
        unknown ▸ announced
      simp only [andThen]
      apply continues_after queue
      split
      · rename_i nothing
        have zero : length = 0 := nothing
        rw [zero] at known
        exact continues_done (progress_done_of_empty rfl whole plain known rfl total) rfl
      · exact continues_body rfl whole plain known rfl total

theorem continues_requestLine {p : HttpParser} {buf : Buffer}
    (stage : p.state = .requestLine) (fresh : p.req = {})
    (unknown : p.contentLength = 0) : Continues [] buf (parse p buf) := by
  rw [parse, parseLoop_requestLine _ _ _ _ stage]
  unfold parseRequestLine
  rcases buf.findEOL_cases with
    ⟨absent, uncut⟩ | ⟨eol, line, rest, located, cut, text, left⟩
  · simp only [absent]
    split
    · trivial
    · rename_i small
      refine ⟨[], rfl, .requestLine stage fresh unknown, by simp [stage],
        .inr (cut?_eq_none_iff.mp uncut), by simp, ?_⟩
      rw [Buffer.length_readable]
      exact Nat.le_of_not_lt small
  · obtain ⟨oneLine, queue⟩ := cut?_eq_some_iff.mp cut
    simp only [located, text, fresh]
    cases accepted : readRequestLine {} line with
    | error err => trivial
    | ok first =>
        have taken : buf.readable =
            (line ++ [lf]) ++ (buf.retrieveUntil (eol + 1)).readable := by
          rw [queue, left]
          simp
        have head : OpenHead (line ++ [lf]) first := by
          have started := OpenHead.mk oneLine accepted .nil
          rw [← (readRequestLine_rest accepted).2] at started
          exact started
        refine @continues_after [] _ _ _ _ taken (continues_headers rfl head unknown ?_)
        simp

/-- Every call that reports no error takes up the current request where it
stands, and keeps to the limits. -/
theorem Progress.parse {seen : Bytes} {p : HttpParser} (progress : Progress seen p)
    (buf : Buffer) : Continues seen buf (parse p buf) := by
  cases progress with
  | requestLine stage fresh unknown => exact continues_requestLine stage fresh unknown
  | headers stage head unknown counted =>
      exact continues_headers stage head unknown counted
  | body stage read plain announced req counted =>
      exact continues_body stage read plain announced req counted
  | done stage read plain announced req counted =>
      exact continues_done (.done stage read plain announced req counted) stage

/-! ## Nothing is put back -/

theorem suffix_parseRequestLine (p : HttpParser) (buf : Buffer) :
    (parseRequestLine p buf).2.2.readable <:+ buf.readable := by
  unfold parseRequestLine
  rcases buf.findEOL_cases with
    ⟨absent, _⟩ | ⟨eol, line, rest, located, cut, text, left⟩
  · simp only [absent]
    split <;> exact List.suffix_rfl
  · obtain ⟨_, queue⟩ := cut?_eq_some_iff.mp cut
    have after : (buf.retrieveUntil (eol + 1)).readable <:+ buf.readable := by
      rw [left, queue]
      exact ⟨line ++ [lf], by simp⟩
    simp only [located, text]
    cases readRequestLine p.req line <;> exact after

theorem suffix_parseBody (p : HttpParser) (buf : Buffer) :
    (parseBody p buf).2.2.readable <:+ buf.readable := by
  unfold parseBody
  split
  · exact List.suffix_rfl
  · simpa using List.drop_suffix p.contentLength buf.readable

private theorem suffix_andThen {buf : Buffer} {outcome : Result × HttpParser × Buffer}
    {next : HttpParser → Buffer → Result × HttpParser × Buffer}
    (first : outcome.2.2.readable <:+ buf.readable)
    (later : ∀ p rest, (next p rest).2.2.readable <:+ rest.readable) :
    (andThen outcome next).2.2.readable <:+ buf.readable := by
  obtain ⟨result, p, rest⟩ := outcome
  cases result with
  | complete => exact (later p rest).trans first
  | needMore => exact first
  | error err => exact first

/-- A call takes bytes off the front of the buffer, whatever it reports. -/
theorem suffix_parse (p : HttpParser) (buf : Buffer) :
    (parse p buf).2.2.readable <:+ buf.readable := by
  unfold parse
  induction p, buf using parseLoop.induct with
  | case1 p buf stage ih =>
      rw [parseLoop_requestLine _ _ _ _ stage]
      exact suffix_andThen (suffix_parseRequestLine p buf) ih
  | case2 p buf stage ihDone ihBody =>
      rw [parseLoop_headers _ _ _ _ stage]
      apply suffix_andThen (suffix_parseHeaders p buf)
      intro q rest
      split
      · exact ihDone q rest
      · exact ihBody q rest
  | case3 p buf stage ih =>
      rw [parseLoop_body _ _ _ _ stage]
      exact suffix_andThen (suffix_parseBody p buf) ih
  | case4 p buf stage =>
      rw [parseLoop_done _ _ _ _ stage]

/-! ## A section that is there as a whole -/

/-- The first line of a text is determined by the text. -/
theorem line_eq {line other rest remaining : Bytes}
    (same : line ++ lf :: rest = other ++ lf :: remaining)
    (oneLine : lf ∉ line) (otherLine : lf ∉ other) : line = other ∧ rest = remaining := by
  have first := cut?_append rest oneLine
  rw [same, cut?_append remaining otherLine] at first
  cases first
  exact ⟨rfl, rfl⟩

/-- The fields of a section are determined by its text. -/
theorem Fields.unique {lines others : Bytes} {fields read : List (Bytes × Bytes)}
    {blank empty rest remaining : Bytes}
    (first : Fields lines fields) (second : Fields others read)
    (same : lines ++ (blank ++ lf :: rest) = others ++ (empty ++ lf :: remaining))
    (blankLine : lf ∉ blank) (emptyLine : lf ∉ empty) (noText : trim blank = [])
    (noOtherText : trim empty = []) :
    lines = others ∧ fields = read ∧ blank = empty ∧ rest = remaining := by
  induction first generalizing others read with
  | nil =>
      cases second with
      | nil =>
          obtain ⟨rfl, rfl⟩ := line_eq same blankLine emptyLine
          exact ⟨rfl, rfl, rfl, rfl⟩
      | line oneLine text colon tail =>
          rw [List.append_assoc, List.cons_append] at same
          obtain ⟨rfl, _⟩ := line_eq same blankLine oneLine
          exact absurd noText text
  | line oneLine text colon tail ih =>
      rw [List.append_assoc, List.cons_append] at same
      cases second with
      | nil =>
          obtain ⟨rfl, _⟩ := line_eq same oneLine emptyLine
          exact absurd noOtherText text
      | line otherLine otherText otherColon otherTail =>
          rw [List.append_assoc, List.cons_append] at same
          obtain ⟨rfl, later⟩ := line_eq same oneLine otherLine
          obtain ⟨rfl, rfl, rfl, rfl⟩ := ih otherTail later
          cases colon.symm.trans otherColon
          exact ⟨rfl, rfl, rfl, rfl⟩

/-- Lines with fields do not reach past the blank line. -/
theorem Fields.lf_mem {lines others : Bytes} {fields read : List (Bytes × Bytes)}
    {blank rest unread : Bytes} (first : Fields lines fields) (second : Fields others read)
    (same : lines ++ (blank ++ lf :: rest) = others ++ unread)
    (blankLine : lf ∉ blank) (noText : trim blank = []) : lf ∈ unread := by
  induction first generalizing others read with
  | nil =>
      cases second with
      | nil =>
          rw [List.nil_append, List.nil_append] at same
          rw [← same]
          simp
      | line oneLine text colon tail =>
          rw [List.append_assoc, List.cons_append] at same
          obtain ⟨rfl, _⟩ := line_eq same blankLine oneLine
          exact absurd noText text
  | line oneLine text colon tail ih =>
      cases second with
      | nil =>
          rw [List.nil_append] at same
          rw [← same]
          simp
      | line otherLine otherText otherColon otherTail =>
          rw [List.append_assoc, List.cons_append, List.append_assoc,
            List.cons_append] at same
          exact ih otherTail (line_eq same oneLine otherLine).2

/-- The head of a request is determined by the text it begins. -/
theorem Head.unique {header other rest remaining : Bytes} {head read : HttpRequest}
    (first : Head header head) (second : Head other read)
    (same : header ++ rest = other ++ remaining) :
    header = other ∧ head = read ∧ rest = remaining := by
  obtain ⟨⟨oneLine, accepted, fields⟩, blankLine, noText⟩ := first
  obtain ⟨⟨otherLine, otherAccepted, otherFields⟩, emptyLine, noOtherText⟩ := second
  simp only [List.append_assoc, List.cons_append, List.nil_append] at same
  obtain ⟨rfl, later⟩ := line_eq same oneLine otherLine
  cases accepted.symm.trans otherAccepted
  obtain ⟨rfl, rfl, rfl, rfl⟩ :=
    fields.unique otherFields later blankLine emptyLine noText noOtherText
  exact ⟨rfl, rfl, rfl⟩

/-- An unfinished head that covers all lines of a text does not contain a
whole section. -/
theorem Head.lf_mem {header other rest unread : Bytes} {head read : HttpRequest}
    (first : Head header head) (second : OpenHead other read)
    (same : header ++ rest = other ++ unread) : lf ∈ unread := by
  obtain ⟨⟨oneLine, accepted, fields⟩, blankLine, noText⟩ := first
  obtain ⟨otherLine, otherAccepted, otherFields⟩ := second
  simp only [List.append_assoc, List.cons_append, List.nil_append] at same
  exact fields.lf_mem otherFields (line_eq same oneLine otherLine).2 blankLine noText

theorem Head.lf_mem_self {header : Bytes} {head : HttpRequest} (read : Head header head) :
    lf ∈ header := by
  obtain ⟨lines, oneLine, empty⟩ := read
  simp

/-- What `parseHeaders` returns at the blank line. -/
def endOfHeaders (p : HttpParser) (rest : Buffer) : Result × HttpParser × Buffer :=
  match finishHeaders p with
  | .error err => (.error err, p, rest)
  | .ok q => (.complete, q, rest)

/-- The header loop reads all lines that are there, within the limit. -/
theorem parseHeaders_fields {lines blank more : Bytes} {fields : List (Bytes × Bytes)}
    {p : HttpParser} {buf : Buffer} (read : Fields lines fields)
    (oneLine : lf ∉ blank) (empty : trim blank = [])
    (queue : buf.readable = lines ++ (blank ++ lf :: more))
    (fits : p.headerBytes + (lines.length + (blank.length + 1)) ≤ kMaxHeaderBytes) :
    ∃ rest, rest.readable = more ∧
      parseHeaders p buf =
        endOfHeaders (withFields p fields (lines.length + (blank.length + 1))) rest := by
  induction read generalizing p buf with
  | nil =>
      have found : cut? lf buf.readable = some (blank, more) := by
        rw [queue]
        exact cut?_append more oneLine
      obtain ⟨eol, located, text, left⟩ := Buffer.findEOL_eq_some found
      refine ⟨buf.retrieveUntil (eol + 1), left, ?_⟩
      simp only [List.length_nil, Nat.zero_add] at fits ⊢
      rw [parseHeaders_of_some located, text]
      dsimp only
      rw [if_neg (Nat.not_lt.mpr fits), if_pos empty, ← withFields_nil]
      rfl
  | @line line name value later fields lineEnd text colon tail ih =>
      rw [List.append_assoc, List.cons_append] at queue
      simp only [List.length_append, List.length_cons] at fits
      have found : cut? lf buf.readable =
          some (line, later ++ (blank ++ lf :: more)) := by
        rw [queue]
        exact cut?_append _ lineEnd
      obtain ⟨eol, located, taken, left⟩ := Buffer.findEOL_eq_some found
      have small : p.headerBytes + (line.length + 1) ≤ kMaxHeaderBytes := by omega
      obtain ⟨rest, remaining, same⟩ := ih
        (p := withFields p [(lower (trim name), trim value)] (line.length + 1)) left
        (by simp only [withFields]; omega)
      refine ⟨rest, remaining, ?_⟩
      have counted : line.length + 1 + (later.length + (blank.length + 1)) =
          (line ++ lf :: later).length + (blank.length + 1) := by
        simp only [List.length_append, List.length_cons]
        omega
      rw [withFields_withFields, counted, List.singleton_append] at same
      rw [← same, parseHeaders_of_some located, taken]
      dsimp only
      rw [if_neg (Nat.not_lt.mpr small), if_neg text]
      simp only [readHeaderLine, colon]
      rfl

/-- A call on a new parser and a header section within the limit goes on with
the decision at its end. -/
theorem parse_head {header more : Bytes} {head : HttpRequest} {buf : Buffer}
    (read : Head header head) (queue : buf.readable = header ++ more)
    (fits : header.length ≤ kMaxHeaderBytes) :
    ∃ rest, rest.readable = more ∧
      parse {} buf =
        andThen
          (endOfHeaders
            { state := .headers, req := head, headerBytes := header.length } rest)
          fun p buf =>
            if p.contentLength = 0 then parse { p with state := .done } buf
            else parse { p with state := .body } buf := by
  obtain ⟨lines_, blankLine, empty⟩ := read
  rename_i lines blank
  obtain ⟨oneLine, accepted, tail⟩ := lines_
  rename_i line lines first fields
  simp only [List.append_assoc, List.cons_append, List.nil_append] at queue
  have found : cut? lf buf.readable =
      some (line, lines ++ (blank ++ lf :: more)) := by
    rw [queue]
    exact cut?_append _ oneLine
  obtain ⟨eol, located, text, left⟩ := Buffer.findEOL_eq_some found
  simp only [List.length_append, List.length_cons, List.length_nil] at fits
  obtain ⟨rest, remaining, same⟩ := parseHeaders_fields
    (p := { state := .headers, req := first, headerBytes := line.length + 1 })
    tail blankLine empty left (by dsimp only; omega)
  refine ⟨rest, remaining, ?_⟩
  rw [parse, parseLoop_requestLine _ _ _ _ rfl, parseRequestLine, located]
  simp only [text, accepted, andThen, Nat.zero_add]
  rw [parseLoop_headers _ _ _ _ rfl, same]
  have noFields := (readRequestLine_rest accepted).2
  have size : line.length + 1 + (lines.length + (blank.length + 1)) =
      (line ++ lf :: lines ++ (blank ++ [lf])).length := by
    simp only [List.length_append, List.length_cons, List.length_nil]
    omega
  simp only [withFields, noFields, List.nil_append, size]
  rfl

/-- A call on a new parser and a complete request within the limits. -/
theorem parse_complete {header body more : Bytes} {head : HttpRequest} {buf : Buffer}
    (read : Head header head) (plain : isChunked head = false)
    (announced : readContentLength head 0 = .ok body.length)
    (queue : buf.readable = header ++ (body ++ more))
    (fits : header.length ≤ kMaxHeaderBytes) :
    ∃ q rest, parse {} buf = (.complete, q, rest) ∧ rest.readable = more ∧
      q.req = { head with keepAlive := readConnection head, body } := by
  obtain ⟨rest, remaining, called⟩ := parse_head read queue fits
  have finished : finishHeaders
      { state := .headers, req := head, headerBytes := header.length } =
      .ok
        { state := .headers
          req := { head with keepAlive := readConnection head }
          contentLength := body.length
          headerBytes := header.length } :=
    finishHeaders_eq_ok.mpr ⟨plain, body.length, announced, rfl⟩
  simp only [endOfHeaders, finished, andThen] at called
  split at called
  · rename_i nothing
    obtain rfl := List.length_eq_zero_iff.mp nothing
    refine ⟨_, _, called.trans (parseLoop_done _ _ _ _ rfl), remaining, ?_⟩
    simp [read.body]
  · have enough : ¬ rest.readableBytes < body.length := by
      rw [← Buffer.length_readable, remaining, List.length_append]
      omega
    have taken := called.trans (parseLoop_body _ _ _ _ rfl)
    simp only [parseBody, enough, if_false, andThen] at taken
    refine ⟨_, _, taken.trans (parseLoop_done _ _ _ _ rfl), ?_, ?_⟩
    · simp [remaining]
    · simp [remaining]

end HttpParser

end MiniNet
