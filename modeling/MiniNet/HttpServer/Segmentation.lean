import MiniNet.HttpServer

/-!
# Segmentation independence

How a byte stream is cut into chunks must not be visible to the application.
`Serves` describes the loop of `onMessage` as a relation, over the parser
proper or over the stream parser.  The loop of the code satisfies it
(`serve_serves`); a loop that reports no 431 is a loop on the stream
(`Serves.toStream`); and loops on the stream can be joined at any cut
(`Serves.append`), so all of them agree with the loop on the whole stream.
-/

namespace MiniNet

open Bytes

namespace HttpServer

section

variable {σ β : Type} (handler : Option (Handler σ))
  (parse : HttpParser → β → HttpParser.Result × HttpParser × β)

/-- The calls made by the loop of `onMessage` from a parser and its unread
bytes, and what it leaves behind. -/
inductive Serves : σ → HttpParser → β →
    List Call → σ → HttpParser → β → Bool → Prop where
  | needMore {state : σ} {p q : HttpParser} {buf rest : β}
      (waiting : parse p buf = (.needMore, q, rest)) :
      Serves state p buf [] state q rest false
  | error {state : σ} {p q : HttpParser} {buf rest : β}
      {err : HttpParser.Error}
      (failed : parse p buf = (.error err, q, rest)) :
      Serves state p buf
        [.error err, .send (errorResponse err).serialize, .shutdown]
        state q rest true
  | close {state later : σ} {p q : HttpParser} {buf rest : β}
      {resp : HttpResponse}
      (finished : parse p buf = (.complete, q, rest))
      (answered : respond handler state q.req = (later, resp))
      (closing : (!q.req.keepAlive || !resp.keepAlive) = true) :
      Serves state p buf
        ([.handler q.req, .send resp.serialize] ++ [.shutdown])
        later q rest true
  | next {state later last : σ} {p q final : HttpParser}
      {buf rest unread : β} {resp : HttpResponse}
      {calls : List Call} {shut : Bool}
      (finished : parse p buf = (.complete, q, rest))
      (answered : respond handler state q.req = (later, resp))
      (open_ : (!q.req.keepAlive || !resp.keepAlive) = false)
      (tail : Serves later q.reset rest calls last final unread shut) :
      Serves state p buf
        ([.handler q.req, .send resp.serialize] ++ calls)
        last final unread shut

end

variable {σ : Type} {handler : Option (Handler σ)}

/-! ## The loop of the code -/

theorem parse_of_turn_needMore {state : σ} {conn rest : HttpConn}
    (taken : turn handler state conn = .needMore rest) :
    HttpParser.parse conn.parser conn.inBuf =
      (.needMore, rest.parser, rest.inBuf) := by
  unfold turn at taken
  split at taken <;> rename_i outcome <;> cases taken
  exact outcome

theorem parse_of_turn_error {state : σ} {conn rest : HttpConn}
    {err : HttpParser.Error}
    (taken : turn handler state conn = .error rest err) :
    HttpParser.parse conn.parser conn.inBuf =
      (.error err, rest.parser, rest.inBuf) := by
  unfold turn at taken
  split at taken <;> rename_i outcome <;> cases taken
  exact outcome

theorem parse_of_turn_respond {state later : σ} {conn rest : HttpConn}
    {resp : HttpResponse}
    (taken : turn handler state conn = .respond rest later resp) :
    HttpParser.parse conn.parser conn.inBuf =
        (.complete, rest.parser, rest.inBuf) ∧
      respond handler state rest.parser.req = (later, resp) := by
  unfold turn at taken
  split at taken <;> rename_i outcome <;> cases taken
  exact ⟨outcome, rfl⟩

theorem serve_serves (handler : Option (Handler σ)) (state : σ)
    (conn : HttpConn) :
    Serves handler HttpParser.parse state conn.parser conn.inBuf
      (serve handler state conn).calls (serve handler state conn).state
      (serve handler state conn).conn.parser
      (serve handler state conn).conn.inBuf
      (serve handler state conn).shut := by
  induction state, conn using serve.induct handler with
  | case1 state conn rest taken =>
      rw [serve, taken]
      exact .needMore (parse_of_turn_needMore taken)
  | case2 state conn rest err taken =>
      rw [serve, taken]
      exact .error (parse_of_turn_error taken)
  | case3 state conn rest later resp taken closing =>
      obtain ⟨finished, answered⟩ := parse_of_turn_respond taken
      rw [serve, taken]
      simp only [closing, if_true]
      exact .close finished answered closing
  | case4 state conn rest later resp taken staying tail =>
      obtain ⟨finished, answered⟩ := parse_of_turn_respond taken
      rw [serve, taken]
      simp only [staying]
      exact .next finished answered (by simpa using staying) tail

/-! ## From the code to the stream -/

theorem Fits.append_left {first second : List Call}
    (fits : Fits (first ++ second)) : Fits first := by
  intro call member
  exact fits call (List.mem_append_left _ member)

theorem Fits.append_right {first second : List Call}
    (fits : Fits (first ++ second)) : Fits second := by
  intro call member
  exact fits call (List.mem_append_right _ member)

theorem Serves.toStream {state last : σ} {p final : HttpParser}
    {buf unread : Buffer} {calls : List Call} {shut : Bool}
    (serves : Serves handler HttpParser.parse state p buf
      calls last final unread shut)
    (fits : Fits calls) :
    Serves handler HttpParser.Stream.parse state p.forgetCount buf.readable
      calls last final.forgetCount unread.readable shut := by
  induction serves with
  | needMore waiting =>
      exact .needMore (HttpParser.stream_parse_of_parse waiting nofun)
  | @error state p q buf rest err failed =>
      refine .error (HttpParser.stream_parse_of_parse failed ?_)
      rintro _ ⟨rfl⟩ status
      have allowed := fits (.error err) (by simp)
      simp [Call.tooLarge, status] at allowed
  | close finished answered closing =>
      exact .close (HttpParser.stream_parse_of_parse finished nofun)
        answered closing
  | @next state later last p q final buf rest unread resp calls shut
      finished answered staying tail ih =>
      exact .next (q := q.forgetCount)
        (HttpParser.stream_parse_of_parse finished nofun)
        answered staying (ih fits.append_right)

/-! ## Joining and comparing loops on the stream -/

section

variable {β : Type}
  {parse : HttpParser → β → HttpParser.Result × HttpParser × β}

theorem Serves.of_parse_eq {state last : σ} {p q final : HttpParser}
    {buf other unread : β} {calls : List Call} {shut : Bool}
    (serves : Serves handler parse state p buf calls last final unread shut)
    (same : parse q other = parse p buf) :
    Serves handler parse state q other calls last final unread shut := by
  cases serves with
  | needMore waiting => exact .needMore (same.trans waiting)
  | error failed => exact .error (same.trans failed)
  | close finished answered closing =>
      exact .close (same.trans finished) answered closing
  | next finished answered staying tail =>
      exact .next (same.trans finished) answered staying tail

/-- The loop is deterministic. -/
theorem Serves.unique {state : σ} {p : HttpParser} {buf : β}
    {calls : List Call} {last : σ} {final : HttpParser}
    {unread : β} {shut : Bool}
    (serves : Serves handler parse state p buf calls last final unread shut)
    {calls' : List Call} {last' : σ} {final' : HttpParser}
    {unread' : β} {shut' : Bool}
    (serves' : Serves handler parse state p buf
      calls' last' final' unread' shut') :
    calls = calls' ∧ last = last' ∧ final = final' ∧ unread = unread' ∧
      shut = shut' := by
  induction serves generalizing calls' last' final' unread' shut' with
  | needMore waiting =>
      cases serves' <;> simp_all
  | error failed =>
      cases serves' <;> simp_all
  | close finished answered closing =>
      cases serves' <;> simp_all
  | next finished answered staying tail ih =>
      cases serves' with
      | needMore waiting => simp_all
      | error failed => simp_all
      | close finished' answered' closing => simp_all
      | next finished' answered' staying' tail' =>
          cases finished.symm.trans finished'
          cases answered.symm.trans answered'
          obtain ⟨rfl, rfl, rfl, rfl, rfl⟩ := ih tail'
          simp

end

theorem Serves.append_shut {state last : σ} {p final : HttpParser}
    {queue unread : Bytes} {calls : List Call} {shut : Bool}
    (serves : Serves handler HttpParser.Stream.parse state p queue
      calls last final unread shut)
    (ended : shut = true) (more : Bytes) :
    Serves handler HttpParser.Stream.parse state p (queue ++ more)
      calls last final (unread ++ more) shut := by
  induction serves with
  | needMore waiting => cases ended
  | @error state p q queue rest err failed =>
      have longer := HttpParser.Stream.parse_resumes p queue more
      rw [failed] at longer
      exact .error longer
  | @close state later p q queue rest resp finished answered closing =>
      have longer := HttpParser.Stream.parse_resumes p queue more
      rw [finished] at longer
      exact .close longer answered closing
  | @next state later last p q final queue rest unread resp calls shut
      finished answered staying tail ih =>
      have longer := HttpParser.Stream.parse_resumes p queue more
      rw [finished] at longer
      exact .next longer answered staying (ih ended)

theorem Serves.append {state last : σ} {p final : HttpParser}
    {queue unread : Bytes} {calls : List Call} {shut : Bool}
    (serves : Serves handler HttpParser.Stream.parse state p queue
      calls last final unread shut)
    (waiting : shut = false)
    {more unread' : Bytes} {calls' : List Call} {last' : σ}
    {final' : HttpParser} {shut' : Bool}
    (later : Serves handler HttpParser.Stream.parse last final
      (unread ++ more) calls' last' final' unread' shut') :
    Serves handler HttpParser.Stream.parse state p (queue ++ more)
      (calls ++ calls') last' final' unread' shut' := by
  induction serves with
  | @needMore state p q queue rest asked =>
      have longer := HttpParser.Stream.parse_resumes p queue more
      rw [asked] at longer
      exact later.of_parse_eq longer
  | error failed => cases waiting
  | close finished answered closing => cases waiting
  | @next state middle last p q final queue rest unread resp calls shut
      finished answered staying tail ih =>
      have longer := HttpParser.Stream.parse_resumes p queue more
      rw [finished] at longer
      rw [List.append_assoc]
      exact .next longer answered staying (ih waiting later)

/-! ## Any two ways of cutting a stream -/

private theorem parse_fresh :
    HttpParser.Stream.parse {} [] = (.needMore, {}, []) := by
  unfold HttpParser.Stream.parse
  rw [HttpParser.parseLoop_requestLine _ _ _ _ rfl]
  rfl

/-- What a connection does with its chunks is what it would do with the whole
stream at once. -/
theorem receive_serves (state : σ) (chunks : List Bytes)
    (fits : Fits (receive handler state chunks).calls) :
    ∃ unread,
      Serves handler HttpParser.Stream.parse state {} chunks.flatten
        (receive handler state chunks).calls
        (receive handler state chunks).state
        (receive handler state chunks).conn.parser.forgetCount unread
        (receive handler state chunks).shut ∧
      ((receive handler state chunks).shut = false →
        unread = (receive handler state chunks).conn.inBuf.readable) := by
  induction chunks using List.reverseRecOn with
  | nil => exact ⟨[], .needMore parse_fresh, fun _ => by simp [receive]⟩
  | append_singleton chunks chunk ih =>
      have step : receive handler state (chunks ++ [chunk]) =
          onMessage handler (receive handler state chunks) chunk := by
        simp [receive]
      rw [step] at fits ⊢
      rw [List.flatten_append, List.flatten_singleton]
      generalize receive handler state chunks = session at ih fits
      unfold onMessage at fits ⊢
      cases shut : session.shut with
      | true =>
          simp only [shut, if_true] at fits ⊢
          obtain ⟨unread, serves, _⟩ := ih fits
          refine ⟨unread ++ chunk, ?_, by simp⟩
          simpa only [shut] using serves.append_shut shut chunk
      | false =>
          simp only [shut, Bool.false_eq_true, if_false] at fits ⊢
          obtain ⟨unread, serves, left⟩ := ih fits.append_left
          have unreadEq := left shut
          subst unreadEq
          have turned := (serve_serves handler session.state
            { session.conn with
              inBuf := session.conn.inBuf.append chunk }).toStream
            fits.append_right
          rw [Buffer.readable_append] at turned
          exact ⟨_, serves.append shut turned, fun _ => rfl⟩

/-- Two ways of cutting one byte stream, neither of which runs into the
header limit, make the same calls in the same order and leave the connection
in the same condition. -/
theorem receive_eq_of_flatten_eq (handler : Option (Handler σ)) (state : σ)
    {chunks others : List Bytes}
    (sameStream : chunks.flatten = others.flatten)
    (fits : Fits (receive handler state chunks).calls)
    (othersFit : Fits (receive handler state others).calls) :
    let left := receive handler state chunks
    let right := receive handler state others
    left.calls = right.calls ∧ left.state = right.state ∧
      left.shut = right.shut ∧
      (left.shut = false →
        left.conn.inBuf.readable = right.conn.inBuf.readable ∧
          left.conn.parser.state = right.conn.parser.state ∧
          left.conn.parser.req = right.conn.parser.req ∧
          left.conn.parser.contentLength =
            right.conn.parser.contentLength) := by
  obtain ⟨unread, serves, unreadEq⟩ := receive_serves state chunks fits
  obtain ⟨unread', serves', unreadEq'⟩ := receive_serves state others othersFit
  rw [sameStream] at serves
  obtain ⟨calls, last, final, rest, shut⟩ := serves.unique serves'
  refine ⟨calls, last, shut, fun waiting => ?_⟩
  refine ⟨?_, ?_, ?_, ?_⟩
  · rw [← unreadEq waiting, ← unreadEq' (shut ▸ waiting), rest]
  · simpa using congrArg HttpParser.state final
  · simpa using congrArg HttpParser.req final
  · simpa using congrArg HttpParser.contentLength final

/-- A request in one piece, and cut inside the version and between CR and LF. -/
theorem receive_eq_of_flatten_eq_three_cuts :
    let whole := [lit "GET /a HTTP/1.1\r\nHost: x\r\n\r\n"]
    let pieces := [lit "GET /a HT", lit "TP/1.1\r\nHost: x\r", lit "\n\r\n"]
    whole.flatten = pieces.flatten ∧
      Fits (receive none () whole).calls ∧
      Fits (receive none () pieces).calls ∧
      (receive none () whole).calls = (receive none () pieces).calls ∧
      (receive none () whole).calls.length = 2 := by
  refine ⟨by decide, by decide +kernel, by decide +kernel, ?_, by decide +kernel⟩
  exact (receive_eq_of_flatten_eq none () (by decide) (by decide +kernel)
    (by decide +kernel)).1

end HttpServer

end MiniNet
