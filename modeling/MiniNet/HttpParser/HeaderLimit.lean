import MiniNet.HttpParser.Stream
import Mathlib.Data.List.TakeWhile

/-!
# The limit on the header section

The parser keeps a count of the header bytes it has seen and answers 431 when
it exceeds `kMaxHeaderBytes`.  A call that ends inside a header line adds the
unfinished part to the count, and so does every later call until the line is
complete; the unfinished part of the request line is counted once more when
its end arrives.  `recounted` is the number of bytes that are counted again in
this way.  It depends only on where the input is cut, and
`feeds_tooLarge_iff` says that the limit is applied to the sum.
-/

namespace MiniNet

open Bytes

namespace HttpParser

/-- The header lines of a section, each acceptable on its own, and the blank
line that ends them. -/
inductive HeaderRest : Bytes → Prop where
  | blank {line : Bytes} (oneLine : lf ∉ line) (empty : trim line = []) :
      HeaderRest (line ++ [lf])
  | line {line rest : Bytes} (oneLine : lf ∉ line) (text : trim line ≠ [])
      (accepted : (cut? 58 (trim line)).isSome) (tail : HeaderRest rest) :
      HeaderRest (line ++ lf :: rest)

/-- A header section in which every line is acceptable on its own: from the
request line through the line feed of the blank line. -/
inductive HeaderSection : Bytes → Prop where
  | mk {line rest : Bytes} {req : HttpRequest} (oneLine : lf ∉ line)
      (accepted : readRequestLine {} line = .ok req)
      (tail : HeaderRest rest) : HeaderSection (line ++ lf :: rest)

/-- The results of successive `append` and `parse` calls. -/
def feeds (p : HttpParser) (buf : Buffer) : List Bytes → List Result
  | [] => []
  | chunk :: chunks =>
      let outcome := parse p (buf.append chunk)
      outcome.1 :: feeds outcome.2.1 outcome.2.2 chunks

/-- The bytes after the last line feed. -/
def pendingLine (seen : Bytes) : Bytes := seen.rtakeWhile (· != lf)

/-- How many bytes are counted again when `chunks` arrive after `seen`: at
the end of each call inside the header lines the unfinished line, and at the
call that completes the request line the part of it that was already there. -/
def recounted (seen : Bytes) : List Bytes → Nat
  | [] => 0
  | chunk :: chunks =>
      (if lf ∈ seen ++ chunk then
          (pendingLine (seen ++ chunk)).length +
            (if lf ∈ seen then 0 else seen.length)
        else 0) +
        recounted (seen ++ chunk) chunks

/-! ## Unfinished lines -/

theorem pendingLine_of_notMem {seen : Bytes} (absent : lf ∉ seen) :
    pendingLine seen = seen := by
  simp only [pendingLine, List.rtakeWhile_eq_self_iff]
  intro c member
  simp only [bne_iff_ne, ne_eq]
  rintro rfl
  exact absent member

theorem pendingLine_append_lf (before after : Bytes) :
    pendingLine (before ++ lf :: after) = pendingLine after := by
  induction after using List.reverseRecOn with
  | nil => simp [pendingLine]
  | append_singleton after c ih =>
      simp only [pendingLine] at ih ⊢
      rw [← List.cons_append, ← List.append_assoc, List.rtakeWhile_concat,
        List.rtakeWhile_concat, ih]

theorem pendingLine_append (before after : Bytes) :
    pendingLine (before ++ after) = pendingLine (pendingLine before ++ after) := by
  induction after using List.reverseRecOn with
  | nil => simp [pendingLine, List.rtakeWhile_idempotent]
  | append_singleton after c ih =>
      simp only [pendingLine] at ih ⊢
      rw [← List.append_assoc, ← List.append_assoc, List.rtakeWhile_concat,
        List.rtakeWhile_concat, ih]

theorem pendingLine_headerRest {text : Bytes} (lines : HeaderRest text) :
    pendingLine text = [] := by
  induction lines with
  | blank oneLine empty =>
      rw [pendingLine_append_lf]
      rfl
  | line oneLine text accepted tail ih => rw [pendingLine_append_lf, ih]

/-- Counting again stops with the section: nothing is pending at its end, and
empty chunks add nothing. -/
theorem recounted_eq_zero {seen : Bytes} {chunks : List Bytes}
    (finished : pendingLine seen = []) (counted : lf ∈ seen)
    (nothing : chunks.flatten = []) : recounted seen chunks = 0 := by
  induction chunks with
  | nil => rfl
  | cons chunk chunks ih =>
      obtain ⟨rfl, rest⟩ : chunk = [] ∧ chunks.flatten = [] := by
        simpa using nothing
      simp [recounted, finished, counted, ih rest]

/-! ## One call -/

theorem readHeaderLine_accepted (req : HttpRequest) {line : Bytes}
    (accepted : (cut? 58 line).isSome) :
    ∃ later, readHeaderLine req line = .ok later := by
  obtain ⟨parts, found⟩ := Option.isSome_iff_exists.mp accepted
  simp only [readHeaderLine, found]
  exact ⟨_, rfl⟩

theorem finishHeaders_error {p : HttpParser} {err : Error}
    (failed : finishHeaders p = .error err) : err.status ≠ 431 := by
  unfold finishHeaders readContentLength badRequest at failed
  split at failed
  · cases failed
    decide
  · split at failed <;> rename_i length <;> cases failed
    split at length
    · cases length
    · split at length
      · cases length
        decide
      · split at length
        · cases length
          decide
        · split at length <;> cases length
          decide

/-- The parser after the section: no later call on an empty chunk can run
into the limit. -/
def Ended (p : HttpParser) (buf : Buffer) : Prop :=
  buf.readable = [] ∧
    (p.state = .done ∨ (p.state = .body ∧ p.contentLength ≠ 0) ∨
      (p.state = .headers ∧ p.headerBytes ≤ kMaxHeaderBytes))

/-- A call that brings the count to `total`, when the buffer holds `arrived`
and `missing` is still to come. -/
structure Advances (total : Nat) (arrived missing : Bytes)
    (outcome : Result × HttpParser × Buffer) : Prop where
  tooLarge : kMaxHeaderBytes < total → outcome.1.TooLarge
  waiting : total ≤ kMaxHeaderBytes → missing ≠ [] →
    outcome.1 = .needMore ∧ outcome.2.1.state = .headers ∧
      outcome.2.1.headerBytes = total ∧
      outcome.2.2.readable = pendingLine arrived ∧
      HeaderRest (pendingLine arrived ++ missing)
  ended : total ≤ kMaxHeaderBytes → missing = [] →
    ¬outcome.1.TooLarge ∧ Ended outcome.2.1 outcome.2.2

/-- Part of a text that starts with a line either ends inside that line or
contains all of it. -/
theorem append_eq_line {arrived missing line rest : Bytes}
    (split : arrived ++ missing = line ++ lf :: rest) (oneLine : lf ∉ line) :
    (cut? lf arrived = none ∧ missing ≠ []) ∨
      ∃ after, cut? lf arrived = some (line, after) ∧
        arrived = line ++ lf :: after ∧ after ++ missing = rest := by
  rcases List.append_eq_append_iff.mp split with
    ⟨left, rfl, rfl⟩ | ⟨extra, rfl, remaining⟩
  · refine .inl ⟨cut?_eq_none_iff.mpr ?_, by simp⟩
    intro member
    exact oneLine (List.mem_append_left _ member)
  · cases extra with
    | nil =>
        refine .inl ⟨cut?_eq_none_iff.mpr (by simpa using oneLine), ?_⟩
        rintro rfl
        simp at remaining
    | cons c after =>
        obtain ⟨rfl, rfl⟩ : lf = c ∧ rest = after ++ missing := by
          simpa using remaining
        exact .inr ⟨after, cut?_append after oneLine, rfl, rfl⟩

/-- A call that has only part of a header line. -/
theorem parse_headers_unfinished {p : HttpParser} {buf : Buffer}
    (stage : p.state = .headers) (uncut : cut? lf buf.readable = none) :
    parse p buf =
      let p := { p with headerBytes := p.headerBytes + buf.readableBytes }
      if p.headerBytes > kMaxHeaderBytes then
        (.error headersTooLarge, p, buf)
      else (.needMore, p, buf) := by
  rw [parse, parseLoop_headers _ _ _ _ stage,
    parseHeaders_of_none (Buffer.findEOL_eq_none uncut)]
  dsimp only
  split <;> rfl

/-- A call that has a complete and acceptable header line goes on as a call
on what follows the line. -/
theorem parse_headers_line {p : HttpParser} {buf : Buffer}
    {line after : Bytes} (stage : p.state = .headers)
    (found : cut? lf buf.readable = some (line, after))
    (text : trim line ≠ []) (accepted : (cut? 58 (trim line)).isSome) :
    ∃ q rest, q.state = .headers ∧
      q.headerBytes = p.headerBytes + (line.length + 1) ∧
      rest.readable = after ∧
      ((parse p buf).1.TooLarge ∧ kMaxHeaderBytes < q.headerBytes ∨
        parse p buf = parse q rest ∧ q.headerBytes ≤ kMaxHeaderBytes) := by
  obtain ⟨eol, located, taken, remaining⟩ := Buffer.findEOL_eq_some found
  obtain ⟨req, read⟩ := readHeaderLine_accepted p.req accepted
  refine ⟨{ p with req, headerBytes := p.headerBytes + (line.length + 1) },
    buf.retrieveUntil (eol + 1), stage, rfl, remaining, ?_⟩
  rw [parse, parseLoop_headers _ _ _ _ stage, parseHeaders_of_some located]
  simp only [taken, text, if_false, read]
  by_cases large : p.headerBytes + (line.length + 1) > kMaxHeaderBytes
  · refine .inl ⟨?_, large⟩
    simp only [large, if_true]
    exact ⟨_, rfl, rfl⟩
  · refine .inr ⟨?_, by simpa using large⟩
    rw [if_neg large, parseLoop_headers _ _ _ _
      (p := { p with req, headerBytes := p.headerBytes + (line.length + 1) }) stage]

private theorem not_tooLarge_complete : ¬Result.complete.TooLarge := by
  rintro ⟨_, equal, _⟩
  cases equal

private theorem not_tooLarge_needMore : ¬Result.needMore.TooLarge := by
  rintro ⟨_, equal, _⟩
  cases equal

/-- A call that has the blank line, and nothing after it. -/
theorem parse_headers_blank {p : HttpParser} {buf : Buffer} {line : Bytes}
    (stage : p.state = .headers)
    (found : cut? lf buf.readable = some (line, []))
    (empty : trim line = []) :
    (kMaxHeaderBytes < p.headerBytes + (line.length + 1) →
        (parse p buf).1.TooLarge) ∧
      (p.headerBytes + (line.length + 1) ≤ kMaxHeaderBytes →
        ¬(parse p buf).1.TooLarge ∧
          Ended (parse p buf).2.1 (parse p buf).2.2) := by
  obtain ⟨eol, located, taken, remaining⟩ := Buffer.findEOL_eq_some found
  rw [parse, parseLoop_headers _ _ _ _ stage, parseHeaders_of_some located]
  simp only [taken, empty, if_true]
  constructor
  · intro large
    rw [if_pos large]
    exact ⟨_, rfl, rfl⟩
  · intro small
    rw [if_neg (by omega)]
    cases finished : finishHeaders
      { p with headerBytes := p.headerBytes + (line.length + 1) } with
    | error err =>
        refine ⟨?_, remaining, .inr (.inr ⟨stage, small⟩)⟩
        rintro ⟨_, ⟨rfl⟩, status⟩
        exact finishHeaders_error finished status
    | ok q =>
        simp only [andThen]
        split
        · rw [parseLoop_done _ _ _ _ rfl]
          exact ⟨not_tooLarge_complete, remaining, .inl rfl⟩
        · rename_i announced
          have waiting : (buf.retrieveUntil (eol + 1)).readableBytes <
              q.contentLength := by
            rw [← Buffer.length_readable, remaining]
            exact Nat.pos_of_ne_zero announced
          rw [parseLoop_body _ _ _ _ rfl]
          simp only [parseBody, waiting, if_true, andThen]
          exact ⟨not_tooLarge_needMore, remaining, .inr (.inl ⟨rfl, announced⟩)⟩

private theorem advances_unfinished {p : HttpParser} {buf : Buffer}
    {missing : Bytes} (stage : p.state = .headers)
    (uncut : cut? lf buf.readable = none) (more : missing ≠ [])
    (lines : HeaderRest (buf.readable ++ missing)) :
    Advances (p.headerBytes + buf.readable.length) buf.readable missing
      (parse p buf) := by
  have pending := pendingLine_of_notMem (cut?_eq_none_iff.mp uncut)
  rw [parse_headers_unfinished stage uncut, Buffer.length_readable]
  constructor
  · intro large
    simp only [gt_iff_lt, large, if_true]
    exact ⟨_, rfl, rfl⟩
  · intro small _
    rw [if_neg (by simpa using small), pending]
    exact ⟨rfl, stage, rfl, rfl, lines⟩
  · intro _ complete
    exact absurd complete more

theorem parse_headers_advances {text : Bytes} (lines : HeaderRest text)
    {p : HttpParser} {buf : Buffer} {missing : Bytes}
    (stage : p.state = .headers) (split : buf.readable ++ missing = text) :
    Advances (p.headerBytes + buf.readable.length) buf.readable missing
      (parse p buf) := by
  induction lines generalizing p buf with
  | @blank line oneLine empty =>
      rcases append_eq_line split oneLine with
        ⟨uncut, more⟩ | ⟨after, found, arrived, rest⟩
      · exact advances_unfinished stage uncut more
          (split ▸ .blank oneLine empty)
      · obtain ⟨rfl, rfl⟩ : after = [] ∧ missing = [] := by simpa using rest
        have total : p.headerBytes + buf.readable.length =
            p.headerBytes + (line.length + 1) := by
          rw [arrived]
          simp
        obtain ⟨large, small⟩ := parse_headers_blank stage found empty
        rw [total]
        exact ⟨large, fun _ more => absurd rfl more, fun fits _ => small fits⟩
  | @line line rest oneLine text accepted tail ih =>
      rcases append_eq_line split oneLine with
        ⟨uncut, more⟩ | ⟨after, found, arrived, remaining⟩
      · exact advances_unfinished stage uncut more
          (split ▸ .line oneLine text accepted tail)
      · obtain ⟨q, buf', stage', count, left, step⟩ :=
          parse_headers_line stage found text accepted
        have total : p.headerBytes + buf.readable.length =
            q.headerBytes + buf'.readable.length := by
          rw [count, arrived, left]
          simp only [List.length_append, List.length_cons]
          omega
        have pending : pendingLine buf.readable = pendingLine buf'.readable := by
          rw [arrived, left, pendingLine_append_lf]
        have later := ih stage' (left ▸ remaining)
        rw [total]
        rcases step with ⟨large, exceeds⟩ | ⟨same, _⟩
        · exact ⟨fun _ => large, fun small _ => by omega, fun small _ => by omega⟩
        · rw [same]
          exact ⟨later.tooLarge, pending ▸ later.waiting, later.ended⟩

/-- A call that has part of the request line only. -/
theorem parse_requestLine_unfinished {p : HttpParser} {buf : Buffer}
    (stage : p.state = .requestLine) (uncut : cut? lf buf.readable = none) :
    parse p buf =
      let p := { p with headerBytes := buf.readableBytes }
      if p.headerBytes > kMaxHeaderBytes then
        (.error requestLineTooLarge, p, buf)
      else (.needMore, p, buf) := by
  rw [parse, parseLoop_requestLine _ _ _ _ stage, parseRequestLine,
    Buffer.findEOL_eq_none uncut]
  dsimp only
  split <;> rfl

theorem parse_requestLine_advances {line rest missing : Bytes}
    {req : HttpRequest} {p : HttpParser} {buf : Buffer}
    (stage : p.state = .requestLine) {after : Bytes}
    (found : cut? lf buf.readable = some (line, after))
    (accepted : readRequestLine p.req line = .ok req)
    (lines : HeaderRest rest) (remaining : after ++ missing = rest) :
    Advances (p.headerBytes + buf.readable.length) buf.readable missing
      (parse p buf) := by
  obtain ⟨eol, located, taken, left⟩ := Buffer.findEOL_eq_some found
  obtain ⟨_, arrived⟩ := cut?_eq_some_iff.mp found
  let q := { p with
    state := .headers
    req
    headerBytes := p.headerBytes + (line.length + 1) }
  have later : Advances _ _ missing (parse q (buf.retrieveUntil (eol + 1))) :=
    parse_headers_advances lines rfl (left ▸ remaining)
  have same : parse p buf = parse q (buf.retrieveUntil (eol + 1)) := by
    rw [parse, parseLoop_requestLine _ _ _ _ stage, parseRequestLine, located]
    simp only [taken, accepted, andThen, q]
  have total : p.headerBytes + buf.readable.length =
      p.headerBytes + (line.length + 1) +
        (buf.retrieveUntil (eol + 1)).readable.length := by
    rw [arrived, left]
    simp only [List.length_append, List.length_cons]
    omega
  have pending : pendingLine buf.readable =
      pendingLine (buf.retrieveUntil (eol + 1)).readable := by
    rw [left, arrived, pendingLine_append_lf]
  rw [same, total]
  exact ⟨later.tooLarge, pending ▸ later.waiting, later.ended⟩

/-! ## Any number of calls -/

theorem Ended.parse {p : HttpParser} {buf : Buffer} (ended : Ended p buf) :
    ¬(parse p buf).1.TooLarge ∧ Ended (parse p buf).2.1 (parse p buf).2.2 := by
  obtain ⟨drained, stage | ⟨stage, announced⟩ | ⟨stage, small⟩⟩ := ended
  · rw [HttpParser.parse, parseLoop_done _ _ _ _ stage]
    exact ⟨not_tooLarge_complete, drained, .inl stage⟩
  · have waiting : buf.readableBytes < p.contentLength := by
      rw [← Buffer.length_readable, drained]
      exact Nat.pos_of_ne_zero announced
    rw [HttpParser.parse, parseLoop_body _ _ _ _ stage]
    simp only [parseBody, waiting, if_true, andThen]
    exact ⟨not_tooLarge_needMore, drained, .inr (.inl ⟨stage, announced⟩)⟩
  · have uncut : cut? lf buf.readable = none := by
      rw [drained]
      rfl
    have nothing : buf.readableBytes = 0 := by
      rw [← Buffer.length_readable, drained]
      rfl
    rw [parse_headers_unfinished stage uncut]
    simp only [nothing, Nat.add_zero, gt_iff_lt, Nat.not_lt.mpr small, if_false]
    exact ⟨not_tooLarge_needMore, drained, .inr (.inr ⟨stage, small⟩)⟩

/-- Some call answered 431. -/
def AnyTooLarge (results : List Result) : Prop := ∃ r ∈ results, r.TooLarge

theorem anyTooLarge_cons (r : Result) (results : List Result) :
    AnyTooLarge (r :: results) ↔ r.TooLarge ∨ AnyTooLarge results := by
  simp [AnyTooLarge]

theorem feeds_ended {p : HttpParser} {buf : Buffer} {chunks : List Bytes}
    (ended : Ended p buf) (nothing : chunks.flatten = []) :
    ¬AnyTooLarge (feeds p buf chunks) := by
  induction chunks generalizing p buf with
  | nil => simp [feeds, AnyTooLarge]
  | cons chunk chunks ih =>
      obtain ⟨rfl, rest⟩ : chunk = [] ∧ chunks.flatten = [] := by
        simpa using nothing
      have still : Ended p (buf.append []) := ⟨by simpa using ended.1, ended.2⟩
      obtain ⟨small, later⟩ := still.parse
      rw [feeds, anyTooLarge_cons]
      exact not_or.mpr ⟨small, ih later rest⟩

theorem feeds_headers {seen missing : Bytes} {chunks : List Bytes}
    {p : HttpParser} {buf : Buffer} (counted : lf ∈ seen)
    (stage : p.state = .headers) (pending : buf.readable = pendingLine seen)
    (lines : HeaderRest (pendingLine seen ++ missing))
    (more : missing ≠ []) (arriving : chunks.flatten = missing) :
    AnyTooLarge (feeds p buf chunks) ↔
      kMaxHeaderBytes < p.headerBytes + (pendingLine seen).length +
        missing.length + recounted seen chunks := by
  induction chunks generalizing seen missing p buf with
  | nil => exact absurd arriving.symm more
  | cons chunk chunks ih =>
      rw [List.flatten_cons] at arriving
      subst arriving
      have countedNow : lf ∈ seen ++ chunk := List.mem_append_left _ counted
      have arrived : (buf.append chunk).readable = pendingLine seen ++ chunk := by
        rw [Buffer.readable_append, pending]
      have pendingNow : pendingLine (buf.append chunk).readable =
          pendingLine (seen ++ chunk) := by
        rw [arrived, pendingLine_append seen]
      have whole : (buf.append chunk).readable ++ chunks.flatten =
          pendingLine seen ++ (chunk ++ chunks.flatten) := by
        rw [arrived, List.append_assoc]
      have call := parse_headers_advances lines stage whole
      rw [feeds, anyTooLarge_cons, recounted]
      simp only [countedNow, counted, if_true, List.length_append]
      have size : (buf.append chunk).readable.length =
          (pendingLine seen).length + chunk.length := by
        rw [arrived, List.length_append]
      rw [size] at call
      by_cases large : kMaxHeaderBytes <
          p.headerBytes + ((pendingLine seen).length + chunk.length)
      · exact iff_of_true (.inl (call.tooLarge large)) (by omega)
      · have small := Nat.le_of_not_lt large
        by_cases last : chunks.flatten = []
        · obtain ⟨fits, ended⟩ := call.ended small last
          have finished : pendingLine (seen ++ chunk) = [] := by
            rw [pendingLine_append]
            exact pendingLine_headerRest (by simpa [last] using lines)
          rw [recounted_eq_zero finished countedNow last, finished, last]
          refine iff_of_false (not_or.mpr ⟨fits, feeds_ended ended last⟩) ?_
          simpa [Nat.add_assoc] using small
        · obtain ⟨asked, stage', count, pending', lines'⟩ :=
            call.waiting small last
          rw [pendingNow] at pending' lines'
          rw [ih countedNow stage' pending' lines' last rfl, count, asked,
            or_iff_right not_tooLarge_needMore]
          omega

theorem feeds_requestLine {seen missing line rest : Bytes}
    {chunks : List Bytes} {req : HttpRequest} {p : HttpParser} {buf : Buffer}
    (oneLine : lf ∉ line) (accepted : readRequestLine p.req line = .ok req)
    (lines : HeaderRest rest) (whole : seen ++ missing = line ++ lf :: rest)
    (unfinished : lf ∉ seen) (stage : p.state = .requestLine)
    (pending : buf.readable = seen) (count : p.headerBytes = seen.length)
    (arriving : chunks.flatten = missing) :
    AnyTooLarge (feeds p buf chunks) ↔
      kMaxHeaderBytes < seen.length + missing.length + recounted seen chunks := by
  induction chunks generalizing seen missing p buf with
  | nil =>
      subst arriving
      have member : lf ∈ seen ++ ([] : List Bytes).flatten := by
        rw [whole]
        simp
      exact absurd (by simpa using member) unfinished
  | cons chunk chunks ih =>
      rw [List.flatten_cons] at arriving
      subst arriving
      rw [← List.append_assoc] at whole
      have arrived : (buf.append chunk).readable = seen ++ chunk := by
        rw [Buffer.readable_append, pending]
      rw [feeds, anyTooLarge_cons, recounted]
      simp only [unfinished, if_false, List.length_append]
      rcases append_eq_line whole oneLine with
        ⟨uncut, more⟩ | ⟨after, found, split, remaining⟩
      · have stillUnfinished := cut?_eq_none_iff.mp uncut
        rw [parse_requestLine_unfinished stage (arrived ▸ uncut),
          ← Buffer.length_readable, arrived, List.length_append]
        simp only [stillUnfinished, if_false, Nat.zero_add]
        by_cases large : seen.length + chunk.length > kMaxHeaderBytes
        · simp only [large, if_true]
          exact iff_of_true (.inl ⟨_, rfl, rfl⟩) (by omega)
        · simp only [large, if_false]
          rw [ih (p := { p with headerBytes := seen.length + chunk.length })
            accepted whole stillUnfinished stage arrived (by simp) rfl,
            or_iff_right not_tooLarge_needMore, List.length_append]
          omega
      · have countedNow : lf ∈ seen ++ chunk := by
          rw [split]
          simp
        have call := parse_requestLine_advances stage (arrived ▸ found)
          accepted lines remaining
        rw [arrived, count, List.length_append] at call
        simp only [countedNow, if_true]
        by_cases large : kMaxHeaderBytes <
            seen.length + (seen.length + chunk.length)
        · exact iff_of_true (.inl (call.tooLarge large)) (by omega)
        · have small := Nat.le_of_not_lt large
          by_cases last : chunks.flatten = []
          · obtain ⟨fits, ended⟩ := call.ended small last
            have finished : pendingLine (seen ++ chunk) = [] := by
              rw [split, pendingLine_append_lf]
              have whole : after = rest := by simpa [last] using remaining
              exact whole ▸ pendingLine_headerRest lines
            rw [recounted_eq_zero finished countedNow last, finished, last]
            refine iff_of_false (not_or.mpr ⟨fits, feeds_ended ended last⟩) ?_
            simp only [List.length_nil]
            omega
          · obtain ⟨asked, stage', count', pending', lines'⟩ :=
              call.waiting small last
            rw [feeds_headers countedNow stage' pending' lines' last rfl,
              count', asked, or_iff_right not_tooLarge_needMore]
            omega

/-- Successive calls on a fresh parser run into the limit exactly when the
section and the bytes that are counted again exceed it together. -/
theorem feeds_tooLarge_iff {header : Bytes} {chunks : List Bytes}
    (acceptable : HeaderSection header) (arriving : chunks.flatten = header) :
    AnyTooLarge (feeds {} (Buffer.create 1024) chunks) ↔
      kMaxHeaderBytes < header.length + recounted [] chunks := by
  obtain ⟨oneLine, accepted, tail⟩ := acceptable
  have nothing : (Buffer.create 1024).readable = [] := by simp
  have count := feeds_requestLine (p := {}) oneLine accepted tail
    (List.nil_append _) (List.not_mem_nil) rfl nothing rfl arriving
  simpa using count

/-- The limit is exact for one cut of a section exactly when the section is
over the limit itself, or stays within it together with the bytes that this
cut makes the parser count again. -/
theorem feeds_limit_exact_iff {header : Bytes} {chunks : List Bytes}
    (acceptable : HeaderSection header) (arriving : chunks.flatten = header) :
    (AnyTooLarge (feeds {} (Buffer.create 1024) chunks) ↔
        kMaxHeaderBytes < header.length) ↔
      (kMaxHeaderBytes < header.length ∨
        header.length + recounted [] chunks ≤ kMaxHeaderBytes) := by
  rw [feeds_tooLarge_iff acceptable arriving]
  constructor
  · intro exactness
    by_cases exceeds : kMaxHeaderBytes < header.length
    · exact .inl exceeds
    · exact .inr (Nat.le_of_not_lt (exceeds ∘ exactness.mp))
  · rintro (exceeds | fits)
    · exact iff_of_true (by omega) exceeds
    · exact iff_of_false (by omega) (by omega)

private theorem headerSection_get {fields : Bytes} (tail : HeaderRest fields) :
    HeaderSection (lit "GET / HTTP/1.1\r\n" ++ fields) := by
  have accepted : readRequestLine {} (lit "GET / HTTP/1.1\r") =
      .ok { method := lit "GET", target := lit "/", path := lit "/",
            version := lit "HTTP/1.1", keepAlive := true } := by decide
  exact .mk (by decide) accepted tail

private theorem headerRest_blank : HeaderRest crlf :=
  @HeaderRest.blank [cr] (by decide) (by decide)

theorem feeds_limit_exact_host :
    let chunks := [lit "GET / HT", lit "TP/1.1\r\nHost", lit ": a\r\n\r\n"]
    (AnyTooLarge (feeds {} (Buffer.create 1024) chunks) ↔
        kMaxHeaderBytes < chunks.flatten.length) ∧
      recounted [] chunks = 12 := by
  have tail : HeaderRest (lit "Host: a\r\n\r\n") :=
    @HeaderRest.line (lit "Host: a\r") _ (by decide) (by decide) (by decide)
      headerRest_blank
  refine ⟨(feeds_limit_exact_iff (headerSection_get tail) (by decide)).mpr ?_,
    by decide⟩
  exact .inr (by decide)

/-- A header line of about half the limit, without its line end. -/
def longCookie : Bytes := lit "Cookie:" ++ List.replicate 4200 97 ++ lit ";"

private theorem lf_notMem_longCookie : lf ∉ longCookie := by
  simp only [longCookie, List.mem_append, List.mem_replicate]
  decide

private theorem trim_longCookie : trim (longCookie ++ [cr]) = longCookie := by
  have front : (longCookie ++ [cr]).dropWhile isspace = longCookie ++ [cr] := by
    rw [longCookie, List.append_assoc, List.append_assoc]
    rfl
  rw [trim, front, List.rdropWhile_concat_pos _ _ _ (by decide)]
  exact List.rdropWhile_concat_neg _ _ _ (by decide)

private theorem headerRest_longCookie :
    HeaderRest (longCookie ++ lit "\r\n\r\n") := by
  have oneLine : lf ∉ longCookie ++ [cr] := by
    rw [List.mem_append]
    exact not_or.mpr ⟨lf_notMem_longCookie, by decide⟩
  have accepted : (cut? 58 longCookie).isSome := by
    rw [longCookie, List.append_assoc]
    rfl
  have nonempty : longCookie ≠ [] := List.concat_ne_nil _ _
  have rest := HeaderRest.line oneLine (trim_longCookie.symm ▸ nonempty)
    (trim_longCookie.symm ▸ accepted) headerRest_blank
  rwa [List.append_assoc] at rest

/-- One cut at the end of a long line, and a section that is far below the
limit is rejected. -/
theorem feeds_longCookie_tooLarge :
    let chunks := [lit "GET / HTTP/1.1\r\n" ++ longCookie, lit "\r\n\r\n"]
    HeaderSection chunks.flatten ∧ chunks.flatten.length ≤ kMaxHeaderBytes ∧
      AnyTooLarge (feeds {} (Buffer.create 1024) chunks) := by
  intro chunks
  have acceptable : HeaderSection chunks.flatten := by
    have whole := headerSection_get headerRest_longCookie
    simpa only [chunks, List.flatten_cons, List.flatten_nil, List.append_nil,
      List.append_assoc] using whole
  have size : longCookie.length = 4208 := by
    simp only [longCookie, List.length_append, List.length_replicate]
    decide
  have total : chunks.flatten.length = 4228 := by
    simp only [chunks, List.flatten_cons, List.flatten_nil, List.append_nil,
      List.length_append, size]
    decide
  have pending : pendingLine (lit "GET / HTTP/1.1\r\n" ++ longCookie) =
      longCookie := by
    have afterLine := pendingLine_append_lf (lit "GET / HTTP/1.1\r") longCookie
    exact afterLine.trans (pendingLine_of_notMem lf_notMem_longCookie)
  have again : longCookie.length ≤ recounted [] chunks := by
    have complete : lf ∈ lit "GET / HTTP/1.1\r\n" ++ longCookie :=
      List.mem_append_left _ (by decide)
    simp only [chunks, recounted, List.nil_append, complete, if_true, pending]
    omega
  refine ⟨acceptable, ?_, (feeds_tooLarge_iff acceptable rfl).mpr ?_⟩
  · rw [total]
    decide
  · rw [total]
    exact lt_of_lt_of_le (by rw [size]; decide) (Nat.add_le_add_left again 4228)

end HttpParser

end MiniNet
