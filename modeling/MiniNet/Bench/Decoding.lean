import MiniNet.Bench
import MiniNet.HttpTypes.Reading

/-!
# Server encoder and benchmark decoder

The server writes a response in `HttpResponse::serialize`, and the benchmark
client takes it apart in `parseOne`.  `receive_serialized` says that the two
agree: however the responses are cut into chunks, `drainHttp` reports each of
them once, and consumes all of its bytes.
-/

namespace MiniNet

open Bytes

namespace Bench

/-- A header that keeps to its line and does not concern the body. -/
structure PlainExtra (header : Bytes × Bytes) : Prop where
  noColon : 58 ∉ header.1
  name_oneLine : cr ∉ header.1 ∧ lf ∉ header.1
  value_oneLine : cr ∉ header.2 ∧ lf ∉ header.2
  notLength : toLower header.1 ≠ lit "content-length"
  notCoding : toLower header.1 ≠ lit "transfer-encoding"

instance (header : Bytes × Bytes) : Decidable (PlainExtra header) :=
  decidable_of_iff
    (58 ∉ header.1 ∧ (cr ∉ header.1 ∧ lf ∉ header.1) ∧ (cr ∉ header.2 ∧ lf ∉ header.2) ∧
      toLower header.1 ≠ lit "content-length" ∧ toLower header.1 ≠ lit "transfer-encoding")
    ⟨fun ⟨noColon, name, value, notLength, notCoding⟩ =>
        ⟨noColon, name, value, notLength, notCoding⟩,
      fun plain => ⟨plain.noColon, plain.name_oneLine, plain.value_oneLine,
        plain.notLength, plain.notCoding⟩⟩

/-- A response that a server may write.  The bound on the body is that of
`std::string`. -/
structure PlainResponse extends HttpResponse where
  status_valid : 100 ≤ status ∧ status ≤ 599
  contentType_oneLine : cr ∉ contentType ∧ lf ∉ contentType
  extra_plain : ∀ header ∈ extraHeaders, PlainExtra header
  section_fits : toHttpResponse.serialize.length ≤ 64 * 1024 + body.length
  body_fits : body.length < 2 ^ 63

/-! ## The status line -/

theorem statusLine_eq {status : Int} (valid : 100 ≤ status) :
    HttpResponse.statusLine status =
      lit "HTTP/1.1" ++ 32 :: (decimal status.toNat ++ 32 :: HttpResponse.reason status) := by
  have nonnegative : ¬ status < 0 := by omega
  have same : status.natAbs = status.toNat := by omega
  rw [HttpResponse.statusLine, decimalInt, if_neg nonnegative, same]
  simp only [List.append_assoc]
  rfl

/-- The text of a status line: short, and on one line. -/
def ShortText (text : Bytes) : Prop := cr ∉ text ∧ text.length ≤ 31

instance (text : Bytes) : Decidable (ShortText text) :=
  inferInstanceAs (Decidable (cr ∉ text ∧ text.length ≤ 31))

theorem shortText_ite {c : Prop} [Decidable c] {text other : Bytes}
    (first : ShortText text) (second : ShortText other) :
    ShortText (if c then text else other) := by
  split
  · exact first
  · exact second

theorem shortText_reason (status : Int) : ShortText (HttpResponse.reason status) := by
  unfold HttpResponse.reason
  iterate 12 refine shortText_ite (by decide) ?_
  decide

/-- The number in a status line is read back, whatever follows the line. -/
theorem strtol_status {status : Int} (valid : 100 ≤ status ∧ status ≤ 599) (more : Bytes) :
    strtol (decimal status.toNat ++ 32 :: more) = some status := by
  rw [strtol_append (decimal_ne_nil _) (fun c member => isdigit_of_mem_decimal member)
    (by simp; decide), decimalValue_decimal]
  congr 1
  omega

theorem statusReads {status : Int} (valid : 100 ≤ status ∧ status ≤ 599) :
    HttpResponse.StatusReads status := by
  have eq := statusLine_eq valid.1
  obtain ⟨oneLine, short⟩ := shortText_reason status
  have digits : (decimal status.toNat).length ≤ 20 := length_decimal_le (by omega)
  refine ⟨?_, ?_, ?_⟩
  · rw [eq]
    simp only [List.mem_append, List.mem_cons, cr_notMem_decimal, oneLine]
    decide
  · have size : (lit "HTTP/1.1").length = 8 := by decide
    rw [eq]
    simp only [List.length_append, List.length_cons, size]
    omega
  · rw [eq, cut?_append _ (by decide)]
    exact strtol_status valid _

/-! ## Header lines -/

/-- A header line without its end. -/
def headerText (header : Bytes × Bytes) : Bytes := header.1 ++ 58 :: 32 :: header.2

theorem headerLine_eq (header : Bytes × Bytes) :
    HttpResponse.headerLine header = headerText header ++ crlf := by
  have separator : lit ": " = [58, 32] := by decide
  simp [HttpResponse.headerLine, headerText, separator]

/-- What the scan makes of one header. -/
def readField (framing : Framing) (header : Bytes × Bytes) : Framing :=
  let val := trim (32 :: header.2)
  if toLower header.1 = lit "content-length" then
    { framing with contentLength := atoll val }
  else if toLower header.1 = lit "transfer-encoding" ∧
      (find? (lit "chunked") (toLower val)).isSome then
    { framing with chunked := true }
  else framing

/-- A name and a value on one line, with the name before the colon. -/
structure OnLine (header : Bytes × Bytes) : Prop where
  noColon : 58 ∉ header.1
  name : cr ∉ header.1
  value : cr ∉ header.2

theorem onLine_of_name {name value : Bytes} (wellNamed : 58 ∉ name ∧ cr ∉ name)
    (clean : cr ∉ value) : OnLine (name, value) :=
  ⟨wellNamed.1, wellNamed.2, clean⟩

theorem OnLine.cr_notMem {header : Bytes × Bytes} (onLine : OnLine header) :
    cr ∉ headerText header := by
  simp only [headerText, List.mem_append, List.mem_cons, onLine.name, onLine.value]
  decide

theorem findFrom_append (needle : Bytes) (before text : Bytes) :
    findFrom needle (before ++ text) before.length =
      (find? needle text).map (before.length + ·) := by
  rw [findFrom, List.drop_left]

theorem OnLine.readHeader {header : Bytes × Bytes} (onLine : OnLine header)
    (before more : Bytes) (framing : Framing) :
    readHeader (before ++ (headerText header ++ more)) before.length
        (before.length + (headerText header).length) framing =
      readField framing header := by
  obtain ⟨name, value⟩ := header
  have text : headerText (name, value) ++ more = name ++ 58 :: (32 :: value ++ more) := by
    simp [headerText]
  have size : (headerText (name, value)).length = name.length + (value.length + 2) := by
    simp [headerText]
  have colon : findFrom [58] (before ++ (headerText (name, value) ++ more)) before.length =
      some (before.length + name.length) := by
    rw [findFrom_append, text, find?_mark onLine.noColon]
    rfl
  have inside : before.length + name.length <
      before.length + (headerText (name, value)).length := by omega
  have key : ((before ++ (headerText (name, value) ++ more)).drop before.length).take
      (before.length + name.length - before.length) = name := by
    rw [List.drop_left, text, Nat.add_sub_cancel_left, List.take_left]
  have rest : (before ++ (headerText (name, value) ++ more)).drop
      (before.length + name.length + 1) = 32 :: value ++ more := by
    have front : before ++ (headerText (name, value) ++ more) =
        (before ++ (name ++ [58])) ++ (32 :: value ++ more) := by
      rw [text]
      simp
    rw [front]
    refine List.drop_left' ?_
    simp
    omega
  have val : (32 :: value ++ more).take
      (before.length + (headerText (name, value)).length -
        (before.length + name.length) - 1) = 32 :: value := by
    have length : before.length + (headerText (name, value)).length -
        (before.length + name.length) - 1 = (32 :: value).length := by
      rw [size, List.length_cons]
      omega
    rw [length, List.take_left]
  unfold Bench.readHeader readField
  simp only [colon, if_pos inside, key, rest, val]

/-- The scan reads the headers one after the other. -/
theorem scanHeaders_flatMap {headers : List (Bytes × Bytes)} {before more : Bytes}
    {hdrEnd : Nat} {framing : Framing} (onLine : ∀ header ∈ headers, OnLine header)
    (ends : hdrEnd + 2 =
      before.length + (headers.flatMap HttpResponse.headerLine).length) :
    scanHeaders (before ++ (headers.flatMap HttpResponse.headerLine ++ more)) hdrEnd
        before.length framing =
      headers.foldl readField framing := by
  induction headers generalizing before framing with
  | nil =>
      rw [List.flatMap_nil, List.length_nil] at ends
      rw [scanHeaders, if_neg (by omega)]
      rfl
  | cons header headers ih =>
      have first := onLine header List.mem_cons_self
      have later := fun h member => onLine h (List.mem_cons_of_mem header member)
      have text : (header :: headers).flatMap HttpResponse.headerLine ++ more =
          headerText header ++
            (crlf ++ (headers.flatMap HttpResponse.headerLine ++ more)) := by
        rw [List.flatMap_cons, headerLine_eq]
        simp only [List.append_assoc]
      have size : ((header :: headers).flatMap HttpResponse.headerLine).length =
          (headerText header).length + 2 +
            (headers.flatMap HttpResponse.headerLine).length := by
        rw [List.flatMap_cons, headerLine_eq, List.length_append, List.length_append]
        rfl
      have some_octet : 0 < (headerText header).length := by simp [headerText]
      have lineEnd : findFrom crlf (before ++ (headerText header ++
          (crlf ++ (headers.flatMap HttpResponse.headerLine ++ more)))) before.length =
          some (before.length + (headerText header).length) := by
        rw [findFrom_append, find?_crlf first.cr_notMem]
        rfl
      rw [text, scanHeaders_of_line (by omega) lineEnd (by omega), first.readHeader]
      have place : before.length + (headerText header).length + 2 =
          (before ++ (headerText header ++ crlf)).length := by
        rw [List.length_append, List.length_append, ← Nat.add_assoc]
        rfl
      have regroup : before ++ (headerText header ++
          (crlf ++ (headers.flatMap HttpResponse.headerLine ++ more))) =
          before ++ (headerText header ++ crlf) ++
            (headers.flatMap HttpResponse.headerLine ++ more) := by
        simp only [List.append_assoc]
      rw [place, regroup, ih later (by omega)]
      rfl

/-! ## The headers of a response -/

theorem readField_of_other {name value : Bytes} {framing : Framing}
    (notLength : toLower name ≠ lit "content-length")
    (notCoding : toLower name ≠ lit "transfer-encoding") :
    readField framing (name, value) = framing := by
  unfold readField
  rw [if_neg notLength, if_neg fun both => notCoding both.1]

theorem foldl_readField_of_other {headers : List (Bytes × Bytes)} {framing : Framing}
    (extra : ∀ header ∈ headers, PlainExtra header) :
    headers.foldl readField framing = framing := by
  induction headers with
  | nil => rfl
  | cons header headers ih =>
      have first := extra header List.mem_cons_self
      rw [List.foldl_cons, readField_of_other first.notLength first.notCoding]
      exact ih fun later member => extra later (List.mem_cons_of_mem _ member)

theorem trim_decimal (value : Nat) : trim (32 :: decimal value) = decimal value := by
  have digit : ∀ c ∈ decimal value, (c == 32 || c == 9) = false ∧
      (c == 32 || c == 9 || c == 13) = false := by
    intro c member
    have isDigit := isdigit_of_mem_decimal member
    simp only [Bool.or_eq_false_iff, beq_eq_false_iff_ne]
    refine ⟨⟨?_, ?_⟩, ⟨?_, ?_⟩, ?_⟩ <;> rintro rfl <;> cases isDigit
  have front : (32 :: decimal value).dropWhile (fun c => c == 32 || c == 9) =
      decimal value := by
    obtain ⟨c, rest, same⟩ := List.exists_cons_of_ne_nil (decimal_ne_nil value)
    have first := (digit c (by simp [same])).1
    rw [List.dropWhile_cons, if_pos (by decide), same, List.dropWhile_cons,
      if_neg (by simp only [first]; decide)]
  rw [trim, front, List.rdropWhile_eq_self_iff]
  intro nonempty
  rw [(digit _ (List.getLast_mem nonempty)).2]
  decide

namespace PlainResponse

theorem onLine (r : PlainResponse) : ∀ header ∈ r.headers, OnLine header := by
  intro header member
  rcases List.mem_append.mp member with fixed | added
  · simp only [List.mem_cons, List.not_mem_nil, or_false] at fixed
    rcases fixed with rfl | rfl | rfl
    · exact onLine_of_name (by decide) (cr_notMem_decimal _)
    · exact onLine_of_name (by decide) r.contentType_oneLine.1
    · refine onLine_of_name (by decide) ?_
      cases r.keepAlive <;> decide
  · have extra := r.extra_plain header added
    exact ⟨extra.noColon, extra.name_oneLine.1, extra.value_oneLine.1⟩

/-- The length of the body is the only thing the scan learns. -/
theorem foldl_headers (r : PlainResponse) :
    r.headers.foldl readField {} = { contentLength := r.body.length } := by
  have length : readField {} (lit "Content-Length", decimal r.body.length) =
      { contentLength := r.body.length } := by
    have number : atoll (trim (32 :: decimal r.body.length)) = r.body.length := by
      have small := r.body_fits
      rw [trim_decimal, atoll, strtol_of_digits (decimal_ne_nil _)
        fun c member => isdigit_of_mem_decimal member, decimalValue_decimal]
      simp only [Option.getD_some]
      omega
    rw [readField]
    dsimp only
    rw [if_pos (by decide), number]
  have contentType : toLower (lit "Content-Type") ≠ lit "content-length" ∧
      toLower (lit "Content-Type") ≠ lit "transfer-encoding" := by decide
  have connection : toLower (lit "Connection") ≠ lit "content-length" ∧
      toLower (lit "Connection") ≠ lit "transfer-encoding" := by decide
  rw [HttpResponse.headers, List.foldl_append, List.foldl_cons, List.foldl_cons,
    List.foldl_cons, List.foldl_nil, length,
    readField_of_other contentType.1 contentType.2,
    readField_of_other connection.1 connection.2]
  exact foldl_readField_of_other r.extra_plain

/-! ## One response on the wire -/

/-- The response up to the blank line. -/
def head (r : PlainResponse) : Bytes :=
  HttpResponse.statusLine r.status ++ crlf ++ r.headers.flatMap HttpResponse.headerLine

theorem serialize_eq (r : PlainResponse) : r.serialize = r.head ++ (crlf ++ r.body) := by
  have sized : r.body.length < 2 ^ 64 := r.body_fits.trans (by decide)
  rw [HttpResponse.serialize_eq (statusReads r.status_valid) sized, head]
  simp only [List.append_assoc]

theorem length_head (r : PlainResponse) : 14 ≤ r.head.length ∧
    r.head.length + 2 ≤ kMaxHeaderBytes := by
  have fits := r.section_fits
  have line := statusLine_eq r.status_valid.1
  have size : (lit "HTTP/1.1").length = 8 := by decide
  have ends : crlf.length = 2 := rfl
  rw [serialize_eq, List.length_append, List.length_append, ends] at fits
  have first : 10 ≤ (HttpResponse.statusLine r.status).length := by
    rw [line]
    simp only [List.length_append, List.length_cons, size]
    omega
  have second : 2 ≤ (r.headers.flatMap HttpResponse.headerLine).length := by
    rw [HttpResponse.headers, List.flatMap_append, List.flatMap_cons, headerLine_eq]
    simp only [List.length_append, ends]
    omega
  refine ⟨?_, ?_⟩
  · rw [head, List.length_append, List.length_append, ends]
    omega
  · rw [kMaxHeaderBytes]
    omega

/-- The blank line is found at the end of the headers, not before. -/
theorem find?_head (r : PlainResponse) (more : Bytes) :
    find? (crlf ++ crlf) (r.head ++ (crlf ++ more)) = some (r.head.length - 2) := by
  have lines : r.head = (HttpResponse.statusLine r.status ::
      r.headers.map headerText).flatMap (· ++ crlf) := by
    rw [head, List.flatMap_cons, List.flatMap_map, funext headerLine_eq]
  rw [lines]
  apply find?_blankLine
  intro text member
  rcases List.mem_cons.mp member with rfl | later
  · refine ⟨?_, (statusReads r.status_valid).1⟩
    rw [statusLine_eq r.status_valid.1]
    simp
  · obtain ⟨header, among, rfl⟩ := List.mem_map.mp later
    refine ⟨?_, (r.onLine header among).cr_notMem⟩
    simp [headerText]

/-- The receive buffer when the headers of a response and a part of what
follows have arrived. -/
def received (r : PlainResponse) (before arrived : Bytes) : Bytes :=
  before ++ (r.head ++ (crlf ++ arrived))

section

variable (r : PlainResponse) (before arrived : Bytes)

theorem received_eq : r.received before arrived =
    before ++ (HttpResponse.statusLine r.status ++
      (crlf ++ (r.headers.flatMap HttpResponse.headerLine ++ (crlf ++ arrived)))) := by
  simp only [received, head, List.append_assoc]

theorem findFrom_lineEnd : findFrom crlf (r.received before arrived) before.length =
    some (before.length + (HttpResponse.statusLine r.status).length) := by
  rw [received_eq, findFrom_append, find?_crlf (statusReads r.status_valid).1]
  rfl

theorem take_version : ((r.received before arrived).drop before.length).take 5 =
    lit "HTTP/" := by
  rw [received_eq, List.drop_left, statusLine_eq r.status_valid.1]
  rfl

theorem findFrom_space : findFrom [32] (r.received before arrived) before.length =
    some (before.length + 8) := by
  rw [received_eq, findFrom_append, statusLine_eq r.status_valid.1, List.append_assoc,
    List.cons_append, find?_mark (by decide)]
  rfl

theorem atoi_received : atoi ((r.received before arrived).drop (before.length + 8 + 1)) =
    r.status := by
  have valid := r.status_valid
  have front : r.received before arrived =
      before ++ (lit "HTTP/1.1" ++ [32]) ++ (decimal r.status.toNat ++
        32 :: (HttpResponse.reason r.status ++ (crlf ++
          (r.headers.flatMap HttpResponse.headerLine ++ (crlf ++ arrived))))) := by
    rw [received_eq, statusLine_eq valid.1]
    simp
  have size : (before ++ (lit "HTTP/1.1" ++ [32])).length = before.length + 8 + 1 := by
    rw [List.length_append]
    rfl
  rw [front, List.drop_left' size, atoi, strtol_status valid, Option.getD_some]
  exact Int.bmod_eq_of_le (by omega) (by omega)

theorem scanHeaders_received : scanHeaders (r.received before arrived)
    (before.length + (r.head.length - 2))
    (before.length + (HttpResponse.statusLine r.status).length + 2) {} =
    { contentLength := r.body.length } := by
  have regroup : r.received before arrived =
      before ++ (HttpResponse.statusLine r.status ++ crlf) ++
        (r.headers.flatMap HttpResponse.headerLine ++ (crlf ++ arrived)) := by
    rw [received_eq]
    simp
  have place : before.length + (HttpResponse.statusLine r.status).length + 2 =
      (before ++ (HttpResponse.statusLine r.status ++ crlf)).length := by
    rw [List.length_append, List.length_append, ← Nat.add_assoc]
    rfl
  have total : r.head.length = (HttpResponse.statusLine r.status).length + 2 +
      (r.headers.flatMap HttpResponse.headerLine).length := by
    rw [head, List.length_append, List.length_append]
    rfl
  have some_line := r.length_head.1
  rw [← r.foldl_headers, regroup, place]
  apply scanHeaders_flatMap r.onLine
  omega

/-- Once the headers are there, only the length of the body decides. -/
theorem parseHead_received :
    parseHead (r.received before arrived) before.length
        (before.length + (r.head.length - 2)) =
      if arrived.length < r.body.length then .needMore
      else .complete r.status (before.length + (r.head.length + 2) + r.body.length) := by
  have valid := r.status_valid
  have some_line := r.length_head.1
  have lineSize : 8 < (HttpResponse.statusLine r.status).length := by
    have size : (lit "HTTP/1.1").length = 8 := by decide
    rw [statusLine_eq valid.1, List.length_append, List.length_cons, size]
    omega
  have bodyStart : before.length + (r.head.length - 2) + 4 =
      before.length + (r.head.length + 2) := by omega
  have rest : (r.received before arrived).length -
      (before.length + (r.head.length + 2)) = arrived.length := by
    have ends : crlf.length = 2 := rfl
    simp only [received, List.length_append, ends]
    omega
  have statusText : (some (before.length + 8)).filter
      (· < before.length + (HttpResponse.statusLine r.status).length) =
      some (before.length + 8) := by
    rw [Option.filter_some, if_pos (by simpa using lineSize)]
  have httpLine : ¬ (before.length + (HttpResponse.statusLine r.status).length ≤
      before.length ∨ lit "HTTP/" ≠ lit "HTTP/") := by
    simp only [ne_eq, not_true_eq_false, or_false]
    omega
  have validStatus : ¬ (r.status < 100 ∨ 599 < r.status) := by omega
  unfold parseHead
  rw [findFrom_lineEnd]
  dsimp only
  rw [take_version, if_neg httpLine, findFrom_space, statusText]
  dsimp only
  rw [atoi_received, if_neg validStatus, scanHeaders_received, bodyStart, rest]
  rfl

theorem parseOne_received :
    parseOne (r.received before arrived) before.length =
      if arrived.length < r.body.length then .needMore
      else .complete r.status (before.length + (r.head.length + 2) + r.body.length) := by
  have enough : ¬ (r.received before arrived).length - before.length < 16 := by
    have some_line := r.length_head.1
    have ends : crlf.length = 2 := rfl
    simp only [received, List.length_append, ends]
    omega
  have hdrEnd : findFrom (crlf ++ crlf) (r.received before arrived) before.length =
      some (before.length + (r.head.length - 2)) := by
    rw [received, findFrom_append, find?_head]
    rfl
  unfold parseOne
  dsimp only
  rw [if_neg enough, hdrEnd]
  exact r.parseHead_received before arrived

end

/-- A response that has arrived is taken off whole. -/
theorem parseOne_whole (r : PlainResponse) (before more : Bytes) :
    parseOne (before ++ (r.serialize ++ more)) before.length =
      .complete r.status (before.length + r.serialize.length) := by
  have text : before ++ (r.serialize ++ more) = r.received before (r.body ++ more) := by
    rw [serialize_eq, received]
    simp only [List.append_assoc]
  have size : before.length + r.serialize.length =
      before.length + (r.head.length + 2) + r.body.length := by
    have ends : crlf.length = 2 := rfl
    rw [serialize_eq, List.length_append, List.length_append, ends]
    omega
  rw [text, parseOne_received, if_neg (by rw [List.length_append]; omega), size]

/-- There is no blank line in an unfinished header section. -/
theorem find?_unfinished (r : PlainResponse) {arrived missing : Bytes}
    (cut : arrived ++ missing = r.head ++ crlf) (some_octet : missing ≠ []) :
    find? (crlf ++ crlf) arrived = none := by
  cases found : find? (crlf ++ crlf) arrived with
  | none => rfl
  | some place =>
      have whole := @firstAt_find? (crlf ++ crlf) (by decide) (r.head ++ (crlf ++ []))
      rw [find?_head, List.append_nil, ← cut] at whole
      have here := @firstAt_find? (crlf ++ crlf) (by decide) arrived
      rw [found] at here
      have within : place + 4 ≤ arrived.length := by
        have fits := here.1.length_le
        rw [List.length_drop] at fits
        have size : (crlf ++ crlf).length = 4 := rfl
        omega
      have inside : crlf ++ crlf <+: (arrived ++ missing).drop place := by
        rw [List.drop_append_of_le_length (by omega)]
        exact here.1.trans (List.prefix_append _ _)
      have late : ¬ place < r.head.length - 2 := fun early => whole.2 place early inside
      have total := congrArg List.length cut
      have rest := List.length_pos_iff.mpr some_octet
      have ends : crlf.length = 2 := rfl
      rw [List.length_append, List.length_append, ends] at total
      omega

/-- The decoder waits for the rest of the headers. -/
theorem parseOne_headMissing (r : PlainResponse) {before arrived missing : Bytes}
    (cut : arrived ++ missing = r.head ++ crlf) (some_octet : missing ≠ []) :
    parseOne (before ++ arrived) before.length = .needMore := by
  have absent : findFrom (crlf ++ crlf) (before ++ arrived) before.length = none := by
    rw [findFrom_append, r.find?_unfinished cut some_octet]
    rfl
  have small : ¬ (before ++ arrived).length - before.length > kMaxHeaderBytes := by
    have fits := r.length_head.2
    have total := congrArg List.length cut
    have ends : crlf.length = 2 := rfl
    rw [List.length_append, List.length_append, ends] at total
    rw [List.length_append]
    omega
  unfold parseOne
  simp only [absent, if_neg small, ite_self]

/-- The decoder waits for the rest of the body. -/
theorem parseOne_bodyMissing (r : PlainResponse) {before arrived missing : Bytes}
    (cut : arrived ++ missing = r.body) (some_octet : missing ≠ []) :
    parseOne (before ++ (r.head ++ crlf ++ arrived)) before.length = .needMore := by
  have short : arrived.length < r.body.length := by
    have rest := List.length_pos_iff.mpr some_octet
    rw [← cut, List.length_append]
    omega
  have waiting := r.parseOne_received before arrived
  rw [if_pos short] at waiting
  rwa [List.append_assoc]

/-- As long as a part of a response is missing, the decoder waits. -/
theorem parseOne_unfinished (r : PlainResponse) {before arrived missing : Bytes}
    (cut : arrived ++ missing = r.serialize) (some_octet : missing ≠ []) :
    parseOne (before ++ arrived) before.length = .needMore := by
  rw [serialize_eq, ← List.append_assoc] at cut
  rcases List.append_eq_append_iff.mp cut with
    ⟨rest, headCut, rfl⟩ | ⟨part, rfl, bodyCut⟩
  · cases rest with
    | nil =>
        rw [List.append_nil] at headCut
        have waiting := @parseOne_bodyMissing r before [] _ (List.nil_append _) some_octet
        rwa [List.append_nil, headCut] at waiting
    | cons c rest => exact r.parseOne_headMissing headCut.symm (List.cons_ne_nil _ _)
  · exact r.parseOne_bodyMissing bodyCut.symm some_octet

end PlainResponse

/-! ## The receive buffer -/

/-- What has arrived and is not yet consumed. -/
def Conn.unread (c : Conn) : Bytes := c.inBytes.drop c.inOff

/-- `in_off` lies within `in`, and this is what is behind it. -/
structure Holds (c : Conn) (unread : Bytes) : Prop where
  within : c.inOff ≤ c.inBytes.length
  rest : c.unread = unread

theorem Holds.split {c : Conn} {unread : Bytes} (holds : Holds c unread) :
    ∃ before, c.inBytes = before ++ unread ∧ c.inOff = before.length := by
  obtain ⟨within, rfl⟩ := holds
  refine ⟨c.inBytes.take c.inOff, (List.take_append_drop _ _).symm, ?_⟩
  rw [List.length_take]
  omega

theorem holds_of_split {c : Conn} {before unread : Bytes}
    (text : c.inBytes = before ++ unread) (place : c.inOff = before.length) :
    Holds c unread := by
  refine ⟨?_, ?_⟩
  · rw [text, place, List.length_append]
    omega
  · rw [Conn.unread, text, place, List.drop_left]

/-- Compaction loses nothing. -/
theorem Holds.compact {c : Conn} {unread : Bytes} (holds : Holds c unread) :
    Holds (compact c) unread := by
  obtain ⟨before, text, place⟩ := holds.split
  unfold Bench.compact
  split
  · rename_i consumed
    refine ⟨Nat.le_refl _, ?_⟩
    have nothing : unread = [] := by
      rw [text, place, List.length_append] at consumed
      exact List.length_eq_zero_iff.mp (by omega)
    rw [nothing]
    rfl
  · split
    · exact ⟨Nat.zero_le _, holds.rest⟩
    · exact holds

theorem Holds.append {c : Conn} {unread : Bytes} (holds : Holds c unread) (chunk : Bytes) :
    Holds { c with inBytes := c.inBytes ++ chunk } (unread ++ chunk) := by
  obtain ⟨before, text, place⟩ := holds.split
  refine @holds_of_split _ before _ ?_ place
  simp only [text, List.append_assoc]

/-- `done` has been reported; of `rest`, `left` has arrived and the `future`
is still to come. -/
structure Reports (drained : Drained) (done rest : List PlainResponse)
    (left future : Bytes) : Prop where
  ok : drained.ok = true
  calls : drained.calls = done.map fun r => .onResponseComplete r.status
  holds : Holds drained.conn left
  stream : left ++ future = rest.flatMap (·.serialize)
  finished : future = [] → rest = []

/-- A response that has arrived is reported, and the loop goes on behind it. -/
theorem drainLoop_whole {r : PlainResponse} {b : Bench} {c : Conn} {more : Bytes}
    (holds : Holds c (r.serialize ++ more)) :
    ∃ b' c', Holds c' more ∧
      drainLoop b c =
        { drainLoop b' c' with
          calls := .onResponseComplete r.status :: (drainLoop b' c').calls } := by
  obtain ⟨before, text, place⟩ := holds.split
  have finished := r.parseOne_whole before more
  rw [← text, ← place] at finished
  have kept := onResponseComplete_in b { c with inOff := c.inOff + r.serialize.length }
    r.status
  refine ⟨_, _, ?_, drainLoop_of_complete finished⟩
  refine @holds_of_split _ (before ++ r.serialize) _ ?_ ?_
  · rw [kept.1, List.append_assoc]
    exact text
  · rw [kept.2, place, List.length_append]

/-- The loop reports the responses that have arrived, and waits for the next. -/
theorem drainLoop_serialized {responses : List PlainResponse} {b : Bench} {c : Conn}
    {unread future : Bytes} (holds : Holds c unread)
    (stream : unread ++ future = responses.flatMap (·.serialize)) :
    ∃ done rest left, responses = done ++ rest ∧
      Reports (drainLoop b c) done rest left future := by
  induction responses generalizing b c unread with
  | nil =>
      obtain ⟨rfl, rfl⟩ := List.append_eq_nil_iff.mp stream
      obtain ⟨before, text, place⟩ := holds.split
      have waiting : parseOne c.inBytes c.inOff = .needMore := by
        rw [text, place, List.append_nil, parseOne, Nat.sub_self]
        rfl
      rw [drainLoop_of_needMore waiting]
      exact ⟨[], [], [], rfl, rfl, rfl, holds, rfl, fun _ => rfl⟩
  | cons r responses ih =>
      have whole : ∀ more, unread = r.serialize ++ more →
          more ++ future = responses.flatMap (·.serialize) →
          ∃ done rest left, r :: responses = done ++ rest ∧
            Reports (drainLoop b c) done rest left future := by
        rintro more rfl later
        obtain ⟨b', c', behind, looped⟩ := drainLoop_whole (b := b) holds
        obtain ⟨done, rest, left, rfl, reports⟩ := @ih b' c' more behind later
        rw [looped]
        refine ⟨r :: done, rest, left, rfl, { reports with calls := ?_ }⟩
        rw [List.map_cons, ← reports.calls]
      rw [List.flatMap_cons] at stream
      rcases List.append_eq_append_iff.mp stream with
        ⟨missing, cut, rfl⟩ | ⟨more, arrived, later⟩
      · cases missing with
        | nil =>
            rw [List.append_nil] at cut
            exact whole [] (by rw [cut, List.append_nil]) rfl
        | cons d missing =>
            obtain ⟨before, text, place⟩ := holds.split
            have waiting := @PlainResponse.parseOne_unfinished r before _ _ cut.symm
              (List.cons_ne_nil _ _)
            rw [← text, ← place] at waiting
            rw [drainLoop_of_needMore waiting]
            exact ⟨[], r :: responses, unread, rfl, rfl, rfl, holds, stream,
              fun nothing => (by cases nothing)⟩
      · exact whole more arrived later.symm

theorem drainHttp_serialized {responses : List PlainResponse} {b : Bench} {c : Conn}
    {unread future : Bytes} (holds : Holds c unread)
    (stream : unread ++ future = responses.flatMap (·.serialize)) :
    ∃ done rest left, responses = done ++ rest ∧
      Reports (drainHttp b c) done rest left future := by
  obtain ⟨done, rest, left, same, reports⟩ := drainLoop_serialized (b := b) holds stream
  refine ⟨done, rest, left, same, ?_⟩
  unfold drainHttp
  dsimp only
  rw [if_pos reports.ok]
  exact { reports with holds := reports.holds.compact }

/-! ## All chunks -/

theorem receive_reports {responses : List PlainResponse} {chunks : List Bytes} {b : Bench}
    {c : Conn} {unread : Bytes} (holds : Holds c unread)
    (stream : unread ++ chunks.flatten = responses.flatMap (·.serialize))
    (finished : chunks = [] → responses = []) :
    ∃ left, Reports (receive b c chunks) responses [] left [] := by
  induction chunks generalizing responses b c unread with
  | nil =>
      cases finished rfl
      have nothing : unread = [] := by simpa using stream
      rw [nothing] at holds
      exact ⟨[], rfl, rfl, holds, rfl, fun _ => rfl⟩
  | cons chunk chunks ih =>
      rw [List.flatten_cons, ← List.append_assoc] at stream
      obtain ⟨done, rest, left, rfl, reports⟩ :=
        drainHttp_serialized (b := b) (holds.append chunk) stream
      obtain ⟨last, later⟩ := ih (b := (drainHttp b _).bench) reports.holds reports.stream
        fun nothing => reports.finished (by rw [nothing]; rfl)
      refine ⟨last, ?_⟩
      rw [receive]
      dsimp only
      rw [if_pos reports.ok]
      refine { later with calls := ?_ }
      rw [List.map_append, ← reports.calls, ← later.calls]

/-- However the responses are cut into chunks, no error is reported, every
response is reported once and in order, and everything is consumed. -/
theorem receive_serialized {responses : List PlainResponse} {chunks : List Bytes}
    {b : Bench} {c : Conn} (consumed : c.inOff = c.inBytes.length)
    (cut : chunks.flatten = responses.flatMap (·.serialize)) :
    let drained := receive b c chunks
    drained.ok = true ∧
      drained.calls = responses.map (fun r => .onResponseComplete r.status) ∧
      drained.conn.inOff = drained.conn.inBytes.length := by
  have holds : Holds c [] := by
    refine @holds_of_split _ c.inBytes _ ?_ consumed
    rw [List.append_nil]
  have finished : chunks = [] → responses = [] := by
    rintro rfl
    cases responses with
    | nil => rfl
    | cons r responses =>
        have nothing : r.serialize = [] := (List.append_eq_nil_iff.mp cut.symm).1
        have some_octet := r.length_head.1
        rw [r.serialize_eq] at nothing
        have size := congrArg List.length nothing
        rw [List.length_append] at size
        simp only [List.length_nil] at size
        omega
  obtain ⟨left, reports⟩ := receive_reports (b := b) holds (by simpa using cut) finished
  refine ⟨reports.ok, reports.calls, ?_⟩
  have nothing : left = [] := by simpa using reports.stream
  obtain ⟨before, text, place⟩ := reports.holds.split
  rw [place, text, nothing, List.append_nil]

/-- Its body looks like the start of another response. -/
private def misleading : PlainResponse where
  status := 404
  body := lit "\r\n\r\nHTTP/1.1 200 OK\r\nContent-Length: 9\r\n\r\n"
  extraHeaders := [(lit "X-Code", lit "content-length: 3")]
  status_valid := by decide
  contentType_oneLine := by decide
  extra_plain := by decide
  section_fits := by decide +kernel
  body_fits := by decide

private def redirect : PlainResponse where
  status := 302
  keepAlive := false
  extraHeaders := [(lit "Location", lit "https://example.com/a")]
  status_valid := by decide
  contentType_oneLine := by decide
  extra_plain := by decide
  section_fits := by decide +kernel
  body_fits := by decide

theorem receive_serialized_misleading :
    let wire := misleading.serialize ++ (redirect.serialize ++ misleading.serialize)
    let drained := receive { clock := fun reads => UInt64.ofNat reads } {}
      [wire.take 90, [], (wire.drop 90).take 20, wire.drop 110]
    drained.ok = true ∧
      drained.calls = [.onResponseComplete 404, .onResponseComplete 302,
        .onResponseComplete 404] ∧
      drained.conn.inOff = drained.conn.inBytes.length := by
  intro wire
  have cut : [wire.take 90, [], (wire.drop 90).take 20, wire.drop 110].flatten =
      [misleading, redirect, misleading].flatMap (·.serialize) := by
    have second : (wire.drop 90).take 20 ++ wire.drop 110 = wire.drop 90 := by
      have halves := List.take_append_drop 20 (wire.drop 90)
      rwa [List.drop_drop] at halves
    simp [second, wire]
  exact @receive_serialized [misleading, redirect, misleading] _ _ _ rfl cut

end Bench

end MiniNet
