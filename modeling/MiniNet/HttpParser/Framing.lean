import MiniNet.HttpParser.Sections

/-!
# Body framing

Where a body ends must not depend on who reads the header section.  The
parser looks at the first `Content-Length` and the first `Transfer-Encoding`
header only, and takes a length as `strtol` does.  `unambiguous_iff` says for
which header sections this is enough.
-/

namespace MiniNet

open Bytes

namespace HttpParser

/-- The value contains `chunked` in some letter case. -/
def mentionsChunked (value : Bytes) : Bool := (find? (lit "chunked") (lower value)).isSome

/-- The value is a string of digits for this number. -/
def Denotes (value : Bytes) (n : Nat) : Prop :=
  value ≠ [] ∧ (∀ c ∈ value, isdigit c = true) ∧ decimalValue value = n

instance (value : Bytes) (n : Nat) : Decidable (Denotes value n) :=
  decidable_of_iff (value ≠ [] ∧ value.all isdigit = true ∧ decimalValue value = n)
    (by simp [Denotes])

/-- Every `Content-Length` of the request denotes the length of its body, and
no `Transfer-Encoding` asks for chunked coding. -/
structure Framed (req : HttpRequest) : Prop where
  lengths : ∀ value, (lit "content-length", value) ∈ req.headers →
    Denotes value req.body.length
  codings : ∀ value, (lit "transfer-encoding", value) ∈ req.headers →
    mentionsChunked value = false

/-- The fields agree on one length and do not ask for chunked coding. -/
structure Agreeing (fields : List (Bytes × Bytes)) : Prop where
  lengths : ∃ n, ∀ value, (lit "content-length", value) ∈ fields → Denotes value n
  codings : ∀ value, (lit "transfer-encoding", value) ∈ fields →
    mentionsChunked value = false

/-- The first `Transfer-Encoding` asks for chunked coding, or the first
`Content-Length` does not start with a number between 0 and 8192. -/
def Rejected (head : HttpRequest) : Prop :=
  (∃ value, head.findHeader (lit "transfer-encoding") = some value ∧
      mentionsChunked value = true) ∨
    ∃ value, head.findHeader (lit "content-length") = some value ∧
      ∀ n : Nat, n ≤ 8192 → strtol value ≠ some (n : Int)

/-- Append chunks and call `parse`, until it does not ask for more bytes. -/
def feedUntil (p : HttpParser) (buf : Buffer) : List Bytes → Result × HttpParser × Buffer
  | [] => (.needMore, p, buf)
  | chunk :: chunks =>
      match parse p (buf.append chunk) with
      | (.needMore, q, rest) => feedUntil q rest chunks
      | outcome => outcome

/-- However a stream that starts with this header section is cut, a request
that is completed is framed, and a section whose fields do not agree is
answered with an error. -/
def Unambiguous (header : Bytes) (head : HttpRequest) : Prop :=
  ∀ chunks more, chunks.flatten = header ++ more →
    ((feedUntil {} (Buffer.create 1024) chunks).1 = .complete →
        Framed (feedUntil {} (Buffer.create 1024) chunks).2.1.req) ∧
      (¬ Agreeing head.headers →
        ∃ err, (feedUntil {} (Buffer.create 1024) chunks).1 = .error err)

/-! ## The first header of a name -/

theorem findHeader_eq_none {req : HttpRequest} {key : Bytes}
    (absent : req.findHeader key = none) (value : Bytes) : (key, value) ∉ req.headers := by
  intro member
  rw [HttpRequest.findHeader, Option.map_eq_none_iff, List.find?_eq_none] at absent
  simpa using absent _ member

theorem mem_of_findHeader {req : HttpRequest} {key value : Bytes}
    (found : req.findHeader key = some value) : (key, value) ∈ req.headers := by
  rw [HttpRequest.findHeader, Option.map_eq_some_iff] at found
  obtain ⟨⟨name, text⟩, first, rfl⟩ := found
  have same : name = key := by simpa using List.find?_some first
  rw [← same]
  exact List.mem_of_find?_eq_some first

theorem isChunked_eq {req : HttpRequest} :
    isChunked req = true ↔ ∃ value,
      req.findHeader (lit "transfer-encoding") = some value ∧
        mentionsChunked value = true := by
  unfold isChunked
  cases req.findHeader (lit "transfer-encoding") with
  | none => simp
  | some value => simp [mentionsChunked]

/-- A length that is accepted is the number at the start of the first
`Content-Length`. -/
theorem readContentLength_eq_ok {req : HttpRequest} {length : Nat} :
    readContentLength req 0 = .ok length ↔
      (req.findHeader (lit "content-length") = none ∧ length = 0) ∨
        ∃ value, req.findHeader (lit "content-length") = some value ∧
          strtol value = some (length : Int) ∧ length ≤ 8192 := by
  unfold readContentLength
  cases req.findHeader (lit "content-length") with
  | none => simp [eq_comm]
  | some value =>
      cases number : strtol value with
      | none => simp [number]
      | some n =>
          have accepted : (∃ text, some value = some text ∧
              strtol text = some (length : Int) ∧ length ≤ 8192) ↔
              n = length ∧ length ≤ 8192 := by
            constructor
            · rintro ⟨_, ⟨rfl⟩, same, small⟩
              exact ⟨Option.some.inj (number.symm.trans same), small⟩
            · rintro ⟨rfl, small⟩
              exact ⟨value, rfl, number, small⟩
          simp only [reduceCtorEq, false_and, false_or, accepted, number]
          by_cases negative : n < 0
          · rw [if_pos negative]
            refine iff_of_false (by simp) ?_
            omega
          · rw [if_neg negative]
            by_cases large : kMaxBodyBytes < n.toNat
            · rw [if_pos large]
              refine iff_of_false (by simp) ?_
              rw [kMaxBodyBytes] at large
              omega
            · rw [if_neg large, Except.ok.injEq]
              rw [kMaxBodyBytes] at large
              omega

/-- The end of the section is accepted exactly when neither of the first two
headers that matter is rejected. -/
theorem not_rejected_iff {head : HttpRequest} :
    ¬ Rejected head ↔
      isChunked head = false ∧ ∃ length, readContentLength head 0 = .ok length := by
  rw [Rejected, not_or, ← isChunked_eq, Bool.not_eq_true]
  refine and_congr_right fun _ => ?_
  simp only [readContentLength_eq_ok]
  cases found : head.findHeader (lit "content-length") with
  | none => simp
  | some value =>
      constructor
      · intro accepted
        obtain ⟨n, small, number⟩ : ∃ n : Nat, n ≤ 8192 ∧ strtol value = some (n : Int) := by
          simpa using accepted
        exact ⟨n, .inr ⟨value, rfl, number, small⟩⟩
      · rintro ⟨length, ⟨absurdity, _⟩ | ⟨_, ⟨rfl⟩, number, small⟩⟩
        · cases absurdity
        · rintro ⟨_, ⟨rfl⟩, none⟩
          exact none length small number

/-- A string of digits is read as the number it denotes. -/
theorem Denotes.eq_of_strtol {value : Bytes} {n length : Nat} (denotes : Denotes value n)
    (number : strtol value = some (length : Int)) (small : length ≤ 8192) : n = length := by
  obtain ⟨nonempty, digits, rfl⟩ := denotes
  rw [strtol_of_digits nonempty digits] at number
  have same := Option.some.inj number
  omega

/-- If the fields agree, the length that is read is the one they agree on. -/
theorem Agreeing.denotes {head : HttpRequest} {length : Nat}
    (agreeing : Agreeing head.headers)
    (announced : readContentLength head 0 = .ok length) :
    ∀ value, (lit "content-length", value) ∈ head.headers → Denotes value length := by
  intro value member
  obtain ⟨n, lengths⟩ := agreeing.lengths
  rcases readContentLength_eq_ok.mp announced with
    ⟨absent, _⟩ | ⟨first, found, number, small⟩
  · exact absurd member (findHeader_eq_none absent value)
  · have same := (lengths first (mem_of_findHeader found)).eq_of_strtol number small
    rw [← same]
    exact lengths value member

/-! ## Any way of cutting the stream -/

/-- Where a parser stands after some chunks of a stream. -/
def Stands (stream : Bytes) : Result × HttpParser × Buffer → Prop
  | (.error _, _, _) => True
  | (.needMore, q, rest) => ∃ seen, stream = seen ++ rest.readable ∧ Progress seen q ∧
      q.state ≠ .done ∧ (q.state = .body ∨ lf ∉ rest.readable)
  | (.complete, q, _) => ∃ seen unread, stream = seen ++ unread ∧ Progress seen q ∧
      q.state = .done

theorem feedUntil_stands {seen : Bytes} {p : HttpParser} {buf : Buffer}
    {chunks : List Bytes} (progress : Progress seen p) (open_ : p.state ≠ .done)
    (unfinished : p.state = .body ∨ lf ∉ buf.readable) :
    Stands (seen ++ (buf.readable ++ chunks.flatten)) (feedUntil p buf chunks) := by
  induction chunks generalizing seen p buf with
  | nil => exact ⟨seen, by simp, progress, open_, unfinished⟩
  | cons chunk chunks ih =>
      have continues := progress.parse (buf.append chunk)
      rw [feedUntil]
      rcases called : parse p (buf.append chunk) with ⟨result, q, rest⟩
      rw [called] at continues
      cases result with
      | error err => trivial
      | needMore =>
          obtain ⟨taken, queue, later, stillOpen, still, _⟩ := continues
          have stands := ih later stillOpen still
          have stream : seen ++ taken ++ (rest.readable ++ chunks.flatten) =
              seen ++ (buf.readable ++ (chunk :: chunks).flatten) := by
            rw [Buffer.readable_append] at queue
            rw [List.flatten_cons, ← List.append_assoc buf.readable, queue]
            simp
          rwa [stream] at stands
      | complete =>
          obtain ⟨taken, queue, later, stage⟩ := continues
          refine ⟨seen ++ taken, rest.readable ++ chunks.flatten, ?_, later, stage⟩
          rw [Buffer.readable_append] at queue
          rw [List.flatten_cons, ← List.append_assoc buf.readable, queue]
          simp

/-- A stream that starts with a section and is not answered with an error has
passed the checks on the section. -/
theorem Stands.accepted {header more : Bytes} {head : HttpRequest}
    {outcome : Result × HttpParser × Buffer} (read : Head header head)
    (stands : Stands (header ++ more) outcome)
    (noError : ∀ err, outcome.1 ≠ .error err) :
    header.length ≤ 8192 ∧ ¬ Rejected head := by
  obtain ⟨result, q, rest⟩ := outcome
  cases result with
  | error err => exact absurd rfl (noError err)
  | needMore =>
      obtain ⟨seen, stream, progress, open_, unfinished⟩ := stands
      cases progress with
      | requestLine stage fresh unknown =>
          rw [stage] at unfinished
          have uncut : lf ∉ rest.readable := unfinished.resolve_left (fun h => (by cases h))
          rw [List.nil_append] at stream
          rw [← stream] at uncut
          exact absurd (List.mem_append_left _ read.lf_mem_self) uncut
      | headers stage lines unknown counted =>
          rw [stage] at unfinished
          have uncut : lf ∉ rest.readable := unfinished.resolve_left (fun h => (by cases h))
          exact absurd (read.lf_mem lines stream) uncut
      | body stage section_ plain announced req counted =>
          obtain ⟨rfl, rfl, _⟩ := read.unique section_ stream
          exact ⟨counted, not_rejected_iff.mpr ⟨plain, _, announced⟩⟩
      | done stage section_ plain announced req counted => exact absurd stage open_
  | complete =>
      obtain ⟨seen, unread, stream, progress, stage⟩ := stands
      obtain ⟨_, _, rfl, section_, plain, announced, _, counted⟩ := progress.of_done stage
      rw [List.append_assoc] at stream
      obtain ⟨rfl, rfl, _⟩ := read.unique section_ stream
      exact ⟨counted, not_rejected_iff.mpr ⟨plain, _, announced⟩⟩

/-- A completed request whose fields agree is framed. -/
theorem Stands.framed {header more : Bytes} {head : HttpRequest} {q : HttpParser}
    {rest : Buffer} (read : Head header head)
    (stands : Stands (header ++ more) (.complete, q, rest))
    (agreeing : Agreeing head.headers) : Framed q.req := by
  obtain ⟨seen, unread, stream, progress, stage⟩ := stands
  obtain ⟨_, _, rfl, section_, _, announced, req, _⟩ := progress.of_done stage
  rw [List.append_assoc] at stream
  obtain ⟨rfl, rfl, _⟩ := read.unique section_ stream
  have fields : q.req.headers = head.headers := by rw [req]
  refine ⟨?_, ?_⟩
  · rw [fields]
    exact agreeing.denotes announced
  · rw [fields]
    exact agreeing.codings

/-! ## When the framing is unambiguous -/

/-- A section that passes the checks is completed by a body of the length that
was read. -/
theorem feedUntil_complete {header : Bytes} {head : HttpRequest} (read : Head header head)
    (short : header.length ≤ 8192) (acceptable : ¬ Rejected head) :
    ∃ body, (feedUntil {} (Buffer.create 1024) [header ++ body]).1 = .complete := by
  obtain ⟨plain, length, announced⟩ := not_rejected_iff.mp acceptable
  let body : Bytes := List.replicate length 0
  have size : body.length = length := List.length_replicate
  rw [← size] at announced
  have arrived : ((Buffer.create 1024).append (header ++ body)).readable =
      header ++ (body ++ []) := by
    simp
  obtain ⟨q, rest, called, _⟩ := parse_complete read plain announced arrived short
  refine ⟨body, ?_⟩
  simp only [feedUntil, called]

theorem stands_feedUntil {header more : Bytes} {chunks : List Bytes}
    (stream : chunks.flatten = header ++ more) :
    Stands (header ++ more) (feedUntil {} (Buffer.create 1024) chunks) := by
  have stands := @feedUntil_stands [] {} (Buffer.create 1024) chunks
    progress_fresh (fun h => (by cases h)) (.inr (by simp))
  have whole : [] ++ ((Buffer.create 1024).readable ++ chunks.flatten) =
      header ++ more := by
    simpa using stream
  rwa [whole] at stands

/-- Framing is unambiguous for exactly the sections that are too long, that
are rejected for the first header of a kind, or whose fields agree. -/
theorem unambiguous_iff {header : Bytes} {head : HttpRequest} (read : Head header head) :
    Unambiguous header head ↔
      8192 < header.length ∨ Rejected head ∨ Agreeing head.headers := by
  constructor
  · intro unambiguous
    by_contra outside
    obtain ⟨long, acceptable, disagreeing⟩ :
        ¬ 8192 < header.length ∧ ¬ Rejected head ∧ ¬ Agreeing head.headers := by
      simpa only [not_or] using outside
    obtain ⟨body, completed⟩ :=
      feedUntil_complete read (Nat.le_of_not_lt long) acceptable
    obtain ⟨err, failed⟩ := (unambiguous [header ++ body] body (by simp)).2 disagreeing
    cases completed.symm.trans failed
  · intro condition chunks more stream
    have stands := stands_feedUntil stream
    generalize feedUntil {} (Buffer.create 1024) chunks = outcome at stands
    have agreeing : (∀ err, outcome.1 ≠ .error err) → Agreeing head.headers := by
      intro noError
      obtain ⟨short, acceptable⟩ := stands.accepted read noError
      rcases condition with long | rejected | agreeing
      · omega
      · exact absurd rejected acceptable
      · exact agreeing
    constructor
    · intro completed
      obtain ⟨result, q, rest⟩ := outcome
      cases completed
      exact stands.framed read (agreeing fun err h => (by cases h))
    · intro disagreeing
      by_contra noError
      exact disagreeing (agreeing fun err failed => noError ⟨err, failed⟩)

private def postRequest (fields : List (Bytes × Bytes)) : HttpRequest :=
  { method := lit "POST", target := lit "/", path := lit "/",
    version := lit "HTTP/1.1", headers := fields }

private theorem head_post {lines : Bytes} {fields : List (Bytes × Bytes)}
    (read : Fields lines fields) :
    Head (lit "POST / HTTP/1.1\r\n" ++ lines ++ crlf) (postRequest fields) := by
  have accepted : readRequestLine {} (lit "POST / HTTP/1.1\r") =
      .ok (postRequest []) := by decide
  exact @Head.mk _ [cr] _ (.mk (by decide) accepted read) (by decide) (by decide)

private theorem fields_length {value rest : Bytes} {fields : List (Bytes × Bytes)}
    (oneLine : lf ∉ lit "Content-Length: " ++ value ++ [cr])
    (cleaned : trim (lit "Content-Length: " ++ value ++ [cr]) =
      lit "Content-Length: " ++ value)
    (trimmed : trim (lit " " ++ value) = value) (tail : Fields rest fields) :
    Fields (lit "Content-Length: " ++ value ++ [cr] ++ lf :: rest)
      ((lit "content-length", value) :: fields) := by
  have text : trim (lit "Content-Length: " ++ value ++ [cr]) ≠ [] := by
    rw [cleaned]
    exact List.cons_ne_nil _ _
  have colon : cut? 58 (trim (lit "Content-Length: " ++ value ++ [cr])) =
      some (lit "Content-Length", lit " " ++ value) := by
    rw [cleaned]
    exact @cut?_append _ (lit "Content-Length") _ (by decide)
  have name : lower (trim (lit "Content-Length")) = lit "content-length" := by decide
  have read := Fields.line oneLine text colon tail
  rwa [name, trimmed] at read

theorem unambiguous_postHello :
    Unambiguous (lit "POST / HTTP/1.1\r\nContent-Length: 5\r\n\r\n")
      (postRequest [(lit "content-length", lit "5")]) := by
  have fields := @fields_length (lit "5") _ _ (by decide) (by decide) (by decide) .nil
  refine (unambiguous_iff (head_post fields)).mpr (.inr (.inr ⟨⟨5, ?_⟩, ?_⟩))
  · intro value member
    have same := (Prod.mk.inj (List.mem_singleton.mp member)).2
    rw [same]
    decide
  · intro value member
    have other := (Prod.mk.inj (List.mem_singleton.mp member)).1
    exact absurd other (by decide)

/-- Two lengths that do not agree, and a body for the smaller one. -/
def twoLengths : Bytes :=
  lit "POST / HTTP/1.1\r\nContent-Length: 5\r\nContent-Length: 6\r\n\r\nhello!"

/-- A request with two lengths is completed by the first of them; the second
does not denote the length of its body. -/
theorem twoLengths_not_framed :
    (feedUntil {} (Buffer.create 1024) [twoLengths]).1 = .complete ∧
      ¬ Framed (feedUntil {} (Buffer.create 1024) [twoLengths]).2.1.req := by
  have fields := @fields_length (lit "5") _ _ (by decide) (by decide) (by decide)
    (@fields_length (lit "6") _ _ (by decide) (by decide) (by decide) .nil)
  have arrived : ((Buffer.create 1024).append twoLengths).readable = twoLengths := by simp
  obtain ⟨q, rest, called, _, req⟩ := @parse_complete _ (lit "hello") (lit "!") _ _
    (head_post fields) (by decide) (by decide) (arrived.trans (by decide)) (by decide)
  simp only [feedUntil, called, true_and]
  intro framed
  have second := framed.lengths (lit "6") (by rw [req]; decide)
  rw [req] at second
  exact absurd second.2.2 (by decide)

end HttpParser

end MiniNet
