import MiniNet.HttpTypes

/-!
# Reading a response off the wire

What a client that follows the line structure of HTTP makes of the bytes of a
response: a status line up to the first CRLF, header lines split at CRLF up to
the first empty one, and the rest as body.  A response whose header values
contain no CRLF is read back as it was.
-/

namespace MiniNet

open Bytes

namespace HttpResponse

/-- Cut a text at the first CRLF, which is dropped. -/
def cutLine? : Bytes → Option (Bytes × Bytes)
  | 13 :: 10 :: rest => some ([], rest)
  | c :: rest => (cutLine? rest).map fun (line, after) => (c :: line, after)
  | [] => none

theorem length_lt_of_cutLine? {text line after : Bytes}
    (found : cutLine? text = some (line, after)) : after.length < text.length := by
  fun_induction cutLine? text generalizing line with
  | case1 rest =>
      cases found
      simp only [List.length_cons]
      omega
  | case2 c rest _ ih =>
      obtain ⟨⟨front, tail⟩, inner, equal⟩ := Option.map_eq_some_iff.mp found
      cases equal
      exact (ih inner).trans (Nat.lt_succ_self _)
  | case3 => cases found

/-- A header line: the name before the colon and the value after it and at
most one space. -/
def readField (line : Bytes) : Option (Bytes × Bytes) :=
  (cut? 58 line).map fun (name, value) =>
    (name, match value with
      | 32 :: rest => rest
      | other => other)

/-- The header lines, and what follows the empty line. -/
def readFields (text : Bytes) : Option (List (Bytes × Bytes) × Bytes) :=
  match _found : cutLine? text with
  | none => none
  | some ([], body) => some ([], body)
  | some (c :: line, rest) =>
      (readField (c :: line)).bind fun field =>
        (readFields rest).map fun (fields, body) => (field :: fields, body)
termination_by text.length
decreasing_by exact length_lt_of_cutLine? _found

theorem readFields_of_empty {text body : Bytes}
    (found : cutLine? text = some ([], body)) : readFields text = some ([], body) := by
  rw [readFields]
  split
  · rename_i missing
    cases found.symm.trans missing
  · rename_i empty
    cases found.symm.trans empty
    rfl
  · rename_i line
    cases found.symm.trans line

theorem readFields_of_line {text line rest : Bytes}
    (found : cutLine? text = some (line, rest)) (nonempty : line ≠ []) :
    readFields text = (readField line).bind fun field =>
      (readFields rest).map fun (fields, body) => (field :: fields, body) := by
  rw [readFields]
  split
  · rename_i missing
    cases found.symm.trans missing
  · rename_i empty
    cases found.symm.trans empty
    exact absurd rfl nonempty
  · rename_i line
    cases found.symm.trans line
    rfl

structure Reading where
  status : Int
  headers : List (Bytes × Bytes)
  body : Bytes
  deriving DecidableEq

def read (wire : Bytes) : Option Reading :=
  (cutLine? wire).bind fun (statusLine, rest) =>
    (cut? 32 statusLine).bind fun (_, afterVersion) =>
      (strtol afterVersion).bind fun status =>
        (readFields rest).map fun (headers, body) => { status, headers, body }

/-- The header list that a response stands for. -/
def headers (resp : HttpResponse) : List (Bytes × Bytes) :=
  [(lit "Content-Length", decimal resp.body.length),
    (lit "Content-Type", resp.contentType),
    (lit "Connection", if resp.keepAlive then lit "keep-alive" else lit "close")] ++
    resp.extraHeaders

/-- The wire form is read as the response that was written, and its content
length is the length of the body. -/
structure ReadsBack (resp : HttpResponse) : Prop where
  reading : read resp.serialize =
    some { status := resp.status, headers := resp.headers, body := resp.body }
  contentLength : decimalValue (decimal resp.body.length) = resp.body.length

/-! ## Lines -/

theorem cutLine?_append {line : Bytes} (rest : Bytes)
    (clean : ¬crlf <:+: line) :
    cutLine? (line ++ crlf ++ rest) = some (line, rest) := by
  induction line with
  | nil => rfl
  | cons c line ih =>
      have tailClean : ¬crlf <:+: line := fun inside =>
        clean (inside.trans (List.suffix_cons c line).isInfix)
      rw [List.cons_append, List.cons_append, cutLine?, ih tailClean]
      · rfl
      · rintro tail rfl same
        cases line with
        | nil => cases same
        | cons d line =>
            cases same
            exact clean ⟨[], line, rfl⟩

/-- A CRLF cannot lie across another octet. -/
theorem crlf_infix_append {mark : UInt8} {front back : Bytes}
    (notCr : mark ≠ cr) (notLf : mark ≠ lf)
    (inside : crlf <:+: front ++ mark :: back) :
    crlf <:+: front ∨ crlf <:+: back := by
  induction front with
  | nil =>
      rcases List.infix_cons_iff.mp inside with start | later
      · obtain ⟨rest, same⟩ := start
        cases same
        exact absurd rfl notCr
      · exact .inr later
  | cons c front ih =>
      rcases List.infix_cons_iff.mp inside with start | later
      · obtain ⟨rest, same⟩ := start
        cases front with
        | nil =>
            cases same
            exact absurd rfl notLf
        | cons d front =>
            cases same
            exact .inl ⟨[], front, rfl⟩
      · rcases ih later with inFront | inBack
        · exact .inl (inFront.trans (List.suffix_cons c front).isInfix)
        · exact .inr inBack

theorem not_crlf_infix_of_cr_notMem {text : Bytes} (absent : cr ∉ text) :
    ¬crlf <:+: text := fun inside => absent (inside.subset (by decide))

/-- A header that keeps to its line. -/
structure OneLine (header : Bytes × Bytes) : Prop where
  named : header.1 ≠ []
  noColon : 58 ∉ header.1
  noCr : cr ∉ header.1
  value : ¬crlf <:+: header.2

theorem oneLine_of_name {name value : Bytes}
    (wellNamed : name ≠ [] ∧ 58 ∉ name ∧ cr ∉ name) (clean : ¬crlf <:+: value) :
    OneLine (name, value) :=
  ⟨wellNamed.1, wellNamed.2.1, wellNamed.2.2, clean⟩

theorem OneLine.clean {header : Bytes × Bytes} (oneLine : OneLine header) :
    ¬crlf <:+: header.1 ++ lit ": " ++ header.2 := by
  intro inside
  have regroup : header.1 ++ lit ": " ++ header.2 =
      (header.1 ++ [58]) ++ 32 :: header.2 := by
    simp only [List.append_assoc]
    rfl
  rw [regroup] at inside
  rcases crlf_infix_append (by decide) (by decide) inside with inName | inValue
  · refine not_crlf_infix_of_cr_notMem ?_ inName
    rw [List.mem_append]
    exact not_or.mpr ⟨oneLine.noCr, by decide⟩
  · exact oneLine.value inValue

theorem OneLine.readField {header : Bytes × Bytes} (oneLine : OneLine header) :
    readField (header.1 ++ lit ": " ++ header.2) = some header := by
  have regroup : header.1 ++ lit ": " ++ header.2 =
      header.1 ++ 58 :: (32 :: header.2) := by
    rw [List.append_assoc]
    rfl
  rw [HttpResponse.readField, regroup, cut?_append _ oneLine.noColon]
  rfl

theorem readFields_flatMap {fields : List (Bytes × Bytes)} (body : Bytes)
    (oneLine : ∀ field ∈ fields, OneLine field) :
    readFields (fields.flatMap headerLine ++ crlf ++ body) = some (fields, body) := by
  induction fields with
  | nil => exact readFields_of_empty rfl
  | cons field fields ih =>
      have first := oneLine field List.mem_cons_self
      have later := ih fun f member => oneLine f (List.mem_cons_of_mem _ member)
      have cut : cutLine? ((field :: fields).flatMap headerLine ++ crlf ++ body) =
          some (field.1 ++ lit ": " ++ field.2,
            fields.flatMap headerLine ++ crlf ++ body) := by
        rw [List.flatMap_cons, headerLine, ← cutLine?_append _ first.clean]
        simp only [List.append_assoc]
      have nonempty : field.1 ++ lit ": " ++ field.2 ≠ [] := by
        simp [first.named]
      rw [readFields_of_line cut nonempty, first.readField, later]
      rfl

/-! ## Whole responses -/

def statusLine (status : Int) : Bytes :=
  lit "HTTP/1.1 " ++ decimalInt status ++ lit " " ++ reason status

/-- The status line is short enough for the array it is printed into, and the
status can be read from it. -/
def StatusReads (status : Int) : Prop :=
  cr ∉ statusLine status ∧ (statusLine status).length ≤ 253 ∧
    (cut? 32 (statusLine status)).bind (fun (_, text) => strtol text) = some status

instance (status : Int) : Decidable (StatusReads status) :=
  inferInstanceAs (Decidable (_ ∧ _ ∧ _))

private theorem snprintf_of_short {size : Nat} {text : Bytes}
    (short : text.length < size) : snprintf size text = text :=
  List.take_of_length_le (Nat.le_sub_one_of_lt short)

theorem serialize_eq {resp : HttpResponse} (status : StatusReads resp.status)
    (sized : resp.body.length < 2 ^ 64) :
    resp.serialize = statusLine resp.status ++ crlf ++
      (resp.headers.flatMap headerLine ++ crlf ++ resp.body) := by
  have first : snprintf 256 (statusLine resp.status ++ crlf) =
      statusLine resp.status ++ crlf := by
    refine snprintf_of_short ?_
    rw [List.length_append]
    exact Nat.lt_of_le_of_lt (Nat.add_le_add_right status.2.1 _) (by decide)
  have second : snprintf 256
      (lit "Content-Length: " ++ decimal resp.body.length ++ crlf) =
      lit "Content-Length: " ++ decimal resp.body.length ++ crlf := by
    refine snprintf_of_short ?_
    have name : (lit "Content-Length: ").length = 16 := by decide
    have lineEnd : crlf.length = 2 := rfl
    have digits := length_decimal_le sized
    rw [List.length_append, List.length_append]
    omega
  have connection : (if resp.keepAlive then lit "Connection: keep-alive" ++ crlf
        else lit "Connection: close" ++ crlf) =
      headerLine (lit "Connection",
        if resp.keepAlive then lit "keep-alive" else lit "close") := by
    cases resp.keepAlive <;> rfl
  rw [serialize, ← statusLine, first, second, connection, headers,
    List.flatMap_append]
  simp only [List.flatMap_cons, List.flatMap_nil, headerLine, List.append_nil,
    List.append_assoc]
  rfl

/-- A response whose content type and extra headers keep to their lines is
read back as it was. -/
theorem readsBack_of_oneLine {resp : HttpResponse}
    (status : StatusReads resp.status) (sized : resp.body.length < 2 ^ 64)
    (contentType : ¬crlf <:+: resp.contentType)
    (extra : ∀ header ∈ resp.extraHeaders, OneLine header) : ReadsBack resp := by
  have oneLine : ∀ header ∈ resp.headers, OneLine header := by
    intro header member
    rcases List.mem_append.mp member with fixed | added
    · simp only [List.mem_cons, List.not_mem_nil, or_false] at fixed
      rcases fixed with rfl | rfl | rfl
      · exact oneLine_of_name (by decide)
          (not_crlf_infix_of_cr_notMem (cr_notMem_decimal _))
      · exact oneLine_of_name (by decide) contentType
      · refine oneLine_of_name (by decide) (not_crlf_infix_of_cr_notMem ?_)
        cases resp.keepAlive <;> decide
    · exact extra header added
  refine ⟨?_, decimalValue_decimal _⟩
  have cut := cutLine?_append
    (resp.headers.flatMap headerLine ++ crlf ++ resp.body)
    (not_crlf_infix_of_cr_notMem status.1)
  obtain ⟨⟨version, text⟩, split, value⟩ := Option.bind_eq_some_iff.mp status.2.2
  dsimp only at value
  rw [read, serialize_eq status sized, cut]
  simp only [Option.bind_some, split, value, readFields_flatMap _ oneLine,
    Option.map_some]

end HttpResponse

end MiniNet
