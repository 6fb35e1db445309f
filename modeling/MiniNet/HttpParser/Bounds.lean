import MiniNet.HttpParser.Sections
import MiniNet.Lib.Machine

/-!
# Bounded acceptance and retention

One connection over any byte stream and any chunking: chunks are appended to
the buffer, the parser is called on it and reset between requests.  The bytes
that the calls take off the buffer are recorded.  After a call that has
reported an error nothing but a reset follows.
-/

namespace MiniNet

open Bytes

namespace HttpParser

/-- A parser with its buffer, the bytes taken off since the last reset, and
those taken off before. -/
structure Reader where
  parser : HttpParser := {}
  inBuf : Buffer := Buffer.create 1024
  consumed : Bytes := []
  earlier : Bytes := []
  failed : Bool := false

inductive Input where
  | append (data : Bytes)
  | parse
  | reset
  deriving DecidableEq

/-- The bytes that a chunk brings. -/
def Input.data : Input → Bytes
  | .append data => data
  | _ => []

def isError : Result → Bool
  | .error _ => true
  | _ => false

namespace Reader

/-- A step of the connection; a call of `parse` gives its result. -/
def step (s : Reader) : Input → Option (Reader × Option Result)
  | .append data => some ({ s with inBuf := s.inBuf.append data }, none)
  | .parse =>
      if s.failed then none
      else
        let (result, parser, inBuf) := HttpParser.parse s.parser s.inBuf
        let taken := s.inBuf.readableBytes - inBuf.readableBytes
        some
          ({ s with
              parser
              inBuf
              consumed := s.consumed ++ s.inBuf.readable.take taken
              failed := isError result },
            some result)
  | .reset =>
      some
        ({ s with
            parser := s.parser.reset
            consumed := []
            earlier := s.earlier ++ s.consumed
            failed := false },
          none)

/-- What holds of a connection that has received `stream`. -/
structure Sound (stream : Bytes) (s : Reader) : Prop where
  conserved : stream = s.earlier ++ s.consumed ++ s.inBuf.readable
  progress : s.failed = false → Progress s.consumed s.parser

theorem sound_new : Sound [] {} where
  conserved := by simp
  progress _ := progress_fresh

/-- A call takes bytes off the front of the buffer, and goes on with the
current request unless it reports an error. -/
theorem step_parse {s t : Reader} {b : Option Result}
    (stepped : s.step .parse = some (t, b)) :
    ∃ result taken, b = some result ∧ s.inBuf.readable = taken ++ t.inBuf.readable ∧
      t.consumed = s.consumed ++ taken ∧ t.earlier = s.earlier ∧ s.failed = false ∧
      t.failed = isError result ∧
      HttpParser.parse s.parser s.inBuf = (result, t.parser, t.inBuf) := by
  rcases called : HttpParser.parse s.parser s.inBuf with ⟨result, parser, inBuf⟩
  simp only [step, called] at stepped
  obtain ⟨live, same⟩ := Option.ite_none_left_eq_some.mp stepped
  cases same
  obtain ⟨taken, split⟩ : inBuf.readable <:+ s.inBuf.readable := by
    have suffix := suffix_parse s.parser s.inBuf
    rwa [called] at suffix
  have front : s.inBuf.readable.take (s.inBuf.readableBytes - inBuf.readableBytes) =
      taken := by
    rw [← Buffer.length_readable, ← Buffer.length_readable, ← split,
      List.length_append, Nat.add_sub_cancel, List.take_left]
  exact ⟨result, taken, rfl, split.symm, congrArg (s.consumed ++ ·) front, rfl,
    by simpa using live, rfl, rfl⟩

/-- What a call that reports no error leaves of the current request. -/
theorem Sound.continues {stream : Bytes} {s t : Reader} {result : Result}
    (sound : Sound stream s) (stepped : s.step .parse = some (t, some result)) :
    (result = .needMore → Progress t.consumed t.parser ∧ t.consumed.length ≤ 8192 ∧
        t.inBuf.readable.length ≤ 8192) ∧
      (result = .complete → Progress t.consumed t.parser ∧ t.parser.state = .done) := by
  obtain ⟨_, taken, ⟨rfl⟩, split, consumed, _, live, _, called⟩ := step_parse stepped
  have continues := (sound.progress live).parse s.inBuf
  rw [called] at continues
  constructor
  · rintro rfl
    obtain ⟨front, queue, progress, _, _, header, unread⟩ := continues
    obtain rfl := List.append_cancel_right (split.symm.trans queue)
    rw [consumed]
    exact ⟨progress, header, unread⟩
  · rintro rfl
    obtain ⟨front, queue, progress, stage⟩ := continues
    obtain rfl := List.append_cancel_right (split.symm.trans queue)
    rw [consumed]
    exact ⟨progress, stage⟩

theorem Sound.step {stream : Bytes} {s t : Reader} {a : Input} {b : Option Result}
    (sound : Sound stream s) (stepped : s.step a = some (t, b)) :
    Sound (stream ++ a.data) t := by
  cases a with
  | append data =>
      cases stepped
      refine ⟨?_, sound.progress⟩
      rw [sound.conserved, Buffer.readable_append, List.append_assoc]
      rfl
  | parse =>
      obtain ⟨result, taken, rfl, split, consumed, earlier, _, failed, _⟩ :=
        step_parse stepped
      obtain ⟨waiting, complete⟩ := sound.continues stepped
      constructor
      · rw [sound.conserved, split, consumed, earlier]
        simp [Input.data]
      · rw [failed]
        intro noError
        cases result with
        | needMore => exact (waiting rfl).1
        | complete => exact (complete rfl).1
        | error err => cases noError
  | reset =>
      cases stepped
      refine ⟨?_, fun _ => progress_fresh⟩
      rw [sound.conserved]
      simp [Input.data]

theorem sound_run {inputs : List Input} {s : Reader}
    {history : List (Input × Option Result)}
    (ran : Machine.run step {} inputs = some (s, history)) :
    Sound (inputs.flatMap Input.data) s := by
  rw [← Machine.map_fst_run ran]
  refine Machine.run_induct
    (motive := fun history s => Sound ((history.map Prod.fst).flatMap Input.data) s)
    ?_ sound_new ran
  intro history s a t b sound stepped
  simpa using sound.step stepped

/-- In every state of a connection, a call that asks for more bytes has
consumed at most 8192 bytes of the current request's header section and
leaves at most 8192 bytes unread; and a call that completes a request has
consumed a header section of at most 8192 bytes and the body that its
`Content-Length` announces, of at most 8192 bytes, and has left everything
after it unread. -/
theorem run_bounded {inputs : List Input} {s t : Reader}
    {history : List (Input × Option Result)} {result : Result}
    (ran : Machine.run step {} inputs = some (s, history))
    (called : s.step .parse = some (t, some result)) :
    (result = .needMore →
        t.consumed.length ≤ 8192 ∧ t.inBuf.readableBytes ≤ 8192) ∧
      (result = .complete → ∃ header head, Head header head ∧ header.length ≤ 8192 ∧
        readContentLength head 0 = .ok t.parser.req.body.length ∧
        t.parser.req.body.length ≤ 8192 ∧
        t.consumed = header ++ t.parser.req.body) ∧
      inputs.flatMap Input.data = t.earlier ++ t.consumed ++ t.inBuf.readable := by
  have sound := sound_run ran
  obtain ⟨waiting, complete⟩ := sound.continues called
  refine ⟨?_, ?_, ?_⟩
  · intro asked
    obtain ⟨_, header, unread⟩ := waiting asked
    rw [Buffer.length_readable] at unread
    exact ⟨header, unread⟩
  · intro finished
    obtain ⟨progress, stage⟩ := complete finished
    obtain ⟨header, head, consumed, read, _, announced, _, counted⟩ :=
      progress.of_done stage
    exact ⟨header, head, read, counted, announced, readContentLength_le announced, consumed⟩
  · have after := (sound.step called).conserved
    simpa [Input.data] using after

/-- A request with a body of two bytes, in two chunks, and the beginning of
another one. -/
def postTwoBytes : List Input :=
  [.append (lit "POST / HTTP/1.1\r\nContent-Le"), .parse,
    .append (lit "ngth: 2\r\n\r\nhiGET")]

theorem run_bounded_postTwoBytes :
    ∃ s t history, Machine.run step {} postTwoBytes = some (s, history) ∧
      s.step .parse = some (t, some .complete) ∧
      ∃ header head, Head header head ∧ header.length ≤ 8192 ∧
        t.consumed = header ++ t.parser.req.body := by
  have completes : (Machine.run step {} postTwoBytes).any (fun result =>
      (result.1.step .parse).any fun after => after.2 == some .complete) = true := by
    decide +kernel
  obtain ⟨⟨s, history⟩, ran, after⟩ := (Option.any_eq_true _ _).mp completes
  obtain ⟨⟨t, result⟩, called, complete⟩ := (Option.any_eq_true _ _).mp after
  obtain rfl : result = some .complete := by simpa using complete
  obtain ⟨header, head, read, size, _, _, consumed⟩ := (run_bounded ran called).2.1 rfl
  exact ⟨s, t, history, ran, called, header, head, read, size, consumed⟩

end Reader

end HttpParser

end MiniNet
