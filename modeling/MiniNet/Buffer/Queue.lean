import MiniNet.Buffer
import MiniNet.Lib.Machine

/-!
# The buffer as a byte queue

The operations of `MiniNet.Buffer` compute with unbounded numbers and cannot
leave the vector.  The ones below compute as the machine does: sums of
`size_t` wrap around, and a copy that would leave the vector it reads or
writes has no result.  Under the length condition that excludes the wrap
around the two agree, and every sequence of operations acts on the readable
bytes as on a first-in first-out queue.
-/

namespace MiniNet

namespace Buffer

def kExtraBufSize : Nat := 65536

/-- The value of a sum of type `size_t`. -/
def sizeT (sum : Nat) : Nat := sum % 2 ^ 64

/-! ## Operations on machine words -/

namespace Checked

theorem zero_le_readableBytes (b : Buffer) : 0 ≤ b.readableBytes := Nat.zero_le _

/-- `makeSpace`; the bytes that `memmove` reads must lie in the vector. -/
def makeSpace (b : Buffer) (n : Nat) : Option Buffer :=
  let grown :=
    if sizeT (b.prependableBytes + b.writableBytes) < sizeT (n + 1) then
      resize b.buf (sizeT (b.writeIdx + n))
    else b.buf
  if inside : b.writeIdx ≤ grown.length then
    some
      { buf := (grown.drop b.readIdx).take b.readableBytes ++
          grown.drop b.readableBytes
        readIdx := 0
        writeIdx := b.readableBytes
        read_le_write := zero_le_readableBytes b
        write_le_size := by
          simp only [readableBytes, List.length_append, List.length_take,
            List.length_drop]
          omega }
  else none

def ensureWritable (b : Buffer) (n : Nat) : Option Buffer :=
  if b.writableBytes ≥ n then some b else makeSpace b n

/-- `memcpy` to the write index, which is then advanced past the copy. -/
def write (b : Buffer) (data : Bytes) : Option Buffer :=
  if inside : b.writeIdx + data.length ≤ b.buf.length then
    some
      { buf := b.buf.take b.writeIdx ++ data ++ b.buf.drop (b.writeIdx + data.length)
        readIdx := b.readIdx
        writeIdx := b.writeIdx + data.length
        read_le_write := Nat.le_trans b.read_le_write (Nat.le_add_right _ _)
        write_le_size := by
          simp only [List.length_append, List.length_take, List.length_drop]
          omega }
  else none

def append (b : Buffer) (data : Bytes) : Option Buffer :=
  (ensureWritable b data.length).bind (write · data)

def shrink (b : Buffer) (reserve : Nat) : Option Buffer :=
  let size := max kInitialSize (sizeT (b.readableBytes + reserve))
  if inside : b.readableBytes ≤ size then
    some
      { buf := b.readable ++ List.replicate (size - b.readableBytes) 0
        readIdx := 0
        writeIdx := b.readableBytes
        read_le_write := zero_le_readableBytes b
        write_le_size := by
          rw [List.length_append, length_readable]
          omega }
  else none

/-- The room of the one or two segments that `readFd` gives to `readv`. -/
def readRoom (b : Buffer) : Nat :=
  if b.writableBytes < kExtraBufSize then b.writableBytes + kExtraBufSize
  else b.writableBytes

/-- The part of `readFd` after a `readv` that has delivered `data`, filling
the rest of the vector before the spare array. -/
def received (b : Buffer) (data : Bytes) : Option Buffer :=
  if data.length > readRoom b then none
  else if data.length ≤ b.writableBytes then write b data
  else
    (write b (data.take b.writableBytes)).bind fun full =>
      append full (data.drop b.writableBytes)

end Checked

/-! ## Sequences of operations -/

/-- One call.  A pointer argument is given by its distance from `peek()`, and
a system call by what it reports: an error number, or the bytes it has
delivered or the number it has taken. -/
inductive Op where
  | append (data : Bytes)
  | retrieve (n : Nat)
  | retrieveAll
  | retrieveUntil (distance : Int)
  | retrieveAsString (n : Nat)
  | retrieveAllAsString
  | ensureWritable (n : Nat)
  | shrink (reserve : Nat)
  | readFd (result : Except Int Bytes)
  | writeFd (result : Except Int Nat)

/-- What a call gives back.  A system call returns its result and may store
an error number. -/
inductive Reply where
  | done
  | text (bytes : Bytes)
  | result (n : Int) (savedErrno : Option Int)
  deriving DecidableEq

def step (b : Buffer) : Op → Option (Buffer × Reply)
  | .append data => (Checked.append b data).map (·, .done)
  | .retrieve n => some (b.retrieve n, .done)
  | .retrieveAll => some (b.retrieveAll, .done)
  | .retrieveUntil distance =>
      some (b.retrieveUntil (b.peek + distance).toNat, .done)
  | .retrieveAsString n =>
      some ((b.retrieveAsString n).2, .text (b.retrieveAsString n).1)
  | .retrieveAllAsString =>
      some (b.retrieveAllAsString.2, .text b.retrieveAllAsString.1)
  | .ensureWritable n => (Checked.ensureWritable b n).map (·, .done)
  | .shrink reserve => (Checked.shrink b reserve).map (·, .done)
  | .readFd (.error errno) => some (b, .result (-1) (some errno))
  | .readFd (.ok data) =>
      (Checked.received b data).map (·, .result data.length none)
  | .writeFd (.error errno) => some (b, .result (-1) (some errno))
  | .writeFd (.ok n) =>
      some (if n > 0 then b.retrieve n else b, .result n none)

/-- The lengths for which no sum overflows, and the results that the system
calls can report. -/
def Fits (b : Buffer) : Op → Prop
  | .append data => b.writeIdx + data.length + 1 < 2 ^ 64
  | .ensureWritable n => b.writeIdx + n + 1 < 2 ^ 64
  | .shrink reserve => b.writeIdx + reserve + 1 < 2 ^ 64
  | .readFd (.ok data) =>
      data.length ≤ Checked.readRoom b ∧ b.writeIdx + data.length + 1 < 2 ^ 64
  | .writeFd (.ok n) => n ≤ b.readableBytes
  | _ => True

instance decidableFits (b : Buffer) : ∀ op, Decidable (Fits b op)
  | .append _ => inferInstanceAs (Decidable (_ < _))
  | .ensureWritable _ => inferInstanceAs (Decidable (_ < _))
  | .shrink _ => inferInstanceAs (Decidable (_ < _))
  | .readFd (.ok _) => inferInstanceAs (Decidable (_ ∧ _))
  | .writeFd (.ok _) => inferInstanceAs (Decidable (_ ≤ _))
  | .retrieve _ | .retrieveAll | .retrieveUntil _ | .retrieveAsString _
  | .retrieveAllAsString | .readFd (.error _) | .writeFd (.error _) =>
      inferInstanceAs (Decidable True)

/-! ## The abstract queue -/

namespace Queue

/-- The first `n` bytes, or all of them if there are fewer. -/
def front (queue : Bytes) (n : Nat) : Bytes := queue.take (min n queue.length)

def removeFront (queue : Bytes) (n : Nat) : Bytes := queue.drop (min n queue.length)

/-- The effect of each call on a first-in first-out queue of bytes. -/
def step (queue : Bytes) : Op → Option (Bytes × Reply)
  | .append data => some (queue ++ data, .done)
  | .retrieve n => some (removeFront queue n, .done)
  | .retrieveAll => some ([], .done)
  | .retrieveUntil distance => some (removeFront queue distance.toNat, .done)
  | .retrieveAsString n => some (removeFront queue n, .text (front queue n))
  | .retrieveAllAsString => some ([], .text queue)
  | .ensureWritable _ => some (queue, .done)
  | .shrink _ => some (queue, .done)
  | .readFd (.error errno) => some (queue, .result (-1) (some errno))
  | .readFd (.ok data) => some (queue ++ data, .result data.length none)
  | .writeFd (.error errno) => some (queue, .result (-1) (some errno))
  | .writeFd (.ok n) => some (removeFront queue n, .result n none)

end Queue

/-! ## Agreement with the unbounded operations -/

theorem sizeT_eq {sum : Nat} (small : sum < 2 ^ 64) : sizeT sum = sum :=
  Nat.mod_eq_of_lt small

theorem resize_of_le {vector : Bytes} {size : Nat} (grows : vector.length ≤ size) :
    resize vector size = vector ++ List.replicate (size - vector.length) 0 := by
  rw [resize, List.take_of_length_le grows]

/-- The vector of `makeSpace` keeps what the old one held. -/
theorem grown_eq (b : Buffer) (n : Nat) :
    ∃ more, (if b.prependableBytes + b.writableBytes < n + 1 then
        resize b.buf (b.writeIdx + n) else b.buf) = b.buf ++ more ∧
      b.readableBytes + n ≤ (b.buf ++ more).length := by
  have lower := b.read_le_write
  have upper := b.write_le_size
  simp only [prependableBytes, writableBytes, readableBytes]
  by_cases scarce : b.readIdx + (b.buf.length - b.writeIdx) < n + 1
  · refine ⟨_, (if_pos scarce).trans (resize_of_le (by omega)), ?_⟩
    rw [List.length_append, List.length_replicate]
    omega
  · refine ⟨[], (if_neg scarce).trans (List.append_nil _).symm, ?_⟩
    rw [List.append_nil]
    omega

theorem writableBytes_makeSpace (b : Buffer) (n : Nat) :
    n ≤ (b.makeSpace n).writableBytes := by
  obtain ⟨more, grown, room⟩ := grown_eq b n
  simp only [makeSpace, writableBytes, prependableBytes] at grown ⊢
  rw [grown, List.length_append, length_readable, List.length_drop]
  omega

/-- `ensureWritable` provides the room it is asked for. -/
theorem writableBytes_ensureWritable (b : Buffer) (n : Nat) :
    n ≤ (b.ensureWritable n).writableBytes := by
  unfold ensureWritable
  split
  · rename_i enough
    exact enough
  · exact writableBytes_makeSpace b n

theorem length_makeSpace {b : Buffer} {n : Nat} (vector : b.buf.length < 2 ^ 64)
    (fits : b.writeIdx + n + 1 < 2 ^ 64) : (b.makeSpace n).buf.length < 2 ^ 64 := by
  have lower := b.read_le_write
  have upper := b.write_le_size
  simp only [makeSpace]
  rw [List.length_append, length_readable, List.length_drop]
  split
  · rename_i scarce
    simp only [prependableBytes, writableBytes, readableBytes] at scarce ⊢
    rw [resize_of_le (by omega), List.length_append, List.length_replicate]
    omega
  · simp only [readableBytes]
    omega

theorem length_ensureWritable {b : Buffer} {n : Nat} (vector : b.buf.length < 2 ^ 64)
    (fits : b.writeIdx + n + 1 < 2 ^ 64) :
    (b.ensureWritable n).buf.length < 2 ^ 64 := by
  unfold ensureWritable
  split
  · exact vector
  · exact length_makeSpace vector fits

/-- The copy of `append` stays inside the vector that `ensureWritable` leaves. -/
theorem length_append_buf (b : Buffer) (data : Bytes) :
    (b.append data).buf.length = (b.ensureWritable data.length).buf.length := by
  have room := writableBytes_ensureWritable b data.length
  have upper := (b.ensureWritable data.length).write_le_size
  simp only [writableBytes] at room
  simp only [append, List.length_append, List.length_take, List.length_drop]
  omega

namespace Checked

theorem makeSpace_eq {b : Buffer} {n : Nat} (vector : b.buf.length < 2 ^ 64)
    (fits : b.writeIdx + n + 1 < 2 ^ 64) :
    makeSpace b n = some (b.makeSpace n) := by
  have lower := b.read_le_write
  have upper := b.write_le_size
  have free : sizeT (b.prependableBytes + b.writableBytes) =
      b.prependableBytes + b.writableBytes := by
    apply sizeT_eq
    simp only [prependableBytes, writableBytes]
    omega
  have wanted : sizeT (n + 1) = n + 1 := sizeT_eq (by omega)
  have size : sizeT (b.writeIdx + n) = b.writeIdx + n := sizeT_eq (by omega)
  obtain ⟨more, grown, _⟩ := grown_eq b n
  have inside : b.writeIdx ≤ (b.buf ++ more).length := by
    rw [List.length_append]
    omega
  have kept : ((b.buf ++ more).drop b.readIdx).take b.readableBytes = b.readable := by
    rw [readable, List.drop_take, List.drop_append_of_le_length (by omega),
      List.take_append_of_le_length]
    · rfl
    · rw [List.length_drop, readableBytes]
      omega
  unfold makeSpace Buffer.makeSpace
  simp only [free, wanted, size, grown, inside, dif_pos, kept]

theorem ensureWritable_eq {b : Buffer} {n : Nat} (vector : b.buf.length < 2 ^ 64)
    (fits : b.writeIdx + n + 1 < 2 ^ 64) :
    ensureWritable b n = some (b.ensureWritable n) := by
  unfold ensureWritable Buffer.ensureWritable
  split
  · rfl
  · exact makeSpace_eq vector fits

theorem write_ensureWritable (b : Buffer) (data : Bytes) :
    write (b.ensureWritable data.length) data = some (b.append data) := by
  have room := writableBytes_ensureWritable b data.length
  have upper := (b.ensureWritable data.length).write_le_size
  have inside : (b.ensureWritable data.length).writeIdx + data.length ≤
      (b.ensureWritable data.length).buf.length := by
    simp only [writableBytes] at room
    omega
  rw [write, dif_pos inside]
  rfl

theorem append_eq {b : Buffer} {data : Bytes} (vector : b.buf.length < 2 ^ 64)
    (fits : b.writeIdx + data.length + 1 < 2 ^ 64) :
    append b data = some (b.append data) := by
  rw [append, ensureWritable_eq vector fits]
  exact write_ensureWritable b data

/-- Bytes for which there is room are appended without making space. -/
theorem write_eq {b : Buffer} {data : Bytes} (room : data.length ≤ b.writableBytes) :
    write b data = some (b.append data) := by
  have same : b.ensureWritable data.length = b := if_pos room
  have written := write_ensureWritable b data
  rwa [same] at written

end Checked

/-! ## One operation -/

/-- The vector has a size of type `size_t`. -/
def Sized (b : Buffer) : Prop := b.buf.length < 2 ^ 64

@[simp] theorem buf_retrieve (b : Buffer) (n : Nat) : (b.retrieve n).buf = b.buf := by
  unfold retrieve
  split <;> rfl

@[simp] theorem buf_retrieveUntil (b : Buffer) (stop : Nat) :
    (b.retrieveUntil stop).buf = b.buf := by
  unfold retrieveUntil
  split
  · rfl
  · exact buf_retrieve _ _

theorem append_sized {b : Buffer} {data : Bytes} (sized : b.Sized)
    (fits : b.writeIdx + data.length + 1 < 2 ^ 64) : (b.append data).Sized := by
  rw [Sized, length_append_buf]
  exact length_ensureWritable sized fits

theorem writeIdx_append {b : Buffer} {data : Bytes}
    (room : data.length ≤ b.writableBytes) :
    (b.append data).writeIdx = b.writeIdx + data.length := by
  have same : b.ensureWritable data.length = b := if_pos room
  simp only [append, same]

theorem append_nil (b : Buffer) : b.append [] = b := by
  have same : b.ensureWritable 0 = b := if_pos (Nat.zero_le _)
  simp only [append, List.length_nil, same, List.append_nil, Nat.add_zero,
    List.take_append_drop]

theorem removeFront_eq (queue : Bytes) (n : Nat) :
    Queue.removeFront queue n = queue.drop n := by
  unfold Queue.removeFront
  by_cases short : n ≤ queue.length
  · rw [Nat.min_eq_left short]
  · have long : queue.length ≤ n := by omega
    rw [Nat.min_eq_right long, List.drop_length, List.drop_eq_nil_of_le long]

theorem front_eq (queue : Bytes) (n : Nat) : Queue.front queue n = queue.take n :=
  (List.take_eq_take_min ..).symm

theorem readable_retrieveUntil_distance (b : Buffer) (distance : Int) :
    (b.retrieveUntil (b.peek + distance).toNat).readable =
      b.readable.drop distance.toNat := by
  by_cases forward : 0 ≤ distance
  · obtain ⟨n, rfl⟩ := Int.eq_ofNat_of_zero_le forward
    exact readable_retrieveUntil b n
  · have back : (b.peek + distance).toNat ≤ b.peek := by omega
    rw [retrieveUntil, if_pos back, Int.toNat_of_nonpos (by omega), List.drop_zero]

namespace Checked

theorem shrink_spec {b : Buffer} {reserve : Nat}
    (fits : b.writeIdx + reserve + 1 < 2 ^ 64) :
    ∃ after, shrink b reserve = some after ∧ after.readable = b.readable ∧
      after.Sized := by
  have sum : sizeT (b.readableBytes + reserve) = b.readableBytes + reserve := by
    apply sizeT_eq
    rw [readableBytes]
    omega
  have inside : b.readableBytes ≤
      max kInitialSize (sizeT (b.readableBytes + reserve)) := by
    omega
  refine ⟨_, dif_pos inside, ?_, ?_⟩
  · simp only [readable, List.drop_zero]
    rw [← readable, ← length_readable, List.take_left]
  · simp only [Sized, List.length_append, List.length_replicate, length_readable]
    rw [sum, kInitialSize, readableBytes]
    omega

/-- Both ways of `readFd` fill the vector first and append what is left. -/
theorem received_eq {b : Buffer} {data : Bytes} (sized : b.Sized)
    (possible : data.length ≤ readRoom b)
    (fits : b.writeIdx + data.length + 1 < 2 ^ 64) :
    received b data =
        some ((b.append (data.take b.writableBytes)).append
          (data.drop b.writableBytes)) ∧
      ((b.append (data.take b.writableBytes)).append
        (data.drop b.writableBytes)).Sized := by
  have room : (data.take b.writableBytes).length ≤ b.writableBytes :=
    List.length_take_le _ _
  have fullSized : (b.append (data.take b.writableBytes)).Sized := by
    apply append_sized sized
    rw [List.length_take]
    omega
  have restFits : (b.append (data.take b.writableBytes)).writeIdx +
      (data.drop b.writableBytes).length + 1 < 2 ^ 64 := by
    rw [writeIdx_append room, List.length_take, List.length_drop]
    omega
  refine ⟨?_, append_sized fullSized restFits⟩
  rw [received, if_neg (by omega)]
  split
  · rename_i short
    rw [List.take_of_length_le short, List.drop_eq_nil_of_le short, append_nil]
    exact write_eq short
  · rw [write_eq room]
    exact append_eq fullSized restFits

end Checked

/-- Every operation within the length condition succeeds, acts on the readable
bytes as on the queue and gives back what the queue gives back. -/
theorem step_refines {b : Buffer} {op : Op} (sized : b.Sized) (fits : Fits b op) :
    ∃ after reply, step b op = some (after, reply) ∧
      Queue.step b.readable op = some (after.readable, reply) ∧ after.Sized := by
  cases op with
  | append data =>
      refine ⟨b.append data, .done, ?_, ?_, append_sized sized fits⟩
      · rw [step, Checked.append_eq sized fits]
        rfl
      · rw [Queue.step, readable_append]
  | retrieve n =>
      refine ⟨b.retrieve n, .done, rfl, ?_, ?_⟩
      · rw [Queue.step, removeFront_eq, readable_retrieve]
      · rwa [Sized, buf_retrieve]
  | retrieveAll =>
      refine ⟨b.retrieveAll, .done, rfl, ?_, sized⟩
      rw [Queue.step, readable_retrieveAll]
  | retrieveUntil distance =>
      refine ⟨_, .done, rfl, ?_, ?_⟩
      · rw [Queue.step, removeFront_eq, readable_retrieveUntil_distance]
      · rwa [Sized, buf_retrieveUntil]
  | retrieveAsString n =>
      refine ⟨_, _, rfl, ?_, ?_⟩
      · rw [Queue.step, removeFront_eq, front_eq, readable_retrieveAsString,
          retrieveAsString_fst]
      · rwa [Sized, retrieveAsString, buf_retrieve]
  | retrieveAllAsString =>
      refine ⟨_, _, rfl, ?_, ?_⟩
      · rw [Queue.step, retrieveAllAsString, readable_retrieveAsString,
          retrieveAsString_fst, ← length_readable, List.drop_length,
          List.take_length]
      · rwa [Sized, retrieveAllAsString, retrieveAsString, buf_retrieve]
  | ensureWritable n =>
      refine ⟨b.ensureWritable n, .done, ?_, ?_, length_ensureWritable sized fits⟩
      · rw [step, Checked.ensureWritable_eq sized fits]
        rfl
      · rw [Queue.step, readable_ensureWritable]
  | shrink reserve =>
      obtain ⟨after, shrunk, same, afterSized⟩ := Checked.shrink_spec fits
      refine ⟨after, .done, ?_, ?_, afterSized⟩
      · rw [step, shrunk]
        rfl
      · rw [Queue.step, same]
  | readFd result =>
      cases result with
      | error errno => exact ⟨b, _, rfl, rfl, sized⟩
      | ok data =>
          obtain ⟨stored, afterSized⟩ := Checked.received_eq sized fits.1 fits.2
          refine ⟨_, .result data.length none, ?_, ?_, afterSized⟩
          · rw [step, stored]
            rfl
          · rw [Queue.step, readable_append, readable_append, List.append_assoc,
              List.take_append_drop]
  | writeFd result =>
      cases result with
      | error errno => exact ⟨b, _, rfl, rfl, sized⟩
      | ok n =>
          refine ⟨_, _, rfl, ?_, ?_⟩
          · rw [Queue.step, removeFront_eq]
            split
            · rw [readable_retrieve]
            · have none : n = 0 := by omega
              rw [none, List.drop_zero]
          · split
            · rwa [Sized, buf_retrieve]
            · exact sized

/-! ## Searching -/

theorem firstAt_idxOf? (mark : UInt8) (text : Bytes) :
    Bytes.FirstAt [mark] text (text.idxOf? mark) := by
  induction text with
  | nil =>
      intro i
      simp
  | cons c rest ih =>
      rw [List.idxOf?_cons]
      by_cases here : c = mark
      · subst c
        simp [Bytes.FirstAt]
      · rw [if_neg (by simpa using here)]
        apply ih.cons
        simpa using Ne.symm here

theorem firstAt_crlfOffset (text : Bytes) :
    Bytes.FirstAt Bytes.crlf text (crlfOffset text) := by
  induction text with
  | nil =>
      intro i
      simp [Bytes.crlf]
  | cons c rest ih =>
      cases rest with
      | nil =>
          intro i
          cases i <;> simp [Bytes.crlf]
      | cons d rest =>
          rw [crlfOffset]
          split
          · rename_i here
            rw [here.1, here.2]
            exact ⟨List.prefix_append Bytes.crlf rest, fun i before =>
              absurd before (Nat.not_lt_zero i)⟩
          · rename_i notHere
            apply ih.cons
            intro here
            apply notHere
            simpa [Bytes.crlf, eq_comm] using here

/-- A search result counted from `peek()` is the first place of `mark` in the
readable bytes. -/
def Locates (b : Buffer) (mark : Bytes) (found : Option Nat) : Prop :=
  ∃ place, found = place.map (b.peek + ·) ∧ Bytes.FirstAt mark b.readable place

/-! ## Every sequence of operations -/

/-- From a new buffer, every sequence of operations within the length
condition succeeds and refines the queue: the answers are the queue's, the
readable bytes are the queue's content, the indices stay in order, room that
is asked for is provided, and the two searches find the first line feed and
the first line end of the queue. -/
theorem run_refines_queue {initialSize : UInt64} {ops : List Op}
    (fits : Machine.Along step Fits (create initialSize.toNat) ops) :
    ∃ b trace,
      Machine.run step (create initialSize.toNat) ops = some (b, trace) ∧
      Machine.run Queue.step [] ops = some (b.readable, trace) ∧
      b.readIdx ≤ b.writeIdx ∧ b.writeIdx ≤ b.buf.length ∧
      (∀ n, b.writeIdx + n + 1 < 2 ^ 64 → ∃ roomy,
        step b (.ensureWritable n) = some (roomy, .done) ∧
          n ≤ roomy.writableBytes) ∧
      b.Locates [Bytes.lf] b.findEOL ∧ b.Locates Bytes.crlf b.findCRLF := by
  have start : (create initialSize.toNat).Sized := by
    have small := initialSize.toNat_lt
    rw [Sized, create, List.length_replicate, kInitialSize]
    omega
  obtain ⟨b, trace, ran, queue, sized⟩ := Machine.run_of_along
    (motive := fun trace b =>
      Machine.run Queue.step [] (trace.map Prod.fst) = some (b.readable, trace) ∧ b.Sized)
    (fun past b op kept allowed => by
      obtain ⟨after, reply, stepped, queued, afterSized⟩ :=
        step_refines kept.2 allowed
      refine ⟨after, reply, stepped, ?_, afterSized⟩
      rw [List.map_append]
      exact Machine.run_concat kept.1 queued)
    ⟨by simp [Machine.run], start⟩ fits
  rw [Machine.map_fst_run ran] at queue
  refine ⟨b, trace, ran, queue, b.read_le_write, b.write_le_size, ?_, ?_, ?_⟩
  · intro n wanted
    refine ⟨b.ensureWritable n, ?_, writableBytes_ensureWritable b n⟩
    rw [step, Checked.ensureWritable_eq sized wanted]
    rfl
  · exact ⟨_, rfl, firstAt_idxOf? _ _⟩
  · exact ⟨_, rfl, firstAt_crlfOffset _⟩

/-- Two appends with a retrieval between them, a read that fills the vector and
continues in the spare array, a partial write and a failed one. -/
def session : List Op :=
  [.append (Bytes.lit "GET /a\r\nHost: h\r\n"), .retrieveAsString 4,
    .retrieveUntil 3, .readFd (.ok (List.replicate 1010 97)), .ensureWritable 2000,
    .writeFd (.ok 5), .writeFd (.error 11), .shrink 10, .retrieve 3]

theorem run_refines_queue_session :
    Machine.Along step Fits (create (0 : UInt64).toNat) session ∧
      ∃ b trace, Machine.run step (create (0 : UInt64).toNat) session = some (b, trace) ∧
        Machine.run Queue.step [] session = some (b.readable, trace) := by
  have fits : Machine.Along step Fits (create (0 : UInt64).toNat) session := by
    decide +kernel
  obtain ⟨b, trace, ran, queue, _⟩ := run_refines_queue fits
  exact ⟨fits, b, trace, ran, queue⟩

end Buffer

end MiniNet
