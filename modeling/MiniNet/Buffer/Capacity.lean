import MiniNet.Buffer.Queue

/-!
# The size of the vector

Appending is the only operation that can enlarge the vector of a buffer.  It
does so when the readable bytes and the new ones together do not leave at
least one byte of the vector free, and then it counts the new size from the
write index.  Hence a vector that the data fills exactly is enlarged although
it could be reused, and no vector becomes longer than twice the largest amount
of data that was to be stored in it.
-/

namespace MiniNet

namespace Buffer

/-! ## The size after one operation -/

/-- Making space keeps the size if the data leaves a byte free. -/
theorem length_makeSpace_of_lt {b : Buffer} {n : Nat}
    (spare : b.readableBytes + n < b.buf.length) :
    (b.makeSpace n).buf.length = b.buf.length := by
  have lower := b.read_le_write
  have upper := b.write_le_size
  simp only [readableBytes] at spare
  have free : ¬b.prependableBytes + b.writableBytes < n + 1 := by
    simp only [prependableBytes, writableBytes]
    omega
  simp only [makeSpace, if_neg free]
  rw [List.length_append, length_readable, List.length_drop, readableBytes]
  omega

/-- Otherwise the new size is counted from the write index. -/
theorem length_makeSpace_of_le {b : Buffer} {n : Nat}
    (full : b.buf.length ≤ b.readableBytes + n) :
    (b.makeSpace n).buf.length = b.writeIdx + n := by
  have lower := b.read_le_write
  have upper := b.write_le_size
  simp only [readableBytes] at full
  have scarce : b.prependableBytes + b.writableBytes < n + 1 := by
    simp only [prependableBytes, writableBytes]
    omega
  simp only [makeSpace, if_pos scarce]
  rw [List.length_append, length_readable, List.length_drop,
    resize_of_le (by omega), List.length_append, List.length_replicate,
    readableBytes]
  omega

/-- The vector serves the request as it is. -/
def Reusable (b : Buffer) (n : Nat) : Prop :=
  n ≤ b.writableBytes ∨ b.readableBytes + n < b.buf.length

instance decidableReusable (b : Buffer) (n : Nat) : Decidable (b.Reusable n) :=
  inferInstanceAs (Decidable (_ ∨ _))

theorem length_append_of_reusable {b : Buffer} {data : Bytes}
    (reusable : b.Reusable data.length) :
    (b.append data).buf.length = b.buf.length := by
  rw [length_append_buf, ensureWritable]
  split
  · rfl
  · rename_i scarce
    exact length_makeSpace_of_lt (reusable.resolve_left scarce)

theorem length_append_of_not_reusable {b : Buffer} {data : Bytes}
    (grows : ¬b.Reusable data.length) :
    (b.append data).buf.length = b.writeIdx + data.length := by
  obtain ⟨scarce, full⟩ := not_or.mp grows
  rw [length_append_buf, ensureWritable, if_neg scarce]
  exact length_makeSpace_of_le (Nat.not_lt.mp full)

theorem length_lt_append {b : Buffer} {data : Bytes}
    (grows : ¬b.Reusable data.length) :
    b.buf.length < (b.append data).buf.length := by
  have scarce := (not_or.mp grows).1
  rw [length_append_of_not_reusable grows]
  simp only [writableBytes] at scarce
  omega

theorem length_append_eq_iff {b : Buffer} {data : Bytes} :
    (b.append data).buf.length = b.buf.length ↔ b.Reusable data.length := by
  refine ⟨fun same => ?_, length_append_of_reusable⟩
  by_contra grows
  exact absurd same (Nat.ne_of_gt (length_lt_append grows))

theorem length_le_append (b : Buffer) (data : Bytes) :
    b.buf.length ≤ (b.append data).buf.length := by
  by_cases reusable : b.Reusable data.length
  · exact Nat.le_of_eq (length_append_of_reusable reusable).symm
  · exact Nat.le_of_lt (length_lt_append reusable)

/-- When the vector grows, the bytes before the read index are no more than
the readable and the new ones together. -/
theorem length_append_le (b : Buffer) (data : Bytes) :
    (b.append data).buf.length ≤
      max b.buf.length (2 * (b.readableBytes + data.length)) := by
  by_cases reusable : b.Reusable data.length
  · rw [length_append_of_reusable reusable]
    exact Nat.le_max_left _ _
  · have full := (not_or.mp reusable).2
    have lower := b.read_le_write
    have upper := b.write_le_size
    rw [length_append_of_not_reusable reusable]
    simp only [readableBytes] at full ⊢
    omega

/-! ## Operations that only take bytes -/

/-- The operations that take bytes off the front and add none. -/
def Op.retrieves : Op → Bool
  | .retrieve _ | .retrieveAll | .retrieveUntil _ | .retrieveAsString _
  | .retrieveAllAsString | .writeFd _ => true
  | .append _ | .ensureWritable _ | .shrink _ | .readFd _ => false

/-- Taking bytes moves the indices only. -/
theorem step_retrieves (b : Buffer) {op : Op} (taking : op.retrieves = true) :
    ∃ after reply, step b op = some (after, reply) ∧ after.buf = b.buf := by
  cases op with
  | append data => cases taking
  | ensureWritable n => cases taking
  | shrink reserve => cases taking
  | readFd result => cases taking
  | retrieve n => exact ⟨_, _, rfl, buf_retrieve b n⟩
  | retrieveAll => exact ⟨_, _, rfl, rfl⟩
  | retrieveUntil distance => exact ⟨_, _, rfl, buf_retrieveUntil b _⟩
  | retrieveAsString n => exact ⟨_, _, rfl, buf_retrieve b _⟩
  | retrieveAllAsString => exact ⟨_, _, rfl, buf_retrieve b _⟩
  | writeFd result =>
      cases result with
      | error errno => exact ⟨_, _, rfl, rfl⟩
      | ok n =>
          refine ⟨_, _, rfl, ?_⟩
          split
          · exact buf_retrieve b n
          · rfl

/-! ## Reuse of a vector that holds the data -/

/-- The operation appends or takes bytes, and what it appends would fit in a
vector of `size` bytes together with the readable ones. -/
def FitsWithin (size : Nat) (b : Buffer) : Op → Prop
  | .append data => b.readableBytes + data.length ≤ size
  | op => op.retrieves = true

instance decidableFitsWithin (size : Nat) (b : Buffer) :
    ∀ op, Decidable (FitsWithin size b op)
  | .append _ => inferInstanceAs (Decidable (_ ≤ _))
  | .retrieve _ | .retrieveAll | .retrieveUntil _ | .retrieveAsString _
  | .retrieveAllAsString | .ensureWritable _ | .shrink _ | .readFd _
  | .writeFd _ => inferInstanceAs (Decidable (_ = true))

/-- What the operation appends is served by the vector as it is. -/
def ReusableFor (b : Buffer) : Op → Prop
  | .append data => b.Reusable data.length
  | _ => True

instance decidableReusableFor (b : Buffer) : ∀ op, Decidable (ReusableFor b op)
  | .append data => decidableReusable b data.length
  | .retrieve _ | .retrieveAll | .retrieveUntil _ | .retrieveAsString _
  | .retrieveAllAsString | .ensureWritable _ | .shrink _ | .readFd _
  | .writeFd _ => inferInstanceAs (Decidable True)

/-- After every operation of a sequence the vector has its size from before
the sequence. -/
def KeepsSize (b : Buffer) (ops : List Op) : Prop :=
  ∀ before, before <+: ops → ∃ after trace,
    Machine.run step b before = some (after, trace) ∧
      after.buf.length = b.buf.length

theorem keepsSize_cons {b : Buffer} {op : Op} {ops : List Op} :
    KeepsSize b (op :: ops) ↔
      ∃ m reply, step b op = some (m, reply) ∧ m.buf.length = b.buf.length ∧
        KeepsSize m ops := by
  constructor
  · intro keeps
    obtain ⟨m, _, ran, same⟩ := keeps [op] (by simp)
    obtain ⟨reply, stepped, rfl⟩ := Machine.run_singleton_eq_some.mp ran
    refine ⟨m, reply, stepped, same, fun before prefixed => ?_⟩
    obtain ⟨after, _, ranAll, sameAll⟩ := keeps (op :: before) (by simpa using prefixed)
    obtain ⟨m', reply', rest, stepped', continued, rfl⟩ :=
      Machine.run_cons_eq_some.mp ranAll
    cases stepped.symm.trans stepped'
    exact ⟨after, rest, continued, sameAll.trans same.symm⟩
  · rintro ⟨m, reply, stepped, same, keeps⟩ before prefixed
    rcases List.prefix_cons_iff.mp prefixed with rfl | ⟨before, rfl, shorter⟩
    · exact ⟨b, [], rfl, rfl⟩
    · obtain ⟨after, rest, continued, sameAfter⟩ := keeps before shorter
      exact ⟨after, _, Machine.run_cons_eq_some.mpr
        ⟨m, reply, rest, stepped, continued, rfl⟩, sameAfter.trans same⟩

/-- `std::vector<char>::max_size()`. -/
def kMaxSize : Nat := 2 ^ 63 - 1

theorem step_fitsWithin {b : Buffer} {op : Op} (size : b.buf.length ≤ kMaxSize)
    (within : FitsWithin b.buf.length b op) :
    ∃ after reply, step b op = some (after, reply) ∧
      (after.buf.length = b.buf.length ↔ ReusableFor b op) := by
  cases op with
  | append data =>
      have upper := b.write_le_size
      simp only [FitsWithin] at within
      simp only [kMaxSize] at size
      refine ⟨b.append data, .done, ?_, length_append_eq_iff⟩
      rw [step, Checked.append_eq (by omega) (by omega)]
      rfl
  | _ =>
      obtain ⟨after, reply, stepped, same⟩ := step_retrieves b within
      exact ⟨after, reply, stepped, iff_of_true (by rw [same]) trivial⟩

/-- When the data always fits in the vector, the vector keeps its size in a
sequence of appends and retrievals exactly if every append finds room behind
the write index or leaves a byte of the vector free. -/
theorem keepsSize_iff {b : Buffer} {ops : List Op} (size : b.buf.length ≤ kMaxSize)
    (within : Machine.Along step (FitsWithin b.buf.length) b ops) :
    KeepsSize b ops ↔ Machine.Along step ReusableFor b ops := by
  induction ops generalizing b with
  | nil =>
      refine iff_of_true ?_ trivial
      intro before prefixed
      rw [List.prefix_nil.mp prefixed]
      exact ⟨b, [], rfl, rfl⟩
  | cons op ops ih =>
      obtain ⟨fits, later⟩ := within
      obtain ⟨m, reply, stepped, same⟩ := step_fitsWithin size fits
      have laterFits := later m reply stepped
      rw [keepsSize_cons]
      constructor
      · rintro ⟨m', reply', stepped', sameSize, keeps⟩
        cases stepped.symm.trans stepped'
        rw [← sameSize] at laterFits size
        refine ⟨same.mp sameSize, fun m' reply' stepped' => ?_⟩
        cases stepped.symm.trans stepped'
        exact (ih size laterFits).mp keeps
      · rintro ⟨reusable, laterReusable⟩
        have sameSize := same.mpr reusable
        rw [← sameSize] at laterFits size
        exact ⟨m, reply, stepped, sameSize,
          (ih size laterFits).mpr (laterReusable m reply stepped)⟩

/-- A hole at the front that takes most of the next append. -/
def reuse : List Op :=
  [.append (List.replicate 1000 97), .retrieve 50, .append (List.replicate 70 98),
    .retrieveAll, .append (List.replicate 1024 99)]

theorem keepsSize_reuse :
    (create 128).buf.length ≤ kMaxSize ∧
      Machine.Along step (FitsWithin (create 128).buf.length) (create 128) reuse ∧
      KeepsSize (create 128) reuse := by
  have size : (create 128).buf.length ≤ kMaxSize := by
    decide +kernel
  have within :
      Machine.Along step (FitsWithin (create 128).buf.length) (create 128) reuse := by
    decide +kernel
  exact ⟨size, within, (keepsSize_iff size within).mpr (by decide +kernel)⟩

/-- A full vector of which one byte has been taken. -/
def refill : List Op :=
  [.append (List.replicate 1024 97), .retrieve 1, .append [98]]

theorem not_keepsSize_refill :
    ¬∀ (b : Buffer) (ops : List Op), b.buf.length ≤ kMaxSize →
      Machine.Along step (FitsWithin b.buf.length) b ops → KeepsSize b ops := by
  intro keeps
  obtain ⟨after, trace, ran, same⟩ := keeps (create 1024) refill (by decide +kernel)
    (by decide +kernel) refill (List.prefix_refl _)
  have grown : ((Machine.run step (create 1024) refill).map (·.1.buf.length)) =
      some 1025 := by
    decide +kernel
  rw [ran, Option.map_some, same, Option.some.injEq] at grown
  exact absurd grown (by decide +kernel)

/-! ## The data an operation is to store -/

/-- The operations that add bytes behind the readable ones or take bytes off
the front. -/
def Op.transfers : Op → Bool
  | .ensureWritable _ | .shrink _ => false
  | .append _ | .readFd _ | .retrieve _ | .retrieveAll | .retrieveUntil _
  | .retrieveAsString _ | .retrieveAllAsString | .writeFd _ => true

/-- The readable bytes and the new ones at the append that an operation
performs; `readFd` performs one for what the vector does not hold, after it
has filled the vector. -/
def appendLoad (b : Buffer) : Op → Option Nat
  | .append data => some (b.readableBytes + data.length)
  | .readFd (.ok data) =>
      if data.length ≤ b.writableBytes then none
      else some (b.buf.length - b.readIdx + (data.length - b.writableBytes))
  | _ => none

/-- The largest of these over the operations of a run, and zero if the run
performs no append. -/
def peakLoad (b : Buffer) : List Op → Nat
  | [] => 0
  | op :: ops =>
      max ((b.appendLoad op).getD 0)
        (((step b op).map fun (after, _) => peakLoad after ops).getD 0)

theorem readableBytes_append (b : Buffer) (data : Bytes) :
    (b.append data).readableBytes = b.readableBytes + data.length := by
  rw [← length_readable, readable_append, List.length_append, length_readable]

theorem length_received {b : Buffer} {data : Bytes} :
    b.buf.length ≤ ((b.append (data.take b.writableBytes)).append
        (data.drop b.writableBytes)).buf.length ∧
      ((b.append (data.take b.writableBytes)).append
        (data.drop b.writableBytes)).buf.length ≤
        max b.buf.length (2 * (b.appendLoad (.readFd (.ok data))).getD 0) := by
  have filled : (b.append (data.take b.writableBytes)).buf.length = b.buf.length :=
    length_append_of_reusable (.inl (List.length_take_le _ _))
  by_cases short : data.length ≤ b.writableBytes
  · rw [List.drop_eq_nil_of_le short, append_nil, filled]
    exact ⟨Nat.le_refl _, Nat.le_max_left _ _⟩
  · have lower := length_le_append (b.append (data.take b.writableBytes))
      (data.drop b.writableBytes)
    have upper := length_append_le (b.append (data.take b.writableBytes))
      (data.drop b.writableBytes)
    have stored : (b.append (data.take b.writableBytes)).readableBytes =
        b.buf.length - b.readIdx := by
      have readBound := b.read_le_write
      have writeBound := b.write_le_size
      rw [readableBytes_append, List.length_take, readableBytes]
      simp only [writableBytes] at short ⊢
      omega
    rw [filled] at lower upper
    rw [stored, List.length_drop] at upper
    simp only [appendLoad, if_neg short, Option.getD_some]
    exact ⟨lower, upper⟩

/-- An operation that transfers bytes never makes the vector shorter, and
never longer than twice what its append is to store. -/
theorem length_step {b : Buffer} {op : Op} (sized : b.Sized) (fits : Fits b op)
    (transfers : op.transfers = true) :
    ∃ after reply, step b op = some (after, reply) ∧ after.Sized ∧
      b.buf.length ≤ after.buf.length ∧
      after.buf.length ≤ max b.buf.length (2 * (b.appendLoad op).getD 0) := by
  by_cases taking : op.retrieves = true
  · obtain ⟨after, reply, stepped, same⟩ := step_retrieves b taking
    refine ⟨after, reply, stepped, ?_, ?_⟩
    · rwa [Sized, same]
    · rw [same]
      exact ⟨Nat.le_refl _, Nat.le_max_left _ _⟩
  · cases op with
    | append data =>
        refine ⟨b.append data, .done, ?_, append_sized sized fits,
          length_le_append b data, length_append_le b data⟩
        rw [step, Checked.append_eq sized fits]
        rfl
    | readFd result =>
        cases result with
        | error errno =>
            exact ⟨b, _, rfl, sized, Nat.le_refl _, Nat.le_max_left _ _⟩
        | ok data =>
            obtain ⟨stored, afterSized⟩ := Checked.received_eq sized fits.1 fits.2
            refine ⟨_, .result data.length none, ?_, afterSized, length_received⟩
            rw [step, stored]
            rfl
    | ensureWritable n => cases transfers
    | shrink reserve => cases transfers
    | _ => exact absurd rfl taking

/-! ## Every sequence of operations -/

/-- The conditions on one operation: it transfers bytes, and no length
overflows. -/
def Transfers (b : Buffer) (op : Op) : Prop := op.transfers = true ∧ Fits b op

instance decidableTransfers (b : Buffer) (op : Op) : Decidable (Transfers b op) :=
  inferInstanceAs (Decidable (_ ∧ _))

theorem length_run {b : Buffer} {ops : List Op} (sized : b.Sized)
    (allowed : Machine.Along step Transfers b ops) :
    ∃ after trace, Machine.run step b ops = some (after, trace) ∧ after.Sized ∧
      b.buf.length ≤ after.buf.length ∧
      after.buf.length ≤ max b.buf.length (2 * b.peakLoad ops) := by
  induction ops generalizing b with
  | nil => exact ⟨b, [], rfl, sized, Nat.le_refl _, Nat.le_max_left _ _⟩
  | cons op ops ih =>
      obtain ⟨⟨transfers, fits⟩, later⟩ := allowed
      obtain ⟨m, reply, stepped, mSized, grows, bound⟩ :=
        length_step sized fits transfers
      obtain ⟨after, trace, ran, afterSized, growsLater, boundLater⟩ :=
        ih mSized (later m reply stepped)
      refine ⟨after, (op, reply) :: trace,
        Machine.run_cons_eq_some.mpr ⟨m, reply, trace, stepped, ran, rfl⟩,
        afterSized, Nat.le_trans grows growsLater, ?_⟩
      simp only [peakLoad, stepped, Option.map_some, Option.getD_some]
      omega

/-- In every sequence of operations that transfer bytes, started from any
buffer, the vector is at every point at most as long as at the start or twice
as long as the largest amount of data an append was to store so far, and it
never becomes shorter. -/
theorem length_le_peakLoad {b : Buffer} {before more : List Op} (sized : b.Sized)
    (allowed : Machine.Along step Transfers b (before ++ more)) :
    ∃ mid past after later, Machine.run step b before = some (mid, past) ∧
      Machine.run step mid more = some (after, later) ∧
      mid.buf.length ≤ max b.buf.length (2 * b.peakLoad before) ∧
      after.buf.length ≤ max b.buf.length (2 * b.peakLoad (before ++ more)) ∧
      b.buf.length ≤ mid.buf.length ∧ mid.buf.length ≤ after.buf.length := by
  obtain ⟨first, second⟩ := Machine.along_append.mp allowed
  obtain ⟨mid, past, ran, midSized, grows, bound⟩ := length_run sized first
  obtain ⟨after, later, continued, _, growsLater, _⟩ :=
    length_run midSized (second mid past ran)
  obtain ⟨whole, trace, ranWhole, _, _, boundWhole⟩ := length_run sized allowed
  obtain ⟨_, continuedWhole⟩ := Machine.run_continues ran ranWhole
  cases continued.symm.trans continuedWhole
  exact ⟨mid, past, after, later, ran, continued, bound, boundWhole, grows, growsLater⟩

/-- A response that does not fit at first, most of it sent, and a read that
continues in the spare array. -/
def burst : List Op :=
  [.append (List.replicate 1500 97), .retrieve 1400, .append (List.replicate 1000 98),
    .writeFd (.ok 600), .readFd (.ok (List.replicate 1600 99)), .retrieveAll]

theorem length_le_peakLoad_burst :
    (create 1024).Sized ∧
      Machine.Along step Transfers (create 1024) (burst ++ [.append [1]]) ∧
      ∃ mid past, Machine.run step (create 1024) burst = some (mid, past) ∧
        mid.buf.length ≤
          max (create 1024).buf.length (2 * (create 1024).peakLoad burst) := by
  have sized : (create 1024).Sized := by
    rw [Sized]
    decide +kernel
  have allowed :
      Machine.Along step Transfers (create 1024) (burst ++ [.append [1]]) := by
    decide +kernel
  obtain ⟨mid, past, _, _, ran, _, bound, _⟩ := length_le_peakLoad sized allowed
  exact ⟨sized, allowed, mid, past, ran, bound⟩

end Buffer

end MiniNet
