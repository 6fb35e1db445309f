import MiniNet.Buffer.Capacity

/-!
# The bytes read are the bytes delivered

The loop of `handleReadable` on one open connection.  The results of `readv`
are inputs, and so are the moments at which the message callback returns; a
callback does not close the connection.  The callback gets the first bytes of
`in`, as many as the last read has delivered, and they are taken off before
the next read.
-/

namespace MiniNet

open Bytes

namespace TcpServer

namespace ReadPath

/-- Where the connection is in `handleReadable`. -/
inductive Place where
  | outside
  /-- Before `readFd`. -/
  | reading
  /-- In the message callback, for a read of `n` bytes. -/
  | inMessage (n : Nat)
  | closed
  deriving DecidableEq

/-- The part of a `Conn` that reading is about. -/
structure State where
  input : Buffer := .create Buffer.kInitialSize
  recvBytes : UInt64 := 0
  lastActiveMs : Int := 0
  place : Place := .outside
  deriving DecidableEq

inductive Action where
  /-- The channel reports `EPOLLIN`. -/
  | handleReadable
  /-- A turn of the loop up to the callback or the end of the turn, with the
  result of `readv` and the time. -/
  | read (result : Except Int Bytes) (now : Int)
  /-- The callback returns, and the rest of the turn is done. -/
  | returned

inductive Reply where
  | quiet
  /-- `on_message_` is called with these bytes. -/
  | message (data : Bytes)
  /-- `closeConnInLoop` is called. -/
  | closed
  deriving DecidableEq

/-- `EAGAIN`, which is also `EWOULDBLOCK`. -/
def eagain : Int := 11

def eintr : Int := 4

/-- What a turn does with the result of `readFd`. -/
def afterRead (s : State) (input : Buffer) (now n : Int) (saved : Int) : State × Reply :=
  if n > 0 then
    ({ input
       recvBytes := s.recvBytes + UInt64.ofNat n.toNat
       lastActiveMs := now
       place := .inMessage n.toNat },
      .message (input.stringAt input.peek n.toNat))
  else if n = 0 then ({ s with input, place := .closed }, .closed)
  else if saved = eagain then ({ s with input, place := .outside }, .quiet)
  else if saved = eintr then ({ s with input, place := .reading }, .quiet)
  else ({ s with input, place := .closed }, .closed)

def step (s : State) : Action → Option (State × Reply)
  | .handleReadable =>
      if s.place = .outside then some ({ s with place := .reading }, .quiet) else none
  | .read result now =>
      if s.place = .reading then
        match Buffer.step s.input (.readFd result) with
        | some (input, .result n saved) =>
            some (afterRead s input now n (saved.getD 0))
        | _ => none
      else none
  | .returned =>
      match s.place with
      | .inMessage n =>
          some ({ s with input := s.input.retrieve n, place := .reading }, .quiet)
      | _ => none

/-- The bytes that the reads have delivered, in order. -/
def received (actions : List Action) : Bytes :=
  actions.flatMap fun
    | .read (.ok data) _ => data
    | _ => []

/-- The bytes that the callbacks have got, in order. -/
def delivered (trace : List (Action × Reply)) : Bytes :=
  trace.flatMap fun
    | (_, .message data) => data
    | _ => []

theorem received_concat (trace : List (Action × Reply)) (last : Action × Reply) :
    received ((trace ++ [last]).map Prod.fst) =
      received (trace.map Prod.fst) ++ received [last.1] := by
  rw [List.map_append, received, List.flatMap_append]
  rfl

theorem delivered_concat (trace : List (Action × Reply)) (last : Action × Reply) :
    delivered (trace ++ [last]) = delivered trace ++ delivered [last] :=
  List.flatMap_append

/-! ## One read -/

/-- The input buffer is at its beginning, and its vector is not longer than
reads can make it. -/
structure Fresh (b : Buffer) : Prop where
  readIdx : b.readIdx = 0
  writeIdx : b.writeIdx = 0
  size : b.buf.length < 2 * Buffer.kExtraBufSize

theorem Fresh.readable {b : Buffer} (fresh : Fresh b) : b.readable = [] := by
  rw [Buffer.readable, fresh.writeIdx]
  simp

/-- A read puts its bytes at the beginning of the buffer. -/
structure Filled (data : Bytes) (b : Buffer) : Prop where
  readIdx : b.readIdx = 0
  readable : b.readable = data
  size : b.buf.length < 2 * Buffer.kExtraBufSize

theorem readIdx_append {b : Buffer} (first : b.readIdx = 0) (data : Bytes) :
    (b.append data).readIdx = 0 := by
  simp only [Buffer.append, Buffer.ensureWritable]
  split
  · exact first
  · rfl

/-- The vector grows only when the read has used the spare array, and then
only by what was read into that. -/
theorem Fresh.length_received {b : Buffer} (fresh : Fresh b) {data : Bytes}
    (possible : data.length ≤ Buffer.Checked.readRoom b) :
    ((b.append (data.take b.writableBytes)).append
      (data.drop b.writableBytes)).buf.length < 2 * Buffer.kExtraBufSize := by
  have size := fresh.size
  have room : (data.take b.writableBytes).length ≤ b.writableBytes :=
    List.length_take_le _ _
  have filled : (b.append (data.take b.writableBytes)).buf.length = b.buf.length :=
    Buffer.length_append_of_reusable (.inl room)
  have index := Buffer.writeIdx_append room
  rw [fresh.writeIdx, List.length_take] at index
  by_cases short : data.length ≤ b.writableBytes
  · rw [List.drop_eq_nil_of_le short, Buffer.append_nil, filled]
    exact size
  · by_cases reusable : (b.append (data.take b.writableBytes)).Reusable
        (data.drop b.writableBytes).length
    · rw [Buffer.length_append_of_reusable reusable, filled]
      exact size
    · rw [Buffer.length_append_of_not_reusable reusable, index, List.length_drop]
      unfold Buffer.Checked.readRoom at possible
      split at possible
      · omega
      · omega

theorem Fresh.readFd {b : Buffer} (fresh : Fresh b) {data : Bytes}
    (possible : data.length ≤ Buffer.Checked.readRoom b) :
    ∃ after, Buffer.step b (.readFd (.ok data)) =
        some (after, .result data.length none) ∧ Filled data after := by
  have size := fresh.size
  have bound : Buffer.kExtraBufSize = 65536 := rfl
  have fits : b.writeIdx + data.length + 1 < 2 ^ 64 := by
    rw [fresh.writeIdx]
    unfold Buffer.Checked.readRoom Buffer.writableBytes at possible
    split at possible
    · omega
    · omega
  have sized : b.Sized := by
    rw [Buffer.Sized]
    omega
  obtain ⟨stored, _⟩ := Buffer.Checked.received_eq sized possible fits
  refine ⟨_, by rw [Buffer.step, stored]; rfl, ?_, ?_, fresh.length_received possible⟩
  · exact readIdx_append (readIdx_append fresh.readIdx _) _
  · rw [Buffer.readable_append, Buffer.readable_append, fresh.readable,
      List.nil_append, List.take_append_drop]

/-- Taking off as many bytes as were read empties the buffer. -/
theorem Filled.retrieve {data : Bytes} {b : Buffer} (filled : Filled data b) :
    Fresh (b.retrieve data.length) := by
  have all : data.length ≥ b.readableBytes := by
    rw [← Buffer.length_readable, filled.readable]
  have size : (b.retrieve data.length).buf.length < 2 * Buffer.kExtraBufSize := by
    rw [Buffer.buf_retrieve]
    exact filled.size
  rw [Buffer.retrieve, dif_pos all] at size ⊢
  exact ⟨rfl, rfl, size⟩

/-- A read of no bytes leaves the buffer as it was. -/
theorem Filled.fresh {b : Buffer} (filled : Filled [] b) : Fresh b := by
  have none : b.readableBytes = 0 := by
    rw [← Buffer.length_readable, filled.readable]
    rfl
  rw [Buffer.readableBytes, filled.readIdx, Nat.sub_zero] at none
  exact ⟨filled.readIdx, none, filled.size⟩

theorem Filled.stringAt {data : Bytes} {b : Buffer} (filled : Filled data b) :
    b.stringAt b.peek data.length = data := by
  have inside : data.length ≤ b.readableBytes := by
    rw [← Buffer.length_readable, filled.readable]
  rw [Buffer.stringAt_peek b inside, filled.readable, List.take_length]

/-! ## Every sequence of reads -/

/-- The input buffer at each place of the loop. -/
inductive InPlace : State → Prop
  | fresh {s : State} : (∀ n, s.place ≠ .inMessage n) → Fresh s.input → InPlace s
  | filled {s : State} {data : Bytes} : s.place = .inMessage data.length →
      Filled data s.input → InPlace s

theorem InPlace.fresh_of_ne {s : State} (inPlace : InPlace s)
    (outside : ∀ n, s.place ≠ .inMessage n) : Fresh s.input := by
  cases inPlace with
  | fresh _ fresh => exact fresh
  | filled place _ => exact absurd place (outside _)

/-- What one step delivers and counts is what it reads. -/
structure Passes (s : State) (a : Action) (m : State) (reply : Reply) : Prop where
  inPlace : InPlace m
  verbatim : delivered [(a, reply)] = received [a]
  counted : m.recvBytes = s.recvBytes + UInt64.ofNat (received [a]).length

private theorem Passes.silent {s m : State} {a : Action} {reply : Reply}
    (inPlace : InPlace m) (nothing : received [a] = []) (quiet : delivered [(a, reply)] = [])
    (same : m.recvBytes = s.recvBytes) : Passes s a m reply := by
  refine ⟨inPlace, quiet.trans nothing.symm, ?_⟩
  rw [nothing, same]
  exact (UInt64.add_zero _).symm

theorem possible_of_received {b after : Buffer} {data : Bytes}
    (stored : Buffer.Checked.received b data = some after) :
    data.length ≤ Buffer.Checked.readRoom b := by
  rw [Buffer.Checked.received] at stored
  split at stored
  · cases stored
  · omega

theorem passes_data {s : State} (fresh : Fresh s.input) {data : Bytes} {now : Int}
    {m : State} {reply : Reply} (reading : s.place = .reading)
    (stepped : step s (.read (.ok data) now) = some (m, reply)) :
    Passes s (.read (.ok data) now) m reply := by
  have possible : data.length ≤ Buffer.Checked.readRoom s.input := by
    rw [step, if_pos reading, Buffer.step] at stepped
    cases stored : Buffer.Checked.received s.input data with
    | none =>
        rw [stored] at stepped
        cases stepped
    | some after => exact possible_of_received stored
  obtain ⟨after, stored, filled⟩ := fresh.readFd possible
  rw [step, if_pos reading, stored] at stepped
  simp only [Option.some.injEq] at stepped
  have same : received [.read (.ok data) now] = data := List.flatMap_singleton _ _
  by_cases empty : data = []
  · subst empty
    rw [afterRead, if_neg (by decide), if_pos (by decide)] at stepped
    obtain ⟨rfl, rfl⟩ := Prod.mk.inj stepped
    exact Passes.silent (.fresh (fun _ same => by cases same) filled.fresh) rfl rfl rfl
  · have positive : (data.length : Int) > 0 := by
      exact_mod_cast List.length_pos_iff.mpr empty
    rw [afterRead, if_pos positive, Int.toNat_natCast, filled.stringAt] at stepped
    obtain ⟨rfl, rfl⟩ := Prod.mk.inj stepped
    refine ⟨.filled rfl filled, ?_, ?_⟩
    · rw [same]
      exact List.flatMap_singleton _ _
    · rw [same]

theorem passes_error {s : State} (fresh : Fresh s.input) {errno now : Int} {m : State}
    {reply : Reply} (reading : s.place = .reading)
    (stepped : step s (.read (.error errno) now) = some (m, reply)) :
    Passes s (.read (.error errno) now) m reply := by
  rw [step, if_pos reading, Buffer.step] at stepped
  simp only [Option.some.injEq] at stepped
  rw [afterRead, if_neg (by decide), if_neg (by decide)] at stepped
  split at stepped
  · cases stepped
    exact Passes.silent (.fresh (fun _ same => by cases same) fresh) rfl rfl rfl
  · split at stepped
    · cases stepped
      exact Passes.silent (.fresh (fun _ same => by cases same) fresh) rfl rfl rfl
    · cases stepped
      exact Passes.silent (.fresh (fun _ same => by cases same) fresh) rfl rfl rfl

theorem passes_step {s m : State} {a : Action} {reply : Reply} (inPlace : InPlace s)
    (stepped : step s a = some (m, reply)) : Passes s a m reply := by
  cases a with
  | handleReadable =>
      rw [step] at stepped
      split at stepped
      · rename_i outside
        cases stepped
        have fresh := inPlace.fresh_of_ne (by rw [outside]; nofun)
        exact Passes.silent (.fresh (fun _ same => by cases same) fresh) rfl rfl rfl
      · cases stepped
  | read result now =>
      by_cases reading : s.place = .reading
      · have fresh := inPlace.fresh_of_ne (by rw [reading]; nofun)
        cases result with
        | error errno => exact passes_error fresh reading stepped
        | ok data => exact passes_data fresh reading stepped
      · rw [step, if_neg reading] at stepped
        cases stepped
  | returned =>
      rw [step] at stepped
      split at stepped
      · rename_i n place
        cases stepped
        cases inPlace with
        | fresh outside _ => exact absurd place (outside n)
        | filled same filled =>
            cases same.symm.trans place
            exact Passes.silent (.fresh (fun _ same => by cases same) filled.retrieve) rfl rfl rfl
      · cases stepped

/-- The state and the trace of a run from a new connection. -/
structure Verbatim (trace : List (Action × Reply)) (s : State) : Prop where
  inPlace : InPlace s
  stream : delivered trace = received (trace.map Prod.fst)
  counted : s.recvBytes = UInt64.ofNat (received (trace.map Prod.fst)).length

theorem inPlace_start : InPlace {} := by
  refine .fresh (fun _ same => by cases same) ⟨rfl, rfl, ?_⟩
  rw [Buffer.create, List.length_replicate]
  decide

theorem verbatim_run {actions : List Action} {s : State} {trace : List (Action × Reply)}
    (ran : Machine.run step {} actions = some (s, trace)) : Verbatim trace s := by
  refine Machine.run_induct (motive := Verbatim) ?_ ⟨inPlace_start, rfl, rfl⟩ ran
  intro past s a m reply verbatim stepped
  obtain ⟨inPlace, same, counted⟩ := passes_step verbatim.inPlace stepped
  refine ⟨inPlace, ?_, ?_⟩
  · rw [delivered_concat, received_concat, verbatim.stream, same]
  · rw [received_concat, List.length_append, UInt64.ofNat_add, ← verbatim.counted, counted]

/-- The read loop delivers the stream verbatim: `in` is empty before every
read, and takes whatever fits in the space that is offered; the callbacks have
got the bytes that were read, in order; and `recv_bytes` is their number, as a
`uint64_t`. -/
theorem run_reads_verbatim {actions : List Action} {s : State}
    {trace : List (Action × Reply)}
    (ran : Machine.run step {} actions = some (s, trace)) :
    (s.place = .reading → s.input.readable = [] ∧
        ∀ data now, data.length ≤ Buffer.Checked.readRoom s.input →
          (step s (.read (.ok data) now)).isSome = true) ∧
      delivered trace = received actions ∧
      s.recvBytes.toNat = (received actions).length % 2 ^ 64 := by
  obtain ⟨inPlace, stream, counted⟩ := verbatim_run ran
  rw [Machine.map_fst_run ran] at stream counted
  refine ⟨?_, stream, by rw [counted, UInt64.toNat_ofNat']⟩
  intro reading
  have fresh := inPlace.fresh_of_ne (by rw [reading]; nofun)
  refine ⟨fresh.readable, fun data now possible => ?_⟩
  obtain ⟨after, stored, _⟩ := fresh.readFd possible
  rw [step, if_pos reading, stored]
  rfl

/-- Two reads with a callback after each, the second one longer than the
vector, an interruption and the end of the data for now. -/
def twoReads : List Action :=
  [.handleReadable, .read (.ok [1, 2, 3]) 5, .returned, .read (.error eintr) 5,
    .read (.ok (List.replicate 1500 7)) 6, .returned, .read (.error eagain) 6]

theorem run_reads_verbatim_twoReads :
    ∃ s trace, Machine.run step {} twoReads = some (s, trace) ∧
      delivered trace = [1, 2, 3] ++ List.replicate 1500 7 ∧ s.recvBytes.toNat = 1503 := by
  have ends : (Machine.run step {} twoReads).isSome = true := by decide +kernel
  have bytes : received twoReads = [1, 2, 3] ++ List.replicate 1500 7 := by
    decide +kernel
  obtain ⟨⟨s, trace⟩, ran⟩ := Option.isSome_iff_exists.mp ends
  obtain ⟨_, stream, counted⟩ := run_reads_verbatim ran
  rw [bytes] at stream counted
  refine ⟨s, trace, ran, stream, counted.trans ?_⟩
  rw [List.length_append, List.length_replicate]
  rfl

/-! ## More bytes than the counter holds -/

/-- A stream that arrives octet by octet. -/
def octetByOctet : Nat → List Action
  | 0 => [.handleReadable]
  | n + 1 => octetByOctet n ++ [.read (.ok [0]) 0, .returned]

theorem length_received_octetByOctet (n : Nat) :
    (received (octetByOctet n)).length = n := by
  induction n with
  | zero => rfl
  | succ n ih =>
      rw [octetByOctet, received, List.flatMap_append, List.length_append]
      exact congrArg (· + 1) ih

theorem run_octetByOctet (n : Nat) :
    ∃ s trace, Machine.run step {} (octetByOctet n) = some (s, trace) ∧
      s.place = .reading := by
  induction n with
  | zero => exact ⟨_, _, rfl, rfl⟩
  | succ n ih =>
      obtain ⟨s, trace, ran, reading⟩ := ih
      have fresh := (verbatim_run ran).inPlace.fresh_of_ne (by rw [reading]; nofun)
      have possible : ([0] : Bytes).length ≤ Buffer.Checked.readRoom s.input := by
        have bound : Buffer.kExtraBufSize = 65536 := rfl
        unfold Buffer.Checked.readRoom
        split
        · exact Nat.le_add_left _ _
        · rename_i large
          rw [List.length_singleton]
          omega
      obtain ⟨after, stored, _⟩ := fresh.readFd possible
      have read : step s (.read (.ok [0]) 0) = some (afterRead s after 0 1 0) := by
        rw [step, if_pos reading, stored]
        rfl
      refine ⟨_, _, Machine.run_append_eq_some.mpr ⟨s, trace, _, ran,
        Machine.run_cons_eq_some.mpr ⟨_, _, _, read,
          Machine.run_singleton_eq_some.mpr ⟨_, rfl, rfl⟩, rfl⟩, rfl⟩, rfl⟩

private theorem counter_wraps {n : Nat} (long : 2 ^ 64 ≤ n) (s : State) :
    s.recvBytes.toNat ≠ (received (octetByOctet n)).length := by
  have word := s.recvBytes.toNat_lt
  rw [length_received_octetByOctet]
  omega

/-- After `2 ^ 64` octets the counter is back at zero. -/
theorem not_counted_after_wrap :
    ¬∀ (actions : List Action) (s : State) (trace : List (Action × Reply)),
      Machine.run step {} actions = some (s, trace) →
        (s.place = .reading → s.input.readable = []) ∧
          delivered trace = received actions ∧
          s.recvBytes.toNat = (received actions).length := by
  intro always
  obtain ⟨s, trace, ran, _⟩ := run_octetByOctet (2 ^ 64)
  exact counter_wraps (Nat.le_refl _) s (always _ s trace ran).2.2

end ReadPath

end TcpServer

end MiniNet
