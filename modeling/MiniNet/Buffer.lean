import MiniNet.Lib.Bytes

/-!
# The application buffer

`Buffer` keeps a vector and two indices into it.  A pointer into the buffer
is modelled by its offset from `begin()`, so `peek()` is the read index and
`findEOL` returns an offset.  The two index bounds are fields of the
structure: no operation can produce a buffer that breaks them.

`readable` is the byte queue a buffer stands for.  Every operation is
characterized by its effect on that queue, and nothing above this module
looks at the indices again.
-/

namespace MiniNet

structure Buffer where
  buf : Bytes
  readIdx : Nat
  writeIdx : Nat
  read_le_write : readIdx ≤ writeIdx
  write_le_size : writeIdx ≤ buf.length
  deriving DecidableEq

namespace Buffer

def kInitialSize : Nat := 1024

/-- `Buffer(size_t initial_size)`. -/
def create (initialSize : Nat) : Buffer :=
  { buf := List.replicate (max initialSize kInitialSize) 0
    readIdx := 0
    writeIdx := 0
    read_le_write := Nat.le_refl 0
    write_le_size := Nat.zero_le _ }

instance : Inhabited Buffer := ⟨create 1024⟩

def readableBytes (b : Buffer) : Nat := b.writeIdx - b.readIdx

def writableBytes (b : Buffer) : Nat := b.buf.length - b.writeIdx

def prependableBytes (b : Buffer) : Nat := b.readIdx

def peek (b : Buffer) : Nat := b.readIdx

/-- The byte queue the buffer stands for: `buf_[read_idx_, write_idx_)`. -/
def readable (b : Buffer) : Bytes := (b.buf.take b.writeIdx).drop b.readIdx

/-- `std::string(p, n)` for a pointer `p` into the buffer. -/
def stringAt (b : Buffer) (pointer n : Nat) : Bytes := (b.buf.drop pointer).take n

/-- The loop of `findCRLF` over the readable bytes: the distance from its
start to the first place where `\r` and `\n` stand next to each other. -/
def crlfOffset : Bytes → Option Nat
  | c :: d :: rest =>
      if c = Bytes.cr ∧ d = Bytes.lf then some 0
      else (crlfOffset (d :: rest)).map (· + 1)
  | _ => none

def findCRLF (b : Buffer) : Option Nat :=
  (crlfOffset b.readable).map (b.peek + ·)

def findEOL (b : Buffer) : Option Nat :=
  (b.readable.idxOf? Bytes.lf).map (b.peek + ·)

def retrieveAll (b : Buffer) : Buffer :=
  { b with
    readIdx := 0
    writeIdx := 0
    read_le_write := Nat.le_refl 0
    write_le_size := Nat.zero_le _ }

def retrieve (b : Buffer) (n : Nat) : Buffer :=
  if enough : n ≥ b.readableBytes then b.retrieveAll
  else
    { b with
      readIdx := b.readIdx + n
      read_le_write := by
        simp only [readableBytes] at enough
        omega }

def retrieveUntil (b : Buffer) (stop : Nat) : Buffer :=
  if stop ≤ b.peek then b else b.retrieve (stop - b.peek)

def retrieveAsString (b : Buffer) (n : Nat) : Bytes × Buffer :=
  let len := min n b.readableBytes
  (b.stringAt b.peek len, b.retrieve len)

def retrieveAllAsString (b : Buffer) : Bytes × Buffer :=
  b.retrieveAsString b.readableBytes

/-- `std::vector::resize`. -/
def resize (vector : Bytes) (size : Nat) : Bytes :=
  vector.take size ++ List.replicate (size - vector.length) 0

/-- Make room for `n` bytes, by growing the vector if the free space before
and after the data does not hold them, and by moving the data to the front. -/
def makeSpace (b : Buffer) (n : Nat) : Buffer :=
  let grown :=
    if b.prependableBytes + b.writableBytes < n + 1 then
      resize b.buf (b.writeIdx + n)
    else b.buf
  { buf := b.readable ++ grown.drop b.readableBytes
    readIdx := 0
    writeIdx := b.readableBytes
    read_le_write := Nat.zero_le _
    write_le_size := by
      have bounds := b.write_le_size
      simp only [readable, readableBytes, List.length_append,
        List.length_drop, List.length_take]
      omega }

def ensureWritable (b : Buffer) (n : Nat) : Buffer :=
  if b.writableBytes ≥ n then b else b.makeSpace n

def append (b : Buffer) (data : Bytes) : Buffer :=
  let roomy := b.ensureWritable data.length
  { buf := roomy.buf.take roomy.writeIdx ++ data ++
      roomy.buf.drop (roomy.writeIdx + data.length)
    readIdx := roomy.readIdx
    writeIdx := roomy.writeIdx + data.length
    read_le_write := Nat.le_trans roomy.read_le_write (Nat.le_add_right _ _)
    write_le_size := by
      have bounds := roomy.write_le_size
      simp only [List.length_append, List.length_take, List.length_drop]
      omega }

/-! ## Effect on the byte queue -/

@[simp] theorem length_readable (b : Buffer) :
    b.readable.length = b.readableBytes := by
  have bounds := b.write_le_size
  simp only [readable, readableBytes, List.length_drop, List.length_take]
  omega

@[simp] theorem readable_create (initialSize : Nat) :
    (create initialSize).readable = [] := by
  simp [readable, create]

@[simp] theorem readable_retrieveAll (b : Buffer) :
    b.retrieveAll.readable = [] := by
  simp [readable, retrieveAll]

@[simp] theorem readable_retrieve (b : Buffer) (n : Nat) :
    (b.retrieve n).readable = b.readable.drop n := by
  unfold retrieve
  split
  · rename_i enough
    rw [readable_retrieveAll, List.drop_eq_nil_of_le]
    simpa using enough
  · simp [readable, List.drop_drop]

/-- Retrieving up to a pointer at offset `n` of the queue drops `n` bytes. -/
@[simp] theorem readable_retrieveUntil (b : Buffer) (n : Nat) :
    (b.retrieveUntil (b.peek + n)).readable = b.readable.drop n := by
  unfold retrieveUntil
  split
  · have none : n = 0 := by omega
    simp [none]
  · simp

theorem stringAt_peek (b : Buffer) {n : Nat} (inside : n ≤ b.readableBytes) :
    b.stringAt b.peek n = b.readable.take n := by
  have bounds := b.read_le_write
  simp only [readableBytes] at inside
  simp only [stringAt, peek, readable, List.drop_take, List.take_take]
  congr 1
  omega

@[simp] theorem retrieveAsString_fst (b : Buffer) (n : Nat) :
    (b.retrieveAsString n).1 = b.readable.take n := by
  simp only [retrieveAsString]
  rw [stringAt_peek b (Nat.min_le_right _ _), ← length_readable,
    ← List.take_eq_take_min]

@[simp] theorem readable_retrieveAsString (b : Buffer) (n : Nat) :
    (b.retrieveAsString n).2.readable = b.readable.drop n := by
  simp only [retrieveAsString, readable_retrieve]
  rw [← length_readable]
  by_cases short : n ≤ b.readable.length
  · rw [Nat.min_eq_left short]
  · have long : b.readable.length ≤ n := by omega
    rw [Nat.min_eq_right long, List.drop_length, List.drop_eq_nil_of_le long]

@[simp] theorem readable_makeSpace (b : Buffer) (n : Nat) :
    (b.makeSpace n).readable = b.readable := by
  have size := length_readable b
  simp only [makeSpace]
  rw [readable]
  simp only [List.drop_zero]
  rw [← size, List.take_left]

@[simp] theorem readable_ensureWritable (b : Buffer) (n : Nat) :
    (b.ensureWritable n).readable = b.readable := by
  unfold ensureWritable
  split
  · rfl
  · exact readable_makeSpace b n

@[simp] theorem readable_append (b : Buffer) (data : Bytes) :
    (b.append data).readable = b.readable ++ data := by
  rw [← readable_ensureWritable b data.length]
  simp only [append, readable]
  generalize b.ensureWritable data.length = roomy
  have lower := roomy.read_le_write
  have upper := roomy.write_le_size
  have written : (roomy.buf.take roomy.writeIdx ++ data).length =
      roomy.writeIdx + data.length := by
    simp only [List.length_append, List.length_take]
    omega
  rw [← written, List.take_left, List.drop_append_of_le_length]
  simp only [List.length_take]
  omega

private theorem idxOf?_append_cons {mark : UInt8} {before : Bytes}
    (after : Bytes) (absent : mark ∉ before) :
    (before ++ mark :: after).idxOf? mark = some before.length := by
  induction before with
  | nil => simp [List.idxOf?_cons]
  | cons c rest ih =>
      obtain ⟨different, absentRest⟩ : mark ≠ c ∧ mark ∉ rest := by
        simpa using absent
      have notHere : (c == mark) = false := by
        simpa using Ne.symm different
      simp [List.idxOf?_cons, notHere, ih absentRest]

theorem findEOL_eq_none {b : Buffer}
    (unfinished : Bytes.cut? Bytes.lf b.readable = none) :
    b.findEOL = none := by
  rw [Bytes.cut?_eq_none_iff] at unfinished
  simpa [findEOL] using unfinished

/-- Taking the next line off a buffer cuts its queue at the first line feed. -/
theorem findEOL_eq_some {b : Buffer} {line rest : Bytes}
    (found : Bytes.cut? Bytes.lf b.readable = some (line, rest)) :
    ∃ eol, b.findEOL = some eol ∧
      b.stringAt b.peek (eol - b.peek) = line ∧
      (b.retrieveUntil (eol + 1)).readable = rest := by
  obtain ⟨absent, queue⟩ := Bytes.cut?_eq_some_iff.mp found
  have size := length_readable b
  rw [queue, List.length_append, List.length_cons] at size
  refine ⟨b.peek + line.length, ?_, ?_, ?_⟩
  · simp [findEOL, queue, idxOf?_append_cons rest absent]
  · have inside : line.length ≤ b.readableBytes := by omega
    rw [Nat.add_sub_cancel_left, stringAt_peek b inside, queue,
      List.take_left]
  · rw [Nat.add_assoc, readable_retrieveUntil, queue, ← List.drop_drop,
      List.drop_left]
    rfl

/-- Whether a buffer holds a complete line, and which one, is read off its
queue. -/
theorem findEOL_cases (b : Buffer) :
    (b.findEOL = none ∧ Bytes.cut? Bytes.lf b.readable = none) ∨
      ∃ eol line rest, b.findEOL = some eol ∧
        Bytes.cut? Bytes.lf b.readable = some (line, rest) ∧
        b.stringAt b.peek (eol - b.peek) = line ∧
        (b.retrieveUntil (eol + 1)).readable = rest := by
  cases found : Bytes.cut? Bytes.lf b.readable with
  | none => exact .inl ⟨findEOL_eq_none found, rfl⟩
  | some parts =>
      obtain ⟨line, rest⟩ := parts
      obtain ⟨eol, located, text, remaining⟩ := findEOL_eq_some found
      exact .inr ⟨eol, line, rest, located, rfl, text, remaining⟩

end Buffer

end MiniNet
