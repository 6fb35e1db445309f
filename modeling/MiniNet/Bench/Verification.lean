import MiniNet.Bench.Client

/-!
# The check of echoed octets

`verifyChunk` compares a chunk with the payload in two blocks.  The second
block is compared from the first octet of the payload on, whatever its length,
so it has to end within one copy.
-/

namespace MiniNet

open Bytes

namespace Bench

namespace Turn

/-- The indices of the payload that the two compares of `verifyChunk` are
given. -/
def verifyReads (opts : Options) (base : Nat) (buf : Bytes) : List Nat :=
  let sz := opts.echoPayload.length
  if sz = 0 ∨ buf.length = 0 then []
  else
    let start := base % sz
    let first := min buf.length (sz - start)
    List.range' start first ++
      if sameAsPayload opts start (buf.take first) then List.range (buf.length - first)
      else []

/-- The chunk is compared with the octets of the payload it should repeat, and
with nothing else. -/
structure Exact (opts : Options) (base : Nat) (buf : Bytes) : Prop where
  inside : ∀ i ∈ verifyReads opts base buf, i < opts.echoPayload.length
  correct : verifyChunk opts base buf = true ↔ ∀ k < buf.length,
    buf[k]? = opts.echoPayload[(base + k) % opts.echoPayload.length]?

/-- The octets from the offset to the end of the copy of the payload there. -/
def restOfCopy (opts : Options) (base : Nat) : Nat :=
  opts.echoPayload.length - base % opts.echoPayload.length

/-- A chunk of `n` octets ends no later than the copy of the payload behind the
one it begins in. -/
def Fits (opts : Options) (base n : Nat) : Prop :=
  n ≤ restOfCopy opts base + opts.echoPayload.length

instance (opts : Options) (base n : Nat) : Decidable (Fits opts base n) :=
  inferInstanceAs (Decidable (_ ≤ _))

/-- The chunk differs from the copy of the payload it begins in. -/
def Differs (opts : Options) (base : Nat) (buf : Bytes) : Prop :=
  ∃ k < min buf.length (restOfCopy opts base),
    buf[k]? ≠ opts.echoPayload[base % opts.echoPayload.length + k]?

theorem sameAsPayload_iff (opts : Options) (start : Nat) (buf : Bytes) :
    sameAsPayload opts start buf = true ↔
      ∀ k < buf.length, buf[k]? = some (payloadAt opts (start + k)) := by
  unfold sameAsPayload
  rw [List.all_eq_true]
  constructor
  · intro same k inside
    have compared := same (buf[k], k) (List.mk_mem_zipIdx_iff_getElem?.mpr
      (List.getElem?_eq_getElem inside))
    rw [List.getElem?_eq_getElem inside, eq_of_beq compared]
  · rintro same ⟨c, k⟩ member
    have found : buf[k]? = some c := List.mk_mem_zipIdx_iff_getElem?.mp member
    have inside : k < buf.length := (List.getElem?_eq_some_iff.mp found).1
    exact beq_iff_eq.mpr (Option.some.inj (found.symm.trans (same k inside)))

theorem getElem?_payload {opts : Options} {i : Nat} (inside : i < opts.echoPayload.length) :
    opts.echoPayload[i]? = some (payloadAt opts i) := by
  rw [payloadAt, List.getElem?_eq_getElem inside]
  rfl

/-- The two blocks of a chunk. -/
theorem verifyChunk_iff {opts : Options} {base : Nat} {buf : Bytes}
    (some_ : opts.echoPayload ≠ []) (data : buf ≠ []) :
    verifyChunk opts base buf = true ↔
      (∀ k < min buf.length (restOfCopy opts base),
        buf[k]? = some (payloadAt opts (base % opts.echoPayload.length + k))) ∧
      ∀ k < buf.length, restOfCopy opts base ≤ k →
        buf[k]? = some (payloadAt opts (k - restOfCopy opts base)) := by
  have nonempty : ¬ (opts.echoPayload.length = 0 ∨ buf.length = 0) := by
    rw [List.length_eq_zero_iff, List.length_eq_zero_iff]
    exact not_or.mpr ⟨some_, data⟩
  rw [verifyChunk]
  simp only [if_neg nonempty, Bool.and_eq_true, sameAsPayload_iff]
  refine and_congr ?_ ?_
  · rw [List.length_take, Nat.min_eq_left (Nat.min_le_left _ _)]
    refine forall₂_congr fun k below => ?_
    rw [List.getElem?_take_of_lt below]
  · rw [List.length_drop, ← restOfCopy]
    constructor
    · intro same k inside behind
      have compared := same (k - restOfCopy opts base) (by omega)
      rwa [List.getElem?_drop, Nat.min_eq_right (by omega), Nat.add_sub_cancel' behind,
        Nat.zero_add] at compared
    · intro same k inside
      have whole : min buf.length (restOfCopy opts base) = restOfCopy opts base := by
        omega
      rw [whole] at inside ⊢
      rw [List.getElem?_drop, same _ (by omega) (Nat.le_add_right _ _), Nat.zero_add,
        Nat.add_sub_cancel_left]

theorem restOfCopy_add {opts : Options} (some_ : opts.echoPayload ≠ []) (base : Nat) :
    restOfCopy opts base + base % opts.echoPayload.length = opts.echoPayload.length :=
  Nat.sub_add_cancel (Nat.mod_lt _ (List.length_pos_iff.mpr some_)).le

/-- Where a chunk is still in the copy it begins in. -/
theorem getElem?_firstCopy {opts : Options} {base k : Nat}
    (early : k < restOfCopy opts base) :
    opts.echoPayload[(base + k) % opts.echoPayload.length]? =
      some (payloadAt opts (base % opts.echoPayload.length + k)) := by
  rw [restOfCopy] at early
  have index : (base + k) % opts.echoPayload.length =
      base % opts.echoPayload.length + k := by
    rw [Nat.add_mod, Nat.mod_eq_of_lt (a := k) (by omega), Nat.mod_eq_of_lt (by omega)]
  rw [index, getElem?_payload (by omega)]

/-- Where it is in the copy behind that one. -/
theorem getElem?_secondCopy {opts : Options} {base k : Nat} (some_ : opts.echoPayload ≠ [])
    (late : restOfCopy opts base ≤ k)
    (early : k < restOfCopy opts base + opts.echoPayload.length) :
    opts.echoPayload[(base + k) % opts.echoPayload.length]? =
      some (payloadAt opts (k - restOfCopy opts base)) := by
  have copy := restOfCopy_add some_ base
  have index : (base + k) % opts.echoPayload.length = k - restOfCopy opts base := by
    have parts := Nat.div_add_mod base opts.echoPayload.length
    have split : base + k = opts.echoPayload.length * (base / opts.echoPayload.length + 1) +
        (k - restOfCopy opts base) := by
      rw [Nat.mul_add]
      omega
    rw [split, Nat.mul_add_mod, Nat.mod_eq_of_lt (by omega)]
  rw [index, getElem?_payload (by omega)]

/-- A chunk that fits is compared with the octets it should repeat. -/
theorem correct_of_fits {opts : Options} {base : Nat} {buf : Bytes}
    (some_ : opts.echoPayload ≠ []) (data : buf ≠ []) (fits : Fits opts base buf.length) :
    verifyChunk opts base buf = true ↔ ∀ k < buf.length,
      buf[k]? = opts.echoPayload[(base + k) % opts.echoPayload.length]? := by
  rw [Fits] at fits
  rw [verifyChunk_iff some_ data]
  constructor
  · rintro ⟨first, second⟩ k inside
    by_cases early : k < restOfCopy opts base
    · rw [getElem?_firstCopy early, first k (lt_min inside early)]
    · have late : restOfCopy opts base ≤ k := Nat.not_lt.mp early
      rw [getElem?_secondCopy some_ late (by omega), second k inside late]
  · intro same
    constructor
    · intro k below
      obtain ⟨inside, early⟩ := lt_min_iff.mp below
      rw [same k inside, getElem?_firstCopy early]
    · intro k inside late
      rw [same k inside, getElem?_secondCopy some_ late (by omega)]

/-- The second block is compared only when the first one agrees. -/
theorem mem_verifyReads {opts : Options} {base i : Nat} {buf : Bytes}
    (some_ : opts.echoPayload ≠ []) (data : buf ≠ []) :
    i ∈ verifyReads opts base buf ↔
      (base % opts.echoPayload.length ≤ i ∧
        i < base % opts.echoPayload.length + min buf.length (restOfCopy opts base)) ∨
      (¬ Differs opts base buf ∧ i < buf.length - min buf.length (restOfCopy opts base)) := by
  have nonempty : ¬ (opts.echoPayload.length = 0 ∨ buf.length = 0) := by
    rw [List.length_eq_zero_iff, List.length_eq_zero_iff]
    exact not_or.mpr ⟨some_, data⟩
  have agrees : sameAsPayload opts (base % opts.echoPayload.length)
      (buf.take (min buf.length (restOfCopy opts base))) = true ↔ ¬ Differs opts base buf := by
    rw [sameAsPayload_iff, Differs, List.length_take, Nat.min_eq_left (Nat.min_le_left _ _)]
    simp only [not_exists, not_and, not_not]
    refine forall₂_congr fun k below => ?_
    have early := (lt_min_iff.mp below).2
    rw [restOfCopy] at early
    rw [List.getElem?_take_of_lt below, getElem?_payload (by omega)]
  rw [verifyReads]
  simp only [if_neg nonempty, List.mem_append, List.mem_range'_1]
  rw [← restOfCopy]
  refine or_congr Iff.rfl ?_
  split
  · rename_i same
    rw [List.mem_range, and_iff_right (agrees.mp same)]
  · rename_i other
    exact iff_of_false List.not_mem_nil fun both => other (agrees.mpr both.1)

/-- The result depends on the payload at these indices only. -/
theorem verifyChunk_congr {opts opts' : Options} {base : Nat} {buf : Bytes}
    (size : opts'.echoPayload.length = opts.echoPayload.length)
    (same : ∀ i ∈ verifyReads opts base buf, payloadAt opts' i = payloadAt opts i) :
    verifyChunk opts' base buf = verifyChunk opts base buf := by
  have block (start : Nat) (data : Bytes)
      (equal : ∀ k < data.length, payloadAt opts' (start + k) = payloadAt opts (start + k)) :
      sameAsPayload opts' start data = sameAsPayload opts start data := by
    rw [Bool.eq_iff_iff, sameAsPayload_iff, sameAsPayload_iff]
    refine forall₂_congr fun k inside => ?_
    rw [equal k inside]
  rw [verifyReads] at same
  rw [verifyChunk, verifyChunk, size]
  dsimp only at same ⊢
  split
  · rfl
  · rename_i nonempty
    rw [if_neg nonempty] at same
    rw [block (base % _)]
    · cases first : sameAsPayload opts (base % opts.echoPayload.length)
          (buf.take (min buf.length
            (opts.echoPayload.length - base % opts.echoPayload.length))) with
      | false => rfl
      | true =>
          rw [first, if_pos rfl] at same
          rw [block 0]
          intro k inside
          rw [List.length_drop] at inside
          rw [Nat.zero_add]
          exact same k (List.mem_append_right _ (List.mem_range.mpr inside))
    · intro k inside
      rw [List.length_take, Nat.min_eq_left (Nat.min_le_left _ _)] at inside
      refine same _ (List.mem_append_left _ (List.mem_range'_1.mpr ⟨?_, ?_⟩)) <;> omega

/-- A chunk is checked exactly when it ends in time or differs before. -/
theorem exact_iff {opts : Options} {base : Nat} {buf : Bytes}
    (some_ : opts.echoPayload ≠ []) (data : buf ≠ []) :
    Exact opts base buf ↔ Fits opts base buf.length ∨ Differs opts base buf := by
  have copy := restOfCopy_add some_ base
  constructor
  · intro exact_
    by_contra neither
    obtain ⟨long, same⟩ := not_or.mp neither
    rw [Fits, Nat.not_le] at long
    refine absurd (exact_.inside opts.echoPayload.length ?_) (Nat.lt_irrefl _)
    rw [mem_verifyReads some_ data]
    exact .inr ⟨same, by omega⟩
  · rintro (fits | differs)
    · refine ⟨fun i member => ?_, correct_of_fits some_ data fits⟩
      rw [Fits] at fits
      rcases (mem_verifyReads some_ data).mp member with ⟨_, below⟩ | ⟨_, below⟩ <;> omega
    · refine ⟨fun i member => ?_, ?_⟩
      · rcases (mem_verifyReads some_ data).mp member with ⟨_, below⟩ | ⟨same, _⟩
        · omega
        · exact absurd differs same
      · obtain ⟨k, below, other⟩ := differs
        obtain ⟨inside, early⟩ := lt_min_iff.mp below
        have expected := @getElem?_payload opts (base % opts.echoPayload.length + k) (by omega)
        refine iff_of_false (fun verified => other ?_) fun same => other ?_
        · rw [expected, ((verifyChunk_iff some_ data).mp verified).1 k below]
        · rw [expected, same k inside, getElem?_firstCopy early]

end Turn

end Bench

end MiniNet
