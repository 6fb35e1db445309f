import MiniNet.Lib.Bytes
import MiniNet.Lib.Machine
import Mathlib.Data.List.AList
import Mathlib.Data.Finset.Card

/-!
# The store of short links

Two hash tables, from code to entry and from url to code, a counter from
which codes are generated, and two totals.  All operations hold the same
lock, so that concurrent use is a sequence of calls.  The clock is an input
of the call that reads it.
-/

namespace MiniNet

open Bytes

namespace ShortUrlService

structure Entry where
  url : Bytes
  hits : UInt64 := 0
  createdAt : Int := 0
  deriving DecidableEq

end ShortUrlService

structure ShortUrlService where
  byCode : AList (fun _ : Bytes => ShortUrlService.Entry) := ∅
  byUrl : AList (fun _ : Bytes => Bytes) := ∅
  counter : UInt64 := 0
  shortenTotal : UInt64 := 0
  redirectTotal : UInt64 := 0

namespace ShortUrlService

def kAlphabet : Bytes :=
  lit "0123456789abcdefghijklmnopqrstuvwxyzABCDEFGHIJKLMNOPQRSTUVWXYZ"

def kAlphabetSize : Nat := 62

/-- The loop of `base62`: the digits of `n`, least significant first. -/
def digits (n : Nat) : Bytes :=
  kAlphabet.getD (n % kAlphabetSize) 0 ::
    if _more : n / kAlphabetSize > 0 then digits (n / kAlphabetSize) else []
termination_by n
decreasing_by
  simp only [kAlphabetSize] at _more ⊢
  omega

def base62 (n : UInt64) : Bytes := digits (n + 100000).toNat

def validCode (code : Bytes) : Bool :=
  !(code.isEmpty || code.length > 8) && code.all isalnum

/-- The loop of `shorten`: count up until the code is unused.  The loop turns
at most once more than there are entries, unless it turns forever. -/
def nextCode (byCode : AList fun _ : Bytes => Entry) :
    Nat → UInt64 → Option (UInt64 × Bytes)
  | 0, _ => none
  | turns + 1, counter =>
      let code := base62 (counter + 1)
      if code ∈ byCode then nextCode byCode turns (counter + 1)
      else some (counter + 1, code)

/-- The code of a url; `none` when the loop does not end. -/
def shorten (s : ShortUrlService) (url : Bytes) (now : Int) :
    Option (ShortUrlService × Bytes) :=
  match s.byUrl.lookup url with
  | some code => some ({ s with shortenTotal := s.shortenTotal + 1 }, code)
  | none =>
      (nextCode s.byCode (s.byCode.keys.length + 1) s.counter).map
        fun (counter, code) =>
          ({ s with
              byCode := s.byCode.insert code { url, hits := 0, createdAt := now }
              byUrl := s.byUrl.insert url code
              counter
              shortenTotal := s.shortenTotal + 1 },
            code)

/-- Find an entry and count the hit. -/
def lookup (s : ShortUrlService) (code : Bytes) : ShortUrlService × Option Entry :=
  match s.byCode.lookup code with
  | none => (s, none)
  | some entry =>
      let entry := { entry with hits := entry.hits + 1 }
      ({ s with
          byCode := s.byCode.insert code entry
          redirectTotal := s.redirectTotal + 1 },
        some entry)

def stats (s : ShortUrlService) (code : Bytes) : Option Entry :=
  s.byCode.lookup code

def size (s : ShortUrlService) : Nat := s.byCode.keys.length

/-- A call of the public interface; `now` is what the clock says. -/
inductive Call where
  | shorten (url : Bytes) (now : Int)
  | lookup (code : Bytes)
  | stats (code : Bytes)
  | size
  deriving DecidableEq

inductive Reply where
  | code (code : Bytes)
  | entry (found : Option Entry)
  | size (n : Nat)
  deriving DecidableEq

def call (s : ShortUrlService) : Call → Option (ShortUrlService × Reply)
  | .shorten url now =>
      (s.shorten url now).map fun (s, code) => (s, .code code)
  | .lookup code =>
      let (s, found) := s.lookup code
      some (s, .entry found)
  | .stats code => some (s, .entry (s.stats code))
  | .size => some (s, .size s.size)

/-! ## Codes -/

/-- The number that a code is the digits of. -/
def codeValue : Bytes → Nat
  | [] => 0
  | c :: rest => kAlphabet.idxOf c + kAlphabetSize * codeValue rest

private theorem idxOf_getD_kAlphabet :
    ∀ digit < kAlphabetSize, kAlphabet.idxOf (kAlphabet.getD digit 0) = digit := by
  decide

theorem codeValue_digits (n : Nat) : codeValue (digits n) = n := by
  induction n using digits.induct with
  | case1 n ih =>
      have inBounds : n % kAlphabetSize < kAlphabetSize := Nat.mod_lt _ (by decide)
      rw [digits, codeValue, idxOf_getD_kAlphabet _ inBounds]
      split
      · rename_i more
        rw [ih more]
        exact Nat.mod_add_div _ _
      · rename_i last
        have small := Nat.eq_zero_of_not_pos last
        have parts := Nat.mod_add_div n kAlphabetSize
        rw [small] at parts
        simpa [codeValue] using parts

theorem codeValue_base62 (n : UInt64) :
    codeValue (base62 n) = (n + 100000).toNat :=
  codeValue_digits _

theorem base62_injective : Function.Injective base62 := by
  intro n m same
  have values : (n + 100000).toNat = (m + 100000).toNat := by
    rw [← codeValue_base62, ← codeValue_base62, same]
  exact (UInt64.add_left_inj 100000).mp (UInt64.toNat_inj.mp values)

theorem base62_ofNat {n : Nat} (small : n + 100000 < 2 ^ 64) :
    base62 (UInt64.ofNat n) = digits (n + 100000) := by
  rw [base62, UInt64.toNat_add, UInt64.toNat_ofNat_of_lt' (by
    exact lt_of_le_of_lt (Nat.le_add_right n 100000) small)]
  rw [show UInt64.toNat 100000 = 100000 from rfl, Nat.mod_eq_of_lt small]

theorem isalnum_of_mem_digits {n : Nat} {c : UInt8} (member : c ∈ digits n) :
    isalnum c = true := by
  have alphabet : ∀ digit < kAlphabetSize,
      isalnum (kAlphabet.getD digit 0) = true := by decide
  induction n using digits.induct with
  | case1 n ih =>
      rw [digits, List.mem_cons] at member
      rcases member with rfl | later
      · exact alphabet _ (Nat.mod_lt _ (by decide))
      · split at later
        · rename_i more
          exact ih more later
        · cases later

theorem length_digits_le_iff (n k : Nat) :
    (digits n).length ≤ k + 1 ↔ n < kAlphabetSize ^ (k + 1) := by
  induction n using digits.induct generalizing k with
  | case1 n ih =>
      have splits : n < kAlphabetSize ^ (k + 1) ↔
          n / kAlphabetSize < kAlphabetSize ^ k := by
        rw [Nat.pow_succ, Nat.div_lt_iff_lt_mul (by decide)]
      rw [digits, List.length_cons, splits, Nat.add_le_add_iff_right]
      split
      · rename_i more
        cases k with
        | zero =>
            have one : kAlphabetSize ^ 0 = 1 := rfl
            have nonempty : (digits (n / kAlphabetSize)).length ≠ 0 := by
              rw [digits]
              simp
            omega
        | succ k => exact ih more k
      · rename_i last
        rw [Nat.eq_zero_of_not_pos last]
        exact iff_of_true (Nat.zero_le k) (Nat.pow_pos (by decide))

theorem validCode_digits (n : Nat) :
    validCode (digits n) = true ↔ n < 62 ^ 8 := by
  have alnum : (digits n).all isalnum = true :=
    List.all_eq_true.mpr fun c member => isalnum_of_mem_digits member
  have nonempty : (digits n).isEmpty = false := by
    rw [digits]
    rfl
  rw [validCode, alnum, nonempty, ← show kAlphabetSize ^ 8 = 62 ^ 8 from rfl,
    ← length_digits_le_iff n 7]
  simp

theorem alnum_of_validCode {code : Bytes} (valid : validCode code = true) :
    code ≠ [] ∧ ∀ c ∈ code, isalnum c = true := by
  rw [validCode, Bool.and_eq_true, List.all_eq_true] at valid
  refine ⟨?_, valid.2⟩
  rintro rfl
  cases valid.1

/-! ## The search for an unused code -/

theorem nextCode_eq_some {byCode : AList fun _ : Bytes => Entry} {turns : Nat}
    {counter later : UInt64} {code : Bytes}
    (found : nextCode byCode turns counter = some (later, code)) :
    code ∉ byCode ∧ code = base62 later := by
  induction turns generalizing counter with
  | zero => cases found
  | succ turns ih =>
      rw [nextCode] at found
      split at found
      · exact ih found
      · rename_i unused
        cases found
        exact ⟨unused, rfl⟩

theorem mem_of_nextCode_eq_none {byCode : AList fun _ : Bytes => Entry}
    {turns : Nat} {counter : UInt64} (stuck : nextCode byCode turns counter = none) :
    ∀ i < turns, base62 (counter + 1 + UInt64.ofNat i) ∈ byCode := by
  induction turns generalizing counter with
  | zero => exact fun i impossible => absurd impossible (Nat.not_lt_zero i)
  | succ turns ih =>
      rw [nextCode] at stuck
      split at stuck
      · rename_i used
        intro i inside
        cases i with
        | zero => simpa using used
        | succ i =>
            have later := ih stuck i (by omega)
            rwa [UInt64.add_assoc (counter + 1), UInt64.add_comm 1,
              ← UInt64.ofNat_one, ← UInt64.ofNat_add] at later
      · cases stuck

/-- Turns of the loop try different codes. -/
private theorem card_le_of_used {byCode : AList fun _ : Bytes => Entry}
    {turns : Nat} {start : UInt64} (small : turns ≤ 2 ^ 64)
    (used : ∀ i < turns, base62 (start + UInt64.ofNat i) ∈ byCode) :
    turns ≤ byCode.keys.length := by
  have distinct : Set.InjOn (fun i => base62 (start + UInt64.ofNat i))
      (Finset.range turns) := by
    intro i iInside j jInside same
    have offsets := (UInt64.add_right_inj start).mp (base62_injective same)
    have iSmall := List.mem_range.mp iInside
    have jSmall := List.mem_range.mp jInside
    have values := congrArg UInt64.toNat offsets
    rwa [UInt64.toNat_ofNat_of_lt' (lt_of_lt_of_le iSmall small),
      UInt64.toNat_ofNat_of_lt' (lt_of_lt_of_le jSmall small)] at values
  calc
    turns = (Finset.range turns).card := (Finset.card_range turns).symm
    _ ≤ byCode.keys.toFinset.card :=
      Finset.card_le_card_of_injOn _
        (fun i inside => List.mem_toFinset.mpr (used i (Finset.mem_range.mp inside)))
        distinct
    _ ≤ byCode.keys.length := List.toFinset_card_le _

/-- The bound on the turns is no restriction: the search fails exactly when
every code that the counter can produce is taken, and then the loop of the
source never ends. -/
theorem nextCode_eq_none_iff (byCode : AList fun _ : Bytes => Entry)
    (counter : UInt64) :
    nextCode byCode (byCode.keys.length + 1) counter = none ↔
      ∀ n, base62 n ∈ byCode := by
  constructor
  · intro stuck
    have used := mem_of_nextCode_eq_none stuck
    by_cases all : 2 ^ 64 ≤ byCode.keys.length + 1
    · intro n
      have turn := used (n - (counter + 1)).toNat
        (lt_of_lt_of_le (UInt64.toNat_lt _) all)
      rwa [UInt64.ofNat_toNat, UInt64.add_comm, UInt64.sub_add_cancel] at turn
    · exact absurd (card_le_of_used (by omega) used) (by omega)
  · intro allUsed
    suffices ∀ turns counter, nextCode byCode turns counter = none from this _ _
    intro turns
    induction turns with
    | zero => exact fun _ => rfl
    | succ turns ih =>
        intro counter
        rw [nextCode, if_pos (allUsed _), ih]

end ShortUrlService

end MiniNet
