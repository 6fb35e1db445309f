import Mathlib.Data.List.DropRight
import Mathlib.Data.Nat.Digits.Lemmas

/-!
# Byte strings and the C string functions

A byte string is a list of octets.  The character classes are those of the
`"C"` locale, which is the one a C++ program runs in unless it asks for
another.  Positions are natural numbers; a search that finds nothing returns
`none` where the C++ interface returns `npos` or a null pointer.
-/

/-- A string of octets. -/
abbrev Bytes := List UInt8

namespace Bytes

/-- The octets of a source literal, which is UTF-8 encoded. -/
def lit (text : String) : Bytes := text.toByteArray.data.toList

def cr : UInt8 := 13
def lf : UInt8 := 10

/-- The end of a line on the wire. -/
def crlf : Bytes := [cr, lf]

/-! ## Character classes -/

def isspace (c : UInt8) : Bool := c == 32 || (9 ≤ c && c ≤ 13)

def isdigit (c : UInt8) : Bool := 48 ≤ c && c ≤ 57

def isupper (c : UInt8) : Bool := 65 ≤ c && c ≤ 90

def islower (c : UInt8) : Bool := 97 ≤ c && c ≤ 122

def isalnum (c : UInt8) : Bool := isdigit c || isupper c || islower c

def tolower (c : UInt8) : UInt8 := if isupper c then c + 32 else c

/-! ## Searching -/

/-- `std::string::find` of a string: the first position at which it occurs. -/
def find? (needle : Bytes) : Bytes → Option Nat
  | [] => if needle = [] then some 0 else none
  | c :: rest =>
      if needle.isPrefixOf (c :: rest) then some 0
      else (find? needle rest).map (· + 1)

/-- `rfind(start, 0) == 0`: the string begins with `start`. -/
def startsWith (text start : Bytes) : Bool := start.isPrefixOf text

/-- Cut a string at the first occurrence of an octet, which is dropped. -/
def cut? (mark : UInt8) : Bytes → Option (Bytes × Bytes)
  | [] => none
  | c :: rest =>
      if c = mark then some ([], rest)
      else (cut? mark rest).map fun (before, after) => (c :: before, after)

/-- One extraction of `std::istringstream >> std::string`: skip white space,
then take everything up to the next white space. -/
def token? (text : Bytes) : Option (Bytes × Bytes) :=
  match text.dropWhile isspace with
  | [] => none
  | c :: rest =>
      some ((c :: rest).takeWhile (!isspace ·), (c :: rest).dropWhile (!isspace ·))

/-! ## Numbers -/

/-- The value of a digit string, most significant digit first. -/
def decimalValue (digits : Bytes) : Nat :=
  digits.foldl (fun value c => 10 * value + (c.toNat - 48)) 0

/-- `strtol` in base ten on a 64-bit `long`: `none` when no digit is found
(`endptr == nptr`), and otherwise the value saturated to the range of `long`. -/
def strtol (text : Bytes) : Option Int :=
  let afterSpace := text.dropWhile isspace
  let (negative, afterSign) :=
    match afterSpace with
    | 45 :: rest => (true, rest)
    | 43 :: rest => (false, rest)
    | _ => (false, afterSpace)
  match afterSign.takeWhile isdigit with
  | [] => none
  | c :: rest =>
      let value : Int := decimalValue (c :: rest)
      some (if negative then max (-2 ^ 63) (-value) else min (2 ^ 63 - 1) value)

/-- The `%zu` and `%llu` conversions of `printf`. -/
def decimal (value : Nat) : Bytes :=
  if value = 0 then [48]
  else ((Nat.digits 10 value).reverse).map fun digit => UInt8.ofNat (48 + digit)

/-- The `%d` and `%lld` conversions of `printf`. -/
def decimalInt (value : Int) : Bytes :=
  if value < 0 then 45 :: decimal value.natAbs else decimal value.natAbs

/-- `snprintf` into an array of `size` characters: the formatted text is cut
so that the terminating NUL still fits. -/
def snprintf (size : Nat) (formatted : Bytes) : Bytes := formatted.take (size - 1)

/-- What `%s` prints of a string, and what a C string constructor reads:
everything before the first NUL. -/
def cStr (text : Bytes) : Bytes := text.takeWhile (· != 0)

/-! ## Cutting at an octet -/

theorem cut?_eq_none_iff {mark : UInt8} {text : Bytes} :
    cut? mark text = none ↔ mark ∉ text := by
  induction text with
  | nil => simp [cut?]
  | cons c rest ih =>
      by_cases same : c = mark
      · simp [cut?, same]
      · have different : mark ≠ c := Ne.symm same
        simp [cut?, same, different, ih]

theorem cut?_eq_some_iff {mark : UInt8} {text before after : Bytes} :
    cut? mark text = some (before, after) ↔
      mark ∉ before ∧ text = before ++ mark :: after := by
  induction text generalizing before with
  | nil => simp [cut?]
  | cons c rest ih =>
      by_cases same : c = mark
      · subst c
        cases before with
        | nil => simp [cut?, eq_comm]
        | cons head tail =>
            simp only [cut?, if_true, Option.some.injEq, Prod.mk.injEq,
              List.nil_eq, reduceCtorEq, false_and, List.mem_cons, not_or,
              List.cons_append, List.cons.injEq, false_iff, not_and]
            rintro ⟨headDifferent, _⟩ headSame
            exact absurd headSame headDifferent
      · cases before with
        | nil =>
            simp only [cut?, same, if_false, Option.map_eq_some_iff]
            simp [same]
        | cons head tail =>
            have different : mark ≠ c := Ne.symm same
            simp only [cut?, same, if_false, Option.map_eq_some_iff,
              Prod.exists, Prod.mk.injEq, List.cons.injEq, List.mem_cons,
              not_or, List.cons_append]
            constructor
            · rintro ⟨lead, trail, found, ⟨rfl, rfl⟩, rfl⟩
              obtain ⟨absent, rfl⟩ := ih.mp found
              exact ⟨⟨different, absent⟩, rfl, rfl⟩
            · rintro ⟨⟨_, absent⟩, rfl, rfl⟩
              exact ⟨tail, after, ih.mpr ⟨absent, rfl⟩, ⟨rfl, rfl⟩, rfl⟩

theorem cut?_append {mark : UInt8} {before : Bytes} (after : Bytes)
    (absent : mark ∉ before) :
    cut? mark (before ++ mark :: after) = some (before, after) :=
  cut?_eq_some_iff.mpr ⟨absent, rfl⟩

theorem cut?_append_right {mark : UInt8} {text before after : Bytes}
    (found : cut? mark text = some (before, after)) (more : Bytes) :
    cut? mark (text ++ more) = some (before, after ++ more) := by
  obtain ⟨absent, rfl⟩ := cut?_eq_some_iff.mp found
  rw [List.append_assoc, List.cons_append]
  exact cut?_append _ absent

/-- The last occurrence of an octet cuts a string in one way only. -/
theorem append_cons_inj_of_notMem {mark : UInt8} {front front' back back' : Bytes}
    (last : mark ∉ back) (last' : mark ∉ back')
    (same : front ++ mark :: back = front' ++ mark :: back') : front = front' ∧ back = back' := by
  have reversed (front back : Bytes) (last : mark ∉ back) :
      cut? mark (front ++ mark :: back).reverse = some (back.reverse, front.reverse) :=
    cut?_eq_some_iff.mpr ⟨by simpa using last, by simp⟩
  have cuts := reversed front back last
  rw [same, reversed front' back' last'] at cuts
  obtain ⟨backs, fronts⟩ := Prod.ext_iff.mp (Option.some.inj cuts)
  exact ⟨(List.reverse_injective fronts).symm, (List.reverse_injective backs).symm⟩

theorem length_lt_of_cut? {mark : UInt8} {text before after : Bytes}
    (found : cut? mark text = some (before, after)) :
    after.length < text.length := by
  obtain ⟨_, rfl⟩ := cut?_eq_some_iff.mp found
  simp only [List.length_append, List.length_cons]
  omega

/-! ## Words -/

/-- Some octets, none of them white space. -/
def Word (text : Bytes) : Prop := text ≠ [] ∧ ∀ c ∈ text, isspace c = false

instance (text : Bytes) : Decidable (Word text) :=
  decidable_of_iff (text ≠ [] ∧ text.all (!isspace ·) = true) (by simp [Word])

/-- Text that does not begin with white space has none to skip. -/
theorem dropWhile_isspace {text : Bytes} (solid : ∀ c ∈ text.head?, isspace c = false) :
    text.dropWhile isspace = text := by
  cases text with
  | nil => rfl
  | cons c rest => rw [List.dropWhile_cons, solid c rfl, if_neg Bool.false_ne_true]

theorem token?_space {c : UInt8} (space : isspace c = true) (rest : Bytes) :
    token? (c :: rest) = token? rest := by
  rw [token?, token?, List.dropWhile_cons, if_pos space]

/-- A word at the front is taken whole, up to white space or the end. -/
theorem token?_append {word rest : Bytes} (isWord : Word word)
    (ended : ∀ c ∈ rest.head?, isspace c = true) :
    token? (word ++ rest) = some (word, rest) := by
  obtain ⟨nonempty, letters⟩ := isWord
  obtain ⟨c, word, rfl⟩ := List.exists_cons_of_ne_nil nonempty
  have first := letters c List.mem_cons_self
  have skipped : (c :: word ++ rest).dropWhile isspace = c :: (word ++ rest) :=
    dropWhile_isspace (by simp [first])
  have whole : ∀ d ∈ c :: word, (!isspace d) = true := by
    intro d member
    rw [letters d member]
    rfl
  have stop : rest.takeWhile (!isspace ·) = [] ∧ rest.dropWhile (!isspace ·) = rest := by
    cases rest with
    | nil => exact ⟨rfl, rfl⟩
    | cons d rest =>
        have space := ended d rfl
        simp [space]
  unfold token?
  simp only [skipped]
  rw [← List.cons_append, List.takeWhile_append_of_pos whole,
    List.dropWhile_append_of_pos whole, stop.1, stop.2, List.append_nil]

/-! ## The first occurrence of a string -/

/-- `place` is the first position at which `needle` occurs, or there is none. -/
def FirstAt (needle text : Bytes) : Option Nat → Prop
  | none => ∀ i, ¬ needle <+: text.drop i
  | some place => needle <+: text.drop place ∧ ∀ i < place, ¬ needle <+: text.drop i

/-- A string that does not begin with the needle has its first occurrence
where its tail has it. -/
theorem FirstAt.cons {needle rest : Bytes} {c : UInt8} {place : Option Nat}
    (later : FirstAt needle rest place) (notHere : ¬ needle <+: c :: rest) :
    FirstAt needle (c :: rest) (place.map (· + 1)) := by
  cases place with
  | none =>
      intro i
      cases i with
      | zero => exact notHere
      | succ i => exact later i
  | some place =>
      refine ⟨later.1, ?_⟩
      intro i before
      cases i with
      | zero => exact notHere
      | succ i => exact later.2 i (Nat.lt_of_succ_lt_succ before)

theorem firstAt_find? {needle : Bytes} (some_octet : needle ≠ []) (text : Bytes) :
    FirstAt needle text (find? needle text) := by
  induction text with
  | nil =>
      rw [find?, if_neg some_octet]
      intro i
      simpa using some_octet
  | cons c rest ih =>
      rw [find?]
      split
      · rename_i here
        exact ⟨List.isPrefixOf_iff_prefix.mp here, fun i before => absurd before (by omega)⟩
      · rename_i notHere
        apply ih.cons
        intro here
        exact notHere (List.isPrefixOf_iff_prefix.mpr here)

theorem find?_eq_some_iff {needle text : Bytes} {place : Nat} (some_octet : needle ≠ []) :
    find? needle text = some place ↔ FirstAt needle text (some place) := by
  have first := firstAt_find? some_octet text
  constructor
  · intro found
    rwa [found] at first
  · rintro ⟨here, before⟩
    cases found : find? needle text with
    | none =>
        rw [found] at first
        exact absurd here (first place)
    | some other =>
        rw [found] at first
        have notLess : ¬place < other := fun less => first.2 place less here
        have notMore : ¬other < place := fun more => before other more first.1
        rw [show other = place by omega]

theorem find?_of_prefix {needle text : Bytes} (here : needle <+: text) :
    find? needle text = some 0 := by
  cases text with
  | nil => rw [find?, if_pos (List.prefix_nil.mp here)]
  | cons c rest => rw [find?, if_pos (List.isPrefixOf_iff_prefix.mpr here)]

theorem find?_cons {needle rest : Bytes} {c : UInt8} (notHere : ¬ needle <+: c :: rest) :
    find? needle (c :: rest) = (find? needle rest).map (· + 1) := by
  rw [find?, if_neg fun here => notHere (List.isPrefixOf_iff_prefix.mp here)]

/-- Octets that differ from the first of the needle are skipped. -/
theorem find?_append {mark : UInt8} {tail front : Bytes} (absent : mark ∉ front)
    (rest : Bytes) :
    find? (mark :: tail) (front ++ rest) =
      (find? (mark :: tail) rest).map (front.length + ·) := by
  induction front with
  | nil => simp
  | cons c front ih =>
      obtain ⟨different, later⟩ := not_or.mp (mt List.mem_cons.mpr absent)
      have notHere : ¬ mark :: tail <+: c :: (front ++ rest) :=
        fun here => different (List.cons_prefix_cons.mp here).1
      rw [List.cons_append, find?_cons notHere, ih later, Option.map_map]
      congr 1
      funext n
      simp only [Function.comp_apply, List.length_cons]
      omega

theorem find?_append_prefix {mark : UInt8} {tail front rest : Bytes}
    (absent : mark ∉ front) (here : mark :: tail <+: rest) :
    find? (mark :: tail) (front ++ rest) = some front.length := by
  rw [find?_append absent, find?_of_prefix here]
  rfl

theorem find?_mark {mark : UInt8} {front : Bytes} (absent : mark ∉ front) (rest : Bytes) :
    find? [mark] (front ++ mark :: rest) = some front.length :=
  find?_append_prefix absent ⟨rest, rfl⟩

theorem find?_crlf {line : Bytes} (oneLine : cr ∉ line) (rest : Bytes) :
    find? crlf (line ++ (crlf ++ rest)) = some line.length :=
  find?_append_prefix oneLine ⟨rest, rfl⟩

/-- A line end that is not followed by another one is skipped. -/
theorem find?_lineEnd {line text : Bytes} (oneLine : cr ∉ line)
    (lineFollows : ∀ c ∈ text.head?, c ≠ cr) :
    find? (crlf ++ crlf) (line ++ (crlf ++ text)) =
      (find? (crlf ++ crlf) text).map (line.length + 2 + ·) := by
  have notHere : ¬ crlf ++ crlf <+: cr :: lf :: text := by
    intro here
    have third := (List.cons_prefix_cons.mp (List.cons_prefix_cons.mp here).2).2
    cases text with
    | nil => cases List.prefix_nil.mp third
    | cons c rest => exact lineFollows c rfl (List.cons_prefix_cons.mp third).1.symm
  have notNext : ¬ crlf ++ crlf <+: lf :: text :=
    fun here => absurd (List.cons_prefix_cons.mp here).1 (by decide)
  have twice : find? (crlf ++ crlf) (crlf ++ text) =
      ((find? (crlf ++ crlf) text).map (· + 1)).map (· + 1) := by
    rw [← find?_cons notNext]
    exact find?_cons notHere
  have skipped : find? (crlf ++ crlf) (line ++ (crlf ++ text)) =
      (find? (crlf ++ crlf) (crlf ++ text)).map (line.length + ·) :=
    find?_append oneLine _
  rw [skipped, twice, Option.map_map, Option.map_map]
  congr 1
  funext n
  simp only [Function.comp_apply]
  omega

/-- Two line ends in a row are found behind the last of some lines. -/
theorem find?_blankLine {line : Bytes} {lines : List Bytes}
    (plain : ∀ text ∈ line :: lines, text ≠ [] ∧ cr ∉ text) (more : Bytes) :
    find? (crlf ++ crlf) ((line :: lines).flatMap (· ++ crlf) ++ (crlf ++ more)) =
      some (((line :: lines).flatMap (· ++ crlf)).length - 2) := by
  have ends : crlf.length = 2 := rfl
  induction lines generalizing line with
  | nil =>
      have here : crlf ++ crlf <+: crlf ++ (crlf ++ more) := ⟨more, by simp⟩
      have found := find?_append_prefix (plain line List.mem_cons_self).2 here
      simpa [crlf] using found
  | cons next lines ih =>
      have later := ih fun text member => plain text (List.mem_cons_of_mem _ member)
      have lineFollows : ∀ c ∈ ((next :: lines).flatMap (· ++ crlf) ++
          (crlf ++ more)).head?, c ≠ cr := by
        obtain ⟨some_octet, noCr⟩ := plain next (by simp)
        obtain ⟨d, rest, rfl⟩ := List.exists_cons_of_ne_nil some_octet
        rintro c ⟨rfl⟩ rfl
        exact noCr List.mem_cons_self
      rw [List.flatMap_cons, List.append_assoc, List.append_assoc,
        find?_lineEnd (plain line List.mem_cons_self).2 lineFollows, later]
      rw [List.flatMap_cons]
      simp only [Option.map_some, List.length_append, ends]
      congr 1
      omega

/-- What stands behind the first occurrence of a string. -/
def after? (needle text : Bytes) : Option Bytes :=
  (find? needle text).map fun place => text.drop (place + needle.length)

theorem after?_append {needle : Bytes} (rest : Bytes) :
    after? needle (needle ++ rest) = some rest := by
  rw [after?, find?_of_prefix ⟨rest, rfl⟩, Option.map_some, Nat.zero_add,
    List.drop_left]

theorem after?_cons {needle rest : Bytes} {c : UInt8} (notHere : ¬ needle <+: c :: rest) :
    after? needle (c :: rest) = after? needle rest := by
  rw [after?, after?, find?_cons notHere, Option.map_map]
  congr 1
  funext place
  rw [Function.comp_apply, Nat.add_right_comm, List.drop_succ_cons]

theorem after?_skip {mark : UInt8} {tail front : Bytes} (absent : mark ∉ front)
    (rest : Bytes) : after? (mark :: tail) (front ++ rest) = after? (mark :: tail) rest := by
  rw [after?, after?, find?_append absent, Option.map_map]
  congr 1
  funext place
  rw [Function.comp_apply, Nat.add_assoc, ← List.drop_drop, List.drop_left]

/-! ## Decimal numbers -/

theorem isdigit_of_mem_decimal {value : Nat} {c : UInt8}
    (member : c ∈ decimal value) : isdigit c = true := by
  have digits : ∀ digit < 10, isdigit (UInt8.ofNat (48 + digit)) = true := by decide
  unfold decimal at member
  split at member
  · cases List.mem_singleton.mp member
    decide
  · obtain ⟨digit, inside, rfl⟩ := List.mem_map.mp member
    exact digits digit (Nat.digits_lt_base (by decide) (List.mem_reverse.mp inside))

theorem cr_notMem_decimal (value : Nat) : cr ∉ decimal value := by
  intro member
  exact absurd (isdigit_of_mem_decimal member) (by decide)

theorem decimal_ne_nil (value : Nat) : decimal value ≠ [] := by
  unfold decimal
  split
  · exact List.cons_ne_nil _ _
  · rename_i nonzero
    simpa [Nat.digits_eq_nil_iff_eq_zero] using nonzero

theorem decimalValue_decimal (value : Nat) :
    decimalValue (decimal value) = value := by
  have digits : ∀ digit < 10, (UInt8.ofNat (48 + digit)).toNat - 48 = digit := by
    decide
  unfold decimal
  split
  · rename_i zero
    rw [zero]
    rfl
  · have back : ∀ ds : List Nat, (∀ digit ∈ ds, digit < 10) →
        decimalValue (ds.reverse.map fun digit => UInt8.ofNat (48 + digit)) =
          Nat.ofDigits 10 ds := by
      intro ds
      induction ds with
      | nil => exact fun _ => rfl
      | cons digit ds ih =>
          intro small
          have rest := ih fun d member => small d (List.mem_cons_of_mem _ member)
          rw [decimalValue] at rest ⊢
          rw [List.reverse_cons, List.map_append, List.foldl_append, rest,
            Nat.ofDigits_cons]
          simp only [List.map_cons, List.map_nil, List.foldl_cons, List.foldl_nil]
          rw [digits digit (small digit List.mem_cons_self)]
          exact Nat.add_comm _ _
    rw [back _ fun digit member => Nat.digits_lt_base (by decide) member,
      Nat.ofDigits_digits]

theorem isspace_of_isdigit {c : UInt8} (digit : isdigit c = true) : isspace c = false := by
  simp only [isdigit, Bool.and_eq_true, decide_eq_true_eq, UInt8.le_iff_toNat_le] at digit
  obtain ⟨lower, upper⟩ := digit
  simp only [isspace, Bool.or_eq_false_iff, Bool.and_eq_false_iff, beq_eq_false_iff_ne,
    decide_eq_false_iff_not, UInt8.le_iff_toNat_le, ne_eq, ← UInt8.toNat_inj]
  simp only [UInt8.reduceToNat] at lower upper ⊢
  omega

/-- `strtol` reads the digits at the front of a string. -/
theorem strtol_append {text rest : Bytes} (some_digit : text ≠ [])
    (digits : ∀ c ∈ text, isdigit c = true) (ended : ∀ c ∈ rest.head?, isdigit c = false) :
    strtol (text ++ rest) = some (min (2 ^ 63 - 1) (decimalValue text : Int)) := by
  obtain ⟨c, text, rfl⟩ := List.exists_cons_of_ne_nil some_digit
  have first := digits c List.mem_cons_self
  have noSpace : (c :: text ++ rest).dropWhile isspace = c :: (text ++ rest) :=
    dropWhile_isspace (by simp [isspace_of_isdigit first])
  have stop : rest.takeWhile isdigit = [] := by
    cases rest with
    | nil => rfl
    | cons d rest => simp [ended d rfl]
  have all : (c :: (text ++ rest)).takeWhile isdigit = c :: text := by
    rw [← List.cons_append, List.takeWhile_append_of_pos digits, stop, List.append_nil]
  have noMinus : c ≠ 45 := by
    rintro rfl
    cases first
  have noPlus : c ≠ 43 := by
    rintro rfl
    cases first
  have noSign : (match c :: (text ++ rest) with
      | 45 :: rest => (true, rest)
      | 43 :: rest => (false, rest)
      | _ => (false, c :: (text ++ rest))) = (false, c :: (text ++ rest)) := by
    split
    · rename_i same
      exact absurd (List.cons.inj same).1 noMinus
    · rename_i same
      exact absurd (List.cons.inj same).1 noPlus
    · rfl
  unfold strtol
  simp only [noSpace, noSign, all]
  rfl

/-- `strtol` on a string of digits. -/
theorem strtol_of_digits {text : Bytes} (some_digit : text ≠ [])
    (digits : ∀ c ∈ text, isdigit c = true) :
    strtol text = some (min (2 ^ 63 - 1) (decimalValue text : Int)) := by
  have read := @strtol_append _ [] some_digit digits (by simp)
  rwa [List.append_nil] at read

theorem length_decimal_le {value : Nat} (small : value < 2 ^ 64) :
    (decimal value).length ≤ 20 := by
  unfold decimal
  split
  · decide
  · rw [List.length_map, List.length_reverse]
    refine (Nat.digits_length_le_iff (by decide) value).mpr ?_
    exact small.trans (by decide)

end Bytes
