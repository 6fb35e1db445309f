import MiniNet.Lib.Json
import MiniNet.Lib.Utf8

/-!
# The grammar of JSON

Texts of values, octet by octet.  Unlike a list of `Written`, a string here
may also hold the escape of half a surrogate pair, which the grammar allows
though it stands for no character.  A text that is put between quotes without
any escaping makes a literal exactly if it is `Printable`.
-/

namespace Json

/-! ## Strings -/

/-- One character or escape of a string. -/
inductive Piece where
  | raw (c : Char) (legal : 0x20 ≤ c.toNat ∧ c ≠ '"' ∧ c ≠ '\\')
  | short (escape : ShortEscape)
  | unicode (upper : Fin 4 → Bool) (value : Nat) (small : value < 0x10000)

def Piece.text : Piece → Bytes
  | .raw c _ => String.utf8EncodeChar c
  | .short escape => [92, escape.letter]
  | .unicode upper value _ => 92 :: 117 :: hexText upper value

/-- The octets between the quotes. -/
def inside (pieces : List Piece) : Bytes := pieces.flatMap Piece.text

def literal (pieces : List Piece) : Bytes := 34 :: (inside pieces ++ [34])

/-! ## Numbers -/

def IsDigits (text : Bytes) : Prop := text ≠ [] ∧ ∀ c ∈ text, Bytes.isdigit c = true

inductive IsInteger : Bytes → Prop
  | zero : IsInteger [48]
  | digits {c : UInt8} {rest : Bytes} : 49 ≤ c → c ≤ 57 →
      (∀ c ∈ rest, Bytes.isdigit c = true) → IsInteger (c :: rest)

inductive IsFraction : Bytes → Prop
  | none : IsFraction []
  | digits {text : Bytes} : IsDigits text → IsFraction (46 :: text)

inductive IsExponent : Bytes → Prop
  | none : IsExponent []
  | digits {mark : UInt8} {sign text : Bytes} : mark = 101 ∨ mark = 69 →
      sign = [] ∨ sign = [43] ∨ sign = [45] → IsDigits text →
      IsExponent (mark :: (sign ++ text))

inductive IsNumber : Bytes → Prop
  | parts {sign integer fraction exponent : Bytes} : sign = [] ∨ sign = [45] →
      IsInteger integer → IsFraction fraction → IsExponent exponent →
      IsNumber (sign ++ (integer ++ (fraction ++ exponent)))

/-! ## Values -/

/-- Values separated by commas, with white space around them. -/
inductive Elements (value : Bytes → Prop) : Bytes → Prop
  | last (before after : Space) {text : Bytes} : value text →
      Elements value (before.text ++ (text ++ after.text))
  | more (before after : Space) {text rest : Bytes} : value text → Elements value rest →
      Elements value (before.text ++ (text ++ (after.text ++ 44 :: rest)))

/-- Members separated by commas; `keys` are their keys, in order. -/
inductive Members (value : Bytes → Prop) : List (List Piece) → Bytes → Prop
  | last (beforeKey afterKey before after : Space) (key : List Piece) {text : Bytes} :
      value text →
      Members value [key] (beforeKey.text ++ (literal key ++ (afterKey.text ++
        58 :: (before.text ++ (text ++ after.text)))))
  | more (beforeKey afterKey before after : Space) (key : List Piece)
      {keys : List (List Piece)} {text rest : Bytes} :
      value text → Members value keys rest →
      Members value (key :: keys) (beforeKey.text ++ (literal key ++ (afterKey.text ++
        58 :: (before.text ++ (text ++ (after.text ++ 44 :: rest))))))

inductive IsValue : Bytes → Prop
  | string (pieces : List Piece) : IsValue (literal pieces)
  | number {text : Bytes} : IsNumber text → IsValue text
  | true : IsValue (Bytes.lit "true")
  | false : IsValue (Bytes.lit "false")
  | null : IsValue (Bytes.lit "null")
  | emptyArray (space : Space) : IsValue (91 :: (space.text ++ [93]))
  | array {elements : Bytes} : Elements IsValue elements → IsValue (91 :: (elements ++ [93]))
  | emptyObject (space : Space) : IsValue (123 :: (space.text ++ [125]))
  | object {keys : List (List Piece)} {members : Bytes} : Members IsValue keys members →
      IsValue (123 :: (members ++ [125]))

/-- A text that is an object with these keys. -/
inductive IsObject : List (List Piece) → Bytes → Prop
  | empty (before space after : Space) :
      IsObject [] (before.text ++ 123 :: (space.text ++ 125 :: after.text))
  | members (before after : Space) {keys : List (List Piece)} {members : Bytes} :
      Members IsValue keys members →
      IsObject keys (before.text ++ 123 :: (members ++ 125 :: after.text))

/-! ## Texts that need no escapes -/

/-- The text holds neither a quote nor a backslash. -/
def Unmarked (text : Bytes) : Prop := 34 ∉ text ∧ 92 ∉ text

instance (text : Bytes) : Decidable (Unmarked text) := inferInstanceAs (Decidable (_ ∧ _))

/-- UTF-8 without quotes, backslashes and control characters. -/
structure Printable (text : Bytes) : Prop where
  utf8 : IsUtf8 text
  visible : ∀ c ∈ text, 0x20 ≤ c.toNat
  unmarked : Unmarked text

theorem inside_cons (piece : Piece) (pieces : List Piece) :
    inside (piece :: pieces) = piece.text ++ inside pieces :=
  List.flatMap_cons

theorem printable_nil : Printable [] where
  utf8 := isUtf8_nil
  visible _ member := absurd member List.not_mem_nil
  unmarked := ⟨List.not_mem_nil, List.not_mem_nil⟩

/-- An ASCII character that needs no escape. -/
def isPlain (c : UInt8) : Bool := 0x20 ≤ c.toNat && c.toNat < 128 && c != 34 && c != 92

theorem printable_of_all {text : Bytes} (plain : text.all isPlain = true) :
    Printable text := by
  have each : ∀ c ∈ text, ((0x20 ≤ c.toNat ∧ c.toNat < 128) ∧ c ≠ 34) ∧ c ≠ 92 := by
    intro c member
    simpa [isPlain] using List.all_eq_true.mp plain c member
  refine ⟨isUtf8_of_ascii fun c member => (each c member).1.1.2,
    fun c member => (each c member).1.1.1, ?_, ?_⟩
  · exact fun quote => (each 34 quote).1.2 rfl
  · exact fun escape => (each 92 escape).2 rfl

theorem Printable.append {first second : Bytes} (printable : Printable first)
    (printableSecond : Printable second) : Printable (first ++ second) where
  utf8 := printable.utf8.append printableSecond.utf8
  visible c member := by
    rcases List.mem_append.mp member with inFirst | inSecond
    · exact printable.visible c inFirst
    · exact printableSecond.visible c inSecond
  unmarked := by
    constructor
    · rw [List.mem_append]
      exact not_or.mpr ⟨printable.unmarked.1, printableSecond.unmarked.1⟩
    · rw [List.mem_append]
      exact not_or.mpr ⟨printable.unmarked.2, printableSecond.unmarked.2⟩

theorem Printable.of_subset {part whole : Bytes} (printable : Printable whole)
    (valid : IsUtf8 part) (subset : part ⊆ whole) : Printable part where
  utf8 := valid
  visible c member := printable.visible c (subset member)
  unmarked := ⟨fun quote => printable.unmarked.1 (subset quote),
    fun escape => printable.unmarked.2 (subset escape)⟩

/-- Both sides of an ASCII octet of a printable text are printable. -/
theorem Printable.cut {before after : Bytes} {octet : UInt8} (ascii : octet.toNat < 128)
    (printable : Printable (before ++ octet :: after)) :
    Printable before ∧ Printable after := by
  obtain ⟨front, back⟩ := printable.utf8.cut ascii
  constructor
  · exact printable.of_subset front (List.subset_append_left _ _)
  · exact printable.of_subset back
      (List.subset_append_of_subset_right _ (List.subset_cons_self _ _))

theorem printable_utf8EncodeChar {c : Char}
    (legal : 0x20 ≤ c.toNat ∧ c ≠ '"' ∧ c ≠ '\\') :
    Printable (String.utf8EncodeChar c) where
  utf8 := ⟨[c], by rw [Json.utf8, List.flatMap_singleton]⟩
  visible octet member := by
    by_contra small
    have same := (eq_of_mem_utf8EncodeChar member (by omega)).2
    omega
  unmarked := ⟨notMem_utf8EncodeChar legal.2.1 (by decide) (by decide),
    notMem_utf8EncodeChar legal.2.2 (by decide) (by decide)⟩

theorem legal_of_printable {c : Char} (printable : Printable (String.utf8EncodeChar c)) :
    0x20 ≤ c.toNat ∧ c ≠ '"' ∧ c ≠ '\\' := by
  refine ⟨?_, ?_, ?_⟩
  · by_contra small
    have control : ∀ n < 32, String.utf8EncodeChar (Char.ofNat n) = [UInt8.ofNat n] ∧
        (UInt8.ofNat n).toNat < 0x20 := by
      decide
    have code := control c.toNat (by omega)
    rw [Char.ofNat_toNat] at code
    have visible := printable.visible (UInt8.ofNat c.toNat) (by rw [code.1]; simp)
    omega
  · rintro rfl
    exact printable.unmarked.1 (by decide)
  · rintro rfl
    exact printable.unmarked.2 (by decide)

/-- A printable text is the inside of a literal. -/
theorem Printable.exists_inside {text : Bytes} (printable : Printable text) :
    ∃ pieces, inside pieces = text := by
  obtain ⟨chars, rfl⟩ := printable.utf8
  induction chars with
  | nil => exact ⟨[], rfl⟩
  | cons c chars ih =>
      rw [utf8_cons] at printable
      have alone : IsUtf8 (String.utf8EncodeChar c) :=
        ⟨[c], by rw [Json.utf8, List.flatMap_singleton]⟩
      have first := printable.of_subset alone (List.subset_append_left _ _)
      have later := printable.of_subset ⟨chars, rfl⟩ (List.subset_append_right _ _)
      obtain ⟨pieces, same⟩ := ih later
      refine ⟨.raw c (legal_of_printable first) :: pieces, ?_⟩
      rw [inside_cons, same, utf8_cons]
      rfl

/-- If a text without marks between quotes is read as a literal, it is
printable, and the literal ends at the quote behind it. -/
theorem printable_of_inside {pieces : List Piece} {text rest later : Bytes}
    (unmarked : Unmarked text) (same : inside pieces ++ 34 :: rest = text ++ 34 :: later) :
    Printable text ∧ rest = later := by
  induction pieces generalizing text with
  | nil =>
      cases text with
      | nil => exact ⟨printable_nil, (List.cons.inj same).2⟩
      | cons c text =>
          rw [← (List.cons.inj same).1] at unmarked
          exact absurd List.mem_cons_self unmarked.1
  | cons piece pieces ih =>
      have noEscape : ∀ more : Bytes, 92 :: more ≠ text ++ 34 :: later := by
        intro more same
        cases text with
        | nil => exact absurd (List.cons.inj same).1 (by decide)
        | cons c text =>
            rw [← (List.cons.inj same).1] at unmarked
            exact unmarked.2 List.mem_cons_self
      rw [inside_cons, List.append_assoc] at same
      cases piece with
      | short escape => exact absurd same (noEscape _)
      | unicode upper value small => exact absurd same (noEscape _)
      | raw c legal =>
          have first := printable_utf8EncodeChar legal
          have front : ∃ more, text = String.utf8EncodeChar c ++ more ∧
              inside pieces ++ 34 :: rest = more ++ 34 :: later := by
            rcases List.append_eq_append_iff.mp same with
              ⟨more, split, behind⟩ | ⟨more, split, behind⟩
            · exact ⟨more, split, behind⟩
            · cases more with
              | nil =>
                  rw [List.append_nil] at split
                  exact ⟨[], by rw [List.append_nil]; exact split.symm, behind.symm⟩
              | cons d more =>
                  obtain ⟨rfl, _⟩ := List.cons.inj behind
                  have code : String.utf8EncodeChar c = text ++ 34 :: more := split
                  exact absurd (by rw [code]; simp) first.unmarked.1
          obtain ⟨more, rfl, behind⟩ := front
          have unmarkedMore : Unmarked more :=
            ⟨fun quote => unmarked.1 (List.mem_append_right _ quote),
              fun escape => unmarked.2 (List.mem_append_right _ escape)⟩
          obtain ⟨printable, sameRest⟩ := ih unmarkedMore behind
          exact ⟨first.append printable, sameRest⟩

/-! ## Objects of such texts -/

/-- Names and texts put together as members of an object, without escapes. -/
def flatText : List (Bytes × Bytes) → Bytes
  | [] => []
  | [(name, text)] => 34 :: (name ++ 34 :: 58 :: 34 :: (text ++ [34]))
  | (name, text) :: rest =>
      34 :: (name ++ 34 :: 58 :: 34 :: (text ++ 34 :: 44 :: flatText rest))

theorem Space.nil_of_append {space : Space} {c : UInt8} {rest more : Bytes}
    (solid : isSpace c = false) (same : space.text ++ rest = c :: more) :
    space.text = [] ∧ rest = c :: more := by
  cases front : space.text with
  | nil =>
      rw [front] at same
      exact ⟨rfl, same⟩
  | cons first later =>
      rw [front] at same
      have white := space.white first (front ▸ List.mem_cons_self)
      rw [(List.cons.inj same).1, solid] at white
      cases white

/-- A value starts with no space, and with a quote only if it is a string. -/
theorem value_head {text : Bytes} (value : IsValue text) :
    ∃ c rest, text = c :: rest ∧ isSpace c = false ∧
      (c = 34 → ∃ pieces, text = literal pieces) := by
  have other : ∀ {c : UInt8} {rest : Bytes}, isSpace c = false → c ≠ 34 →
      ∃ d more, c :: rest = d :: more ∧ isSpace d = false ∧
        (d = 34 → ∃ pieces, c :: rest = literal pieces) :=
    fun solid notQuote => ⟨_, _, rfl, solid, fun quote => absurd quote notQuote⟩
  cases value with
  | string pieces => exact ⟨34, _, rfl, rfl, fun _ => ⟨pieces, rfl⟩⟩
  | number isNumber =>
      obtain ⟨sign, isInteger, isFraction, isExponent⟩ := isNumber
      rcases sign with rfl | rfl
      · cases isInteger with
        | zero => exact other (by decide) (by decide)
        | @digits c rest low high _ =>
            have above : ∀ mark : UInt8, mark < 49 → c ≠ mark := by
              rintro mark small rfl
              exact absurd low (UInt8.not_le.mpr small)
            have solid : isSpace c = false := by
              simp [isSpace, above 32 (by decide), above 9 (by decide), above 13 (by decide),
                above 10 (by decide)]
            exact other solid (above 34 (by decide))
      · exact other (by decide) (by decide)
  | true => exact other (by decide) (by decide)
  | false => exact other (by decide) (by decide)
  | null => exact other (by decide) (by decide)
  | emptyArray space => exact other (by decide) (by decide)
  | array elements => exact other (by decide) (by decide)
  | emptyObject space => exact other (by decide) (by decide)
  | object members => exact other (by decide) (by decide)

/-- One member of such an object, whatever stands behind it. -/
theorem printable_of_member {beforeKey afterKey before : Space} {key : List Piece}
    {value name text rest later : Bytes} (isValue : IsValue value)
    (unmarkedName : Unmarked name) (unmarked : Unmarked text)
    (same : beforeKey.text ++ (literal key ++ (afterKey.text ++
        58 :: (before.text ++ (value ++ rest)))) =
      34 :: (name ++ 34 :: 58 :: 34 :: (text ++ 34 :: later))) :
    (Printable name ∧ Printable text) ∧ rest = later := by
  obtain ⟨_, keyed⟩ := Space.nil_of_append (by decide) same
  rw [literal, List.cons_append, List.append_assoc] at keyed
  obtain ⟨printableName, behindKey⟩ :=
    printable_of_inside unmarkedName (List.cons.inj keyed).2
  obtain ⟨_, colon⟩ := Space.nil_of_append (by decide) behindKey
  obtain ⟨_, quoted⟩ := Space.nil_of_append (by decide) (List.cons.inj colon).2
  obtain ⟨c, tail, rfl, _, string⟩ := value_head isValue
  obtain ⟨pieces, isLiteral⟩ := string (List.cons.inj quoted).1
  rw [isLiteral, literal, List.cons_append, List.append_assoc] at quoted
  obtain ⟨printable, behind⟩ := printable_of_inside unmarked (List.cons.inj quoted).2
  exact ⟨⟨printableName, printable⟩, behind⟩

theorem printable_of_members {keys : List (List Piece)} {members close later : Bytes}
    {first : Bytes × Bytes} {more : List (Bytes × Bytes)}
    (unmarked : ∀ m ∈ first :: more, Unmarked m.1 ∧ Unmarked m.2)
    (parsed : Members IsValue keys members)
    (same : members ++ 125 :: close = flatText (first :: more) ++ 125 :: later) :
    ∀ m ∈ first :: more, Printable m.1 ∧ Printable m.2 := by
  induction more generalizing first keys members with
  | nil =>
      obtain ⟨unmarkedName, unmarkedText⟩ := unmarked _ List.mem_cons_self
      simp only [flatText, List.cons_append, List.append_assoc, List.nil_append] at same
      cases parsed with
      | last beforeKey afterKey before after key isValue =>
          simp only [List.cons_append, List.append_assoc] at same
          obtain ⟨printable, _⟩ :=
            printable_of_member isValue unmarkedName unmarkedText same
          intro m member
          cases List.mem_singleton.mp member
          exact printable
      | more beforeKey afterKey before after key isValue others =>
          simp only [List.cons_append, List.append_assoc] at same
          obtain ⟨_, behind⟩ := printable_of_member isValue unmarkedName unmarkedText same
          obtain ⟨_, comma⟩ := Space.nil_of_append (by decide) behind
          exact absurd (List.cons.inj comma).1 (by decide)
  | cons next more ih =>
      obtain ⟨unmarkedName, unmarkedText⟩ := unmarked _ List.mem_cons_self
      have unmarkedMore : ∀ m ∈ next :: more, Unmarked m.1 ∧ Unmarked m.2 :=
        fun m member => unmarked m (List.mem_cons_of_mem _ member)
      simp only [flatText, List.cons_append, List.append_assoc] at same
      cases parsed with
      | last beforeKey afterKey before after key isValue =>
          simp only [List.cons_append, List.append_assoc] at same
          obtain ⟨_, behind⟩ := printable_of_member isValue unmarkedName unmarkedText same
          obtain ⟨_, brace⟩ := Space.nil_of_append (by decide) behind
          exact absurd (List.cons.inj brace).1 (by decide)
      | more beforeKey afterKey before after key isValue others =>
          simp only [List.cons_append, List.append_assoc] at same
          obtain ⟨printable, behind⟩ :=
            printable_of_member isValue unmarkedName unmarkedText same
          obtain ⟨_, comma⟩ := Space.nil_of_append (by decide) behind
          have later := ih unmarkedMore others (List.cons.inj comma).2
          intro m member
          rcases List.mem_cons.mp member with rfl | inMore
          · exact printable
          · exact later m inMore

theorem exists_members {first : Bytes × Bytes} {more : List (Bytes × Bytes)}
    (printable : ∀ m ∈ first :: more, Printable m.1 ∧ Printable m.2) :
    ∃ keys, Members IsValue keys (flatText (first :: more)) ∧
      keys.map inside = (first :: more).map Prod.fst := by
  induction more generalizing first with
  | nil =>
      obtain ⟨name, text⟩ := first
      obtain ⟨printableName, printableText⟩ := printable _ List.mem_cons_self
      obtain ⟨key, rfl⟩ := printableName.exists_inside
      obtain ⟨pieces, rfl⟩ := printableText.exists_inside
      have member := Members.last .none .none .none .none key (IsValue.string pieces)
      refine ⟨[key], ?_, rfl⟩
      simpa [flatText, literal, Space.none] using member
  | cons next more ih =>
      obtain ⟨name, text⟩ := first
      obtain ⟨printableName, printableText⟩ := printable _ List.mem_cons_self
      obtain ⟨key, rfl⟩ := printableName.exists_inside
      obtain ⟨pieces, rfl⟩ := printableText.exists_inside
      obtain ⟨keys, others, sameNames⟩ :=
        ih fun m member => printable m (List.mem_cons_of_mem _ member)
      have member := Members.more .none .none .none .none key (IsValue.string pieces) others
      refine ⟨key :: keys, ?_, by rw [List.map_cons, sameNames]; rfl⟩
      simpa [flatText, literal, Space.none] using member

/-- Names and texts put together without escapes make an object exactly if
all of them are printable. -/
theorem isObject_flatText_iff {first : Bytes × Bytes} {more : List (Bytes × Bytes)}
    (unmarked : ∀ m ∈ first :: more, Unmarked m.1 ∧ Unmarked m.2) :
    (∃ keys, IsObject keys (123 :: (flatText (first :: more) ++ [125])) ∧
        keys.map inside = (first :: more).map Prod.fst) ↔
      ∀ m ∈ first :: more, Printable m.1 ∧ Printable m.2 := by
  constructor
  · rintro ⟨keys, object, names⟩
    generalize whole : 123 :: (flatText (first :: more) ++ [125]) = text at object
    cases object with
    | empty before space after => cases names
    | members before after parsed =>
        obtain ⟨_, opened⟩ := Space.nil_of_append (by decide) whole.symm
        exact printable_of_members unmarked parsed (List.cons.inj opened).2
  · intro printable
    obtain ⟨keys, parsed, names⟩ := exists_members printable
    have object := IsObject.members .none .none parsed
    exact ⟨keys, object, names⟩

end Json
