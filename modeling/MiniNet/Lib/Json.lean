import MiniNet.Lib.Bytes

/-!
# JSON strings as they may be written

A character has several JSON spellings: its UTF-8 octets, a short escape, a
`\u` escape in digits of either case, and a pair of surrogate escapes beyond
the basic plane.  A `Written` is a character together with one of them, so a
list of `Written` ranges over the texts of all strings.
-/

namespace Json

/-- The UTF-8 encoding of a sequence of scalar values. -/
def utf8 (text : List Char) : Bytes := text.flatMap String.utf8EncodeChar

/-- The characters that have a two-character escape. -/
inductive ShortEscape where
  | quote
  | backslash
  | slash
  | backspace
  | formFeed
  | lineFeed
  | carriageReturn
  | tab
  deriving DecidableEq

/-- The character behind the backslash. -/
def ShortEscape.letter : ShortEscape → UInt8
  | .quote => 34
  | .backslash => 92
  | .slash => 47
  | .backspace => 98
  | .formFeed => 102
  | .lineFeed => 110
  | .carriageReturn => 114
  | .tab => 116

def ShortEscape.char : ShortEscape → Char
  | .quote => '"'
  | .backslash => '\\'
  | .slash => '/'
  | .backspace => Char.ofNat 8
  | .formFeed => Char.ofNat 12
  | .lineFeed => '\n'
  | .carriageReturn => '\r'
  | .tab => '\t'

/-- A hexadecimal digit in the chosen case. -/
def hexChar (upper : Bool) (digit : Nat) : UInt8 :=
  if digit < 10 then UInt8.ofNat (48 + digit)
  else if upper then UInt8.ofNat (55 + digit)
  else UInt8.ofNat (87 + digit)

/-- Four hexadecimal digits, each in the case chosen for it. -/
def hexText (upper : Fin 4 → Bool) (value : Nat) : Bytes :=
  [hexChar (upper 0) (value / 4096 % 16), hexChar (upper 1) (value / 256 % 16),
    hexChar (upper 2) (value / 16 % 16), hexChar (upper 3) (value % 16)]

/-- A character and one way of writing it inside a JSON string. -/
inductive Written where
  | raw (c : Char) (plain : c ≠ '"' ∧ c ≠ '\\')
  | short (escape : ShortEscape)
  | unicode (c : Char) (basic : c.toNat < 0x10000) (upper : Fin 4 → Bool)
  | surrogates (c : Char) (supplementary : 0x10000 ≤ c.toNat)
      (upperHigh upperLow : Fin 4 → Bool)

namespace Written

def char : Written → Char
  | .raw c _ => c
  | .short escape => escape.char
  | .unicode c _ _ => c
  | .surrogates c _ _ _ => c

def text : Written → Bytes
  | .raw c _ => String.utf8EncodeChar c
  | .short escape => [92, escape.letter]
  | .unicode c _ upper => 92 :: 117 :: hexText upper c.toNat
  | .surrogates c _ upperHigh upperLow =>
      92 :: 117 :: hexText upperHigh (0xD800 + (c.toNat - 0x10000) / 0x400) ++
        92 :: 117 :: hexText upperLow (0xDC00 + (c.toNat - 0x10000) % 0x400)

end Written

/-- The characters a written text stands for. -/
def decoded (written : List Written) : List Char := written.map Written.char

/-- The octets of a written text. -/
def content (written : List Written) : Bytes := written.flatMap Written.text

/-- A string literal. -/
def quoted (written : List Written) : Bytes := 34 :: content written ++ [34]

/-! ## White space -/

def isSpace (c : UInt8) : Bool := c == 32 || c == 9 || c == 13 || c == 10

def isBlank (c : UInt8) : Bool := c == 32 || c == 9

/-- JSON white space. -/
structure Space where
  text : Bytes
  white : ∀ c ∈ text, isSpace c = true

/-- No white space. -/
def Space.none : Space where
  text := []
  white := fun _ member => absurd member List.not_mem_nil

/-- Spaces and tabs. -/
structure Blank where
  text : Bytes
  white : ∀ c ∈ text, isBlank c = true

theorem Space.notMem (space : Space) {c : UInt8} (solid : isSpace c = false) :
    c ∉ space.text := by
  intro member
  rw [space.white c member] at solid
  cases solid

/-! ## Flat objects -/

/-- Control characters have to be escaped. -/
def Written.Legal : Written → Prop
  | .raw c _ => 0x20 ≤ c.toNat
  | _ => True

instance : (w : Written) → Decidable w.Legal
  | .raw c _ => inferInstanceAs (Decidable (0x20 ≤ c.toNat))
  | .short _ => isTrue trivial
  | .unicode _ _ _ => isTrue trivial
  | .surrogates _ _ _ _ => isTrue trivial

/-- A key and a string value, with the white space around them. -/
structure Member where
  beforeKey : Space
  key : List Written
  afterKey : Space
  beforeValue : Space
  value : List Written
  afterValue : Space
  legal : ∀ w ∈ key ++ value, w.Legal

/-- The text of a member behind its key. -/
def Member.tail (m : Member) : Bytes :=
  m.afterKey.text ++ 58 :: (m.beforeValue.text ++ (quoted m.value ++ m.afterValue.text))

def Member.text (m : Member) : Bytes := m.beforeKey.text ++ (quoted m.key ++ m.tail)

/-- The members behind the first one, each with its comma. -/
def following (members : List Member) : Bytes :=
  members.flatMap fun m => 44 :: m.text

/-- A flat object: members with string values and distinct keys.  `inside` is
the white space between the braces when there are no members.  Strings are made
of scalar values: those in which one half of a surrogate pair stands alone, as
`\ud800`, are left out, for they have no value in UTF-8. -/
structure FlatObject where
  before : Space
  inside : Space
  members : List Member
  after : Space
  distinct : (members.map fun m => decoded m.key).Nodup

def FlatObject.inner (o : FlatObject) : Bytes :=
  match o.members with
  | [] => o.inside.text
  | m :: rest => m.text ++ following rest

def FlatObject.text (o : FlatObject) : Bytes :=
  o.before.text ++ 123 :: (o.inner ++ 125 :: o.after.text)

/-! ## Octets of the spellings -/

theorem utf8_cons (c : Char) (text : List Char) :
    utf8 (c :: text) = String.utf8EncodeChar c ++ utf8 text :=
  List.flatMap_cons

theorem decoded_cons (w : Written) (rest : List Written) :
    decoded (w :: rest) = w.char :: decoded rest :=
  List.map_cons

theorem content_cons (w : Written) (rest : List Written) :
    content (w :: rest) = w.text ++ content rest :=
  List.flatMap_cons

private theorem ofNat_ge {n : Nat} (low : 128 ≤ n) (high : n < 256) :
    128 ≤ (UInt8.ofNat n).toNat := by
  rw [UInt8.toNat_ofNat', Nat.mod_eq_of_lt high]
  exact low

/-- An octet below 128 in an encoding is the character itself. -/
theorem eq_of_mem_utf8EncodeChar {c : Char} {octet : UInt8}
    (member : octet ∈ String.utf8EncodeChar c) (ascii : octet.toNat < 128) :
    String.utf8EncodeChar c = [octet] ∧ c.toNat = octet.toNat := by
  have long : ∀ {n : Nat}, 128 ≤ n → n < 256 → octet ≠ UInt8.ofNat n := by
    rintro n low high rfl
    exact absurd (ofNat_ge low high) (by omega)
  unfold String.utf8EncodeChar at member ⊢
  simp only at member ⊢
  split at member
  · rename_i small
    cases List.mem_singleton.mp member
    have same : (UInt8.ofNat c.val.toNat).toNat = c.val.toNat := by
      rw [UInt8.toNat_ofNat', Nat.mod_eq_of_lt (by omega)]
    rw [if_pos small]
    exact ⟨rfl, same.symm⟩
  · exfalso
    split at member
    · simp only [List.mem_cons, List.not_mem_nil, or_false] at member
      rcases member with same | same
      · exact long (by omega) (by omega) same
      · exact long (by omega) (by omega) same
    · split at member
      · simp only [List.mem_cons, List.not_mem_nil, or_false] at member
        rcases member with same | same | same
        · exact long (by omega) (by omega) same
        · exact long (by omega) (by omega) same
        · exact long (by omega) (by omega) same
      · simp only [List.mem_cons, List.not_mem_nil, or_false] at member
        rcases member with same | same | same | same
        · exact long (by omega) (by omega) same
        · exact long (by omega) (by omega) same
        · exact long (by omega) (by omega) same
        · exact long (by omega) (by omega) same

/-- A character other than an ASCII one has no such octet in its encoding. -/
theorem notMem_utf8EncodeChar {c mark : Char} {octet : UInt8} (different : c ≠ mark)
    (ascii : octet.toNat < 128) (code : mark.toNat = octet.toNat) :
    octet ∉ String.utf8EncodeChar c := by
  intro member
  have same := (eq_of_mem_utf8EncodeChar member ascii).2
  exact different (Char.toNat_inj.mp (same.trans code.symm))

theorem notMem_hexText (upper : Fin 4 → Bool) (value : Nat) : 34 ∉ hexText upper value := by
  have digits : ∀ upper, ∀ digit < 16, 34 ≠ hexChar upper digit := by decide
  have digit : ∀ (u : Bool) (n : Nat), 34 ≠ hexChar u (n % 16) :=
    fun u n => digits u _ (Nat.mod_lt n (by decide))
  simp only [hexText, List.mem_cons, List.not_mem_nil, or_false, not_or]
  exact ⟨digit _ _, digit _ _, digit _ _, digit _ _⟩

/-! ## Quotes inside a literal

A quote inside a literal stands behind a backslash. -/

/-- Two neighbours of which the second is no quote or the first a backslash. -/
def Escaped (first second : UInt8) : Prop := second = 34 → first = 92

theorem isChain_of_notMem {text : Bytes} (absent : 34 ∉ text) : text.IsChain Escaped := by
  induction text with
  | nil => exact .nil
  | cons c text ih =>
      obtain ⟨_, later⟩ := List.ne_and_not_mem_of_not_mem_cons absent
      refine List.isChain_cons.mpr ⟨?_, ih later⟩
      intro d isHead quote
      subst quote
      exact absurd (List.mem_of_mem_head? isHead) later

theorem Written.text_escaped (w : Written) :
    w.text.IsChain Escaped ∧ ∀ c ∈ w.text.head?, c ≠ 34 := by
  cases w with
  | raw c plain =>
      have absent : 34 ∉ String.utf8EncodeChar c :=
        notMem_utf8EncodeChar plain.1 (by decide) (by decide)
      refine ⟨isChain_of_notMem absent, ?_⟩
      rintro d isHead rfl
      exact absent (List.mem_of_mem_head? isHead)
  | short escape =>
      refine ⟨List.isChain_pair.mpr fun _ => rfl, ?_⟩
      rintro c ⟨rfl⟩
      decide
  | unicode c basic upper =>
      refine ⟨isChain_of_notMem ?_, ?_⟩
      · simpa [Written.text] using notMem_hexText upper c.toNat
      · rintro c ⟨rfl⟩
        decide
  | surrogates c supplementary upperHigh upperLow =>
      refine ⟨isChain_of_notMem ?_, ?_⟩
      · have high := notMem_hexText upperHigh (0xD800 + (c.toNat - 0x10000) / 0x400)
        have low := notMem_hexText upperLow (0xDC00 + (c.toNat - 0x10000) % 0x400)
        simp only [Written.text, List.mem_append, List.mem_cons, not_or]
        exact ⟨⟨by decide, by decide, high⟩, by decide, by decide, low⟩
      · rintro c ⟨rfl⟩
        decide

theorem content_escaped (written : List Written) :
    (content written).IsChain Escaped ∧ ∀ c ∈ (content written).head?, c ≠ 34 := by
  induction written with
  | nil => exact ⟨.nil, fun _ none => (by cases none)⟩
  | cons w written ih =>
      obtain ⟨here, start⟩ := w.text_escaped
      rw [content_cons]
      refine ⟨List.isChain_append.mpr ⟨here, ih.1, ?_⟩, ?_⟩
      · intro _ _ d isHead quote
        exact absurd quote (ih.2 d isHead)
      · rw [List.head?_append]
        intro c isHead
        rcases Option.or_eq_some_iff.mp isHead with mine | ⟨_, later⟩
        · exact start c mine
        · exact ih.2 c later

/-- The opening quote included, every further quote of a literal is escaped. -/
theorem cons_content_escaped (c : UInt8) (written : List Written) :
    (c :: content written).IsChain Escaped := by
  obtain ⟨chain, start⟩ := content_escaped written
  refine List.isChain_cons.mpr ⟨?_, chain⟩
  intro d isHead quote
  exact absurd quote (start d isHead)

end Json
