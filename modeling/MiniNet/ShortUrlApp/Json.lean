import MiniNet.Lib.Json
import MiniNet.ShortUrlApp

/-!
# Reading a JSON string

The reader gives back the UTF-8 encoding of what a string literal stands for,
however each of its characters is written.
-/

namespace MiniNet

open Bytes Json

namespace ShortUrlApp

/-! ## Hexadecimal digits -/

theorem hexDigit_hexChar (upper : Bool) {digit : Nat} (small : digit < 16) :
    hexDigit (hexChar upper digit) = some digit := by
  have all : ∀ upper, ∀ digit < 16, hexDigit (hexChar upper digit) = some digit := by
    decide
  exact all upper digit small

theorem hex4_hexText (upper : Fin 4 → Bool) {value : Nat} (small : value < 0x10000)
    (rest : Bytes) : hex4 (hexText upper value ++ rest) = some value := by
  have long : ¬ (hexText upper value ++ rest).length < 4 := by
    simp [hexText]
  have front : (hexText upper value ++ rest).take 4 = hexText upper value := rfl
  have digit : ∀ (u : Bool) (n : Nat), hexDigit (hexChar u (n % 16)) = some (n % 16) :=
    fun u n => hexDigit_hexChar u (Nat.mod_lt n (by decide))
  rw [hex4, if_neg long, front]
  simp only [hexText, List.foldlM_cons, List.foldlM_nil, digit, Option.map_some,
    Option.bind_eq_bind, Option.bind_some, Option.pure_def]
  congr 1
  omega

/-! ## UTF-8 -/

private theorem lead_or :
    (∀ n < 32, 0xC0 ||| n = n + 0xC0) ∧ (∀ n < 16, 0xE0 ||| n = n + 0xE0) ∧
      (∀ n < 8, 0xF0 ||| n = n + 0xF0) ∧ ∀ n < 64, 0x80 ||| n = n + 0x80 := by
  decide

private theorem continuation (n : Nat) : 0x80 ||| n &&& 0x3F = n % 64 + 0x80 := by
  have low : n &&& 0x3F = n % 64 := Nat.and_two_pow_sub_one_eq_mod n 6
  rw [low]
  exact lead_or.2.2.2 _ (Nat.mod_lt n (by decide))

theorem toNat_lt (c : Char) : c.toNat < 0x110000 := by
  rcases c.valid with below | above
  · exact Nat.lt_trans below (by decide)
  · exact above.2

theorem appendUtf8_toNat (out : Bytes) (c : Char) :
    appendUtf8 out c.toNat = out ++ String.utf8EncodeChar c := by
  have value : c.val.toNat = c.toNat := rfl
  have top := toNat_lt c
  unfold appendUtf8 String.utf8EncodeChar
  simp only [value, continuation, Nat.shiftRight_eq_div_pow]
  split
  · rfl
  · split
    · rw [lead_or.1 _ (by omega), Nat.mod_eq_of_lt (show c.toNat / 64 < 32 by omega)]
    · split
      · rw [lead_or.2.1 _ (by omega),
          Nat.mod_eq_of_lt (show c.toNat / 4096 < 16 by omega)]
      · rw [lead_or.2.2.1 _ (by omega),
          Nat.mod_eq_of_lt (show c.toNat / 262144 < 8 by omega)]

/-! ## One written character -/

/-- Octets that are neither a quote nor a backslash are taken as they are. -/
theorem readString_raw {text : Bytes} (rest value : Bytes) (noQuote : 34 ∉ text)
    (noEscape : 92 ∉ text) :
    readString (text ++ rest) value = readString rest (value ++ text) := by
  induction text generalizing value with
  | nil => rw [List.nil_append, List.append_nil]
  | cons c text ih =>
      obtain ⟨notQuote, noQuote⟩ := List.ne_and_not_mem_of_not_mem_cons noQuote
      obtain ⟨notEscape, noEscape⟩ := List.ne_and_not_mem_of_not_mem_cons noEscape
      rw [List.cons_append, readString]
      · rw [ih _ noQuote noEscape, List.append_assoc]
        rfl
      · exact fun same => notQuote same.symm
      · exact fun _ same => absurd same.symm notEscape
      · exact fun _ _ same => absurd same.symm notEscape

theorem readString_escape {c : UInt8} (notUnicode : c ≠ 117) (text value : Bytes) :
    readString (92 :: c :: text) value = readString text (value ++ [unescaped c]) := by
  rw [readString]
  exact fun same => notUnicode same

theorem readString_short (escape : ShortEscape) (rest value : Bytes) :
    readString (92 :: escape.letter :: rest) value =
      readString rest (value ++ String.utf8EncodeChar escape.char) := by
  have stands : [unescaped escape.letter] = String.utf8EncodeChar escape.char := by
    cases escape <;> decide
  have notUnicode : escape.letter ≠ 117 := by
    cases escape <;> decide
  rw [readString_escape notUnicode, stands]

theorem readString_unicode {c : Char} (basic : c.toNat < 0x10000)
    (upper : Fin 4 → Bool) (rest value : Bytes) :
    readString (92 :: 117 :: (hexText upper c.toNat ++ rest)) value =
      readString rest (value ++ String.utf8EncodeChar c) := by
  have alone : lowSurrogate? c.toNat rest = none := by
    unfold lowSurrogate?
    rw [if_neg]
    rintro ⟨low, high⟩
    rcases c.valid with below | above
    · exact absurd (show c.toNat < 0xD800 from below) (by omega)
    · exact absurd (show 0xDFFF < c.toNat from above.1) (by omega)
  have behind : (hexText upper c.toNat ++ rest).drop 4 = rest := rfl
  rw [readString, hex4_hexText upper basic]
  simp only [behind, alone]
  rw [appendUtf8_toNat]

theorem lowSurrogate?_hexText {high low : Nat} (isHigh : 0xD800 ≤ high ∧ high ≤ 0xDBFF)
    (isLow : 0xDC00 ≤ low ∧ low ≤ 0xDFFF) (upper : Fin 4 → Bool) (rest : Bytes) :
    lowSurrogate? high (92 :: 117 :: (hexText upper low ++ rest)) = some low := by
  have small : low < 0x10000 := Nat.lt_of_le_of_lt isLow.2 (by decide)
  rw [lowSurrogate?, if_pos isHigh]
  simp only [hex4_hexText upper small]
  rw [Option.filter_some, if_pos (decide_eq_true isLow)]

theorem readString_surrogates {c : Char} {high low : Nat}
    (isHigh : 0xD800 ≤ high ∧ high ≤ 0xDBFF) (isLow : 0xDC00 ≤ low ∧ low ≤ 0xDFFF)
    (joined : 0x10000 + (high - 0xD800) <<< 10 + (low - 0xDC00) = c.toNat)
    (upperHigh upperLow : Fin 4 → Bool) (rest value : Bytes) :
    readString (92 :: 117 :: (hexText upperHigh high ++
        92 :: 117 :: (hexText upperLow low ++ rest))) value =
      readString rest (value ++ String.utf8EncodeChar c) := by
  have small : high < 0x10000 := Nat.lt_of_le_of_lt isHigh.2 (by decide)
  have second : (hexText upperHigh high ++
      92 :: 117 :: (hexText upperLow low ++ rest)).drop 4 =
        92 :: 117 :: (hexText upperLow low ++ rest) := rfl
  have behind : (hexText upperHigh high ++
      92 :: 117 :: (hexText upperLow low ++ rest)).drop 10 = rest := rfl
  rw [readString, hex4_hexText upperHigh small]
  simp only [second, behind, lowSurrogate?_hexText isHigh isLow, joined]
  rw [appendUtf8_toNat]

/-- The two surrogates of a supplementary character. -/
theorem surrogates_of_supplementary {c : Char} (supplementary : 0x10000 ≤ c.toNat) :
    (0xD800 ≤ 0xD800 + (c.toNat - 0x10000) / 0x400 ∧
        0xD800 + (c.toNat - 0x10000) / 0x400 ≤ 0xDBFF) ∧
      (0xDC00 ≤ 0xDC00 + (c.toNat - 0x10000) % 0x400 ∧
        0xDC00 + (c.toNat - 0x10000) % 0x400 ≤ 0xDFFF) ∧
      0x10000 + (0xD800 + (c.toNat - 0x10000) / 0x400 - 0xD800) <<< 10 +
        (0xDC00 + (c.toNat - 0x10000) % 0x400 - 0xDC00) = c.toNat := by
  have top := toNat_lt c
  rw [Nat.shiftLeft_eq]
  refine ⟨⟨?_, ?_⟩, ⟨?_, ?_⟩, ?_⟩ <;> omega

theorem readString_text (w : Written) (rest value : Bytes) :
    readString (w.text ++ rest) value =
      readString rest (value ++ String.utf8EncodeChar w.char) := by
  cases w with
  | raw c plain =>
      exact readString_raw rest value
        (notMem_utf8EncodeChar plain.1 (by decide) (by decide))
        (notMem_utf8EncodeChar plain.2 (by decide) (by decide))
  | short escape => exact readString_short escape rest value
  | unicode c basic upper => exact readString_unicode basic upper rest value
  | surrogates c supplementary upperHigh upperLow =>
      obtain ⟨isHigh, isLow, joined⟩ := surrogates_of_supplementary supplementary
      have read := readString_surrogates isHigh isLow joined upperHigh upperLow rest value
      simp only [Written.text, Written.char, List.append_assoc, List.cons_append] at read ⊢
      exact read

/-! ## Whole strings -/

/-- A literal is read up to its closing quote and decoded. -/
theorem readString_content (written : List Written) (rest value : Bytes) :
    readString (content written ++ 34 :: rest) value =
      .ok (value ++ utf8 (decoded written)) := by
  induction written generalizing value with
  | nil =>
      rw [show content [] = [] from rfl, List.nil_append, readString]
      rw [show utf8 (decoded []) = [] from rfl, List.append_nil]
  | cons w written ih =>
      rw [content_cons, List.append_assoc, readString_text, ih, decoded_cons, utf8_cons,
        List.append_assoc]

/-! ## The field of an object -/

/-- What the reader does with the text behind the quoted key. -/
def field (key rest : Bytes) : Except Bytes Bytes :=
  match cut? 58 rest with
  | none => .error (lit "字段格式非法")
  | some (_, rest) =>
      match rest.dropWhile isBlank with
      | 34 :: text => readString text []
      | _ => .error (lit "字段 " ++ key ++ lit " 必须是字符串")

/-- Between braces the reader goes by the first occurrence of the quoted key. -/
theorem jsonExtractString_eq {body : Bytes}
    (opened : (body.dropWhile isSpace).head? = some 123)
    (closed : (body.rdropWhile isSpace).getLast? = some 125) (key : Bytes) :
    jsonExtractString body key =
      match after? (34 :: (key ++ [34])) body with
      | none => .error (lit "缺少字段 " ++ key)
      | some rest => field key rest := by
  have spaces : jsonSpace = isSpace := rfl
  have needle : lit "\"" ++ key ++ lit "\"" = 34 :: (key ++ [34]) := rfl
  rw [jsonExtractString, spaces]
  simp only [opened, closed, ne_eq, not_true_eq_false, or_self, if_false, needle, after?]
  cases find? (34 :: (key ++ [34])) body with
  | none => rfl
  | some place => rfl

theorem jsonExtractString_braces (before after : Space) (inner key : Bytes) :
    jsonExtractString (before.text ++ 123 :: (inner ++ 125 :: after.text)) key =
      match after? (34 :: (key ++ [34])) (before.text ++ 123 :: (inner ++ 125 :: after.text)) with
      | none => .error (lit "缺少字段 " ++ key)
      | some rest => field key rest := by
  generalize whole : before.text ++ 123 :: (inner ++ 125 :: after.text) = body
  have opened : (body.dropWhile isSpace).head? = some 123 := by
    rw [← whole, List.dropWhile_append_of_pos before.white]
    rfl
  have closed : (body.rdropWhile isSpace).getLast? = some 125 := by
    have regroup : body = (before.text ++ 123 :: inner ++ [125]) ++ after.text := by
      simp only [← whole, List.append_assoc, List.cons_append, List.nil_append]
    have ended : body.rdropWhile isSpace = before.text ++ 123 :: inner ++ [125] := by
      rw [regroup, List.rdropWhile, List.reverse_append,
        List.dropWhile_append_of_pos fun c member => after.white c (List.mem_reverse.mp member)]
      rw [← List.rdropWhile, List.rdropWhile_concat_neg _ _ _ (by decide)]
    rw [ended, List.getLast?_concat]
  exact jsonExtractString_eq opened closed key

theorem jsonExtractString_after {inner key rest : Bytes}
    (found : after? (34 :: (key ++ [34])) (123 :: (inner ++ [125])) = some rest) :
    jsonExtractString (123 :: (inner ++ [125])) key = field key rest := by
  have reads := jsonExtractString_braces .none .none inner key
  simp only [Space.none, List.nil_append, found] at reads
  exact reads

theorem field_string (key : Bytes) (space : Space) (blank : Blank) (written : List Written)
    (rest : Bytes) :
    field key (space.text ++ 58 :: (blank.text ++ (quoted written ++ rest))) =
      .ok (utf8 (decoded written)) := by
  have noColon : 58 ∉ space.text := space.notMem (by decide)
  have found : (blank.text ++ (quoted written ++ rest)).dropWhile isBlank =
      34 :: (content written ++ 34 :: rest) := by
    rw [List.dropWhile_append_of_pos blank.white, quoted, List.append_assoc]
    rfl
  rw [field, cut?_append _ noColon]
  simp only [found]
  rw [readString_content, List.nil_append]

/-- However a string is written in the one field of an object, the reader
returns the UTF-8 encoding of what it stands for. -/
theorem jsonExtractString_written (before inside afterKey close after : Space)
    (blank : Blank) (written : List Written) :
    jsonExtractString
        (before.text ++ lit "\x7b" ++ inside.text ++ lit "\"url\"" ++ afterKey.text ++ lit ":" ++
          blank.text ++ quoted written ++ close.text ++ lit "\x7d" ++ after.text)
        (lit "url") =
      .ok (utf8 (decoded written)) := by
  let value := blank.text ++ (quoted written ++ (close.text ++ 125 :: after.text))
  let inner := inside.text ++ lit "\"url\"" ++ afterKey.text ++ lit ":" ++ blank.text ++
    quoted written ++ close.text
  have noQuote : ∀ space : Space, 34 ∉ space.text := fun space => space.notMem (by decide)
  have grouped : before.text ++ lit "\x7b" ++ inside.text ++ lit "\"url\"" ++ afterKey.text ++
      lit ":" ++ blank.text ++ quoted written ++ close.text ++ lit "\x7d" ++ after.text =
        before.text ++ 123 :: (inner ++ 125 :: after.text) := by
    simp only [inner, List.append_assoc]
    rfl
  have front : before.text ++ 123 :: (inner ++ 125 :: after.text) =
      (before.text ++ 123 :: inside.text) ++
        (34 :: (lit "url" ++ [34]) ++ (afterKey.text ++ 58 :: value)) := by
    simp only [inner, value, List.append_assoc, List.cons_append]
    rfl
  have absent : 34 ∉ before.text ++ 123 :: inside.text := by
    simp only [List.mem_append, List.mem_cons, not_or]
    exact ⟨noQuote before, by decide, noQuote inside⟩
  have found : after? (34 :: (lit "url" ++ [34]))
      (before.text ++ 123 :: (inner ++ 125 :: after.text)) =
        some (afterKey.text ++ 58 :: value) := by
    rw [front, after?_skip absent, after?_append]
  rw [grouped, jsonExtractString_braces, found]
  exact field_string _ afterKey blank written _

end ShortUrlApp

end MiniNet
