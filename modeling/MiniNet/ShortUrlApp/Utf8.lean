import MiniNet.Lib.Utf8
import MiniNet.ShortUrlApp.Tokens

/-!
# Decoded values and UTF-8

A raw character of more than one octet is taken octet by octet, and its later
octets cannot be escaped, so characters are never torn.  Every escape stands
for one character, too, except half a surrogate pair without the other half:
the reader encodes it like a character, and what it returns is not UTF-8.
-/

namespace MiniNet

open Bytes Json

namespace ShortUrlApp

/-- The token is the escape of half a surrogate pair. -/
def Token.IsSurrogate : Token → Prop
  | .unicode _ value _ => IsHigh value ∨ IsLow value
  | _ => False

/-- Halves of surrogate pairs occur in pairs only. -/
inductive Paired : List Token → Prop
  | nil : Paired []
  | single {token : Token} {rest : List Token} :
      ¬token.IsSurrogate → Paired rest → Paired (token :: rest)
  | pair {upperHigh upperLow : Fin 4 → Bool} {high low : Nat} {smallHigh : high < 0x10000}
      {smallLow : low < 0x10000} {rest : List Token} : IsHigh high → IsLow low → Paired rest →
      Paired (.unicode upperHigh high smallHigh :: .unicode upperLow low smallLow :: rest)

theorem paired_cons_iff {token : Token} (notSurrogate : ¬token.IsSurrogate)
    (rest : List Token) : Paired (token :: rest) ↔ Paired rest := by
  constructor
  · intro paired
    cases paired with
    | single _ later => exact later
    | pair isHigh _ _ => exact absurd (.inl isHigh) notSurrogate
  · exact .single notSurrogate

theorem paired_pair_iff {upperHigh upperLow : Fin 4 → Bool} {high low : Nat}
    {smallHigh : high < 0x10000} {smallLow : low < 0x10000} (isHigh : IsHigh high)
    (isLow : IsLow low) (rest : List Token) :
    Paired (.unicode upperHigh high smallHigh :: .unicode upperLow low smallLow :: rest) ↔
      Paired rest := by
  constructor
  · intro paired
    cases paired with
    | single notSurrogate _ => exact absurd (.inl isHigh) notSurrogate
    | pair _ _ later => exact later
  · exact .pair isHigh isLow

/-- A half without the other one is not paired. -/
theorem not_paired_of_alone {upper : Fin 4 → Bool} {value : Nat} {small : value < 0x10000}
    {rest : List Token} (surrogate : IsHigh value ∨ IsLow value)
    (alone : lowHalf? value rest = none) : ¬Paired (.unicode upper value small :: rest) := by
  intro paired
  cases paired with
  | single notSurrogate _ => exact notSurrogate surrogate
  | pair isHigh isLow _ =>
      rw [lowHalf?, if_pos ⟨isHigh, isLow⟩] at alone
      cases alone

/-! ## Raw characters -/

/-- Octets that are not ASCII are tokens of their own. -/
theorem octets_of_append {tail more rest : Bytes} {tokens : List Token}
    (high : ∀ c ∈ tail, 128 ≤ c.toNat)
    (same : spelled tokens ++ 34 :: rest = tail ++ more) :
    ∃ later, later.length ≤ tokens.length ∧ spelled later ++ 34 :: rest = more ∧
      standsFor tokens = tail ++ standsFor later ∧ (Paired tokens ↔ Paired later) := by
  induction tail generalizing tokens with
  | nil => exact ⟨tokens, le_rfl, same, rfl, Iff.rfl⟩
  | cons c tail ih =>
      have first : 128 ≤ c.toNat := high c List.mem_cons_self
      have notAscii : ∀ mark : UInt8, mark.toNat < 128 → mark ≠ c := by
        rintro mark ascii rfl
        omega
      cases tokens with
      | nil => exact absurd (List.cons.inj same).1 (notAscii 34 (by decide))
      | cons token tokens =>
          cases token with
          | octet d plain =>
              obtain ⟨rfl, behind⟩ := List.cons.inj same
              obtain ⟨later, size, text, value, paired⟩ :=
                ih (fun c member => high c (List.mem_cons_of_mem d member)) behind
              have notSurrogate : ¬(Token.octet d plain).IsSurrogate := id
              refine ⟨later, size.trans (Nat.le_succ _), text, ?_, ?_⟩
              · rw [standsFor, value, List.cons_append]
              · exact (paired_cons_iff notSurrogate tokens).trans paired
          | escape d notUnicode =>
              exact absurd (List.cons.inj same).1 (notAscii 92 (by decide))
          | unicode upper value small =>
              exact absurd (List.cons.inj same).1 (notAscii 92 (by decide))

/-- An octet in front of tokens belongs to a character whose other octets are
tokens. -/
theorem char_of_cons {c : UInt8} {tokens : List Token} {rest : Bytes}
    (valid : IsUtf8 (c :: (spelled tokens ++ 34 :: rest))) :
    ∃ ch tail later, String.utf8EncodeChar ch = c :: tail ∧
      later.length ≤ tokens.length ∧ IsUtf8 (spelled later ++ 34 :: rest) ∧
      standsFor tokens = tail ++ standsFor later ∧ (Paired tokens ↔ Paired later) := by
  obtain ⟨ch, tail, more, code, split, validMore⟩ := valid.cons_cases
  obtain ⟨later, size, text, value, paired⟩ := octets_of_append (tail_not_ascii code) split
  exact ⟨ch, tail, later, code, size, text ▸ validMore, value, paired⟩

/-- The character an escape stands for, if one octet of it is escaped. -/
theorem exists_unescaped {ch : Char} {c : UInt8} {tail : Bytes}
    (code : String.utf8EncodeChar ch = c :: tail) :
    ∃ ch', String.utf8EncodeChar ch' = unescaped c :: tail := by
  by_cases ascii : c.toNat < 128
  · have single := (eq_of_mem_utf8EncodeChar (code ▸ List.mem_cons_self) ascii).1
    rw [code] at single
    obtain ⟨_, rfl⟩ := List.cons.inj single
    have all : ∀ n < 128, (unescaped (UInt8.ofNat n)).toNat < 128 := by decide
    have still := all c.toNat ascii
    rw [UInt8.ofNat_toNat] at still
    exact exists_ascii still
  · have other : ∀ mark : UInt8, mark.toNat < 128 → c ≠ mark := by
      rintro mark small rfl
      exact ascii small
    have same : unescaped c = c := by
      rw [unescaped, if_neg (other _ (by decide)), if_neg (other _ (by decide)),
        if_neg (other _ (by decide)), if_neg (other _ (by decide)),
        if_neg (other _ (by decide))]
    exact ⟨ch, same.symm ▸ code⟩

/-- An octet that stands for `d` can be cut off together with the other octets
of its character. -/
theorem isUtf8_cons_standsFor_iff {c d : UInt8} {tokens : List Token} {rest : Bytes}
    (valid : IsUtf8 (c :: (spelled tokens ++ 34 :: rest)))
    (meant : ∀ {ch tail}, String.utf8EncodeChar ch = c :: tail →
      ∃ other, String.utf8EncodeChar other = d :: tail)
    (shorter : ∀ later : List Token, later.length ≤ tokens.length →
      IsUtf8 (spelled later ++ 34 :: rest) → (IsUtf8 (standsFor later) ↔ Paired later)) :
    IsUtf8 (d :: standsFor tokens) ↔ Paired tokens := by
  obtain ⟨ch, tail, later, code, size, validLater, value, paired⟩ := char_of_cons valid
  obtain ⟨other, codeOther⟩ := meant code
  rw [value, ← List.cons_append, ← codeOther, isUtf8_append_iff, paired]
  exact shorter later size validLater

/-! ## Escapes -/

/-- What follows a `\u` escape is UTF-8 if the whole is. -/
theorem isUtf8_behind_hexText {upper : Fin 4 → Bool} {value : Nat} {text : Bytes}
    (valid : IsUtf8 (92 :: 117 :: (hexText upper value ++ text))) : IsUtf8 text := by
  have ascii : ∀ upper, ∀ digit < 16, (hexChar upper digit).toNat < 128 := by decide
  have front : 92 :: 117 :: (hexText upper value ++ text) =
      (92 :: 117 :: (hexText upper value).take 3) ++
        hexChar (upper 3) (value % 16) :: text := rfl
  rw [front] at valid
  exact (valid.cut (ascii _ _ (Nat.mod_lt value (by decide)))).2

/-- Half a surrogate pair is encoded to octets no character has. -/
theorem appendUtf8_surrogate {value : Nat} (surrogate : IsHigh value ∨ IsLow value) :
    ∃ octet more, appendUtf8 [] value = 0xED :: octet :: more ∧ 0xA0 ≤ octet.toNat := by
  have bounds : 0xD800 ≤ value ∧ value ≤ 0xDFFF := by
    rcases surrogate with isHigh | isLow
    · exact ⟨isHigh.1, isHigh.2.trans (by decide)⟩
    · exact ⟨Nat.le_trans (by decide) isLow.1, isLow.2⟩
  have lead : value >>> 12 = 13 := by
    rw [Nat.shiftRight_eq_div_pow]
    omega
  have second : ∀ n < 64, 32 ≤ n → 0xA0 ≤ (UInt8.ofNat (0x80 ||| n)).toNat := by decide
  have middle : (value >>> 6) &&& 0x3F = value / 64 % 64 := by
    rw [Nat.shiftRight_eq_div_pow]
    exact Nat.and_two_pow_sub_one_eq_mod _ 6
  refine ⟨UInt8.ofNat (0x80 ||| (value >>> 6) &&& 0x3F),
    [UInt8.ofNat (0x80 ||| value &&& 0x3F)], ?_, ?_⟩
  · rw [appendUtf8, if_neg (by omega), if_neg (by omega), if_pos (by omega), lead]
    rfl
  · rw [middle]
    exact second _ (Nat.mod_lt _ (by decide)) (by omega)

/-- Other escapes, and pairs, stand for a character. -/
theorem exists_scalar {value : Nat} (small : value < 0x110000)
    (scalar : ¬(IsHigh value ∨ IsLow value)) :
    ∃ ch, appendUtf8 [] value = String.utf8EncodeChar ch := by
  have valid : value.isValidChar := by
    by_cases below : value < 0xD800
    · exact .inl below
    · refine .inr ⟨?_, small⟩
      by_contra inside
      exact scalar (by unfold IsHigh IsLow; omega)
  refine ⟨Char.ofNatAux value valid, ?_⟩
  rw [← List.nil_append (String.utf8EncodeChar _), ← appendUtf8_toNat]
  rfl

/-- Two halves are joined to a value that is no half itself. -/
theorem joined_scalar {high low : Nat} (isHigh : IsHigh high) (isLow : IsLow low) :
    0x10000 + (high - 0xD800) <<< 10 + (low - 0xDC00) < 0x110000 ∧
      ¬(IsHigh (0x10000 + (high - 0xD800) <<< 10 + (low - 0xDC00)) ∨
        IsLow (0x10000 + (high - 0xD800) <<< 10 + (low - 0xDC00))) := by
  unfold IsHigh IsLow at *
  rw [Nat.shiftLeft_eq]
  omega

/-! ## Whole strings -/

/-- In a text that is UTF-8, tokens stand for UTF-8 exactly if they are
paired. -/
theorem isUtf8_standsFor_iff {tokens : List Token} {rest : Bytes}
    (valid : IsUtf8 (spelled tokens ++ 34 :: rest)) :
    IsUtf8 (standsFor tokens) ↔ Paired tokens := by
  induction size : tokens.length using Nat.strong_induction_on generalizing tokens with
  | _ n ih =>
      cases tokens with
      | nil => exact ⟨fun _ => .nil, fun _ => by rw [standsFor]; exact isUtf8_nil⟩
      | cons token tokens =>
          have less : tokens.length < n := size ▸ Nat.lt_succ_self _
          have shorter : ∀ later : List Token, later.length ≤ tokens.length →
              IsUtf8 (spelled later ++ 34 :: rest) →
                (IsUtf8 (standsFor later) ↔ Paired later) :=
            fun later atMost validLater => ih _ (Nat.lt_of_le_of_lt atMost less) validLater rfl
          rw [spelled_cons, List.append_assoc] at valid
          cases token with
          | octet c plain =>
              have notSurrogate : ¬(Token.octet c plain).IsSurrogate := id
              rw [standsFor, paired_cons_iff notSurrogate]
              exact isUtf8_cons_standsFor_iff valid (fun code => ⟨_, code⟩) shorter
          | escape c notUnicode =>
              have notSurrogate : ¬(Token.escape c notUnicode).IsSurrogate := id
              have behind := (isUtf8_cons_iff (by decide)).mp valid
              rw [standsFor, paired_cons_iff notSurrogate]
              exact isUtf8_cons_standsFor_iff behind exists_unescaped shorter
          | unicode upper value small =>
              have behind := isUtf8_behind_hexText valid
              rw [standsFor]
              cases half : lowHalf? value tokens with
              | some low =>
                  obtain ⟨isHigh, isLow, upperLow, smallLow, more, rfl⟩ :=
                    lowHalf?_eq_some half
                  obtain ⟨inRange, scalar⟩ := joined_scalar isHigh isLow
                  obtain ⟨ch, code⟩ := exists_scalar inRange scalar
                  rw [spelled_cons, List.append_assoc] at behind
                  simp only [List.tail_cons]
                  rw [code, isUtf8_append_iff, paired_pair_iff isHigh isLow]
                  exact shorter more (Nat.le_succ _) (isUtf8_behind_hexText behind)
              | none =>
                  by_cases surrogate : IsHigh value ∨ IsLow value
                  · obtain ⟨octet, more, code, high⟩ := appendUtf8_surrogate surrogate
                    simp only [code, List.cons_append]
                    exact iff_of_false (not_isUtf8_surrogate high)
                      (not_paired_of_alone surrogate half)
                  · have inRange : value < 0x110000 := small.trans (by decide)
                    obtain ⟨ch, code⟩ := exists_scalar inRange surrogate
                    have notSurrogate : ¬(Token.unicode upper value small).IsSurrogate :=
                      surrogate
                    simp only [code]
                    rw [isUtf8_append_iff, paired_cons_iff notSurrogate]
                    exact shorter tokens le_rfl behind

/-- From a body that is UTF-8 the reader gets UTF-8 exactly if, where it looks
for the value, halves of surrogate pairs are escaped in pairs only. -/
theorem decoded_isUtf8_iff {body key : Bytes} (valid : IsUtf8 body) :
    (∀ value, jsonExtractString body key = .ok value → IsUtf8 value) ↔
      ∀ tokens, Placed body key tokens → Paired tokens := by
  have string : ∀ {tokens}, Placed body key tokens →
      ∃ rest, IsUtf8 (spelled tokens ++ 34 :: rest) := by
    rintro tokens ⟨_, _, place, gap, blank, rest, _, _, split⟩
    have whole : body = (body.take (place + (key.length + 2)) ++ (gap ++ 58 :: blank.text)) ++
        34 :: (spelled tokens ++ 34 :: rest) := by
      conv_lhs => rw [← List.take_append_drop (place + (key.length + 2)) body, split]
      simp only [List.append_assoc, List.cons_append]
    rw [whole] at valid
    exact ⟨rest, (valid.cut (by decide)).2⟩
  constructor
  · intro decodes tokens placed
    obtain ⟨rest, validString⟩ := string placed
    have value := decodes _ (jsonExtractString_eq_ok_iff.mpr ⟨tokens, placed, rfl⟩)
    exact (isUtf8_standsFor_iff validString).mp value
  · intro paired value decoded
    obtain ⟨tokens, placed, rfl⟩ := jsonExtractString_eq_ok_iff.mp decoded
    obtain ⟨rest, validString⟩ := string placed
    exact (isUtf8_standsFor_iff validString).mpr (paired tokens placed)

/-- The one character of this url is escaped as a pair. -/
def pairBody : Bytes := lit "\x7b\"url\":\"http://\\ud83d\\ude00\"\x7d"

theorem decoded_isUtf8_iff_pair :
    IsUtf8 pairBody ∧ ∃ tokens, Placed pairBody (lit "url") tokens ∧ Paired tokens := by
  have valid : IsUtf8 pairBody :=
    ⟨"\x7b\"url\":\"http://\\ud83d\\ude00\"\x7d".toList, by decide +kernel⟩
  have decoded : jsonExtractString pairBody (lit "url") = .ok (utf8 "http://😀".toList) := by
    decide +kernel
  have decodes : ∀ value, jsonExtractString pairBody (lit "url") = .ok value → IsUtf8 value := by
    intro value other
    exact ⟨_, Except.ok.inj (decoded.symm.trans other)⟩
  obtain ⟨tokens, placed, _⟩ := jsonExtractString_eq_ok_iff.mp decoded
  exact ⟨valid, tokens, placed, (decoded_isUtf8_iff valid).mp decodes tokens placed⟩

/-- This url has one half of a pair. -/
def loneBody : Bytes := lit "\x7b\"url\":\"http://\\ud800\"\x7d"

/-- The half becomes three octets that are no UTF-8. -/
theorem decoded_not_isUtf8 :
    ¬∀ body key value, IsUtf8 body → jsonExtractString body key = .ok value → IsUtf8 value := by
  intro decodes
  have valid : IsUtf8 loneBody :=
    ⟨"\x7b\"url\":\"http://\\ud800\"\x7d".toList, by decide +kernel⟩
  have decoded : jsonExtractString loneBody (lit "url") =
      .ok (lit "http:/" ++ 47 :: [0xED, 0xA0, 0x80]) := by
    decide +kernel
  have rest := (decodes _ _ _ valid decoded).cut (by decide)
  exact not_isUtf8_surrogate (by decide) rest.2

end ShortUrlApp

end MiniNet
