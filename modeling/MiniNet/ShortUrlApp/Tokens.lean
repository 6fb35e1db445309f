import MiniNet.ShortUrlApp.Json

/-!
# What the reader accepts

The reader of string fields does not check the JSON around the field, and
inside a string it takes octets and escapes that JSON does not allow.  A
`Token` is what it takes in one turn of its loop, except that the two halves
of a surrogate pair are two tokens.  The reader succeeds exactly on the bodies
that have braces at both ends and, behind the first occurrence of the quoted
key and the next colon, a string of tokens between quotes.
-/

namespace MiniNet

open Bytes Json

namespace ShortUrlApp

/-! ## Tokens -/

inductive Token where
  | octet (c : UInt8) (plain : c ≠ 34 ∧ c ≠ 92)
  | escape (c : UInt8) (notUnicode : c ≠ 117)
  | unicode (upper : Fin 4 → Bool) (value : Nat) (small : value < 0x10000)

def Token.text : Token → Bytes
  | .octet c _ => [c]
  | .escape c _ => [92, c]
  | .unicode upper value _ => 92 :: 117 :: hexText upper value

def spelled (tokens : List Token) : Bytes := tokens.flatMap Token.text

def IsHigh (value : Nat) : Prop := 0xD800 ≤ value ∧ value ≤ 0xDBFF

def IsLow (value : Nat) : Prop := 0xDC00 ≤ value ∧ value ≤ 0xDFFF

instance (value : Nat) : Decidable (IsHigh value) := inferInstanceAs (Decidable (_ ∧ _))

instance (value : Nat) : Decidable (IsLow value) := inferInstanceAs (Decidable (_ ∧ _))

/-- The second half of a surrogate pair, if the tokens start with one. -/
def lowHalf? (high : Nat) : List Token → Option Nat
  | .unicode _ low _ :: _ => if IsHigh high ∧ IsLow low then some low else none
  | _ => none

/-- The octets that tokens stand for. -/
def standsFor : List Token → Bytes
  | [] => []
  | .octet c _ :: rest => c :: standsFor rest
  | .escape c _ :: rest => unescaped c :: standsFor rest
  | .unicode _ value _ :: rest =>
      match lowHalf? value rest with
      | some low =>
          appendUtf8 [] (0x10000 + (value - 0xD800) <<< 10 + (low - 0xDC00)) ++
            standsFor rest.tail
      | none => appendUtf8 [] value ++ standsFor rest
termination_by tokens => tokens.length
decreasing_by all_goals simp only [List.length_cons, List.length_tail]; omega

theorem spelled_cons (token : Token) (rest : List Token) :
    spelled (token :: rest) = token.text ++ spelled rest :=
  List.flatMap_cons

theorem appendUtf8_eq (out : Bytes) (cp : Nat) :
    appendUtf8 out cp = out ++ appendUtf8 [] cp := by
  unfold appendUtf8
  simp only [List.nil_append]
  split
  · rfl
  · split
    · rfl
    · split <;> rfl

theorem lowHalf?_eq_some {high low : Nat} {tokens : List Token}
    (found : lowHalf? high tokens = some low) :
    IsHigh high ∧ IsLow low ∧ ∃ upper small more, tokens = .unicode upper low small :: more := by
  unfold lowHalf? at found
  split at found
  · split at found
    · rename_i both
      cases found
      exact ⟨both.1, both.2, _, _, _, rfl⟩
    · cases found
  · cases found

/-! ## Reading tokens -/

theorem lowSurrogate?_spelled (cp : Nat) (tokens : List Token) (rest : Bytes) :
    lowSurrogate? cp (spelled tokens ++ 34 :: rest) = lowHalf? cp tokens := by
  have other : ∀ text : Bytes, (∀ more, text ≠ 92 :: 117 :: more) →
      lowSurrogate? cp text = none := by
    intro text notEscape
    unfold lowSurrogate?
    split
    · split
      · exact absurd rfl (notEscape _)
      · rfl
    · rfl
  cases tokens with
  | nil => exact other _ fun more same => (by cases same)
  | cons token tokens =>
      cases token with
      | octet c plain =>
          refine other _ fun more same => plain.2 ?_
          exact (List.cons.inj same).1
      | escape c notUnicode =>
          refine other _ fun more same => notUnicode ?_
          exact (List.cons.inj (List.cons.inj same).2).1
      | unicode upper low small =>
          rw [spelled_cons, List.append_assoc, lowHalf?]
          simp only [Token.text, List.cons_append, lowSurrogate?, hex4_hexText upper small]
          by_cases high : 0xD800 ≤ cp ∧ cp ≤ 0xDBFF
          · rw [if_pos high, Option.filter_some]
            simp only [IsHigh, high, IsLow, true_and, decide_eq_true_eq]
          · rw [if_neg high, if_neg fun pair => high pair.1]

/-- A `\u` escape is read together with the one behind it if they are the
halves of a pair. -/
theorem readString_hexText (upper : Fin 4 → Bool) {cp : Nat} (small : cp < 0x10000)
    (tokens : List Token) (rest value : Bytes) :
    readString (92 :: 117 :: (hexText upper cp ++ (spelled tokens ++ 34 :: rest))) value =
      match lowHalf? cp tokens with
      | some low =>
          readString (spelled tokens.tail ++ 34 :: rest)
            (appendUtf8 value (0x10000 + (cp - 0xD800) <<< 10 + (low - 0xDC00)))
      | none => readString (spelled tokens ++ 34 :: rest) (appendUtf8 value cp) := by
  have behind : (hexText upper cp ++ (spelled tokens ++ 34 :: rest)).drop 4 =
      spelled tokens ++ 34 :: rest := rfl
  rw [readString, hex4_hexText upper small]
  simp only [behind, lowSurrogate?_spelled]
  cases paired : lowHalf? cp tokens with
  | none => rfl
  | some low =>
      cases tokens with
      | nil => cases paired
      | cons token tokens =>
          cases token with
          | octet c plain => cases paired
          | escape c notUnicode => cases paired
          | unicode upper low small =>
              simp only [spelled_cons, List.append_assoc]
              rfl

/-- A string of tokens is read up to the quote behind it. -/
theorem readString_spelled (tokens : List Token) (rest value : Bytes) :
    readString (spelled tokens ++ 34 :: rest) value = .ok (value ++ standsFor tokens) := by
  induction tokens using standsFor.induct generalizing value with
  | case1 =>
      rw [standsFor, List.append_nil, spelled, List.flatMap_nil, List.nil_append, readString]
  | case2 c plain tokens ih =>
      rw [spelled_cons, List.append_assoc, Token.text,
        readString_raw _ _ (by simpa using plain.1.symm) (by simpa using plain.2.symm), ih,
        standsFor, List.append_assoc]
      rfl
  | case3 c notUnicode tokens ih =>
      rw [spelled_cons, List.append_assoc, Token.text]
      simp only [List.cons_append, List.nil_append]
      rw [readString_escape notUnicode, ih, standsFor, List.append_assoc]
      rfl
  | case4 upper cp small tokens low paired ih =>
      rw [spelled_cons, List.append_assoc, Token.text]
      simp only [List.cons_append]
      rw [readString_hexText upper small, standsFor]
      simp only [paired]
      rw [ih, appendUtf8_eq, List.append_assoc]
  | case5 upper cp small tokens alone ih =>
      rw [spelled_cons, List.append_assoc, Token.text]
      simp only [List.cons_append]
      rw [readString_hexText upper small, standsFor]
      simp only [alone]
      rw [ih, appendUtf8_eq, List.append_assoc]

/-! ## Only tokens are read -/

private theorem hexDigit_cases : ∀ n < 256, (hexDigit (UInt8.ofNat n)).all (fun digit =>
    digit < 16 ∧ ∃ upper, UInt8.ofNat n = hexChar upper digit) = true := by
  decide +kernel

theorem hexDigit_eq_some {c : UInt8} {digit : Nat} (found : hexDigit c = some digit) :
    digit < 16 ∧ ∃ upper, c = hexChar upper digit := by
  have shown := hexDigit_cases c.toNat c.toNat_lt
  rw [UInt8.ofNat_toNat, found] at shown
  simpa using shown

private theorem foldlM_hexDigit_cons {c : UInt8} {rest : Bytes} {sum value : Nat}
    (found : (c :: rest).foldlM (fun v c => (hexDigit c).map (v * 16 + ·)) sum = some value) :
    ∃ digit < 16, (∃ upper, c = hexChar upper digit) ∧
      rest.foldlM (fun v c => (hexDigit c).map (v * 16 + ·)) (sum * 16 + digit) =
        some value := by
  rw [List.foldlM_cons] at found
  obtain ⟨next, digit?, later⟩ := Option.bind_eq_some_iff.mp found
  obtain ⟨digit, isDigit, rfl⟩ := Option.map_eq_some_iff.mp digit?
  obtain ⟨small, spelling⟩ := hexDigit_eq_some isDigit
  exact ⟨digit, small, spelling, later⟩

theorem hex4_eq_some {text : Bytes} {value : Nat} (found : hex4 text = some value) :
    value < 0x10000 ∧ ∃ upper, text = hexText upper value ++ text.drop 4 := by
  unfold hex4 at found
  split at found
  · cases found
  · rename_i long
    rcases text with _ | ⟨a, _ | ⟨b, _ | ⟨c, _ | ⟨d, rest⟩⟩⟩⟩
    · simp at long
    · simp at long
    · simp at long
    · simp at long
    · have front : (a :: b :: c :: d :: rest).take 4 = [a, b, c, d] := rfl
      rw [front] at found
      obtain ⟨first, _, ⟨upperA, rfl⟩, behindA⟩ := foldlM_hexDigit_cons found
      obtain ⟨second, _, ⟨upperB, rfl⟩, behindB⟩ := foldlM_hexDigit_cons behindA
      obtain ⟨third, _, ⟨upperC, rfl⟩, behindC⟩ := foldlM_hexDigit_cons behindB
      obtain ⟨fourth, _, ⟨upperD, rfl⟩, behindD⟩ := foldlM_hexDigit_cons behindC
      have sum := Option.some.inj behindD
      refine ⟨by omega, fun i => [upperA, upperB, upperC, upperD].getD i false, ?_⟩
      have digits : value / 4096 % 16 = first ∧ value / 256 % 16 = second ∧
          value / 16 % 16 = third ∧ value % 16 = fourth := by
        omega
      simp only [hexText, digits]
      rfl

theorem lowSurrogate?_eq_some {cp low : Nat} {text : Bytes}
    (paired : lowSurrogate? cp text = some low) :
    ∃ more, text = 92 :: 117 :: more ∧ hex4 more = some low := by
  unfold lowSurrogate? at paired
  split at paired
  · split at paired
    · rename_i more
      exact ⟨more, rfl, Option.filter_eq_some_iff.mp paired |>.1⟩
    · cases paired
  · cases paired

/-- The reader succeeds only on a string of tokens and a quote. -/
theorem spelled_of_readString {text value out : Bytes}
    (read : readString text value = .ok out) :
    ∃ tokens rest, text = spelled tokens ++ 34 :: rest := by
  induction text, value using readString.induct with
  | case1 value =>
      rw [readString] at read
      cases read
  | case2 value rest => exact ⟨[], rest, rfl⟩
  | case3 value rest incomplete =>
      rw [readString, incomplete] at read
      cases read
  | case4 value rest cp isHex low paired ih =>
      rw [readString, isHex] at read
      simp only [paired] at read
      obtain ⟨tokens, more, behind⟩ := ih read
      obtain ⟨small, upper, digits⟩ := hex4_eq_some isHex
      obtain ⟨second, escaped, isHexLow⟩ := lowSurrogate?_eq_some paired
      obtain ⟨smallLow, upperLow, digitsLow⟩ := hex4_eq_some isHexLow
      have skipped : second.drop 4 = rest.drop 10 := by
        have ten : (rest.drop 4).drop 6 = rest.drop 10 := List.drop_drop
        rw [← ten, escaped]
        rfl
      refine ⟨.unicode upper cp small :: .unicode upperLow low smallLow :: tokens, more, ?_⟩
      rw [spelled_cons, spelled_cons, List.append_assoc, List.append_assoc, ← behind,
        ← skipped]
      simp only [Token.text, List.cons_append]
      rw [← digitsLow, ← escaped, ← digits]
  | case5 value rest cp isHex alone ih =>
      rw [readString, isHex] at read
      simp only [alone] at read
      obtain ⟨tokens, more, behind⟩ := ih read
      obtain ⟨small, upper, digits⟩ := hex4_eq_some isHex
      refine ⟨.unicode upper cp small :: tokens, more, ?_⟩
      rw [spelled_cons, List.append_assoc, ← behind]
      simp only [Token.text, List.cons_append]
      rw [← digits]
  | case6 value c rest notUnicode ih =>
      rw [readString_escape notUnicode] at read
      obtain ⟨tokens, more, rfl⟩ := ih read
      exact ⟨.escape c notUnicode :: tokens, more, rfl⟩
  | case7 value c rest notQuote _ lastEscape ih =>
      rw [readString] at read
      · obtain ⟨tokens, more, rfl⟩ := ih read
        by_cases escape : c = 92
        · cases behind : spelled tokens ++ 34 :: more with
          | nil => simp at behind
          | cons d later => exact (lastEscape d later escape behind).elim
        · exact ⟨.octet c ⟨notQuote, escape⟩ :: tokens, more, rfl⟩
      · exact notQuote
      · exact fun more same => lastEscape 117 more same
      · exact lastEscape

theorem readString_eq_ok_iff {text value out : Bytes} :
    readString text value = .ok out ↔
      ∃ tokens rest, text = spelled tokens ++ 34 :: rest ∧
        out = value ++ standsFor tokens := by
  constructor
  · intro read
    obtain ⟨tokens, rest, rfl⟩ := spelled_of_readString read
    rw [readString_spelled] at read
    exact ⟨tokens, rest, rfl, (Except.ok.inj read).symm⟩
  · rintro ⟨tokens, rest, rfl, rfl⟩
    exact readString_spelled tokens rest value

/-! ## Fields -/

/-- The tokens stand where the reader looks for the value of the field: the
body has braces at both ends, and behind the first occurrence of the quoted
key come a colon, the first one from there on, spaces or tabs, and the tokens
between quotes. -/
structure Placed (body key : Bytes) (tokens : List Token) : Prop where
  opened : (body.dropWhile isSpace).head? = some 123
  closed : (body.rdropWhile isSpace).getLast? = some 125
  field : ∃ place gap, ∃ blank : Blank, ∃ rest,
    FirstAt (34 :: (key ++ [34])) body (some place) ∧ 58 ∉ gap ∧
      body.drop (place + (key.length + 2)) =
        gap ++ 58 :: (blank.text ++ 34 :: (spelled tokens ++ 34 :: rest))

theorem field_eq_ok_iff {key rest value : Bytes} :
    field key rest = .ok value ↔
      ∃ gap, ∃ blank : Blank, ∃ tokens more, 58 ∉ gap ∧
        rest = gap ++ 58 :: (blank.text ++ 34 :: (spelled tokens ++ 34 :: more)) ∧
        value = standsFor tokens := by
  constructor
  · intro found
    unfold field at found
    split at found
    · cases found
    · rename_i gap after cut
      obtain ⟨noColon, rfl⟩ := cut?_eq_some_iff.mp cut
      split at found
      · rename_i text quoted
        obtain ⟨tokens, more, rfl, rfl⟩ := readString_eq_ok_iff.mp found
        have blank : ∀ c ∈ after.takeWhile isBlank, isBlank c = true :=
          fun c member => List.mem_takeWhile_imp member
        refine ⟨gap, ⟨_, blank⟩, tokens, more, noColon, ?_, rfl⟩
        rw [← quoted, List.takeWhile_append_dropWhile]
      · cases found
  · rintro ⟨gap, blank, tokens, more, noColon, rfl, rfl⟩
    have quoted : (blank.text ++ 34 :: (spelled tokens ++ 34 :: more)).dropWhile isBlank =
        34 :: (spelled tokens ++ 34 :: more) := by
      rw [List.dropWhile_append_of_pos blank.white]
      rfl
    rw [field, cut?_append _ noColon]
    simp only [quoted]
    rw [readString_spelled, List.nil_append]

/-- The reader succeeds exactly when there are tokens at that place, and its
result is what they stand for. -/
theorem jsonExtractString_eq_ok_iff {body key value : Bytes} :
    jsonExtractString body key = .ok value ↔
      ∃ tokens, Placed body key tokens ∧ value = standsFor tokens := by
  have some_octet : (34 :: (key ++ [34]) : Bytes) ≠ [] := List.cons_ne_nil _ _
  have size : (34 :: (key ++ [34])).length = key.length + 2 := by
    simp
  constructor
  · intro found
    have braces : (body.dropWhile isSpace).head? = some 123 ∧
        (body.rdropWhile isSpace).getLast? = some 125 := by
      by_contra other
      have missing : (body.dropWhile jsonSpace).head? ≠ some 123 ∨
          (body.rdropWhile jsonSpace).getLast? ≠ some 125 :=
        not_and_or.mp other
      simp only [jsonExtractString, if_pos missing] at found
      cases found
    rw [jsonExtractString_eq braces.1 braces.2, after?] at found
    cases place? : find? (34 :: (key ++ [34])) body with
    | none =>
        rw [place?] at found
        cases found
    | some place =>
        rw [place?] at found
        obtain ⟨gap, blank, tokens, more, noColon, rest, same⟩ := field_eq_ok_iff.mp found
        rw [size] at rest
        exact ⟨tokens, ⟨braces.1, braces.2, place, gap, blank, more,
          (find?_eq_some_iff some_octet).mp place?, noColon, rest⟩, same⟩
  · rintro ⟨tokens, ⟨opened, closed, place, gap, blank, more, first, noColon, rest⟩, rfl⟩
    rw [jsonExtractString_eq opened closed, after?,
      (find?_eq_some_iff some_octet).mpr first, size, Option.map_some, rest]
    exact field_eq_ok_iff.mpr ⟨gap, blank, tokens, more, noColon, rfl, rfl⟩

end ShortUrlApp

end MiniNet
