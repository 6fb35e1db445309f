import MiniNet.ShortUrlApp.Tokens

/-!
# The scanner of string fields by index

`jsonExtractString` of the source reads single octets of the body by their
index.  Here a read outside the body has no result, and neither has a loop
that is not over in time.  There is always a result, and it is the one of the
reader in `ShortUrlApp`: every index is inside the body, and each turn of the
loop over the value goes forward.
-/

namespace MiniNet

open Bytes Json

namespace ShortUrlApp

namespace Scanner

/-! ## Searching -/

/-- `find_first_not_of(" \t\r\n")`. -/
def findFirstNotOf (body : Bytes) : Option Nat := body.findIdx? fun c => !jsonSpace c

/-- `find_last_not_of(" \t\r\n")`. -/
def findLastNotOf (body : Bytes) : Option Nat :=
  (body.reverse.findIdx? fun c => !jsonSpace c).map (body.length - 1 - ·)

/-- `find` of an octet from a position on. -/
def findFrom (mark : UInt8) (body : Bytes) (start : Nat) : Option Nat :=
  ((body.drop start).findIdx? (· == mark)).map (start + ·)

/-! ## The loops -/

/-- The loop of `hex4` from an index on. -/
def hexLoop (body : Bytes) : Nat → Nat → Nat → Option (Option Nat)
  | 0, _, v => some (some v)
  | left + 1, i, v =>
      (body[i]?).bind fun c =>
        match hexDigit c with
        | some digit => hexLoop body left (i + 1) (v * 16 + digit)
        | none => some none

def hex4 (body : Bytes) (i : Nat) : Option (Option Nat) :=
  if i + 4 > body.length then some none else hexLoop body 4 i 0

/-- The look-ahead for the second half of a surrogate pair, with the last digit
of the first half at `i`. -/
def lowSurrogate? (body : Bytes) (i cp : Nat) : Option (Option Nat) :=
  if 0xD800 ≤ cp ∧ cp ≤ 0xDBFF ∧ i + 6 < body.length then
    (body[i + 1]?).bind fun c =>
      if c = 92 then
        (body[i + 2]?).bind fun d =>
          if d = 117 then
            (hex4 body (i + 3)).map fun low =>
              low.filter fun low => 0xDC00 ≤ low ∧ low ≤ 0xDFFF
          else some none
      else some none
  else some none

/-- What a turn of the loop over the value leads to. -/
inductive Step where
  /-- The condition of the loop fails. -/
  | stop
  /-- The function returns with an error. -/
  | fail (err : Bytes)
  | next (i : Nat) (value : Bytes)
  deriving DecidableEq

/-- A backslash, with the octet behind it at `i`. -/
def escape (body : Bytes) (i : Nat) (value : Bytes) : Option Step :=
  (body[i]?).bind fun c =>
    if c = 117 then
      (hex4 body (i + 1)).bind fun
        | none => some (.fail (lit "\\u 转义不完整"))
        | some cp =>
            (lowSurrogate? body (i + 4) cp).map fun
              | some low => .next (i + 4 + 6 + 1)
                  (appendUtf8 value (0x10000 + (cp - 0xD800) <<< 10 + (low - 0xDC00)))
              | none => .next (i + 4 + 1) (appendUtf8 value cp)
    else some (.next (i + 1) (value ++ [unescaped c]))

/-- One turn of the loop over the value. -/
def turn (body : Bytes) (i : Nat) (value : Bytes) : Option Step :=
  if i < body.length then
    (body[i]?).bind fun c =>
      if c = 34 then some .stop
      else if c = 92 ∧ i + 1 < body.length then escape body (i + 1) value
      else some (.next (i + 1) (value ++ [c]))
  else some .stop

def scanValue (body : Bytes) : Nat → Nat → Bytes → Option (Except Bytes Bytes)
  | 0, _, _ => none
  | turns + 1, i, value =>
      (turn body i value).bind fun
        | .stop =>
            if i ≥ body.length then some (.error (lit "字符串没有结束引号"))
            else some (.ok value)
        | .fail err => some (.error err)
        | .next i value => scanValue body turns i value

/-- The loop over spaces and tabs. -/
def skipBlanks (body : Bytes) : Nat → Nat → Option Nat
  | 0, _ => none
  | turns + 1, i =>
      if i < body.length then
        (body[i]?).bind fun c =>
          if c = 32 ∨ c = 9 then skipBlanks body turns (i + 1) else some i
      else some i

/-- The string from an index on, behind blanks. -/
def stringFrom (body key : Bytes) (i : Nat) : Option (Except Bytes Bytes) :=
  (skipBlanks body (body.length + 1) i).bind fun i =>
    if i ≥ body.length then some (.error (lit "字段 " ++ key ++ lit " 必须是字符串"))
    else
      (body[i]?).bind fun c =>
        if c ≠ 34 then some (.error (lit "字段 " ++ key ++ lit " 必须是字符串"))
        else scanValue body (body.length + 1) (i + 1) []

/-- The part of `jsonExtractString` behind the check of the braces. -/
def fieldOf (body key : Bytes) : Option (Except Bytes Bytes) :=
  let needle := lit "\"" ++ key ++ lit "\""
  match find? needle body with
  | none => some (.error (lit "缺少字段 " ++ key))
  | some k =>
      match findFrom 58 body (k + needle.length) with
      | none => some (.error (lit "字段格式非法"))
      | some colon => stringFrom body key (colon + 1)

def jsonExtractString (body key : Bytes) : Option (Except Bytes Bytes) :=
  match findFirstNotOf body with
  | none => some (.error (lit "请求体不是合法的 JSON 对象"))
  | some first =>
      (body[first]?).bind fun c =>
        if c ≠ 123 then some (.error (lit "请求体不是合法的 JSON 对象"))
        else
          (findLastNotOf body).bind fun last =>
            (body[last]?).bind fun d =>
              if d ≠ 125 then some (.error (lit "请求体不是合法的 JSON 对象"))
              else fieldOf body key

/-! ## Escapes -/

/-- Digits are read one by one as long as they are there. -/
theorem hexLoop_eq {body : Bytes} {left i : Nat} (inside : i + left ≤ body.length) (v : Nat) :
    hexLoop body left i v =
      some (((body.drop i).take left).foldlM
        (fun v c => (hexDigit c).map (v * 16 + ·)) v) := by
  induction left generalizing i v with
  | zero => rfl
  | succ left ih =>
      have here : i < body.length := by omega
      rw [hexLoop, List.drop_eq_getElem_cons here, List.getElem?_eq_getElem here,
        Option.bind_some, List.take_succ_cons, List.foldlM_cons]
      cases hexDigit body[i] with
      | none => rfl
      | some digit => exact ih (by omega) _

theorem hex4_eq (body : Bytes) (i : Nat) :
    hex4 body i = some (ShortUrlApp.hex4 (body.drop i)) := by
  rw [hex4, ShortUrlApp.hex4, List.length_drop]
  by_cases short : i + 4 > body.length
  · rw [if_pos short, if_pos (by omega)]
  · rw [if_neg short, if_neg (by omega), hexLoop_eq (by omega)]

theorem length_of_hex4 {text : Bytes} {value : Nat}
    (digits : ShortUrlApp.hex4 text = some value) : 4 ≤ text.length := by
  unfold ShortUrlApp.hex4 at digits
  split at digits
  · cases digits
  · omega

/-- The bound of the look-ahead is the one that `hex4` needs. -/
theorem lowSurrogate?_eq (body : Bytes) (i cp : Nat) :
    lowSurrogate? body i cp = some (ShortUrlApp.lowSurrogate? cp (body.drop (i + 1))) := by
  unfold lowSurrogate? ShortUrlApp.lowSurrogate?
  by_cases high : 0xD800 ≤ cp ∧ cp ≤ 0xDBFF
  · rw [if_pos high]
    by_cases room : i + 6 < body.length
    · rw [if_pos ⟨high.1, high.2, room⟩, hex4_eq,
        List.drop_eq_getElem_cons (show i + 1 < body.length by omega),
        List.drop_eq_getElem_cons (show i + 1 + 1 < body.length by omega),
        List.getElem?_eq_getElem (show i + 1 < body.length by omega),
        List.getElem?_eq_getElem (show i + 2 < body.length by omega)]
      simp only [Option.bind_some]
      by_cases slash : body[i + 1] = 92
      · by_cases letter : body[i + 2] = 117
        · rw [if_pos slash, if_pos letter, slash, letter]
          rfl
        · rw [if_pos slash, if_neg letter]
          split
          · rename_i same
            exact absurd (List.cons.inj (List.cons.inj same).2).1 letter
          · rfl
      · rw [if_neg slash]
        split
        · rename_i same
          exact absurd (List.cons.inj same).1 slash
        · rfl
    · rw [if_neg fun both => room both.2.2]
      split
      · rename_i more behind
        have short : more.length < 4 := by
          have size := congrArg List.length behind
          simp only [List.length_drop, List.length_cons] at size
          omega
        rw [ShortUrlApp.hex4, if_pos short]
        rfl
      · rfl
  · rw [if_neg high, if_neg fun both => high ⟨both.1, both.2.1⟩]

/-! ## The value -/

/-- What a turn does to the text from the index on. -/
def Follows (body : Bytes) (i : Nat) (value : Bytes) : Step → Prop
  | .stop => body.length ≤ i ∨ ∃ rest, body.drop i = 34 :: rest
  | .fail err => readString (body.drop i) value = .error err
  | .next j longer => i < j ∧ j ≤ body.length ∧
      readString (body.drop i) value = readString (body.drop j) longer

/-- A `\u` escape is read, with the one behind it if they are a pair. -/
theorem escape_unicode {body : Bytes} {i : Nat} {rest : Bytes}
    (behind : body.drop i = 92 :: 117 :: rest) (value : Bytes) :
    ∃ step, escape body (i + 1) value = some step ∧ Follows body i value step := by
  have left : body.drop (i + 2) = rest := by
    rw [← List.drop_drop, behind]
    rfl
  have letter : body[i + 1]? = some 117 := by
    rw [← List.getElem?_drop, behind]
    rfl
  have size : body.length = i + 2 + rest.length := by
    have total := congrArg List.length behind
    simp only [List.length_drop, List.length_cons] at total
    omega
  rw [escape, letter, Option.bind_some, if_pos rfl, hex4_eq, left, Option.bind_some]
  cases digits : ShortUrlApp.hex4 rest with
  | none =>
      refine ⟨_, rfl, ?_⟩
      rw [Follows, behind, readString, digits]
  | some cp =>
      have four := length_of_hex4 digits
      have further (n : Nat) : body.drop (i + 2 + n) = rest.drop n := by
        rw [← List.drop_drop, left]
      dsimp only
      rw [lowSurrogate?_eq, further 4, Option.map_some]
      cases paired : ShortUrlApp.lowSurrogate? cp (rest.drop 4) with
      | none =>
          refine ⟨_, rfl, by omega, by omega, ?_⟩
          rw [behind, readString, digits]
          simp only [paired]
          rw [← further 4]
      | some low =>
          obtain ⟨more, escaped, digitsLow⟩ := lowSurrogate?_eq_some paired
          have ten : 10 ≤ rest.length := by
            have fourMore := length_of_hex4 digitsLow
            have total := congrArg List.length escaped
            simp only [List.length_drop, List.length_cons] at total
            omega
          refine ⟨_, rfl, by omega, by omega, ?_⟩
          rw [behind, readString, digits]
          simp only [paired]
          rw [← further 10]

/-- Every turn has a result: it reads inside the body, and the index goes
forward. -/
theorem turn_follows (body : Bytes) (i : Nat) (value : Bytes) :
    ∃ step, turn body i value = some step ∧ Follows body i value step := by
  unfold turn
  by_cases inside : i < body.length
  · have behind := List.drop_eq_getElem_cons inside
    rw [if_pos inside, List.getElem?_eq_getElem inside, Option.bind_some]
    by_cases quote : body[i] = 34
    · rw [if_pos quote]
      exact ⟨_, rfl, .inr ⟨_, quote ▸ behind⟩⟩
    · rw [if_neg quote]
      by_cases escaped : body[i] = 92 ∧ i + 1 < body.length
      · rw [if_pos escaped]
        obtain ⟨slash, more⟩ := escaped
        rw [slash, List.drop_eq_getElem_cons more] at behind
        by_cases letter : body[i + 1] = 117
        · rw [letter] at behind
          exact escape_unicode behind value
        · rw [escape, List.getElem?_eq_getElem more, Option.bind_some, if_neg letter]
          refine ⟨_, rfl, by omega, more, ?_⟩
          rw [behind, readString_escape letter]
      · rw [if_neg escaped]
        refine ⟨_, rfl, by omega, inside, ?_⟩
        have last (c : UInt8) (more : Bytes) (slash : body[i] = 92)
            (rest : body.drop (i + 1) = c :: more) : False := by
          refine escaped ⟨slash, ?_⟩
          have total := congrArg List.length rest
          simp only [List.length_drop, List.length_cons] at total
          omega
        rw [behind, readString]
        · exact quote
        · exact last 117
        · exact last
  · rw [if_neg inside]
    exact ⟨_, rfl, .inl (Nat.not_lt.mp inside)⟩

/-- The loop ends, since the index goes forward, and reads the string. -/
theorem scanValue_eq {body : Bytes} {turns i : Nat} (enough : body.length - i < turns)
    (value : Bytes) :
    scanValue body turns i value = some (readString (body.drop i) value) := by
  induction turns generalizing i value with
  | zero => omega
  | succ turns ih =>
      obtain ⟨step, turned, follows⟩ := turn_follows body i value
      rw [scanValue, turned, Option.bind_some]
      cases step with
      | stop =>
          dsimp only
          rcases follows with outside | ⟨rest, closed⟩
          · rw [if_pos outside, List.drop_eq_nil_of_le outside, readString]
          · have inside : ¬ i ≥ body.length := by
              intro outside
              rw [List.drop_eq_nil_of_le outside] at closed
              cases closed
            rw [if_neg inside, closed, readString]
      | fail err => exact congrArg some (Eq.symm follows)
      | next j longer =>
          obtain ⟨forward, inside, same⟩ := follows
          rw [same]
          exact ih (by omega) longer

/-! ## The field -/

/-- The loop over blanks ends in front of the first other octet. -/
theorem skipBlanks_eq {body : Bytes} {turns i : Nat} (enough : body.length - i < turns) :
    ∃ j, skipBlanks body turns i = some j ∧
      body.drop j = (body.drop i).dropWhile isBlank := by
  induction turns generalizing i with
  | zero => omega
  | succ turns ih =>
      rw [skipBlanks]
      by_cases inside : i < body.length
      · rw [if_pos inside, List.getElem?_eq_getElem inside, Option.bind_some,
          List.drop_eq_getElem_cons inside]
        by_cases blank : body[i] = 32 ∨ body[i] = 9
        · rw [if_pos blank, List.dropWhile_cons_of_pos (by simpa [isBlank] using blank)]
          exact ih (by omega)
        · rw [if_neg blank, List.dropWhile_cons_of_neg (by simpa [isBlank] using blank)]
          exact ⟨i, rfl, List.drop_eq_getElem_cons inside⟩
      · rw [if_neg inside]
        refine ⟨i, rfl, ?_⟩
        rw [List.drop_eq_nil_of_le (Nat.not_lt.mp inside)]
        rfl

/-- Behind the colon the string is read. -/
theorem stringFrom_eq {body text gap : Bytes} {i : Nat}
    (colon : cut? 58 text = some (gap, body.drop i)) (key : Bytes) :
    stringFrom body key i = some (field key text) := by
  obtain ⟨j, skipped, behind⟩ := @skipBlanks_eq body (body.length + 1) i (by omega)
  rw [stringFrom, skipped, Option.bind_some, field, colon]
  dsimp only
  rw [← behind]
  by_cases outside : j ≥ body.length
  · rw [if_pos outside, List.drop_eq_nil_of_le outside]
  · have inside : j < body.length := Nat.not_le.mp outside
    rw [if_neg outside, List.getElem?_eq_getElem inside, Option.bind_some,
      List.drop_eq_getElem_cons inside]
    by_cases quote : body[j] = 34
    · rw [if_neg (not_not_intro quote), quote]
      exact scanValue_eq (by omega) []
    · rw [if_pos quote]
      split
      · rename_i same
        exact absurd (List.cons.inj same).1 quote
      · rfl

theorem cut?_eq_map_findIdx? (mark : UInt8) (text : Bytes) :
    cut? mark text =
      (text.findIdx? (· == mark)).map fun i => (text.take i, text.drop (i + 1)) := by
  induction text with
  | nil => rfl
  | cons c text ih =>
      rw [cut?, List.findIdx?_cons]
      by_cases same : c = mark
      · rw [if_pos same, if_pos (beq_iff_eq.mpr same)]
        rfl
      · rw [if_neg same, if_neg (by simpa using same), ih, Option.map_map, Option.map_map]
        rfl

/-- Between braces the field is read. -/
theorem fieldOf_eq {body : Bytes} (opened : (body.dropWhile isSpace).head? = some 123)
    (closed : (body.rdropWhile isSpace).getLast? = some 125) (key : Bytes) :
    fieldOf body key = some (ShortUrlApp.jsonExtractString body key) := by
  have needle : lit "\"" ++ key ++ lit "\"" = 34 :: (key ++ [34]) := rfl
  rw [jsonExtractString_eq opened closed, fieldOf, needle, after?]
  cases find? (34 :: (key ++ [34])) body with
  | none => rfl
  | some k =>
      dsimp only [Option.map_some]
      have cut := cut?_eq_map_findIdx? 58 (body.drop (k + (34 :: (key ++ [34])).length))
      rw [findFrom]
      cases found : (body.drop (k + (34 :: (key ++ [34])).length)).findIdx? (· == 58) with
      | none =>
          rw [found] at cut
          rw [field, cut]
          rfl
      | some colon =>
          rw [found, Option.map_some, List.drop_drop, ← Nat.add_assoc] at cut
          exact stringFrom_eq cut key

/-! ## The braces -/

theorem first_eq (body : Bytes) :
    (findFirstNotOf body).bind (body[·]?) = (body.dropWhile jsonSpace).head? := by
  rw [findFirstNotOf, ← List.find?_eq_bind_findIdx?_getElem?,
    List.find?_not_eq_head?_dropWhile]

theorem last_eq (body : Bytes) :
    (findLastNotOf body).bind (body[·]?) = (body.rdropWhile jsonSpace).getLast? := by
  have found : (findLastNotOf body).bind (body[·]?) =
      (body.reverse.findIdx? fun c => !jsonSpace c).bind (body.reverse[·]?) := by
    rw [findLastNotOf]
    cases at_ : body.reverse.findIdx? fun c => !jsonSpace c with
    | none => rfl
    | some i =>
        obtain ⟨inside, _⟩ := List.findIdx?_eq_some_iff_getElem.mp at_
        rw [List.length_reverse] at inside
        exact (List.getElem?_reverse inside).symm
  rw [found, ← List.find?_eq_bind_findIdx?_getElem?, List.find?_not_eq_head?_dropWhile,
    List.rdropWhile, List.getLast?_reverse]

/-- Where there is a first octet that is no white space, there is a last one. -/
theorem findLastNotOf_eq_some {body : Bytes} {first : Nat}
    (found : findFirstNotOf body = some first) :
    ∃ last < body.length, findLastNotOf body = some last := by
  obtain ⟨inside, solid, _⟩ := List.findIdx?_eq_some_iff_getElem.mp found
  rw [findLastNotOf]
  cases at_ : body.reverse.findIdx? fun c => !jsonSpace c with
  | none =>
      have member : body[first] ∈ body.reverse := List.mem_reverse.mpr (List.getElem_mem inside)
      have white := List.findIdx?_eq_none_iff.mp at_ _ member
      rw [white] at solid
      cases solid
  | some i => exact ⟨body.length - 1 - i, by omega, rfl⟩

/-- Read by index, the body is never left, and the result is that of the reader. -/
theorem jsonExtractString_eq_some (body key : Bytes) :
    jsonExtractString body key = some (ShortUrlApp.jsonExtractString body key) := by
  have noObject (other : (body.dropWhile jsonSpace).head? ≠ some 123 ∨
      (body.rdropWhile jsonSpace).getLast? ≠ some 125) :
      ShortUrlApp.jsonExtractString body key = .error (lit "请求体不是合法的 JSON 对象") := by
    rw [ShortUrlApp.jsonExtractString]
    exact if_pos other
  have firstOctet := first_eq body
  have lastOctet := last_eq body
  unfold jsonExtractString
  cases first : findFirstNotOf body with
  | none =>
      rw [first, Option.bind_none] at firstOctet
      rw [noObject (.inl ?_)]
      rw [← firstOctet]
      exact fun same => (by cases same)
  | some i =>
      obtain ⟨inside, _⟩ := List.findIdx?_eq_some_iff_getElem.mp first
      obtain ⟨j, insideToo, last⟩ := findLastNotOf_eq_some first
      rw [first, Option.bind_some, List.getElem?_eq_getElem inside] at firstOctet
      rw [last, Option.bind_some, List.getElem?_eq_getElem insideToo] at lastOctet
      rw [last]
      dsimp only
      rw [List.getElem?_eq_getElem inside, Option.bind_some, Option.bind_some,
        List.getElem?_eq_getElem insideToo, Option.bind_some]
      by_cases opened : body[i] = 123
      · rw [if_neg (not_not_intro opened)]
        rw [opened] at firstOctet
        by_cases closed : body[j] = 125
        · rw [closed] at lastOctet
          rw [if_neg (not_not_intro closed)]
          exact fieldOf_eq firstOctet.symm lastOctet.symm key
        · rw [if_pos closed, noObject (.inr ?_)]
          rw [← lastOctet]
          exact fun same => closed (Option.some.inj same)
      · rw [if_pos opened, noObject (.inl ?_)]
        rw [← firstOctet]
        exact fun same => opened (Option.some.inj same)

/-- For every body and key there is a result, so no octet outside the body is
read, neither by `hex4` nor in a turn of the loop over the value.  Each turn
that does not end the loop takes the index forward, and a value is returned
only when a quote that no backslash belongs to follows its tokens. -/
theorem inside_forward_closed (body key : Bytes) :
    jsonExtractString body key = some (ShortUrlApp.jsonExtractString body key) ∧
    (∀ i, ∃ digits, hex4 body i = some digits) ∧
    (∀ i value, ∃ step, turn body i value = some step) ∧
    (∀ i value j longer, turn body i value = some (.next j longer) →
      i < j ∧ j ≤ body.length) ∧
    ∀ value, jsonExtractString body key = some (.ok value) →
      ∃ tokens, Placed body key tokens ∧ value = standsFor tokens := by
  refine ⟨jsonExtractString_eq_some body key, fun i => ⟨_, hex4_eq body i⟩, ?_, ?_, ?_⟩
  · intro i value
    obtain ⟨step, turned, _⟩ := turn_follows body i value
    exact ⟨step, turned⟩
  · intro i value j longer turned
    obtain ⟨step, same, follows⟩ := turn_follows body i value
    cases turned.symm.trans same
    exact ⟨follows.1, follows.2.1⟩
  · intro value found
    rw [jsonExtractString_eq_some] at found
    exact jsonExtractString_eq_ok_iff.mp (Option.some.inj found)

/-- An escaped quote does not close the value. -/
theorem closed_behind_escapedQuote :
    let body := lit "\x7b\"url\":\"a\\\"b\"\x7d"
    jsonExtractString body (lit "url") = some (.ok (lit "a\"b")) ∧
    turn body 9 (lit "a") = some (.next 11 (lit "a\"")) ∧ 11 ≤ body.length ∧
    ∃ tokens, Placed body (lit "url") tokens ∧ lit "a\"b" = standsFor tokens := by
  intro body
  have found : jsonExtractString body (lit "url") = some (.ok (lit "a\"b")) := by
    decide
  have turned : turn body 9 (lit "a") = some (.next 11 (lit "a\"")) := by
    decide
  obtain ⟨_, _, _, forward, closed⟩ := inside_forward_closed body (lit "url")
  exact ⟨found, turned, (forward _ _ _ _ turned).2, closed _ found⟩

end Scanner

end ShortUrlApp

end MiniNet
