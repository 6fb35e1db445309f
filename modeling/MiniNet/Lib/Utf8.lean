import MiniNet.Lib.Json

/-!
# Octets that are UTF-8

The encodings of characters form a prefix-free code, so a text that is UTF-8
can be cut at every encoded character, and at every ASCII octet.
-/

namespace Json

/-- The text is the encoding of some characters. -/
def IsUtf8 (text : Bytes) : Prop := ∃ chars, utf8 chars = text

theorem isUtf8_nil : IsUtf8 [] := ⟨[], rfl⟩

theorem utf8EncodeChar_append_inj {c d : Char} {s t : Bytes}
    (same : String.utf8EncodeChar c ++ s = String.utf8EncodeChar d ++ t) :
    c = d ∧ s = t := by
  have first : ∀ (c : Char) (s : Bytes),
      (String.utf8EncodeChar c ++ s).toByteArray.utf8DecodeChar? 0 = some c := by
    intro c s
    rw [List.toByteArray_append]
    exact ByteArray.utf8DecodeChar?_utf8EncodeChar_append
  have equal : c = d := by
    have decoded := first c s
    rw [same, first d t] at decoded
    exact (Option.some.inj decoded).symm
  subst equal
  exact ⟨rfl, List.append_cancel_left same⟩

theorem isUtf8_append_iff (c : Char) (text : Bytes) :
    IsUtf8 (String.utf8EncodeChar c ++ text) ↔ IsUtf8 text := by
  constructor
  · rintro ⟨chars, same⟩
    cases chars with
    | nil => exact absurd (List.append_eq_nil_iff.mp same.symm).1 String.utf8EncodeChar_ne_nil
    | cons d chars =>
        rw [utf8_cons] at same
        exact ⟨chars, (utf8EncodeChar_append_inj same).2⟩
  · rintro ⟨chars, rfl⟩
    exact ⟨c :: chars, utf8_cons c chars⟩

/-- The character an ASCII octet is. -/
theorem exists_ascii {octet : UInt8} (ascii : octet.toNat < 128) :
    ∃ c : Char, String.utf8EncodeChar c = [octet] := by
  have all : ∀ n < 128, String.utf8EncodeChar (Char.ofNat n) = [UInt8.ofNat n] := by
    decide
  refine ⟨Char.ofNat octet.toNat, ?_⟩
  rw [all _ ascii, UInt8.ofNat_toNat]

theorem isUtf8_cons_iff {octet : UInt8} {text : Bytes} (ascii : octet.toNat < 128) :
    IsUtf8 (octet :: text) ↔ IsUtf8 text := by
  obtain ⟨c, code⟩ := exists_ascii ascii
  have cut := isUtf8_append_iff c text
  rwa [code] at cut

theorem isUtf8_of_ascii {text : Bytes} (ascii : ∀ c ∈ text, c.toNat < 128) : IsUtf8 text := by
  induction text with
  | nil => exact isUtf8_nil
  | cons c text ih =>
      obtain ⟨first, later⟩ := List.forall_mem_cons.mp ascii
      exact (isUtf8_cons_iff first).mpr (ih later)

/-- A text that is not empty starts with the encoding of a character. -/
theorem IsUtf8.cons_cases {octet : UInt8} {text : Bytes} (valid : IsUtf8 (octet :: text)) :
    ∃ c tail rest, String.utf8EncodeChar c = octet :: tail ∧ text = tail ++ rest ∧
      IsUtf8 rest := by
  obtain ⟨chars, same⟩ := valid
  cases chars with
  | nil => cases same
  | cons c chars =>
      rw [utf8_cons] at same
      cases code : String.utf8EncodeChar c with
      | nil => exact absurd code String.utf8EncodeChar_ne_nil
      | cons first tail =>
          rw [code, List.cons_append] at same
          obtain ⟨rfl, rfl⟩ := List.cons.inj same
          exact ⟨c, tail, utf8 chars, code, rfl, chars, rfl⟩

/-- The octets behind the first one of an encoding are not ASCII. -/
theorem tail_not_ascii {c : Char} {octet : UInt8} {tail : Bytes}
    (code : String.utf8EncodeChar c = octet :: tail) :
    ∀ later ∈ tail, 128 ≤ later.toNat := by
  intro later member
  by_contra ascii
  have whole := (eq_of_mem_utf8EncodeChar (code ▸ List.mem_cons_of_mem octet member)
    (Nat.lt_of_not_le ascii)).1
  rw [code] at whole
  obtain ⟨_, rfl⟩ := List.cons.inj whole
  cases member

theorem IsUtf8.append {first second : Bytes} (valid : IsUtf8 first)
    (validSecond : IsUtf8 second) : IsUtf8 (first ++ second) := by
  obtain ⟨chars, rfl⟩ := valid
  obtain ⟨more, rfl⟩ := validSecond
  exact ⟨chars ++ more, List.flatMap_append⟩

/-- A text that is UTF-8 can be cut at an ASCII octet. -/
theorem IsUtf8.cut {before after : Bytes} {octet : UInt8} (ascii : octet.toNat < 128)
    (valid : IsUtf8 (before ++ octet :: after)) : IsUtf8 before ∧ IsUtf8 after := by
  obtain ⟨chars, same⟩ := valid
  induction chars generalizing before with
  | nil => simp [utf8] at same
  | cons c chars ih =>
      rw [utf8_cons] at same
      rcases List.append_eq_append_iff.mp same with ⟨more, rfl, rest⟩ | ⟨more, code, rest⟩
      · obtain ⟨front, back⟩ := ih rest
        exact ⟨(isUtf8_append_iff c more).mpr front, back⟩
      · cases more with
        | nil =>
            have whole : IsUtf8 (octet :: after) := ⟨chars, rest.symm⟩
            rw [List.append_nil] at code
            exact ⟨⟨[c], by rw [← code, utf8, List.flatMap_singleton]⟩,
              (isUtf8_cons_iff ascii).mp whole⟩
        | cons first more =>
            obtain ⟨rfl, rfl⟩ := List.cons.inj rest
            have inside : octet ∈ String.utf8EncodeChar c := by
              rw [code]
              simp
            have single := (eq_of_mem_utf8EncodeChar inside ascii).1
            rw [code] at single
            have size := congrArg List.length single
            simp only [List.length_append, List.length_cons, List.length_nil] at size
            have noFront : before = [] := List.eq_nil_of_length_eq_zero (by omega)
            have noMore : more = [] := List.eq_nil_of_length_eq_zero (by omega)
            subst noFront noMore
            exact ⟨isUtf8_nil, chars, rfl⟩

private theorem ofNat_ne {n : Nat} {octet : UInt8} (small : n < 256)
    (different : n ≠ octet.toNat) : UInt8.ofNat n ≠ octet := by
  rintro rfl
  rw [UInt8.toNat_ofNat', Nat.mod_eq_of_lt small] at different
  exact different rfl

/-- An encoding that starts as the ones around the surrogates has a second
octet below theirs. -/
theorem second_octet_lt {c : Char} {tail : Bytes}
    (code : String.utf8EncodeChar c = 0xED :: tail) :
    ∃ octet more, tail = octet :: more ∧ octet.toNat < 0xA0 := by
  have lead : UInt8.toNat 0xED = 237 := rfl
  unfold String.utf8EncodeChar at code
  simp only at code
  split at code
  · exact absurd (List.cons.inj code).1 (ofNat_ne (by omega) (by omega))
  · split at code
    · exact absurd (List.cons.inj code).1 (ofNat_ne (by omega) (by omega))
    · split at code
      · obtain ⟨first, later⟩ := List.cons.inj code
        have sameLead : c.val.toNat / 4096 % 16 + 224 = 237 := by
          by_contra other
          exact ofNat_ne (by omega) (by omega) first
        refine ⟨_, _, later.symm, ?_⟩
        rw [UInt8.toNat_ofNat', Nat.mod_eq_of_lt (by omega)]
        rcases c.valid with below | above
        · have low : c.val.toNat < 0xD800 := below
          omega
        · have large : 0xDFFF < c.val.toNat := above.1
          omega
      · exact absurd (List.cons.inj code).1 (ofNat_ne (by omega) (by omega))

/-- No character is encoded by the octets of half a surrogate pair. -/
theorem not_isUtf8_surrogate {octet : UInt8} {text : Bytes} (high : 0xA0 ≤ octet.toNat) :
    ¬IsUtf8 (0xED :: octet :: text) := by
  intro valid
  obtain ⟨c, tail, rest, code, split, _⟩ := valid.cons_cases
  obtain ⟨second, more, rfl, small⟩ := second_octet_lt code
  obtain ⟨rfl, _⟩ := List.cons.inj split
  omega

end Json
