import MiniNet.ShortUrlApp.Json

/-!
# Looking up a field by its quoted name

`jsonExtractString` does not parse the object.  It goes to the first
occurrence of the quoted key, wherever that stands, and reads the string
behind the next colon.  On a flat object the first occurrence is the end of
the first literal that ends in the quoted key, which may be a key or a value.
-/

namespace MiniNet

open Bytes Json

namespace ShortUrlApp

/-! ## The first literal that ends in the quoted key -/

/-- The literal ends in the quoted key: its content is the key, or it ends in
an escaped quote and the key. -/
def Carries (written : List Written) : Prop := lit "\"url\"" <:+ quoted written

instance (written : List Written) : Decidable (Carries written) :=
  inferInstanceAs (Decidable (_ <:+ _))

/-- The literal at which the search stops: the key of a member, or a value
with the member that follows it, if there is one. -/
inductive Stop where
  | key (m : Member)
  | value (next : Option Member)

def stop : List Member → Option Stop
  | [] => none
  | m :: rest =>
      if Carries m.key then some (.key m)
      else if Carries m.value then some (.value rest.head?)
      else stop rest

/-- The search in a text whose only quotes are escaped ones and the last. -/
theorem after?_escaped {front tail : Bytes} (escaped : front.IsChain Escaped)
    (ended : ∀ c ∈ tail.head?, c ≠ 117) :
    after? [34, 117, 114, 108, 34] (front ++ 34 :: tail) =
      if [34, 117, 114, 108] <:+ front then some tail
      else after? [34, 117, 114, 108, 34] tail := by
  induction front with
  | nil =>
      have notHere : ¬ [34, 117, 114, 108, 34] <+: 34 :: tail := by
        intro here
        cases tail with
        | nil => exact absurd here (by decide)
        | cons c tail =>
            have second := (List.cons_prefix_cons.mp (List.cons_prefix_cons.mp here).2).1
            exact ended c rfl second.symm
      rw [List.nil_append, after?_cons notHere, if_neg (by decide)]
  | cons c front ih =>
      by_cases here : [34, 117, 114, 108, 34] <+: c :: (front ++ 34 :: tail)
      · have whole : c :: front = [34, 117, 114, 108] := by
          rcases front with _ | ⟨d, _ | ⟨e, _ | ⟨f, _ | ⟨g, front⟩⟩⟩⟩ <;>
            simp [Escaped, List.cons_prefix_cons] at here escaped ⊢ <;> grind
        rw [whole, if_pos (List.suffix_refl _), ← after?_append tail]
        rfl
      · have notWhole : c :: front ≠ [34, 117, 114, 108] := by
          intro whole
          apply here
          rw [← List.cons_append, whole]
          exact ⟨tail, rfl⟩
        have onlyLater : [34, 117, 114, 108] <:+ c :: front ↔
            [34, 117, 114, 108] <:+ front := by
          rw [List.suffix_cons_iff]
          exact or_iff_right fun same => notWhole same.symm
        rw [List.cons_append, after?_cons here, ih (List.isChain_cons.mp escaped).2]
        simp only [onlyLater]

theorem carries_iff (written : List Written) :
    Carries written ↔ [34, 117, 114, 108] <:+ 34 :: content written := by
  have parts : quoted written = (34 :: content written) ++ [34] := rfl
  have needle : lit "\"url\"" = [34, 117, 114, 108] ++ [34] := rfl
  rw [Carries, parts, needle, List.suffix_append_self_iff]

/-- The search passes a literal that does not carry the key. -/
theorem after?_quoted (written : List Written) {tail : Bytes}
    (ended : ∀ c ∈ tail.head?, c ≠ 117) :
    after? [34, 117, 114, 108, 34] (quoted written ++ tail) =
      if Carries written then some tail else after? [34, 117, 114, 108, 34] tail := by
  have parts : quoted written ++ tail = (34 :: content written) ++ 34 :: tail := by
    rw [quoted, List.append_assoc]
    rfl
  rw [parts, after?_escaped (cons_content_escaped 34 written) ended]
  simp only [carries_iff]

/-- The search in one member. -/
theorem after?_member (m : Member) {rest : Bytes}
    (ended : ∀ c ∈ rest.head?, c ≠ 117) :
    after? [34, 117, 114, 108, 34] (m.text ++ rest) =
      if Carries m.key then some (m.tail ++ rest)
      else if Carries m.value then some (m.afterValue.text ++ rest)
      else after? [34, 117, 114, 108, 34] rest := by
  have spaced : ∀ (space : Space) (text : Bytes), (∀ c ∈ text.head?, c ≠ 117) →
      ∀ c ∈ (space.text ++ text).head?, c ≠ 117 := by
    rintro space text later c isHead rfl
    rw [List.head?_append] at isHead
    rcases Option.or_eq_some_iff.mp isHead with mine | ⟨_, behind⟩
    · exact space.notMem (by decide) (List.mem_of_mem_head? mine)
    · exact later _ behind rfl
  have noQuote : ∀ space : Space, 34 ∉ space.text := fun space => space.notMem (by decide)
  have keyEnded : ∀ c ∈ (m.tail ++ rest).head?, c ≠ 117 := by
    rw [Member.tail, List.append_assoc]
    apply spaced
    rintro c ⟨rfl⟩
    decide
  have colon : 34 ∉ m.afterKey.text ++ 58 :: m.beforeValue.text := by
    simp only [List.mem_append, List.mem_cons, not_or]
    exact ⟨noQuote _, by decide, noQuote _⟩
  have tail_eq : m.tail ++ rest = (m.afterKey.text ++ 58 :: m.beforeValue.text) ++
      (quoted m.value ++ (m.afterValue.text ++ rest)) := by
    simp only [Member.tail, List.append_assoc, List.cons_append]
  have text_eq : m.text ++ rest = m.beforeKey.text ++ (quoted m.key ++ (m.tail ++ rest)) := by
    simp only [Member.text, List.append_assoc]
  rw [text_eq, after?_skip (noQuote _), after?_quoted _ keyEnded]
  refine if_congr Iff.rfl rfl ?_
  rw [tail_eq, after?_skip colon, after?_quoted _ (spaced _ _ ended)]
  refine if_congr Iff.rfl rfl ?_
  exact after?_skip (noQuote _) rest

/-- What stands behind the quoted key once the search has stopped. -/
def StopsAt (tail : Bytes) (rest : Option Bytes) : Option Stop → Prop
  | none => rest = none
  | some (.key m) => ∃ more, rest = some (m.tail ++ more)
  | some (.value none) => ∃ space : Space, rest = some (space.text ++ tail)
  | some (.value (some m)) =>
      ∃ (space : Space) (more : Bytes), rest = some (space.text ++ 44 :: (m.text ++ more))

theorem stopsAt_members (m : Member) (members : List Member) {tail : Bytes}
    (absent : 34 ∉ tail) (ended : ∀ c ∈ tail.head?, c ≠ 117) :
    StopsAt tail (after? [34, 117, 114, 108, 34] (m.text ++ (following members ++ tail)))
      (stop (m :: members)) := by
  induction members generalizing m with
  | nil =>
      have nothing : following [] ++ tail = tail := rfl
      rw [nothing, after?_member m ended, stop]
      split
      · exact ⟨tail, rfl⟩
      · split
        · exact ⟨m.afterValue, rfl⟩
        · have missing := @after?_skip 34 [117, 114, 108, 34] tail absent []
          rw [List.append_nil] at missing
          exact missing
  | cons next members ih =>
      have more : following (next :: members) ++ tail =
          44 :: (next.text ++ (following members ++ tail)) := by
        simp only [following, List.flatMap_cons, List.cons_append, List.append_assoc]
      have comma : after? [34, 117, 114, 108, 34]
          (44 :: (next.text ++ (following members ++ tail))) =
            after? [34, 117, 114, 108, 34] (next.text ++ (following members ++ tail)) :=
        @after?_skip 34 [117, 114, 108, 34] [44] (by decide) _
      have commaEnded : ∀ c ∈ (44 :: (next.text ++ (following members ++ tail))).head?,
          c ≠ 117 := by
        rintro c ⟨rfl⟩
        decide
      rw [more, after?_member m commaEnded, stop]
      split
      · exact ⟨_, rfl⟩
      · split
        · exact ⟨m.afterValue, _, rfl⟩
        · rw [comma]
          exact ih next

/-! ## The string behind the next colon -/

/-- The reader gets no string. -/
def Fails (result : Except Bytes Bytes) : Prop := ∀ v, result ≠ .ok v

theorem fails_error (message : Bytes) : Fails (.error message) := by
  intro v same
  cases same

theorem field_skip {front : Bytes} (key rest : Bytes) (absent : 58 ∉ front) :
    field key (front ++ rest) = field key rest := by
  have skipped : ∀ found, (cut? 58 rest).map (fun parts =>
      (front ++ parts.1, parts.2)) = found → cut? 58 (front ++ rest) = found := by
    rintro found rfl
    cases cut : cut? 58 rest with
    | none =>
        rw [cut?_eq_none_iff] at cut
        rw [Option.map_none, cut?_eq_none_iff, List.mem_append]
        exact not_or.mpr ⟨absent, cut⟩
    | some parts =>
        obtain ⟨noColon, rfl⟩ := cut?_eq_some_iff.mp cut
        rw [Option.map_some, cut?_eq_some_iff]
        refine ⟨?_, List.append_assoc _ _ _ |>.symm⟩
        rw [List.mem_append]
        exact not_or.mpr ⟨absent, noColon⟩
  rw [field, field, skipped _ rfl]
  cases cut? 58 rest with
  | none => rfl
  | some parts => rfl

theorem field_noColon {key rest : Bytes} (absent : 58 ∉ rest) : Fails (field key rest) := by
  rw [field, cut?_eq_none_iff.mpr absent]
  exact fails_error _

/-- A quote behind the blanks opens the string that is read. -/
theorem field_colon {rest text : Bytes} (key : Bytes)
    (behind : rest.dropWhile isBlank = 34 :: text) :
    field key (58 :: rest) = readString text [] := by
  rw [field, show cut? 58 (58 :: rest) = some ([], rest) from rfl]
  simp only [behind]

/-- Something other than a quote behind the blanks is refused. -/
theorem field_colon_fails {key rest : Bytes} {c : UInt8} {more : Bytes}
    (behind : rest.dropWhile isBlank = c :: more) (noQuote : c ≠ 34) :
    Fails (field key (58 :: rest)) := by
  rw [field, show cut? 58 (58 :: rest) = some ([], rest) from rfl]
  simp only [behind]
  split
  · rename_i same
    exact absurd (List.cons.inj same).1 noQuote
  · exact fails_error _

/-- Octets that are not all blank stop the skipping at one of them, which is no
quote when the quotes are escaped. -/
theorem dropWhile_isBlank {last : UInt8} {text : Bytes} (rest : Bytes)
    (escaped : (last :: text).IsChain Escaped) (noEscape : last ≠ 92)
    (solid : ¬ ∀ c ∈ text, isBlank c = true) :
    ∃ c more, (text ++ rest).dropWhile isBlank = c :: more ∧ c ≠ 34 := by
  induction text generalizing last with
  | nil => exact absurd (fun c none => (by cases none)) solid
  | cons c text ih =>
      obtain ⟨here, later⟩ := List.isChain_cons_cons.mp escaped
      by_cases blank : isBlank c = true
      · have notEscape : c ≠ 92 := by
          rintro rfl
          cases blank
        have solidLater : ¬ ∀ d ∈ text, isBlank d = true := by
          intro all
          apply solid
          rintro d member
          rcases List.mem_cons.mp member with rfl | inside
          · exact blank
          · exact all d inside
        obtain ⟨d, more, found, noQuote⟩ := ih later notEscape solidLater
        refine ⟨d, more, ?_, noQuote⟩
        rw [List.cons_append, List.dropWhile_cons, if_pos blank, found]
      · refine ⟨c, text ++ rest, ?_, fun quote => noEscape (here quote)⟩
        rw [List.cons_append, List.dropWhile_cons, if_neg blank]

/-- Only spaces and tabs stand between the colon and the value. -/
def Member.OnlyBlank (m : Member) : Prop := ∀ c ∈ m.beforeValue.text, isBlank c = true

instance (m : Member) : Decidable (Member.OnlyBlank m) :=
  decidable_of_iff (m.beforeValue.text.all isBlank = true) List.all_eq_true

theorem field_tail (key : Bytes) (m : Member) (more : Bytes) :
    if Member.OnlyBlank m then field key (m.tail ++ more) = .ok (utf8 (decoded m.value))
    else Fails (field key (m.tail ++ more)) := by
  have text : m.tail ++ more = m.afterKey.text ++ 58 :: (m.beforeValue.text ++
      (quoted m.value ++ (m.afterValue.text ++ more))) := by
    simp only [Member.tail, List.append_assoc, List.cons_append]
  split
  · rename_i blank
    rw [text]
    exact field_string key m.afterKey ⟨m.beforeValue.text, blank⟩ m.value _
  · rename_i solid
    have noQuote : 34 ∉ m.beforeValue.text := m.beforeValue.notMem (by decide)
    have chain : (58 :: m.beforeValue.text).IsChain Escaped :=
      isChain_of_notMem (by
        rw [List.mem_cons, not_or]
        exact ⟨by decide, noQuote⟩)
    obtain ⟨c, rest, behind, notQuote⟩ := dropWhile_isBlank
      (quoted m.value ++ (m.afterValue.text ++ more)) chain (by decide) solid
    rw [text, field_skip key _ (m.afterKey.notMem (by decide))]
    exact field_colon_fails behind notQuote

/-- A value that stops the search sends the reader into the next member. -/
theorem field_next (key : Bytes) (space : Space) (m : Member) (more : Bytes) :
    match cut? 58 (content m.key) with
    | none =>
        field key (space.text ++ 44 :: (m.text ++ more)) = field key (m.tail ++ more)
    | some (_, behind) =>
        if behind.all isBlank then
          field key (space.text ++ 44 :: (m.text ++ more)) =
            .ok (m.afterKey.text ++ 58 :: m.beforeValue.text)
        else Fails (field key (space.text ++ 44 :: (m.text ++ more))) := by
  have noColon : ∀ space : Space, 58 ∉ space.text := fun space => space.notMem (by decide)
  have noQuote : ∀ space : Space, 34 ∉ space.text := fun space => space.notMem (by decide)
  have noEscape : ∀ space : Space, 92 ∉ space.text := fun space => space.notMem (by decide)
  have opening : 58 ∉ space.text ++ 44 :: (m.beforeKey.text ++ [34]) := by
    simp only [List.mem_append, List.mem_cons, List.not_mem_nil, or_false, not_or]
    exact ⟨noColon _, by decide, noColon _, by decide⟩
  have text : space.text ++ 44 :: (m.text ++ more) =
      (space.text ++ 44 :: (m.beforeKey.text ++ [34])) ++
        (content m.key ++ 34 :: (m.tail ++ more)) := by
    simp only [Member.text, quoted, List.append_assoc, List.cons_append, List.nil_append]
  rw [text, field_skip key _ opening]
  cases cut : cut? 58 (content m.key) with
  | none =>
      have absent : 58 ∉ content m.key ++ [34] := by
        rw [List.mem_append, not_or]
        exact ⟨cut?_eq_none_iff.mp cut, by decide⟩
      rw [List.append_cons, field_skip key _ absent]
  | some parts =>
      obtain ⟨front, behind⟩ := parts
      obtain ⟨absent, content_eq⟩ := cut?_eq_some_iff.mp cut
      have chain : (58 :: behind).IsChain Escaped := by
        have all := (content_escaped m.key).1
        rw [content_eq] at all
        exact (List.isChain_append.mp all).2.1
      rw [content_eq, List.append_assoc, field_skip key _ absent, List.cons_append]
      simp only [List.all_eq_true]
      split
      · rename_i blank
        have reached : (behind ++ 34 :: (m.tail ++ more)).dropWhile isBlank =
            34 :: (m.tail ++ more) := by
          rw [List.dropWhile_append_of_pos blank]
          rfl
        have taken : m.tail ++ more = (m.afterKey.text ++ 58 :: m.beforeValue.text) ++
            34 :: (content m.value ++ 34 :: (m.afterValue.text ++ more)) := by
          simp only [Member.tail, quoted, List.append_assoc, List.cons_append,
            List.nil_append]
        rw [field_colon key reached, taken, readString_raw, readString, List.nil_append]
        · simp only [List.mem_append, List.mem_cons, not_or]
          exact ⟨noQuote _, by decide, noQuote _⟩
        · simp only [List.mem_append, List.mem_cons, not_or]
          exact ⟨noEscape _, by decide, noEscape _⟩
      · rename_i solid
        obtain ⟨c, rest, found, notQuote⟩ := dropWhile_isBlank
          (34 :: (m.tail ++ more)) chain (by decide) solid
        exact field_colon_fails found notQuote

/-! ## The lookup -/

def NamesUrl (m : Member) : Prop := decoded m.key = ['u', 'r', 'l']

/-- A member has the key, and its decoded value is `v`. -/
def HasUrl (o : FlatObject) (v : Bytes) : Prop :=
  ∃ m ∈ o.members, NamesUrl m ∧ v = utf8 (decoded m.value)

def NoUrl (o : FlatObject) : Prop := ∀ m ∈ o.members, ¬ NamesUrl m

/-- The lookup returns the value of the member with the key, and nothing when
there is no such member. -/
def Answered (o : FlatObject) : Prop :=
  ∀ v, jsonExtractString o.text (lit "url") = .ok v ↔ HasUrl o v

/-- What the literal at which the search stops has to be: the string behind it
is that of the member with the key, or no string is read and there is none. -/
def Located (o : FlatObject) : Prop :=
  match stop o.members with
  | none => NoUrl o
  | some (.key m) =>
      if Member.OnlyBlank m then HasUrl o (utf8 (decoded m.value)) else NoUrl o
  | some (.value none) => NoUrl o
  | some (.value (some m)) =>
      match cut? 58 (content m.key) with
      | none => if Member.OnlyBlank m then HasUrl o (utf8 (decoded m.value)) else NoUrl o
      | some (_, behind) =>
          if behind.all isBlank then HasUrl o (m.afterKey.text ++ 58 :: m.beforeValue.text)
          else NoUrl o

theorem HasUrl.unique {o : FlatObject} {v w : Bytes} (first : HasUrl o v)
    (second : HasUrl o w) : v = w := by
  obtain ⟨m, memberM, named, rfl⟩ := first
  obtain ⟨n, memberN, namedToo, rfl⟩ := second
  have same : m = n :=
    List.inj_on_of_nodup_map o.distinct memberM memberN (named.trans namedToo.symm)
  rw [same]

theorem answered_of_ok {o : FlatObject} {w : Bytes}
    (read : jsonExtractString o.text (lit "url") = .ok w) : Answered o ↔ HasUrl o w := by
  constructor
  · intro answered
    exact (answered w).mp read
  · intro present v
    rw [read, Except.ok.injEq]
    constructor
    · rintro rfl
      exact present
    · exact present.unique

theorem answered_of_fails {o : FlatObject}
    (failed : Fails (jsonExtractString o.text (lit "url"))) : Answered o ↔ NoUrl o := by
  constructor
  · intro answered m member named
    exact failed _ ((answered _).mpr ⟨m, member, named, rfl⟩)
  · intro absent v
    constructor
    · intro read
      exact absurd read (failed v)
    · rintro ⟨m, member, named, _⟩
      exact absurd named (absent m member)

/-- The search in a whole object. -/
theorem stopsAt_object (o : FlatObject) :
    StopsAt (125 :: o.after.text) (after? [34, 117, 114, 108, 34] o.text)
      (stop o.members) := by
  have noQuote : ∀ space : Space, 34 ∉ space.text := fun space => space.notMem (by decide)
  have front : 34 ∉ o.before.text ++ [123] := by
    simp only [List.mem_append, List.mem_singleton, not_or]
    exact ⟨noQuote _, by decide⟩
  have back : 34 ∉ 125 :: o.after.text := by
    rw [List.mem_cons, not_or]
    exact ⟨by decide, noQuote _⟩
  have ended : ∀ c ∈ (125 :: o.after.text).head?, c ≠ 117 := by
    rintro c ⟨rfl⟩
    decide
  rw [FlatObject.text, List.append_cons, after?_skip front, FlatObject.inner]
  cases o.members with
  | nil =>
      have skipped := @after?_skip 34 [117, 114, 108, 34] _
        (show 34 ∉ o.inside.text ++ 125 :: o.after.text by
          rw [List.mem_append, not_or]
          exact ⟨noQuote _, back⟩) []
      rw [List.append_nil] at skipped
      exact skipped
  | cons m members =>
      simp only [List.append_assoc]
      exact stopsAt_members m members back ended

/-- The result of the lookup goes by the literal at which the search stops. -/
theorem jsonExtractString_found {o : FlatObject} {rest : Bytes}
    (found : after? [34, 117, 114, 108, 34] o.text = some rest) :
    jsonExtractString o.text (lit "url") = field (lit "url") rest := by
  have search : after? (34 :: (lit "url" ++ [34])) o.text = some rest := found
  rw [FlatObject.text] at search ⊢
  rw [jsonExtractString_braces, search]

theorem jsonExtractString_missing {o : FlatObject}
    (missing : after? [34, 117, 114, 108, 34] o.text = none) :
    Fails (jsonExtractString o.text (lit "url")) := by
  have search : after? (34 :: (lit "url" ++ [34])) o.text = none := missing
  rw [FlatObject.text] at search ⊢
  rw [jsonExtractString_braces, search]
  exact fails_error _

/-- The reader behind the key of a member. -/
theorem answered_at_tail {o : FlatObject} {m : Member} {more : Bytes}
    (reads : jsonExtractString o.text (lit "url") = field (lit "url") (m.tail ++ more)) :
    Answered o ↔
      if Member.OnlyBlank m then HasUrl o (utf8 (decoded m.value)) else NoUrl o := by
  have behind := field_tail (lit "url") m more
  rw [← reads] at behind
  split at behind
  · rename_i blank
    rw [if_pos blank]
    exact answered_of_ok behind
  · rename_i solid
    rw [if_neg solid]
    exact answered_of_fails behind

/-- On a flat object the lookup does its work exactly when the first literal
that ends in the quoted key leads it to the right string. -/
theorem answered_iff_located (o : FlatObject) : Answered o ↔ Located o := by
  have search := stopsAt_object o
  rw [Located]
  cases stopped : stop o.members with
  | none =>
      rw [stopped] at search
      exact answered_of_fails (jsonExtractString_missing search)
  | some place =>
      rw [stopped] at search
      cases place with
      | key m =>
          obtain ⟨more, found⟩ := search
          exact answered_at_tail (jsonExtractString_found found)
      | value next =>
          cases next with
          | none =>
              obtain ⟨space, found⟩ := search
              apply answered_of_fails
              rw [jsonExtractString_found found]
              apply field_noColon
              rw [List.mem_append, List.mem_cons, not_or, not_or]
              exact ⟨space.notMem (by decide), by decide, o.after.notMem (by decide)⟩
          | some m =>
              obtain ⟨space, more, found⟩ := search
              have behind := field_next (lit "url") space m more
              have read := jsonExtractString_found found
              simp only
              cases cut : cut? 58 (content m.key) with
              | none =>
                  rw [cut] at behind
                  exact answered_at_tail (read.trans behind)
              | some parts =>
                  rw [cut] at behind
                  simp only at behind ⊢
                  rw [← read] at behind
                  split at behind
                  · rename_i blank
                    rw [if_pos blank]
                    exact answered_of_ok behind
                  · rename_i solid
                    rw [if_neg solid]
                    exact answered_of_fails behind

/-- A member written without white space. -/
def compact (key value : List Written) (legal : ∀ w ∈ key ++ value, w.Legal) : Member where
  beforeKey := .none
  key := key
  afterKey := .none
  beforeValue := .none
  value := value
  afterValue := .none
  legal := legal

/-- The object `\x7b"a":"url","b":"c"\x7d`. -/
def misread : FlatObject where
  before := .none
  inside := .none
  members :=
    [compact [.raw 'a' (by decide)]
        [.raw 'u' (by decide), .raw 'r' (by decide), .raw 'l' (by decide)] (by decide),
      compact [.raw 'b' (by decide)] [.raw 'c' (by decide)] (by decide)]
  after := .none
  distinct := by decide

/-- The value of the first member is taken for the key, and the lookup returns
the value of the second. -/
theorem not_answered_misread :
    misread.text = lit "\x7b\"a\":\"url\",\"b\":\"c\"\x7d" ∧
      jsonExtractString misread.text (lit "url") = .ok (lit "c") ∧
      NoUrl misread ∧ ¬ Answered misread := by
  have found : after? [34, 117, 114, 108, 34] misread.text =
      some (lit ",\"b\"" ++ lit ":\"c\"\x7d") := by
    decide
  have read : jsonExtractString misread.text (lit "url") = .ok (lit "c") := by
    rw [jsonExtractString_found found, field_skip _ _ (by decide)]
    exact field_string (lit "url") .none
      ⟨[], fun _ member => absurd member List.not_mem_nil⟩ [.raw 'c' (by decide)] [125]
  have absent : NoUrl misread := by
    simp [NoUrl, NamesUrl, misread, compact, decoded, Written.char]
  refine ⟨by decide, read, absent, ?_⟩
  intro answered
  obtain ⟨m, member, named, _⟩ := (answered_of_ok read).mp answered
  exact absent m member named

end ShortUrlApp

end MiniNet
