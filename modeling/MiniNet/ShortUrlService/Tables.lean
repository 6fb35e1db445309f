import MiniNet.ShortUrlService
import MiniNet.Lib.Serial

/-!
# The two tables are inverse to each other

`Consistent urls s` says what the store looks like after `shorten` was called
with `urls`, in this order and with any other calls in between: the tables
are inverse, they hold exactly these urls, and the code of a url is made from
its serial number.  Every operation keeps it.  `Extends` is the other half:
an entry stays, with its url and its time of creation.
-/

namespace MiniNet

open Bytes Serial

namespace ShortUrlService

/-- A url has a code exactly when the code's entry has the url. -/
def Inverse (s : ShortUrlService) : Prop :=
  ∀ url code, s.byUrl.lookup url = some code ↔
    ∃ entry, s.byCode.lookup code = some entry ∧ entry.url = url

/-- Nothing stored in `s` is lost or changed in `t`, hits apart. -/
structure Extends (s t : ShortUrlService) : Prop where
  byCode : ∀ code entry, s.byCode.lookup code = some entry →
    ∃ later, t.byCode.lookup code = some later ∧ later.url = entry.url ∧
      later.createdAt = entry.createdAt
  byUrl : ∀ url code, s.byUrl.lookup url = some code →
    t.byUrl.lookup url = some code

theorem Extends.refl (s : ShortUrlService) : Extends s s :=
  ⟨fun _ entry found => ⟨entry, found, rfl, rfl⟩, fun _ _ found => found⟩

theorem Extends.trans {s t u : ShortUrlService} (first : Extends s t)
    (second : Extends t u) : Extends s u := by
  constructor
  · intro code entry found
    obtain ⟨middle, foundMiddle, url, created⟩ := first.byCode code entry found
    obtain ⟨later, foundLater, url', created'⟩ :=
      second.byCode code middle foundMiddle
    exact ⟨later, foundLater, url'.trans url, created'.trans created⟩
  · intro url code found
    exact second.byUrl url code (first.byUrl url code found)

/-- As long as the counter has not wrapped round, it counts the entries and a
url's code is made from its serial number. -/
structure Numbered (urls : List Bytes) (s : ShortUrlService) : Prop where
  counter : s.counter.toNat = s.size
  code : ∀ url code, s.byUrl.lookup url = some code →
    code = base62 (UInt64.ofNat (serial urls url))

structure Consistent (urls : List Bytes) (s : ShortUrlService) : Prop where
  inverse : Inverse s
  stored : ∀ url, url ∈ s.byUrl ↔ url ∈ urls
  size : s.size = urls.toFinset.card
  numbered : s.size < 2 ^ 64 → Numbered urls s

theorem consistent_empty : Consistent [] {} where
  inverse url code := by
    constructor
    · intro found
      cases found
    · rintro ⟨entry, found, _⟩
      cases found
  stored url := by simp
  size := rfl
  numbered _ := ⟨rfl, fun url code found => by cases found⟩

/-! ## The operations -/

theorem length_keys_insert_of_notMem {α : Type} [DecidableEq α] {β : α → Type}
    {table : AList β} {key : α} (absent : key ∉ table) (value : β key) :
    (table.insert key value).keys.length = table.keys.length + 1 := by
  rw [AList.keys_insert, List.erase_of_not_mem absent, List.length_cons]

theorem length_keys_insert_of_mem {α : Type} [DecidableEq α] {β : α → Type}
    {table : AList β} {key : α} (present : key ∈ table) (value : β key) :
    (table.insert key value).keys.length = table.keys.length := by
  have positive := List.length_pos_of_mem (AList.mem_keys.mp present)
  rw [AList.keys_insert, List.length_cons, List.length_erase_of_mem present]
  omega

/-- What `shorten` can do: find the url, or store it under an unused code. -/
theorem shorten_cases {s t : ShortUrlService} {url code : Bytes} {now : Int}
    (shortened : s.shorten url now = some (t, code)) :
    (s.byUrl.lookup url = some code ∧
        t = { s with shortenTotal := s.shortenTotal + 1 }) ∨
      (s.byUrl.lookup url = none ∧ code ∉ s.byCode ∧
        ∃ counter, code = base62 counter ∧
          (counter = s.counter + 1 ∨ base62 (s.counter + 1) ∈ s.byCode) ∧
          t = { s with
            byCode := s.byCode.insert code { url, hits := 0, createdAt := now }
            byUrl := s.byUrl.insert url code
            counter
            shortenTotal := s.shortenTotal + 1 }) := by
  unfold shorten at shortened
  split at shortened
  · rename_i known
    cases shortened
    exact .inl ⟨known, rfl⟩
  · rename_i unknown
    obtain ⟨⟨counter, _⟩, found, equal⟩ := Option.map_eq_some_iff.mp shortened
    cases equal
    obtain ⟨unused, made⟩ := nextCode_eq_some found
    refine .inr ⟨unknown, unused, counter, made, ?_, rfl⟩
    by_cases used : base62 (s.counter + 1) ∈ s.byCode
    · exact .inr used
    · rw [nextCode, if_neg used] at found
      cases found
      exact .inl rfl

theorem Extends.shorten {s t : ShortUrlService} {url code : Bytes} {now : Int}
    (shortened : s.shorten url now = some (t, code)) :
    Extends s t ∧ t.byUrl.lookup url = some code := by
  obtain ⟨known, rfl⟩ | ⟨unknown, unused, counter, made, _, rfl⟩ :=
    shorten_cases shortened
  · exact ⟨⟨(Extends.refl s).byCode, (Extends.refl s).byUrl⟩, known⟩
  · refine ⟨⟨?_, ?_⟩, AList.lookup_insert _⟩
    · intro other entry found
      have different : other ≠ code := by
        rintro rfl
        exact unused (AList.lookup_isSome.mp (by rw [found]; rfl))
      exact ⟨entry, (AList.lookup_insert_ne different).trans found, rfl, rfl⟩
    · intro other otherCode found
      have different : other ≠ url := by
        rintro rfl
        rw [unknown] at found
        cases found
      exact (AList.lookup_insert_ne different).trans found

theorem Inverse.insert {s : ShortUrlService} (inverse : Inverse s)
    {url code : Bytes} (unknown : s.byUrl.lookup url = none)
    (unused : code ∉ s.byCode) (entry : Entry) (same : entry.url = url) :
    Inverse { s with
      byCode := s.byCode.insert code entry
      byUrl := s.byUrl.insert url code } := by
  intro u c
  have notStored : ∀ e, s.byCode.lookup code ≠ some e := by
    intro e found
    exact unused (AList.lookup_isSome.mp (by rw [found]; rfl))
  have fresh : ∀ e, s.byCode.lookup c = some e → e.url ≠ url := by
    intro e found otherwise
    have known := (inverse url c).mpr ⟨e, found, otherwise⟩
    rw [unknown] at known
    cases known
  by_cases sameUrl : u = url <;> by_cases sameCode : c = code
  · subst u c
    simp only [AList.lookup_insert, true_iff]
    exact ⟨entry, rfl, same⟩
  · subst u
    simp only [AList.lookup_insert, AList.lookup_insert_ne sameCode,
      Option.some.injEq]
    exact iff_of_false (Ne.symm sameCode)
      (fun ⟨e, found, otherwise⟩ => fresh e found otherwise)
  · subst c
    simp only [AList.lookup_insert, AList.lookup_insert_ne sameUrl]
    refine iff_of_false ?_ ?_
    · intro known
      obtain ⟨e, found, _⟩ := (inverse u code).mp known
      exact notStored e found
    · rintro ⟨e, found, otherwise⟩
      cases found
      exact sameUrl (otherwise.symm.trans same)
  · simp only [AList.lookup_insert_ne sameUrl, AList.lookup_insert_ne sameCode]
    exact inverse u c

theorem Numbered.toNat_next {urls : List Bytes} {s : ShortUrlService}
    (numbered : Numbered urls s) (room : s.size + 1 < 2 ^ 64) :
    (s.counter + 1).toNat = s.size + 1 := by
  rw [UInt64.toNat_add, numbered.counter]
  exact Nat.mod_eq_of_lt room

theorem Numbered.next {urls : List Bytes} {s : ShortUrlService}
    (numbered : Numbered urls s) : s.counter + 1 = UInt64.ofNat (s.size + 1) := by
  rw [UInt64.ofNat_add, ← numbered.counter, UInt64.ofNat_toNat]
  rfl

/-- Until the counter has taken every value, the first code it produces is
unused. -/
theorem Consistent.unused {urls : List Bytes} {s : ShortUrlService}
    (consistent : Consistent urls s) (room : s.size < 2 ^ 64) :
    base62 (s.counter + 1) ∉ s.byCode := by
  intro used
  have numbered := consistent.numbered room
  obtain ⟨entry, found⟩ := Option.isSome_iff_exists.mp (AList.lookup_isSome.mpr used)
  have known := (consistent.inverse entry.url _).mpr ⟨entry, found, rfl⟩
  have member : entry.url ∈ urls :=
    (consistent.stored _).mp (AList.lookup_isSome.mp (by rw [known]; rfl))
  have atMost : serial urls entry.url ≤ s.size :=
    consistent.size ▸ serial_le_card member
  have positive : 0 < serial urls entry.url := Nat.succ_pos _
  have numbers := congrArg UInt64.toNat
    (base62_injective (numbered.code _ _ known))
  rw [numbered.next, UInt64.toNat_ofNat', UInt64.toNat_ofNat_of_lt' (by
    simp only [UInt64.size]; omega)] at numbers
  omega

theorem Consistent.shorten {urls : List Bytes} {s t : ShortUrlService}
    (consistent : Consistent urls s) {url code : Bytes} {now : Int}
    (shortened : s.shorten url now = some (t, code)) :
    Consistent (urls ++ [url]) t := by
  have serials : ∀ u ∈ urls, serial (urls ++ [url]) u = serial urls u :=
    fun u member => serial_append_of_mem member [url]
  have codes : ∀ u c, s.byUrl.lookup u = some c → u ∈ urls := fun u c found =>
    (consistent.stored u).mp (AList.lookup_isSome.mp (by rw [found]; rfl))
  obtain ⟨known, rfl⟩ | ⟨unknown, unused, counter, made, next, rfl⟩ :=
    shorten_cases shortened
  · have member := codes url code known
    refine ⟨consistent.inverse, ?_, ?_, ?_⟩
    · intro u
      rw [consistent.stored u, List.mem_append, List.mem_singleton]
      constructor
      · exact .inl
      · rintro (old | rfl)
        · exact old
        · exact member
    · have sameUrls : (urls ++ [url]).toFinset = urls.toFinset := by
        simp [List.toFinset_append, member]
      rw [sameUrls]
      exact consistent.size
    · intro small
      obtain ⟨count, code⟩ := consistent.numbered small
      refine ⟨count, ?_⟩
      intro u c found
      rw [serials u (codes u c found)]
      exact code u c found
  · have absent : url ∉ urls := by
      rw [← consistent.stored]
      exact AList.lookup_eq_none.mp unknown
    refine ⟨consistent.inverse.insert unknown unused _ rfl, ?_, ?_, ?_⟩
    · intro u
      rw [AList.mem_insert, consistent.stored, List.mem_append,
        List.mem_singleton, or_comm]
    · have larger : (urls ++ [url]).toFinset.card = urls.toFinset.card + 1 := by
        rw [List.toFinset_append, Finset.card_union_of_disjoint (by simpa)]
        simp
      rw [larger, ← consistent.size]
      exact length_keys_insert_of_notMem unused _
    · intro small
      have room : s.size + 1 < 2 ^ 64 := by
        rwa [ShortUrlService.size, length_keys_insert_of_notMem unused] at small
      have numbered := consistent.numbered (by omega)
      have next : counter = s.counter + 1 :=
        next.resolve_right (consistent.unused (by omega))
      have count := numbered.toNat_next room
      constructor
      · rw [ShortUrlService.size, length_keys_insert_of_notMem unused, next]
        exact count
      · intro u c found
        by_cases same : u = url
        · subst u
          cases (AList.lookup_insert s.byUrl).symm.trans found
          rw [serial_append_self absent, ← consistent.size, made, next, numbered.next]
        · have old := (AList.lookup_insert_ne same).symm.trans found
          rw [serials u (codes u c old)]
          exact numbered.code u c old

theorem Consistent.lookup {urls : List Bytes} {s : ShortUrlService}
    (consistent : Consistent urls s) (code : Bytes) :
    Consistent urls (s.lookup code).1 ∧ Extends s (s.lookup code).1 := by
  unfold ShortUrlService.lookup
  split
  · exact ⟨consistent, Extends.refl s⟩
  · rename_i entry stored
    have present : code ∈ s.byCode :=
      AList.lookup_isSome.mp (by rw [stored]; rfl)
    have hit : ∀ c e, s.byCode.lookup c = some e →
        ∃ later, (s.byCode.insert code { entry with hits := entry.hits + 1 }).lookup
            c = some later ∧
          later.url = e.url ∧ later.createdAt = e.createdAt := by
      intro c e found
      by_cases same : c = code
      · subst c
        cases stored.symm.trans found
        exact ⟨_, AList.lookup_insert _, rfl, rfl⟩
      · exact ⟨e, (AList.lookup_insert_ne same).trans found, rfl, rfl⟩
    have sameSize : ShortUrlService.size { s with
        byCode := s.byCode.insert code { entry with hits := entry.hits + 1 }
        redirectTotal := s.redirectTotal + 1 } = s.size :=
      length_keys_insert_of_mem present _
    refine ⟨⟨?_, consistent.stored, ?_, ?_⟩, ⟨hit, fun _ _ found => found⟩⟩
    · intro url c
      rw [consistent.inverse url c]
      constructor
      · rintro ⟨e, found, rfl⟩
        obtain ⟨later, foundLater, url, _⟩ := hit c e found
        exact ⟨later, foundLater, url⟩
      · rintro ⟨later, foundLater, rfl⟩
        by_cases same : c = code
        · subst c
          cases (AList.lookup_insert s.byCode).symm.trans foundLater
          exact ⟨entry, stored, rfl⟩
        · exact ⟨later, (AList.lookup_insert_ne same).symm.trans foundLater, rfl⟩
    · rw [sameSize]
      exact consistent.size
    · intro small
      rw [sameSize] at small
      obtain ⟨counter, codes⟩ := consistent.numbered small
      exact ⟨counter.trans sameSize.symm, codes⟩

theorem Consistent.exists_shorten {urls : List Bytes} {s : ShortUrlService}
    (consistent : Consistent urls s) (room : s.size < 2 ^ 64) (url : Bytes)
    (now : Int) : ∃ t code, s.shorten url now = some (t, code) := by
  unfold ShortUrlService.shorten
  split
  · exact ⟨_, _, rfl⟩
  · rw [nextCode, if_neg (consistent.unused room)]
    exact ⟨_, _, rfl⟩

/-! ## Any sequence of calls -/

/-- The url that a call passes to `shorten`. -/
def Call.url? : Call → Option Bytes
  | .shorten url _ => some url
  | _ => none

/-- The urls passed to `shorten`, in order. -/
def shortened (calls : List Call) : List Bytes := calls.filterMap Call.url?

/-- The state and the trace of a sequence of calls. -/
structure Kept (trace : List (Call × Reply)) (s : ShortUrlService) : Prop where
  consistent : Consistent (shortened (trace.map Prod.fst)) s
  replies : ∀ url now reply, (.shorten url now, reply) ∈ trace →
    ∃ code, reply = .code code ∧ s.byUrl.lookup url = some code

theorem Consistent.call {urls : List Bytes} {s t : ShortUrlService}
    (consistent : Consistent urls s) {c : Call} {reply : Reply}
    (called : s.call c = some (t, reply)) :
    Consistent (urls ++ (shortened [c])) t ∧ Extends s t ∧
      ∀ url now, c = .shorten url now →
        ∃ code, reply = .code code ∧ t.byUrl.lookup url = some code := by
  cases c with
  | shorten url now =>
      obtain ⟨⟨t, code⟩, done, equal⟩ := Option.map_eq_some_iff.mp called
      cases equal
      obtain ⟨grown, stored⟩ := Extends.shorten done
      refine ⟨consistent.shorten done, grown, ?_⟩
      rintro _ _ ⟨rfl, rfl⟩
      exact ⟨code, rfl, stored⟩
  | lookup code =>
      cases called
      obtain ⟨kept, grown⟩ := consistent.lookup code
      rw [show shortened [.lookup code] = [] from rfl, List.append_nil]
      exact ⟨kept, grown, nofun⟩
  | stats code =>
      cases called
      rw [show shortened [.stats code] = [] from rfl, List.append_nil]
      exact ⟨consistent, Extends.refl s, nofun⟩
  | size =>
      cases called
      rw [show shortened [.size] = [] from rfl, List.append_nil]
      exact ⟨consistent, Extends.refl s, nofun⟩

theorem kept_empty : Kept [] {} where
  consistent := consistent_empty
  replies _ _ _ member := by cases member

/-- Different urls have got different codes. -/
theorem Kept.code_eq_iff {trace : List (Call × Reply)} {s : ShortUrlService}
    (kept : Kept trace s) {url other code otherCode : Bytes} {now later : Int}
    (asked : (.shorten url now, .code code) ∈ trace)
    (askedOther : (.shorten other later, .code otherCode) ∈ trace) :
    code = otherCode ↔ url = other := by
  obtain ⟨_, ⟨rfl⟩, stored⟩ := kept.replies _ _ _ asked
  obtain ⟨_, ⟨rfl⟩, storedOther⟩ := kept.replies _ _ _ askedOther
  constructor
  · rintro rfl
    obtain ⟨entry, found, rfl⟩ := (kept.consistent.inverse _ _).mp stored
    obtain ⟨_, foundOther, rfl⟩ := (kept.consistent.inverse _ _).mp storedOther
    cases found.symm.trans foundOther
    rfl
  · rintro rfl
    exact Option.some.inj (stored.symm.trans storedOther)

theorem Kept.call {trace : List (Call × Reply)} {s t : ShortUrlService}
    (kept : Kept trace s) {c : Call} {reply : Reply}
    (called : s.call c = some (t, reply)) : Kept (trace ++ [(c, reply)]) t := by
  obtain ⟨consistent, grown, answered⟩ := kept.consistent.call called
  constructor
  · rwa [List.map_append, shortened, List.filterMap_append]
  · intro url now r member
    rcases List.mem_append.mp member with old | new
    · obtain ⟨code, rfl, stored⟩ := kept.replies url now r old
      exact ⟨code, rfl, grown.byUrl url code stored⟩
    · cases List.mem_singleton.mp new
      exact answered url now rfl

theorem Kept.size_le {trace : List (Call × Reply)} {s : ShortUrlService}
    (kept : Kept trace s) : s.size ≤ trace.length := by
  rw [kept.consistent.size]
  calc
    _ ≤ (shortened (trace.map Prod.fst)).length := List.toFinset_card_le _
    _ ≤ (trace.map Prod.fst).length := List.length_filterMap_le _ _
    _ = trace.length := List.length_map _

theorem Kept.exists_call {trace : List (Call × Reply)} {s : ShortUrlService}
    (kept : Kept trace s) (few : trace.length + 1 < 2 ^ 64) (c : Call) :
    ∃ t reply, s.call c = some (t, reply) ∧ Kept (trace ++ [(c, reply)]) t := by
  have answered : ∃ t reply, s.call c = some (t, reply) := by
    cases c with
    | shorten url now =>
        have room := kept.size_le
        obtain ⟨t, code, done⟩ :=
          kept.consistent.exists_shorten (by omega) url now
        exact ⟨t, .code code, by rw [ShortUrlService.call, done]; rfl⟩
    | lookup code => exact ⟨_, _, rfl⟩
    | stats code => exact ⟨_, _, rfl⟩
    | size => exact ⟨_, _, rfl⟩
  obtain ⟨t, reply, called⟩ := answered
  exact ⟨t, reply, called, kept.call called⟩

theorem run_extends {urls : List Bytes} {s t : ShortUrlService}
    (consistent : Consistent urls s) {calls : List Call}
    {trace : List (Call × Reply)}
    (ran : Machine.run call s calls = some (t, trace)) : Extends s t := by
  have kept : ∃ urls, Consistent urls t ∧ Extends s t := by
    refine Machine.run_induct (motive := fun _ t =>
      ∃ urls, Consistent urls t ∧ Extends s t) ?_ ⟨urls, consistent, .refl s⟩ ran
    rintro past m c n reply ⟨urls, consistent, grown⟩ called
    obtain ⟨next, more, _⟩ := consistent.call called
    exact ⟨_, next, grown.trans more⟩
  obtain ⟨_, _, grown⟩ := kept
  exact grown

/-- Every sequence of fewer than `2 ^ 64` calls on an empty store is answered.
The tables end up inverse to each other, a url always got the code under which it
is stored and different urls got different codes, the entries count the urls, and
what any earlier part of the sequence had stored is still there. -/
theorem run_inverse_tables (calls : List Call) (few : calls.length < 2 ^ 64) :
    ∃ s trace, Machine.run call {} calls = some (s, trace) ∧
      Inverse s ∧
      (∀ url now reply, (.shorten url now, reply) ∈ trace →
        ∃ code, reply = .code code ∧ s.byUrl.lookup url = some code) ∧
      (∀ url now code other later otherCode,
        (.shorten url now, .code code) ∈ trace →
        (.shorten other later, .code otherCode) ∈ trace →
        (code = otherCode ↔ url = other)) ∧
      s.size = (shortened calls).toFinset.card ∧
      ∀ earlier rest, calls = earlier ++ rest →
        ∃ m before, Machine.run call {} earlier = some (m, before) ∧
          Extends m s := by
  obtain ⟨s, trace, ran, kept⟩ := Machine.run_total (motive := Kept)
    (fun past s c short kept => kept.exists_call (by omega) c)
    kept_empty calls
    (Nat.le_sub_one_of_lt few)
  refine ⟨s, trace, ran, kept.consistent.inverse, ?_, ?_, ?_, ?_⟩
  · exact kept.replies
  · intro url now code other later otherCode asked askedOther
    exact kept.code_eq_iff asked askedOther
  · have size := kept.consistent.size
    rwa [Machine.map_fst_run ran] at size
  · rintro earlier rest rfl
    obtain ⟨m, before, after, ranEarlier, ranRest, rfl⟩ :=
      Machine.run_append_eq_some.mp ran
    refine ⟨m, before, ranEarlier, ?_⟩
    have consistent : Kept before m := Machine.run_induct
      (fun past m c n reply kept called => kept.call called) kept_empty ranEarlier
    exact run_extends consistent.consistent ranRest

theorem run_inverse_tables_three :
    let calls : List Call :=
      [.shorten (lit "http://a") 7, .shorten (lit "http://b") 8, .size]
    ∃ s trace, Machine.run call {} calls = some (s, trace) ∧ Inverse s ∧
      s.size = 2 := by
  intro calls
  obtain ⟨s, trace, ran, inverse, _, _, size, _⟩ :=
    run_inverse_tables calls (by decide)
  exact ⟨s, trace, ran, inverse, size.trans (by decide)⟩

end ShortUrlService

end MiniNet
