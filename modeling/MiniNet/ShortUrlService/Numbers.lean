import MiniNet.ShortUrlService.Tables

/-!
# Codes up to the last one

The counter has `2 ^ 64` values.  Until it has taken all of them, also when it
wraps round, the code of a url is made from the url's serial number, and after
that no further url is stored.  So `shorten` returns exactly for the urls
whose serial number is at most `2 ^ 64`.  Before the counter wraps round, the
loop of `shorten` never needs a second turn.
-/

namespace MiniNet

open Bytes Serial

namespace ShortUrlService

/-- What `Numbered` says about codes, for every store that can be reached. -/
structure Enumerated (urls : List Bytes) (s : ShortUrlService) : Prop where
  size_le : s.size ≤ 2 ^ 64
  code : ∀ url code, s.byUrl.lookup url = some code →
    code = base62 (UInt64.ofNat (serial urls url))

theorem enumerated_empty : Enumerated [] {} where
  size_le := Nat.zero_le _
  code url code found := by cases found

/-- There are only as many codes as values of the counter. -/
theorem length_keys_le {table : AList fun _ : Bytes => Entry}
    (made : ∀ code ∈ table, ∃ n, code = base62 n) : table.keys.length ≤ 2 ^ 64 := by
  have values : ∀ code ∈ table.keys.toFinset, codeValue code ∈ Finset.range (2 ^ 64) := by
    intro code member
    obtain ⟨n, rfl⟩ := made code (List.mem_toFinset.mp member)
    rw [codeValue_base62, Finset.mem_range]
    exact UInt64.toNat_lt _
  have distinct : Set.InjOn codeValue table.keys.toFinset := by
    intro code member other otherMember same
    obtain ⟨n, rfl⟩ := made code (List.mem_toFinset.mp member)
    obtain ⟨m, rfl⟩ := made other (List.mem_toFinset.mp otherMember)
    rw [codeValue_base62, codeValue_base62] at same
    rw [(UInt64.add_left_inj 100000).mp (UInt64.toNat_inj.mp same)]
  calc
    table.keys.length = table.keys.toFinset.card :=
      (List.toFinset_card_of_nodup table.nodupKeys).symm
    _ ≤ (Finset.range (2 ^ 64)).card := Finset.card_le_card_of_injOn _ values distinct
    _ = 2 ^ 64 := Finset.card_range _

theorem Enumerated.made {urls : List Bytes} {s : ShortUrlService}
    (enumerated : Enumerated urls s) (inverse : Inverse s) :
    ∀ code ∈ s.byCode, ∃ n, code = base62 n := by
  intro code member
  obtain ⟨entry, found⟩ := Option.isSome_iff_exists.mp (AList.lookup_isSome.mpr member)
  exact ⟨_, enumerated.code _ _ ((inverse _ _).mpr ⟨entry, found, rfl⟩)⟩

theorem Enumerated.shorten {urls : List Bytes} {s t : ShortUrlService}
    (enumerated : Enumerated urls s) (consistent : Consistent urls s) {url code : Bytes}
    {now : Int} (shortened : s.shorten url now = some (t, code)) :
    Enumerated (urls ++ [url]) t := by
  have old : ∀ u c, s.byUrl.lookup u = some c →
      c = base62 (UInt64.ofNat (serial (urls ++ [url]) u)) := by
    intro u c found
    have member : u ∈ urls :=
      (consistent.stored u).mp (AList.lookup_isSome.mp (by rw [found]; rfl))
    rw [serial_append_of_mem member]
    exact enumerated.code u c found
  obtain ⟨known, rfl⟩ | ⟨unknown, unused, counter, made, next, rfl⟩ :=
    shorten_cases shortened
  · exact ⟨enumerated.size_le, old⟩
  · have grown := length_keys_insert_of_notMem unused { url, hits := 0, createdAt := now }
    have codes : ∀ other ∈ s.byCode.insert code { url, hits := 0, createdAt := now },
        ∃ n, other = base62 n := by
      intro other member
      rcases (AList.mem_insert _).mp member with rfl | stored
      · exact ⟨counter, made⟩
      · exact enumerated.made consistent.inverse other stored
    have atMost := length_keys_le codes
    have room : s.size < 2 ^ 64 := by
      rw [grown] at atMost
      exact atMost
    have absent : url ∉ urls := by
      rw [← consistent.stored]
      exact AList.lookup_eq_none.mp unknown
    refine ⟨atMost, ?_⟩
    intro u c found
    by_cases same : u = url
    · subst u
      cases (AList.lookup_insert s.byUrl).symm.trans found
      rw [serial_append_self absent, ← consistent.size, made,
        next.resolve_right (consistent.unused room), (consistent.numbered room).next]
    · exact old u c ((AList.lookup_insert_ne same).symm.trans found)

theorem Enumerated.lookup {urls : List Bytes} {s : ShortUrlService}
    (enumerated : Enumerated urls s) (consistent : Consistent urls s) (code : Bytes) :
    Enumerated urls (s.lookup code).1 := by
  have sameUrls : (s.lookup code).1.byUrl = s.byUrl := by
    unfold ShortUrlService.lookup
    split <;> rfl
  have sameSize : (s.lookup code).1.size = s.size :=
    (consistent.lookup code).1.size.trans consistent.size.symm
  constructor
  · rw [sameSize]
    exact enumerated.size_le
  · rw [sameUrls]
    exact enumerated.code

/-- `shorten` returns for the first `2 ^ 64` urls and for no other. -/
theorem Enumerated.exists_shorten_iff {urls : List Bytes} {s : ShortUrlService}
    (enumerated : Enumerated urls s) (consistent : Consistent urls s) (url : Bytes)
    (now : Int) :
    (∃ t code, s.shorten url now = some (t, code)) ↔ serial urls url ≤ 2 ^ 64 := by
  constructor
  · rintro ⟨t, code, shortened⟩
    have after := consistent.shorten shortened
    calc
      serial urls url = serial (urls ++ [url]) url := (serial_concat_self urls url).symm
      _ ≤ (urls ++ [url]).toFinset.card := serial_le_card (by simp)
      _ = t.size := after.size.symm
      _ ≤ 2 ^ 64 := (enumerated.shorten consistent shortened).size_le
  · intro numbered
    by_cases member : url ∈ urls
    · obtain ⟨code, known⟩ := Option.isSome_iff_exists.mp
        (AList.lookup_isSome.mpr ((consistent.stored url).mpr member))
      rw [ShortUrlService.shorten, known]
      exact ⟨_, _, rfl⟩
    · rw [← serial_concat_self, serial_append_self member, ← consistent.size] at numbered
      exact consistent.exists_shorten numbered url now

/-! ## The first turn of the loop -/

/-- The call does not take the counter back. -/
def Unwrapped (s : ShortUrlService) (c : Call) : Prop :=
  ∀ t reply, s.call c = some (t, reply) → s.counter ≤ t.counter

/-- The counter counts the entries as long as it has not wrapped round. -/
theorem Consistent.counter_call {urls : List Bytes} {s t : ShortUrlService} {c : Call}
    {reply : Reply} (consistent : Consistent urls s) (counts : s.counter.toNat = s.size)
    (unwrapped : s.Unwrapped c) (called : s.call c = some (t, reply)) :
    t.counter.toNat = t.size := by
  have up : s.counter ≤ t.counter := unwrapped t reply called
  cases c with
  | shorten url now =>
      obtain ⟨⟨t, code⟩, done, equal⟩ := Option.map_eq_some_iff.mp called
      cases equal
      obtain ⟨known, rfl⟩ | ⟨unknown, unused, counter, made, next, rfl⟩ :=
        shorten_cases done
      · exact counts
      · have room : s.size < 2 ^ 64 := counts ▸ UInt64.toNat_lt _
        obtain rfl : counter = s.counter + 1 :=
          next.resolve_right (consistent.unused room)
        rw [ShortUrlService.size, length_keys_insert_of_notMem unused]
        show (s.counter + 1).toNat = s.size + 1
        rw [UInt64.le_iff_toNat_le, UInt64.toNat_add] at up
        rw [UInt64.toNat_add, ← counts]
        have one : UInt64.toNat 1 = 1 := rfl
        have below := UInt64.toNat_lt s.counter
        omega
  | lookup code =>
      cases called
      have sameSize : (s.lookup code).1.size = s.size :=
        (consistent.lookup code).1.size.trans consistent.size.symm
      have sameCounter : (s.lookup code).1.counter = s.counter := by
        unfold ShortUrlService.lookup
        split <;> rfl
      calc
        (s.lookup code).1.counter.toNat = s.size := by rw [sameCounter, counts]
        _ = (s.lookup code).1.size := sameSize.symm
  | stats code =>
      cases called
      exact counts
  | size =>
      cases called
      exact counts

theorem unused_of_unwrapped {calls : List Call} {s : ShortUrlService}
    {trace : List (Call × Reply)} (unwrapped : Machine.Along call Unwrapped {} calls)
    (ran : Machine.run call {} calls = some (s, trace)) :
    base62 (s.counter + 1) ∉ s.byCode := by
  obtain ⟨kept, counts⟩ : Kept trace s ∧ s.counter.toNat = s.size := by
    refine Machine.run_along (motive := fun past m => Kept past m ∧ m.counter.toNat = m.size)
      ?_ ⟨kept_empty, rfl⟩ unwrapped ran
    rintro past m c next reply ⟨kept, counts⟩ up called
    exact ⟨kept.call called, kept.consistent.counter_call counts up called⟩
  exact kept.consistent.unused (counts ▸ UInt64.toNat_lt _)

/-- Different numbers have different codes of at most eleven digits.  So in
every run in which the counter has not wrapped round, the loop of `shorten`
ends with the first code it tries, and a number below `62 ^ 8` has a code that
the routes accept. -/
theorem base62_injective_first_turn_valid :
    Function.Injective base62 ∧
    (∀ n, (base62 n).length ≤ 11) ∧
    (∀ (calls : List Call) (s : ShortUrlService) (trace : List (Call × Reply)),
      Machine.Along call Unwrapped {} calls → Machine.run call {} calls = some (s, trace) →
      (∀ turns, nextCode s.byCode (turns + 1) s.counter =
        some (s.counter + 1, base62 (s.counter + 1))) ∧
      ∀ url now, s.byUrl.lookup url = none →
        ∃ t, s.shorten url now = some (t, base62 (s.counter + 1)) ∧
          t.counter = s.counter + 1) ∧
    ∀ n : UInt64, (n + 100000).toNat < 62 ^ 8 →
      1 ≤ (base62 n).length ∧ (base62 n).length ≤ 8 ∧
      (∀ c ∈ base62 n, isalnum c = true) ∧ validCode (base62 n) = true := by
  refine ⟨base62_injective, ?_, ?_, ?_⟩
  · intro n
    rw [base62, length_digits_le_iff _ 10]
    exact (UInt64.toNat_lt _).trans (by decide)
  · intro calls s trace unwrapped ran
    have first (turns : Nat) : nextCode s.byCode (turns + 1) s.counter =
        some (s.counter + 1, base62 (s.counter + 1)) := by
      rw [nextCode, if_neg (unused_of_unwrapped unwrapped ran)]
    refine ⟨first, fun url now unknown => ?_⟩
    rw [shorten, unknown]
    dsimp only
    rw [first]
    exact ⟨_, rfl, rfl⟩
  · intro n small
    have valid := (validCode_digits _).mpr small
    refine ⟨?_, (length_digits_le_iff _ 7).mpr small,
      fun c member => isalnum_of_mem_digits member, valid⟩
    rw [base62, digits, List.length_cons]
    exact Nat.le_add_left 1 _

/-- After a first url the second one gets the second code, at the first turn. -/
theorem firstTurn_after_one :
    ∃ s trace, Machine.run call {} [.shorten (lit "http://a") 7] = some (s, trace) ∧
      nextCode s.byCode 1 s.counter = some (s.counter + 1, base62 (s.counter + 1)) ∧
      validCode (base62 1) = true := by
  obtain ⟨s, code, shortened⟩ :=
    consistent_empty.exists_shorten (by decide) (lit "http://a") 7
  have called : call {} (.shorten (lit "http://a") 7) = some (s, .code code) := by
    rw [call, shortened]
    rfl
  have ran := Machine.run_singleton_eq_some.mpr ⟨_, called, rfl⟩
  have unwrapped : Machine.Along call Unwrapped {} [.shorten (lit "http://a") 7] :=
    ⟨fun t _ _ => UInt64.le_iff_toNat_le.mpr (Nat.zero_le _), fun _ _ _ => trivial⟩
  obtain ⟨_, _, first, valid⟩ := base62_injective_first_turn_valid
  exact ⟨s, _, ran, (first _ s _ unwrapped ran).1 0, (valid 1 (by decide)).2.2.2⟩

end ShortUrlService

end MiniNet
