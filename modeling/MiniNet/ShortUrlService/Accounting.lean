import MiniNet.ShortUrlService.Tables

/-!
# Hits and totals

What the counters of the store say about the calls that were made: an entry's
hits are the lookups of its code since it was stored, and the two totals are
the calls of `shorten` and the successful lookups.  The counters are machine
words, so that every equation is one modulo `2 ^ 64`.
-/

namespace MiniNet

open Bytes

namespace ShortUrlService

/-! ## What a history contains -/

abbrev History := List (Call × Reply)

/-- This call has got the code from `shorten`. -/
def yields (code : Bytes) : Call × Reply → Bool
  | (.shorten _ _, .code answered) => answered == code
  | _ => false

/-- The calls made after the code was stored, that is, after `shorten` gave it
out for the first time. -/
def sinceStored (code : Bytes) : History → History
  | [] => []
  | item :: later => if yields code item then later else sinceStored code later

/-- The number of calls `lookup(code)` made since the code was stored. -/
def lookupsSince (code : Bytes) (history : History) : Nat :=
  (sinceStored code history).countP (·.1 == .lookup code)

def isShorten : Call × Reply → Bool
  | (.shorten _ _, _) => true
  | _ => false

/-- A call of `lookup` that returned true. -/
def isHit : Call × Reply → Bool
  | (.lookup _, .entry (some _)) => true
  | _ => false

/-- The sum of the hits of these entries. -/
def sumHits (entries : List (Sigma fun _ : Bytes => Entry)) : UInt64 :=
  entries.foldr (fun stored sum => stored.2.hits + sum) 0

theorem sinceStored_concat (code : Bytes) (history : History) (item : Call × Reply) :
    sinceStored code (history ++ [item]) =
      if history.any (yields code) then sinceStored code history ++ [item] else [] := by
  induction history with
  | nil => simp [sinceStored]
  | cons first later ih =>
      rw [List.cons_append, sinceStored, sinceStored, List.any_cons, ih]
      cases yields code first <;> rfl

theorem lookupsSince_concat {code : Bytes} {history : History} (item : Call × Reply)
    (stored : history.any (yields code) = true) :
    lookupsSince code (history ++ [item]) =
      lookupsSince code history + if item.1 = .lookup code then 1 else 0 := by
  rw [lookupsSince, sinceStored_concat, if_pos stored, List.countP_append]
  congr 1
  simp [List.countP_cons]

theorem lookupsSince_concat_new {code : Bytes} {history : History} (item : Call × Reply)
    (absent : ¬ history.any (yields code) = true) :
    lookupsSince code (history ++ [item]) = 0 := by
  rw [lookupsSince, sinceStored_concat, if_neg absent, List.countP_nil]

theorem sumHits_kerase {code : Bytes} {entry : Entry}
    {entries : List (Sigma fun _ : Bytes => Entry)}
    (found : entries.dlookup code = some entry) :
    sumHits entries = entry.hits + sumHits (entries.kerase code) := by
  induction entries with
  | nil => cases found
  | cons first later ih =>
      obtain ⟨key, value⟩ := first
      by_cases here : code = key
      · subst here
        rw [List.dlookup_cons_eq] at found
        cases found
        have erased : List.kerase code (⟨code, entry⟩ :: later) = later :=
          List.kerase_cons_eq (β := fun _ : Bytes => Entry) (s := ⟨code, entry⟩) rfl
        rw [erased]
        rfl
      · rw [List.dlookup_cons_ne _ _ here] at found
        rw [List.kerase_cons_ne here]
        simp only [sumHits, List.foldr_cons] at ih ⊢
        rw [ih found, ← UInt64.add_assoc, UInt64.add_comm value.hits, UInt64.add_assoc]

/-! ## The counters -/

/-- The counters of the store count what the history contains. -/
structure Accounted (history : History) (s : ShortUrlService) : Prop where
  stored : ∀ code, code ∈ s.byCode ↔ history.any (yields code) = true
  hits : ∀ code entry, s.byCode.lookup code = some entry →
    entry.hits = UInt64.ofNat (lookupsSince code history)
  sum : s.redirectTotal = sumHits s.byCode.entries
  redirects : s.redirectTotal = UInt64.ofNat (history.countP isHit)
  shortens : s.shortenTotal = UInt64.ofNat (history.countP isShorten)

theorem accounted_empty : Accounted [] {} where
  stored code := by simp
  hits code entry found := by cases found
  sum := rfl
  redirects := rfl
  shortens := rfl

theorem ofNat_countP_concat (p : Call × Reply → Bool) (history : History)
    (item : Call × Reply) :
    UInt64.ofNat ((history ++ [item]).countP p) =
      UInt64.ofNat (history.countP p) + if p item then 1 else 0 := by
  rw [List.countP_append, UInt64.ofNat_add]
  congr 1
  cases here : p item <;> simp [here]

/-- A call that is no successful lookup and after which the table of codes is
the same. -/
private theorem Accounted.sameCodes {history : History} {s t : ShortUrlService}
    {item : Call × Reply} (accounted : Accounted history s)
    (sameCodes : t.byCode = s.byCode) (sameRedirects : t.redirectTotal = s.redirectTotal)
    (noHit : isHit item = false)
    (known : ∀ code, yields code item = true → code ∈ s.byCode)
    (missed : ∀ code, item.1 = .lookup code → code ∉ s.byCode)
    (shortens : t.shortenTotal =
      s.shortenTotal + if isShorten item then 1 else 0) :
    Accounted (history ++ [item]) t where
  stored code := by
    rw [sameCodes, accounted.stored, List.any_append, Bool.or_eq_true]
    constructor
    · exact .inl
    · rintro (before | now)
      · exact before
      · exact (accounted.stored code).mp (known code (by simpa using now))
  hits code entry found := by
    rw [sameCodes] at found
    have present : code ∈ s.byCode := AList.lookup_isSome.mp (by rw [found]; rfl)
    rw [lookupsSince_concat item ((accounted.stored code).mp present),
      if_neg fun looked => missed code looked present]
    exact accounted.hits code entry found
  sum := by rw [sameRedirects, sameCodes, accounted.sum]
  redirects := by
    rw [sameRedirects, accounted.redirects, ofNat_countP_concat, noHit]
    simp
  shortens := by rw [shortens, accounted.shortens, ofNat_countP_concat]

/-- A url is stored under an unused code. -/
private theorem Accounted.insert {history : History} {s : ShortUrlService}
    {url code : Bytes} {now : Int} {counter : UInt64}
    (accounted : Accounted history s) (unused : code ∉ s.byCode) :
    Accounted (history ++ [(.shorten url now, .code code)])
      { s with
        byCode := s.byCode.insert code { url, hits := 0, createdAt := now }
        byUrl := s.byUrl.insert url code
        counter
        shortenTotal := s.shortenTotal + 1 } where
  stored c := by
    have now : yields c (.shorten url now, .code code) = true ↔ c = code := by
      rw [yields, beq_iff_eq, eq_comm]
    rw [AList.mem_insert, accounted.stored, List.any_append, Bool.or_eq_true, or_comm]
    simp [now]
  hits c entry found := by
    by_cases same : c = code
    · subst c
      cases (AList.lookup_insert s.byCode).symm.trans found
      rw [lookupsSince_concat_new _ fun stored => unused ((accounted.stored code).mpr stored)]
      rfl
    · have old := (AList.lookup_insert_ne same).symm.trans found
      have present : c ∈ s.byCode := AList.lookup_isSome.mp (by rw [old]; rfl)
      rw [lookupsSince_concat _ ((accounted.stored c).mp present), if_neg (by simp)]
      exact accounted.hits c entry old
  sum := by
    simp only [AList.entries_insert_of_notMem unused, sumHits, List.foldr_cons]
    rw [accounted.sum, UInt64.zero_add]
    rfl
  redirects := by
    rw [ofNat_countP_concat, ← accounted.redirects]
    simp [isHit]
  shortens := by
    rw [ofNat_countP_concat, ← accounted.shortens]
    rfl

/-- A lookup that finds its code. -/
private theorem Accounted.hit {history : History} {s : ShortUrlService} {code : Bytes}
    {entry : Entry} (accounted : Accounted history s)
    (found : s.byCode.lookup code = some entry) :
    Accounted
      (history ++
        [(.lookup code, .entry (some { entry with hits := entry.hits + 1 }))])
      { s with
        byCode := s.byCode.insert code { entry with hits := entry.hits + 1 }
        redirectTotal := s.redirectTotal + 1 } where
  stored c := by
    have present : code ∈ s.byCode := AList.lookup_isSome.mp (by rw [found]; rfl)
    rw [AList.mem_insert, accounted.stored, List.any_append, Bool.or_eq_true]
    constructor
    · rintro (rfl | before)
      · exact .inl ((accounted.stored c).mp present)
      · exact .inl before
    · rintro (before | now)
      · exact .inr before
      · simp [yields] at now
  hits c e foundLater := by
    by_cases same : c = code
    · subst c
      cases (AList.lookup_insert s.byCode).symm.trans foundLater
      have present : code ∈ s.byCode := AList.lookup_isSome.mp (by rw [found]; rfl)
      rw [lookupsSince_concat _ ((accounted.stored code).mp present), if_pos rfl,
        UInt64.ofNat_add, ← accounted.hits code entry found]
      rfl
    · have old := (AList.lookup_insert_ne same).symm.trans foundLater
      have present : c ∈ s.byCode := AList.lookup_isSome.mp (by rw [old]; rfl)
      rw [lookupsSince_concat _ ((accounted.stored c).mp present),
        if_neg fun looked => same (by cases looked; rfl)]
      exact accounted.hits c e old
  sum := by
    simp only [AList.entries_insert, sumHits, List.foldr_cons]
    rw [accounted.sum, sumHits_kerase found]
    simp only [sumHits]
    rw [UInt64.add_assoc, UInt64.add_comm _ 1, UInt64.add_assoc]
  redirects := by
    rw [ofNat_countP_concat, ← accounted.redirects]
    rfl
  shortens := by
    rw [ofNat_countP_concat, ← accounted.shortens]
    simp [isShorten]

theorem Accounted.call {history : History} {s t : ShortUrlService}
    (accounted : Accounted history s) (inverse : Inverse s) {c : Call} {reply : Reply}
    (called : s.call c = some (t, reply)) : Accounted (history ++ [(c, reply)]) t := by
  cases c with
  | shorten url now =>
      obtain ⟨⟨_, code⟩, done, same⟩ := Option.map_eq_some_iff.mp called
      cases same
      obtain ⟨known, rfl⟩ | ⟨_, unused, counter, _, _, rfl⟩ := shorten_cases done
      · refine accounted.sameCodes rfl rfl rfl ?_ (fun _ looked => (by cases looked)) rfl
        intro other yielded
        obtain rfl : code = other := by simpa [yields] using yielded
        obtain ⟨entry, stored, _⟩ := (inverse url code).mp known
        exact AList.lookup_isSome.mp (by rw [stored]; rfl)
      · exact accounted.insert unused
  | lookup code =>
      simp only [ShortUrlService.call, lookup] at called
      split at called
      · rename_i absent
        cases called
        refine accounted.sameCodes rfl rfl rfl (fun _ yielded => (by cases yielded)) ?_
          (UInt64.add_zero _).symm
        intro other looked
        cases looked
        exact AList.lookup_eq_none.mp absent
      · rename_i entry found
        cases called
        exact accounted.hit found
  | stats code =>
      cases called
      exact accounted.sameCodes rfl rfl rfl (fun _ yielded => (by cases yielded))
        (fun _ looked => (by cases looked)) (UInt64.add_zero _).symm
  | size =>
      cases called
      exact accounted.sameCodes rfl rfl rfl (fun _ yielded => (by cases yielded))
        (fun _ looked => (by cases looked)) (UInt64.add_zero _).symm

/-- After every sequence of calls on an empty store, the hits of a stored code
are the lookups of it since it was stored, the redirects are the sum of all
hits and the number of successful lookups, `shorten_total_` is the number of
calls of `shorten`, and `stats` gives out an entry as it is stored and changes
nothing. -/
theorem run_accounted {calls : List Call} {s : ShortUrlService} {history : History}
    (ran : Machine.run call {} calls = some (s, history)) :
    (∀ code entry, s.byCode.lookup code = some entry →
        entry.hits = UInt64.ofNat (lookupsSince code history)) ∧
      s.redirectTotal = sumHits s.byCode.entries ∧
      s.redirectTotal = UInt64.ofNat (history.countP isHit) ∧
      s.shortenTotal = UInt64.ofNat (history.countP isShorten) ∧
      ∀ code, s.call (.stats code) = some (s, .entry (s.byCode.lookup code)) := by
  obtain ⟨_, accounted⟩ := Machine.run_induct
    (motive := fun history s => Kept history s ∧ Accounted history s)
    (fun history s c t reply ⟨kept, accounted⟩ called =>
      ⟨kept.call called, accounted.call kept.consistent.inverse called⟩)
    ⟨kept_empty, accounted_empty⟩ ran
  exact ⟨accounted.hits, accounted.sum, accounted.redirects, accounted.shortens,
    fun _ => rfl⟩

/-- A code that is looked up before and after it is stored. -/
def lookupsAround : List Call :=
  [.lookup (lit "V0q"), .shorten (lit "http://a") 7, .lookup (lit "V0q"),
    .shorten (lit "http://a") 8, .lookup (lit "V0q"), .stats (lit "V0q")]

theorem run_accounted_lookupsAround :
    ∃ s history, Machine.run call {} lookupsAround = some (s, history) ∧
      s.redirectTotal = sumHits s.byCode.entries ∧
      s.redirectTotal = UInt64.ofNat (history.countP isHit) := by
  obtain ⟨⟨s, history⟩, ran⟩ := Option.isSome_iff_exists.mp
    (show (Machine.run call {} lookupsAround).isSome = true by decide +kernel)
  obtain ⟨_, sum, redirects, _⟩ := run_accounted ran
  exact ⟨s, history, ran, sum, redirects⟩

end ShortUrlService

end MiniNet
