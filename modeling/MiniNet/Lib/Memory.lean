import Mathlib.Algebra.BigOperators.Group.Finset.Basic
import Mathlib.Data.UInt
import Mathlib.Order.Interval.Finset.Nat

/-!
# Octet memory and lists threaded through it

A memory gives every address an octet.  A pointer takes eight octets, least
significant first, and zero is the null pointer.  A list of cells is threaded
through memory when every cell holds the address of the next one.
-/

abbrev Memory := Nat → UInt8

namespace Memory

/-- The number in `size` octets from an address on. -/
def load (mem : Memory) (a : Nat) : Nat → Nat
  | 0 => 0
  | size + 1 => (mem a).toNat + 256 * load mem (a + 1) size

/-- Write a number into `size` octets from an address on. -/
def store (mem : Memory) (a : Nat) : Nat → Nat → Memory
  | 0, _ => mem
  | size + 1, value =>
      store (Function.update mem a (UInt8.ofNat (value % 256))) (a + 1) size (value / 256)

theorem store_outside (mem : Memory) {a x : Nat} (size value : Nat)
    (outside : x < a ∨ a + size ≤ x) : store mem a size value x = mem x := by
  induction size generalizing mem a value with
  | zero => rfl
  | succ size ih =>
      have other : x ≠ a := by omega
      rw [store, ih _ _ (by omega), Function.update_of_ne other]

theorem load_congr {mem mem' : Memory} {a size : Nat}
    (same : ∀ x, a ≤ x → x < a + size → mem x = mem' x) :
    load mem a size = load mem' a size := by
  induction size generalizing a with
  | zero => rfl
  | succ size ih =>
      rw [load, load, same a (Nat.le_refl a) (by omega)]
      rw [ih fun x low high => same x (by omega) (by omega)]

theorem load_store (mem : Memory) (a : Nat) {size value : Nat} (fits : value < 256 ^ size) :
    load (store mem a size value) a size = value := by
  induction size generalizing mem a value with
  | zero =>
      rw [Nat.pow_zero, Nat.lt_one_iff] at fits
      exact fits.symm
  | succ size ih =>
      have first : store mem a (size + 1) value a = UInt8.ofNat (value % 256) := by
        rw [store, store_outside _ _ _ (by omega), Function.update_self]
      have octet : (UInt8.ofNat (value % 256)).toNat = value % 256 := by
        rw [UInt8.toNat_ofNat', Nat.mod_mod]
      have rest : value / 256 < 256 ^ size := by
        apply Nat.div_lt_of_lt_mul
        rw [Nat.mul_comm, ← Nat.pow_succ]
        exact fits
      rw [load, first, octet, store, ih _ _ rest]
      exact Nat.mod_add_div value 256

/-! ## Pointers -/

@[irreducible] def readPtr (mem : Memory) (a : Nat) : Nat := load mem a 8

@[irreducible] def writePtr (mem : Memory) (a value : Nat) : Memory := store mem a 8 value

theorem readPtr_congr {mem mem' : Memory} {a : Nat}
    (same : ∀ x, a ≤ x → x < a + 8 → mem x = mem' x) : readPtr mem a = readPtr mem' a := by
  unfold readPtr
  exact load_congr same

theorem readPtr_writePtr (mem : Memory) (a : Nat) {value : Nat} (fits : value < 2 ^ 64) :
    readPtr (writePtr mem a value) a = value := by
  unfold readPtr writePtr
  exact load_store mem a fits

theorem readPtr_writePtr_disjoint (mem : Memory) {a b : Nat} (value : Nat)
    (disjoint : a + 8 ≤ b ∨ b + 8 ≤ a) :
    readPtr (writePtr mem b value) a = readPtr mem a := by
  apply readPtr_congr
  intro x low high
  unfold writePtr
  exact store_outside mem 8 value (by omega)

/-! ## Threaded lists -/

/-- From `head` on, the cells of the list hold each other's addresses, and the
last one holds null. -/
def Threaded (mem : Memory) (head : Nat) : List Nat → Prop
  | [] => head = 0
  | p :: rest => head = p ∧ p ≠ 0 ∧ Threaded mem (readPtr mem p) rest

theorem Threaded.congr {mem mem' : Memory} {head : Nat} {cells : List Nat}
    (threaded : Threaded mem head cells)
    (same : ∀ p ∈ cells, readPtr mem' p = readPtr mem p) : Threaded mem' head cells := by
  induction cells generalizing head with
  | nil => exact threaded
  | cons p rest ih =>
      obtain ⟨here, solid, later⟩ := threaded
      refine ⟨here, solid, ?_⟩
      rw [same p List.mem_cons_self]
      exact ih later fun q member => same q (List.mem_cons_of_mem p member)

theorem Threaded.eq_nil_iff {mem : Memory} {head : Nat} {cells : List Nat}
    (threaded : Threaded mem head cells) : head = 0 ↔ cells = [] := by
  cases cells with
  | nil => exact iff_of_true threaded rfl
  | cons p rest =>
      obtain ⟨rfl, solid, _⟩ := threaded
      exact iff_of_false solid (List.cons_ne_nil _ _)

/-- A cell apart from the others is put in front. -/
theorem Threaded.push {mem : Memory} {head p : Nat} {cells : List Nat}
    (threaded : Threaded mem head cells) (solid : p ≠ 0) (fits : head < 2 ^ 64)
    (apart : ∀ q ∈ cells, q + 8 ≤ p ∨ p + 8 ≤ q) :
    Threaded (writePtr mem p head) p (p :: cells) := by
  refine ⟨rfl, solid, ?_⟩
  rw [readPtr_writePtr mem p fits]
  exact threaded.congr fun q member => readPtr_writePtr_disjoint mem head (apart q member)

/-! ## Regions -/

/-- Two regions of this size do not meet. -/
def Apart (size a b : Nat) : Prop := a + size ≤ b ∨ b + size ≤ a

instance (size : Nat) : Std.Symm (Apart size) := ⟨fun _ _ apart => Or.symm apart⟩

theorem Apart.mono {size smaller a b : Nat} (apart : Apart size a b) (le : smaller ≤ size) :
    Apart smaller a b := by
  unfold Apart at *
  omega

theorem Apart.ne {size a b : Nat} (apart : Apart size a b) (positive : 0 < size) : a ≠ b := by
  unfold Apart at apart
  omega

/-- Regions apart from each other do not exceed the space they lie in. -/
theorem length_mul_le_of_apart {size bound : Nat} {regions : List Nat} (positive : 0 < size)
    (apart : regions.Pairwise (Apart size))
    (inside : ∀ a ∈ regions, a + size ≤ bound) : regions.length * size ≤ bound := by
  have nodup : regions.Nodup := apart.imp fun apart => apart.ne positive
  have disjoint : (regions.toFinset : Set Nat).PairwiseDisjoint fun a =>
      Finset.Ico a (a + size) := by
    intro a memberA b memberB different
    have between : Apart size a b :=
      apart.forall (List.mem_toFinset.mp memberA) (List.mem_toFinset.mp memberB) different
    rw [Function.onFun, Finset.disjoint_left]
    intro x inA inB
    rw [Finset.mem_Ico] at inA inB
    unfold Apart at between
    omega
  have union : (regions.toFinset.biUnion fun a => Finset.Ico a (a + size)) ⊆
      Finset.range bound := by
    intro x member
    obtain ⟨a, inRegions, inRegion⟩ := Finset.mem_biUnion.mp member
    rw [Finset.mem_Ico] at inRegion
    rw [Finset.mem_range]
    have within := inside a (List.mem_toFinset.mp inRegions)
    omega
  have count := Finset.card_le_card union
  rw [Finset.card_biUnion disjoint, Finset.card_range] at count
  simpa [List.toFinset_card_of_nodup nodup] using count

end Memory
