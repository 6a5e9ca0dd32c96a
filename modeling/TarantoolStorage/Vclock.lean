import TarantoolStorage.Lib.Checked

/-!
Vector clocks: a component for each of the 32 instance ids, of which only those in
`map` are in use.
-/
namespace TarantoolStorage

open Checked

def vclockMax : Nat := 32

/-- A 64 bit number read as signed, and back. -/
def int64 (n : Nat) : Int := (BitVec.ofNat 64 n).toInt
def uint64 (z : Int) : Nat := (z % 2 ^ 64).toNat

lemma int64_of_lt {n : Nat} (h : n < 2 ^ 63) : int64 n = n := by
  have hn : (BitVec.ofNat 64 n).toNat = n := Nat.mod_eq_of_lt (by omega)
  rw [int64, BitVec.toInt_eq_toNat_of_lt (by omega), hn]

lemma uint64_natCast {n : Nat} (h : n < 2 ^ 64) : uint64 n = n := by
  simp only [uint64]
  omega

structure Vclock where
  map : BitVec 32
  /-- Sum of all components. -/
  signature : Int
  lsn : Nat → Int

/-- `VCLOCK_ORDER_UNDEFINED`, the largest `int`. -/
def vclockOrderUndefined : Int := 2 ^ 31 - 1

def setBits (map : BitVec 32) : List Nat := (List.range 32).filter map.getLsbD

/-- `bit_set` on a map of 32 bits: the new map and the previous value of the bit. -/
def bitSet (map : BitVec 32) (pos : Nat) : BitVec 32 × Bool :=
  (map ||| BitVec.twoPow 32 pos, map.getLsbD pos)

lemma mem_setBits {map : BitVec 32} {pos : Nat} : pos ∈ setBits map ↔ map.getLsbD pos = true := by
  simp only [setBits, List.mem_filter, List.mem_range, and_iff_right_iff_imp]
  intro h
  exact BitVec.lt_of_getLsbD h

lemma bitSet_getLsbD (map : BitVec 32) {pos k : Nat} (h : pos < vclockMax) :
    (bitSet map pos).1.getLsbD k = true ↔ k = pos ∨ map.getLsbD k = true := by
  simp only [bitSet, BitVec.getLsbD_or, BitVec.getLsbD_twoPow, Bool.or_eq_true, Bool.and_eq_true,
    decide_eq_true_eq]
  constructor
  · rintro (hk | ⟨-, rfl⟩)
    · exact .inr hk
    · exact .inl rfl
  · rintro (rfl | hk)
    · exact .inr ⟨h, rfl⟩
    · exact .inl hk

lemma setBits_bitSet (map : BitVec 32) {pos : Nat} (h : pos < vclockMax) :
    (setBits (bitSet map pos).1).toFinset = insert pos (setBits map).toFinset := by
  ext k
  simpa [mem_setBits] using bitSet_getLsbD map h

def vclockCreate : Vclock := ⟨0, 0, fun _ => 0⟩

def vclockGet (v : Vclock) (id : Nat) : Int := if v.map.getLsbD id then v.lsn id else 0

def vclockFollow (v : Vclock) (id : Nat) (lsn : Int) : Option Vclock := do
  assertThat (lsn ≥ 0)
  assertThat (id < vclockMax)
  let prev := vclockGet v id
  assertThat (lsn > prev)
  return {
    map := (bitSet v.map id).1
    lsn := Function.update v.lsn id lsn
    signature := v.signature + (lsn - prev) }

lemma vclockFollow_spec {v : Vclock} {id : Nat} {lsn : Int} (h : 0 ≤ lsn) (hi : id < vclockMax)
    (hl : vclockGet v id < lsn) :
    Ensures (vclockFollow v id lsn) fun v' =>
      ∀ k, vclockGet v' k = if k = id then lsn else vclockGet v k := by
  unfold vclockFollow
  refine ensures_assert h (ensures_assert hi (ensures_assert hl (ensures_some ?_)))
  intro k
  have hb := bitSet_getLsbD v.map hi (k := k)
  by_cases hk : k = id
  · subst hk
    simp [vclockGet, hb]
  · simp [vclockGet, hb, hk]

/-- The loop of `vclock_compare_generic` over the ids still to be visited. -/
def compareLoop (a b : Vclock) : Bool → Bool → List Nat → Int
  | le, ge, [] => if ge && !le then 1 else if le && !ge then -1 else 0
  | le, ge, id :: ids =>
    let le := le && decide (vclockGet a id ≤ vclockGet b id)
    let ge := ge && decide (vclockGet a id ≥ vclockGet b id)
    if !ge && !le then vclockOrderUndefined else compareLoop a b le ge ids

def vclockCompareGeneric (a b : Vclock) (ignoreZero : Bool) : Int :=
  match setBits (a.map ||| b.map) with
  | 0 :: ids => compareLoop a b true true (if ignoreZero then ids else 0 :: ids)
  | ids => compareLoop a b true true ids

def vclockCompareIgnore0 (a b : Vclock) : Int := vclockCompareGeneric a b true

end TarantoolStorage
