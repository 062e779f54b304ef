import Llamaste.Lib.WrappedLex
import Llamaste.UpdateFile

/-!
# The order of versions

An update must be newer than what runs, so the comparison of versions should be an order. It
subtracts the components, and the differences of numbers of different signs may not fit in 32 bits.
Source: `updater.cpp` (`version_compare`).

## Main results

* `ordersVersions_iff`: for which versions the comparison behaves like an order.
-/

namespace Llamaste

open WrappedLex CInt

/-- The components of a version. -/
def versionComponents (s : Text) : List ℤ :=
  [(scanVersion s).1, (scanVersion s).2.1, (scanVersion s).2.2]

theorem length_versionComponents (s : Text) : (versionComponents s).length = 3 := rfl

/-- What an order does for three versions: turning two of them around turns the sign, and what is
no newer than something is no newer than what follows that. -/
structure OrdersVersions (a b c : Text) : Prop where
  antisymm : (versionCompare a b).sign = -(versionCompare b a).sign
  trans : versionCompare a b ≤ 0 → versionCompare b c ≤ 0 → versionCompare a c ≤ 0

theorem versionCompare_eq (a b : Text) :
    versionCompare a b = lexDiff (versionComponents a) (versionComponents b) := by
  simp only [versionCompare, versionComponents, lexDiff, ite_not]
  split_ifs with hmajor hminor hpatch
  · rw [hpatch, Int.sub_self]
    rfl
  all_goals rfl

/-- A component is stored as an `int`. -/
theorem fitsInt32_scanDecimal {s r : Text} {n : ℤ} (h : scanDecimal s = some (n, r)) :
    FitsInt32 n := by
  rw [scanDecimal] at h
  dsimp only at h
  split at h
  · exact nomatch h
  · rw [← (Prod.mk.inj (Option.some.inj h)).1]
    exact fitsInt32_toInt32 _

theorem fitsInt32_versionComponents (s : Text) : ∀ n ∈ versionComponents s, FitsInt32 n := by
  have hzero : FitsInt32 0 := by decide
  have hpatch (r : Text) : FitsInt32 ((scanDecimal r).elim 0 Prod.fst) := by
    cases h : scanDecimal r with
    | none => exact hzero
    | some p => exact fitsInt32_scanDecimal h
  rw [versionComponents, scanVersion]
  split
  · rename_i hmajor
    split
    · rename_i hminor
      simp [fitsInt32_scanDecimal hmajor, fitsInt32_scanDecimal hminor, hpatch]
    · rename_i _ hminor
      simp [fitsInt32_scanDecimal hmajor, fitsInt32_scanDecimal hminor, hzero]
    · simp [fitsInt32_scanDecimal hmajor, hzero]
  · rename_i _ hmajor
    simp [fitsInt32_scanDecimal hmajor, hzero]
  · simp [hzero]

/-- **The comparison behaves like an order** for versions exactly when the first components in which
the first two differ are not 2^31 apart and the three do not go around the 32-bit numbers in steps
of at most a half. -/
theorem ordersVersions_iff (a b c : Text) : OrdersVersions a b c ↔
    ¬Opposite (versionComponents a) (versionComponents b) ∧
      ¬GoesRound (versionComponents a) (versionComponents b) (versionComponents c) := by
  have hsign := sign_lexDiff_iff (fitsInt32_versionComponents a) (fitsInt32_versionComponents b)
  rw [← versionCompare_eq, ← versionCompare_eq] at hsign
  have htrans (hopposite) := lexDiff_trans_iff (fitsInt32_versionComponents a)
    (fitsInt32_versionComponents b) (fitsInt32_versionComponents c)
    ((length_versionComponents a).trans (length_versionComponents b).symm)
    ((length_versionComponents b).trans (length_versionComponents c).symm) hopposite
  rw [← versionCompare_eq, ← versionCompare_eq, ← versionCompare_eq] at htrans
  constructor
  · intro h
    have hopposite := hsign.mp h.antisymm
    exact ⟨hopposite, (htrans hopposite).mp h.trans⟩
  · intro h
    exact ⟨hsign.mpr h.1, (htrans h.1).mpr h.2⟩

/-- Versions without negative components are ordered. -/
theorem ordersVersions_of_nonneg {a b c : Text} (ha : ∀ n ∈ versionComponents a, 0 ≤ n)
    (hb : ∀ n ∈ versionComponents b, 0 ≤ n) (hc : ∀ n ∈ versionComponents c, 0 ≤ n) :
    OrdersVersions a b c := by
  have hnat (s : Text) (h : ∀ n ∈ versionComponents s, 0 ≤ n) :
      ∀ n ∈ versionComponents s, 0 ≤ n ∧ n < 2 ^ 31 := fun n hn =>
    ⟨h n hn, (fitsInt32_versionComponents s n hn).2⟩
  exact (ordersVersions_iff a b c).mpr ⟨not_opposite_of_nonneg (hnat a ha) (hnat b hb),
    not_goesRound_of_nonneg (hnat a ha) (hnat b hb) (hnat c hc)⟩

/-- 0 is older than 2147483647, and that is older than -2, but 0 is newer than -2. -/
theorem not_ordersVersions : ¬∀ a b c, OrdersVersions a b c := fun h =>
  absurd ((h "0" "2147483647" "-2").trans (by decide +kernel) (by decide +kernel))
    (by decide +kernel)

end Llamaste
