import Mathlib.Algebra.GroupWithZero.Nat
import Mathlib.Data.Fin.Basic
import Mathlib.Order.Bounds.Basic
import Mathlib.Tactic.Common

/-!
# A scan around a ring

A ring has `size` slots, and a scan looks at them one by one from a start on, around the end, until
it finds one that meets a test. `ahead` is the number of slots between the start and a slot in the
direction of the scan.

`scan_spec` says that the scan returns the first slot that meets the test, and `ahead_next` that a
start moved behind the slot at place `i` comes closer, by `i + 1`, to every slot further ahead. So a
slot that always meets the test is returned after at most as many scans as there are slots, when
each scan starts behind the slot that the last one has returned: `ahead_scan_lt`.
-/

set_option autoImplicit false
set_option relaxedAutoImplicit false

namespace ImageApp.Foundations.CyclicScan

variable {size : ℕ} [NeZero size]

/-- The slot at place `i` of a scan. -/
def slotAt (size : ℕ) [NeZero size] (start i : ℕ) : Fin size :=
  Fin.ofNat size (start + i)

/-- The first slot that meets the test, among those at the `left` places from place `i` on. -/
def scan (test : Fin size → Bool) (start : ℕ) : ℕ → ℕ → Option (Fin size)
  | _, 0 => none
  | i, left + 1 =>
    if test (slotAt size start i) then some (slotAt size start i) else scan test start (i + 1) left

/-- The place of a slot in a scan. -/
def ahead (start : ℕ) (slot : Fin size) : ℕ :=
  (slot + (size - start)) % size

@[simp] theorem val_slotAt (start i : ℕ) : (slotAt size start i : ℕ) = (start + i) % size :=
  rfl

theorem ahead_lt (start : ℕ) (slot : Fin size) : ahead start slot < size :=
  Nat.mod_lt _ (Nat.pos_of_neZero size)

omit [NeZero size] in
/-- A slot is ahead of the start by their difference, around the end when it is a smaller number. -/
theorem ahead_eq {start : ℕ} (hstart : start < size) (slot : Fin size) :
    ahead start slot = if start ≤ slot then slot - start else slot + size - start := by
  have hslot := slot.isLt
  unfold ahead
  split_ifs with hle
  · have hsum : (slot : ℕ) + (size - start) = slot - start + size := by omega
    rw [hsum, Nat.add_mod_right, Nat.mod_eq_of_lt (by omega)]
  · rw [Nat.mod_eq_of_lt (by omega)]
    omega

/-- The scan looks at a slot at its place. -/
@[simp] theorem slotAt_ahead {start : ℕ} (hstart : start < size) (slot : Fin size) :
    slotAt size start (ahead start slot) = slot := by
  have hslot := slot.isLt
  rw [Fin.ext_iff, val_slotAt, ahead_eq hstart]
  split_ifs with hle
  · rw [Nat.mod_eq_of_lt (by omega)]
    omega
  · have hsum : start + (slot + size - start) = slot + size := by omega
    rw [hsum, Nat.add_mod_right, Nat.mod_eq_of_lt hslot]

/-- Behind the slot at place `i` the slots further ahead are closer by `i + 1`. -/
theorem ahead_next {start i : ℕ} (hstart : start < size) {slot : Fin size}
    (hi : i < ahead start slot) :
    ahead ((slotAt size start i + 1) % size) slot = ahead start slot - (i + 1) := by
  have hslot := slot.isLt
  have hplace := ahead_eq hstart slot
  have hlt := ahead_lt start slot
  rw [ahead_eq (Nat.mod_lt _ (Nat.pos_of_neZero size)), val_slotAt, Nat.mod_add_mod]
  by_cases hwrap : start + i + 1 < size
  · rw [Nat.mod_eq_of_lt hwrap]
    split_ifs at hplace ⊢ <;> omega
  · have hmod : (start + i + 1) % size = start + i + 1 - size := by
      rw [Nat.mod_eq_sub_mod (by omega), Nat.mod_eq_of_lt (by omega)]
    rw [hmod]
    split_ifs at hplace ⊢ <;> omega

/-! ### What a scan returns -/

variable {test : Fin size → Bool} {start : ℕ}

/-- The scan returns the first slot that meets the test. -/
theorem scan_eq_some {i left : ℕ} {slot : Fin size} (hscan : scan test start i left = some slot) :
    ∃ place, i ≤ place ∧ place < i + left ∧ slotAt size start place = slot ∧ test slot = true ∧
      ∀ earlier, i ≤ earlier → earlier < place → test (slotAt size start earlier) = false := by
  induction left generalizing i with
  | zero => simp [scan] at hscan
  | succ left ih =>
    unfold scan at hscan
    split_ifs at hscan with htest
    · rw [Option.some.injEq] at hscan
      refine ⟨i, le_rfl, by omega, hscan, hscan ▸ htest, fun earlier hle hlt ↦ ?_⟩
      omega
    · obtain ⟨place, hle, hlt, hslot, hmeets, hearlier⟩ := ih hscan
      refine ⟨place, by omega, by omega, hslot, hmeets, fun earlier hge hbefore ↦ ?_⟩
      rcases Nat.eq_or_lt_of_le hge with rfl | hbehind
      · exact Bool.eq_false_iff.mpr htest
      · exact hearlier earlier hbehind hbefore

/-- A scan that comes past a slot that meets the test returns a slot. -/
theorem exists_scan {i left place : ℕ} (hle : i ≤ place) (hlt : place < i + left)
    (htest : test (slotAt size start place) = true) :
    ∃ slot, scan test start i left = some slot := by
  induction left generalizing i with
  | zero => omega
  | succ left ih =>
    unfold scan
    split_ifs with hhere
    · exact ⟨_, rfl⟩
    · refine ih (Nat.lt_of_le_of_ne hle fun heq ↦ hhere ?_) (by omega)
      rw [heq]
      exact htest

/-- A scan of the whole ring returns the slot at the least place that meets the test. -/
theorem scan_spec {slot : Fin size} (hstart : start < size)
    (hscan : scan test start 0 size = some slot) :
    test slot = true ∧ ∃ place, slotAt size start place = slot ∧
      ∀ other, test other = true → place ≤ ahead start other := by
  obtain ⟨place, -, -, hslot, hmeets, hearlier⟩ := scan_eq_some hscan
  refine ⟨hmeets, place, hslot, fun other hother ↦ ?_⟩
  by_contra hbefore
  have hfalse := hearlier (ahead start other) (Nat.zero_le _) (by omega)
  rw [slotAt_ahead hstart, hother] at hfalse
  exact Bool.noConfusion hfalse

/-- The slot that a scan of the whole ring returns is the one at the least of all places that meet
the test. -/
theorem exists_isLeast_of_scan {slot : Fin size} (hscan : scan test start 0 size = some slot) :
    ∃ place, IsLeast {place | test (slotAt size start place) = true} place ∧
      slotAt size start place = slot := by
  obtain ⟨place, -, -, hslot, hmeets, hearlier⟩ := scan_eq_some hscan
  refine ⟨place, ⟨?_, fun other hother ↦ ?_⟩, hslot⟩
  · rw [Set.mem_ofPred_eq, hslot]
    exact hmeets
  · by_contra hbefore
    exact Bool.eq_false_iff.mp (hearlier other (Nat.zero_le other) (Nat.not_le.mp hbefore)) hother

/-- A scan of the whole ring returns a slot when one meets the test. -/
theorem exists_scan_of_test {slot : Fin size} (hstart : start < size) (htest : test slot = true) :
    ∃ found, scan test start 0 size = some found := by
  refine exists_scan (Nat.zero_le (ahead start slot)) ?_ ?_
  · rw [Nat.zero_add]
    exact ahead_lt start slot
  · rw [slotAt_ahead hstart]
    exact htest

/-- A slot that meets the test and is not returned is closer to the start of the next scan. -/
theorem ahead_scan_lt {found slot : Fin size} (hstart : start < size)
    (hscan : scan test start 0 size = some found) (htest : test slot = true) (hne : found ≠ slot) :
    ahead ((found + 1) % size) slot < ahead start slot := by
  obtain ⟨-, place, hplace, hleast⟩ := scan_spec hstart hscan
  have hbefore : place < ahead start slot := by
    refine Nat.lt_of_le_of_ne (hleast slot htest) fun heq ↦ hne ?_
    rw [← hplace, heq, slotAt_ahead hstart]
  rw [← hplace, ahead_next hstart hbefore]
  omega

end ImageApp.Foundations.CyclicScan
