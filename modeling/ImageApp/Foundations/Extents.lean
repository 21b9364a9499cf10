import Mathlib.Data.Int.Notation
import Mathlib.Data.List.Basic
import Mathlib.Data.Nat.Notation

/-!
# Stretches of positions

The positions of a buffer that a call reads or writes, as a list of integers: `extent start count`
is `count` positions from `start` on. A position in front of the buffer is negative. Bytes that were
written in order, each once, are at the positions `extent 0 count`, and a list of positions that
leaves this order does not find back to it.
-/

set_option autoImplicit false
set_option relaxedAutoImplicit false

namespace ImageApp.Foundations.Extents

/-- `count` positions from `start` on. -/
def extent (start : ℤ) (count : ℕ) : List ℤ :=
  (List.range count).map fun i : ℕ ↦ start + i

/-- All of the positions are inside a buffer. -/
def Inside (size : ℕ) (positions : List ℤ) : Prop :=
  ∀ i ∈ positions, 0 ≤ i ∧ i < size

@[simp] theorem extent_zero (start : ℤ) : extent start 0 = [] := rfl

@[simp] theorem length_extent (start : ℤ) (count : ℕ) : (extent start count).length = count := by
  simp [extent]

theorem mem_extent {start i : ℤ} {count : ℕ} :
    i ∈ extent start count ↔ start ≤ i ∧ i < start + count := by
  simp only [extent, List.mem_map, List.mem_range]
  constructor
  · rintro ⟨k, hk, rfl⟩
    omega
  · rintro ⟨hfirst, hlast⟩
    exact ⟨(i - start).toNat, by omega, by omega⟩

/-- A stretch and the one behind it. -/
theorem extent_append (start : ℤ) (first second : ℕ) :
    extent start first ++ extent (start + first) second = extent start (first + second) := by
  simp only [extent, List.range_add, List.map_append, List.map_map]
  congr 1
  refine List.map_congr_left fun i _ ↦ ?_
  simp only [Function.comp_apply]
  push_cast
  omega

/-- An empty stretch is inside every buffer, and any other one if its ends are. -/
theorem inside_extent_iff {size count : ℕ} {start : ℤ} :
    Inside size (extent start count) ↔ count = 0 ∨ (0 ≤ start ∧ start + count ≤ size) := by
  simp only [Inside, mem_extent]
  constructor
  · intro hinside
    rcases Nat.eq_zero_or_pos count with hnone | hsome
    · exact Or.inl hnone
    · have hfirst := hinside start ⟨Int.le_refl _, by omega⟩
      have hlast := hinside (start + count - 1) ⟨by omega, by omega⟩
      exact Or.inr ⟨hfirst.1, by omega⟩
  · rintro (rfl | ⟨hfirst, hlast⟩) i hi
    · omega
    · omega

theorem getElem?_extent {start : ℤ} {count i : ℕ} (hi : i < count) :
    (extent start count)[i]? = some (start + i) := by
  simp [extent, hi]

/-- A stretch begins every longer one. -/
theorem extent_prefix_extent {start : ℤ} {first second : ℕ} (hle : first ≤ second) :
    extent start first <+: extent start second := by
  refine ⟨extent (start + first) (second - first), ?_⟩
  rw [extent_append, Nat.add_sub_cancel' hle]

/-- The entries of a buffer at some positions, when all of them are inside. -/
def readAt {α : Type*} (buffer : List α) (positions : List ℤ) : Option (List α) :=
  positions.mapM fun i ↦ if 0 ≤ i then buffer[i.toNat]? else none

/-- The first positions are those of the first entries. -/
theorem readAt_extent {α : Type*} {buffer : List α} {count : ℕ} (hcount : count ≤ buffer.length) :
    readAt buffer (extent 0 count) = some (buffer.take count) := by
  induction count with
  | zero => rfl
  | succ count ih =>
    have hlast : extent 0 (count + 1) = extent 0 count ++ [(count : ℤ)] := by
      rw [← extent_append 0 count 1, Int.zero_add]
      simp [extent]
    have hfirst := ih (Nat.le_of_succ_le hcount)
    rw [readAt] at hfirst
    rw [hlast, readAt, List.mapM_append, hfirst]
    simp [List.getElem?_eq_getElem hcount]

/-- Positions in order go on where they have come to. -/
theorem start_eq_of_begins {written count size : ℕ} {start : ℤ} {rest : List ℤ}
    (hbegins : extent 0 written ++ extent start count ++ rest <+: extent 0 size)
    (hcount : 0 < count) : start = written := by
  have hlong : written < (extent 0 written ++ extent start count ++ rest).length := by
    simp only [List.length_append, length_extent]
    omega
  have hsize : written < size := by
    have hle := hbegins.length_le
    rw [length_extent] at hle
    omega
  have hhere : (extent 0 written ++ extent start count ++ rest)[written]? = some start := by
    rw [List.append_assoc, List.getElem?_append_right (by simp), length_extent, Nat.sub_self,
      List.getElem?_append_left (by simpa using hcount), getElem?_extent hcount]
    simp
  obtain ⟨more, hmore⟩ := hbegins
  have hsame : (extent 0 size)[written]? = some start := by
    rw [← hmore, List.getElem?_append_left hlong, hhere]
  rw [getElem?_extent hsize] at hsame
  simpa using hsame.symm

end ImageApp.Foundations.Extents
