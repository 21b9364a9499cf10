import ImageApp.Foundations.FifoRing
import Mathlib.Algebra.Order.BigOperators.Group.Finset
import Mathlib.Data.Finset.Card

/-!
# What a cache of the last values misses

A cache that holds the last `size` values that missed, and nothing else, is described by the list of
the values that missed: `miss` is one request and `misses` a row of them. `HoldsLast.exists_iff`
says that a ring of slots is such a cache.

A value misses again only after `size` others (`spaced_misses`), so among many misses a value has no
more than its share (`count_mul_le_of_spaced`), and when there are not more than `size` values each
of them misses once (`nodup_misses`). When several parties use the cache, a value can be put into it
once by each of them, and `length_le_of_count_le` is the bound on the whole.
-/

set_option autoImplicit false
set_option relaxedAutoImplicit false

namespace ImageApp.Foundations.FifoRing

variable {Value : Type*} {size : ℕ}

/-- The last values of a history. -/
def window (size : ℕ) (history : List Value) : List Value :=
  history.drop (history.length - size)

theorem mem_window_iff {history : List Value} {value : Value} :
    value ∈ window size history ↔
      ∃ k, history[k]? = some value ∧ history.length ≤ k + size := by
  rw [window, List.mem_iff_getElem?]
  constructor
  · rintro ⟨i, hi⟩
    rw [List.getElem?_drop] at hi
    exact ⟨history.length - size + i, hi, by omega⟩
  · rintro ⟨k, hk, hround⟩
    refine ⟨k - (history.length - size), ?_⟩
    rw [List.getElem?_drop, Nat.add_sub_cancel' (by omega)]
    exact hk

/-- The slots of a ring hold the last values. -/
theorem HoldsLast.exists_iff {slots : Fin size → Option Value} {history : List Value}
    (hlast : HoldsLast slots history) {value : Value} :
    (∃ slot, slots slot = some value) ↔ value ∈ window size history := by
  rw [mem_window_iff]
  constructor
  · rintro ⟨slot, hheld⟩
    obtain ⟨k, hk, -, hround⟩ := (hlast slot value).mp hheld
    exact ⟨k, hk, hround⟩
  · rintro ⟨k, hk, hround⟩
    have hlt := (List.getElem?_eq_some_iff.mp hk).1
    have hpos : 0 < size := by omega
    exact ⟨⟨k % size, Nat.mod_lt _ hpos⟩, hlast.eq_some hk rfl hround⟩

/-- A history that fits into the window is in it as a whole. -/
theorem window_of_length_le {history : List Value} (hlength : history.length ≤ size) :
    window size history = history := by
  rw [window, Nat.sub_eq_zero_of_le hlength, List.drop_zero]

/-- Between two equal values of the history there are `size` others. -/
def Spaced (size : ℕ) (history : List Value) : Prop :=
  ∀ i j value, history[i]? = some value → history[j]? = some value → i < j → i + size < j

theorem Spaced.take {history : List Value} (hspaced : Spaced size history) (count : ℕ) :
    Spaced size (history.take count) := by
  intro i j value hi hj hlt
  rw [List.getElem?_take] at hi hj
  split_ifs at hi hj
  exact hspaced i j value hi hj hlt

section Count

variable [BEq Value] [LawfulBEq Value]

/-- The earlier occurrences of the last value are in front of the last ones. -/
theorem count_take_of_spaced {history : List Value} {value : Value}
    (hspaced : Spaced size (history ++ [value])) :
    history.count value = (history.take (history.length - size)).count value := by
  have hnear : (window size history).count value = 0 := by
    rw [List.count_eq_zero, mem_window_iff]
    rintro ⟨k, hk, hround⟩
    have hlt := (List.getElem?_eq_some_iff.mp hk).1
    have hfar := hspaced k history.length value (by rw [List.getElem?_append_left hlt, hk])
      List.getElem?_concat_length hlt
    omega
  conv_lhs => rw [← List.take_append_drop (history.length - size) history]
  rw [List.count_append, ← window, hnear, Nat.add_zero]

/-- Among the values of a spaced history no value has more than one in `size + 1`. -/
theorem count_mul_le_of_spaced {history : List Value} (hspaced : Spaced size history)
    (value : Value) : history.count value * (size + 1) ≤ history.length + size := by
  induction hlength : history.length using Nat.strongRecOn generalizing history with
  | ind length ih =>
    rcases List.eq_nil_or_concat' history with rfl | ⟨front, last, rfl⟩
    · simp
    have hfront : Spaced size front := by
      simpa using hspaced.take front.length
    rw [List.length_append, List.length_singleton] at hlength
    by_cases hvalue : last = value
    · subst hvalue
      rw [List.count_append, List.count_singleton_self, count_take_of_spaced hspaced]
      have hbound := ih (front.length - size) (by omega) (hfront.take (front.length - size))
        (by rw [List.length_take]; omega)
      by_cases hshort : front.length ≤ size
      · rw [Nat.sub_eq_zero_of_le hshort, List.take_zero, List.count_nil]
        omega
      · rw [Nat.add_mul, Nat.one_mul]
        omega
    · rw [List.count_append, List.count_singleton, if_neg (by simpa using hvalue), Nat.add_zero]
      have hbound := ih front.length (by omega) hfront rfl
      omega

end Count

variable [DecidableEq Value]

/-- A value that is not among the last ones misses. -/
def miss (size : ℕ) (missed : List Value) (value : Value) : List Value :=
  if value ∈ window size missed then missed else missed ++ [value]

/-- The misses of a row of requests. -/
def misses (size : ℕ) (requests : List Value) : List Value :=
  requests.foldl (miss size) []

theorem misses_concat (requests : List Value) (value : Value) :
    misses size (requests ++ [value]) = miss size (misses size requests) value := by
  rw [misses, List.foldl_append]
  rfl

theorem mem_miss_iff {missed : List Value} {value other : Value} :
    other ∈ miss size missed value ↔ other ∈ missed ∨ other = value := by
  rw [miss]
  split_ifs with hheld
  · constructor
    · exact Or.inl
    · rintro (hmem | rfl)
      · exact hmem
      · exact List.mem_of_mem_drop hheld
  · rw [List.mem_append, List.mem_singleton]

/-- What is requested misses at least once, and nothing else does. -/
theorem mem_misses_iff {requests : List Value} {value : Value} :
    value ∈ misses size requests ↔ value ∈ requests := by
  induction requests using List.reverseRecOn with
  | nil => exact Iff.rfl
  | append_singleton requests request ih =>
    rw [misses_concat, mem_miss_iff, ih, List.mem_append, List.mem_singleton]

/-! ### Misses of one value -/

theorem spaced_miss {missed : List Value} (hspaced : Spaced size missed) (value : Value) :
    Spaced size (miss size missed value) := by
  rw [miss]
  split_ifs with hheld
  · exact hspaced
  · intro i j other hi hj hlt
    have hbound : j < missed.length + 1 := by
      simpa using (List.getElem?_eq_some_iff.mp hj).1
    rw [List.getElem?_append_left (by omega)] at hi
    rcases Nat.lt_succ_iff_lt_or_eq.mp hbound with hold | rfl
    · rw [List.getElem?_append_left hold] at hj
      exact hspaced i j other hi hj hlt
    · -- The value has just missed, so it is not among the last ones.
      rw [List.getElem?_concat_length, Option.some.injEq] at hj
      subst hj
      by_contra hnear
      exact hheld (mem_window_iff.mpr ⟨i, hi, by omega⟩)

/-- A value misses again only after `size` others. -/
theorem spaced_misses (requests : List Value) : Spaced size (misses size requests) := by
  induction requests using List.reverseRecOn with
  | nil =>
    intro i j value hi
    simp [misses] at hi
  | append_singleton requests request ih =>
    rw [misses_concat]
    exact spaced_miss ih request

/-! ### Few values -/

/-- Not more than `size` values miss once each. -/
theorem nodup_misses {requests : List Value} {values : Finset Value} (hfew : values.card ≤ size)
    (hvalues : ∀ value ∈ requests, value ∈ values) : (misses size requests).Nodup := by
  induction requests using List.reverseRecOn with
  | nil => exact List.nodup_nil
  | append_singleton requests request ih =>
    have hnodup := ih fun value hmem ↦ hvalues value (List.mem_append_left _ hmem)
    have hsubset : (misses size requests).toFinset ⊆ values := by
      intro value hmem
      rw [List.mem_toFinset, mem_misses_iff] at hmem
      exact hvalues value (List.mem_append_left _ hmem)
    have hlength : (misses size requests).length ≤ size := by
      rw [← List.toFinset_card_of_nodup hnodup]
      exact (Finset.card_le_card hsubset).trans hfew
    rw [misses_concat, miss, window_of_length_le hlength]
    split_ifs with hheld
    · exact hnodup
    · rw [List.nodup_append]
      exact ⟨hnodup, List.nodup_singleton _, fun value hvalue other hother heq ↦ by
        rw [List.mem_singleton] at hother
        rw [← hother, ← heq] at hheld
        exact hheld hvalue⟩

/-- Each of some values was put into the cache a bounded number of times. -/
theorem length_le_of_count_le [BEq Value] [LawfulBEq Value] {history : List Value}
    {values : Finset Value} {bound : ℕ} (hvalues : ∀ value ∈ history, value ∈ values)
    (hcount : ∀ value, history.count value ≤ bound) : history.length ≤ values.card * bound := by
  have hsum := List.sum_toFinset_count_eq_length history
  rw [← lawful_beq_subsingleton ‹BEq Value› instBEqOfDecidableEq] at hsum
  have hsubset : history.toFinset ⊆ values := fun value hmem ↦
    hvalues value (List.mem_toFinset.mp hmem)
  calc history.length = ∑ value ∈ history.toFinset, history.count value := hsum.symm
    _ ≤ ∑ _value ∈ history.toFinset, bound := Finset.sum_le_sum fun value _ ↦ hcount value
    _ = history.toFinset.card * bound := Finset.sum_const_nat fun _ _ ↦ rfl
    _ ≤ values.card * bound := Nat.mul_le_mul_right _ (Finset.card_le_card hsubset)

end ImageApp.Foundations.FifoRing
