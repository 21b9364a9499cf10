import Mathlib.Data.Fin.Basic
import Mathlib.Data.List.Basic
import Mathlib.Data.Nat.ModEq
import Mathlib.Logic.Function.Basic
import Mathlib.Tactic.Common

/-!
# Rings of slots that are filled in turn

A ring has a fixed number of slots, and the values of a growing history are put into them in turn,
each one over the value that was put there one round before. `HoldsLast` relates the slots to the
history: a slot holds a value exactly when it is the value of the last round that belongs there.
`HoldsLast.push` is the step, and the other lemmas read off what a slot holds.

A ring is used as a cache when a value is put into it only if no slot holds the value. Then no two
slots ever hold the same value (`DistinctSlots.push`).
-/

set_option autoImplicit false
set_option relaxedAutoImplicit false

namespace ImageApp.Foundations.FifoRing

variable {Value : Type*} {size : ℕ}

/-- A slot holds a value exactly when it is the value of the last round that belongs there. -/
def HoldsLast (slots : Fin size → Option Value) (history : List Value) : Prop :=
  ∀ slot value, slots slot = some value ↔
    ∃ k, history[k]? = some value ∧ k % size = slot ∧ history.length ≤ k + size

/-- No two slots hold the same value. -/
def DistinctSlots (slots : Fin size → Option Value) : Prop :=
  ∀ slot slot' value, slots slot = some value → slots slot' = some value → slot = slot'

/-- At the start every slot is free. -/
theorem holdsLast_nil : HoldsLast (fun _ : Fin size ↦ (none : Option Value)) [] := by
  intro slot value
  simp

theorem distinctSlots_none : DistinctSlots (fun _ : Fin size ↦ (none : Option Value)) := by
  intro slot slot' value hslot
  simp at hslot

/-- Two numbers of the same round that belong to the same slot are equal. -/
theorem eq_of_mod_eq {first second count : ℕ} (hmod : first % size = second % size)
    (hfirst : first < count) (hsecond : second < count) (hfirst' : count ≤ first + size)
    (hsecond' : count ≤ second + size) : first = second := by
  rcases Nat.le_total first second with hle | hle
  · have hdvd := (Nat.modEq_iff_dvd' hle).mp hmod
    have hzero := Nat.eq_zero_of_dvd_of_lt hdvd (by omega)
    omega
  · have hdvd := (Nat.modEq_iff_dvd' hle).mp hmod.symm
    have hzero := Nat.eq_zero_of_dvd_of_lt hdvd (by omega)
    omega

/-- The next value goes over the one that was put there one round before. -/
theorem HoldsLast.push {slots : Fin size → Option Value} {history : List Value} {next : Fin size}
    (hlast : HoldsLast slots history) (hnext : history.length % size = next) (value : Value) :
    HoldsLast (Function.update slots next (some value)) (history ++ [value]) := by
  intro slot other
  rw [List.length_append, List.length_singleton]
  by_cases hslot : slot = next
  · subst hslot
    rw [Function.update_self]
    constructor
    · intro heq
      rw [Option.some.injEq] at heq
      have hpos := slot.pos
      exact ⟨history.length, by simp [heq], hnext, by omega⟩
    · rintro ⟨k, hk, hmod, hround⟩
      have hlt : k < history.length + 1 := by
        simpa using (List.getElem?_eq_some_iff.mp hk).1
      have hk' := eq_of_mod_eq (hmod.trans hnext.symm) hlt (by omega) hround
        (by have := slot.pos; omega)
      subst hk'
      simpa using hk
  · rw [Function.update_of_ne hslot, hlast]
    constructor
    · rintro ⟨k, hk, hmod, hround⟩
      have hlt := (List.getElem?_eq_some_iff.mp hk).1
      refine ⟨k, by rw [List.getElem?_append_left hlt, hk], hmod, ?_⟩
      -- The value of the round before is in the slot that is written.
      have hne : history.length ≠ k + size := by
        intro heq
        apply hslot
        rw [heq, Nat.add_mod_right, hmod] at hnext
        exact Fin.ext hnext
      omega
    · rintro ⟨k, hk, hmod, hround⟩
      have hlt : k < history.length + 1 := by
        simpa using (List.getElem?_eq_some_iff.mp hk).1
      have hne : k ≠ history.length := by
        rintro rfl
        exact hslot (Fin.ext (hmod.symm.trans hnext))
      rw [List.getElem?_append_left (by omega)] at hk
      exact ⟨k, hk, hmod, by omega⟩

/-- A value of the last round is held by its slot. -/
theorem HoldsLast.eq_some {slots : Fin size → Option Value} {history : List Value} {slot : Fin size}
    {k : ℕ} {value : Value} (hlast : HoldsLast slots history) (hk : history[k]? = some value)
    (hslot : k % size = slot) (hround : history.length ≤ k + size) : slots slot = some value :=
  (hlast slot value).mpr ⟨k, hk, hslot, hround⟩

/-- A value that a slot holds is one of the history. -/
theorem HoldsLast.mem {slots : Fin size → Option Value} {history : List Value} {slot : Fin size}
    {value : Value} (hlast : HoldsLast slots history) (hheld : slots slot = some value) :
    value ∈ history := by
  obtain ⟨k, hk, -⟩ := (hlast slot value).mp hheld
  exact List.mem_of_getElem? hk

/-- A value that no slot holds can be put into any slot. -/
theorem DistinctSlots.push {slots : Fin size → Option Value} {value : Value}
    (hdistinct : DistinctSlots slots) (hfree : ∀ slot, slots slot ≠ some value) (next : Fin size) :
    DistinctSlots (Function.update slots next (some value)) := by
  intro slot slot' other hslot hslot'
  by_cases hnext : slot = next
  · by_cases hnext' : slot' = next
    · rw [hnext, hnext']
    · rw [hnext, Function.update_self] at hslot
      rw [Function.update_of_ne hnext', ← hslot] at hslot'
      exact absurd hslot' (hfree slot')
  · rw [Function.update_of_ne hnext] at hslot
    by_cases hnext' : slot' = next
    · rw [hnext', Function.update_self] at hslot'
      rw [← hslot'] at hslot
      exact absurd hslot (hfree slot)
    · rw [Function.update_of_ne hnext'] at hslot'
      exact hdistinct slot slot' other hslot hslot'

end ImageApp.Foundations.FifoRing
