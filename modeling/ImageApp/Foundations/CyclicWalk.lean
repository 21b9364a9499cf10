import Mathlib.Data.List.Chain
import Mathlib.Data.List.Nodup
import Mathlib.Data.List.Perm.Subperm
import Mathlib.Data.Nat.ModEq
import Mathlib.Tactic.Common

/-!
# A walk around a ring

A walk visits the places `0, …, size - 1` of a ring. A regular step goes to the next place, around
the end; any other step goes to one fixed place, its home.

`nodup_iff_regular` says that a walk of as many places as the ring has visits each of them once if
and only if all its steps are regular: a step home from a place that is not followed by it leaves a
place to be visited last that was visited first.
-/

set_option autoImplicit false
set_option relaxedAutoImplicit false

namespace ImageApp.Foundations.CyclicWalk

variable {size home : ℕ} {walk : List ℕ}

/-- A regular step. -/
def Regular (size here next : ℕ) : Prop :=
  next = (here + 1) % size

/-- A regular step, or a step home. -/
def RegularOrHome (size home here next : ℕ) : Prop :=
  Regular size here next ∨ next = home

/-- Regular steps go on from the first place. -/
theorem getElem_of_regular {i : ℕ} (hi : i < walk.length) (hplaces : ∀ place ∈ walk, place < size)
    (hregular : ∀ j, (hj : j < i) → Regular size walk[j] walk[j + 1]) :
    walk[i] = (walk[0] + i) % size := by
  induction i with
  | zero =>
    rw [Nat.add_zero, Nat.mod_eq_of_lt (hplaces _ (List.getElem_mem _))]
  | succ i ih =>
    have hbefore := ih (by omega) fun j hj ↦ hregular j (by omega)
    have hlast : walk[i + 1] = (walk[i] + 1) % size := hregular i (by omega)
    rw [hlast, hbefore, Nat.mod_add_mod, Nat.add_assoc]

/-- Places that are closer than the size of the ring are different. -/
theorem eq_of_add_mod_eq {first i j : ℕ} (hi : i < size) (hj : j < size)
    (hmod : (first + i) % size = (first + j) % size) : i = j := by
  have hcancel : i % size = j % size := Nat.ModEq.add_left_cancel' first hmod
  rwa [Nat.mod_eq_of_lt hi, Nat.mod_eq_of_lt hj] at hcancel

/-- Two places are followed by different ones. -/
theorem eq_of_succ_mod_eq {here other : ℕ} (hhere : here < size) (hother : other < size)
    (hmod : (here + 1) % size = (other + 1) % size) : here = other := by
  rw [Nat.add_comm here, Nat.add_comm other] at hmod
  exact eq_of_add_mod_eq hhere hother hmod

/-- A walk that visits every place once and leaves a place irregularly had the place behind it as
its first one. -/
theorem first_of_irregular {j : ℕ} (hplaces : ∀ place ∈ walk, place < size)
    (hlength : walk.length = size) (hnodup : walk.Nodup)
    (hsteps : walk.IsChain (RegularOrHome size home)) (hj : j + 1 < walk.length)
    (hirregular : ¬ Regular size walk[j] walk[j + 1]) : (walk[j] + 1) % size = walk[0] := by
  have hsteps' := List.isChain_iff_getElem.mp hsteps
  have hperm : walk.Perm (List.range size) := by
    refine (hnodup.subperm fun place hplace ↦ ?_).perm_of_length_le ?_
    · exact List.mem_range.mpr (hplaces place hplace)
    · rw [List.length_range, hlength]
  have hvisited : (walk[j] + 1) % size ∈ walk :=
    hperm.mem_iff.mpr (List.mem_range.mpr (Nat.mod_lt _ (by omega)))
  obtain ⟨i, hi, hplace⟩ := List.getElem_of_mem hvisited
  have hhome : walk[j + 1] = home := (hsteps' j hj).resolve_left hirregular
  cases i with
  | zero => exact hplace.symm
  | succ i =>
    exfalso
    rcases hsteps' i hi with hregular | hreturn
    · -- Both places are followed by the same one, so they are the same.
      have hsucc : (walk[i] + 1) % size = (walk[j] + 1) % size := by
        rw [← hplace]
        exact hregular.symm
      have hsame : walk[i] = walk[j] :=
        eq_of_succ_mod_eq (hplaces _ (List.getElem_mem _)) (hplaces _ (List.getElem_mem _)) hsucc
      have heq : i = j := hnodup.getElem_inj_iff.mp hsame
      subst heq
      exact hirregular hplace
    · refine hirregular ?_
      rw [Regular, ← hplace, hreturn, hhome]

/-- A walk of as many places as the ring has visits each of them once if and only if all its steps
are regular. -/
theorem nodup_iff_regular (hplaces : ∀ place ∈ walk, place < size) (hlength : walk.length = size)
    (hsteps : walk.IsChain (RegularOrHome size home)) :
    walk.Nodup ↔ walk.IsChain (Regular size) := by
  rw [List.isChain_iff_getElem]
  constructor
  · intro hnodup j hj
    by_contra hirregular
    have hfirst := first_of_irregular hplaces hlength hnodup hsteps hj hirregular
    -- A second irregular step would leave the same place.
    have hbefore : ∀ i, (hi : i < j) → Regular size walk[i] walk[i + 1] := by
      intro i hi
      by_contra hother
      have hfirst' := first_of_irregular hplaces hlength hnodup hsteps (by omega) hother
      have hsame : walk[i] = walk[j] :=
        eq_of_succ_mod_eq (hplaces _ (List.getElem_mem _)) (hplaces _ (List.getElem_mem _))
          (hfirst'.trans hfirst.symm)
      exact absurd (hnodup.getElem_inj_iff.mp hsame) (Nat.ne_of_lt hi)
    rw [getElem_of_regular (by omega) hplaces hbefore, Nat.mod_add_mod, Nat.add_assoc] at hfirst
    have hzero : j + 1 = 0 := by
      refine eq_of_add_mod_eq (by omega) (by omega) (hfirst.trans ?_)
      rw [Nat.add_zero, Nat.mod_eq_of_lt (hplaces _ (List.getElem_mem _))]
    omega
  · intro hregular
    have hplace : ∀ k, (hk : k < walk.length) → walk[k] = (walk[0] + k) % size := fun k hk ↦
      getElem_of_regular hk hplaces fun other hother ↦ hregular other (by omega)
    refine List.pairwise_iff_getElem.mpr fun i j hi hj hlt heq ↦ ?_
    rw [hplace i hi, hplace j hj] at heq
    exact absurd (eq_of_add_mod_eq (by omega) (by omega) heq) (Nat.ne_of_lt hlt)

end ImageApp.Foundations.CyclicWalk
