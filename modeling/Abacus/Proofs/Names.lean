import Abacus.Tree.Basic
import Mathlib

/-!
Lists of names.

Sorting inserts one name after the other, so the names stay the same and end up in order. Which names are listed depends
only on which there are, not on the order in which they were met nor on how often.
-/

namespace Abacus.Tree

variable {name : String} {names others : List String}

theorem insertName_perm (name : String) (names : List String) : (insertName name names).Perm (name :: names) := by
  fun_induction insertName name names with
  | case1 => exact .refl _
  | case2 last before greater ih => exact (ih.cons last).trans (.swap name last before)
  | case3 last before not_greater => exact .refl _

theorem insertName_sorted (name : String) (sorted : names.Pairwise (· ≥ ·)) :
    (insertName name names).Pairwise (· ≥ ·) := by
  fun_induction insertName name names with
  | case1 => exact List.pairwise_singleton _ _
  | case2 last before greater ih =>
    obtain ⟨above, rest_sorted⟩ := List.pairwise_cons.mp sorted
    refine List.pairwise_cons.mpr ⟨fun other inside => ?_, ih rest_sorted⟩
    rcases List.mem_cons.mp ((insertName_perm name before).mem_iff.mp inside) with rfl | inside
    · exact greater.le
    · exact above other inside
  | case3 last before not_greater =>
    have least : last ≤ name := not_lt.mp not_greater
    refine List.pairwise_cons.mpr ⟨fun other inside => ?_, sorted⟩
    rcases List.mem_cons.mp inside with rfl | inside
    · exact least
    · exact ((List.pairwise_cons.mp sorted).1 other inside).trans least

/-- Inserting one name after the other keeps the names and their order. -/
theorem foldl_insertName (names : List String) {sorted : List String} (in_order : sorted.Pairwise (· ≥ ·)) :
    (names.foldl (fun sorted name => insertName name sorted) sorted).Perm (names ++ sorted) ∧
      (names.foldl (fun sorted name => insertName name sorted) sorted).Pairwise (· ≥ ·) := by
  induction names generalizing sorted with
  | nil => exact ⟨.refl _, in_order⟩
  | cons name names ih =>
    obtain ⟨same, still_in_order⟩ := ih (insertName_sorted name in_order)
    refine ⟨same.trans ?_, still_in_order⟩
    exact ((insertName_perm name sorted).append_left names).trans List.perm_middle

theorem sortNames_perm (names : List String) : (sortNames names).Perm names := by
  have same := (foldl_insertName names List.Pairwise.nil).1
  rw [List.append_nil] at same
  exact (List.reverse_perm _).trans same

theorem sortNames_sorted (names : List String) : (sortNames names).Pairwise (· ≤ ·) :=
  List.pairwise_reverse.mpr (foldl_insertName names List.Pairwise.nil).2

theorem nodup_eraseDups (names : List String) : names.eraseDups.Nodup := by
  induction size : names.length using Nat.strongRecOn generalizing names with
  | ind size' ih =>
    cases names with
    | nil => exact List.nodup_nil
    | cons name names =>
      rw [List.eraseDups_cons]
      have shorter : (names.filter fun other => !other == name).length < size' := by
        have := List.length_filter_le (fun other => !other == name) names
        rw [← size, List.length_cons]
        omega
      refine List.nodup_cons.mpr ⟨?_, ih _ shorter _ rfl⟩
      simp [List.mem_eraseDups]

theorem mem_listNames_iff : name ∈ listNames names ↔ name ∈ names := by
  rw [listNames, (sortNames_perm _).mem_iff, List.mem_eraseDups]

/-- Listed names increase strictly. -/
theorem listNames_increasing (names : List String) : (listNames names).Pairwise (· < ·) := by
  have distinct : (listNames names).Nodup := (sortNames_perm _).nodup_iff.mpr (nodup_eraseDups names)
  exact ((sortNames_sorted _).and distinct).imp fun both => lt_of_le_of_ne both.1 both.2

/-- Names are listed alike if there are the same. -/
theorem listNames_congr (same : ∀ name, name ∈ names ↔ name ∈ others) : listNames names = listNames others := by
  have erased : names.eraseDups.Perm others.eraseDups := by
    refine (List.perm_ext_iff_of_nodup (nodup_eraseDups names) (nodup_eraseDups others)).mpr fun name => ?_
    rw [List.mem_eraseDups, List.mem_eraseDups, same]
  refine List.Perm.eq_of_pairwise (fun _ _ _ _ => le_antisymm) (sortNames_sorted _) (sortNames_sorted _) ?_
  exact (sortNames_perm _).trans (erased.trans (sortNames_perm _).symm)

/-- The variables of a tree are the names in it. -/
theorem mem_vars_iff {t : Tree} : name ∈ t.vars ↔ name ∈ t.names :=
  mem_listNames_iff

end Abacus.Tree
