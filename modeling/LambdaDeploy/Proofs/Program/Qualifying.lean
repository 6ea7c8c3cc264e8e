import LambdaDeploy.Program.Scope
import Mathlib.Data.List.Nodup

/-!
# Imports and qualified names

A name of another package is written behind the module prefix of an import of it.  Under
distinct prefixes that prefix leads back to the import.

* `Scope.importAs?_of_mem` — distinct prefixes stand for their imports.
* `Scope.exists_qualify` — the prefix behind which a name of an imported package is written.
-/

namespace LambdaDeploy.Scope

variable {scope : Scope} {i : Import}

/-- Under distinct module prefixes an import is what its prefix stands for. -/
theorem importAs?_of_mem (distinct : (scope.imports.map (·.modulePrefix)).Nodup)
    (hi : i ∈ scope.imports) : scope.importAs? i.modulePrefix = some i := by
  cases hfind : scope.importAs? i.modulePrefix with
  | none =>
    have hnone := List.find?_eq_none.1 hfind i hi
    simp at hnone
  | some other =>
    have hother : other ∈ scope.imports := List.mem_of_find?_eq_some hfind
    have hsame : other.modulePrefix = i.modulePrefix := by simpa using List.find?_some hfind
    rw [List.inj_on_of_nodup_map distinct hother hi hsame]

theorem qualify_own (scope : Scope) (name : String) : scope.qualify scope.package name = name := by
  rw [qualify, if_pos rfl]

/-- A name of an imported package is written behind the prefix of an import of that package,
up to its version. -/
theorem exists_qualify (hi : i ∈ scope.imports) (hforeign : i.package ≠ scope.package)
    (name : String) :
    ∃ j ∈ scope.imports, j.package.org = i.package.org ∧ j.package.name = i.package.name ∧
      scope.qualify i.package name = j.modulePrefix ++ ":" ++ name := by
  have hfound : (scope.importOf? i.package.org i.package.name).isSome := by
    rw [importOf?, List.find?_isSome]
    exact ⟨i, hi, Package.isNamed_iff.2 ⟨rfl, rfl⟩⟩
  obtain ⟨j, hj⟩ := Option.isSome_iff_exists.1 hfound
  have hsame : j.package.isNamed i.package.org i.package.name = true := by
    rw [importOf?] at hj
    simpa using List.find?_some hj
  obtain ⟨horg, hname⟩ := Package.isNamed_iff.1 hsame
  refine ⟨j, List.mem_of_find?_eq_some hj, horg, hname, ?_⟩
  rw [qualify, if_neg hforeign, hj]

end LambdaDeploy.Scope
