import LambdaDeploy.Proofs.FileSystem.Walking
import LambdaDeploy.Proofs.Steps
import LambdaDeploy.Proofs.Text.Cutting

/-!
# Places that stand by themselves

A place can be given by names alone: each of them stands in a directory, none is a link, and
none has a special meaning.  Then the path made of these names leads back to the place, and to
nothing else once the place is empty.

* `Standing` — a place whose names lead to it through directories.
* `names_ofNames` — the path of such a place has its names.
* `openRead_erase` — at such a place nothing can be opened once its entry is gone.
-/

namespace LambdaDeploy.FileSystem

variable {fs other : FileSystem} {path name : Bytes} {here place names rest : List Bytes}

/-! ## Names without slashes -/

/-- A name that a path can be made of. -/
structure Sound (name : Bytes) : Prop extends Plain name where
  noSlash : Path.slash ∉ name

instance (name : Bytes) : Decidable (Sound name) :=
  decidable_of_iff (name ≠ Path.self ∧ name ≠ [] ∧ name ≠ Path.parent ∧ Path.slash ∉ name)
    ⟨fun ⟨hself, hempty, hparent, hslash⟩ => ⟨⟨hself, hempty, hparent⟩, hslash⟩,
      fun h => ⟨h.ne_self, h.ne_empty, h.ne_parent, h.noSlash⟩⟩

theorem noSlash_of_mem_steps (h : name ∈ Path.steps path) : Path.slash ∉ name := by
  rw [Path.steps, List.mem_append] at h
  rcases h with h | h
  · intro hslash
    have hfree := Text.eq_false_of_mem_splitWhere (List.mem_filter.1 h).1 _ hslash
    cases hfree
  · split at h
    · rw [List.mem_singleton.1 h]
      exact List.not_mem_nil
    · exact absurd h List.not_mem_nil

/-- The path of a place, and of an entry in it. -/
theorem ofNames_concat (hne : here ≠ []) (name : Bytes) :
    Path.ofNames (here ++ [name]) = Path.ofNames here ++ [Path.slash] ++ name := by
  rw [Path.ofNames, Text.intercalate_concat _ _ hne]
  rfl

theorem splitWhere_ofNames (hne : place ≠ []) (h : ∀ name ∈ place, Sound name) :
    Text.splitWhere (· == Path.slash) (Path.ofNames place) = [] :: place := by
  rw [Path.ofNames, ← List.nil_append (Path.slash :: _), Text.splitWhere_append_cons (by decide),
    Text.splitWhere_intercalate (by decide) hne]
  · rfl
  · intro piece hpiece byte hbyte
    rw [beq_eq_false_iff_ne]
    rintro rfl
    exact (h piece hpiece).noSlash hbyte

/-- The path made of some names has these names. -/
theorem names_ofNames (h : ∀ name ∈ place, Sound name) :
    Path.names (Path.ofNames place) = place := by
  by_cases hne : place = []
  · subst hne
    decide
  · rw [Path.names, splitWhere_ofNames hne h, List.filter_cons_of_neg (by simp),
      List.filter_eq_self]
    intro piece hpiece
    simpa using (h piece hpiece).ne_empty

theorem endsInSlash_ofNames (hne : place ≠ []) (h : ∀ name ∈ place, Sound name) :
    Path.endsInSlash (Path.ofNames place) = false := by
  rw [Path.endsInSlash, beq_eq_false_iff_ne]
  intro hslash
  -- a slash at the end would leave an empty name behind it
  obtain ⟨text, htext⟩ := List.getLast?_eq_some_iff.1 hslash
  have hsplit := splitWhere_ofNames hne h
  rw [htext, Text.splitWhere_append_cons (by decide), Text.splitWhere_nil] at hsplit
  obtain ⟨front, last, rfl⟩ := (List.eq_nil_or_concat place).resolve_left hne
  rw [List.concat_eq_append, ← List.cons_append] at hsplit
  have hempty : last = [] := (List.cons.inj (List.append_inj' hsplit rfl).2).1.symm
  exact (h last (by simp)).ne_empty hempty

/-! ## Standing places -/

/-- The names of a place lead to it through directories, and none has a special meaning. -/
inductive Standing (fs : FileSystem) : List Bytes → Prop
  | root : Standing fs []
  | entry {here : List Bytes} {name : Bytes} (standing : Standing fs here)
      (directory : fs.get? here = some .directory) (sound : Sound name) :
      Standing fs (here ++ [name])

theorem Standing.sound (h : fs.Standing place) : ∀ name ∈ place, Sound name := by
  induction h with
  | root => simp
  | entry _ _ hsound ih => simpa [or_imp, forall_and] using ⟨ih, hsound⟩

theorem Standing.dropLast (h : fs.Standing place) : fs.Standing place.dropLast := by
  cases h with
  | root => exact .root
  | entry standing => rwa [List.dropLast_concat]

theorem Standing.directory_dropLast (h : fs.Standing place) :
    fs.get? place.dropLast = some .directory := by
  cases h with
  | root => rfl
  | entry _ hdirectory => rwa [List.dropLast_concat]

/-- Every directory of `fs` is one of `other` too. -/
def KeepsDirectories (fs other : FileSystem) : Prop :=
  ∀ place, fs.get? place = some .directory → other.get? place = some .directory

theorem Standing.keep (hkeeps : fs.KeepsDirectories other) (h : fs.Standing place) :
    other.Standing place := by
  induction h with
  | root => exact .root
  | entry _ hdirectory hsound ih => exact .entry ih (hkeeps _ hdirectory) hsound

theorem Standing.origin (h : fs.Standing here) (path : Bytes) :
    fs.Standing (origin here path) := by
  rw [FileSystem.origin]
  split
  · exact .root
  · exact h

/-! ## Empty places -/

/-- A walk from the root along a standing place gets there. -/
theorem Walk.of_standing {links : Nat} (hhere : fs.Standing here)
    (hdirectory : fs.get? here = some .directory)
    (h : Walk fs .existing links [] (here ++ rest) place) :
    Walk fs .existing links here rest place := by
  induction hhere generalizing rest with
  | root => exact h
  | @entry front name _ hfront hsound ih =>
    rw [List.append_assoc] at h
    cases ih hfront h with
    | stay _ hstill => exact absurd hstill (by simp [hsound.ne_self, hsound.ne_empty])
    | leave => exact absurd rfl hsound.ne_parent
    | create _ _ _ habsent =>
      rw [hdirectory] at habsent
      cases habsent
    | follow _ _ _ _ hlink =>
      rw [hdirectory] at hlink
      cases hlink
    | enter _ _ _ _ _ _ honward => exact honward

theorem Standing.erase (h : fs.Standing here) (hlength : here.length < place.length) :
    (fs.erase place).Standing here := by
  induction h with
  | root => exact .root
  | @entry front name _ hfront hsound ih =>
    rw [List.length_append] at hlength
    have hne : front ≠ place := by
      rintro rfl
      omega
    refine .entry (ih (by omega)) ?_ hsound
    rw [get?_erase (by rintro rfl; simp at hlength), if_neg hne]
    exact hfront

/-- Once the entry of a standing place is gone, its path opens nothing. -/
theorem openRead_erase (h : fs.Standing place) (hne : place ≠ []) :
    ∃ cause, (fs.erase place).openRead (Path.ofNames place) = .error cause := by
  cases hopen : (fs.erase place).openRead (Path.ofNames place) with
  | error cause => exact ⟨cause, rfl⟩
  | ok content =>
    obtain ⟨found, hresolve, -⟩ := exists_of_bind_eq_ok hopen
    obtain ⟨⟨⟩, -, hwalk⟩ := exists_of_bind_eq_ok hresolve
    have habsolute : Path.isAbsolute (Path.ofNames place) = true := by
      simp [Path.isAbsolute, Path.ofNames]
    rw [walk_eq_ok_iff, FileSystem.origin, if_pos habsolute, Path.steps, names_ofNames h.sound,
      endsInSlash_ofNames hne h.sound] at hwalk
    cases h with
    | root => exact absurd rfl hne
    | @entry front name hstanding hfront hsound =>
      have hgone : (fs.erase (front ++ [name])).get? (front ++ [name]) = none := by
        rw [get?_erase (by simp), if_pos rfl]
      have hdirectory : (fs.erase (front ++ [name])).get? front = some .directory := by
        rw [get?_erase (by simp), if_neg (by simp)]
        exact hfront
      cases (by simpa using hwalk : Walk _ _ _ [] (front ++ [name]) _).of_standing
          (hstanding.erase (by simp)) hdirectory with
      | stay _ hstill => exact absurd hstill (by simp [hsound.ne_self, hsound.ne_empty])
      | leave => exact absurd rfl hsound.ne_parent
      | create _ _ _ _ hwriting => cases hwriting
      | follow _ _ _ _ hlink =>
        rw [hgone] at hlink
        cases hlink
      | enter _ _ _ _ hfound =>
        rw [hgone] at hfound
        cases hfound

end LambdaDeploy.FileSystem
