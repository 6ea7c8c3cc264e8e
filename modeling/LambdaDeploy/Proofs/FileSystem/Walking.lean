import LambdaDeploy.FileSystem.Operation

/-!
# Where walks lead

`FileSystem.walk` computes where some names lead.  Here the same is said as a relation with
one rule for each way to get past a name, so that what holds of walks goes by induction on
them.

* `Walk` — some names lead from one place to another.
* `walk_eq_ok_iff` — **walks compute this relation.**
* `Within` — a file system that has everything that another one has.
* `Walk.within` — what can be reached stays within reach when something is added.
* `Walk.split` — a walk that ends in a file to be written gets to its directory first.
-/

namespace LambdaDeploy.FileSystem

variable {fs larger : FileSystem} {aim : Aim} {links : Nat} {here place : List Bytes}
  {name : Bytes} {names rest : List Bytes}

/-! ## Walks as a relation -/

/-- A name that can stand for an entry of a directory. -/
structure Plain (name : Bytes) : Prop where
  ne_self : name ≠ Path.self
  ne_empty : name ≠ []
  ne_parent : name ≠ Path.parent

/-- Some names lead from a place to another one, on at most so many links. -/
inductive Walk (fs : FileSystem) (aim : Aim) :
    Nat → List Bytes → List Bytes → List Bytes → Prop
  | stop (links : Nat) (here : List Bytes) : Walk fs aim links here [] here
  | stay {links : Nat} {here rest place : List Bytes} {name : Bytes}
      (directory : fs.get? here = some .directory) (still : name = Path.self ∨ name = [])
      (onward : Walk fs aim links here rest place) : Walk fs aim links here (name :: rest) place
  | leave {links : Nat} {here rest place : List Bytes}
      (directory : fs.get? here = some .directory)
      (onward : Walk fs aim links here.dropLast rest place) :
      Walk fs aim links here (Path.parent :: rest) place
  /-- A file that is to be written need not be there. -/
  | create {links : Nat} {here : List Bytes} {name : Bytes}
      (directory : fs.get? here = some .directory) (plain : Plain name)
      (short : name.length ≤ nameLimit) (absent : fs.get? (here ++ [name]) = none)
      (writing : aim = .writing) : Walk fs aim links here [name] (here ++ [name])
  | follow {links : Nat} {here rest place : List Bytes} {name target : Bytes}
      (directory : fs.get? here = some .directory) (plain : Plain name)
      (short : name.length ≤ nameLimit) (bare : ¬ (aim = .writing ∧ rest = [[]]))
      (link : fs.get? (here ++ [name]) = some (.link target))
      (onward : Walk fs aim links (origin here target) (Path.steps target ++ rest) place) :
      Walk fs aim (links + 1) here (name :: rest) place
  | enter {links : Nat} {here rest place : List Bytes} {name : Bytes} {entry : Entry}
      (directory : fs.get? here = some .directory) (plain : Plain name)
      (short : name.length ≤ nameLimit) (bare : ¬ (aim = .writing ∧ rest = [[]]))
      (found : fs.get? (here ++ [name]) = some entry) (solid : ∀ target, entry ≠ .link target)
      (onward : Walk fs aim links (here ++ [name]) rest place) :
      Walk fs aim links here (name :: rest) place

/-- What gets past the first name of a walk that succeeds. -/
theorem walkWith_cons_cases
    {follow : List Bytes → List Bytes → Except FileError (List Bytes)}
    (h : fs.walkWith aim follow here (name :: rest) = .ok place) :
    fs.get? here = some .directory ∧
      ((name = Path.self ∨ name = []) ∧ fs.walkWith aim follow here rest = .ok place ∨
        name = Path.parent ∧ fs.walkWith aim follow here.dropLast rest = .ok place ∨
        Plain name ∧ name.length ≤ nameLimit ∧ ¬ (aim = .writing ∧ rest = [[]]) ∧
          (fs.get? (here ++ [name]) = none ∧ aim = .writing ∧ rest = [] ∧
              place = here ++ [name] ∨
            (∃ target, fs.get? (here ++ [name]) = some (.link target) ∧
              follow (origin here target) (Path.steps target ++ rest) = .ok place) ∨
            ∃ entry, fs.get? (here ++ [name]) = some entry ∧ (∀ target, entry ≠ .link target) ∧
              fs.walkWith aim follow (here ++ [name]) rest = .ok place)) := by
  rw [walkWith] at h
  split at h
  · rename_i hdirectory
    refine ⟨hdirectory, ?_⟩
    split at h
    · exact .inl ⟨‹_›, h⟩
    · rename_i hstill
      split at h
      · exact .inr (.inl ⟨‹_›, h⟩)
      · rename_i hparent
        rw [not_or] at hstill
        split at h
        · cases h
        · rename_i hbare
          split at h
          · cases h
          · rename_i hshort
            refine .inr (.inr ⟨⟨hstill.1, hstill.2, hparent⟩, Nat.not_lt.1 hshort, hbare, ?_⟩)
            split at h
            · rename_i habsent
              split at h
              · rename_i hlast
                cases h
                exact .inl ⟨habsent, hlast.1, hlast.2, rfl⟩
              · cases h
            · exact .inr (.inl ⟨_, ‹_›, h⟩)
            · rename_i entry hsolid hfound
              exact .inr (.inr ⟨entry, hfound, hsolid, h⟩)
  · cases h

theorem walk_of_walkWith
    {follow : List Bytes → List Bytes → Except FileError (List Bytes)}
    (hfollow : ∀ here names place, follow here names = .ok place →
      0 < links ∧ Walk fs aim (links - 1) here names place)
    (h : fs.walkWith aim follow here names = .ok place) : Walk fs aim links here names place := by
  induction names generalizing here with
  | nil =>
    cases h
    exact .stop _ _
  | cons name rest ih =>
    obtain ⟨hdirectory, ⟨hstill, hrest⟩ | ⟨rfl, hrest⟩ | ⟨hplain, hshort, hbare, hcases⟩⟩ :=
      walkWith_cons_cases h
    · exact .stay hdirectory hstill (ih hrest)
    · exact .leave hdirectory (ih hrest)
    · rcases hcases with ⟨habsent, hwriting, rfl, rfl⟩ | ⟨target, hlink, honward⟩ |
        ⟨entry, hfound, hsolid, hrest⟩
      · exact .create hdirectory hplain hshort habsent hwriting
      · obtain ⟨hpositive, hwalk⟩ := hfollow _ _ _ honward
        obtain ⟨n, rfl⟩ := Nat.exists_eq_add_of_lt hpositive
        exact .follow hdirectory hplain hshort hbare hlink hwalk
      · exact .enter hdirectory hplain hshort hbare hfound hsolid (ih hrest)

theorem Walk.eq_ok (h : Walk fs aim links here names place) :
    fs.walk aim links here names = .ok place := by
  -- only a link tells how many of them are left
  have hform : ∀ links, ∃ follow, fs.walk aim links = fs.walkWith aim follow := fun links => by
    cases links <;> exact ⟨_, rfl⟩
  induction h with
  | stop links here =>
    obtain ⟨follow, hwalk⟩ := hform links
    rw [hwalk, walkWith]
  | @stay links _ _ _ _ hdirectory hstill _ ih =>
    obtain ⟨follow, hwalk⟩ := hform links
    rw [hwalk] at ih ⊢
    simp only [walkWith, hdirectory, if_pos hstill, ih]
  | @leave links _ _ _ hdirectory _ ih =>
    obtain ⟨follow, hwalk⟩ := hform links
    rw [hwalk] at ih ⊢
    rw [walkWith]
    simp only [hdirectory, ih]
    rfl
  | @create links _ _ hdirectory hplain hshort habsent hwriting =>
    obtain ⟨follow, hwalk⟩ := hform links
    rw [hwalk]
    simp [walkWith, hdirectory, hplain.ne_self, hplain.ne_empty, hplain.ne_parent, hwriting,
      habsent, Nat.not_lt.2 hshort]
  | @follow links _ _ _ _ _ hdirectory hplain hshort hbare hlink _ ih =>
    rw [walk]
    simp [walkWith, hdirectory, hplain.ne_self, hplain.ne_empty, hplain.ne_parent, hbare,
      hlink, Nat.not_lt.2 hshort, ih]
  | @enter links _ _ _ _ entry hdirectory hplain hshort hbare hfound hsolid _ ih =>
    obtain ⟨follow, hwalk⟩ := hform links
    rw [hwalk] at ih ⊢
    cases entry with
    | link target => exact absurd rfl (hsolid target)
    | directory =>
      simp [walkWith, hdirectory, hplain.ne_self, hplain.ne_empty, hplain.ne_parent, hbare,
        hfound, Nat.not_lt.2 hshort, ih]
    | file content =>
      simp [walkWith, hdirectory, hplain.ne_self, hplain.ne_empty, hplain.ne_parent, hbare,
        hfound, Nat.not_lt.2 hshort, ih]

/-- **Walks compute the relation.** -/
theorem walk_eq_ok_iff :
    fs.walk aim links here names = .ok place ↔ Walk fs aim links here names place := by
  refine ⟨fun h => ?_, Walk.eq_ok⟩
  induction links generalizing here names place with
  | zero => exact walk_of_walkWith (fun _ _ _ hnone => by cases hnone) h
  | succ links ih => exact walk_of_walkWith (fun _ _ _ hwalk => ⟨by omega, ih hwalk⟩) h

/-! ## Larger file systems -/

/-- The file system `larger` has everything that `fs` has. -/
structure Within (fs larger : FileSystem) : Prop where
  keeps : ∀ place entry, fs.get? place = some entry → larger.get? place = some entry
  sameStart : larger.workingDirectory = fs.workingDirectory

/-- Where names lead to something that is there, they still lead when more is there. -/
theorem Walk.within (hwithin : fs.Within larger) (h : Walk fs .existing links here names place) :
    Walk larger .existing links here names place := by
  induction h with
  | stop links here => exact .stop links here
  | stay hdirectory hstill _ ih => exact .stay (hwithin.keeps _ _ hdirectory) hstill ih
  | leave hdirectory _ ih => exact .leave (hwithin.keeps _ _ hdirectory) ih
  | create _ _ _ _ hwriting => cases hwriting
  | follow hdirectory hplain hshort hbare hlink _ ih =>
    exact .follow (hwithin.keeps _ _ hdirectory) hplain hshort hbare
      (hwithin.keeps _ _ hlink) ih
  | enter hdirectory hplain hshort hbare hfound hsolid _ ih =>
    exact .enter (hwithin.keeps _ _ hdirectory) hplain hshort hbare
      (hwithin.keeps _ _ hfound) hsolid ih

theorem within_put {content : ByteArray} (hne : place ≠ []) (habsent : fs.get? place = none) :
    fs.Within (fs.put place (.file content)) := by
  refine ⟨fun other entry hother => ?_, rfl⟩
  rw [get?_put hne, if_neg]
  · exact hother
  · rintro rfl
    rw [habsent] at hother
    cases hother

theorem erase_within (hne : place ≠ []) : (fs.erase place).Within fs := by
  refine ⟨fun other entry hother => ?_, rfl⟩
  rw [get?_erase hne] at hother
  split at hother
  · cases hother
  · exact hother

/-! ## The last name of a walk -/

/-- A walk to a file that is to be written leads to its directory first, as a walk to
something that is there.  From there it goes on with the last name. -/
theorem Walk.split (h : Walk fs .writing links here names place) {front tail : List Bytes}
    (hnames : names = front ++ tail) (hlast : tail ≠ [] ∧ tail ≠ [[]]) :
    ∃ directory links', Walk fs .existing links here (front ++ [[]]) directory ∧
      Walk fs .writing links' directory tail place := by
  induction h generalizing front with
  | stop links here => simp [hlast.1] at hnames
  | @stay links here rest place name hdirectory hstill honward ih =>
    cases front with
    | nil =>
      obtain rfl : _ = tail := hnames
      exact ⟨here, links, .stay hdirectory (.inr rfl) (.stop _ _),
        .stay hdirectory hstill honward⟩
    | cons first front =>
      obtain ⟨rfl, hrest⟩ := List.cons.inj hnames
      obtain ⟨directory, links', hfront, htail⟩ := ih hrest
      exact ⟨directory, links', .stay hdirectory hstill hfront, htail⟩
  | @leave links here rest place hdirectory honward ih =>
    cases front with
    | nil =>
      obtain rfl : _ = tail := hnames
      exact ⟨here, links, .stay hdirectory (.inr rfl) (.stop _ _),
        .leave hdirectory honward⟩
    | cons first front =>
      obtain ⟨rfl, hrest⟩ := List.cons.inj hnames
      obtain ⟨directory, links', hfront, htail⟩ := ih hrest
      exact ⟨directory, links', .leave hdirectory hfront, htail⟩
  | @create links here name hdirectory hplain hshort habsent hwriting =>
    cases front with
    | nil =>
      obtain rfl : _ = tail := hnames
      exact ⟨here, links, .stay hdirectory (.inr rfl) (.stop _ _),
        .create hdirectory hplain hshort habsent hwriting⟩
    | cons first front => simp [hlast.1] at hnames
  | @follow links here rest place name target hdirectory hplain hshort hbare hlink honward ih =>
    cases front with
    | nil =>
      obtain rfl : _ = tail := hnames
      exact ⟨here, links + 1, .stay hdirectory (.inr rfl) (.stop _ _),
        .follow hdirectory hplain hshort hbare hlink honward⟩
    | cons first front =>
      obtain ⟨rfl, rfl⟩ := List.cons.inj hnames
      obtain ⟨directory, links', hfront, htail⟩ := ih (List.append_assoc ..).symm
      rw [List.append_assoc] at hfront
      exact ⟨directory, links', .follow hdirectory hplain hshort (by simp) hlink hfront, htail⟩
  | @enter links here rest place name entry hdirectory hplain hshort hbare hfound hsolid honward
      ih =>
    cases front with
    | nil =>
      obtain rfl : _ = tail := hnames
      exact ⟨here, links, .stay hdirectory (.inr rfl) (.stop _ _),
        .enter hdirectory hplain hshort hbare hfound hsolid honward⟩
    | cons first front =>
      obtain ⟨rfl, hrest⟩ := List.cons.inj hnames
      obtain ⟨directory, links', hfront, htail⟩ := ih hrest
      exact ⟨directory, links', .enter hdirectory hplain hshort (by simp) hfound hsolid hfront,
        htail⟩

end LambdaDeploy.FileSystem
