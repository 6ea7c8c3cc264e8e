import LambdaDeploy.FileSystem.Canonical
import LambdaDeploy.Proofs.FileSystem.Standing
import LambdaDeploy.Proofs.Steps

/-!
# Where paths arrive

`FileSystem.canonicalize` computes where a path leads.  Here the way to that place is a relation
with one rule for each name that is passed, so that what holds at the end of the way goes by
induction on it.

* `Route`, `canonicalFrom_eq_ok_iff` — **the way of a path**; computing it takes this way.
* `standing_of_canonicalize` — **what a path leads to stands by itself.**
* `Grounded.solid_of_canonicalize` — a path arrives at a directory or a file, never at a link.
* `Grounded.directory_of_fileName?` — a path without a last name arrives at a directory.
* `trail`, `canonicalize_congr` — the places that a path goes through; only they matter, and the
  directories.
-/

namespace LambdaDeploy.FileSystem

variable {fs other : FileSystem} {path name : Bytes} {here place names rest : List Bytes}
  {links : Nat} {entry : Entry}

/-! ## The working directory -/

/-- The working directory is a directory, and its names lead to it. -/
structure Grounded (fs : FileSystem) : Prop where
  standing : fs.Standing fs.workingDirectory
  directory : fs.get? fs.workingDirectory = some .directory

theorem Grounded.directory_origin (h : fs.Grounded) (path : Bytes) :
    fs.get? (origin fs.workingDirectory path) = some .directory := by
  rw [FileSystem.origin]
  split
  · rfl
  · exact h.directory

/-! ## Looking up -/

theorem lookUp_eq_ok_iff :
    fs.lookUp path here name = .ok entry ↔
      path.length < pathLimit ∧ fs.get? here = some .directory ∧
        name.length ≤ nameLimit ∧ fs.get? (here ++ [name]) = some entry := by
  rw [lookUp]
  split
  · simp [Nat.not_lt.2 ‹_›]
  · rename_i hpath
    split
    · rename_i hhere
      split
      · simp [Nat.not_le.2 ‹_›]
      · rename_i hname
        cases hentry : fs.get? (here ++ [name]) with
        | none => simp
        | some found => simp [Nat.not_le.1 hpath, Nat.not_lt.1 hname, hhere]
    · rename_i hhere
      exact ⟨nofun, fun hfound => absurd hfound.2.1 hhere⟩

theorem exists_lookUp (h : fs.lookUpBefore rest here name = .ok entry) :
    ∃ path, fs.lookUp path here name = .ok entry := by
  simp only [lookUpBefore] at h
  split at h
  · cases h
    exact ⟨_, ‹_›⟩
  · split at h
    · split at h
      · cases h
        exact ⟨_, ‹_›⟩
      · cases h
      · cases h
    · exact ⟨_, h⟩

/-- A name that is found stands in a directory. -/
theorem directory_of_lookUpBefore (h : fs.lookUpBefore rest here name = .ok entry) :
    fs.get? here = some .directory := by
  obtain ⟨path, hpath⟩ := exists_lookUp h
  exact (lookUp_eq_ok_iff.1 hpath).2.1

theorem get?_of_lookUpBefore (h : fs.lookUpBefore rest here name = .ok entry) :
    fs.get? (here ++ [name]) = some entry := by
  obtain ⟨path, hpath⟩ := exists_lookUp h
  exact (lookUp_eq_ok_iff.1 hpath).2.2.2

/-- A name is found as before if its entry and the directories are as before. -/
theorem lookUpBefore_congr (hkeeps : fs.KeepsDirectories other)
    (hsame : other.get? (here ++ [name]) = fs.get? (here ++ [name]))
    (h : fs.lookUpBefore rest here name = .ok entry) :
    other.lookUpBefore rest here name = .ok entry := by
  have hhere := directory_of_lookUpBefore h
  have hlookUp : ∀ path, other.lookUp path here name = fs.lookUp path here name := by
    intro path
    simp only [lookUp, hkeeps _ hhere, hhere, hsame]
  rw [← h]
  simp only [lookUpBefore, hlookUp]

/-! ## The way of a path -/

/-- Some names lead from a place to another one, every name being looked up by itself, on at
most so many links. -/
inductive Route (fs : FileSystem) : Nat → List Bytes → List Bytes → List Bytes → Prop
  | stop (links : Nat) (here : List Bytes) : Route fs links here [] here
  | stay {links : Nat} {here rest place : List Bytes} {name : Bytes}
      (still : name = Path.self ∨ name = []) (onward : Route fs links here rest place) :
      Route fs links here (name :: rest) place
  | leave {links : Nat} {here rest place : List Bytes}
      (onward : Route fs links here.dropLast rest place) :
      Route fs links here (Path.parent :: rest) place
  | follow {links : Nat} {here rest place : List Bytes} {name target : Bytes}
      (plain : Plain name) (found : fs.lookUpBefore rest here name = .ok (.link target))
      (onward : Route fs links (origin here target) (Path.steps target ++ rest) place) :
      Route fs (links + 1) here (name :: rest) place
  | enter {links : Nat} {here rest place : List Bytes} {name : Bytes} {entry : Entry}
      (plain : Plain name) (found : fs.lookUpBefore rest here name = .ok entry)
      (solid : ∀ target, entry ≠ .link target)
      (onward : Route fs links (here ++ [name]) rest place) :
      Route fs links here (name :: rest) place

theorem route_of_canonicalWith
    {follow : List Bytes → List Bytes → Except FileError (List Bytes)}
    (hfollow : ∀ here names place, follow here names = .ok place →
      0 < links ∧ Route fs (links - 1) here names place)
    (h : fs.canonicalWith follow here names = .ok place) : Route fs links here names place := by
  induction names generalizing here with
  | nil =>
    cases h
    exact .stop _ _
  | cons name rest ih =>
    rw [canonicalWith] at h
    split at h
    · exact .stay ‹_› (ih h)
    · rename_i hstill
      split at h
      · rename_i hparent
        exact hparent ▸ .leave (ih h)
      · rename_i hparent
        rw [not_or] at hstill
        have hplain : Plain name := ⟨hstill.1, hstill.2, hparent⟩
        split at h
        · cases h
        · rename_i target hlink
          obtain ⟨hpositive, honward⟩ := hfollow _ _ _ h
          obtain ⟨n, rfl⟩ := Nat.exists_eq_add_of_lt hpositive
          exact .follow hplain hlink honward
        · rename_i entry hsolid hfound
          exact .enter hplain hfound hsolid (ih h)

theorem Route.eq_ok (h : Route fs links here names place) :
    fs.canonicalFrom links here names = .ok place := by
  -- only a link tells how many of them are left
  have hform : ∀ links, ∃ follow, fs.canonicalFrom links = fs.canonicalWith follow := by
    intro links
    cases links <;> exact ⟨_, rfl⟩
  induction h with
  | stop links here =>
    obtain ⟨follow, hroute⟩ := hform links
    rw [hroute, canonicalWith]
  | @stay links _ _ _ _ hstill _ ih =>
    obtain ⟨follow, hroute⟩ := hform links
    rw [hroute] at ih ⊢
    rw [canonicalWith, if_pos hstill, ih]
  | @leave links _ _ _ _ ih =>
    obtain ⟨follow, hroute⟩ := hform links
    rw [hroute] at ih ⊢
    rw [canonicalWith, if_neg (by decide), if_pos rfl, ih]
  | follow hplain hfound _ ih =>
    rw [canonicalFrom, canonicalWith, if_neg (by simp [hplain.ne_self, hplain.ne_empty]),
      if_neg hplain.ne_parent]
    simp only [hfound, ih]
  | @enter links _ _ _ _ entry hplain hfound hsolid _ ih =>
    obtain ⟨follow, hroute⟩ := hform links
    rw [hroute] at ih ⊢
    rw [canonicalWith, if_neg (by simp [hplain.ne_self, hplain.ne_empty]),
      if_neg hplain.ne_parent]
    cases entry with
    | link target => exact absurd rfl (hsolid target)
    | directory => simp only [hfound, ih]
    | file content => simp only [hfound, ih]

/-- **Canonical places are found on the way of the path.** -/
theorem canonicalFrom_eq_ok_iff :
    fs.canonicalFrom links here names = .ok place ↔ Route fs links here names place := by
  refine ⟨fun h => ?_, Route.eq_ok⟩
  induction links generalizing here names place with
  | zero => exact route_of_canonicalWith (fun _ _ _ hnone => by cases hnone) h
  | succ links ih => exact route_of_canonicalWith (fun _ _ _ hroute => ⟨by omega, ih hroute⟩) h

theorem canonicalize_eq_ok_iff :
    fs.canonicalize path = .ok place ↔
      checkBytes path = .ok () ∧
        Route fs linkLimit (origin fs.workingDirectory path) (Path.steps path) place := by
  rw [← canonicalFrom_eq_ok_iff]
  constructor
  · intro h
    obtain ⟨⟨⟩, hcheck, hroute⟩ := exists_of_bind_eq_ok h
    exact ⟨hcheck, hroute⟩
  · rintro ⟨hcheck, hroute⟩
    rw [canonicalize, hcheck]
    exact hroute

/-! ## Where it ends -/

/-- A standing place, and names without slashes that are looked up from there. -/
structure Underway (fs : FileSystem) (here names : List Bytes) : Prop where
  standing : fs.Standing here
  noSlash : ∀ name ∈ names, Path.slash ∉ name

namespace Underway

theorem stay (h : fs.Underway here (name :: rest)) : fs.Underway here rest :=
  ⟨h.standing, fun other hother => h.noSlash other (List.mem_cons_of_mem _ hother)⟩

theorem leave (h : fs.Underway here (name :: rest)) : fs.Underway here.dropLast rest :=
  ⟨h.standing.dropLast, h.stay.noSlash⟩

theorem follow (h : fs.Underway here (name :: rest)) (target : Bytes) :
    fs.Underway (origin here target) (Path.steps target ++ rest) := by
  refine ⟨h.standing.origin target, fun other hother => ?_⟩
  rcases List.mem_append.1 hother with hother | hother
  · exact noSlash_of_mem_steps hother
  · exact h.stay.noSlash other hother

theorem enter (h : fs.Underway here (name :: rest)) (hplain : Plain name)
    (hdirectory : fs.get? here = some .directory) : fs.Underway (here ++ [name]) rest :=
  ⟨h.standing.entry hdirectory ⟨hplain, h.noSlash name (List.mem_cons_self ..)⟩, h.stay.noSlash⟩

end Underway

theorem underway_of_standing (hstart : fs.Standing fs.workingDirectory) (path : Bytes) :
    fs.Underway (origin fs.workingDirectory path) (Path.steps path) :=
  ⟨hstart.origin path, fun _ => noSlash_of_mem_steps⟩

theorem Route.standing (h : Route fs links here names place) (hunderway : fs.Underway here names) :
    fs.Standing place := by
  induction h with
  | stop => exact hunderway.standing
  | stay _ _ ih => exact ih hunderway.stay
  | leave _ ih => exact ih hunderway.leave
  | follow _ _ _ ih => exact ih (hunderway.follow _)
  | enter hplain hfound _ _ ih =>
    exact ih (hunderway.enter hplain (directory_of_lookUpBefore hfound))

/-- **What a path leads to stands by itself**, if the working directory does. -/
theorem standing_of_canonicalize (hstart : fs.Standing fs.workingDirectory)
    (h : fs.canonicalize path = .ok place) : fs.Standing place :=
  (canonicalize_eq_ok_iff.1 h).2.standing (underway_of_standing hstart path)

/-- Something stands at a place, and it is no link. -/
def Solid (fs : FileSystem) (place : List Bytes) : Prop :=
  ∃ entry, fs.get? place = some entry ∧ ∀ target, entry ≠ .link target

theorem solid_of_directory (h : fs.get? place = some .directory) : fs.Solid place :=
  ⟨.directory, h, by simp⟩

theorem Route.solid (h : Route fs links here names place) (hunderway : fs.Underway here names)
    (hhere : fs.Solid here) : fs.Solid place := by
  induction h with
  | stop => exact hhere
  | stay _ _ ih => exact ih hunderway.stay hhere
  | leave _ ih =>
    exact ih hunderway.leave (solid_of_directory hunderway.standing.directory_dropLast)
  | @follow _ here _ _ _ target _ _ _ ih =>
    refine ih (hunderway.follow _) ?_
    rw [FileSystem.origin]
    split
    · exact solid_of_directory rfl
    · exact hhere
  | enter hplain hfound hsolid _ ih =>
    exact ih (hunderway.enter hplain (directory_of_lookUpBefore hfound))
      ⟨_, get?_of_lookUpBefore hfound, hsolid⟩

/-- **A path arrives at something solid**, a directory or a file. -/
theorem Grounded.solid_of_canonicalize (hground : fs.Grounded)
    (h : fs.canonicalize path = .ok place) : fs.Solid place :=
  (canonicalize_eq_ok_iff.1 h).2.solid (underway_of_standing hground.standing path)
    (solid_of_directory (hground.directory_origin path))

/-! ## Paths without a last name -/

/-- Names that stay where they are. -/
theorem Route.of_still (h : Route fs links here names place)
    (hstill : ∀ name ∈ names, name = Path.self ∨ name = []) : place = here := by
  induction h with
  | stop => rfl
  | stay _ _ ih => exact ih fun name hname => hstill name (List.mem_cons_of_mem _ hname)
  | leave => exact absurd (hstill _ (List.mem_cons_self ..)) (by decide)
  | follow hplain =>
    exact absurd (hstill _ (List.mem_cons_self ..)) (by simp [hplain.ne_self, hplain.ne_empty])
  | enter hplain =>
    exact absurd (hstill _ (List.mem_cons_self ..)) (by simp [hplain.ne_self, hplain.ne_empty])

/-- Names that end in `..` lead to a directory. -/
theorem Route.directory_of_parent (h : Route fs links here names place)
    (hunderway : fs.Underway here names) {front still : List Bytes}
    (hnames : names = front ++ Path.parent :: still)
    (hstill : ∀ name ∈ still, name = Path.self ∨ name = []) : fs.get? place = some .directory := by
  induction h generalizing front with
  | stop => simp at hnames
  | stay hdot _ ih =>
    cases front with
    | nil =>
      obtain ⟨rfl, -⟩ := List.cons.inj hnames
      exact absurd hdot (by decide)
    | cons first front => exact ih hunderway.stay (List.cons.inj hnames).2
  | leave honward ih =>
    cases front with
    | nil =>
      obtain ⟨-, rfl⟩ := List.cons.inj hnames
      rw [honward.of_still hstill]
      exact hunderway.standing.directory_dropLast
    | cons first front => exact ih hunderway.leave (List.cons.inj hnames).2
  | follow hplain _ _ ih =>
    cases front with
    | nil =>
      obtain ⟨rfl, -⟩ := List.cons.inj hnames
      exact absurd rfl hplain.ne_parent
    | cons first front =>
      obtain ⟨-, rfl⟩ := List.cons.inj hnames
      exact ih (hunderway.follow _) (List.append_assoc ..).symm
  | enter hplain hfound _ _ ih =>
    cases front with
    | nil =>
      obtain ⟨rfl, -⟩ := List.cons.inj hnames
      exact absurd rfl hplain.ne_parent
    | cons first front =>
      exact ih (hunderway.enter hplain (directory_of_lookUpBefore hfound)) (List.cons.inj hnames).2

theorem still_of_mem_slash (h : name ∈ (if Path.endsInSlash path then [[]] else [])) :
    name = Path.self ∨ name = [] := by
  split at h
  · exact .inr (List.mem_singleton.1 h)
  · exact absurd h List.not_mem_nil

/-- Behind the last name that is not `.`, the names of a path stay where they are. -/
theorem steps_of_getLast? {last : Bytes}
    (h : ((Path.names path).filter (· ≠ Path.self)).getLast? = some last) :
    ∃ front still, Path.steps path = front ++ last :: still ∧
      ∀ name ∈ still, name = Path.self ∨ name = [] := by
  obtain ⟨before, hfilter⟩ := List.getLast?_eq_some_iff.1 h
  obtain ⟨front, still, hnames, -, hrest⟩ := List.filter_eq_append_iff.1 hfilter
  obtain ⟨middle, still, rfl, -, -, hnone⟩ := List.filter_eq_cons_iff.1 hrest
  refine ⟨front ++ middle, still ++ if Path.endsInSlash path then [[]] else [], ?_, ?_⟩
  · simp [Path.steps, hnames]
  · intro name hname
    rcases List.mem_append.1 hname with hname | hname
    · exact .inl (by simpa using List.filter_eq_nil_iff.1 hnone name hname)
    · exact still_of_mem_slash hname

/-- The names of a path that has no last name of its own: some that end in `..`, or none but
`.`. -/
theorem steps_of_fileName? (h : Path.fileName? path = none) :
    (∀ name ∈ Path.steps path, name = Path.self ∨ name = []) ∨
      ∃ front still, Path.steps path = front ++ Path.parent :: still ∧
        ∀ name ∈ still, name = Path.self ∨ name = [] := by
  rw [Path.fileName?] at h
  split at h
  · rename_i last hlast
    by_cases hparent : last = Path.parent
    · subst hparent
      exact .inr (steps_of_getLast? hlast)
    · rw [if_neg hparent] at h
      cases h
  · rename_i hnil
    refine .inl fun name hname => ?_
    rw [List.getLast?_eq_none_iff] at hnil
    rcases List.mem_append.1 hname with hname | hname
    · exact .inl (by simpa using List.filter_eq_nil_iff.1 hnil name hname)
    · exact still_of_mem_slash hname

/-- **A path without a last name of its own arrives at a directory.** -/
theorem Grounded.directory_of_fileName? (hground : fs.Grounded)
    (h : fs.canonicalize path = .ok place) (hnone : Path.fileName? path = none) :
    fs.get? place = some .directory := by
  obtain ⟨-, hroute⟩ := canonicalize_eq_ok_iff.1 h
  rcases steps_of_fileName? hnone with hstill | ⟨front, still, hsteps, hstill⟩
  · rw [hroute.of_still hstill]
    exact hground.directory_origin path
  · exact hroute.directory_of_parent (underway_of_standing hground.standing path) hsteps hstill

/-! ## What is looked at -/

/-- The places that are looked at when names are looked up from a place.  At a link, `follow`
gives those of the link's path. -/
def trailWith (fs : FileSystem) (follow : List Bytes → List Bytes → List (List Bytes)) :
    List Bytes → List Bytes → List (List Bytes)
  | _, [] => []
  | here, name :: rest =>
    if name = Path.self ∨ name = [] then trailWith fs follow here rest
    else if name = Path.parent then trailWith fs follow here.dropLast rest
    else
      (here ++ [name]) ::
        match fs.get? (here ++ [name]) with
        | some (.link target) => follow (origin here target) (Path.steps target ++ rest)
        | _ => trailWith fs follow (here ++ [name]) rest

/-- The places that are looked at on at most so many links. -/
def trailFrom (fs : FileSystem) (links : Nat) :
    List Bytes → List Bytes → List (List Bytes) :=
  match links with
  | 0 => fs.trailWith fun _ _ => []
  | links + 1 => fs.trailWith (fs.trailFrom links)

/-- The places that a path goes through: every name that is looked up on its way, the last one
and those of links included. -/
def trail (fs : FileSystem) (path : Bytes) : List (List Bytes) :=
  fs.trailFrom linkLimit (origin fs.workingDirectory path) (Path.steps path)

theorem trailWith_congr {follow follow' : List Bytes → List Bytes → List (List Bytes)}
    (hfollow : ∀ here names, (∀ seen ∈ follow here names, other.get? seen = fs.get? seen) →
      follow' here names = follow here names)
    (hsame : ∀ seen ∈ fs.trailWith follow here names, other.get? seen = fs.get? seen) :
    other.trailWith follow' here names = fs.trailWith follow here names := by
  induction names generalizing here with
  | nil => rfl
  | cons name rest ih =>
    rw [trailWith] at hsame ⊢
    rw [trailWith]
    by_cases hstill : name = Path.self ∨ name = []
    · rw [if_pos hstill] at hsame ⊢
      rw [if_pos hstill, ih hsame]
    · rw [if_neg hstill] at hsame ⊢
      rw [if_neg hstill]
      by_cases hparent : name = Path.parent
      · rw [if_pos hparent] at hsame ⊢
        rw [if_pos hparent, ih hsame]
      · rw [if_neg hparent, List.forall_mem_cons] at hsame
        rw [if_neg hparent, if_neg hparent, hsame.1]
        rcases hentry : fs.get? (here ++ [name]) with _ | (_ | _ | target) <;>
          rw [hentry] at hsame <;> dsimp only at hsame ⊢
        · rw [ih hsame.2]
        · rw [ih hsame.2]
        · rw [ih hsame.2]
        · rw [hfollow _ _ hsame.2]

/-- The way itself depends on nothing but the places that it goes through. -/
theorem trail_congr (hstart : other.workingDirectory = fs.workingDirectory)
    (hsame : ∀ seen ∈ fs.trail path, other.get? seen = fs.get? seen) :
    other.trail path = fs.trail path := by
  have hlinks : ∀ links here names,
      (∀ seen ∈ fs.trailFrom links here names, other.get? seen = fs.get? seen) →
        other.trailFrom links here names = fs.trailFrom links here names := by
    intro links
    induction links with
    | zero => exact fun _ _ => trailWith_congr fun _ _ _ => rfl
    | succ links ih => exact fun _ _ => trailWith_congr ih
  rw [trail, hstart]
  exact hlinks _ _ _ hsame

/-- The way stays the same if the entries on it and the directories are as before. -/
theorem Route.congr (hkeeps : fs.KeepsDirectories other)
    (hsame : ∀ seen ∈ fs.trailFrom links here names, other.get? seen = fs.get? seen)
    (h : Route fs links here names place) : Route other links here names place := by
  have hform : ∀ links, ∃ follow, fs.trailFrom links = fs.trailWith follow := fun links => by
    cases links <;> exact ⟨_, rfl⟩
  induction h with
  | stop links here => exact .stop links here
  | @stay links _ _ _ _ hstill _ ih =>
    obtain ⟨follow, htrail⟩ := hform links
    rw [htrail] at ih hsame
    rw [trailWith, if_pos hstill] at hsame
    exact .stay hstill (ih hsame)
  | @leave links _ _ _ _ ih =>
    obtain ⟨follow, htrail⟩ := hform links
    rw [htrail] at ih hsame
    rw [trailWith, if_neg (by decide), if_pos rfl] at hsame
    exact .leave (ih hsame)
  | follow hplain hfound _ ih =>
    rw [trailFrom, trailWith, if_neg (by simp [hplain.ne_self, hplain.ne_empty]),
      if_neg hplain.ne_parent, get?_of_lookUpBefore hfound, List.forall_mem_cons] at hsame
    exact .follow hplain (lookUpBefore_congr hkeeps hsame.1 hfound) (ih hsame.2)
  | @enter links _ _ _ _ entry hplain hfound hsolid _ ih =>
    obtain ⟨follow, htrail⟩ := hform links
    rw [htrail] at ih hsame
    rw [trailWith, if_neg (by simp [hplain.ne_self, hplain.ne_empty]), if_neg hplain.ne_parent,
      get?_of_lookUpBefore hfound, List.forall_mem_cons] at hsame
    refine .enter hplain (lookUpBefore_congr hkeeps hsame.1 hfound) hsolid (ih ?_)
    cases entry with
    | link target => exact absurd rfl (hsolid target)
    | directory => exact hsame.2
    | file content => exact hsame.2

/-- **A path arrives where it did** if the places that it goes through, and the directories, are
as before. -/
theorem canonicalize_congr (hkeeps : fs.KeepsDirectories other)
    (hstart : other.workingDirectory = fs.workingDirectory)
    (hsame : ∀ seen ∈ fs.trail path, other.get? seen = fs.get? seen)
    (h : fs.canonicalize path = .ok place) : other.canonicalize path = .ok place := by
  rw [canonicalize_eq_ok_iff] at h ⊢
  rw [hstart]
  exact ⟨h.1, h.2.congr hkeeps hsame⟩

end LambdaDeploy.FileSystem
