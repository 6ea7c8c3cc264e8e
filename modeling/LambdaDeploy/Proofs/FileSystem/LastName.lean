import LambdaDeploy.Proofs.FileSystem.Arrival
import LambdaDeploy.Proofs.FileSystem.Direct
import Mathlib.Data.List.TakeWhile

/-!
# The last name of a path

The names of a path before the last one lead to a directory, and the last name is looked up
there.  If it is the name of a link, the path goes on where the link leads, and may arrive under
any other name; else the path arrives under this name.

* `lookUpBefore_eq_ok_iff` — what a look-up takes, depending on the names that follow.
* `Route.split` — **the way of a path goes through the directory of its last name.**
* `exists_steps_of_fileName?` — the last name among the names of a path.
* `arrival_of_fileName?` — **a path arrives under its last name, or comes to a link of that
  name.**
-/

namespace LambdaDeploy.FileSystem

variable {fs : FileSystem} {path name last : Bytes} {here place front still rest : List Bytes}
  {links : Nat} {entry : Entry}

/-! ## Look-ups before other names -/

/-- A name that is found before others is found by itself, and is a link or a directory if what
follows asks for a directory. -/
theorem lookUpBefore_eq_ok_iff :
    fs.lookUpBefore rest here name = .ok entry ↔
      fs.lookUp (Path.ofNames (here ++ [name])) here name = .ok entry ∧
        ((∃ target, entry = .link target) ∨ asksDirectory rest = false ∨
          entry = .directory ∧
            (Path.ofNames (here ++ [name]) ++ [Path.slash]).length < pathLimit) := by
  have hshorter : (Path.ofNames (here ++ [name])).length ≤
      (Path.ofNames (here ++ [name]) ++ [Path.slash]).length := by
    simp
  simp only [lookUpBefore]
  split
  · rename_i target hlink
    rw [hlink]
    constructor
    · intro heq
      cases heq
      exact ⟨rfl, .inl ⟨target, rfl⟩⟩
    · exact And.left
  · rename_i hsolid
    have hnone : ∀ entry, fs.lookUp (Path.ofNames (here ++ [name])) here name = .ok entry →
        ¬∃ target, entry = .link target := by
      rintro entry hentry ⟨target, rfl⟩
      exact hsolid target hentry
    by_cases hasks : asksDirectory rest = true
    · rw [if_pos hasks]
      constructor
      · intro h
        split at h
        · rename_i hdirectory
          cases h
          obtain ⟨hsize, hhere, hname, hentry⟩ := lookUp_eq_ok_iff.1 hdirectory
          exact ⟨lookUp_eq_ok_iff.2 ⟨Nat.lt_of_le_of_lt hshorter hsize, hhere, hname, hentry⟩,
            .inr (.inr ⟨rfl, hsize⟩)⟩
        · cases h
        · cases h
      · rintro ⟨hentry, hlink | hcalm | ⟨rfl, hsize⟩⟩
        · exact absurd hlink (hnone entry hentry)
        · rw [hasks] at hcalm
          cases hcalm
        · obtain ⟨-, hhere, hname, hfound⟩ := lookUp_eq_ok_iff.1 hentry
          rw [lookUp_eq_ok_iff.2 ⟨hsize, hhere, hname, hfound⟩]
    · rw [if_neg hasks]
      exact ⟨fun h => ⟨h, .inr (.inl (by simpa using hasks))⟩, And.left⟩

/-- Whether a directory is asked for shows in the names before others, unless all of these stay
where they are. -/
theorem asksDirectory_append (h : asksDirectory front = true) (more : List Bytes) :
    (∀ name ∈ front, name = Path.self ∨ name = []) ∨ asksDirectory (front ++ more) = true := by
  by_cases hstill : ∀ name ∈ front, name = Path.self ∨ name = []
  · exact .inl hstill
  · right
    have hne : front.dropWhile (fun name => name == Path.self || name == []) ≠ [] := by
      rw [ne_eq, List.dropWhile_eq_nil_iff]
      simpa using hstill
    obtain ⟨first, tail, hfirst⟩ := List.exists_cons_of_ne_nil hne
    rw [asksDirectory, hfirst] at h
    rw [asksDirectory, List.dropWhile_append, hfirst]
    exact h

/-- Names that stay where they are lead to the look-up of the name behind them. -/
theorem Route.exists_lookUp_of_still (h : Route fs links here (front ++ last :: still) place)
    (hfront : ∀ name ∈ front, name = Path.self ∨ name = []) (hlast : Plain last) :
    ∃ entry, fs.lookUpBefore still here last = .ok entry := by
  induction front with
  | nil =>
    cases h with
    | stay hstill => exact absurd hstill (by simp [hlast.ne_self, hlast.ne_empty])
    | leave => exact absurd rfl hlast.ne_parent
    | follow _ hfound => exact ⟨_, hfound⟩
    | enter _ hfound => exact ⟨_, hfound⟩
  | cons name front ih =>
    rw [List.forall_mem_cons] at hfront
    cases h with
    | stay _ honward => exact ih honward hfront.2
    | leave => exact absurd hfront.1 (by decide)
    | follow hplain => exact absurd hfront.1 (by simp [hplain.ne_self, hplain.ne_empty])
    | enter hplain => exact absurd hfront.1 (by simp [hplain.ne_self, hplain.ne_empty])

/-- A directory that is passed on the way to a last name is found without that name, too. -/
theorem lookUpBefore_of_append (hlast : Plain last)
    (hfound : fs.lookUpBefore (front ++ last :: still) here name = .ok entry)
    (honward : (∀ target, entry ≠ .link target) →
      Route fs links (here ++ [name]) (front ++ last :: still) place) :
    fs.lookUpBefore front here name = .ok entry := by
  obtain ⟨hentry, hkind⟩ := lookUpBefore_eq_ok_iff.1 hfound
  refine lookUpBefore_eq_ok_iff.2 ⟨hentry, ?_⟩
  by_cases hlink : ∃ target, entry = .link target
  · exact .inl hlink
  right
  by_cases hasks : asksDirectory front = true
  · right
    rcases asksDirectory_append hasks (last :: still) with hfront | hmore
    · -- the last name is looked up in a directory, by a longer path
      obtain ⟨next, hnext⟩ := (honward fun target heq => hlink ⟨target, heq⟩).exists_lookUp_of_still
        hfront hlast
      obtain ⟨hpath, -⟩ := lookUpBefore_eq_ok_iff.1 hnext
      obtain ⟨hsize, hdirectory, -⟩ := lookUp_eq_ok_iff.1 hpath
      rw [ofNames_concat (by simp)] at hsize
      refine ⟨?_, Nat.lt_of_le_of_lt (by simp) hsize⟩
      rw [(lookUp_eq_ok_iff.1 hentry).2.2.2] at hdirectory
      exact Option.some.inj hdirectory
    · rw [hmore] at hkind
      simpa [hlink] using hkind
  · exact .inl (by simpa using hasks)

/-! ## The way through a directory -/

/-- **The way of a path goes through the directory of its last name.** -/
theorem Route.split {names : List Bytes} (h : Route fs links here names place)
    (hnames : names = front ++ last :: still) (hlast : Plain last) :
    ∃ directory links', Route fs links here front directory ∧
      Route fs links' directory (last :: still) place := by
  induction h generalizing front with
  | stop => simp at hnames
  | @stay links here rest place name hstill honward ih =>
    cases front with
    | nil =>
      obtain ⟨rfl, -⟩ := List.cons.inj hnames
      exact absurd hstill (by simp [hlast.ne_self, hlast.ne_empty])
    | cons first front =>
      obtain ⟨rfl, hrest⟩ := List.cons.inj hnames
      obtain ⟨directory, links', hfront, hbehind⟩ := ih hrest
      exact ⟨directory, links', .stay hstill hfront, hbehind⟩
  | @leave links here rest place honward ih =>
    cases front with
    | nil =>
      obtain ⟨rfl, -⟩ := List.cons.inj hnames
      exact absurd rfl hlast.ne_parent
    | cons first front =>
      obtain ⟨rfl, hrest⟩ := List.cons.inj hnames
      obtain ⟨directory, links', hfront, hbehind⟩ := ih hrest
      exact ⟨directory, links', .leave hfront, hbehind⟩
  | @follow links here rest place name target hplain hfound honward ih =>
    cases front with
    | nil =>
      obtain ⟨rfl, rfl⟩ := List.cons.inj hnames
      exact ⟨here, links + 1, .stop _ _, .follow hplain hfound honward⟩
    | cons first front =>
      obtain ⟨rfl, rfl⟩ := List.cons.inj hnames
      obtain ⟨directory, links', hfront, hbehind⟩ := ih (List.append_assoc ..).symm
      have hsolid : (∀ other, Entry.link target ≠ .link other) →
          Route fs links (here ++ [name]) (front ++ last :: still) place :=
        fun hnone => absurd rfl (hnone target)
      have hpassed := lookUpBefore_of_append hlast hfound hsolid
      exact ⟨directory, links', .follow hplain hpassed hfront, hbehind⟩
  | @enter links here rest place name entry hplain hfound hsolid honward ih =>
    cases front with
    | nil =>
      obtain ⟨rfl, rfl⟩ := List.cons.inj hnames
      exact ⟨here, links, .stop _ _, .enter hplain hfound hsolid honward⟩
    | cons first front =>
      obtain ⟨rfl, rfl⟩ := List.cons.inj hnames
      obtain ⟨directory, links', hfront, hbehind⟩ := ih rfl
      have hpassed := lookUpBefore_of_append hlast hfound fun _ => honward
      exact ⟨directory, links', .enter hplain hpassed hsolid hfront, hbehind⟩

/-! ## Arriving -/

/-- The last name of a path among its names. -/
theorem exists_steps_of_fileName? (h : Path.fileName? path = some last) :
    Plain last ∧ ∃ front still, Path.steps path = front ++ last :: still ∧
      ∀ name ∈ still, name = Path.self ∨ name = [] := by
  rw [Path.fileName?] at h
  split at h
  · rename_i name hlast
    split at h
    · cases h
    · rename_i hparent
      cases h
      have hmem := List.mem_filter.1 (List.mem_of_getLast? hlast)
      exact ⟨⟨by simpa using hmem.2, ne_empty_of_mem_names hmem.1, hparent⟩,
        steps_of_getLast? hlast⟩
  · cases h

/-- **A path arrives under its last name, or comes to a link of that name.**  The names before
the last one lead to a directory.  If the last name is that of a link there, the path goes on
from the directory where the link leads; else it arrives at this name. -/
theorem arrival_of_fileName? (h : fs.canonicalize path = .ok place)
    (hname : Path.fileName? path = some last) :
    ∃ front still directory, Path.steps path = front ++ last :: still ∧
      (∀ name ∈ still, name = Path.self ∨ name = []) ∧
      fs.canonicalFrom linkLimit (origin fs.workingDirectory path) front = .ok directory ∧
      ((∃ target links, fs.get? (directory ++ [last]) = some (.link target) ∧
          fs.canonicalFrom links (origin directory target) (Path.steps target ++ still) =
            .ok place) ∨
        place = directory ++ [last] ∧
          ∀ target, fs.get? (directory ++ [last]) ≠ some (.link target)) := by
  obtain ⟨hlast, front, still, hsteps, hstill⟩ := exists_steps_of_fileName? hname
  obtain ⟨-, hroute⟩ := canonicalize_eq_ok_iff.1 h
  obtain ⟨directory, links, hfront, hbehind⟩ := hroute.split hsteps hlast
  refine ⟨front, still, directory, hsteps, hstill, hfront.eq_ok, ?_⟩
  cases hbehind with
  | stay hdot => exact absurd hdot (by simp [hlast.ne_self, hlast.ne_empty])
  | leave => exact absurd rfl hlast.ne_parent
  | follow _ hfound honward => exact .inl ⟨_, _, get?_of_lookUpBefore hfound, honward.eq_ok⟩
  | enter _ hfound hsolid honward =>
    refine .inr ⟨honward.of_still hstill, fun target hlink => ?_⟩
    exact hsolid target (Option.some.inj ((get?_of_lookUpBefore hfound).symm.trans hlink))

end LambdaDeploy.FileSystem
