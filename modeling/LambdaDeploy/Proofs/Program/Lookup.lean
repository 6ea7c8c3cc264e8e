import LambdaDeploy.Program.Basic

/-!
# Looking functions up

`Program.findFunction?` walks the declared functions and compares names.  Two
things decide its answer: the declaration order, which is a list of ids, and the
name that stands under each id (`Program.nameOf?`).  Nothing else of a function
matters, so a change that keeps both keeps every look-up.

* `findFunction?_eq_find?` — the look-up as a search through the declaration
  order.
* `exists_of_findFunction?` — what is found is declared and has the name.
* `findFunction?_eq_some_of_unique` — the only declared function of a name is
  found.
* `functionNamed?` — what is found, as a function.
* `exists_documentOf?` — a declared function has a document.
-/

namespace LambdaDeploy.Program

variable {program : Program} {id : FunctionId} {name : String} {f : FunctionDecl}

/-! ## Functions by id -/

/-- The name of the function with this id. -/
def nameOf? (program : Program) (id : FunctionId) : Option String :=
  (program.function? id).map (·.name)

/-- The names of all functions, by id. -/
def names (program : Program) : List String := program.functions.map (·.name)

theorem nameOf?_eq_getElem? (program : Program) (id : FunctionId) :
    program.nameOf? id = program.names[id]? := by
  simp [nameOf?, names, function?]

theorem nameOf?_of_function? (h : program.function? id = some f) :
    program.nameOf? id = some f.name := by
  simp [nameOf?, h]

theorem exists_of_nameOf? (h : program.nameOf? id = some name) :
    ∃ f, program.function? id = some f ∧ f.name = name := by
  simpa [nameOf?] using h

theorem lt_of_function? (h : program.function? id = some f) :
    id < program.functions.length :=
  (List.getElem?_eq_some_iff.1 h).1

theorem exists_function?_of_lt (h : id < program.functions.length) :
    ∃ f, program.function? id = some f :=
  ⟨_, List.getElem?_eq_getElem h⟩

/-- Under distinct names an id is known by its function's name. -/
theorem eq_of_nameOf?_eq (distinct : program.names.Nodup) {other : FunctionId}
    (h : program.nameOf? id = some name) (h' : program.nameOf? other = some name) :
    id = other := by
  rw [nameOf?_eq_getElem?] at h h'
  obtain ⟨hid, rfl⟩ := List.getElem?_eq_some_iff.1 h
  obtain ⟨hother, heq⟩ := List.getElem?_eq_some_iff.1 h'
  exact (List.getElem_inj distinct).1 heq.symm

/-! ## Functions by name -/

theorem mem_declared_iff :
    (id, f) ∈ program.declared ↔ id ∈ program.order ∧ program.function? id = some f := by
  simp only [declared, List.mem_filterMap, Option.map_eq_some_iff, Prod.mk.injEq]
  constructor
  · rintro ⟨_, hmem, _, hf, rfl, rfl⟩
    exact ⟨hmem, hf⟩
  · rintro ⟨hmem, hf⟩
    exact ⟨id, hmem, f, hf, rfl, rfl⟩

/-- The declared functions without their ids. -/
theorem map_snd_declared (program : Program) :
    program.declared.map (·.2) = program.order.filterMap program.function? := by
  have hsnd : ∀ id, ((program.function? id).map fun f => (id, f)).map (·.2) =
      program.function? id := by
    intro id
    rw [Option.map_map]
    exact Option.map_id'
  simp only [declared, List.map_filterMap, hsnd]

/-- The first declared function of a name, by its id. -/
theorem declared_find?_eq (program : Program) (name : String) :
    (program.declared.find? fun entry => entry.2.name == name) =
      (program.order.find? fun id => program.nameOf? id == some name).bind fun id =>
        (program.function? id).map fun f => (id, f) := by
  rw [declared]
  induction program.order with
  | nil => rfl
  | cons id ids ih =>
    cases hf : program.function? id with
    | none => simp [hf, nameOf?, ih]
    | some f =>
      by_cases hname : f.name = name
      · simp [hf, nameOf?, hname]
      · simp [hf, nameOf?, hname, ih]

/-- **A look-up sees the declaration order and the names only.** -/
theorem findFunction?_eq_find? (program : Program) (name : String) :
    program.findFunction? name =
      program.order.find? fun id => program.nameOf? id == some name := by
  rw [findFunction?, declared_find?_eq]
  cases h : program.order.find? fun id => program.nameOf? id == some name with
  | none => rfl
  | some id =>
    obtain ⟨f, hf, -⟩ := exists_of_nameOf? (by simpa using List.find?_some h)
    simp [hf]

theorem exists_of_findFunction? (h : program.findFunction? name = some id) :
    id ∈ program.order ∧ ∃ f, program.function? id = some f ∧ f.name = name := by
  rw [findFunction?_eq_find?] at h
  exact ⟨List.mem_of_find?_eq_some h, exists_of_nameOf? (by simpa using List.find?_some h)⟩

theorem name_of_findFunction? (h : program.findFunction? name = some id)
    (hf : program.function? id = some f) : f.name = name := by
  obtain ⟨-, g, hg, rfl⟩ := exists_of_findFunction? h
  rw [Option.some.inj (hf.symm.trans hg)]

/-- A function is found by one name only. -/
theorem eq_of_findFunction?_eq {other : String} (h : program.findFunction? name = some id)
    (h' : program.findFunction? other = some id) : name = other := by
  obtain ⟨-, f, hf, rfl⟩ := exists_of_findFunction? h
  exact name_of_findFunction? h' hf

theorem findFunction?_eq_none_iff :
    program.findFunction? name = none ↔ ∀ id ∈ program.order, program.nameOf? id ≠ some name := by
  simp [findFunction?_eq_find?]

/-- The only declared function of a name is found by it. -/
theorem findFunction?_eq_some_of_unique (hid : id ∈ program.order)
    (hname : program.nameOf? id = some name)
    (unique : ∀ other ∈ program.order, program.nameOf? other = some name → other = id) :
    program.findFunction? name = some id := by
  cases h : program.findFunction? name with
  | none => exact absurd hname (findFunction?_eq_none_iff.1 h id hid)
  | some other =>
    obtain ⟨hother, f, hf, rfl⟩ := exists_of_findFunction? h
    rw [unique other hother (nameOf?_of_function? hf)]

/-- The first function of this name, in declaration order. -/
def functionNamed? (program : Program) (name : String) : Option FunctionDecl :=
  (program.findFunction? name).bind program.function?

theorem functionNamed?_eq_some_iff :
    program.functionNamed? name = some f ↔
      ∃ id, program.findFunction? name = some id ∧ program.function? id = some f :=
  Option.bind_eq_some_iff

/-! ## Documents -/

theorem mem_order_iff_exists :
    id ∈ program.order ↔ ∃ d ∈ program.documents, id ∈ d.functions := by
  simp [order]

theorem documentOf?_eq_none_iff : program.documentOf? id = none ↔ id ∉ program.order := by
  simp [documentOf?, mem_order_iff_exists, List.findIdx?_eq_none_iff]

theorem exists_documentOf? (h : id ∈ program.order) :
    ∃ document, program.documentOf? id = some document ∧ document < program.documents.length := by
  cases hd : program.documentOf? id with
  | none => exact absurd h (documentOf?_eq_none_iff.1 hd)
  | some document =>
    obtain ⟨hlt, -⟩ := List.findIdx?_eq_some_iff_getElem.1 hd
    exact ⟨document, rfl, hlt⟩

end LambdaDeploy.Program
