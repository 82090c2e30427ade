import PluginHost.NameSet

/-!
# Extensions

The description of what an extension offers: its name and version, the types that it exports
and imports, its operations and its configurations.  Within an artifact an extension is
identified by its name.  `==` compares all fields, lists and sets element by element.
-/

namespace PluginHost

/-- A parameter of an operation or a configuration. -/
structure Parameter where
  name : String
  /-- The id of the parameter's type. -/
  type : String := "string"
  required : Bool := false
  defaultValue : Option String := none
  deriving DecidableEq, Inhabited

/-- Something that an extension does. -/
structure Operation where
  name : String
  description : String := ""
  parameters : List Parameter := []
  outputType : Option String := none
  deriving DecidableEq, Inhabited

/-- A way in which an extension is configured. -/
structure Configuration where
  name : String
  description : String := ""
  parameters : List Parameter := []
  deriving DecidableEq, Inhabited

/-- What an extension offers. -/
structure Extension where
  name : String
  version : String := ""
  vendor : String := ""
  category : String := ""
  description : String := ""
  /-- Ids of the types that others may import. -/
  exportedTypes : NameSet := ∅
  /-- Ids of the types that it needs. -/
  importedTypes : NameSet := ∅
  operations : List Operation := []
  configurations : List Configuration := []
  deriving DecidableEq, Inhabited

/-! ### Equality -/

/-- Whether two parameters agree in all fields. -/
protected def Parameter.beq (p q : Parameter) : Bool :=
  p.name == q.name && p.type == q.type && p.required == q.required &&
    p.defaultValue == q.defaultValue

instance : BEq Parameter := ⟨Parameter.beq⟩

instance : LawfulBEq Parameter where
  rfl {p} := by
    show Parameter.beq p p = true
    simp [Parameter.beq]
  eq_of_beq {p q} h := by
    replace h : Parameter.beq p q = true := h
    cases p
    cases q
    simpa [Parameter.beq, and_assoc] using h

/-- Whether two operations agree in all fields. -/
protected def Operation.beq (o o' : Operation) : Bool :=
  o.name == o'.name && o.description == o'.description && o.parameters == o'.parameters &&
    o.outputType == o'.outputType

instance : BEq Operation := ⟨Operation.beq⟩

instance : LawfulBEq Operation where
  rfl {o} := by
    show Operation.beq o o = true
    simp [Operation.beq]
  eq_of_beq {o o'} h := by
    replace h : Operation.beq o o' = true := h
    cases o
    cases o'
    simpa [Operation.beq, and_assoc] using h

/-- Whether two configurations agree in all fields. -/
protected def Configuration.beq (c c' : Configuration) : Bool :=
  c.name == c'.name && c.description == c'.description && c.parameters == c'.parameters

instance : BEq Configuration := ⟨Configuration.beq⟩

instance : LawfulBEq Configuration where
  rfl {c} := by
    show Configuration.beq c c = true
    simp [Configuration.beq]
  eq_of_beq {c c'} h := by
    replace h : Configuration.beq c c' = true := h
    cases c
    cases c'
    simpa [Configuration.beq, and_assoc] using h

/-- Whether two extensions agree in all fields. -/
protected def Extension.beq (e e' : Extension) : Bool :=
  e.name == e'.name && e.version == e'.version && e.vendor == e'.vendor &&
    e.category == e'.category && e.description == e'.description &&
    e.exportedTypes == e'.exportedTypes && e.importedTypes == e'.importedTypes &&
    e.operations == e'.operations && e.configurations == e'.configurations

instance : BEq Extension := ⟨Extension.beq⟩

instance : LawfulBEq Extension where
  rfl {e} := by
    show Extension.beq e e = true
    simp [Extension.beq]
  eq_of_beq {e e'} h := by
    replace h : Extension.beq e e' = true := h
    cases e
    cases e'
    simpa [Extension.beq, and_assoc] using h

end PluginHost
