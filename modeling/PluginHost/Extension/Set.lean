import PluginHost.Extension.Basic
import PluginHost.Failure
import PluginHost.KeyMap

/-!
# Sets of extensions

An `ExtensionSet` holds extensions under their names.  The first extension of a name stays:
`insert` turns a second one away.
-/

namespace PluginHost

/-- Extensions under their names. -/
structure ExtensionSet where
  byName : KeyMap Extension
  named : ∀ e ∈ byName.entries, e.1 = e.2.name
  deriving DecidableEq

namespace ExtensionSet

/-- The set without extensions. -/
def empty : ExtensionSet := ⟨.empty, fun _ h => nomatch h⟩

instance : EmptyCollection ExtensionSet := ⟨empty⟩

instance : Inhabited ExtensionSet := ⟨empty⟩

/-- The extension of a name. -/
def find? (s : ExtensionSet) (name : String) : Option Extension := s.byName.find? name

/-- Whether there is an extension of a name. -/
def contains (s : ExtensionSet) (name : String) : Bool := s.byName.contains name

/-- The set with one more extension, unless its name is taken. -/
def insert (s : ExtensionSet) (extension : Extension) : ExtensionSet :=
  { byName := s.byName.insertNew extension.name extension
    named := fun e h => by
      rcases KeyMap.mem_of_mem_insertNew h with rfl | h
      · rfl
      · exact s.named e h }

/-- Inserts an extension, which has to be given, and says whether it was added. -/
def add (s : ExtensionSet) : Option Extension → Except Failure (ExtensionSet × Bool)
  | none => .error (.invalidArgument "Cannot add a null extension model")
  | some e => .ok (s.insert e, !s.contains e.name)

/-- Inserts extensions, which have to be given, one after the other. -/
def addEach (s : ExtensionSet) : List (Option Extension) → Except Failure ExtensionSet
  | [] => .ok s
  | e :: rest => do (← s.add e).1.addEach rest

/-- The names, ascending. -/
def names (s : ExtensionSet) : List String := s.byName.keys

/-- The extensions by ascending name. -/
def toList (s : ExtensionSet) : List Extension := s.byName.values

/-- How many extensions there are. -/
def size (s : ExtensionSet) : Nat := s.byName.size

/-- The extensions of a list inserted one after the other. -/
def ofList (extensions : List Extension) : ExtensionSet := extensions.foldl insert empty

/-! ### What the operations do to lookups -/

@[simp]
theorem find?_empty (name : String) : (∅ : ExtensionSet).find? name = none := rfl

/-- The first extension of a name stays. -/
theorem find?_insert (s : ExtensionSet) (e : Extension) (name : String) :
    (s.insert e).find? name =
      if name = e.name then some ((s.find? e.name).getD e) else s.find? name :=
  KeyMap.find?_insertNew s.byName e.name e name

/-- Every extension is found under its own name. -/
theorem name_of_find? {s : ExtensionSet} {name : String} {e : Extension}
    (h : s.find? name = some e) : e.name = name :=
  (s.named _ (KeyMap.find?_eq_some_iff.1 h)).symm

theorem mem_toList {s : ExtensionSet} {e : Extension} :
    e ∈ s.toList ↔ s.find? e.name = some e := by
  refine ⟨fun h => ?_, fun h => List.mem_map.2 ⟨_, KeyMap.find?_eq_some_iff.1 h, rfl⟩⟩
  obtain ⟨d, hd, rfl⟩ := List.mem_map.1 h
  rw [← s.named d hd]
  exact KeyMap.find?_eq_some_iff.2 hd

end ExtensionSet

end PluginHost
