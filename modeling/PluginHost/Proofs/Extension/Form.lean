import PluginHost.Proofs.Json.Access

/-!
# The JSON forms of extensions

Which values are read as extensions, and as which.  `HasForm` states what a value has to look like,
for an extension and for each of its parts, and `Denotes` what it stands for.  A value is read
exactly if it has the form, as what it denotes, and is refused with a fault of the value otherwise
(`Extension.reads_extension`).

A list may be left out, be `null`, or be written as an array or as an object, of which the values
count.  The other members may be left out, but are not `null`.
-/

namespace PluginHost

open Json

variable {j : Json}

/-! ### Sets of names -/

namespace Json

/-- Whether a set of names is that of the texts in a value. -/
def Names (j : Json) (names : NameSet) : Prop :=
  ∃ texts, ListsTexts j texts ∧ ∀ text, text ∈ names ↔ text ∈ texts

theorem ofList_eq_iff {texts : List String} {names : NameSet} :
    NameSet.ofList texts = names ↔ ∀ text, text ∈ names ↔ text ∈ texts := by
  constructor
  · rintro rfl text
    exact NameSet.mem_ofList
  · intro h
    exact NameSet.ext_mem fun text => NameSet.mem_ofList.trans (h text).symm

theorem exists_names_iff : (∃ names, Names j names) ↔ IsTexts j := by
  rw [← exists_listsTexts_iff]
  constructor
  · rintro ⟨_, texts, h, -⟩
    exact ⟨texts, h⟩
  · rintro ⟨texts, h⟩
    exact ⟨NameSet.ofList texts, texts, h, fun _ => NameSet.mem_ofList⟩

theorem memberNames_eq_ok_iff {key : String} {names : NameSet} :
    j.memberNames key = .ok names ↔ Gives key Names ∅ j names := by
  have hmap : j.memberNames key = .ok names ↔
      ∃ texts, Gives key ListsTexts [] j texts ∧ NameSet.ofList texts = names := by
    simp only [← memberTexts_eq_ok_iff]
    unfold memberNames
    cases j.memberList key getString <;> simp [Functor.map, Except.map]
  have hempty : NameSet.ofList [] = ∅ := rfl
  rw [hmap]
  unfold Gives
  cases j.member? key with
  | none => simp [hempty, eq_comm]
  | some v => simp [Names, ofList_eq_iff]

theorem accesses_memberNames (key : String) (j : Json) : Accesses (j.memberNames key) :=
  (accesses_memberList accesses_getString key j).map _

end Json

/-! ### Parameters -/

namespace Parameter

/-- Whether a value is the JSON form of a parameter. -/
structure HasForm (j : Json) : Prop where
  object : j.IsObject
  name : j.Has "name" IsText
  type : j.MayHave "type" IsText
  required : j.MayHave "required" IsTruth
  defaultValue : j.MayHave "defaultValue" IsText

/-- Whether a value stands for a parameter. -/
structure Denotes (j : Json) (p : Parameter) : Prop where
  object : j.IsObject
  name : j.member? "name" = some (string p.name)
  type : Gives "type" (· = string ·) "string" j p.type
  required : Gives "required" (· = bool ·) false j p.required
  defaultValue : j.member? "defaultValue" = p.defaultValue.map string

theorem ofJson_eq_ok_iff {p : Parameter} : ofJson j = .ok p ↔ Denotes j p := by
  simp only [ofJson, bind_eq_ok_iff, member_eq_ok_iff, getString_eq_ok_iff, memberD_eq_ok_iff,
    memberText?_eq_ok_iff, getBool_eq_ok_iff, pure, Except.pure, Except.ok.injEq]
  constructor
  · rintro ⟨_, hname, name, rfl, type, ⟨hobject, htype⟩, required, ⟨-, hrequired⟩, defaultValue,
      hdefault, rfl⟩
    exact ⟨hobject, hname, htype, hrequired, hdefault⟩
  · rintro ⟨hobject, hname, htype, hrequired, hdefault⟩
    exact ⟨_, hname, _, rfl, _, ⟨hobject, htype⟩, _, ⟨hobject, hrequired⟩, _, hdefault, rfl⟩

theorem exists_denotes_iff : (∃ p, Denotes j p) ↔ HasForm j := by
  constructor
  · rintro ⟨p, h⟩
    exact ⟨h.object, ⟨_, h.name, p.name, rfl⟩, exists_givesText_iff.1 ⟨_, h.type⟩,
      exists_givesTruth_iff.1 ⟨_, h.required⟩,
      exists_eq_map_string_iff.1 ⟨_, h.defaultValue⟩⟩
  · rintro ⟨hobject, ⟨_, hname, name, rfl⟩, htype, hrequired, hdefault⟩
    obtain ⟨type, htype⟩ := exists_givesText_iff.2 htype
    obtain ⟨required, hrequired⟩ := exists_givesTruth_iff.2 hrequired
    obtain ⟨defaultValue, hdefault⟩ := exists_eq_map_string_iff.2 hdefault
    exact ⟨{ name, type, required, defaultValue }, hobject, hname, htype, hrequired, hdefault⟩

theorem reads_ofJson : Reads ofJson HasForm Denotes := by
  refine .of_accesses (fun _ _ => ofJson_eq_ok_iff) (fun _ => exists_denotes_iff) fun j => ?_
  exact (accesses_member _ _).bind fun _ => (accesses_getString _).bind fun _ =>
    (accesses_memberD accesses_getString _ _ _).bind fun _ =>
      (accesses_memberD accesses_getBool _ _ _).bind fun _ =>
        (accesses_memberText? _ _).bind fun _ => accesses_ok _

theorem memberList_eq_ok_iff {key : String} {l : List Parameter} :
    j.memberList key ofJson = .ok l ↔ Gives key (Lists Denotes) [] j l :=
  reads_ofJson.memberList_eq_ok_iff fun _ _ h => h.object

end Parameter

/-! ### Operations -/

namespace Operation

/-- Whether a value is the JSON form of an operation. -/
structure HasForm (j : Json) : Prop where
  object : j.IsObject
  name : j.Has "name" IsText
  description : j.MayHave "description" IsText
  parameters : j.MayHave "parameters" (IsListOf Parameter.HasForm)
  outputType : j.MayHave "outputType" IsText

/-- Whether a value stands for an operation. -/
structure Denotes (j : Json) (o : Operation) : Prop where
  object : j.IsObject
  name : j.member? "name" = some (string o.name)
  description : Gives "description" (· = string ·) "" j o.description
  parameters : Gives "parameters" (Lists Parameter.Denotes) [] j o.parameters
  outputType : j.member? "outputType" = o.outputType.map string

theorem ofJson_eq_ok_iff {o : Operation} : ofJson j = .ok o ↔ Denotes j o := by
  simp only [ofJson, bind_eq_ok_iff, member_eq_ok_iff, getString_eq_ok_iff, memberD_eq_ok_iff,
    memberText?_eq_ok_iff, Parameter.memberList_eq_ok_iff, pure, Except.pure, Except.ok.injEq]
  constructor
  · rintro ⟨_, hname, name, rfl, description, ⟨hobject, hdescription⟩, parameters, hparameters,
      outputType, houtput, rfl⟩
    exact ⟨hobject, hname, hdescription, hparameters, houtput⟩
  · rintro ⟨hobject, hname, hdescription, hparameters, houtput⟩
    exact ⟨_, hname, _, rfl, _, ⟨hobject, hdescription⟩, _, hparameters, _, houtput, rfl⟩

theorem exists_denotes_iff : (∃ o, Denotes j o) ↔ HasForm j := by
  constructor
  · rintro ⟨o, h⟩
    exact ⟨h.object, ⟨_, h.name, o.name, rfl⟩, exists_givesText_iff.1 ⟨_, h.description⟩,
      Parameter.reads_ofJson.exists_gives_lists_iff.1 ⟨_, h.parameters⟩,
      exists_eq_map_string_iff.1 ⟨_, h.outputType⟩⟩
  · rintro ⟨hobject, ⟨_, hname, name, rfl⟩, hdescription, hparameters, houtput⟩
    obtain ⟨description, hdescription⟩ := exists_givesText_iff.2 hdescription
    obtain ⟨parameters, hparameters⟩ :=
      Parameter.reads_ofJson.exists_gives_lists_iff.2 hparameters
    obtain ⟨outputType, houtput⟩ := exists_eq_map_string_iff.2 houtput
    exact ⟨{ name, description, parameters, outputType }, hobject, hname, hdescription, hparameters,
      houtput⟩

theorem reads_ofJson : Reads ofJson HasForm Denotes := by
  refine .of_accesses (fun _ _ => ofJson_eq_ok_iff) (fun _ => exists_denotes_iff) fun j => ?_
  exact (accesses_member _ _).bind fun _ => (accesses_getString _).bind fun _ =>
    (accesses_memberD accesses_getString _ _ _).bind fun _ =>
      (accesses_memberList Parameter.reads_ofJson.accesses _ _).bind fun _ =>
        (accesses_memberText? _ _).bind fun _ => accesses_ok _

theorem memberList_eq_ok_iff {key : String} {l : List Operation} :
    j.memberList key ofJson = .ok l ↔ Gives key (Lists Denotes) [] j l :=
  reads_ofJson.memberList_eq_ok_iff fun _ _ h => h.object

end Operation

/-! ### Configurations -/

namespace Configuration

/-- Whether a value is the JSON form of a configuration. -/
structure HasForm (j : Json) : Prop where
  object : j.IsObject
  name : j.Has "name" IsText
  description : j.MayHave "description" IsText
  parameters : j.MayHave "parameters" (IsListOf Parameter.HasForm)

/-- Whether a value stands for a configuration. -/
structure Denotes (j : Json) (c : Configuration) : Prop where
  object : j.IsObject
  name : j.member? "name" = some (string c.name)
  description : Gives "description" (· = string ·) "" j c.description
  parameters : Gives "parameters" (Lists Parameter.Denotes) [] j c.parameters

theorem ofJson_eq_ok_iff {c : Configuration} : ofJson j = .ok c ↔ Denotes j c := by
  simp only [ofJson, bind_eq_ok_iff, member_eq_ok_iff, getString_eq_ok_iff, memberD_eq_ok_iff,
    Parameter.memberList_eq_ok_iff, pure, Except.pure, Except.ok.injEq]
  constructor
  · rintro ⟨_, hname, name, rfl, description, ⟨hobject, hdescription⟩, parameters, hparameters, rfl⟩
    exact ⟨hobject, hname, hdescription, hparameters⟩
  · rintro ⟨hobject, hname, hdescription, hparameters⟩
    exact ⟨_, hname, _, rfl, _, ⟨hobject, hdescription⟩, _, hparameters, rfl⟩

theorem exists_denotes_iff : (∃ c, Denotes j c) ↔ HasForm j := by
  constructor
  · rintro ⟨c, h⟩
    exact ⟨h.object, ⟨_, h.name, c.name, rfl⟩, exists_givesText_iff.1 ⟨_, h.description⟩,
      Parameter.reads_ofJson.exists_gives_lists_iff.1 ⟨_, h.parameters⟩⟩
  · rintro ⟨hobject, ⟨_, hname, name, rfl⟩, hdescription, hparameters⟩
    obtain ⟨description, hdescription⟩ := exists_givesText_iff.2 hdescription
    obtain ⟨parameters, hparameters⟩ :=
      Parameter.reads_ofJson.exists_gives_lists_iff.2 hparameters
    exact ⟨{ name, description, parameters }, hobject, hname, hdescription, hparameters⟩

theorem reads_ofJson : Reads ofJson HasForm Denotes := by
  refine .of_accesses (fun _ _ => ofJson_eq_ok_iff) (fun _ => exists_denotes_iff) fun j => ?_
  exact (accesses_member _ _).bind fun _ => (accesses_getString _).bind fun _ =>
    (accesses_memberD accesses_getString _ _ _).bind fun _ =>
      (accesses_memberList Parameter.reads_ofJson.accesses _ _).bind fun _ => accesses_ok _

theorem memberList_eq_ok_iff {key : String} {l : List Configuration} :
    j.memberList key ofJson = .ok l ↔ Gives key (Lists Denotes) [] j l :=
  reads_ofJson.memberList_eq_ok_iff fun _ _ h => h.object

end Configuration

/-! ### Extensions -/

namespace Extension

/-- Whether a value is the JSON form of an extension. -/
structure HasForm (j : Json) : Prop where
  object : j.IsObject
  name : j.Has "name" IsText
  version : j.MayHave "version" IsText
  vendor : j.MayHave "vendor" IsText
  category : j.MayHave "category" IsText
  description : j.MayHave "description" IsText
  exportedTypes : j.MayHave "exportedTypes" IsTexts
  importedTypes : j.MayHave "importedTypes" IsTexts
  operations : j.MayHave "operations" (IsListOf Operation.HasForm)
  configurations : j.MayHave "configurations" (IsListOf Configuration.HasForm)

/-- Whether a value stands for an extension. -/
structure Denotes (j : Json) (e : Extension) : Prop where
  object : j.IsObject
  name : j.member? "name" = some (string e.name)
  version : Gives "version" (· = string ·) "" j e.version
  vendor : Gives "vendor" (· = string ·) "" j e.vendor
  category : Gives "category" (· = string ·) "" j e.category
  description : Gives "description" (· = string ·) "" j e.description
  exportedTypes : Gives "exportedTypes" Names ∅ j e.exportedTypes
  importedTypes : Gives "importedTypes" Names ∅ j e.importedTypes
  operations : Gives "operations" (Lists Operation.Denotes) [] j e.operations
  configurations : Gives "configurations" (Lists Configuration.Denotes) [] j e.configurations

theorem ofJson_eq_ok_iff {e : Extension} : ofJson j = .ok e ↔ Denotes j e := by
  simp only [ofJson, bind_eq_ok_iff, member_eq_ok_iff, getString_eq_ok_iff, memberD_eq_ok_iff,
    memberNames_eq_ok_iff, Operation.memberList_eq_ok_iff, Configuration.memberList_eq_ok_iff,
    pure, Except.pure, Except.ok.injEq]
  constructor
  · rintro ⟨_, hname, name, rfl, version, ⟨hobject, hversion⟩, vendor, ⟨-, hvendor⟩, category,
      ⟨-, hcategory⟩, description, ⟨-, hdescription⟩, exportedTypes, hexported, importedTypes,
      himported, operations, hoperations, configurations, hconfigurations, rfl⟩
    exact ⟨hobject, hname, hversion, hvendor, hcategory, hdescription, hexported, himported,
      hoperations, hconfigurations⟩
  · rintro ⟨hobject, hname, hversion, hvendor, hcategory, hdescription, hexported, himported,
      hoperations, hconfigurations⟩
    exact ⟨_, hname, _, rfl, _, ⟨hobject, hversion⟩, _, ⟨hobject, hvendor⟩, _, ⟨hobject, hcategory⟩,
      _, ⟨hobject, hdescription⟩, _, hexported, _, himported, _, hoperations, _, hconfigurations,
      rfl⟩

theorem exists_denotes_iff : (∃ e, Denotes j e) ↔ HasForm j := by
  constructor
  · rintro ⟨e, h⟩
    exact
      { object := h.object
        name := ⟨_, h.name, e.name, rfl⟩
        version := exists_givesText_iff.1 ⟨_, h.version⟩
        vendor := exists_givesText_iff.1 ⟨_, h.vendor⟩
        category := exists_givesText_iff.1 ⟨_, h.category⟩
        description := exists_givesText_iff.1 ⟨_, h.description⟩
        exportedTypes := (exists_gives_iff fun _ _ => exists_names_iff).1 ⟨_, h.exportedTypes⟩
        importedTypes := (exists_gives_iff fun _ _ => exists_names_iff).1 ⟨_, h.importedTypes⟩
        operations := Operation.reads_ofJson.exists_gives_lists_iff.1 ⟨_, h.operations⟩
        configurations :=
          Configuration.reads_ofJson.exists_gives_lists_iff.1 ⟨_, h.configurations⟩ }
  · intro h
    obtain ⟨_, hname, name, rfl⟩ := h.name
    obtain ⟨version, hversion⟩ := exists_givesText_iff.2 h.version
    obtain ⟨vendor, hvendor⟩ := exists_givesText_iff.2 h.vendor
    obtain ⟨category, hcategory⟩ := exists_givesText_iff.2 h.category
    obtain ⟨description, hdescription⟩ := exists_givesText_iff.2 h.description
    obtain ⟨exportedTypes, hexported⟩ :=
      (exists_gives_iff fun _ _ => exists_names_iff).2 h.exportedTypes
    obtain ⟨importedTypes, himported⟩ :=
      (exists_gives_iff fun _ _ => exists_names_iff).2 h.importedTypes
    obtain ⟨operations, hoperations⟩ :=
      Operation.reads_ofJson.exists_gives_lists_iff.2 h.operations
    obtain ⟨configurations, hconfigurations⟩ :=
      Configuration.reads_ofJson.exists_gives_lists_iff.2 h.configurations
    exact ⟨{ name, version, vendor, category, description, exportedTypes, importedTypes, operations,
             configurations }, h.object, hname, hversion, hvendor, hcategory, hdescription,
      hexported, himported, hoperations, hconfigurations⟩

theorem accesses_ofJson (j : Json) : Accesses (ofJson j) := by
  have htext : ∀ key, Accesses (j.memberD key getString "") := fun key =>
    accesses_memberD accesses_getString key "" j
  exact (accesses_member _ _).bind fun _ => (accesses_getString _).bind fun _ =>
    (htext _).bind fun _ => (htext _).bind fun _ => (htext _).bind fun _ => (htext _).bind fun _ =>
      (accesses_memberNames _ _).bind fun _ => (accesses_memberNames _ _).bind fun _ =>
        (accesses_memberList Operation.reads_ofJson.accesses _ _).bind fun _ =>
          (accesses_memberList Configuration.reads_ofJson.accesses _ _).bind fun _ => accesses_ok _

/-- **A value is read as an extension exactly if it has the form of one**, with its elements in the
order in which they stand, and each set with the texts that are in it.  Any other value is refused,
because a value has the wrong type or a member is missing. -/
theorem reads_extension : Reads ofJson HasForm Denotes :=
  .of_accesses (fun _ _ => ofJson_eq_ok_iff) (fun _ => exists_denotes_iff) accesses_ofJson

end Extension

end PluginHost
