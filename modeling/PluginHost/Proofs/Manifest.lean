import PluginHost.Proofs.Documents
import PluginHost.Proofs.Extension.Fingerprint
import PluginHost.Proofs.Json.Access
import PluginHost.Proofs.Json.Proper

/-!
# The JSON form of manifests

Which documents are manifests, and which manifest they are.  A document that was read is a manifest
exactly if it has the form of one, and is a defect of its source otherwise; a manifest that is
written as a document is read back (`Manifest.parse_of_read`).

The description of the loader has to be there, as an object, though nothing has to be in it.  Its
properties are an object of texts: unlike the packages and resources they are not `null`.
-/

namespace PluginHost

open Json

/-! ### Maps of texts -/

/-- The JSON form of a map of texts. -/
def KeyMap.toJson (texts : KeyMap String) : Json :=
  .object (texts.entries.map fun e => (e.1, .string e.2))

namespace Json

variable {j : Json}

theorem getTexts_eq_ok_iff {texts : List (String × String)} :
    j.getTexts = .ok texts ↔ j = object (texts.map fun e => (e.1, string e.2)) := by
  cases j with
  | object members =>
    have hmember : ∀ (m : String × Json) (e : String × String),
        (do return (m.1, ← m.2.getString)) = Except.ok (ε := Fault) e ↔ m = (e.1, string e.2) := by
      intro m e
      simp only [bind_eq_ok_iff, getString_eq_ok_iff, pure, Except.pure, Except.ok.injEq]
      constructor
      · rintro ⟨text, hm, rfl⟩
        exact Prod.ext rfl hm
      · rintro rfl
        exact ⟨e.2, rfl, rfl⟩
    show (members.mapM _ = _) ↔ _
    rw [mapM_eq_ok_iff, object.injEq]
    simp only [hmember]
    rw [← List.forall₂_eq_eq_eq, List.forall₂_map_right_iff]
  | _ => simp [getTexts]

theorem map_getTexts_eq_ok_iff (hj : j.Proper) {texts : KeyMap String} :
    KeyMap.ofList <$> j.getTexts = .ok texts ↔ j = texts.toJson := by
  have hmap : KeyMap.ofList <$> j.getTexts = .ok texts ↔
      ∃ l, j = object (l.map fun e => (e.1, string e.2)) ∧ KeyMap.ofList l = texts := by
    simp only [← getTexts_eq_ok_iff]
    cases j.getTexts <;> simp [Functor.map, Except.map]
  rw [hmap]
  constructor
  · rintro ⟨l, rfl, rfl⟩
    cases hj with
    | object sorted _ =>
      have hl : l.Pairwise (fun a b => a.1 < b.1) := by
        rwa [List.pairwise_map] at sorted
      rw [KeyMap.toJson, KeyMap.entries_ofList hl]
  · rintro rfl
    exact ⟨texts.entries, rfl, texts.ofList_entries⟩

theorem exists_eq_toJson_iff (hj : j.Proper) :
    (∃ texts : KeyMap String, j = texts.toJson) ↔ IsMapOf IsText j := by
  constructor
  · rintro ⟨texts, rfl⟩
    refine ⟨_, rfl, fun m hm => ?_⟩
    obtain ⟨e, -, rfl⟩ := List.mem_map.1 hm
    exact ⟨e.2, rfl⟩
  · rintro ⟨members, rfl, htexts⟩
    have hmembers : ∀ m ∈ members, ∃ e : String × String, m = (e.1, string e.2) := fun m hm =>
      let ⟨text, htext⟩ := htexts m hm
      ⟨(m.1, text), Prod.ext rfl htext⟩
    obtain ⟨l, hl⟩ := exists_forall₂_iff.2 hmembers
    rw [← List.forall₂_map_right_iff (R := Eq), List.forall₂_eq_eq_eq] at hl
    have hread := getTexts_eq_ok_iff.2 (congrArg object hl)
    exact ⟨_, (map_getTexts_eq_ok_iff hj).1 (congrArg _ hread)⟩

end Json

theorem KeyMap.plain_toJson (texts : KeyMap String) : Plain texts.toJson := by
  refine .object (List.pairwise_map.2 texts.sorted) fun m hm => ?_
  obtain ⟨e, -, rfl⟩ := List.mem_map.1 hm
  exact .string e.2

namespace Manifest

variable {j d : Json} {m : Manifest} {content : ByteArray}

/-! ### What manifests look like -/

/-- Whether a value is the JSON form of the description of a loader. -/
structure DescriberForm (d : Json) : Prop where
  object : d.IsObject
  id : d.MayHave "id" IsText
  properties : d.MayHave "properties" (IsMapOf IsText)

/-- Whether a value is the JSON form of a manifest. -/
structure HasForm (j : Json) : Prop where
  object : j.IsObject
  name : j.Has "name" IsText
  version : j.Has "version" IsText
  minRuntimeVersion : j.MayHave "minRuntimeVersion" IsText
  describer : j.Has "describer" DescriberForm
  exportedPackages : j.MayHave "exportedPackages" IsTexts
  exportedResources : j.MayHave "exportedResources" IsTexts

/-- Whether a value stands for the description of the loader in a manifest. -/
structure Describes (d : Json) (m : Manifest) : Prop where
  object : d.IsObject
  loaderId : Gives "id" (· = string ·) "" d m.loaderId
  properties : Gives "properties" (· = KeyMap.toJson ·) ∅ d m.properties

/-- Whether a value stands for a manifest. -/
structure Denotes (j : Json) (m : Manifest) : Prop where
  object : j.IsObject
  name : j.member? "name" = some (string m.name)
  version : j.member? "version" = some (string m.version)
  minRuntimeVersion : Gives "minRuntimeVersion" (· = string ·) "" j m.minRuntimeVersion
  describer : j.Has "describer" (Describes · m)
  exportedPackages : Gives "exportedPackages" ListsTexts [] j m.exportedPackages
  exportedResources : Gives "exportedResources" ListsTexts [] j m.exportedResources

/-! ### Values that were read -/

theorem propertiesOf_eq_ok_iff (hd : d.Proper) {properties : KeyMap String} :
    propertiesOf d = .ok properties ↔ Gives "properties" (· = KeyMap.toJson ·) ∅ d properties := by
  unfold propertiesOf Gives
  cases h : d.member? "properties" with
  | none => simp [eq_comm]
  | some value => simp [map_getTexts_eq_ok_iff (hd.member? h)]

theorem exists_properties_iff (hd : d.Proper) :
    (∃ properties, Gives "properties" (· = KeyMap.toJson ·) ∅ d properties) ↔
      d.MayHave "properties" (IsMapOf IsText) :=
  exists_gives_iff fun _ hv => exists_eq_toJson_iff (hd.member? hv)

theorem ofJson_eq_ok_iff (hj : j.Proper) : ofJson j = .ok m ↔ Denotes j m := by
  simp only [ofJson, bind_eq_ok_iff, member_eq_ok_iff, getString_eq_ok_iff, memberD_eq_ok_iff,
    memberTexts_eq_ok_iff, pure, Except.pure, Except.ok.injEq]
  constructor
  · rintro ⟨_, hname, name, rfl, _, hversion, version, rfl, minRuntimeVersion, ⟨hobject, hmin⟩, d,
      hd, loaderId, ⟨hdobject, hid⟩, properties, hproperties, packages, hpackages, resources,
      hresources, rfl⟩
    rw [propertiesOf_eq_ok_iff (hj.member? hd)] at hproperties
    exact ⟨hobject, hname, hversion, hmin, ⟨d, hd, hdobject, hid, hproperties⟩, hpackages,
      hresources⟩
  · rintro ⟨hobject, hname, hversion, hmin, ⟨d, hd, hdobject, hid, hproperties⟩, hpackages,
      hresources⟩
    rw [← propertiesOf_eq_ok_iff (hj.member? hd)] at hproperties
    exact ⟨_, hname, _, rfl, _, hversion, _, rfl, _, ⟨hobject, hmin⟩, d, hd, _, ⟨hdobject, hid⟩, _,
      hproperties, _, hpackages, _, hresources, rfl⟩

theorem exists_denotes_iff (hj : j.Proper) : (∃ m, Denotes j m) ↔ HasForm j := by
  constructor
  · rintro ⟨m, h⟩
    obtain ⟨d, hd, hdescribes⟩ := h.describer
    have hform : DescriberForm d :=
      { object := hdescribes.object
        id := exists_givesText_iff.1 ⟨_, hdescribes.loaderId⟩
        properties := (exists_properties_iff (hj.member? hd)).1 ⟨_, hdescribes.properties⟩ }
    exact
      { object := h.object
        name := ⟨_, h.name, m.name, rfl⟩
        version := ⟨_, h.version, m.version, rfl⟩
        minRuntimeVersion := exists_givesText_iff.1 ⟨_, h.minRuntimeVersion⟩
        describer := ⟨d, hd, hform⟩
        exportedPackages := exists_givesTexts_iff.1 ⟨_, h.exportedPackages⟩
        exportedResources := exists_givesTexts_iff.1 ⟨_, h.exportedResources⟩ }
  · intro h
    obtain ⟨d, hd, hform⟩ := h.describer
    obtain ⟨_, hname, name, rfl⟩ := h.name
    obtain ⟨_, hversion, version, rfl⟩ := h.version
    obtain ⟨minRuntimeVersion, hmin⟩ := exists_givesText_iff.2 h.minRuntimeVersion
    obtain ⟨loaderId, hid⟩ := exists_givesText_iff.2 hform.id
    obtain ⟨properties, hproperties⟩ := (exists_properties_iff (hj.member? hd)).2 hform.properties
    obtain ⟨exportedPackages, hpackages⟩ := exists_givesTexts_iff.2 h.exportedPackages
    obtain ⟨exportedResources, hresources⟩ := exists_givesTexts_iff.2 h.exportedResources
    exact ⟨{ name, version, minRuntimeVersion, loaderId, properties, exportedPackages,
             exportedResources }, h.object, hname, hversion, hmin,
      ⟨d, hd, hform.object, hid, hproperties⟩, hpackages, hresources⟩

theorem ofDocument_eq_ok_iff (hj : j.Proper) (source : String) :
    ofDocument source j = .ok m ↔ Denotes j m := by
  rw [← ofJson_eq_ok_iff hj]
  unfold ofDocument
  split
  · cases ofJson _ <;> simp
  · next hobject =>
    -- only objects have a name
    refine ⟨nofun, fun h => ?_⟩
    obtain ⟨members, rfl⟩ := ((ofJson_eq_ok_iff hj).1 h).object
    exact absurd rfl (hobject members)

theorem parse_eq_ok_iff (h : Json.read content = .ok j) (source : String) :
    parse content source = .ok m ↔ Denotes j m := by
  unfold parse
  rw [h]
  exact ofDocument_eq_ok_iff (proper_of_read h) source

/-! ### Manifests that were written -/

theorem plain_toJson (m : Manifest) : Plain m.toJson := by
  have hdescriber : Plain (object [("id", string m.loaderId),
      ("properties", m.properties.toJson)]) := by
    refine plain_object ["id", "properties"] rfl (by decide) ?_
    simp [Plain.string, m.properties.plain_toJson]
  refine plain_object ["describer", "exportedPackages", "exportedResources", "minRuntimeVersion",
    "name", "version"] rfl (by decide) ?_
  simp only [List.forall_mem_cons]
  exact ⟨hdescriber, plain_ofStrings _, plain_ofStrings _, .string _, .string _, .string _, nofun⟩

theorem listsTexts_ofStrings (texts : List String) : ListsTexts (ofStrings texts) texts := by
  refine .inr (.array ?_)
  rw [List.forall₂_map_left_iff, List.forall₂_same]
  exact fun _ _ => rfl

theorem denotes_toJson (m : Manifest) : Denotes m.toJson m where
  object := ⟨_, rfl⟩
  name := rfl
  version := rfl
  minRuntimeVersion := .inl ⟨_, rfl, rfl⟩
  describer := ⟨_, rfl, ⟨_, rfl⟩, .inl ⟨_, rfl, rfl⟩, .inl ⟨_, rfl, rfl⟩⟩
  exportedPackages := .inl ⟨_, rfl, listsTexts_ofStrings _⟩
  exportedResources := .inl ⟨_, rfl, listsTexts_ofStrings _⟩

/-- **A document is a manifest exactly if it has the form of one**, and is the manifest that it
stands for; any other document is a defect of its source.  A manifest is read back from its text. -/
theorem parse_of_read (h : Json.read content = .ok j) (source : String) :
    ((∃ m, parse content source = .ok m) ↔ HasForm j) ∧
    (∀ m, parse content source = .ok m ↔ Denotes j m) ∧
    (HasForm j ∨ ∃ e, parse content source = .error (.configuration e) ∧
      e.kind = .manifest source) ∧
    ∀ m : Manifest, parse m.toJson.print.toUTF8 source = .ok m := by
  have hproper := proper_of_read h
  have hparse : ∀ m, parse content source = .ok m ↔ Denotes j m := fun m =>
    parse_eq_ok_iff h source
  have hform : (∃ m, parse content source = .ok m) ↔ HasForm j := by
    simp only [hparse, exists_denotes_iff hproper]
  refine ⟨hform, hparse, ?_, fun m => ?_⟩
  · cases hp : parse content source with
    | ok m => exact .inl (hform.1 ⟨m, hp⟩)
    | error failure =>
      have hj : parse content source = ofDocument source j := by
        unfold parse
        rw [h]
      obtain ⟨e, rfl, hkind⟩ := attributed_ofDocument source j failure (hj.symm.trans hp)
      exact .inr ⟨e, rfl, hkind⟩
  · exact (parse_eq_ok_iff (read_print m.plain_toJson) source).2 m.denotes_toJson

/-- A document in which the packages are the values of an object and there are no resources. -/
def packaged : Json :=
  object [
    ("describer", object [("id", string "native"), ("properties", object [("type", string "A")])]),
    ("exportedPackages", object [("0", string "p"), ("1", string "q")]),
    ("exportedResources", null), ("name", string "A"), ("version", string "1")]

theorem parse_packaged :
    Json.read packaged.print.toUTF8 = .ok packaged ∧
      parse packaged.print.toUTF8 "m.json" = .ok
        { name := "A", version := "1", loaderId := "native"
          properties := KeyMap.ofList [("type", "A")], exportedPackages := ["p", "q"] } := by
  have hproperties : Plain (object [("type", string "A")]) :=
    plain_object ["type"] rfl (by decide) (by simp [Plain.string])
  have hdescriber : Plain (object [("id", string "native"),
      ("properties", object [("type", string "A")])]) :=
    plain_object ["id", "properties"] rfl (by decide) (by simp [Plain.string, hproperties])
  have hpackages : Plain (object [("0", string "p"), ("1", string "q")]) :=
    plain_object ["0", "1"] rfl (by decide) (by simp [Plain.string])
  have hread : Json.read packaged.print.toUTF8 = .ok packaged := by
    refine read_print (plain_object ["describer", "exportedPackages", "exportedResources", "name",
      "version"] rfl (by decide) ?_)
    simp [Plain.string, Plain.null, hdescriber, hpackages]
  refine ⟨hread, ((parse_of_read hread "m.json").2.1 _).2 ?_⟩
  exact
    { object := ⟨_, rfl⟩
      name := rfl
      version := rfl
      minRuntimeVersion := .inr ⟨rfl, rfl⟩
      describer := ⟨_, rfl, ⟨_, rfl⟩, .inl ⟨_, rfl, rfl⟩, .inl ⟨_, rfl, rfl⟩⟩
      exportedPackages := .inl ⟨_, rfl, .inr (.object (.cons rfl (.cons rfl .nil)))⟩
      exportedResources := .inl ⟨_, rfl, .inr .null⟩ }

end Manifest

end PluginHost
