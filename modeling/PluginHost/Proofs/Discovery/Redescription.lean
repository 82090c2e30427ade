import Mathlib.Data.List.Forall2
import PluginHost.Proofs.Discovery.History

/-!
# Manifests as describers

A manifest is an older way to say what a describer says: its property `type` and its version are
the attributes of a request to the built-in loader.  A plugin with a manifest may therefore get
the describer that says the same, and no discovery that it takes part in tells the difference;
nor does anything else in the manifest make one (`Discovery.run_redescribed`).

Both follow from one principle: discoveries that visit their plugins alike end alike
(`Discovery.run_of_agree`), and plugins of one name with the same files are visited alike if the
same loader serves them with the same attributes (`Discovery.Agree.of_serves`).
-/

namespace PluginHost

namespace Discovery

variable {d d' : Discovery} {p q : Plugin} {ps qs : List Plugin}

/-! ### Discoveries that agree -/

/-- Whether two discoveries make the same of a plugin each, whatever was found before: the same
findings or failure, by the same calls. -/
def Agree (d d' : Discovery) (p q : Plugin) : Prop :=
  ∀ f, (d.visit f p).outcome = (d'.visit f q).outcome ∧
    (d.visit f p).calls = (d'.visit f q).calls

theorem Agree.refl (d : Discovery) (p : Plugin) : d.Agree d p p := fun _ => ⟨rfl, rfl⟩

theorem Agree.of_serves {loader : Loader} {attributes : Attributes} (hn : p.name = q.name)
    (hf : p.files = q.files) (hp : d.Serves p loader attributes)
    (hq : d'.Serves q loader attributes) : d.Agree d' p q := by
  intro f
  have ha := attempt?_of_serves hp f.extensions
  have ha' := attempt?_of_serves hq f.extensions
  rw [← hf] at ha'
  refine ⟨?_, (calls_visit_of_attempt ha).trans (calls_visit_of_attempt ha').symm⟩
  cases hl : (loader.load ⟨p.files, .ofSet f.extensions, attributes⟩).outcome with
  | ok e => exact (visit_of_attempt_ok ha hl).trans (visit_of_attempt_ok ha' hl).symm
  | error cause =>
    rw [visit_of_attempt_error ha hl, visit_of_attempt_error ha' hl, hn]

/-- Of a plugin whose manifest, if it has one, reads the same, discovery makes the same. -/
theorem Agree.of_readManifest {read : FileSystem → Path → Except Failure Manifest}
    (h : ∀ location, p.files.findResource ⟨d.manifestPath⟩ = some location →
      read p.files.files location = d.readManifest p.files.files location) :
    ({ d with readManifest := read } : Discovery).Agree d p p := by
  intro f
  have hv : ({ d with readManifest := read } : Discovery).visit f p = d.visit f p := by
    unfold visit
    rw [Traced.bind_of_ok _ (outcome_select _ _), Traced.bind_of_ok _ (outcome_select _ _)]
    cases hp : Decision.ofPlugin d.manifestPath p with
    | describer describer => rfl
    | nothing => rfl
    | manifest location =>
      have hl := h location (Decision.findResource_of_ofPlugin hp)
      simp only [loadManifest, hl]
  rw [hv]
  exact ⟨rfl, rfl⟩

theorem visitEach_of_agree (h : List.Forall₂ (d.Agree d') ps qs) (f : Findings) :
    (d.visitEach f ps).outcome = (d'.visitEach f qs).outcome ∧
      (d.visitEach f ps).calls = (d'.visitEach f qs).calls := by
  induction h generalizing f with
  | nil => exact ⟨rfl, rfl⟩
  | @cons p q ps qs hpq _ ih =>
    obtain ⟨ho, hc⟩ := hpq f
    unfold visitEach
    cases hv : (d.visit f p).outcome with
    | error failure =>
      rw [Traced.bind_of_error _ hv, Traced.bind_of_error _ (ho.symm.trans hv)]
      exact ⟨rfl, hc⟩
    | ok g =>
      rw [Traced.bind_of_ok _ hv, Traced.bind_of_ok _ (ho.symm.trans hv), hc, (ih g).2]
      exact ⟨(ih g).1, rfl⟩

/-- Discoveries that make the same of each plugin end in the same way, by the same calls. -/
theorem run_of_agree (h : List.Forall₂ (d.Agree d') ps qs) :
    (d.run ps).outcome = (d'.run qs).outcome ∧ (d.run ps).calls = (d'.run qs).calls := by
  rw [outcome_run, outcome_run, calls_run, calls_run]
  exact visitEach_of_agree h {}

end Discovery

/-! ### What a manifest asks for -/

/-- Whether a manifest asks for the extension of a type, in a version. -/
structure Manifest.AsksFor (m : Manifest) (type version : String) : Prop where
  typed : m.properties.find? Loader.Native.typeKey = some type
  versioned : m.version = version
  type_ne_empty : type ≠ ""
  version_ne_empty : version ≠ ""

theorem ManifestAdapter.attributes_of_asksFor {m : Manifest} {type version : String}
    (h : m.AsksFor type version) : attributes m = .ok (attributesOf type version) := by
  simp [attributes, h.typed, h.versioned, h.type_ne_empty, h.version_ne_empty]

namespace Discovery

/-- Whether a plugin has no describer, but a manifest that is readable and asks for a type in a
version. -/
structure Documents (d : Discovery) (p : Plugin) (type version : String) : Prop where
  undescribed : p.descriptor.describer = none
  manifest : ∃ location m, p.files.findResource ⟨d.manifestPath⟩ = some location ∧
    d.readManifest p.files.files location = .ok m ∧ m.AsksFor type version

/-- The describer that asks the built-in loader for a type in a version. -/
def nativeDescriber (type version : String) : Describer where
  id := Loader.Native.id
  attributes := ManifestAdapter.attributesOf type version

/-- Whether a plugin stands for another: it is the same, or it has the other's name and files and
says by a describer what the other says by a manifest. -/
inductive Redescribes (d : Discovery) : Plugin → Plugin → Prop
  | same (p : Plugin) : Redescribes d p p
  | described {p q : Plugin} {type version : String} (documented : d.Documents p type version)
      (name : q.name = p.name) (files : q.files = p.files)
      (described : q.descriptor.describer = some (nativeDescriber type version)) :
      Redescribes d p q

variable {d : Discovery} {p q : Plugin} {ps qs : List Plugin}

theorem Documents.serves {type version : String} (h : d.Documents p type version) :
    d.Serves p d.adapter.builtin (ManifestAdapter.attributesOf type version) := by
  obtain ⟨hd, location, m, hl, hm, ha⟩ := h
  exact .manifest hd hl hm (ManifestAdapter.attributes_of_asksFor ha)

theorem Redescribes.agree (hb : d.repository.find? Loader.Native.id = some d.adapter.builtin)
    (h : d.Redescribes p q) : d.Agree d p q := by
  cases h with
  | same => exact .refl d p
  | described hm hn hf hd => exact .of_serves hn.symm hf.symm hm.serves (.describer hd hb)

/-- **A manifest counts by its type and its version alone.**  Let a repository have the built-in
loader under its id.  If, in a list, plugins with readable manifests that ask for a type in a
version are replaced by plugins of the same names and files that ask for the same by a describer,
discovery finds the same or fails in the same way, by the same calls.  If manifests read
otherwise, but ask for the same, discovery ends in the same way, too. -/
theorem run_redescribed (hb : d.repository.find? Loader.Native.id = some d.adapter.builtin)
    (h : List.Forall₂ d.Redescribes ps qs) :
    ((d.run ps).outcome = (d.run qs).outcome ∧ (d.run ps).calls = (d.run qs).calls) ∧
    ∀ read : FileSystem → Path → Except Failure Manifest,
      (∀ p ∈ ps,
        (∀ location, p.files.findResource ⟨d.manifestPath⟩ = some location →
          read p.files.files location = d.readManifest p.files.files location) ∨
        ∃ type version, d.Documents p type version ∧
          ({ d with readManifest := read } : Discovery).Documents p type version) →
      (({ d with readManifest := read } : Discovery).run ps).outcome = (d.run ps).outcome ∧
        (({ d with readManifest := read } : Discovery).run ps).calls = (d.run ps).calls := by
  refine ⟨run_of_agree (h.imp fun p q hpq => hpq.agree hb), fun read hread => ?_⟩
  refine run_of_agree (List.forall₂_same.2 fun p hp => ?_)
  rcases hread p hp with hsame | ⟨type, version, hm, hm'⟩
  · exact .of_readManifest hsame
  · exact .of_serves rfl rfl hm'.serves hm.serves

/-! ### A plugin with a manifest -/

/-- A discovery with no more than the built-in loader. -/
def natively : Discovery := plainDiscovery [.native]

/-- The files of a plugin that ships documents in its own directory. -/
def shipping (name : String) (documents : List (String × Json)) : LoadingContext where
  artifactId := name
  root := ⟨name⟩
  files :=
    documents.foldl
      (fun files document =>
        (files.add? [name] document.1 (.file document.2.print.toUTF8)).getD files)
      ((FileSystem.empty.add? [] name .directory).getD .empty)

/-- An extension that exports a type. -/
def httpExtension : Extension :=
  { name := "Http", version := "2.1", exportedTypes := .ofList ["Request"] }

/-- A manifest that asks for it, under another name and by another loader. -/
def httpManifest : Manifest :=
  { name := "legacy", version := "2.1", loaderId := "unknown"
    properties := KeyMap.ofList [("type", "Http")] }

/-- A plugin with the manifest and the declaration of the extension. -/
def httpPlugin : Plugin where
  descriptor := { name := "http" }
  files := shipping "http"
    [("manifest.json", .object
        [("describer", .object
            [("id", .string "unknown"), ("properties", .object [("type", .string "Http")])]),
          ("name", .string "legacy"), ("version", .string "2.1")]),
      ("Http.extension.json", .object
        [("exportedTypes", .string "Request"), ("name", .string "Http")])]

/-- The plugin with a describer. -/
def httpDescribed : Plugin :=
  { httpPlugin with
    descriptor := { name := "http", describer := some (nativeDescriber "Http" "2.1") } }

theorem httpPlugin_documents : natively.Documents httpPlugin "Http" "2.1" where
  undescribed := rfl
  manifest := ⟨⟨"http/manifest.json"⟩, httpManifest, by decide +kernel,
    by decide +kernel, by decide, rfl, by decide, by decide⟩

/-- With its manifest the plugin has the extension that it has with a describer. -/
theorem run_http_redescribed :
    (natively.repository.find? Loader.Native.id = some natively.adapter.builtin ∧
      List.Forall₂ natively.Redescribes [httpPlugin] [httpDescribed]) ∧
      (natively.run [httpPlugin]).outcome.map (·.extensions.toList) = .ok [httpExtension] := by
  have hb : natively.repository.find? Loader.Native.id = some natively.adapter.builtin := rfl
  have hq : List.Forall₂ natively.Redescribes [httpPlugin] [httpDescribed] :=
    .cons (.described httpPlugin_documents rfl rfl rfl) .nil
  obtain ⟨⟨ho, -⟩, -⟩ := run_redescribed hb hq
  refine ⟨⟨hb, hq⟩, ?_⟩
  rw [ho]
  decide +kernel

end Discovery

end PluginHost
