import PluginHost.Plugin
import PluginHost.Proofs.Json.Reading

/-!
# How readers of documents fail

A manifest or a descriptor that cannot be used is a defect of the resource that it came from, and
a configuration that cannot be used is a failure of the running system or of an argument.  All
three readers make one exception: a number that is too large is passed on as a fault of JSON
(`refused_duly_iff`).
-/

namespace PluginHost

variable {content : ByteArray} {source : String}

/-! ### Manifests and descriptors -/

/-- Whether an outcome is a value or a defect of a resource. -/
def Attributed {α : Type} (resource : String) (outcome : Except Failure α) : Prop :=
  ∀ failure, outcome = .error failure →
    ∃ e, failure = .configuration e ∧ e.kind = .manifest resource

theorem attributed_ok {α : Type} (resource : String) (a : α) :
    Attributed resource (.ok a : Except Failure α) := nofun

theorem attributed_unusable {α : Type} (resource message : String) :
    Attributed resource (.error (Manifest.unusable resource message) : Except Failure α) := by
  intro failure h
  cases h
  exact ⟨_, rfl, rfl⟩

theorem not_attributed_json {α : Type} (resource : String) (fault : Json.Fault) :
    ¬ Attributed resource (.error (.json fault) : Except Failure α) := by
  intro h
  obtain ⟨e, he, -⟩ := h _ rfl
  cases he

namespace Manifest

theorem attributed_ofDocument (source : String) (j : Json) :
    Attributed source (ofDocument source j) := by
  unfold ofDocument
  split
  · split
    · exact attributed_ok _ _
    · exact attributed_unusable _ _
  · exact attributed_unusable _ _

theorem parse_of_overflows (h : Json.Overflows content) (source : String) :
    parse content source = .error (.json .tooLarge) := by
  unfold parse
  rw [Json.read_eq_tooLarge_iff.2 h]

theorem attributed_parse (h : ¬ Json.Overflows content) (source : String) :
    Attributed source (parse content source) := by
  unfold parse
  obtain ⟨j, hr⟩ | hr | ⟨-, ho⟩ := Json.read_cases content
  · rw [hr]
    exact attributed_ofDocument source j
  · rw [hr]
    exact attributed_unusable _ _
  · exact absurd ho h

end Manifest

namespace Descriptor

theorem attributed_ofDocument (source : String) (j : Json) :
    Attributed source (ofDocument source j) := by
  unfold ofDocument
  split
  · exact attributed_unusable _ _
  · split
    · exact attributed_unusable _ _
    · exact attributed_ok _ _

theorem parse_of_overflows (h : Json.Overflows content) (source : String) :
    parse content source = .error (.json .tooLarge) := by
  unfold parse
  rw [Json.read_eq_tooLarge_iff.2 h]

theorem attributed_parse (h : ¬ Json.Overflows content) (source : String) :
    Attributed source (parse content source) := by
  unfold parse
  obtain ⟨j, hr⟩ | hr | ⟨-, ho⟩ := Json.read_cases content
  · rw [hr]
    exact attributed_ofDocument source j
  · rw [hr]
    exact attributed_unusable _ _
  · exact absurd ho h

end Descriptor

/-! ### Configurations -/

namespace Config

/-- Whether an outcome is a value or a failure of the system or of an argument. -/
def Ordinary {α : Type} (outcome : Except Failure α) : Prop :=
  ∀ failure, outcome = .error failure →
    (∃ message, failure = .runtime message) ∨ ∃ message, failure = .invalidArgument message

theorem ordinary_ofJson (j : Json) : Ordinary (ofJson j) := by
  intro failure h
  unfold ofJson at h
  split at h
  · cases h
  · cases h
    exact .inr ⟨_, rfl⟩

theorem ordinary_runtime {α : Type} (message : String) :
    Ordinary (.error (.runtime message) : Except Failure α) := by
  intro failure h
  cases h
  exact .inl ⟨message, rfl⟩

variable {files : FileSystem} {path : Path}

theorem read_of_overflows (hfile : files.status path = .ok (.file content))
    (h : Json.Overflows content) : read files path = .error (.json .tooLarge) := by
  unfold read
  simp only [hfile, Json.read_eq_tooLarge_iff.2 h]

theorem ordinary_read
    (h : ∀ content, files.status path = .ok (.file content) → ¬ Json.Overflows content) :
    Ordinary (read files path) := by
  unfold read
  split
  · next content hfile =>
    obtain ⟨j, hr⟩ | hr | ⟨-, ho⟩ := Json.read_cases content
    · rw [hr]
      exact ordinary_ofJson j
    · rw [hr]
      exact ordinary_runtime _
    · exact absurd ho (h content hfile)
  · exact ordinary_runtime _
  · exact ordinary_runtime _

end Config

/-! ### All readers -/

/-- **A document that is refused** is a defect of its resource, if it is a manifest or a
descriptor, or a failure of the system or of an argument, if it is a configuration, unless its
first fault is a number that is too large: that is passed on as it is. -/
theorem refused_duly_iff (content : ByteArray) (source : String) (files : FileSystem)
    (path : Path) :
    (Attributed source (Manifest.parse content source) ↔ ¬ Json.Overflows content) ∧
    (Attributed source (Descriptor.parse content source) ↔ ¬ Json.Overflows content) ∧
    (Json.Overflows content → Manifest.parse content source = .error (.json .tooLarge) ∧
      Descriptor.parse content source = .error (.json .tooLarge)) ∧
    (Config.Ordinary (Config.read files path) ↔
      ∀ content, files.status path = .ok (.file content) → ¬ Json.Overflows content) ∧
    (files.status path = .ok (.file content) → Json.Overflows content →
      Config.read files path = .error (.json .tooLarge)) := by
  refine ⟨⟨fun h ho => ?_, fun h => Manifest.attributed_parse h source⟩,
    ⟨fun h ho => ?_, fun h => Descriptor.attributed_parse h source⟩,
    fun ho => ⟨Manifest.parse_of_overflows ho source, Descriptor.parse_of_overflows ho source⟩,
    ⟨fun h content hfile ho => ?_, Config.ordinary_read⟩, Config.read_of_overflows⟩
  · rw [Manifest.parse_of_overflows ho] at h
    exact not_attributed_json _ _ h
  · rw [Descriptor.parse_of_overflows ho] at h
    exact not_attributed_json _ _ h
  · rw [Config.read_of_overflows hfile ho] at h
    obtain ⟨_, he⟩ | ⟨_, he⟩ := h _ rfl <;> cases he

/-! ### A document that is not refused duly -/

/-- A manifest, descriptor and configuration but for a number in a member that nobody reads. -/
def overlarge : String :=
  "\x7b\"name\": \"a\", \"version\": \"1\", \"describer\": \x7b\x7d, \"x\": 1e999\x7d"

theorem tokensOf_overlarge :
    Json.tokensOf overlarge.toUTF8 =
      [.openObject, .string "name", .colon, .string "a", .comma, .string "version", .colon,
        .string "1", .comma, .string "describer", .colon, .openObject, .closeObject, .comma,
        .string "x", .colon] ++ .tooLarge :: [.closeObject] := by
  unfold Json.tokensOf
  rw [Text.decode_toUTF8]
  decide +kernel

theorem overflows_overlarge : Json.Overflows overlarge.toUTF8 :=
  ⟨_, _, [.closeObject], _, tokensOf_overlarge, rfl⟩

/-- A file system with the document as a configuration. -/
def configured : FileSystem where
  entries := [(["c.json"], .file overlarge.toUTF8)]
  current := []
  tree := ⟨by simp, by decide, by decide⟩
  current_directory := Or.inl rfl

theorem status_configured : configured.status ⟨"c.json"⟩ = .ok (.file overlarge.toUTF8) := rfl

/-- All readers pass its fault on. -/
theorem overlarge_passed_on :
    Manifest.parse overlarge.toUTF8 "m" = .error (.json .tooLarge) ∧
      Descriptor.parse overlarge.toUTF8 "m" = .error (.json .tooLarge) ∧
      Config.read configured ⟨"c.json"⟩ = .error (.json .tooLarge) :=
  ⟨Manifest.parse_of_overflows overflows_overlarge "m",
    Descriptor.parse_of_overflows overflows_overlarge "m",
    Config.read_of_overflows status_configured overflows_overlarge⟩

end PluginHost
