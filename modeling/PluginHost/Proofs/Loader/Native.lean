import PluginHost.Proofs.Attribute
import PluginHost.Proofs.Discovery.Load
import PluginHost.Proofs.Extension.Fingerprint
import PluginHost.Proofs.Json.Extent
import PluginHost.Proofs.Loader.Types
import PluginHost.Proofs.LoadingContext

/-!
# What the built-in loader loads

The built-in loader declares what stands in the declaration of the type that it is asked for
(`Loader.Native.Declares`), and a load succeeds exactly if that keeps the rules for extensions.
Every other request is refused as an extension that cannot be loaded, whatever its files hold
(`Loader.load_native`).
-/

namespace PluginHost

/-! ### Errors of loading -/

/-- Whether errors of a kind are those of an extension that cannot be loaded. -/
def ConfigurationError.Kind.isLoading : Kind → Bool
  | loading | parameter _ | definition _ => true
  | general | manifest _ => false

/-- Whether an outcome is a value, or an error of an extension that cannot be loaded. -/
def Loads {α : Type} (outcome : Except Failure α) : Prop :=
  (∃ a, outcome = .ok a) ∨
    ∃ error, outcome = .error (.configuration error) ∧ error.kind.isLoading = true

theorem Loads.bind {α β : Type} {x : Traced α} {next : α → Traced β} (hx : Loads x.outcome)
    (hnext : ∀ a, Loads (next a).outcome) : Loads (x >>= next).outcome := by
  obtain ⟨a, ha⟩ | ⟨error, herror, hkind⟩ := hx
  · rw [Traced.outcome_bind_of_ok next ha]
    exact hnext a
  · exact .inr ⟨error, Traced.outcome_bind_of_error next herror, hkind⟩

theorem loads_requireText (request : Request) (key : String) : Loads (request.requireText key) := by
  obtain ⟨text, h⟩ | ⟨e, h, hkind⟩ := request.requireText_cases key
  · exact .inl ⟨text, h⟩
  · exact .inr ⟨e, h, by rw [hkind]; rfl⟩

theorem Extension.loads_validate (e : Extension) (context : ResolutionContext) :
    Loads (e.validate context) := by
  unfold validate
  split
  · exact .inl ⟨(), rfl⟩
  · exact .inr ⟨_, rfl, rfl⟩

namespace Loader.Native

theorem loads_declarationResource (type : String) : Loads (declarationResource type) := by
  unfold declarationResource
  split
  · exact .inl ⟨_, rfl⟩
  · exact .inr ⟨_, rfl, rfl⟩

theorem loads_readDeclaration (files : FileSystem) (location : Path) :
    Loads (readDeclaration files location) := by
  unfold readDeclaration
  split
  · exact .inr ⟨_, rfl, rfl⟩
  · split
    · exact .inl ⟨_, rfl⟩
    · exact .inr ⟨_, rfl, rfl⟩

theorem loads_declare (request : Request) : Loads (declare request).outcome := by
  refine Loads.bind (loads_requireText request typeKey) fun type => ?_
  refine Loads.bind (loads_requireText request versionKey) fun version => ?_
  refine Loads.bind (loads_declarationResource type) fun resource => ?_
  split
  · exact .inr ⟨_, rfl, rfl⟩
  · next location _ =>
    refine Loads.bind (loads_readDeclaration request.files.files location) fun declared => ?_
    exact .inl ⟨_, rfl⟩

/-! ### Declarations -/

/-- Whether a type is declared by a file: up to its first NUL character, it holds the JSON form of
the extension. -/
def DeclaredAs (files : LoadingContext) (type : String) (e : Extension) : Prop :=
  ∃ segments location content text j, Dotted type segments ∧
    files.findResource (resourceOf segments) = some location ∧
    files.files.status location = .ok (.file content) ∧
    Json.HasText content text ∧ Json.read text.toUTF8 = .ok j ∧ Extension.ofJson j = .ok e

/-- Whether a request asks for a version of a type that is declared. -/
structure Declares (request : Request) (type version : String) (declared : Extension) : Prop where
  requested : request.attributes.find? typeKey = some (.ofText type) ∧ type ≠ ""
  versioned : request.attributes.find? versionKey = some (.ofText version) ∧ version ≠ ""
  declaration : DeclaredAs request.files type declared

theorem status_of_findResource {files : LoadingContext} {resource location : Path}
    (h : files.findResource resource = some location) :
    ∃ content, files.files.status location = .ok (.file content) := by
  obtain ⟨-, -, hfile, -⟩ := LoadingContext.findResource_eq_some_iff_resolves.1 h
  unfold FileSystem.isFile at hfile
  split at hfile
  · next content hstatus => exact ⟨content, hstatus⟩
  · cases hfile

theorem readDeclaration_eq_ok_iff {files : FileSystem} {location : Path} {content : ByteArray}
    {e : Extension} (hfile : files.status location = .ok (.file content)) :
    readDeclaration files location = .ok e ↔ ∃ text j, Json.HasText content text ∧
      Json.read text.toUTF8 = .ok j ∧ Extension.ofJson j = .ok e := by
  have hread : readDeclaration files location = .ok e ↔
      ∃ j, Json.read content = .ok j ∧ Extension.ofJson j = .ok e := by
    rw [← bind_eq_ok_iff]
    unfold readDeclaration FileSystem.read?
    simp only [hfile]
    cases Json.read content >>= Extension.ofJson <;> simp
  rw [hread]
  constructor
  · rintro ⟨j, hj, he⟩
    obtain ⟨text, htext, hj⟩ := Json.read_eq_ok_iff.1 hj
    exact ⟨text, j, htext, hj, he⟩
  · rintro ⟨text, j, htext, hj, he⟩
    exact ⟨j, Json.read_eq_ok_iff.2 ⟨text, htext, hj⟩, he⟩

theorem declare_eq_ok_iff {request : Request} {e : Extension} :
    (declare request).outcome = .ok e ↔ ∃ type version declared,
      Declares request type version declared ∧ e = { declared with version } := by
  simp only [declare, Traced.outcome_bind_eq_ok_iff, Traced.outcome_ofExcept,
    Request.requireText_eq_ok_iff, declarationResource_eq_ok_iff]
  constructor
  · rintro ⟨type, htype, version, hversion, _, ⟨segments, hdotted, rfl⟩, h⟩
    split at h
    · cases h
    · next location hfound =>
      obtain ⟨declared, hdeclared, h⟩ := Traced.outcome_bind_eq_ok_iff.1 h
      obtain ⟨content, hfile⟩ := status_of_findResource hfound
      obtain ⟨text, j, htext, hj, hdeclared⟩ := (readDeclaration_eq_ok_iff hfile).1 hdeclared
      refine ⟨type, version, declared, ⟨htype, hversion, segments, location, content, text, j,
        hdotted, hfound, hfile, htext, hj, hdeclared⟩, ?_⟩
      exact (Except.ok.inj h).symm
  · rintro ⟨type, version, declared, ⟨htype, hversion, segments, location, content, text, j,
      hdotted, hfound, hfile, htext, hj, hdeclared⟩, rfl⟩
    refine ⟨type, htype, version, hversion, _, ⟨segments, hdotted, rfl⟩, ?_⟩
    simp only [hfound]
    exact Traced.outcome_bind_eq_ok_iff.2
      ⟨declared, (readDeclaration_eq_ok_iff hfile).2 ⟨text, j, htext, hj, hdeclared⟩, rfl⟩

end Loader.Native

namespace Loader

theorem outcome_load_native_eq_ok_iff {request : Request} {e : Extension} :
    (native.load request).outcome = .ok e ↔ ∃ type version declared,
      Native.Declares request type version declared ∧ e = { declared with version } ∧
        e.WellFormed request.context := by
  rw [outcome_load_eq_ok_iff, Extension.problems_eq_nil_iff]
  show (Native.declare request).outcome = .ok e ∧ _ ↔ _
  rw [Native.declare_eq_ok_iff]
  constructor
  · rintro ⟨⟨type, version, declared, hdeclares, he⟩, hvalid⟩
    exact ⟨type, version, declared, hdeclares, he, hvalid⟩
  · rintro ⟨type, version, declared, hdeclares, he, hvalid⟩
    exact ⟨⟨type, version, declared, hdeclares, he⟩, hvalid⟩

theorem loads_native (request : Request) : Loads (native.load request).outcome := by
  refine Loads.bind (.inl ⟨(), rfl⟩) fun _ => ?_
  refine Loads.bind (Native.loads_declare request) fun e => ?_
  exact Loads.bind (e.loads_validate request.context) fun _ => .inl ⟨e, rfl⟩

/-- **The built-in loader loads exactly what is declared**: the extension in the declaration of the
type, with the version that is asked for, if it keeps the rules.  Any other request is refused as
an extension that cannot be loaded. -/
theorem load_native (request : Request) :
    (∀ e, (native.load request).outcome = .ok e ↔ ∃ type version declared,
      Native.Declares request type version declared ∧ e = { declared with version } ∧
        e.WellFormed request.context) ∧
    ((∃ e, (native.load request).outcome = .ok e) ∨
      ∃ error, (native.load request).outcome = .error (.configuration error) ∧
        error.kind.isLoading = true) :=
  ⟨fun _ => outcome_load_native_eq_ok_iff, loads_native request⟩

/-! ### A declaration that goes on behind its end -/

/-- A declaration. -/
def endedForm : Json := .object [("name", .string "A")]

/-- Its text, behind which a NUL character stands and a byte that belongs to no text. -/
def endedContent : ByteArray := (endedForm.print ++ "\x00").toUTF8 ++ ⟨#[0xff]⟩

/-- It is no text as a whole. -/
theorem endedContent_ne_toUTF8 (text : String) : endedContent ≠ text.toUTF8 := by
  intro h
  have hfirst : Text.decode ⟨#[0xff]⟩ = ([], false) := by
    unfold Text.decode Text.decodeFrom
    rfl
  have hdecode := Text.decode_append (endedForm.print ++ "\x00").toList ⟨#[0xff]⟩
  have hbytes : (endedForm.print ++ "\x00").toList.utf8Encode ++ ⟨#[0xff]⟩ = text.toUTF8 := by
    rw [String.utf8Encode_toList]
    exact h
  rw [hbytes, Text.decode_toUTF8, hfirst] at hdecode
  exact Bool.false_ne_true (congrArg Prod.snd hdecode).symm

/-- A plugin with that declaration. -/
def endedRequest : Request where
  files :=
    { artifactId := "p"
      root := ⟨"p"⟩
      files :=
        { entries := [(["p"], .directory), (["p", "A.extension.json"], .file endedContent)]
          current := []
          tree := ⟨by simp, by decide, by decide⟩
          current_directory := Or.inl rfl } }
  context := ∅
  attributes := KeyMap.ofList [("type", .ofText "A"), ("version", .ofText "1")]

theorem read_endedForm : Json.read endedForm.print.toUTF8 = .ok endedForm := by
  refine Json.read_print (Json.plain_object ["name"] rfl (by decide) ?_)
  simp [Json.Plain.string]

/-- Only the text up to the NUL character counts. -/
theorem load_native_ended :
    (∀ text : String, endedContent ≠ text.toUTF8) ∧
      (endedRequest.files.findResource ⟨"A.extension.json"⟩ = some ⟨"p/A.extension.json"⟩ ∧
        endedRequest.files.files.status ⟨"p/A.extension.json"⟩ = .ok (.file endedContent)) ∧
      (native.load endedRequest).outcome = .ok { name := "A", version := "1" } := by
  have hfound : endedRequest.files.findResource ⟨"A.extension.json"⟩ =
      some ⟨"p/A.extension.json"⟩ := by decide +kernel
  have hfile : endedRequest.files.files.status ⟨"p/A.extension.json"⟩ =
      .ok (.file endedContent) := rfl
  refine ⟨endedContent_ne_toUTF8, ⟨hfound, hfile⟩, ?_⟩
  refine outcome_load_native_eq_ok_iff.2 ⟨"A", "1", { name := "A" },
    ⟨⟨rfl, by decide⟩, ⟨rfl, by decide⟩, ["A"], _, _, endedForm.print, endedForm, ?_, hfound, hfile,
      ?_, read_endedForm, ?_⟩, rfl, Extension.problems_eq_nil_iff.1 ?_⟩
  · exact ⟨by decide, by simp [Native.IsSegment, Native.isSegmentChar], rfl⟩
  · exact ⟨by decide, .inr ⟨_, rfl⟩⟩
  · rfl
  · decide

end Loader

end PluginHost
