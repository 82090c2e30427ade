import PluginHost.Loader.Basic
import PluginHost.Plugin
import PluginHost.Proofs.Json.Access
import PluginHost.Proofs.Json.Proper

/-!
# The attributes of a descriptor

The attributes in the descriptor of a plugin reach the loader with the types and values that they
have in the document (`Descriptor.reads_attributes`): every value has exactly one type, under which
it is read, and integers of 64 bits are kept on both sides of the limit between those with a sign
and those without.
-/

namespace PluginHost

variable {x : Json} {key : String}

/-! ### Values with their types -/

/-- Whether a value of a type is that of a JSON value.  Of the integers of 64 bits, those below
2^63 have a sign and the others have none. -/
inductive AttributeType.HasValue : (type : AttributeType) → type.Value → Json → Prop
  | string (text : String) : HasValue .string text (.string text)
  | bool (value : Bool) : HasValue .bool value (.bool value)
  | int64 {value : Int64} {n : Int} (least : -0x8000000000000000 ≤ n)
      (greatest : n < 0x8000000000000000) (h : value.toInt = n) : HasValue .int64 value (.int n)
  | uint64 {value : UInt64} {n : Int} (least : 0x8000000000000000 ≤ n)
      (greatest : n < 0x10000000000000000) (h : value.toNat = n) : HasValue .uint64 value (.int n)
  | double (bits : UInt64) : HasValue .double bits (.float bits)
  | null : HasValue .json .null .null
  | array (items : List Json) : HasValue .json (.array items) (.array items)
  | object (members : List (String × Json)) : HasValue .json (.object members) (.object members)

namespace Attribute

theorem hasValue_ofInt {n : Int} (h : Json.Fits n) :
    (ofInt n).type.HasValue (ofInt n).value (.int n) := by
  obtain ⟨least, greatest⟩ := h
  have hmax : Int64.maxValue.toInt = 0x7FFFFFFFFFFFFFFF := rfl
  simp only [Json.Token.leastInt, Json.Token.greatestInt] at least greatest
  by_cases hn : n ≤ Int64.maxValue.toInt
  · have hof : ofInt n = ⟨.int64, Int64.ofInt n⟩ := if_pos hn
    rw [hof]
    exact .int64 least (by omega) (Int64.toInt_ofInt_of_le least (by omega))
  · have hof : ofInt n = ⟨.uint64, UInt64.ofNat n.toNat⟩ := if_neg hn
    rw [hof]
    refine .uint64 (by omega) (by omega) ?_
    rw [UInt64.toNat_ofNat', Nat.mod_eq_of_lt (by omega)]
    omega

theorem hasValue_ofJson (hx : x.Proper) : (ofJson x).type.HasValue (ofJson x).value x := by
  cases hx with
  | null => exact .null
  | bool value => exact .bool value
  | int h => exact hasValue_ofInt h
  | float bits => exact .double bits
  | string text => exact .string text
  | array => exact .array _
  | object => exact .object _

theorem as?_type (a : Attribute) : a.as? a.type = some a.value := dif_pos rfl

theorem as?_of_ne {a : Attribute} {type : AttributeType} (h : type ≠ a.type) :
    a.as? type = none :=
  dif_neg h.symm

end Attribute

theorem Attributes.find?_ofJson {members : List (String × Json)}
    (h : (Json.object members).Proper) :
    (ofJson (.object members)).find? key = (members.lookup key).map Attribute.ofJson := by
  cases h with
  | object sorted _ =>
    have hsorted : (members.map fun m => (m.1, Attribute.ofJson m.2)).Pairwise (·.1 < ·.1) :=
      List.pairwise_map.2 sorted
    show (KeyMap.ofList _).entries.lookup key = _
    rw [Json.keyedElements, KeyMap.entries_ofList hsorted, KeyMap.lookup_map_value]

/-! ### Requests -/

namespace Request

variable {request : Request}

theorem attribute?_of_none (h : request.attributes.find? key = none) (type : AttributeType) :
    request.attribute? type key = .ok none := by
  unfold attribute?
  rw [h]

/-- An attribute is read as one of its type, and as one of no other. -/
theorem attribute?_of_some {a : Attribute} (h : request.attributes.find? key = some a) :
    request.attribute? a.type key = .ok (some a.value) ∧
      ∀ type ≠ a.type,
        request.attribute? type key = .error (.configuration (.mistypedAttribute key)) := by
  unfold attribute?
  simp only [h]
  refine ⟨by rw [a.as?_type], fun type hne => ?_⟩
  rw [Attribute.as?_of_ne hne]

theorem attribute?_eq_some_iff {type : AttributeType} {value : type.Value} :
    request.attribute? type key = .ok (some value) ↔
      request.attributes.find? key = some ⟨type, value⟩ := by
  constructor
  · intro h
    cases hfind : request.attributes.find? key with
    | none => cases (attribute?_of_none hfind type).symm.trans h
    | some a =>
      obtain ⟨hown, hother⟩ := attribute?_of_some hfind
      by_cases htype : type = a.type
      · subst htype
        cases hown.symm.trans h
        rfl
      · cases (hother type htype).symm.trans h
  · exact fun h => (attribute?_of_some h).1

/-- What a request has to have is a text attribute that is not empty. -/
theorem requireText_eq_ok_iff {text : String} :
    request.requireText key = .ok text ↔
      request.attributes.find? key = some (.ofText text) ∧ text ≠ "" := by
  rw [Attribute.ofText, ← attribute?_eq_some_iff]
  unfold requireText
  rw [bind_eq_ok_iff]
  constructor
  · rintro ⟨value, hvalue, h⟩
    cases value with
    | none => cases h
    | some value =>
      simp only at h
      split at h
      · cases h
      · next hne =>
        cases h
        exact ⟨hvalue, hne⟩
  · rintro ⟨hvalue, hne⟩
    exact ⟨some text, hvalue, if_neg hne⟩

theorem requireText_cases (request : Request) (key : String) :
    (∃ text, request.requireText key = .ok text) ∨
      ∃ e, request.requireText key = .error (.configuration e) ∧ e.kind = .parameter key := by
  cases hfind : request.attributes.find? key with
  | none =>
    refine .inr ⟨.missingAttribute key, ?_, rfl⟩
    rw [requireText, attribute?_of_none hfind]
    rfl
  | some a =>
    by_cases htype : a.type = .string
    · obtain ⟨type, value⟩ := a
      cases htype
      by_cases hempty : value = ""
      · refine .inr ⟨.missingAttribute key, ?_, rfl⟩
        rw [requireText, (attribute?_of_some hfind).1]
        exact if_pos hempty
      · exact .inl ⟨value, requireText_eq_ok_iff.2 ⟨hfind, hempty⟩⟩
    · refine .inr ⟨.mistypedAttribute key, ?_, rfl⟩
      rw [requireText, (attribute?_of_some hfind).2 _ (Ne.symm htype)]
      rfl

end Request

/-! ### Descriptors -/

namespace Descriptor

variable {content : ByteArray} {source : String} {j loader attributes : Json} {d : Descriptor}

theorem describer_of_parse (hread : Json.read content = .ok j)
    (hparse : parse content source = .ok d)
    (hloader : j.member? "extensionModelLoaderDescriptor" = some loader)
    (hattributes : loader.member? "attributes" = some attributes) :
    ∃ id, d.describer = some { id, attributes := Attributes.ofJson attributes } := by
  simp only [parse, hread, ofDocument] at hparse
  split at hparse
  · cases hparse
  · next declared hj =>
    split at hparse
    · cases hparse
    cases hparse
    simp only [ofJson, bind_eq_ok_iff, hloader] at hj
    obtain ⟨_, -, _, -, _, -, describer, hdescriber, he⟩ := hj
    cases he
    rw [Option.mapM_some] at hdescriber
    obtain ⟨described, hdescribed, rfl⟩ := Json.exists_of_map_eq_ok hdescriber
    simp only [describerOfJson, bind_eq_ok_iff, hattributes] at hdescribed
    obtain ⟨_, -, id, -, he⟩ := hdescribed
    cases he
    exact ⟨id, rfl⟩

/-- **The attributes of a descriptor are read as what they are in its document**: each as a value
of exactly one type, and refused as one of any other type.  A key without an attribute gives none
for any type, and what has to be there is a text that is not empty. -/
theorem reads_attributes {members : List (String × Json)} (hread : Json.read content = .ok j)
    (hparse : parse content source = .ok d)
    (hloader : j.member? "extensionModelLoaderDescriptor" = some loader)
    (hattributes : loader.member? "attributes" = some (.object members)) :
    ∃ describer, d.describer = some describer ∧ ∀ files context key,
      let request : Request := { files, context, attributes := describer.attributes }
      (∀ x, members.lookup key = some x → ∃ type value,
        request.attribute? type key = .ok (some value) ∧ type.HasValue value x ∧
        ∀ other ≠ type, ∃ e, request.attribute? other key = .error (.configuration e) ∧
          e.kind = .parameter key) ∧
      (members.lookup key = none → ∀ type, request.attribute? type key = .ok none) ∧
      (∀ text, request.requireText key = .ok text ↔
        members.lookup key = some (.string text) ∧ text ≠ "") ∧
      ((∃ text, request.requireText key = .ok text) ∨
        ∃ e, request.requireText key = .error (.configuration e) ∧ e.kind = .parameter key) := by
  obtain ⟨id, hd⟩ := describer_of_parse hread hparse hloader hattributes
  refine ⟨_, hd, fun files context key => ?_⟩
  intro request
  have hproper : (Json.object members).Proper :=
    ((Json.proper_of_read hread).member? hloader).member? hattributes
  have hfind : request.attributes.find? key = (members.lookup key).map Attribute.ofJson :=
    Attributes.find?_ofJson hproper
  have hvalues : ∀ x, members.lookup key = some x → x.Proper := fun x hx => by
    have hmember : (Json.object members).member? key = some x := hx
    exact hproper.member? hmember
  have hsome : ∀ x, members.lookup key = some x → ∃ type value,
      request.attribute? type key = .ok (some value) ∧ type.HasValue value x ∧
      ∀ other ≠ type, ∃ e, request.attribute? other key = .error (.configuration e) ∧
        e.kind = .parameter key := by
    intro x hx
    obtain ⟨hown, hother⟩ := Request.attribute?_of_some (hfind.trans (congrArg _ hx))
    exact ⟨_, _, hown, Attribute.hasValue_ofJson (hvalues x hx),
      fun other hne => ⟨_, hother other hne, rfl⟩⟩
  have hnone : members.lookup key = none → ∀ type, request.attribute? type key = .ok none :=
    fun h => Request.attribute?_of_none (hfind.trans (congrArg _ h))
  refine ⟨hsome, hnone, fun text => ?_, request.requireText_cases key⟩
  rw [Request.requireText_eq_ok_iff, hfind]
  refine and_congr_left fun _ => ⟨fun htext => ?_, fun hx => congrArg _ hx⟩
  obtain ⟨x, hx, he⟩ := Option.map_eq_some_iff.1 htext
  have hvalue : AttributeType.HasValue .string text x := by
    have h := Attribute.hasValue_ofJson (hvalues x hx)
    rw [he] at h
    exact h
  cases hvalue
  exact hx

/-- A descriptor whose attribute is the least integer without a sign. -/
def unsignedText : String :=
  "\x7b\"name\":\"p\",\"extensionModelLoaderDescriptor\":\x7b\"id\":\"native\"," ++
    "\"attributes\":\x7b\"n\":9223372036854775808\x7d\x7d\x7d"

theorem tokensOf_unsignedText :
    Json.tokensOf unsignedText.toUTF8 =
      [.openObject, .string "name", .colon, .string "p", .comma,
        .string "extensionModelLoaderDescriptor", .colon, .openObject, .string "id", .colon,
        .string "native", .comma, .string "attributes", .colon, .openObject, .string "n", .colon,
        .int 9223372036854775808, .closeObject, .closeObject, .closeObject] := by
  unfold Json.tokensOf
  rw [Text.decode_toUTF8]
  decide +kernel

theorem read_unsignedText :
    Json.read unsignedText.toUTF8 = .ok (.object [("extensionModelLoaderDescriptor",
      .object [("attributes", .object [("n", .int 9223372036854775808)]),
        ("id", .string "native")]), ("name", .string "p")]) := by
  show Json.ofTokens (Json.tokensOf _) = _
  rw [tokensOf_unsignedText]
  rfl

/-- It is read without a sign, and not as an integer with one. -/
theorem reads_attributes_unsigned :
    ∃ describer,
      parse unsignedText.toUTF8 "d.json" = .ok { name := "p", describer := some describer } ∧
      ∀ files context,
        let request : Request := { files, context, attributes := describer.attributes }
        (∃ value : UInt64, request.attribute? .uint64 "n" = .ok (some value) ∧
          value.toNat = 0x8000000000000000) ∧
        ∃ e, request.attribute? .int64 "n" = .error (.configuration e) ∧
          e.kind = .parameter "n" := by
  have hparse : parse unsignedText.toUTF8 "d.json" = .ok
      { name := "p"
        describer := some {
          id := "native"
          attributes := .ofJson (.object [("n", .int 9223372036854775808)]) } } := by
    rw [parse, read_unsignedText]
    rfl
  obtain ⟨_, hd, h⟩ := reads_attributes read_unsignedText hparse rfl rfl
  cases hd
  refine ⟨_, hparse, fun files context => ?_⟩
  obtain ⟨type, value, hown, hvalue, hother⟩ := (h files context "n").1 _ rfl
  cases hvalue with
  | int64 _ greatest => exact absurd greatest (by decide)
  | uint64 _ _ hvalue => exact ⟨⟨_, hown, by omega⟩, hother .int64 nofun⟩

end Descriptor

end PluginHost
