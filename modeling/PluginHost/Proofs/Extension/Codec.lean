import Mathlib.Data.List.Forall2
import PluginHost.Extension.Codec
import PluginHost.Proofs.Except

/-!
# Extensions and their JSON forms

The JSON form of an extension says everything about it, and so do the forms of its parts: a form
is read back as the value that it was written for, and two values are equal exactly if their forms
are (`Json.faithful_extension`).  Forms that leave members out, or spell them differently, denote
the value of one complete form.
-/

namespace PluginHost

open Json (Fault)

namespace Json

variable {α : Type} {toJson : α → Json} {ofJson : Json → Except Fault α}

/-- Whether values are told apart by their JSON forms, and read back from them. -/
structure Faithful [BEq α] (toJson : α → Json) (ofJson : Json → Except Fault α) : Prop where
  /-- The form of a value is read back as an equal value. -/
  ofJson_toJson : ∀ a, ∃ b, ofJson (toJson a) = .ok b ∧ (b == a) = true
  /-- Values are equal exactly if their forms are. -/
  beq_iff : ∀ a b, (a == b) = true ↔ toJson a = toJson b
  /-- Whatever is accepted, the form of the value that it denotes is accepted and denotes the
  same. -/
  ofJson_toJson_of_ofJson : ∀ j a, ofJson j = .ok a →
    ∃ b, ofJson (toJson a) = .ok b ∧ (b == a) = true

/-- Forms that are read back as what they were written for tell values apart. -/
theorem toJson_injective (h : ∀ a, ofJson (toJson a) = .ok a) {a b : α}
    (he : toJson a = toJson b) : a = b := by
  have hb := h b
  rw [← he, h a] at hb
  exact Except.ok.inj hb

theorem Faithful.of_ofJson_toJson [BEq α] [LawfulBEq α] (h : ∀ a, ofJson (toJson a) = .ok a) :
    Faithful toJson ofJson where
  ofJson_toJson a := ⟨a, h a, BEq.rfl⟩
  beq_iff a b := by
    rw [beq_iff_eq]
    exact ⟨congrArg toJson, toJson_injective h⟩
  ofJson_toJson_of_ofJson _ a _ := ⟨a, h a, BEq.rfl⟩

theorem mapM_map_eq_ok (h : ∀ a, ofJson (toJson a) = .ok a) (l : List α) :
    (l.map toJson).mapM ofJson = .ok l := by
  rw [mapM_eq_ok_iff, List.forall₂_map_left_iff]
  exact List.forall₂_same.2 fun a _ => h a

theorem ofList_mapM_getString (s : NameSet) :
    NameSet.ofList <$> (s.names.map string).mapM getString = .ok s := by
  have hread : (s.names.map string).mapM getString = .ok s.names :=
    mapM_map_eq_ok (α := String) (fun _ => rfl) s.names
  rw [hread]
  exact congrArg Except.ok s.ofList_names

end Json

/-! ### Reading what was written

The members of a form that was written are found by computing; what is left are the lists. -/

theorem Parameter.ofJson_toJson (p : Parameter) : ofJson p.toJson = .ok p := by
  obtain ⟨name, type, required, defaultValue⟩ := p
  cases defaultValue <;> rfl

theorem Operation.ofJson_toJson (o : Operation) : ofJson o.toJson = .ok o := by
  have hread : ofJson o.toJson = do
      let parameters ← (o.parameters.map Parameter.toJson).mapM Parameter.ofJson
      return { o with parameters } := by
    obtain ⟨name, description, parameters, outputType⟩ := o
    cases outputType <;> rfl
  rw [hread, Json.mapM_map_eq_ok Parameter.ofJson_toJson]
  rfl

theorem Configuration.ofJson_toJson (c : Configuration) : ofJson c.toJson = .ok c := by
  have hread : ofJson c.toJson = do
      let parameters ← (c.parameters.map Parameter.toJson).mapM Parameter.ofJson
      return { c with parameters } := rfl
  rw [hread, Json.mapM_map_eq_ok Parameter.ofJson_toJson]
  rfl

theorem Extension.ofJson_toJson (e : Extension) : ofJson e.toJson = .ok e := by
  have hread : ofJson e.toJson = do
      let exportedTypes ←
        NameSet.ofList <$> (e.exportedTypes.names.map Json.string).mapM Json.getString
      let importedTypes ←
        NameSet.ofList <$> (e.importedTypes.names.map Json.string).mapM Json.getString
      let operations ← (e.operations.map Operation.toJson).mapM Operation.ofJson
      let configurations ← (e.configurations.map Configuration.toJson).mapM Configuration.ofJson
      return { e with exportedTypes, importedTypes, operations, configurations } := rfl
  rw [hread, Json.ofList_mapM_getString, Json.ofList_mapM_getString,
    Json.mapM_map_eq_ok Operation.ofJson_toJson, Json.mapM_map_eq_ok Configuration.ofJson_toJson]
  rfl

/-- **The JSON forms of extensions and of their parts are faithful.** -/
theorem Json.faithful_extension :
    Faithful Parameter.toJson Parameter.ofJson ∧ Faithful Operation.toJson Operation.ofJson ∧
      Faithful Configuration.toJson Configuration.ofJson ∧
      Faithful Extension.toJson Extension.ofJson :=
  ⟨.of_ofJson_toJson Parameter.ofJson_toJson, .of_ofJson_toJson Operation.ofJson_toJson,
    .of_ofJson_toJson Configuration.ofJson_toJson, .of_ofJson_toJson Extension.ofJson_toJson⟩

end PluginHost
