import PluginHost.ResolutionContext
import PluginHost.Proofs.Extension.Codec
import PluginHost.Proofs.Extension.Set
import PluginHost.Proofs.Json.Printing

/-!
# Contexts and their fingerprints

Contexts are compared by the digests of their texts.  As long as the digest does not take two
different texts for the same, contexts are equal exactly if they hold the same extensions under the
same names (`ResolutionContext.beq_ofSet_iff`): the order of insertion does not count, and every
field of every extension does.
-/

namespace PluginHost

/-- Whether two different texts have the same digest. -/
def Digest.Collide (text other : String) : Prop := text ≠ other ∧ sha256Hex text = sha256Hex other

instance (text other : String) : Decidable (Digest.Collide text other) :=
  inferInstanceAs (Decidable (_ ∧ _))

/-! ### Texts of extensions -/

namespace Json

theorem plain_ofStrings (texts : List String) : Plain (ofStrings texts) := by
  refine .array fun item hitem => ?_
  obtain ⟨text, -, rfl⟩ := List.mem_map.1 hitem
  exact .string text

theorem plain_array_map {α : Type} {toJson : α → Json} (h : ∀ a, Plain (toJson a)) (l : List α) :
    Plain (array (l.map toJson)) := by
  refine .array fun item hitem => ?_
  obtain ⟨a, -, rfl⟩ := List.mem_map.1 hitem
  exact h a

theorem plain_object {members : List (String × Json)} (keys : List String)
    (hkeys : members.map (·.1) = keys) (sorted : keys.Pairwise (· < ·))
    (h : ∀ m ∈ members, Plain m.2) : Plain (object members) :=
  .object (List.pairwise_map.1 (hkeys ▸ sorted)) h

end Json

open Json (Plain)

theorem Parameter.plain_toJson (p : Parameter) : Plain p.toJson := by
  obtain ⟨name, type, required, defaultValue⟩ := p
  cases defaultValue with
  | none =>
    refine Json.plain_object ["name", "required", "type"] rfl (by decide) ?_
    simp [Json.optionalText, Plain.string, Plain.bool]
  | some value =>
    refine Json.plain_object ["defaultValue", "name", "required", "type"] rfl (by decide) ?_
    simp [Json.optionalText, Plain.string, Plain.bool]

theorem Operation.plain_toJson (o : Operation) : Plain o.toJson := by
  have hparameters := Json.plain_array_map Parameter.plain_toJson o.parameters
  obtain ⟨name, description, parameters, outputType⟩ := o
  cases outputType with
  | none =>
    refine Json.plain_object ["description", "name", "parameters"] rfl (by decide) ?_
    simp [Json.optionalText, Plain.string, hparameters]
  | some type =>
    refine Json.plain_object ["description", "name", "outputType", "parameters"] rfl (by decide) ?_
    simp [Json.optionalText, Plain.string, hparameters]

theorem Configuration.plain_toJson (c : Configuration) : Plain c.toJson := by
  have hparameters := Json.plain_array_map Parameter.plain_toJson c.parameters
  refine Json.plain_object ["description", "name", "parameters"] rfl (by decide) ?_
  simp [Plain.string, hparameters]

theorem Extension.plain_toJson (e : Extension) : Plain e.toJson := by
  have hoperations := Json.plain_array_map Operation.plain_toJson e.operations
  have hconfigurations := Json.plain_array_map Configuration.plain_toJson e.configurations
  refine Json.plain_object ["category", "configurations", "description", "exportedTypes",
    "importedTypes", "name", "operations", "vendor", "version"] rfl (by decide) ?_
  simp [Plain.string, Json.plain_ofStrings, hoperations, hconfigurations]

namespace ExtensionSet

theorem plain_toJson (s : ExtensionSet) : Plain s.toJson :=
  Json.plain_array_map Extension.plain_toJson s.toList

theorem toJson_inj {s t : ExtensionSet} (h : s.toJson = t.toJson) : s = t := by
  have hlists : s.toList = t.toList :=
    List.map_injective_iff.2 (fun _ _ => Json.toJson_injective Extension.ofJson_toJson)
      (Json.array.inj h)
  exact ext_toList fun e => by rw [hlists]

/-- Without a collision, sets with the same fingerprint are the same. -/
theorem fingerprint_eq_iff {s t : ExtensionSet}
    (h : ¬ Digest.Collide s.toJson.print t.toJson.print) :
    s.fingerprint = t.fingerprint ↔ s = t := by
  refine ⟨fun hf => ?_, congrArg fingerprint⟩
  have htext : s.toJson.print = t.toJson.print := by
    by_contra hne
    exact h ⟨hne, hf⟩
  exact toJson_inj (s.plain_toJson.print_inj t.plain_toJson htext)

end ExtensionSet

/-! ### Equality of contexts -/

namespace ResolutionContext

theorem beq_of_fingerprint_eq {c d : ResolutionContext} (h : c.fingerprint = d.fingerprint) :
    (c == d) = true := by
  show (c.fingerprint == d.fingerprint) = true
  exact beq_iff_eq.2 h

theorem beq_ofSet_iff_eq {s t : ExtensionSet} (h : ¬ Digest.Collide s.toJson.print t.toJson.print) :
    (ofSet s == ofSet t) = true ↔ s = t := by
  show (s.fingerprint == t.fingerprint) = true ↔ s = t
  rw [beq_iff_eq, ExtensionSet.fingerprint_eq_iff h]

/-- **Contexts are equal exactly if their extensions are**, unless the digests of their texts
collide: if there are the same names, and equal extensions under each of them.  The order in which
extensions of distinct names were inserted does not count, and a context of no extensions is the
empty one. -/
theorem beq_ofSet_iff (ps qs : List Extension)
    (hdigest : ¬ Digest.Collide (ExtensionSet.ofList ps).toJson.print
      (ExtensionSet.ofList qs).toJson.print) :
    ((ofSet (.ofList ps) == ofSet (.ofList qs)) = true ↔
      (ExtensionSet.ofList ps).names = (ExtensionSet.ofList qs).names ∧
        ∀ name p q, (ExtensionSet.ofList ps).find? name = some p →
          (ExtensionSet.ofList qs).find? name = some q → (p == q) = true) ∧
    (∀ rs, rs.Perm ps → (ps.map (·.name)).Nodup →
      (ofSet (.ofList rs) == ofSet (.ofList ps)) = true) ∧
    ((∅ : ResolutionContext) == ofSet ∅) = true ∧
    ∀ name p q, (ExtensionSet.ofList ps).find? name = some p →
      (ExtensionSet.ofList qs).find? name = some q → p ≠ q →
        (ofSet (.ofList ps) == ofSet (.ofList qs)) = false := by
  have hiff := (beq_ofSet_iff_eq hdigest).trans ExtensionSet.eq_iff_names_eq
  refine ⟨?_, fun rs hperm hnames => ?_, beq_of_fingerprint_eq rfl, fun name p q hp hq hne => ?_⟩
  · simpa only [beq_iff_eq] using hiff
  · rw [ExtensionSet.ofList_eq_of_perm hperm hnames]
    exact beq_of_fingerprint_eq rfl
  · rw [Bool.eq_false_iff]
    exact fun heq => hne ((hiff.1 heq).2 name p q hp hq)

/-- Another vendor makes another context, and another order of insertion does not. -/
theorem beq_ofSet_of_vendor :
    (ofSet (.ofList [{ name := "a" }]) == ofSet (.ofList [{ name := "a", vendor := "b" }])) =
      false ∧
    (ofSet (.ofList [{ name := "b" }, { name := "a" }]) ==
      ofSet (.ofList [{ name := "a" }, { name := "b" }])) = true := by
  have hdigest : ¬ Digest.Collide (ExtensionSet.ofList [{ name := "a" }]).toJson.print
      (ExtensionSet.ofList [{ name := "a", vendor := "b" }]).toJson.print := by decide +kernel
  constructor
  · exact (beq_ofSet_iff _ _ hdigest).2.2.2 "a" _ _ rfl rfl (by decide)
  · exact (beq_ofSet_iff [{ name := "a" }, { name := "b" }] _ fun h => h.1 rfl).2.1 _
      (.swap _ _ []) (by decide)

end ResolutionContext

end PluginHost
