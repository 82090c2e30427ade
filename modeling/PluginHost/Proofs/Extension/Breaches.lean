import Mathlib.Data.List.Perm.Basic
import PluginHost.Proofs.Extension.Validation

/-!
# One problem for each breach

`Extension.breaches` lists what breaks the rules for an extension, rule by rule: what is repeated is
an element of a list whose name an earlier element has, wherever it stands.  Validation reports
exactly these breaches, each of them once (`Extension.problems_complete`).
-/

namespace PluginHost

variable {α : Type}

/-- The elements of a list whose key an earlier element has. -/
def repeated (key : α → String) (l : List α) : List α :=
  (l.zipIdx.filter fun x => decide (key x.1 ∈ (l.take x.2).map key)).map (·.1)

theorem repeated_concat (key : α → String) (l : List α) (a : α) :
    repeated key (l ++ [a]) = repeated key l ++ if key a ∈ l.map key then [a] else [] := by
  have hbefore : ∀ x ∈ l.zipIdx, decide (key x.1 ∈ ((l ++ [a]).take x.2).map key) =
      decide (key x.1 ∈ (l.take x.2).map key) := by
    intro x hx
    have hlt : x.2 < l.length := by simpa using List.snd_lt_add_of_mem_zipIdx hx
    rw [List.take_append_of_le_length (Nat.le_of_lt hlt)]
  unfold repeated
  rw [List.zipIdx_append, List.filter_append, List.map_append, List.filter_congr hbefore]
  congr 1
  by_cases h : key a ∈ l.map key
  · simp [h]
  · simp [h]

example : repeated id ["a", "b", "a", "a"] = ["a", "a"] := by decide

/-! ### The breaches -/

/-- The parameters without a name. -/
def Parameter.unnamed (parameters : List Parameter) : List Parameter :=
  parameters.filter (·.name = "")

/-- The parameters that have a name, which an earlier one has, too. -/
def Parameter.namesakes (parameters : List Parameter) : List Parameter :=
  (repeated (·.name) parameters).filter (·.name ≠ "")

/-- The breaches of the rules on the parameters of an operation or configuration. -/
def Parameter.breaches (owner : String) (parameters : List Parameter) : List Problem :=
  (namesakes parameters).map (.repeatedParameter owner ·.name) ++
    (unnamed parameters).map fun _ => .unnamedParameter owner

/-- The breaches of the rules on operations. -/
def Operation.breaches (operations : List Operation) : List Problem :=
  (repeated (·.name) operations).map (.repeatedOperation ·.name) ++
    operations.flatMap fun o => Parameter.breaches s!"operation '{o.name}'" o.parameters

/-- The breaches of the rules on configurations. -/
def Configuration.breaches (configurations : List Configuration) : List Problem :=
  (repeated (·.name) configurations).map (.repeatedConfiguration ·.name) ++
    configurations.flatMap fun c => Parameter.breaches s!"configuration '{c.name}'" c.parameters

/-! ### What a pass reports -/

open scoped List in
/-- A pass over a list that keeps the keys seen so far reports each repeated element once, besides
what it reports of each element by itself. -/
theorem perm_of_pass (key : α → String) (again : α → Problem) (own : α → List Problem)
    (pass : List String → List α → List Problem) (hnil : ∀ seen, pass seen [] = [])
    (hcons : ∀ seen a rest, pass seen (a :: rest) =
      (if key a ∈ seen then [again a] else []) ++ own a ++ pass (key a :: seen) rest)
    (before rest : List α) (seen : List String)
    (hseen : ∀ name, name ∈ seen ↔ name ∈ before.map key) :
    ((repeated key before).map again ++ pass seen rest).Perm
      ((repeated key (before ++ rest)).map again ++ rest.flatMap own) := by
  induction rest generalizing before seen with
  | nil => simp [hnil]
  | cons a rest ih =>
    have hrest := ih (before ++ [a]) (key a :: seen) fun name => by simp [hseen, or_comm]
    rw [repeated_concat, List.map_append, List.append_assoc before, List.singleton_append] at hrest
    have hagain : (if key a ∈ before.map key then [a] else []).map again =
        if key a ∈ seen then [again a] else [] := by
      simp only [← hseen]
      split <;> rfl
    rw [hagain, List.append_assoc] at hrest
    rw [hcons, List.flatMap_cons]
    generalize (repeated key before).map again = reported at hrest ⊢
    generalize (if key a ∈ seen then [again a] else []) = now at hrest ⊢
    calc reported ++ (now ++ own a ++ pass (key a :: seen) rest)
      _ = reported ++ now ++ (own a ++ pass (key a :: seen) rest) := by simp
      _ ~ own a ++ (reported ++ now ++ pass (key a :: seen) rest) :=
        List.perm_append_comm_assoc _ _ _
      _ = own a ++ (reported ++ (now ++ pass (key a :: seen) rest)) := by simp
      _ ~ own a ++ ((repeated key (before ++ a :: rest)).map again ++ rest.flatMap own) :=
        hrest.append_left _
      _ ~ (repeated key (before ++ a :: rest)).map again ++ (own a ++ rest.flatMap own) :=
        List.perm_append_comm_assoc _ _ _

namespace Parameter

theorem namesakes_concat (parameters : List Parameter) (p : Parameter) :
    namesakes (parameters ++ [p]) = namesakes parameters ++
      if p.name ≠ "" ∧ p.name ∈ parameters.map (·.name) then [p] else [] := by
  unfold namesakes
  rw [repeated_concat, List.filter_append]
  congr 1
  by_cases hname : p.name = ""
  · rw [if_neg (not_and_of_not_left _ (not_not_intro hname))]
    split
    · simp [hname]
    · rfl
  · by_cases hmem : p.name ∈ parameters.map (·.name)
    · rw [if_pos hmem, if_pos ⟨hname, hmem⟩]
      simp [hname]
    · rw [if_neg hmem, if_neg fun h => hmem h.2]
      rfl

/-- Whether `seen` holds the names of the parameters in `before`. -/
def Noted (seen : List String) (before : List Parameter) : Prop :=
  ∀ name, name ∈ seen ↔ name ≠ "" ∧ name ∈ before.map (·.name)

section Noted

variable {seen : List String} {before : List Parameter} {p : Parameter}

theorem Noted.unnamed (h : Noted seen before) (hname : p.name = "") :
    Noted seen (before ++ [p]) := by
  intro name
  simp only [h name, List.map_append, List.map_singleton, List.mem_append, List.mem_singleton]
  exact ⟨fun hn => ⟨hn.1, .inl hn.2⟩,
    fun hn => ⟨hn.1, hn.2.resolve_right fun he => hn.1 (he.trans hname)⟩⟩

theorem Noted.again (h : Noted seen before) (hmem : p.name ∈ seen) :
    Noted seen (before ++ [p]) := by
  intro name
  simp only [h name, List.map_append, List.map_singleton, List.mem_append, List.mem_singleton]
  exact ⟨fun hn => ⟨hn.1, .inl hn.2⟩,
    fun hn => ⟨hn.1, hn.2.elim id fun he => he ▸ ((h p.name).1 hmem).2⟩⟩

theorem Noted.named (h : Noted seen before) (hname : p.name ≠ "") :
    Noted (p.name :: seen) (before ++ [p]) := by
  intro name
  simp only [h name, List.mem_cons, List.map_append, List.map_singleton, List.mem_append,
    List.not_mem_nil, or_false]
  constructor
  · rintro (rfl | hn)
    · exact ⟨hname, .inr rfl⟩
    · exact ⟨hn.1, .inl hn.2⟩
  · rintro ⟨hne, hn | rfl⟩
    · exact .inr ⟨hne, hn⟩
    · exact .inl rfl

end Noted

/-- The pass over the parameters of one owner, of which those in `before` are done. -/
theorem perm_problems (owner : String) (before rest : List Parameter) (seen : List String)
    (hseen : Noted seen before) :
    ((namesakes before).map (Problem.repeatedParameter owner ·.name) ++
        problems owner seen rest).Perm
      ((namesakes (before ++ rest)).map (Problem.repeatedParameter owner ·.name) ++
        (unnamed rest).map fun _ => Problem.unnamedParameter owner) := by
  induction rest generalizing before seen with
  | nil => simp [problems, unnamed]
  | cons p rest ih =>
    have hrest := ih (before ++ [p])
    rw [namesakes_concat, List.append_assoc before, List.singleton_append] at hrest
    unfold problems
    split
    · next hname =>
      have hunnamed : unnamed (p :: rest) = p :: unnamed rest := by simp [unnamed, hname]
      have hmore := hrest seen (hseen.unnamed hname)
      rw [if_neg fun h => h.1 hname, List.append_nil] at hmore
      rw [hunnamed, List.map_cons]
      exact List.perm_middle.trans ((hmore.cons _).trans List.perm_middle.symm)
    · next hname =>
      have hunnamed : unnamed (p :: rest) = unnamed rest := by simp [unnamed, hname]
      rw [hunnamed]
      split
      · next hmem =>
        have hmore := hrest seen (hseen.again hmem)
        rw [if_pos ((hseen p.name).1 hmem), List.map_append, List.append_assoc] at hmore
        exact hmore
      · next hmem =>
        have hmore := hrest (p.name :: seen) (hseen.named hname)
        rw [if_neg fun h => hmem ((hseen p.name).2 h), List.append_nil] at hmore
        exact hmore

/-- The parameters of one owner are reported for exactly what they breach. -/
theorem perm_breaches (owner : String) (parameters : List Parameter) :
    (problems owner [] parameters).Perm (breaches owner parameters) :=
  perm_problems owner [] parameters [] fun name => by simp

@[simp] theorem length_breaches (owner : String) (parameters : List Parameter) :
    (breaches owner parameters).length =
      (namesakes parameters).length + (unnamed parameters).length := by
  simp [breaches]

end Parameter

theorem length_flatMap_breaches (owner : α → String) (parameters : α → List Parameter)
    (l : List α) :
    (l.flatMap fun a => Parameter.breaches (owner a) (parameters a)).length =
      (l.flatMap fun a => Parameter.unnamed (parameters a)).length +
        (l.flatMap fun a => Parameter.namesakes (parameters a)).length := by
  induction l with
  | nil => rfl
  | cons a rest ih =>
    simp only [List.flatMap_cons, List.length_append, Parameter.length_breaches, ih]
    omega

theorem Operation.perm_breaches (operations : List Operation) :
    (listProblems [] operations).Perm (breaches operations) := by
  have hpass := perm_of_pass name (.repeatedOperation ·.name) problems listProblems
    (fun _ => rfl) (fun _ _ _ => rfl) [] operations [] (by simp)
  exact hpass.trans <| .append_left _ <| .flatMap_left _ fun o _ =>
    Parameter.perm_breaches _ o.parameters

theorem Configuration.perm_breaches (configurations : List Configuration) :
    (listProblems [] configurations).Perm (breaches configurations) := by
  have hpass := perm_of_pass name (.repeatedConfiguration ·.name) problems listProblems
    (fun _ => rfl) (fun _ _ _ => rfl) [] configurations [] (by simp)
  exact hpass.trans <| .append_left _ <| .flatMap_left _ fun c _ =>
    Parameter.perm_breaches _ c.parameters

/-! ### What validation reports -/

namespace Extension

/-- The lists of parameters of all operations and configurations, the repeated ones included. -/
def parameterLists (e : Extension) : List (List Parameter) :=
  e.operations.map (·.parameters) ++ e.configurations.map (·.parameters)

/-- The imported types that neither the extension itself exports nor the context resolves. -/
def unresolvedImports (e : Extension) (context : ResolutionContext) : List String :=
  e.importedTypes.names.filter fun type =>
    type ∉ e.exportedTypes ∧ context.resolveType type = none

theorem importProblems_eq (e : Extension) (context : ResolutionContext) :
    e.importProblems context = (e.unresolvedImports context).map .unresolvedImport := by
  unfold importProblems unresolvedImports
  congr 1
  refine List.filter_congr fun type _ => ?_
  cases context.resolveType type <;> simp

/-- The breaches of all rules. -/
def breaches (e : Extension) (context : ResolutionContext) : List Problem :=
  (if e.name = "" then [.emptyName] else []) ++
    (if Version.isValid e.version then [] else [.invalidVersion e.version]) ++
    Operation.breaches e.operations ++ Configuration.breaches e.configurations ++
    (e.unresolvedImports context).map .unresolvedImport

theorem perm_breaches (e : Extension) (context : ResolutionContext) :
    (e.problems context).Perm (e.breaches context) := by
  unfold problems breaches
  rw [importProblems_eq]
  have hoperations := Operation.perm_breaches e.operations
  have hconfigurations := Configuration.perm_breaches e.configurations
  exact ((hoperations.append_left _).append hconfigurations).append_right _

theorem length_breaches (e : Extension) (context : ResolutionContext) :
    (e.breaches context).length =
      (if e.name = "" then 1 else 0) + (if Version.isValid e.version then 0 else 1) +
        (repeated (·.name) e.operations).length + (repeated (·.name) e.configurations).length +
        (e.parameterLists.flatMap Parameter.unnamed).length +
        (e.parameterLists.flatMap Parameter.namesakes).length +
        (e.unresolvedImports context).length := by
  have hname : (if e.name = "" then [Problem.emptyName] else []).length =
      if e.name = "" then 1 else 0 := by split <;> rfl
  have hversion : (if Version.isValid e.version then [] else
      [Problem.invalidVersion e.version]).length = if Version.isValid e.version then 0 else 1 := by
    split <;> rfl
  simp only [breaches, Operation.breaches, Configuration.breaches, parameterLists,
    List.length_append, List.length_map, List.flatMap_append, List.flatMap_map,
    length_flatMap_breaches, hname, hversion]
  omega

theorem unresolvedImport_mem_problems_iff {e : Extension} {context : ResolutionContext}
    {type : String} :
    .unresolvedImport type ∈ e.problems context ↔ type ∈ e.unresolvedImports context := by
  rw [(e.perm_breaches context).mem_iff]
  simp [breaches, Operation.breaches, Configuration.breaches, Parameter.breaches]

/-- **Validation reports each breach once**: the problems are the breaches, in the order in which
the passes find them, so there are as many as the rules count.  An extension is accepted exactly if
it keeps all rules, and if not, it is refused with the list of its problems. -/
theorem problems_complete (e : Extension) (context : ResolutionContext) :
    (e.problems context).Perm (e.breaches context) ∧
    (e.problems context).length =
      (if e.name = "" then 1 else 0) + (if Version.isValid e.version then 0 else 1) +
        (repeated (·.name) e.operations).length + (repeated (·.name) e.configurations).length +
        (e.parameterLists.flatMap Parameter.unnamed).length +
        (e.parameterLists.flatMap Parameter.namesakes).length +
        (e.unresolvedImports context).length ∧
    (e.validate context = .ok () ↔ e.WellFormed context) ∧
    (e.validate context = .error (.configuration (.invalidDefinition e.name (e.problems context))) ↔
      ¬ e.WellFormed context) := by
  have hperm := e.perm_breaches context
  refine ⟨hperm, hperm.length_eq.trans (e.length_breaches context), ?_, ?_⟩
  · rw [validate_eq_ok_iff, problems_eq_nil_iff]
  · rw [← problems_eq_nil_iff]
    unfold validate
    cases e.problems context <;> simp

end Extension

end PluginHost
