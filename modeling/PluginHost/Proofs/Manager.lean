import PluginHost.Manager
import PluginHost.Proofs.Extension.Set

/-!
# What registration does to a manager

Registering an extension always succeeds, and puts the newest of two extensions of a name in its
place (`Manager.outcome_register`).  Registering
extensions of distinct names merges them into the manager name by name
(`Manager.find?_registerAll`), and registering them once more changes nothing
(`Manager.registerAll_registerAll`).
-/

namespace PluginHost

/-! ### Newer version texts -/

namespace Version

/-- Whether a version text is newer than another: it stands for a version, and the other stands
for a lower one or for none. -/
def Supersedes (candidate registered : String) : Prop :=
  ∃ v, parse? candidate = some v ∧ ∀ w, parse? registered = some w → w < v

theorem lt_irrefl (v : Version) : ¬ v < v := by
  show ¬ v.before v = true
  simp [before]

theorem not_supersedes_self (text : String) : ¬ Supersedes text text :=
  fun ⟨v, hv, h⟩ => lt_irrefl v (h v hv)

end Version

namespace Manager

theorem ranksAbove_iff {candidate registered : String} :
    ranksAbove candidate registered = true ↔ Version.Supersedes candidate registered := by
  unfold ranksAbove Version.Supersedes
  cases Version.parse? candidate with
  | none => simp
  | some v => cases Version.parse? registered <;> simp [Version.isNewerThan]

end Manager

instance (candidate registered : String) : Decidable (Version.Supersedes candidate registered) :=
  decidable_of_iff _ Manager.ranksAbove_iff

namespace Manager

/-! ### One extension -/

/-- The extension that stays of the registered one, if there is one, and a new one. -/
def newest (registered : Option Extension) (e : Extension) : Extension :=
  match registered with
  | none => e
  | some held => if Version.Supersedes e.version held.version then e else held

/-- The manager with the newest of an extension and the registered one of its name. -/
def settled (m : Manager) (e : Extension) : Manager :=
  { m with extensions := m.extensions.insert e.name (newest (m.find? e.name) e) }

theorem find?_settled (m : Manager) (e : Extension) (name : String) :
    (m.settled e).find? name =
      if name = e.name then some (newest (m.find? e.name) e) else m.find? name :=
  KeyMap.find?_insert ..

theorem ext_find? {m n : Manager} (h : ∀ name, m.find? name = n.find? name) : m = n := by
  have he : m.extensions = n.extensions := KeyMap.ext_find? h
  cases m
  cases n
  exact congrArg Manager.mk he

theorem settled_eq_self {m : Manager} {e held : Extension} (h : m.find? e.name = some held)
    (hs : ¬ Version.Supersedes e.version held.version) : m.settled e = m := by
  refine ext_find? fun name => ?_
  rw [find?_settled, h]
  by_cases hn : name = e.name
  · rw [if_pos hn, hn, h]
    simp [newest, hs]
  · rw [if_neg hn]

/-- **Registering an extension** always succeeds. -/
theorem outcome_register (m : Manager) (e : Extension) :
    (m.register (some e)).outcome = .ok (m.settled e) := by
  simp only [register, settle]
  split
  · next hf =>
    -- the name is free
    show Except.ok (m.put e) = _
    simp only [put, settled, hf, newest]
  · next held hf =>
    by_cases hv : held.version = e.version
    · have hs : ¬ Version.Supersedes e.version held.version :=
        hv ▸ Version.not_supersedes_self _
      simp only [hv, ↓reduceIte]
      exact congrArg Except.ok (settled_eq_self hf hs).symm
    · by_cases hs : Version.Supersedes e.version held.version
      · simp only [hv, ↓reduceIte, ranksAbove_iff.2 hs]
        show Except.ok (m.put e) = _
        simp only [put, settled, hf, newest, hs, ↓reduceIte]
      · simp only [hv, ↓reduceIte, mt ranksAbove_iff.1 hs]
        exact congrArg Except.ok (settled_eq_self hf hs).symm

/-! ### Several extensions -/

/-- The manager with the newest of each extension of a list and those registered before. -/
def registerAll (m : Manager) (l : List Extension) : Manager := l.foldl settled m

theorem registerEach_spec (m : Manager) (l : List Extension) :
    (m.registerEach l).1 = m.registerAll l ∧ (m.registerEach l).2.outcome = .ok () := by
  induction l generalizing m with
  | nil => exact ⟨rfl, rfl⟩
  | cons e rest ih =>
    obtain ⟨hlast, hothers⟩ := ih (m.settled e)
    unfold registerEach
    simp only [outcome_register m e]
    refine ⟨hlast, ?_⟩
    rw [Traced.outcome_bind_of_ok _ (outcome_register m e), hothers]

theorem find?_registerAll {l : List Extension} (hl : (l.map (·.name)).Nodup) (m : Manager)
    (name : String) :
    (m.registerAll l).find? name =
      match l.find? (·.name = name) with
      | none => m.find? name
      | some e => some (newest (m.find? name) e) := by
  induction l generalizing m with
  | nil => rfl
  | cons e rest ih =>
    obtain ⟨hne, hrest⟩ := List.nodup_cons.1 (List.map_cons ▸ hl)
    show ((m.settled e).registerAll rest).find? name = _
    rw [ih hrest, List.find?_cons, find?_settled]
    by_cases hn : name = e.name
    · subst hn
      -- no later extension has the name
      have hnone : rest.find? (·.name = e.name) = none := find?_eq_none_of_notMem_keys hne
      simp [hnone]
    · simp [hn, Ne.symm hn]

/-- Nothing changes if no extension of a list is newer than the registered one of its name. -/
theorem registerAll_eq_self {m : Manager} {l : List Extension}
    (h : ∀ e ∈ l, ∃ held, m.find? e.name = some held ∧
      ¬ Version.Supersedes e.version held.version) : m.registerAll l = m := by
  induction l with
  | nil => rfl
  | cons e rest ih =>
    obtain ⟨held, hf, hs⟩ := h e List.mem_cons_self
    show (m.settled e).registerAll rest = m
    rw [settled_eq_self hf hs]
    exact ih fun x hx => h x (List.mem_cons_of_mem _ hx)

theorem not_supersedes_newest (registered : Option Extension) (e : Extension) :
    ¬ Version.Supersedes e.version (newest registered e).version := by
  unfold newest
  split
  · exact Version.not_supersedes_self _
  · split
    · exact Version.not_supersedes_self _
    · assumption

/-- **Registering the same extensions again changes nothing.** -/
theorem registerAll_registerAll {l : List Extension} (hl : (l.map (·.name)).Nodup) (m : Manager) :
    (m.registerAll l).registerAll l = m.registerAll l := by
  refine registerAll_eq_self fun e he => ?_
  refine ⟨newest (m.find? e.name) e, ?_, not_supersedes_newest _ e⟩
  rw [find?_registerAll hl, Extension.find?_name_of_mem hl he]

end Manager

end PluginHost
