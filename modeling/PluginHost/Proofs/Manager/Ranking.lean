import Mathlib.Data.List.MinMax
import Mathlib.Data.List.ReduceOption
import Mathlib.Data.Prod.Lex
import Mathlib.Order.WithBot
import PluginHost.Proofs.Manager

/-!
# Which extension a manager holds

Of all extensions of a name that were registered, a manager holds the earliest one of the highest
rank (`Manager.find?_registerAll_empty`).  The rank of a version text is its place in one linear
order (`Version.rank`): texts that are no versions come first, and versions are ordered by their
numbers from left to right.  So the rank that is held for a name only grows, does not depend on
the order of registration, and nothing changes if an extension is registered once more
(`Manager.holds_highest`).
-/

namespace PluginHost

namespace Version

/-! ### Ranks -/

/-- The numbers of a version, ordered from left to right. -/
def numbers (v : Version) : ℕ ×ₗ ℕ ×ₗ ℕ :=
  toLex (v.major.toNat, toLex (v.minor.toNat, v.patch.toNat))

/-- The place of a version text among all texts: that of its numbers, or below all numbers if it
stands for no version. -/
def rank (text : String) : WithBot (ℕ ×ₗ ℕ ×ₗ ℕ) :=
  match parse? text with
  | none => ⊥
  | some v => v.numbers

theorem lt_iff_numbers_lt {v w : Version} : v < w ↔ v.numbers < w.numbers := by
  show v.before w = true ↔ _
  simp only [before, numbers, Prod.Lex.toLex_lt_toLex, ne_eq, ← UInt16.toNat_inj,
    UInt16.lt_iff_toNat_lt]
  split_ifs with hmajor hminor <;> simp [*]

theorem supersedes_iff_rank_lt {candidate registered : String} :
    Supersedes candidate registered ↔ rank registered < rank candidate := by
  unfold Supersedes rank
  cases parse? candidate with
  | none => simp
  | some v => cases parse? registered <;> simp [lt_iff_numbers_lt]

end Version

namespace Manager

/-- The rank of an extension's version. -/
abbrev rankOf (e : Extension) : WithBot (ℕ ×ₗ ℕ ×ₗ ℕ) := Version.rank e.version

/-! ### What is held after a list of extensions -/

theorem registerAll_concat (m : Manager) (l : List Extension) (e : Extension) :
    m.registerAll (l ++ [e]) = (m.registerAll l).settled e :=
  List.foldl_concat ..

/-- **A manager that was empty holds, under each name, the first extension of the highest rank**
of those of the name.  By induction on the list from its end. -/
theorem find?_registerAll_empty (l : List Extension) (name : String) :
    (registerAll ∅ l).find? name = (l.filter (·.name = name)).argmax rankOf := by
  induction l using List.reverseRecOn with
  | nil => rfl
  | append_singleton l e ih =>
    rw [registerAll_concat, find?_settled, List.filter_append]
    by_cases hn : name = e.name
    · subst hn
      have hlast : [e].filter (·.name = e.name) = [e] := by simp
      rw [if_pos rfl, hlast, List.argmax_concat, ih]
      cases (l.filter (·.name = e.name)).argmax rankOf with
      | none => rfl
      | some held => simp only [newest, Version.supersedes_iff_rank_lt, apply_ite some]
    · have hlast : [e].filter (·.name = name) = [] := by simp [Ne.symm hn]
      rw [if_neg hn, hlast, List.append_nil, ih]

variable {l l' : List Extension} {name : String} {e : Extension}

theorem find?_registerAll_empty_eq_none :
    (registerAll ∅ l).find? name = none ↔ ∀ e ∈ l, e.name ≠ name := by
  rw [find?_registerAll_empty, List.argmax_eq_none, List.filter_eq_nil_iff]
  simp

theorem mem_of_find?_registerAll (h : (registerAll ∅ l).find? name = some e) :
    e ∈ l ∧ e.name = name := by
  rw [find?_registerAll_empty] at h
  simpa using List.argmax_mem h

theorem le_of_find?_registerAll (h : (registerAll ∅ l).find? name = some e) {x : Extension}
    (hx : x ∈ l) (hn : x.name = name) : rankOf x ≤ rankOf e := by
  rw [find?_registerAll_empty] at h
  exact List.le_of_mem_argmax (by simp [hx, hn]) h

/-! ### The rank that is held -/

/-- The rank of the extension that is held under a name; below all ranks if there is none. -/
def heldRank (m : Manager) (name : String) : WithBot (WithBot (ℕ ×ₗ ℕ ×ₗ ℕ)) :=
  match m.find? name with
  | none => ⊥
  | some e => rankOf e

theorem heldRank_mono (h : l ⊆ l') (name : String) :
    (registerAll ∅ l).heldRank name ≤ (registerAll ∅ l').heldRank name := by
  unfold heldRank
  cases hl : (registerAll ∅ l).find? name with
  | none => exact bot_le
  | some e =>
    obtain ⟨he, hn⟩ := mem_of_find?_registerAll hl
    cases hl' : (registerAll ∅ l').find? name with
    | none => exact absurd hn (find?_registerAll_empty_eq_none.1 hl' e (h he))
    | some e' => exact WithBot.coe_le_coe.2 (le_of_find?_registerAll hl' (h he) hn)

theorem settled_registerAll (he : e ∈ l) : (registerAll ∅ l).settled e = registerAll ∅ l := by
  cases hl : (registerAll ∅ l).find? e.name with
  | none => exact absurd rfl (find?_registerAll_empty_eq_none.1 hl e he)
  | some held =>
    refine settled_eq_self hl fun hs => ?_
    exact not_lt_of_ge (le_of_find?_registerAll hl he rfl) (Version.supersedes_iff_rank_lt.1 hs)

/-! ### Calls, of which some may fail -/

theorem register_eq_error_iff {m : Manager} {call : Option Extension} {failure : Failure} :
    (m.register call).outcome = .error failure ↔
      call = none ∧ failure = .invalidArgument "Cannot register a null extension model" := by
  cases call with
  | none => simp [register, eq_comm]
  | some e => simp [outcome_register]

/-- The manager after calls that register extensions, one after the other.  A call that fails
leaves the manager as it is. -/
def afterCalls (m : Manager) (calls : List (Option Extension)) : Manager :=
  calls.foldl (fun m call => (m.register call).leaves m) m

/-- Calls that fail count for nothing. -/
theorem afterCalls_eq_registerAll (m : Manager) (calls : List (Option Extension)) :
    m.afterCalls calls = m.registerAll calls.reduceOption := by
  induction calls generalizing m with
  | nil => rfl
  | cons call rest ih =>
    show ((m.register call).leaves m).afterCalls rest = _
    cases call with
    | none =>
      rw [Traced.leaves_of_error (register_eq_error_iff.2 ⟨rfl, rfl⟩), ih,
        List.reduceOption_cons_of_none]
    | some e =>
      rw [Traced.leaves_of_ok (outcome_register m e), ih (m.settled e),
        List.reduceOption_cons_of_some]
      rfl

/-! ### What is listed -/

/-- Where extensions are held under their own names, each is listed once, by ascending name. -/
theorem toList_of_named {m : Manager} (h : ∀ name e, m.find? name = some e → e.name = name) :
    (m.toList.map (·.name)).Pairwise (· < ·) ∧
      ∀ e, e ∈ m.toList ↔ m.find? e.name = some e := by
  have hnamed : ∀ entry ∈ m.extensions.entries, entry.2.name = entry.1 := fun entry he =>
    h entry.1 entry.2 (KeyMap.find?_eq_some_iff.2 he)
  refine ⟨?_, fun e => ⟨fun he => ?_, fun he => ?_⟩⟩
  · have hkeys : m.toList.map (·.name) = m.extensions.keys := by
      simp only [toList, KeyMap.values, KeyMap.keys, List.map_map]
      exact List.map_congr_left hnamed
    rw [hkeys]
    exact m.extensions.pairwise_keys
  · obtain ⟨entry, hentry, rfl⟩ := List.mem_map.1 he
    rw [hnamed entry hentry]
    exact KeyMap.find?_eq_some_iff.2 hentry
  · exact List.mem_map.2 ⟨_, KeyMap.find?_eq_some_iff.1 he, rfl⟩

/-- **What calls on a manager that was empty leave in it.**  A call fails exactly if no extension
is given, and then changes nothing.  Under a name nothing is held exactly if nothing of the name
was registered, and otherwise the earliest extension of the highest rank.  So the rank that is
held for a name never falls, and is the same for every order of the calls; an extension that was
registered changes nothing when it is registered again; and one extension for each name is listed,
by strictly ascending name. -/
theorem holds_highest (calls : List (Option Extension)) :
    ((∀ call failure, ((afterCalls ∅ calls).register call).outcome = .error failure ↔
        call = none ∧ failure = .invalidArgument "Cannot register a null extension model") ∧
      afterCalls ∅ (calls ++ [none]) = afterCalls ∅ calls) ∧
    (∀ name, ((afterCalls ∅ calls).find? name = none ↔ ∀ e, some e ∈ calls → e.name ≠ name) ∧
      (afterCalls ∅ calls).find? name =
        (calls.reduceOption.filter (·.name = name)).argmax rankOf) ∧
    (∀ more name,
      (afterCalls ∅ calls).heldRank name ≤ (afterCalls ∅ (calls ++ more)).heldRank name) ∧
    (∀ reordered, calls.Perm reordered → ∀ name,
      (afterCalls ∅ reordered).heldRank name = (afterCalls ∅ calls).heldRank name) ∧
    (∀ e, some e ∈ calls → afterCalls ∅ (calls ++ [some e]) = afterCalls ∅ calls) ∧
    ((afterCalls ∅ calls).toList.map (·.name)).Pairwise (· < ·) ∧
    ∀ e, e ∈ (afterCalls ∅ calls).toList ↔ (afterCalls ∅ calls).find? e.name = some e := by
  simp only [afterCalls_eq_registerAll, List.reduceOption_append]
  have hmem : ∀ e, some e ∈ calls ↔ e ∈ calls.reduceOption := fun e =>
    List.reduceOption_mem_iff.symm
  refine ⟨⟨fun call failure => register_eq_error_iff, ?_⟩,
    fun name => ⟨?_, find?_registerAll_empty _ name⟩,
    fun more name => heldRank_mono (List.subset_append_left _ _) name,
    fun reordered hp name => ?_, fun e he => ?_,
    toList_of_named fun name e he => (mem_of_find?_registerAll he).2⟩
  · simp
  · simp only [find?_registerAll_empty_eq_none, hmem]
  · have hp' : calls.reduceOption.Perm reordered.reduceOption := hp.filterMap id
    exact le_antisymm (heldRank_mono hp'.symm.subset name) (heldRank_mono hp'.subset name)
  · rw [List.reduceOption_singleton]
    exact (registerAll_concat _ _ e).trans (settled_registerAll ((hmem e).1 he))

/-- Texts of one rank: the earlier extension stays, and its vendor shows that it does. -/
example :
    ((afterCalls ∅ [some { name := "Http", version := "x" },
      some { name := "Http", version := "1.0", vendor := "first" }, none,
      some { name := "Http", version := "1.0.0-beta", vendor := "second" }]).find? "Http").map
        (·.vendor) = some "first" := by
  decide

end Manager

end PluginHost
