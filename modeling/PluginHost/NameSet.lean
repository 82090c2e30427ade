/-!
# Sets of names

A `NameSet` lists its names in strictly ascending order, so equal sets are equal values.
-/

namespace PluginHost

/-- Names in strictly ascending order. -/
structure NameSet where
  names : List String
  sorted : names.Pairwise (· < ·)
  deriving DecidableEq

namespace NameSet

/-- The list with `name` at its place; a name that is there already stays as it is. -/
def insertName (name : String) : List String → List String
  | [] => [name]
  | n :: rest =>
    if name < n then name :: n :: rest
    else if n < name then n :: insertName name rest
    else n :: rest

theorem mem_insertName {name n : String} {l : List String} :
    n ∈ insertName name l ↔ n = name ∨ n ∈ l := by
  induction l with
  | nil => simp [insertName]
  | cons m rest ih =>
    unfold insertName
    split
    · simp
    · split
      · simp [ih, or_left_comm]
      · rename_i hge hle
        have heq : m = name := String.le_antisymm (String.not_lt.1 hge) (String.not_lt.1 hle)
        simp [heq]

theorem pairwise_insertName (name : String) {l : List String} (h : l.Pairwise (· < ·)) :
    (insertName name l).Pairwise (· < ·) := by
  induction l with
  | nil => simp [insertName]
  | cons m rest ih =>
    have hm := List.pairwise_cons.1 h
    unfold insertName
    split
    · rename_i hlt
      refine List.pairwise_cons.2 ⟨fun n hn => ?_, h⟩
      rcases List.mem_cons.1 hn with rfl | hn
      · exact hlt
      · exact String.lt_trans hlt (hm.1 n hn)
    · split
      · rename_i hgt
        refine List.pairwise_cons.2 ⟨fun n hn => ?_, ih hm.2⟩
        rcases mem_insertName.1 hn with rfl | hn
        · exact hgt
        · exact hm.1 n hn
      · exact h

/-- The set without names. -/
def empty : NameSet := ⟨[], List.Pairwise.nil⟩

instance : EmptyCollection NameSet := ⟨empty⟩

instance : Inhabited NameSet := ⟨empty⟩

instance : Membership String NameSet := ⟨fun s name => name ∈ s.names⟩

instance (name : String) (s : NameSet) : Decidable (name ∈ s) :=
  inferInstanceAs (Decidable (name ∈ s.names))

/-- The set with one more name. -/
def insert (s : NameSet) (name : String) : NameSet :=
  ⟨insertName name s.names, pairwise_insertName name s.sorted⟩

/-- The set of the names in a list. -/
def ofList (l : List String) : NameSet := l.foldl insert empty

@[simp]
theorem mem_insert {s : NameSet} {name n : String} : n ∈ s.insert name ↔ n = name ∨ n ∈ s :=
  mem_insertName

theorem mem_foldl_insert {l : List String} {s : NameSet} {n : String} :
    n ∈ l.foldl insert s ↔ n ∈ s ∨ n ∈ l := by
  induction l generalizing s with
  | nil => simp
  | cons m rest ih =>
    simp only [List.foldl_cons, ih, mem_insert, List.mem_cons]
    exact ⟨fun h => h.elim (fun h => h.elim (fun h => .inr (.inl h)) .inl) (fun h => .inr (.inr h)),
      fun h => h.elim (fun h => .inl (.inr h)) (fun h => h.elim (fun h => .inl (.inl h)) .inr)⟩

@[simp]
theorem mem_ofList {l : List String} {n : String} : n ∈ ofList l ↔ n ∈ l := by
  have h : ¬ n ∈ empty := fun h => nomatch h
  simp [ofList, mem_foldl_insert, h]

/-- Sets with the same members are the same. -/
theorem ext_mem {s t : NameSet} (h : ∀ n, n ∈ s ↔ n ∈ t) : s = t := by
  have nodup {l : List String} (hl : l.Pairwise (· < ·)) : l.Nodup :=
    hl.imp fun {a b} hab => by
      rintro rfl
      exact String.lt_irrefl _ hab
  have hperm : s.names.Perm t.names :=
    (List.perm_ext_iff_of_nodup (nodup s.sorted) (nodup t.sorted)).2 fun {n} => h n
  -- two ascending rows of the same names are one row
  have he : s.names = t.names :=
    hperm.eq_of_pairwise (fun a b _ _ hab hba => absurd hba (String.lt_asymm hab)) s.sorted t.sorted
  obtain ⟨l, hl⟩ := s
  obtain ⟨l', hl'⟩ := t
  simpa using he

/-- A set is that of its names. -/
theorem ofList_names (s : NameSet) : ofList s.names = s :=
  ext_mem fun _ => mem_ofList

end NameSet

end PluginHost
