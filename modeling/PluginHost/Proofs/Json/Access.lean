import PluginHost.Extension.Codec
import PluginHost.Proofs.Except

/-!
# What accessors accept

The decoders of this library are put together from accessors.  An accessor succeeds exactly if
there is a value of the right kind (`member_eq_ok_iff`, `memberD_eq_ok_iff`,
`memberText?_eq_ok_iff`, `memberList_eq_ok_iff`), and fails with a fault of the value and not of a
text (`Accesses`).  `Has` and `MayHave` say what members an object has to have and may have;
`Gives` says what the member that is there, or the lack of it, stands for.
-/

namespace PluginHost.Json

variable {α β : Type} {key : String} {j v : Json}

/-! ### Kinds of values -/

/-- Whether a value is a text. -/
def IsText (j : Json) : Prop := ∃ text, j = string text

/-- Whether a value is a truth value. -/
def IsTruth (j : Json) : Prop := ∃ value, j = bool value

/-- Whether a value is an object. -/
def IsObject (j : Json) : Prop := ∃ members, j = object members

/-- Whether a value is an object with values of one kind. -/
def IsMapOf (P : Json → Prop) (j : Json) : Prop :=
  ∃ members, j = object members ∧ ∀ m ∈ members, P m.2

/-- Whether a value is `null`, or an array or an object with elements of one kind. -/
inductive IsListOf (P : Json → Prop) : Json → Prop
  | null : IsListOf P null
  | array {items : List Json} (h : ∀ item ∈ items, P item) : IsListOf P (array items)
  | object {members : List (String × Json)} (h : ∀ m ∈ members, P m.2) :
      IsListOf P (object members)

/-- Whether a value is a list of texts, for which a text by itself counts as well. -/
def IsTexts (j : Json) : Prop := j.IsText ∨ IsListOf IsText j

/-- Whether a value has a member of a kind. -/
def Has (key : String) (P : Json → Prop) (j : Json) : Prop := ∃ v, j.member? key = some v ∧ P v

/-- Whether a value has no member under a key, or one of a kind. -/
def MayHave (key : String) (P : Json → Prop) (j : Json) : Prop :=
  ∀ v, j.member? key = some v → P v

/-! ### What values stand for -/

/-- Whether a list is what the elements of a value stand for, one by one. -/
inductive Lists (R : Json → α → Prop) : Json → List α → Prop
  | null : Lists R null []
  | array {items : List Json} {l : List α} (h : List.Forall₂ R items l) : Lists R (array items) l
  | object {members : List (String × Json)} {l : List α}
      (h : List.Forall₂ (fun m a => R m.2 a) members l) : Lists R (object members) l

/-- Whether a list is that of the texts in a value. -/
def ListsTexts (j : Json) (texts : List String) : Prop :=
  (∃ text, j = string text ∧ texts = [text]) ∨ Lists (· = string ·) j texts

/-- Whether something is what a member stands for, or the default if there is no member. -/
def Gives (key : String) (R : Json → α → Prop) (default : α) (j : Json) (a : α) : Prop :=
  (∃ v, j.member? key = some v ∧ R v a) ∨ j.member? key = none ∧ a = default

theorem exists_gives_iff {R : Json → α → Prop} {P : Json → Prop}
    (h : ∀ v, j.member? key = some v → ((∃ a, R v a) ↔ P v)) {default : α} :
    (∃ a, Gives key R default j a) ↔ MayHave key P j := by
  unfold Gives MayHave
  cases hj : j.member? key with
  | none => simp
  | some v => simp [h v hj]

theorem exists_eq_map_string_iff :
    (∃ text : Option String, j.member? key = text.map string) ↔ MayHave key IsText j := by
  unfold MayHave IsText
  constructor
  · rintro ⟨text, h⟩ v hv
    obtain ⟨t, -, rfl⟩ := Option.map_eq_some_iff.1 (h.symm.trans hv)
    exact ⟨t, rfl⟩
  · intro h
    cases hv : j.member? key with
    | none => exact ⟨none, rfl⟩
    | some v =>
      obtain ⟨text, rfl⟩ := h v hv
      exact ⟨some text, rfl⟩

theorem exists_forall₂_iff {γ : Type} {R : γ → α → Prop} {xs : List γ} :
    (∃ l, List.Forall₂ R xs l) ↔ ∀ x ∈ xs, ∃ a, R x a := by
  induction xs with
  | nil => simp
  | cons x rest ih =>
    rw [List.forall_mem_cons, ← ih]
    constructor
    · rintro ⟨_, h⟩
      cases h with
      | cons hx hrest => exact ⟨⟨_, hx⟩, _, hrest⟩
    · rintro ⟨⟨a, hx⟩, l, hrest⟩
      exact ⟨a :: l, .cons hx hrest⟩

theorem exists_lists_iff {R : Json → α → Prop} {P : Json → Prop} (hR : ∀ v, (∃ a, R v a) ↔ P v) :
    (∃ l, Lists R j l) ↔ IsListOf P j := by
  constructor
  · rintro ⟨l, h⟩
    cases h with
    | null => exact .null
    | array h => exact .array fun v hv => (hR v).1 (exists_forall₂_iff.1 ⟨_, h⟩ v hv)
    | object h => exact .object fun m hm => (hR m.2).1 (exists_forall₂_iff.1 ⟨_, h⟩ m hm)
  · intro h
    cases h with
    | null => exact ⟨[], .null⟩
    | array h => exact (exists_forall₂_iff.2 fun v hv => (hR v).2 (h v hv)).imp fun _ => .array
    | object h => exact (exists_forall₂_iff.2 fun m hm => (hR m.2).2 (h m hm)).imp fun _ => .object

theorem exists_listsTexts_iff : (∃ texts, ListsTexts j texts) ↔ IsTexts j := by
  unfold ListsTexts IsTexts
  rw [exists_or, exists_lists_iff fun v => Iff.rfl]
  exact or_congr_left ⟨fun ⟨_, text, h, _⟩ => ⟨text, h⟩, fun ⟨text, h⟩ => ⟨_, text, h, rfl⟩⟩

theorem exists_givesText_iff {default : String} :
    (∃ text, Gives key (· = string ·) default j text) ↔ MayHave key IsText j :=
  exists_gives_iff fun _ _ => .rfl

theorem exists_givesTruth_iff {default : Bool} :
    (∃ value, Gives key (· = bool ·) default j value) ↔ MayHave key IsTruth j :=
  exists_gives_iff fun _ _ => .rfl

theorem exists_givesTexts_iff {default : List String} :
    (∃ texts, Gives key ListsTexts default j texts) ↔ MayHave key IsTexts j :=
  exists_gives_iff fun _ _ => exists_listsTexts_iff

/-! ### When accessors succeed -/

theorem getString_eq_ok_iff {text : String} : j.getString = .ok text ↔ j = string text := by
  cases j <;> simp [getString]

theorem getBool_eq_ok_iff {value : Bool} : j.getBool = .ok value ↔ j = bool value := by
  cases j <;> simp [getBool]

theorem member_eq_ok_iff : j.member key = .ok v ↔ j.member? key = some v := by
  cases j with
  | object members => cases h : members.lookup key <;> simp [member, member?, h]
  | _ => simp [member, member?]

theorem memberD_eq_ok_iff {get : Json → Except Fault α} {default a : α} :
    j.memberD key get default = .ok a ↔
      j.IsObject ∧ Gives key (fun v a => get v = .ok a) default j a := by
  cases j with
  | object members =>
    cases h : members.lookup key <;> simp [memberD, member?, h, IsObject, Gives, eq_comm]
  | _ => simp [memberD, IsObject]

theorem memberText?_eq_ok_iff {text : Option String} :
    j.memberText? key = .ok text ↔ j.member? key = text.map string := by
  unfold memberText?
  cases j.member? key with
  | none => cases text <;> simp
  | some v => cases text <;> cases v <;> simp [getString, Functor.map, Except.map, eq_comm]

theorem memberList_eq_ok_iff {get : Json → Except Fault α} {l : List α} :
    j.memberList key get = .ok l ↔
      Gives key (fun v l => List.Forall₂ (fun x a => get x = .ok a) v.elements l) [] j l := by
  unfold memberList memberElements Gives
  rw [mapM_eq_ok_iff]
  cases j.member? key <;> simp

/-- If only objects stand for something, a loop goes over a container. -/
theorem forall₂_elements_iff {R : Json → α → Prop} (h : ∀ v a, R v a → v.IsObject) {l : List α} :
    List.Forall₂ R j.elements l ↔ Lists R j l := by
  constructor
  · intro hl
    cases j with
    | null =>
      cases hl
      exact .null
    | array items => exact .array hl
    | object members => exact .object (List.forall₂_map_left_iff.1 hl)
    | _ =>
      -- a loop over any other value visits the value itself, which is no object
      obtain ⟨_, _, hv, _⟩ := List.forall₂_cons_left_iff.1 hl
      obtain ⟨_, hobject⟩ := h _ _ hv
      cases hobject
  · intro hl
    cases hl with
    | null => exact .nil
    | array hl => exact hl
    | object hl => exact List.forall₂_map_left_iff.2 hl

/-- A loop goes over the texts of a container, or over one text. -/
theorem forall₂_elements_text_iff {texts : List String} :
    List.Forall₂ (· = string ·) j.elements texts ↔ ListsTexts j texts := by
  constructor
  · intro hl
    cases j with
    | null =>
      cases hl
      exact .inr .null
    | array items => exact .inr (.array hl)
    | object members => exact .inr (.object (List.forall₂_map_left_iff.1 hl))
    | _ =>
      obtain ⟨text, _, hv, hrest, rfl⟩ := List.forall₂_cons_left_iff.1 hl
      cases hrest
      exact .inl ⟨text, hv, rfl⟩
  · rintro (⟨text, rfl, rfl⟩ | hl)
    · exact .cons rfl .nil
    · cases hl with
      | null => exact .nil
      | array hl => exact hl
      | object hl => exact List.forall₂_map_left_iff.2 hl

theorem memberTexts_eq_ok_iff {texts : List String} :
    j.memberList key getString = .ok texts ↔ Gives key ListsTexts [] j texts := by
  simp only [memberList_eq_ok_iff, getString_eq_ok_iff, forall₂_elements_text_iff]

/-! ### How accessors fail -/

/-- Whether a fault is that a value has the wrong type. -/
def Fault.isTypeError : Fault → Bool
  | noObject | noMembers | mistyped => true
  | malformed | tooLarge | missing => false

/-- Whether a fault is that something is out of range: a member is missing, or a number is too
large. -/
def Fault.isOutOfRange : Fault → Bool
  | tooLarge | missing => true
  | malformed | noObject | noMembers | mistyped => false

/-- Whether an outcome is a value, or a fault of a value. -/
def Accesses (outcome : Except Fault α) : Prop :=
  ∀ fault, outcome = .error fault → fault.isTypeError = true ∨ fault.isOutOfRange = true

theorem accesses_ok (a : α) : Accesses (.ok a : Except Fault α) := nofun

theorem Accesses.bind {x : Except Fault α} {next : α → Except Fault β} (hx : Accesses x)
    (hnext : ∀ a, Accesses (next a)) : Accesses (x >>= next) := by
  cases x with
  | ok a => exact hnext a
  | error fault =>
    rintro _ h
    cases h
    exact hx fault rfl

theorem Accesses.map {x : Except Fault α} (hx : Accesses x) (f : α → β) : Accesses (f <$> x) := by
  cases x with
  | ok a => exact accesses_ok _
  | error fault =>
    rintro _ h
    cases h
    exact hx fault rfl

theorem accesses_mapM {γ : Type} {get : γ → Except Fault α} (h : ∀ x, Accesses (get x))
    (xs : List γ) : Accesses (xs.mapM get) := by
  induction xs with
  | nil => exact accesses_ok _
  | cons x rest ih =>
    rw [List.mapM_cons]
    exact (h x).bind fun _ => ih.bind fun _ => accesses_ok _

theorem accesses_getString (j : Json) : Accesses j.getString := by
  intro fault h
  cases j <;> cases h <;> exact .inl rfl

theorem accesses_getBool (j : Json) : Accesses j.getBool := by
  intro fault h
  cases j <;> cases h <;> exact .inl rfl

theorem accesses_member (key : String) (j : Json) : Accesses (j.member key) := by
  intro fault h
  cases j with
  | object members =>
    simp only [member] at h
    split at h <;> cases h
    exact .inr rfl
  | _ =>
    cases h
    exact .inl rfl

theorem accesses_memberD {get : Json → Except Fault α} (h : ∀ v, Accesses (get v)) (key : String)
    (default : α) (j : Json) : Accesses (j.memberD key get default) := by
  cases j with
  | object members =>
    simp only [memberD]
    split
    · exact h _
    · exact accesses_ok _
  | _ =>
    intro fault hfault
    cases hfault
    exact .inl rfl

theorem accesses_memberText? (key : String) (j : Json) : Accesses (j.memberText? key) := by
  unfold memberText?
  split
  · exact (accesses_getString _).map _
  · exact accesses_ok _

theorem accesses_memberList {get : Json → Except Fault α} (h : ∀ v, Accesses (get v))
    (key : String) (j : Json) : Accesses (j.memberList key get) :=
  accesses_mapM h _

/-! ### Decoders -/

/-- Whether a decoder takes the values of a form, each for what it denotes, and refuses all others
with a fault of the value. -/
structure Reads (get : Json → Except Fault α) (HasForm : Json → Prop)
    (Denotes : Json → α → Prop) : Prop where
  succeeds_iff : ∀ j, (∃ a, get j = .ok a) ↔ HasForm j
  eq_ok_iff : ∀ j a, get j = .ok a ↔ Denotes j a
  refuses : ∀ j, HasForm j ∨ ∃ fault, get j = .error fault ∧
    (fault.isTypeError = true ∨ fault.isOutOfRange = true)

namespace Reads

variable {get : Json → Except Fault α} {HasForm : Json → Prop} {Denotes : Json → α → Prop}

theorem of_accesses (heq : ∀ j a, get j = .ok a ↔ Denotes j a)
    (hform : ∀ j, (∃ a, Denotes j a) ↔ HasForm j) (hfault : ∀ j, Accesses (get j)) :
    Reads get HasForm Denotes where
  succeeds_iff j := by
    simp only [heq, hform]
  eq_ok_iff := heq
  refuses j := by
    cases hj : get j with
    | ok a => exact .inl ((hform j).1 ⟨a, (heq j a).1 hj⟩)
    | error fault => exact .inr ⟨fault, rfl, hfault j fault hj⟩

theorem exists_denotes_iff (h : Reads get HasForm Denotes) (j : Json) :
    (∃ a, Denotes j a) ↔ HasForm j := by
  simp only [← h.succeeds_iff, h.eq_ok_iff]

theorem accesses (h : Reads get HasForm Denotes) (j : Json) : Accesses (get j) := by
  intro fault hfault
  obtain hform | ⟨fault', hfault', htype⟩ := h.refuses j
  · obtain ⟨a, ha⟩ := (h.succeeds_iff j).2 hform
    cases hfault.symm.trans ha
  · cases hfault.symm.trans hfault'
    exact htype

theorem memberList_eq_ok_iff (h : Reads get HasForm Denotes)
    (hobject : ∀ v a, Denotes v a → v.IsObject) {l : List α} :
    j.memberList key get = .ok l ↔ Gives key (Lists Denotes) [] j l := by
  simp only [Json.memberList_eq_ok_iff, h.eq_ok_iff, forall₂_elements_iff hobject]

theorem exists_gives_lists_iff (h : Reads get HasForm Denotes) :
    (∃ l, Gives key (Lists Denotes) [] j l) ↔ MayHave key (IsListOf HasForm) j :=
  exists_gives_iff fun _ _ => exists_lists_iff h.exists_denotes_iff

end Reads

end PluginHost.Json
