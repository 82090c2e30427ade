import PluginHost.Json.Printer
import PluginHost.Proofs.Json.Reading
import PluginHost.Proofs.KeyMap

/-!
# Reading what was printed

A value that holds texts and truth values only, with the members of its objects by ascending key,
is read back from its text (`Json.read_print`).  So such values are told apart by their texts
(`Json.Plain.print_inj`).
-/

namespace PluginHost.Json

open Token

/-- Whether a value has no numbers in it and the members of its objects are by strictly ascending
key. -/
inductive Plain : Json → Prop
  | null : Plain null
  | bool (value : Bool) : Plain (bool value)
  | string (text : String) : Plain (string text)
  | array {items : List Json} (h : ∀ item ∈ items, Plain item) : Plain (array items)
  | object {members : List (String × Json)} (sorted : members.Pairwise (fun a b => a.1 < b.1))
      (h : ∀ m ∈ members, Plain m.2) : Plain (object members)

/-! ### Strings -/

theorem readString_letter {e c : Char} (hu : e ≠ 'u') (h : escaped e = some c)
    (more : List Char) : readString ('\\' :: e :: more) = prepend c (readString more) := by
  rw [readString.eq_def]
  simp [hu, h]

theorem hexUnit_control : ∀ n < 32,
    hexUnit '0' '0' (hexDigit (n / 16)) (hexDigit (n % 16)) = some n ∧
      isHighUnit n = false ∧ isLowUnit n = false := by
  decide

theorem readString_escape (c : Char) (more : List Char) :
    readString (escape c ++ more) = prepend c (readString more) := by
  unfold escape
  -- the characters that are escaped by a letter
  iterate 7
    split
    · next h =>
      subst h
      exact readString_letter (by decide) rfl more
  split
  · next h =>
    obtain ⟨hunit, hhigh, hlow⟩ := hexUnit_control c.toNat h
    simp [readString, hunit, hhigh, hlow]
  · next hquote hslash _ _ _ _ _ h =>
    rw [List.singleton_append, readString.eq_def]
    simp [hquote, hslash, h]

theorem readString_flatMap_escape (text rest : List Char) :
    readString (text.flatMap escape ++ '"' :: rest) = some (text, rest) := by
  induction text with
  | nil =>
    rw [readString.eq_def]
    simp
  | cons c text ih =>
    rw [List.flatMap_cons, List.append_assoc, readString_escape, ih]
    rfl

/-! ### From characters to tokens -/

/-- Whether a text starts with tokens and goes on with `rest`. -/
def Scans (text : List Char) (tokens : List Token) (rest : List Char) : Prop :=
  ∀ ending fuel, text.length ≤ fuel →
    ∃ left, rest.length ≤ left ∧ scan ending fuel text = tokens ++ scan ending left rest

theorem Scans.trans {text middle rest : List Char} {tokens others : List Token}
    (h : Scans text tokens middle) (h' : Scans middle others rest) :
    Scans text (tokens ++ others) rest := by
  intro ending fuel hfuel
  obtain ⟨left, hleft, he⟩ := h ending fuel hfuel
  obtain ⟨left', hleft', he'⟩ := h' ending left hleft
  exact ⟨left', hleft', by rw [he, he', List.append_assoc]⟩

theorem scans_of_readFrom {c : Char} {text rest : List Char} {token : Token} (hnul : c ≠ '\x00')
    (hblank : isBlank c = false) (h : readFrom c text = some (token, rest))
    (hle : rest.length ≤ text.length) : Scans (c :: text) [token] rest := by
  intro ending fuel hfuel
  cases fuel with
  | zero => simp at hfuel
  | succ fuel =>
    refine ⟨fuel, Nat.le_trans hle (Nat.le_of_succ_le_succ hfuel), ?_⟩
    simp [scan, hnul, hblank, h]

/-- The characters that are tokens by themselves. -/
inductive Punctuation : Char → Token → Prop
  | openArray : Punctuation '[' .openArray
  | closeArray : Punctuation ']' .closeArray
  | openObject : Punctuation '\x7b' .openObject
  | closeObject : Punctuation '\x7d' .closeObject
  | comma : Punctuation ',' .comma
  | colon : Punctuation ':' .colon

theorem Punctuation.scans {c : Char} {token : Token} (h : Punctuation c token)
    (rest : List Char) : Scans (c :: rest) [token] rest := by
  cases h <;> exact scans_of_readFrom (by decide) (by decide) rfl (Nat.le_refl _)

theorem scans_quoted (text : String) (rest : List Char) :
    Scans (quoted text ++ rest) [.string text] rest := by
  have hread : readFrom '"' (text.toList.flatMap escape ++ '"' :: rest) =
      some (.string text, rest) := by
    show (readString _).map _ = _
    rw [readString_flatMap_escape]
    simp
  have hscan := scans_of_readFrom (by decide) (by decide) hread (by simp; omega)
  simpa [quoted] using hscan

/-! ### From tokens to values -/

/-- Whether a text is made of tokens from which a value is read, whatever stands behind it. -/
def Spells {α : Type} (text : List Char)
    (read : Nat → List Token → Except Fault (α × List Token)) (a : α) : Prop :=
  ∃ tokens fuel, (∀ rest, Scans (text ++ rest) tokens rest) ∧
    ∀ rest, read fuel (tokens ++ rest) = .ok (a, rest)

theorem spells_word (token : Token) {text : List Char} {v : Json} (ha : token ≠ .openArray)
    (ho : token ≠ .openObject) (hv : ofToken token = .ok v)
    (h : ∀ rest, Scans (text ++ rest) [token] rest) : Spells text readValue v := by
  refine ⟨[token], 1, h, fun rest => ?_⟩
  rw [List.singleton_append, readValue_word ha ho, hv]
  rfl

section Entries

variable {α : Type} {c : Char} {close : Token} {entry : Json → α}
  {others : Nat → List Token → Except Fault (List α × List Token)} {text : List Char} {v : Json}

theorem spells_entries_last (hclose : Punctuation c close) (hne : close ≠ .comma)
    (hv : Spells text readValue v) :
    Spells (text ++ [c]) (readEntries close entry others) [entry v] := by
  obtain ⟨tokens, fuel, hscan, hread⟩ := hv
  refine ⟨tokens ++ [close], fuel, fun rest => ?_, fun rest => ?_⟩
  · rw [List.append_assoc]
    exact (hscan _).trans (hclose.scans rest)
  · rw [List.append_assoc]
    exact readEntries_last hne (hread _)

theorem spells_entries_more {more : List Char} {entries : List α}
    (hsettles : ∀ fuel, Settles others fuel) (hv : Spells text readValue v)
    (hmore : Spells more others entries) :
    Spells (text ++ ',' :: more) (readEntries close entry others) (entry v :: entries) := by
  obtain ⟨tokens, fuel, hscan, hread⟩ := hv
  obtain ⟨tokens', fuel', hscan', hread'⟩ := hmore
  -- the value and the other entries are read with the fuel of both
  refine ⟨tokens ++ .comma :: tokens', fuel' + fuel, fun rest => ?_, fun rest => ?_⟩
  · rw [List.append_assoc]
    exact (hscan _).trans ((Punctuation.comma.scans _).trans (hscan' rest))
  · rw [List.append_assoc]
    refine readEntries_more ((settles fuel).1.mono (hread _) fuel') ?_
    rw [Nat.add_comm]
    exact (hsettles fuel').mono (hread' rest) fuel

end Entries

theorem spells_readItems {text : List Char} {items : List Json}
    (h : Spells text (readEntries .closeArray id readItems) items) :
    Spells text readItems items := by
  obtain ⟨tokens, fuel, hscan, hread⟩ := h
  exact ⟨tokens, fuel + 1, hscan, fun rest => (readItems_succ _ _).trans (hread rest)⟩

theorem spells_readMembers (key : String) {text : List Char} {members : List (String × Json)}
    (h : Spells text (readEntries .closeObject (key, ·) readMembers) members) :
    Spells (quoted key ++ ':' :: text) readMembers members := by
  obtain ⟨tokens, fuel, hscan, hread⟩ := h
  refine ⟨.string key :: .colon :: tokens, fuel + 1, fun rest => ?_,
    fun rest => (readMembers_succ _ _ _).trans (hread rest)⟩
  rw [List.append_assoc]
  exact (scans_quoted key _).trans ((Punctuation.colon.scans _).trans (hscan rest))

theorem spells_itemChars {items : List Json} (hne : items ≠ [])
    (h : ∀ item ∈ items, Spells (chars item) readValue item) :
    Spells (itemChars items ++ [']']) readItems items := by
  induction items with
  | nil => exact absurd rfl hne
  | cons item rest ih =>
    obtain ⟨hitem, hrest⟩ := List.forall_mem_cons.1 h
    cases rest with
    | nil => exact spells_readItems (spells_entries_last .closeArray (by decide) hitem)
    | cons next rest =>
      have hmore := ih (List.cons_ne_nil _ _) hrest
      have hall := spells_readItems (spells_entries_more (fun n => (settles n).2.1) hitem hmore)
      simpa [itemChars] using hall

theorem spells_memberChars {members : List (String × Json)} (hne : members ≠ [])
    (h : ∀ m ∈ members, Spells (chars m.2) readValue m.2) :
    Spells (memberChars members ++ ['\x7d']) readMembers members := by
  induction members with
  | nil => exact absurd rfl hne
  | cons m rest ih =>
    obtain ⟨hm, hrest⟩ := List.forall_mem_cons.1 h
    cases rest with
    | nil =>
      have hall := spells_readMembers m.1
        (spells_entries_last .closeObject (by decide) hm)
      simpa [memberChars] using hall
    | cons next rest =>
      have hmore := ih (List.cons_ne_nil _ _) hrest
      have hall := spells_readMembers m.1
        (spells_entries_more (fun n => (settles n).2.2) hm hmore)
      simpa [memberChars] using hall

theorem spells_array {items : List Json}
    (h : ∀ item ∈ items, Spells (chars item) readValue item) :
    Spells (chars (array items)) readValue (array items) := by
  by_cases hne : items = []
  · subst hne
    exact ⟨[.openArray, .closeArray], 1, fun rest =>
      (Punctuation.openArray.scans _).trans (Punctuation.closeArray.scans rest), fun rest => rfl⟩
  · obtain ⟨tokens, fuel, hscan, hread⟩ := spells_itemChars hne h
    exact ⟨.openArray :: tokens, fuel + 1,
      fun rest => (Punctuation.openArray.scans _).trans (hscan rest),
      fun rest => readValue_array_of_readItems (hread rest) nofun⟩

theorem spells_object {members : List (String × Json)}
    (sorted : members.Pairwise (fun a b => a.1 < b.1))
    (h : ∀ m ∈ members, Spells (chars m.2) readValue m.2) :
    Spells (chars (object members)) readValue (object members) := by
  by_cases hne : members = []
  · subst hne
    exact ⟨[.openObject, .closeObject], 1, fun rest =>
      (Punctuation.openObject.scans _).trans (Punctuation.closeObject.scans rest), fun rest => rfl⟩
  · obtain ⟨tokens, fuel, hscan, hread⟩ := spells_memberChars hne h
    have hof : ofMembers members = object members :=
      congrArg object (KeyMap.entries_ofList sorted)
    refine ⟨.openObject :: tokens, fuel + 1,
      fun rest => (Punctuation.openObject.scans _).trans (hscan rest), fun rest => ?_⟩
    have hv := readValue_object_of_readMembers (hread rest) nofun
    rwa [Except.map, hof] at hv

theorem Plain.spells {v : Json} (h : Plain v) : Spells (chars v) readValue v := by
  induction h with
  | null =>
    exact spells_word .null nofun nofun rfl fun rest =>
      scans_of_readFrom (by decide) (by decide) rfl (by simp; omega)
  | bool value =>
    cases value with
    | true =>
      exact spells_word (.bool true) nofun nofun rfl fun rest =>
        scans_of_readFrom (by decide) (by decide) rfl (by simp; omega)
    | false =>
      exact spells_word (.bool false) nofun nofun rfl fun rest =>
        scans_of_readFrom (by decide) (by decide) rfl (by simp; omega)
  | string text => exact spells_word (.string text) nofun nofun rfl (scans_quoted text)
  | array _ ih => exact spells_array ih
  | object sorted _ ih => exact spells_object sorted ih

/-! ### Documents -/

/-- No text of a value starts with a byte order mark. -/
theorem Plain.dropMark_chars {v : Json} (h : Plain v) : dropMark (chars v) = chars v := by
  cases h with
  | bool value => cases value <;> rfl
  | _ => rfl

/-- **A value is read back from its text.** -/
theorem read_print {v : Json} (h : Plain v) : read v.print.toUTF8 = .ok v := by
  obtain ⟨tokens, fuel, hscan, hread⟩ := h.spells
  have htokens : Token.ofText (chars v) true = tokens := by
    obtain ⟨left, -, he⟩ := hscan [] [] (chars v ++ []).length (Nat.le_refl _)
    rw [List.append_nil] at he
    rw [Token.ofText, if_pos rfl, he, scan, List.append_nil]
  have hprint : v.print.toList = chars v := String.toList_ofList
  show ofTokens (Token.ofText (dropMark (Text.decode v.print.toUTF8).1)
    (Text.decode v.print.toUTF8).2) = .ok v
  rw [Text.decode_toUTF8, hprint, h.dropMark_chars, htokens]
  refine ofTokens_eq_ok_iff.2 ⟨fuel, ?_⟩
  have hv := hread []
  rwa [List.append_nil] at hv

theorem Plain.print_inj {v w : Json} (hv : Plain v) (hw : Plain w) (h : v.print = w.print) :
    v = w := by
  have he := read_print hw
  rw [← h, read_print hv] at he
  exact Except.ok.inj he

end PluginHost.Json

