import PluginHost.Json.Reader

/-!
# How reading a document fails

Reading a JSON document fails for two reasons only: the text is no document, or a number is beyond
the largest double (`Json.read_cases`).  The second is reported exactly if the text up to the
number is the start of a document, whatever stands behind the number (`Json.Overflows`).
-/

namespace PluginHost.Json

theorem exists_of_map_eq_ok {α β : Type} {x : Except Fault α} {f : α → β} {b : β}
    (h : x.map f = .ok b) : ∃ a, x = .ok a ∧ f a = b := by
  cases x with
  | error _ => cases h
  | ok a =>
    cases h
    exact ⟨a, rfl, rfl⟩

theorem error_of_map_eq_error {α β : Type} {x : Except Fault α} {f : α → β} {fault : Fault}
    (h : x.map f = .error fault) : x = .error fault := by
  cases x with
  | error _ => exact congrArg _ (Except.error.inj h)
  | ok _ => cases h

variable {α : Type} {fuel : Nat} {tokens tail rest : List Token} {fault : Fault} {v : Json}

/-! ### What stands between brackets -/

section Entries

variable (close : Token) (entry : Json → α)
  (others : Nat → List Token → Except Fault (List α × List Token))

/-- Reads a value in a container and what stands behind it: the closing token, or a comma and
other entries. -/
def readEntries (fuel : Nat) (tokens : List Token) : Except Fault (List α × List Token) :=
  match readValue fuel tokens with
  | .error fault => .error fault
  | .ok (value, .comma :: tail) =>
    match others fuel tail with
    | .error fault => .error fault
    | .ok (entries, rest) => .ok (entry value :: entries, rest)
  | .ok (value, token :: rest) =>
    if token = close then .ok ([entry value], rest) else .error .malformed
  | .ok (_, []) => .error .malformed

variable {close entry others} {entries : List α}

theorem readEntries_last (hclose : close ≠ .comma)
    (h : readValue fuel tokens = .ok (v, close :: rest)) :
    readEntries close entry others fuel tokens = .ok ([entry v], rest) := by
  unfold readEntries
  rw [h]
  split
  · next he => cases he
  · next he =>
    cases he
    exact absurd rfl hclose
  · next he =>
    cases he
    exact if_pos rfl
  · next he => cases he

theorem readEntries_more (h : readValue fuel tokens = .ok (v, .comma :: tail))
    (hothers : others fuel tail = .ok (entries, rest)) :
    readEntries close entry others fuel tokens = .ok (entry v :: entries, rest) := by
  unfold readEntries
  rw [h]
  simp only [hothers]

theorem readEntries_error_first (h : readValue fuel tokens = .error fault) :
    readEntries close entry others fuel tokens = .error fault := by
  unfold readEntries
  rw [h]

theorem readEntries_error_more (h : readValue fuel tokens = .ok (v, .comma :: tail))
    (hothers : others fuel tail = .error fault) :
    readEntries close entry others fuel tokens = .error fault := by
  unfold readEntries
  rw [h]
  simp only [hothers]

theorem readEntries_ok (h : readEntries close entry others fuel tokens = .ok (entries, rest)) :
    ∃ value, (readValue fuel tokens = .ok (value, close :: rest) ∧ entries = [entry value]) ∨
      ∃ tail es, readValue fuel tokens = .ok (value, .comma :: tail) ∧
        others fuel tail = .ok (es, rest) ∧ entries = entry value :: es := by
  unfold readEntries at h
  split at h
  · cases h
  · next value tail hv =>
    split at h
    · cases h
    · next es rest' he =>
      cases h
      exact ⟨value, .inr ⟨tail, es, hv, he, rfl⟩⟩
  · next value token rest' _ hv =>
    split at h
    · next heq =>
      cases h
      exact ⟨value, .inl ⟨heq ▸ hv, rfl⟩⟩
    · cases h
  · cases h

theorem readEntries_error (h : readEntries close entry others fuel tokens = .error fault) :
    fault = .malformed ∨ readValue fuel tokens = .error fault ∨
      ∃ value tail, readValue fuel tokens = .ok (value, .comma :: tail) ∧
        others fuel tail = .error fault := by
  unfold readEntries at h
  split at h
  · next hv =>
    cases h
    exact .inr (.inl hv)
  · next value tail hv =>
    split at h
    · next he =>
      cases h
      exact .inr (.inr ⟨value, tail, hv, he⟩)
    · cases h
  · split at h
    · cases h
    · cases h
      exact .inl rfl
  · cases h
    exact .inl rfl

end Entries

theorem readItems_succ (fuel : Nat) (tokens : List Token) :
    readItems (fuel + 1) tokens = readEntries .closeArray id readItems fuel tokens := by
  rw [readItems, readEntries]
  cases readValue fuel tokens with
  | error _ => rfl
  | ok r =>
    obtain ⟨value, behind⟩ := r
    cases behind with
    | nil => rfl
    | cons token behind =>
      cases token with
      | comma =>
        cases h : readItems fuel behind <;> simp [h, bind, Except.bind, pure, Except.pure]
      | _ => rfl

theorem readMembers_succ (fuel : Nat) (key : String) (tokens : List Token) :
    readMembers (fuel + 1) (.string key :: .colon :: tokens) =
      readEntries .closeObject (key, ·) readMembers fuel tokens := by
  rw [readMembers, readEntries]
  cases readValue fuel tokens with
  | error _ => rfl
  | ok r =>
    obtain ⟨value, behind⟩ := r
    cases behind with
    | nil => rfl
    | cons token behind =>
      cases token with
      | comma =>
        cases h : readMembers fuel behind <;> simp [h, bind, Except.bind, pure, Except.pure]
      | _ => rfl

theorem readMembers_cases (tokens : List Token) :
    (∃ key tail, tokens = .string key :: .colon :: tail) ∨
      ∀ fuel, readMembers fuel tokens = .error .malformed := by
  by_cases h : ∃ key tail, tokens = .string key :: .colon :: tail
  · exact .inl h
  · refine .inr fun fuel => ?_
    unfold readMembers
    split
    · exact absurd ⟨_, _, rfl⟩ h
    · rfl

/-! ### Values -/

/-- How the tokens of a value can start. -/
inductive Shape : List Token → Prop
  | nothing : Shape []
  | emptyArray (rest : List Token) : Shape (.openArray :: .closeArray :: rest)
  | emptyObject (rest : List Token) : Shape (.openObject :: .closeObject :: rest)
  | array {tail : List Token} (h : ∀ rest, tail ≠ .closeArray :: rest) : Shape (.openArray :: tail)
  | object {tail : List Token} (h : ∀ rest, tail ≠ .closeObject :: rest) :
      Shape (.openObject :: tail)
  | word {token : Token} (tail : List Token) (ha : token ≠ .openArray) (ho : token ≠ .openObject) :
      Shape (token :: tail)

theorem shape (tokens : List Token) : Shape tokens := by
  cases tokens with
  | nil => exact .nothing
  | cons token tail =>
    by_cases ha : token = .openArray
    · subst ha
      by_cases h : ∃ rest, tail = .closeArray :: rest
      · obtain ⟨rest, rfl⟩ := h
        exact .emptyArray rest
      · exact .array (not_exists.1 h)
    · by_cases ho : token = .openObject
      · subst ho
        by_cases h : ∃ rest, tail = .closeObject :: rest
        · obtain ⟨rest, rfl⟩ := h
          exact .emptyObject rest
        · exact .object (not_exists.1 h)
      · exact .word tail ha ho

theorem readValue_array (h : ∀ rest, tail ≠ .closeArray :: rest) :
    readValue (fuel + 1) (.openArray :: tail) =
      (readItems fuel tail).map fun r => (array r.1, r.2) := by
  rw [readValue.eq_5 _ _ h]
  cases readItems fuel tail <;> rfl

theorem readValue_object (h : ∀ rest, tail ≠ .closeObject :: rest) :
    readValue (fuel + 1) (.openObject :: tail) =
      (readMembers fuel tail).map fun r => (ofMembers r.1, r.2) := by
  rw [readValue.eq_6 _ _ h]
  cases readMembers fuel tail <;> rfl

theorem readValue_word {token : Token} (ha : token ≠ .openArray) (ho : token ≠ .openObject) :
    readValue (fuel + 1) (token :: tail) = (ofToken token).map (·, tail) := by
  cases token with
  | openArray => exact absurd rfl ha
  | openObject => exact absurd rfl ho
  | _ => rfl

theorem readItems_closeArray (fuel : Nat) (rest : List Token) :
    readItems fuel (.closeArray :: rest) = .error .malformed := by
  match fuel with
  | 0 | 1 | _ + 2 => rfl

theorem readMembers_closeObject (fuel : Nat) (rest : List Token) :
    readMembers fuel (.closeObject :: rest) = .error .malformed := by
  match fuel with
  | 0 | _ + 1 => rfl

/-- Items that are read, or lack a value, are those of an array. -/
theorem readValue_array_of_readItems {outcome : Except Fault (List Json × List Token)}
    (h : readItems fuel tail = outcome) (hne : outcome ≠ .error .malformed) :
    readValue (fuel + 1) (.openArray :: tail) = outcome.map fun r => (array r.1, r.2) := by
  subst h
  refine readValue_array ?_
  rintro rest rfl
  exact hne (readItems_closeArray fuel rest)

theorem readValue_object_of_readMembers
    {outcome : Except Fault (List (String × Json) × List Token)}
    (h : readMembers fuel tail = outcome) (hne : outcome ≠ .error .malformed) :
    readValue (fuel + 1) (.openObject :: tail) = outcome.map fun r => (ofMembers r.1, r.2) := by
  subst h
  refine readValue_object ?_
  rintro rest rfl
  exact hne (readMembers_closeObject fuel rest)

/-! ### What a result depends on -/

/-- Whether what is read depends on the tokens that it consumes only, and not on those behind
them; more fuel changes nothing either. -/
def Settles (read : Nat → List Token → Except Fault (α × List Token)) (fuel : Nat) : Prop :=
  ∀ tokens a rest, read fuel tokens = .ok (a, rest) →
    ∃ used, tokens = used ++ rest ∧
      ∀ more other, read (more + fuel) (used ++ other) = .ok (a, other)

theorem Settles.mono {read : Nat → List Token → Except Fault (α × List Token)} {a : α}
    (hs : Settles read fuel) (h : read fuel tokens = .ok (a, rest)) (more : Nat) :
    read (more + fuel) tokens = .ok (a, rest) := by
  obtain ⟨used, rfl, hused⟩ := hs _ _ _ h
  exact hused more rest

theorem settles_readEntries {close : Token} {entry : Json → α}
    {others : Nat → List Token → Except Fault (List α × List Token)} (hclose : close ≠ .comma)
    (hvalue : Settles readValue fuel) (hothers : Settles others fuel) :
    Settles (readEntries close entry others) fuel := by
  intro tokens entries rest h
  obtain ⟨value, ⟨hv, rfl⟩ | ⟨tail, es, hv, he, rfl⟩⟩ := readEntries_ok h
  · obtain ⟨used, rfl, hused⟩ := hvalue _ _ _ hv
    refine ⟨used ++ [close], by simp, fun more other => ?_⟩
    rw [List.append_assoc]
    exact readEntries_last hclose (hused more _)
  · obtain ⟨used, rfl, hused⟩ := hvalue _ _ _ hv
    obtain ⟨used', rfl, hused'⟩ := hothers _ _ _ he
    refine ⟨used ++ .comma :: used', by simp, fun more other => ?_⟩
    rw [List.append_assoc]
    exact readEntries_more (hused more _) (hused' more other)

theorem settles_readValue_succ (hitems : Settles readItems fuel)
    (hmembers : Settles readMembers fuel) : Settles readValue (fuel + 1) := by
  intro tokens v rest h
  cases shape tokens with
  | nothing => cases h
  | emptyArray =>
    cases h
    exact ⟨[.openArray, .closeArray], rfl, fun more other => rfl⟩
  | emptyObject =>
    cases h
    exact ⟨[.openObject, .closeObject], rfl, fun more other => rfl⟩
  | @array tail ht =>
    rw [readValue_array ht] at h
    obtain ⟨⟨items, _⟩, hi, he⟩ := exists_of_map_eq_ok h
    cases he
    obtain ⟨used, rfl, hused⟩ := hitems _ _ _ hi
    exact ⟨.openArray :: used, rfl, fun more other =>
      readValue_array_of_readItems (hused more other) nofun⟩
  | @object tail ht =>
    rw [readValue_object ht] at h
    obtain ⟨⟨members, _⟩, hm, he⟩ := exists_of_map_eq_ok h
    cases he
    obtain ⟨used, rfl, hused⟩ := hmembers _ _ _ hm
    exact ⟨.openObject :: used, rfl, fun more other =>
      readValue_object_of_readMembers (hused more other) nofun⟩
  | @word token tail ha ho =>
    rw [readValue_word ha ho] at h
    obtain ⟨value, ht, he⟩ := exists_of_map_eq_ok h
    cases he
    refine ⟨[token], rfl, fun more other => ?_⟩
    show readValue (more + fuel + 1) (token :: other) = _
    rw [readValue_word ha ho, ht]
    rfl

theorem settles (fuel : Nat) :
    Settles readValue fuel ∧ Settles readItems fuel ∧ Settles readMembers fuel := by
  -- the three call each other with less fuel
  induction fuel with
  | zero =>
    refine ⟨?_, ?_, ?_⟩ <;> intro tokens a rest h <;> simp [readValue, readItems, readMembers] at h
  | succ fuel ih =>
    obtain ⟨hvalue, hitems, hmembers⟩ := ih
    refine ⟨settles_readValue_succ hitems hmembers, fun tokens items rest h => ?_,
      fun tokens members rest h => ?_⟩
    · rw [readItems_succ] at h
      obtain ⟨used, rfl, hused⟩ := settles_readEntries (by decide) hvalue hitems _ _ _ h
      exact ⟨used, rfl, fun more other => (readItems_succ _ _).trans (hused more other)⟩
    · obtain ⟨key, tail, rfl⟩ | hm := readMembers_cases tokens
      · rw [readMembers_succ] at h
        obtain ⟨used, rfl, hused⟩ := settles_readEntries (by decide) hvalue hmembers _ _ _ h
        exact ⟨.string key :: .colon :: used, rfl, fun more other =>
          (readMembers_succ _ _ _).trans (hused more other)⟩
      · cases (hm _).symm.trans h

/-! ### Numbers that are too large -/

/-- Whether a number that is too large is reported wherever it stands in place of a value that is
read. -/
def Reports (read : Nat → List Token → Except Fault (α × List Token)) (fuel : Nat) : Prop :=
  ∀ before after a rest, read fuel (before ++ .null :: after) = .ok (a, rest) →
    rest.length ≤ after.length →
      ∀ more other, read (more + fuel) (before ++ .tooLarge :: other) = .error .tooLarge

/-- Reading that stops at `left` consumed the token in front of `after`, or left it in place. -/
theorem exists_of_append_eq {before after used left : List Token} {token : Token}
    (h : before ++ token :: after = used ++ left) :
    left.length ≤ after.length ∨
      ∃ others, before = used ++ others ∧ left = others ++ token :: after := by
  obtain ⟨others, rfl, hleft⟩ | ⟨others, rfl, hafter⟩ := List.append_eq_append_iff.1 h
  · cases others with
    | nil => exact .inr ⟨[], by simp, hleft.symm⟩
    | cons first others =>
      obtain ⟨-, rfl⟩ := List.cons.inj hleft
      exact .inl (by simp)
  · exact .inr ⟨others, rfl, hafter⟩

theorem reports_readEntries {close : Token} {entry : Json → α}
    {others : Nat → List Token → Except Fault (List α × List Token)} (hclose : close ≠ .null)
    (hvalue : Reports readValue fuel) (hothers : Reports others fuel) :
    Reports (readEntries close entry others) fuel := by
  intro before after entries rest h hrest more other
  obtain ⟨value, ⟨hv, rfl⟩ | ⟨tail, es, hv, he, rfl⟩⟩ := readEntries_ok h
  · obtain ⟨used, hused, -⟩ := (settles fuel).1 _ _ _ hv
    obtain hle | ⟨left, rfl, hleft⟩ := exists_of_append_eq hused
    · exact readEntries_error_first (hvalue _ _ _ _ hv hle more other)
    · -- the closing token would stand in front of `after`, but its container ends behind
      obtain ⟨-, hnull⟩ | ⟨left, rfl, rfl⟩ := List.cons_eq_append_iff.1 hleft
      · exact absurd (List.cons.inj hnull).1.symm hclose
      · simp at hrest
        omega
  · obtain ⟨used, hused, hread⟩ := (settles fuel).1 _ _ _ hv
    obtain hle | ⟨left, rfl, hleft⟩ := exists_of_append_eq hused
    · exact readEntries_error_first (hvalue _ _ _ _ hv hle more other)
    · obtain ⟨-, hnull⟩ | ⟨left, rfl, rfl⟩ := List.cons_eq_append_iff.1 hleft
      · cases hnull
      · rw [List.append_assoc]
        exact readEntries_error_more (hread more _) (hothers _ _ _ _ he hrest more other)

theorem reports_readValue_succ (hitems : Reports readItems fuel)
    (hmembers : Reports readMembers fuel) : Reports readValue (fuel + 1) := by
  intro before after v rest h hrest more other
  cases before with
  | nil => rfl
  | cons token before =>
    rw [List.cons_append] at h
    generalize htokens : token :: (before ++ .null :: after) = tokens at h
    cases shape tokens with
    | nothing => cases htokens
    | emptyArray =>
      obtain ⟨rfl, ht⟩ := List.cons.inj htokens
      cases h
      cases before with
      | nil => cases ht
      | cons _ before =>
        obtain ⟨-, rfl⟩ := List.cons.inj ht
        simp at hrest
        omega
    | emptyObject =>
      obtain ⟨rfl, ht⟩ := List.cons.inj htokens
      cases h
      cases before with
      | nil => cases ht
      | cons _ before =>
        obtain ⟨-, rfl⟩ := List.cons.inj ht
        simp at hrest
        omega
    | array ht =>
      obtain ⟨rfl, rfl⟩ := List.cons.inj htokens
      rw [readValue_array ht] at h
      obtain ⟨⟨items, _⟩, hi, he⟩ := exists_of_map_eq_ok h
      cases he
      exact readValue_array_of_readItems (hitems _ _ _ _ hi hrest more other) nofun
    | object ht =>
      obtain ⟨rfl, rfl⟩ := List.cons.inj htokens
      rw [readValue_object ht] at h
      obtain ⟨⟨members, _⟩, hm, he⟩ := exists_of_map_eq_ok h
      cases he
      exact readValue_object_of_readMembers (hmembers _ _ _ _ hm hrest more other) nofun
    | word tail ha ho =>
      obtain ⟨rfl, rfl⟩ := List.cons.inj htokens
      rw [readValue_word ha ho] at h
      obtain ⟨value, -, he⟩ := exists_of_map_eq_ok h
      cases he
      simp at hrest
      omega

theorem reports (fuel : Nat) :
    Reports readValue fuel ∧ Reports readItems fuel ∧ Reports readMembers fuel := by
  induction fuel with
  | zero =>
    refine ⟨?_, ?_, ?_⟩ <;> intro before after a rest h <;>
      simp [readValue, readItems, readMembers] at h
  | succ fuel ih =>
    obtain ⟨hvalue, hitems, hmembers⟩ := ih
    refine ⟨reports_readValue_succ hitems hmembers, fun before after items rest h => ?_,
      fun before after members rest h => ?_⟩
    · rw [readItems_succ] at h
      exact fun hrest more other => (readItems_succ _ _).trans
        (reports_readEntries (by decide) hvalue hitems _ _ _ _ h hrest more other)
    · obtain ⟨key, tail, ht⟩ | hm := readMembers_cases (before ++ .null :: after)
      · -- the number stands behind the first key and its colon
        obtain ⟨-, hnull⟩ | ⟨left, rfl, hleft⟩ := List.append_eq_cons_iff.1 ht
        · cases hnull
        obtain ⟨-, hnull⟩ | ⟨left, rfl, rfl⟩ := List.cons_eq_append_iff.1 hleft
        · cases hnull
        rw [ht, readMembers_succ] at h
        exact fun hrest more other => (readMembers_succ _ _ _).trans
          (reports_readEntries (by decide) hvalue hmembers _ _ _ _ h hrest more other)
      · cases (hm _).symm.trans h

/-! ### Why reading fails -/

/-- Whether reading fails only because the tokens are malformed, or because of a number that is
too large in a place up to which the tokens can be completed to something that is read. -/
def FailsDuly (read : Nat → List Token → Except Fault (α × List Token)) (fuel : Nat) : Prop :=
  ∀ tokens fault, read fuel tokens = .error fault → fault = .malformed ∨
    fault = .tooLarge ∧ ∃ before after closing enough a, tokens = before ++ .tooLarge :: after ∧
      ∀ other, read enough (before ++ .null :: (closing ++ other)) = .ok (a, other)

theorem failsDuly_readEntries {close : Token} {entry : Json → α}
    {others : Nat → List Token → Except Fault (List α × List Token)} (hclose : close ≠ .comma)
    (hsettles : ∀ fuel, Settles others fuel) (hvalue : FailsDuly readValue fuel)
    (hothers : FailsDuly others fuel) : FailsDuly (readEntries close entry others) fuel := by
  intro tokens fault h
  obtain rfl | hv | ⟨value, tail, hv, he⟩ := readEntries_error h
  · exact .inl rfl
  · -- the first value breaks off: behind its completion, the container is closed
    obtain hfault | ⟨hfault, before, after, closing, enough, v, ht, hread⟩ := hvalue _ _ hv
    · exact .inl hfault
    refine .inr ⟨hfault, before, after, closing ++ [close], enough, [entry v], ht, fun other => ?_⟩
    rw [List.append_assoc]
    exact readEntries_last hclose (hread _)
  · -- a later entry breaks off: both it and the first value are read with the fuel of both
    obtain hfault | ⟨hfault, before, after, closing, enough, es, ht, hread⟩ := hothers _ _ he
    · exact .inl hfault
    obtain ⟨used, rfl, hused⟩ := (settles fuel).1 _ _ _ hv
    refine .inr ⟨hfault, used ++ .comma :: before, after, closing, enough + fuel, entry value :: es,
      by simp [ht], fun other => ?_⟩
    rw [List.append_assoc]
    refine readEntries_more (hused enough _) ?_
    rw [Nat.add_comm]
    exact (hsettles enough).mono (hread other) fuel

theorem ofToken_error {token : Token} (h : ofToken token = .error fault) :
    fault = .malformed ∨ fault = .tooLarge ∧ token = .tooLarge := by
  cases token <;> cases h <;> simp

theorem failsDuly_readValue_succ (hitems : FailsDuly readItems fuel)
    (hmembers : FailsDuly readMembers fuel) : FailsDuly readValue (fuel + 1) := by
  intro tokens fault h
  cases shape tokens with
  | nothing =>
    cases h
    exact .inl rfl
  | emptyArray => cases h
  | emptyObject => cases h
  | array ht =>
    rw [readValue_array ht] at h
    obtain hfault | ⟨hfault, before, after, closing, enough, items, ht, hread⟩ :=
      hitems _ _ (error_of_map_eq_error h)
    · exact .inl hfault
    exact .inr ⟨hfault, .openArray :: before, after, closing, enough + 1, array items,
      congrArg _ ht, fun other => readValue_array_of_readItems (hread other) nofun⟩
  | object ht =>
    rw [readValue_object ht] at h
    obtain hfault | ⟨hfault, before, after, closing, enough, members, ht, hread⟩ :=
      hmembers _ _ (error_of_map_eq_error h)
    · exact .inl hfault
    exact .inr ⟨hfault, .openObject :: before, after, closing, enough + 1, ofMembers members,
      congrArg _ ht, fun other => readValue_object_of_readMembers (hread other) nofun⟩
  | word tail ha ho =>
    rw [readValue_word ha ho] at h
    obtain hfault | ⟨hfault, rfl⟩ := ofToken_error (error_of_map_eq_error h)
    · exact .inl hfault
    exact .inr ⟨hfault, [], tail, [], 1, null, rfl, fun other => rfl⟩

theorem failsDuly (fuel : Nat) :
    FailsDuly readValue fuel ∧ FailsDuly readItems fuel ∧ FailsDuly readMembers fuel := by
  induction fuel with
  | zero =>
    refine ⟨?_, ?_, ?_⟩ <;> intro tokens fault h <;>
      simp only [readValue, readItems, readMembers, Except.error.injEq] at h <;>
        exact .inl h.symm
  | succ fuel ih =>
    obtain ⟨hvalue, hitems, hmembers⟩ := ih
    refine ⟨failsDuly_readValue_succ hitems hmembers, fun tokens fault h => ?_,
      fun tokens fault h => ?_⟩
    · rw [readItems_succ] at h
      obtain hfault | ⟨hfault, before, after, closing, enough, items, ht, hread⟩ :=
        failsDuly_readEntries (by decide) (fun n => (settles n).2.1) hvalue hitems _ _ h
      · exact .inl hfault
      exact .inr ⟨hfault, before, after, closing, enough + 1, items, ht,
        fun other => (readItems_succ _ _).trans (hread other)⟩
    · obtain ⟨key, tail, rfl⟩ | hm := readMembers_cases tokens
      · rw [readMembers_succ] at h
        obtain hfault | ⟨hfault, before, after, closing, enough, members, rfl, hread⟩ :=
          failsDuly_readEntries (by decide) (fun n => (settles n).2.2) hvalue hmembers _ _ h
        · exact .inl hfault
        exact .inr ⟨hfault, .string key :: .colon :: before, after, closing, enough + 1, members,
          rfl, fun other => (readMembers_succ _ _ _).trans (hread other)⟩
      · cases (hm _).symm.trans h
        exact .inl rfl

/-! ### Enough fuel -/

theorem readValue_nil (fuel : Nat) : readValue fuel [] = .error .malformed := by
  match fuel with
  | 0 | _ + 1 => rfl

theorem length_lt_of_readValue (h : readValue fuel tokens = .ok (v, rest)) :
    rest.length < tokens.length := by
  obtain ⟨used, rfl, hused⟩ := (settles fuel).1 _ _ _ h
  cases used with
  | nil =>
    -- nothing would then be read as a value too
    cases (readValue_nil _).symm.trans (hused 0 [])
  | cons _ _ =>
    rw [List.cons_append, List.length_cons, List.length_append]
    omega

/-- Whether one call more changes nothing for tokens that the fuel is enough for; a reader takes
`extra` calls besides the two for each token. -/
def Suffices (read : Nat → List Token → Except Fault (α × List Token)) (extra fuel : Nat) : Prop :=
  ∀ tokens, 2 * tokens.length + extra ≤ fuel → read (fuel + 1) tokens = read fuel tokens

theorem readEntries_congr {close : Token} {entry : Json → α} {fuel' : Nat}
    {others : Nat → List Token → Except Fault (List α × List Token)}
    (hvalue : readValue fuel' tokens = readValue fuel tokens)
    (hothers : ∀ value tail, readValue fuel tokens = .ok (value, .comma :: tail) →
      others fuel' tail = others fuel tail) :
    readEntries close entry others fuel' tokens = readEntries close entry others fuel tokens := by
  rw [readEntries, readEntries, hvalue]
  cases hv : readValue fuel tokens with
  | error _ => rfl
  | ok r =>
    obtain ⟨value, behind⟩ := r
    cases behind with
    | nil => rfl
    | cons token behind =>
      cases token with
      | comma => simp only [hothers value behind hv]
      | _ => rfl

theorem suffices_readEntries {close : Token} {entry : Json → α}
    {others : Nat → List Token → Except Fault (List α × List Token)}
    (hvalue : Suffices readValue 1 fuel) (hothers : Suffices others 2 fuel) :
    Suffices (readEntries close entry others) 1 fuel := by
  intro tokens hfuel
  refine readEntries_congr (hvalue tokens hfuel) fun value tail hv => hothers tail ?_
  -- the value and the comma leave room for what stands behind them
  have hlt := length_lt_of_readValue hv
  rw [List.length_cons] at hlt
  omega

theorem suffices_readValue_succ (hitems : Suffices readItems 2 fuel)
    (hmembers : Suffices readMembers 2 fuel) : Suffices readValue 1 (fuel + 1) := by
  intro tokens hfuel
  cases shape tokens with
  | nothing => rfl
  | emptyArray => rfl
  | emptyObject => rfl
  | @array tail ht =>
    rw [List.length_cons] at hfuel
    rw [readValue_array ht, readValue_array ht, hitems tail (by omega)]
  | @object tail ht =>
    rw [List.length_cons] at hfuel
    rw [readValue_object ht, readValue_object ht, hmembers tail (by omega)]
  | word tail ha ho => rw [readValue_word ha ho, readValue_word ha ho]

/-- More fuel than the number of tokens asks for changes nothing. -/
theorem suffices_read (fuel : Nat) :
    Suffices readValue 1 fuel ∧ Suffices readItems 2 fuel ∧ Suffices readMembers 2 fuel := by
  induction fuel with
  | zero => refine ⟨?_, ?_, ?_⟩ <;> intro tokens hfuel <;> omega
  | succ fuel ih =>
    obtain ⟨hvalue, hitems, hmembers⟩ := ih
    refine ⟨suffices_readValue_succ hitems hmembers, fun tokens hfuel => ?_,
      fun tokens hfuel => ?_⟩
    · rw [readItems_succ, readItems_succ]
      exact suffices_readEntries hvalue hitems tokens (by omega)
    · obtain ⟨key, tail, rfl⟩ | hm := readMembers_cases tokens
      · rw [readMembers_succ, readMembers_succ]
        simp only [List.length_cons] at hfuel
        exact suffices_readEntries hvalue hmembers tail (by omega)
      · rw [hm, hm]

theorem readValue_add (tokens : List Token) (more : Nat) :
    readValue (more + (2 * tokens.length + 1)) tokens =
      readValue (2 * tokens.length + 1) tokens := by
  induction more with
  | zero => rw [Nat.zero_add]
  | succ more ih =>
    rw [Nat.succ_add, ← ih]
    exact (suffices_read _).1 tokens (by omega)

/-! ### Documents -/

theorem ofTokens_eq_ok_iff :
    ofTokens tokens = .ok v ↔ ∃ fuel, readValue fuel tokens = .ok (v, []) := by
  constructor
  · intro h
    refine ⟨2 * tokens.length + 1, ?_⟩
    rw [ofTokens] at h
    cases hv : readValue (2 * tokens.length + 1) tokens with
    | error _ =>
      rw [hv] at h
      cases h
    | ok r =>
      obtain ⟨value, rest⟩ := r
      rw [hv] at h
      cases rest with
      | nil =>
        cases h
        rfl
      | cons _ _ => cases h
  · rintro ⟨fuel, h⟩
    have hmono := (settles fuel).1.mono h (2 * tokens.length + 1)
    rw [Nat.add_comm, readValue_add] at hmono
    rw [ofTokens, hmono]
    rfl

/-- A document that is refused is malformed, or its value cannot be read. -/
theorem ofTokens_error (h : ofTokens tokens = .error fault) :
    fault = .malformed ∨ readValue (2 * tokens.length + 1) tokens = .error fault := by
  rw [ofTokens] at h
  cases hv : readValue (2 * tokens.length + 1) tokens with
  | error _ =>
    rw [hv] at h
    cases h
    exact .inr rfl
  | ok r =>
    obtain ⟨value, rest⟩ := r
    rw [hv] at h
    cases rest with
    | nil => cases h
    | cons _ _ =>
      cases h
      exact .inl rfl

/-- **A number that is too large** is reported exactly if it is the first fault: if the tokens up
to it are the start of a document, with a value in its place. -/
theorem ofTokens_eq_tooLarge_iff :
    ofTokens tokens = .error .tooLarge ↔ ∃ before after rest v,
      tokens = before ++ .tooLarge :: after ∧ ofTokens (before ++ .null :: rest) = .ok v := by
  constructor
  · intro h
    obtain hfault | h := ofTokens_error h
    · cases hfault
    obtain hfault | ⟨-, before, after, closing, enough, v, rfl, hread⟩ := (failsDuly _).1 _ _ h
    · cases hfault
    · exact ⟨before, after, closing ++ [], v, rfl, ofTokens_eq_ok_iff.2 ⟨enough, hread []⟩⟩
  · rintro ⟨before, after, rest, v, rfl, h⟩
    obtain ⟨fuel, h⟩ := ofTokens_eq_ok_iff.1 h
    have hreport := (reports fuel).1 _ _ _ _ h (Nat.zero_le _)
      (2 * (before ++ .tooLarge :: after).length + 1) after
    rw [Nat.add_comm, readValue_add] at hreport
    rw [ofTokens, hreport]
    rfl

/-- The tokens of a document. -/
def tokensOf (bytes : ByteArray) : List Token :=
  Token.ofText (dropMark (Text.decode bytes).1) (Text.decode bytes).2

/-- Whether the first fault of a document is a number that is too large: up to there, the text is
the start of a document. -/
def Overflows (bytes : ByteArray) : Prop :=
  ∃ before after rest v, tokensOf bytes = before ++ .tooLarge :: after ∧
    ofTokens (before ++ .null :: rest) = .ok v

theorem read_eq_tooLarge_iff {bytes : ByteArray} :
    read bytes = .error .tooLarge ↔ Overflows bytes := ofTokens_eq_tooLarge_iff

/-- **A document is read**, or is malformed, or its first fault is a number that is too large. -/
theorem read_cases (bytes : ByteArray) :
    (∃ v, read bytes = .ok v) ∨ read bytes = .error .malformed ∨
      read bytes = .error .tooLarge ∧ Overflows bytes := by
  cases hr : read bytes with
  | ok v => exact .inl ⟨v, rfl⟩
  | error fault =>
    have hfault : fault = .malformed ∨ fault = .tooLarge := by
      obtain hfault | hv := ofTokens_error hr
      · exact .inl hfault
      · exact ((failsDuly _).1 _ _ hv).imp_right And.left
    obtain rfl | rfl := hfault
    · exact .inr (.inl rfl)
    · exact .inr (.inr ⟨rfl, read_eq_tooLarge_iff.1 hr⟩)

end PluginHost.Json
