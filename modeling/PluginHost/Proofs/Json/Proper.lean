import PluginHost.Proofs.Json.Reading
import PluginHost.Proofs.KeyMap

/-!
# What documents hold

The values that are read from documents are `Proper` (`Json.proper_of_read`): their integers have
64 bits, with a sign or without one, and the members of their objects are in strictly ascending key
order.  And nothing is read from tokens that break off (`Json.bad_notMem_of_ofTokens`).
-/

namespace PluginHost

namespace Json

open Token

/-- Whether an integer has 64 bits, with a sign or without one. -/
def Fits (value : Int) : Prop := leastInt ≤ value ∧ value ≤ greatestInt

/-- Whether the integers of a value fit and the members of its objects are by strictly ascending
key. -/
inductive Proper : Json → Prop
  | null : Proper null
  | bool (value : Bool) : Proper (bool value)
  | int {value : Int} (h : Fits value) : Proper (int value)
  | float (bits : UInt64) : Proper (float bits)
  | string (text : String) : Proper (string text)
  | array {items : List Json} (h : ∀ item ∈ items, Proper item) : Proper (array items)
  | object {members : List (String × Json)} (sorted : members.Pairwise (fun a b => a.1 < b.1))
      (h : ∀ m ∈ members, Proper m.2) : Proper (object members)

theorem Proper.member? {j v : Json} {key : String} (hj : Proper j) (h : j.member? key = some v) :
    Proper v := by
  cases hj with
  | @object members sorted hm =>
    exact hm (key, v) ((KeyMap.find?_eq_some_iff (m := ⟨members, sorted⟩)).1 h)
  | _ => cases h

/-! ### Integers in tokens -/

section Tokens

variable {text rest : List Char} {value : Int}

theorem fits_of_ofDecimal {negative : Bool} {digits : Nat} {exponent : Int}
    (h : Token.ofDecimal negative digits exponent = .int value) : Fits value := by
  unfold Token.ofDecimal at h
  split at h <;> cases h

theorem fits_of_ofInteger {negative : Bool} {digits : Nat}
    (h : ofInteger negative digits = .int value) : Fits value := by
  simp only [ofInteger] at h
  generalize (if negative = true then -(digits : Int) else digits) = n at h
  split at h
  · next hfits =>
    cases h
    exact hfits
  · exact fits_of_ofDecimal h

theorem fits_of_readUnsigned {negative : Bool}
    (h : readUnsigned negative text = some (.int value, rest)) : Fits value := by
  simp only [readUnsigned, Option.bind_eq_bind, Option.bind_eq_some_iff] at h
  obtain ⟨_, -, ⟨fraction, _⟩, -, ⟨exponent, _⟩, -, h⟩ := h
  split at h
  · exact fits_of_ofInteger (Prod.mk.inj (Option.some.inj h)).1
  · exact fits_of_ofDecimal (Prod.mk.inj (Option.some.inj h)).1

theorem fits_of_readNumber (h : readNumber text = some (.int value, rest)) : Fits value := by
  unfold readNumber at h
  split at h <;> exact fits_of_readUnsigned h

theorem fits_of_readFrom {c : Char} (h : readFrom c text = some (.int value, rest)) :
    Fits value := by
  unfold readFrom at h
  split at h
  case h_10 =>
    obtain ⟨_, -, he⟩ := Option.map_eq_some_iff.1 h
    cases he
  case h_11 => exact fits_of_readNumber h
  all_goals cases h

theorem fits_of_mem_scan {ending : List Token} (hending : .int value ∉ ending) (fuel : Nat) :
    .int value ∈ scan ending fuel text → Fits value := by
  induction fuel generalizing text with
  | zero =>
    cases text with
    | nil => exact fun h => absurd h hending
    | cons c text => simp [scan]
  | succ fuel ih =>
    cases text with
    | nil => exact fun h => absurd h hending
    | cons c text =>
      rw [scan]
      split
      · simp
      · split
        · exact ih
        · split
          · next hread =>
            intro h
            obtain rfl | h := List.mem_cons.1 h
            · exact fits_of_readFrom hread
            · exact ih h
          · simp

theorem fits_of_mem_tokensOf {bytes : ByteArray} (h : .int value ∈ tokensOf bytes) : Fits value :=
  fits_of_mem_scan (by split <;> simp) _ h

end Tokens

/-! ### Values from tokens -/

variable {α : Type} {fuel : Nat} {tokens : List Token} {v : Json}

/-- Whether what is read is made of tokens none of which is `bad`, and has a property if the
integers in these tokens fit. -/
def Builds (P : α → Prop) (read : Nat → List Token → Except Fault (α × List Token))
    (fuel : Nat) : Prop :=
  ∀ tokens a rest, read fuel tokens = .ok (a, rest) →
    ∃ used, tokens = used ++ rest ∧ .bad ∉ used ∧ ((∀ n, .int n ∈ used → Fits n) → P a)

theorem builds_readEntries {close : Token} {entry : Json → α}
    {others : Nat → List Token → Except Fault (List α × List Token)} {P : α → Prop}
    (hclose : close ≠ .bad) (hentry : ∀ v, Proper v → P (entry v))
    (hvalue : Builds Proper readValue fuel) (hothers : Builds (∀ e ∈ ·, P e) others fuel) :
    Builds (∀ e ∈ ·, P e) (readEntries close entry others) fuel := by
  intro tokens entries rest h
  obtain ⟨value, ⟨hv, rfl⟩ | ⟨tail, es, hv, he, rfl⟩⟩ := readEntries_ok h
  · obtain ⟨used, rfl, hbad, hused⟩ := hvalue _ _ _ hv
    refine ⟨used ++ [close], by simp, by simp [hbad, hclose.symm], fun hfits => ?_⟩
    have hproper := hused fun n hn => hfits n (List.mem_append_left _ hn)
    simpa using hentry value hproper
  · obtain ⟨used, rfl, hbad, hused⟩ := hvalue _ _ _ hv
    obtain ⟨used', rfl, hbad', hused'⟩ := hothers _ _ _ he
    refine ⟨used ++ .comma :: used', by simp, by simp [hbad, hbad'], fun hfits => ?_⟩
    have hproper := hused fun n hn => hfits n (List.mem_append_left _ hn)
    have hrest := hused' fun n hn =>
      hfits n (List.mem_append_right _ (List.mem_cons_of_mem _ hn))
    exact List.forall_mem_cons.2 ⟨hentry value hproper, hrest⟩

theorem proper_ofMembers {members : List (String × Json)} (h : ∀ m ∈ members, Proper m.2) :
    Proper (ofMembers members) :=
  .object (KeyMap.ofList members).sorted fun m hm => h m (KeyMap.mem_of_mem_ofList hm)

theorem ofToken_ok {token : Token} (h : ofToken token = .ok v) :
    token ≠ .bad ∧ ((∀ n, token = .int n → Fits n) → Proper v) := by
  cases token with
  | int n =>
    cases h
    exact ⟨nofun, fun hfits => .int (hfits n rfl)⟩
  | null =>
    cases h
    exact ⟨nofun, fun _ => .null⟩
  | bool value =>
    cases h
    exact ⟨nofun, fun _ => .bool value⟩
  | float bits =>
    cases h
    exact ⟨nofun, fun _ => .float bits⟩
  | string text =>
    cases h
    exact ⟨nofun, fun _ => .string text⟩
  | _ => cases h

theorem builds_readValue_succ (hitems : Builds (∀ item ∈ ·, Proper item) readItems fuel)
    (hmembers : Builds (∀ m ∈ ·, Proper m.2) readMembers fuel) :
    Builds Proper readValue (fuel + 1) := by
  intro tokens v rest h
  cases shape tokens with
  | nothing => cases h
  | emptyArray =>
    cases h
    exact ⟨[.openArray, .closeArray], rfl, by decide, fun _ => .array nofun⟩
  | emptyObject =>
    cases h
    exact ⟨[.openObject, .closeObject], rfl, by decide, fun _ => .object .nil nofun⟩
  | array ht =>
    rw [readValue_array ht] at h
    obtain ⟨⟨items, _⟩, hi, he⟩ := exists_of_map_eq_ok h
    cases he
    obtain ⟨used, rfl, hbad, hused⟩ := hitems _ _ _ hi
    refine ⟨.openArray :: used, rfl, by simp [hbad], fun hfits => .array ?_⟩
    exact hused fun n hn => hfits n (List.mem_cons_of_mem _ hn)
  | object ht =>
    rw [readValue_object ht] at h
    obtain ⟨⟨members, _⟩, hm, he⟩ := exists_of_map_eq_ok h
    cases he
    obtain ⟨used, rfl, hbad, hused⟩ := hmembers _ _ _ hm
    refine ⟨.openObject :: used, rfl, by simp [hbad], fun hfits => proper_ofMembers ?_⟩
    exact hused fun n hn => hfits n (List.mem_cons_of_mem _ hn)
  | @word token tail ha ho =>
    rw [readValue_word ha ho] at h
    obtain ⟨value, ht, he⟩ := exists_of_map_eq_ok h
    cases he
    obtain ⟨hbad, hproper⟩ := ofToken_ok ht
    refine ⟨[token], rfl, by simp [hbad.symm], fun hfits => hproper fun n hn => hfits n ?_⟩
    simp [hn]

theorem builds (fuel : Nat) :
    Builds Proper readValue fuel ∧ Builds (∀ item ∈ ·, Proper item) readItems fuel ∧
      Builds (∀ m ∈ ·, Proper m.2) readMembers fuel := by
  -- the three call each other with less fuel
  induction fuel with
  | zero =>
    refine ⟨?_, ?_, ?_⟩ <;> intro tokens a rest h <;> simp [readValue, readItems, readMembers] at h
  | succ fuel ih =>
    obtain ⟨hvalue, hitems, hmembers⟩ := ih
    refine ⟨builds_readValue_succ hitems hmembers, fun tokens items rest h => ?_,
      fun tokens members rest h => ?_⟩
    · rw [readItems_succ] at h
      exact builds_readEntries (by decide) (fun _ hv => hv) hvalue hitems _ _ _ h
    · obtain ⟨key, tail, rfl⟩ | hm := readMembers_cases tokens
      · rw [readMembers_succ] at h
        obtain ⟨used, rfl, hbad, hused⟩ :=
          builds_readEntries (P := (Proper ·.2)) (by decide) (fun _ hv => hv) hvalue hmembers
            _ _ _ h
        refine ⟨.string key :: .colon :: used, rfl, by simp [hbad], fun hfits => ?_⟩
        exact hused fun n hn => hfits n (List.mem_cons_of_mem _ (List.mem_cons_of_mem _ hn))
      · cases (hm _).symm.trans h

/-! ### Documents -/

theorem builds_ofTokens (h : ofTokens tokens = .ok v) :
    .bad ∉ tokens ∧ ((∀ n, .int n ∈ tokens → Fits n) → Proper v) := by
  obtain ⟨fuel, hv⟩ := ofTokens_eq_ok_iff.1 h
  obtain ⟨used, rfl, hused⟩ := (builds fuel).1 _ _ _ hv
  rwa [List.append_nil]

/-- No document is made of tokens that break off. -/
theorem bad_notMem_of_ofTokens (h : ofTokens tokens = .ok v) : .bad ∉ tokens :=
  (builds_ofTokens h).1

/-- **What is read from a document is proper.** -/
theorem proper_of_read {bytes : ByteArray} (h : read bytes = .ok v) : Proper v :=
  (builds_ofTokens h).2 fun _ => fits_of_mem_tokensOf

end Json

end PluginHost
