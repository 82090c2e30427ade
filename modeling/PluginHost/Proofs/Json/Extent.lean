import PluginHost.Proofs.Json.Printing
import PluginHost.Proofs.Json.Proper
import PluginHost.Proofs.Text.Decoding

/-!
# How far documents reach

A document ends with the first NUL character of its bytes, and what stands behind it need not even
be a text (`Json.read_eq_ok_iff`).  A token is read from its own characters, none of which is NUL,
and at most a look at the one behind them (`Json.Consumes`).  So a text has the same tokens whether
it ends or goes on with a NUL character (`Json.scan_eq_of_closes`).
-/

namespace PluginHost.Json

open Token

/-! ### Readers of tokens -/

/-- The character with which a text goes on.  A text that ends goes on as with a NUL character. -/
def next (text : List Char) : Char := text.head?.getD '\x00'

@[simp]
theorem next_cons (c : Char) (rest : List Char) : next (c :: rest) = c := rfl

theorem exists_of_next {text : List Char} {c : Char} (hc : c ≠ '\x00') (h : next text = c) :
    ∃ rest, text = c :: rest := by
  cases text with
  | nil => exact absurd h.symm hc
  | cons first rest => exact ⟨rest, congrArg (· :: rest) h⟩

theorem next_append {text other : List Char} (h : next text = next other) (front : List Char) :
    next (front ++ text) = next (front ++ other) := by
  cases front with
  | nil => exact h
  | cons c front => rfl

/-- Whether what is read depends on the characters that are consumed, none of which is NUL, and
on the character behind them only. -/
def Consumes {α : Type} (read : List Char → Option (α × List Char)) (text : List Char) : Prop :=
  ∀ a rest, read text = some (a, rest) → ∃ used, text = used ++ rest ∧ '\x00' ∉ used ∧
    ∀ other, next other = next rest → read (used ++ other) = some (a, other)

theorem Consumes.bind {α β : Type} {read : List Char → Option (α × List Char)}
    {others : α → List Char → Option (β × List Char)} {text : List Char}
    (h : Consumes read text) (hothers : ∀ a rest, Consumes (others a) rest) :
    Consumes (fun text => (read text).bind fun r => others r.1 r.2) text := by
  intro b rest hb
  obtain ⟨⟨a, middle⟩, ha, hothers'⟩ := Option.bind_eq_some_iff.1 hb
  obtain ⟨used, rfl, hused, hread⟩ := h _ _ ha
  obtain ⟨used', rfl, hused', hread'⟩ := hothers _ _ _ _ hothers'
  refine ⟨used ++ used', by simp, by simp [hused, hused'], fun other hnext => ?_⟩
  simp only [List.append_assoc]
  rw [hread _ (next_append hnext used'), Option.bind_some]
  exact hread' other hnext

theorem consumes_some {α : Type} (a : α) (text : List Char) :
    Consumes (fun text => some (a, text)) text := by
  rintro _ _ h
  cases h
  exact ⟨[], rfl, nofun, fun _ _ => rfl⟩

theorem consumes_unless {α : Type} (p : Prop) [Decidable p] (a : α) (text : List Char) :
    Consumes (fun text => if p then none else some (a, text)) text := by
  by_cases h : p
  · simp only [if_pos h]
    nofun
  · simp only [if_neg h]
    exact consumes_some a text

/-- What is read in another way wherever the text goes on alike. -/
theorem Consumes.congr {α : Type} {read others : List Char → Option (α × List Char)}
    {text : List Char} (hothers : Consumes others text)
    (h : ∀ other, next other = next text → read other = others other) : Consumes read text := by
  intro a rest ha
  rw [h text rfl] at ha
  obtain ⟨used, rfl, hused, hread⟩ := hothers _ _ ha
  refine ⟨used, rfl, hused, fun other hnext => ?_⟩
  rw [h _ (next_append hnext used), hread other hnext]

theorem Consumes.cons {α : Type} {read others : List Char → Option (α × List Char)} {c : Char}
    {text : List Char} (hothers : Consumes others text) (hc : c ≠ '\x00')
    (h : ∀ other, read (c :: other) = others other) : Consumes read (c :: text) := by
  intro a rest ha
  rw [h] at ha
  obtain ⟨used, rfl, hused, hread⟩ := hothers _ _ ha
  refine ⟨c :: used, rfl, by simp [hc.symm, hused], fun other hnext => ?_⟩
  rw [List.cons_append, h, hread other hnext]

/-! ### Strings -/

theorem hexDigit_nul : Token.hexDigit '\x00' = none := by decide

theorem nul_notMem_of_hexUnit {a b c d : Char} {n : Nat} (h : hexUnit a b c d = some n) :
    '\x00' ∉ [a, b, c, d] := by
  simp only [hexUnit, Option.bind_eq_bind, Option.bind_eq_some_iff] at h
  obtain ⟨_, ha, _, hb, _, hc, _, hd, -⟩ := h
  intro hnul
  simp only [List.mem_cons, List.not_mem_nil, or_false] at hnul
  obtain rfl | rfl | rfl | rfl := hnul <;> simp_all [hexDigit_nul]

theorem consumes_prepend (item : List Char) {rest : List Char} {c : Char} (hnul : '\x00' ∉ item)
    (hitem : ∀ more, readString (item ++ more) = prepend c (readString more))
    (hrest : Consumes readString rest) {s left : List Char}
    (h : prepend c (readString rest) = some (s, left)) :
    ∃ used, item ++ rest = used ++ left ∧ '\x00' ∉ used ∧
      ∀ other, next other = next left → readString (used ++ other) = some (s, other) := by
  obtain ⟨⟨s', _⟩, hread, he⟩ := Option.map_eq_some_iff.1 h
  cases he
  obtain ⟨used, rfl, hused, hother⟩ := hrest _ _ hread
  refine ⟨item ++ used, (List.append_assoc ..).symm, by simp [hnul, hused], fun other hnext => ?_⟩
  rw [List.append_assoc, hitem, hother other hnext]
  rfl

theorem consumes_readString (text : List Char) : Consumes readString text := by
  unfold Consumes
  fun_induction readString text with
  | case2 rest =>
    rintro _ _ h
    cases h
    exact ⟨['"'], rfl, by decide, fun other _ => by rw [readString.eq_def]; rfl⟩
  | case6 a b c d high hhigh hishigh s u a' b' c' d' rest hsu low hlow hislow _ ih =>
    intro _ _ h
    obtain ⟨rfl, rfl⟩ := hsu
    have hnul := nul_notMem_of_hexUnit hhigh
    have hnul' := nul_notMem_of_hexUnit hlow
    refine consumes_prepend ['\\', 'u', a, b, c, d, '\\', 'u', a', b', c', d']
      (by simp_all) (fun more => ?_) ih h
    rw [List.cons_append, readString.eq_def]
    simp [hhigh, hishigh, hlow, hislow]
  | case11 a b c d rest unit hunit hhigh hlow _ ih =>
    intro _ _ h
    have hnul := nul_notMem_of_hexUnit hunit
    refine consumes_prepend ['\\', 'u', a, b, c, d] (by simp_all) (fun more => ?_) ih h
    rw [List.cons_append, readString.eq_def]
    simp [hunit, hhigh, hlow]
  | case14 e rest hu c hc _ ih =>
    intro _ _ h
    have hnul : '\x00' ≠ e := by
      rintro rfl
      cases hc
    exact consumes_prepend ['\\', e] (by simp [hnul])
      (readString_letter hu hc) ih h
  | case16 c rest hquote hslash hcontrol ih =>
    intro _ _ h
    have hnul : '\x00' ≠ c := by
      rintro rfl
      exact hcontrol (by decide)
    refine consumes_prepend [c] (by simp [hnul]) (fun more => ?_) ih h
    rw [List.cons_append, readString.eq_def]
    simp [hquote, hslash, hcontrol]
  | _ => nofun

/-! ### Numbers -/

theorem isDigit_nul : Text.isDigit '\x00' = false := by decide

theorem isDigit_next_dropWhile (text : List Char) :
    Text.isDigit (next (text.dropWhile Text.isDigit)) = false := by
  induction text with
  | nil => exact isDigit_nul
  | cons c rest ih =>
    by_cases hc : Text.isDigit c = true
    · rwa [List.dropWhile_cons_of_pos hc]
    · rw [List.dropWhile_cons_of_neg hc]
      simpa using hc

theorem isDigit_of_mem_takeWhile {text : List Char} :
    ∀ c ∈ text.takeWhile Text.isDigit, Text.isDigit c = true :=
  List.all_eq_true.1 List.all_takeWhile

theorem nul_notMem_takeWhile (text : List Char) : '\x00' ∉ text.takeWhile Text.isDigit := by
  intro h
  cases isDigit_nul.symm.trans (isDigit_of_mem_takeWhile _ h)

/-- A row of digits ends where the text goes on with no digit. -/
theorem span_append {text other : List Char} (h : next other = next (text.dropWhile Text.isDigit)) :
    (text.takeWhile Text.isDigit ++ other).takeWhile Text.isDigit = text.takeWhile Text.isDigit ∧
      (text.takeWhile Text.isDigit ++ other).dropWhile Text.isDigit = other := by
  have hother : Text.isDigit (next other) = false := h ▸ isDigit_next_dropWhile text
  rw [List.takeWhile_append_of_pos isDigit_of_mem_takeWhile,
    List.dropWhile_append_of_pos isDigit_of_mem_takeWhile]
  cases other with
  | nil => simp
  | cons c other =>
    have hc : ¬ Text.isDigit c = true := by simpa using hother
    rw [List.takeWhile_cons_of_neg hc, List.dropWhile_cons_of_neg hc, List.append_nil]
    exact ⟨rfl, rfl⟩

/-- Reads a row of digits, which may be empty. -/
def readDigits (text : List Char) : Option (List Char × List Char) :=
  some (text.takeWhile Text.isDigit, text.dropWhile Text.isDigit)

theorem consumes_readDigits (text : List Char) : Consumes readDigits text := by
  rintro _ _ h
  cases h
  refine ⟨_, (List.takeWhile_append_dropWhile ..).symm, nul_notMem_takeWhile _,
    fun other hnext => ?_⟩
  obtain ⟨htake, hdrop⟩ := span_append hnext
  rw [readDigits, htake, hdrop]

theorem readInteger_of_digit {text : List Char} (hzero : next text ≠ '0')
    (hdigit : Text.isDigit (next text) = true) : readInteger text = readDigits text := by
  cases text with
  | nil => cases isDigit_nul.symm.trans hdigit
  | cons c text =>
    rw [next_cons] at hzero hdigit
    rw [readInteger, if_neg hzero, if_pos hdigit, readDigits]

theorem readInteger_of_not_digit {text : List Char} (h : Text.isDigit (next text) ≠ true) :
    readInteger text = none := by
  cases text with
  | nil => rfl
  | cons c text =>
    rw [next_cons] at h
    have hzero : c ≠ '0' := by
      rintro rfl
      exact h rfl
    rw [readInteger, if_neg hzero, if_neg h]

theorem consumes_readInteger (text : List Char) : Consumes readInteger text := by
  by_cases hzero : next text = '0'
  · obtain ⟨text, rfl⟩ := exists_of_next (by decide) hzero
    exact (consumes_some ['0'] text).cons (by decide) fun _ => rfl
  · by_cases hdigit : Text.isDigit (next text) = true
    · exact (consumes_readDigits text).congr fun other hnext =>
        readInteger_of_digit (hnext ▸ hzero) (hnext ▸ hdigit)
    · intro whole rest h
      cases (readInteger_of_not_digit hdigit).symm.trans h

theorem readFraction_of_next {text : List Char} (h : next text ≠ '.') :
    readFraction text = some (none, text) := by
  unfold readFraction
  split
  · exact absurd rfl h
  · rfl

theorem consumes_readFraction (text : List Char) : Consumes readFraction text := by
  by_cases hpoint : next text = '.'
  · obtain ⟨text, rfl⟩ := exists_of_next (by decide) hpoint
    have hdigits := (consumes_readDigits text).bind fun digits rest =>
      consumes_unless (digits.isEmpty = true) (some digits) rest
    exact hdigits.cons (by decide) fun _ => rfl
  · exact (consumes_some none text).congr fun other hnext => readFraction_of_next (hnext ▸ hpoint)

theorem consumes_readExponentDigits (negative : Bool) (text : List Char) :
    Consumes (readExponentDigits negative) text := by
  have hdigits := (consumes_readDigits text).bind fun digits rest =>
    let size : Int := Text.digitsValue digits
    consumes_unless (digits.isEmpty = true) (some (if negative then -size else size)) rest
  exact hdigits.congr fun _ _ => rfl

/-- An exponent behind its letter. -/
def readSigned (text : List Char) : Option (Option Int × List Char) :=
  match text with
  | '-' :: rest => readExponentDigits true rest
  | '+' :: rest => readExponentDigits false rest
  | rest => readExponentDigits false rest

theorem readSigned_of_next {text : List Char} (hminus : next text ≠ '-') (hplus : next text ≠ '+') :
    readSigned text = readExponentDigits false text := by
  unfold readSigned
  split
  · exact absurd rfl hminus
  · exact absurd rfl hplus
  · rfl

theorem consumes_readSigned (text : List Char) : Consumes readSigned text := by
  by_cases hminus : next text = '-'
  · obtain ⟨text, rfl⟩ := exists_of_next (by decide) hminus
    exact (consumes_readExponentDigits true text).cons (by decide) fun _ => rfl
  · by_cases hplus : next text = '+'
    · obtain ⟨text, rfl⟩ := exists_of_next (by decide) hplus
      exact (consumes_readExponentDigits false text).cons (by decide) fun _ => rfl
    · refine (consumes_readExponentDigits false text).congr fun other hnext => ?_
      exact readSigned_of_next (hnext ▸ hminus) (hnext ▸ hplus)

theorem readExponent_of_next {text : List Char} (h : ¬ (next text = 'e' ∨ next text = 'E')) :
    readExponent text = some (none, text) := by
  cases text with
  | nil => rfl
  | cons c text => exact if_neg h

theorem consumes_readExponent (text : List Char) : Consumes readExponent text := by
  by_cases h : next text = 'e' ∨ next text = 'E'
  · cases text with
    | nil => exact absurd h (by decide)
    | cons c text =>
      refine (consumes_readSigned text).cons ?_ fun other => if_pos h
      rintro rfl
      simp at h
  · refine (consumes_some none text).congr fun other hnext => ?_
    exact readExponent_of_next (hnext ▸ h)

/-- The token of a number of three parts. -/
def ofParts (negative : Bool) (whole : List Char) (fraction : Option (List Char))
    (exponent : Option Int) : Token :=
  match fraction, exponent with
  | none, none => ofInteger negative (Text.digitsValue whole)
  | _, _ =>
    let places := fraction.getD []
    Token.ofDecimal negative (Text.digitsValue (whole ++ places)) (exponent.getD 0 - places.length)

theorem readUnsigned_eq (negative : Bool) : readUnsigned negative = fun text =>
    (readInteger text).bind fun whole => (readFraction whole.2).bind fun fraction =>
      (readExponent fraction.2).bind fun exponent =>
        some (ofParts negative whole.1 fraction.1 exponent.1, exponent.2) := by
  funext text
  unfold readUnsigned ofParts
  simp only [Option.bind_eq_bind, Option.pure_def]
  congr
  funext whole
  congr
  funext fraction
  congr
  funext exponent
  obtain ⟨places, left⟩ := fraction
  obtain ⟨size, rest⟩ := exponent
  cases places <;> cases size <;> rfl

theorem consumes_readUnsigned (negative : Bool) (text : List Char) :
    Consumes (readUnsigned negative) text := by
  rw [readUnsigned_eq]
  exact (consumes_readInteger text).bind fun whole _ => (consumes_readFraction _).bind
    fun fraction _ => (consumes_readExponent _).bind fun exponent _ =>
      consumes_some (ofParts negative whole fraction exponent) _

theorem readNumber_of_next (text : List Char) (h : next text ≠ '-') :
    readNumber text = readUnsigned false text := by
  unfold readNumber
  split
  · exact absurd rfl h
  · rfl

theorem consumes_readNumber (text : List Char) : Consumes readNumber text := by
  by_cases h : next text = '-'
  · obtain ⟨text, rfl⟩ := exists_of_next (by decide) h
    exact (consumes_readUnsigned true text).cons (by decide) fun _ => rfl
  · exact (consumes_readUnsigned false text).congr fun _ hnext => readNumber_of_next _ (hnext ▸ h)

/-! ### Tokens -/

/-- Reads the token at the start of a text. -/
def readToken : List Char → Option (Token × List Char)
  | [] => none
  | c :: rest => readFrom c rest

/-- Whether a number can start with a character. -/
def startsNumber (c : Char) : Bool := c = '-' || Text.isDigit c

theorem readToken_of_startsNumber (text : List Char) (h : startsNumber (next text) = true) :
    readToken text = readNumber text := by
  cases text with
  | nil => exact absurd h (by decide)
  | cons c text =>
    rw [next_cons] at h
    rw [readToken]
    unfold readFrom
    split
    case h_11 => rfl
    all_goals exact absurd h (by decide)

theorem startsNumber_of_readNumber {c : Char} {text rest : List Char} {token : Token}
    (h : readNumber (c :: text) = some (token, rest)) : startsNumber c = true := by
  by_cases hnumber : startsNumber c = true
  · exact hnumber
  obtain ⟨hminus, hdigit⟩ : c ≠ '-' ∧ Text.isDigit c ≠ true := by
    simpa [startsNumber] using hnumber
  rw [readNumber_of_next (c :: text) hminus, readUnsigned_eq] at h
  have hnone : readInteger (c :: text) = none := readInteger_of_not_digit hdigit
  simp only [hnone] at h
  cases h

theorem consumes_readToken (text : List Char) : Consumes readToken text := by
  by_cases hnumber : startsNumber (next text) = true
  · exact (consumes_readNumber text).congr fun other hnext =>
      readToken_of_startsNumber _ (hnext ▸ hnumber)
  intro token rest h
  cases text with
  | nil => cases h
  | cons c text =>
    rw [readToken] at h
    unfold readFrom at h
    split at h
    case h_7 =>
      cases h
      exact ⟨['n', 'u', 'l', 'l'], rfl, by decide, fun _ _ => rfl⟩
    case h_8 =>
      cases h
      exact ⟨['t', 'r', 'u', 'e'], rfl, by decide, fun _ _ => rfl⟩
    case h_9 =>
      cases h
      exact ⟨['f', 'a', 'l', 's', 'e'], rfl, by decide, fun _ _ => rfl⟩
    case h_10 text =>
      obtain ⟨⟨s, _⟩, hs, he⟩ := Option.map_eq_some_iff.1 h
      cases he
      obtain ⟨used, rfl, hused, hread⟩ := consumes_readString _ _ _ hs
      refine ⟨'"' :: used, rfl, by simp [hused], fun other hnext => ?_⟩
      show (readString (used ++ other)).map _ = _
      rw [hread other hnext]
      rfl
    case h_11 => exact absurd (startsNumber_of_readNumber h) hnumber
    -- the brackets, the comma and the colon
    all_goals
      cases h
      exact ⟨[_], rfl, by decide, fun _ _ => rfl⟩

theorem readInteger_singleton {c : Char} {whole rest : List Char}
    (h : readInteger [c] = some (whole, rest)) : rest = [] := by
  rw [readInteger] at h
  split at h
  · cases h
    rfl
  · split at h
    · next hc =>
      rw [List.dropWhile_cons_of_pos hc] at h
      cases h
      rfl
    · cases h

/-- A single character is a token by itself or not at all. -/
theorem readToken_singleton {c : Char} {token : Token} {rest : List Char}
    (h : readToken [c] = some (token, rest)) : rest = [] := by
  by_cases hnumber : startsNumber c = true
  · rw [readToken_of_startsNumber [c] hnumber] at h
    by_cases hminus : c = '-'
    · subst hminus
      cases h
    · rw [readNumber_of_next [c] hminus, readUnsigned_eq] at h
      obtain ⟨⟨whole, left⟩, hwhole, h⟩ := Option.bind_eq_some_iff.1 h
      obtain rfl := readInteger_singleton hwhole
      cases h
      rfl
  · rw [readToken] at h
    unfold readFrom at h
    split at h
    case h_7 he | h_8 he | h_9 he => cases he
    case h_10 => cases h
    case h_11 => exact absurd (startsNumber_of_readNumber h) hnumber
    all_goals
      cases h
      rfl

theorem exists_of_readFrom {c : Char} {text rest : List Char} {token : Token}
    (h : readFrom c text = some (token, rest)) :
    ∃ used, text = used ++ rest ∧ '\x00' ∉ used ∧
      ∀ other, next other = next rest → readFrom c (used ++ other) = some (token, other) := by
  obtain ⟨used, htext, hnul, hread⟩ := consumes_readToken (c :: text) token rest h
  obtain ⟨rfl, rfl⟩ | ⟨used, rfl, rfl⟩ := List.cons_eq_append_iff.1 htext
  · cases readToken_singleton (hread [c] rfl)
  · exact ⟨used, rfl, fun hused => hnul (List.mem_cons_of_mem _ hused), hread⟩

/-! ### The end of a text -/

section Scan

variable {ending : List Token} {fuel : Nat} {c : Char} {text rest : List Char} {token : Token}

theorem scan_of_isBlank (hblank : isBlank c = true) :
    scan ending (fuel + 1) (c :: text) = scan ending fuel text := by
  have hc : c ≠ '\x00' := by
    rintro rfl
    exact absurd hblank (by decide)
  rw [scan, if_neg hc, if_pos hblank]

theorem scan_of_readFrom (hc : c ≠ '\x00') (hblank : isBlank c = false)
    (h : readFrom c text = some (token, rest)) :
    scan ending (fuel + 1) (c :: text) = token :: scan ending fuel rest := by
  simp [scan, hc, hblank, h]

/-- A text that does not break off goes on with a blank or a token. -/
theorem scan_cases (hc : c ≠ '\x00') (hbad : .bad ∉ scan ending (fuel + 1) (c :: text)) :
    isBlank c = true ∨ isBlank c = false ∧ ∃ token rest, readFrom c text = some (token, rest) := by
  cases hblank : isBlank c with
  | true => exact .inl rfl
  | false =>
    refine .inr ⟨rfl, ?_⟩
    cases h : readFrom c text with
    | none => simp [scan, hc, hblank, h] at hbad
    | some r => exact ⟨r.1, r.2, rfl⟩

end Scan

/-- Whether a text is over where `tail` begins: nothing is left, or a NUL character is next. -/
def Closes (ending : List Token) (tail : List Char) : Prop :=
  (tail = [] ∧ ending = []) ∨ ∃ more, tail = '\x00' :: more

theorem Closes.next_eq {ending : List Token} {tail : List Char} (h : Closes ending tail) :
    next tail = '\x00' := by
  obtain ⟨rfl, -⟩ | ⟨more, rfl⟩ := h <;> rfl

theorem Closes.scan_eq {ending : List Token} {tail : List Char} (h : Closes ending tail)
    {fuel : Nat} (hfuel : tail.length ≤ fuel) : scan ending fuel tail = [] := by
  obtain ⟨rfl, rfl⟩ | ⟨more, rfl⟩ := h
  · unfold scan
    rfl
  · cases fuel with
    | zero => cases hfuel
    | succ fuel => exact if_pos rfl

theorem exists_of_append_eq_append {ending : List Token} {text tail used rest : List Char}
    (htail : Closes ending tail) (hused : '\x00' ∉ used) (h : text ++ tail = used ++ rest) :
    ∃ left, text = used ++ left ∧ rest = left ++ tail := by
  obtain ⟨more, rfl, rfl⟩ | ⟨left, rfl, rfl⟩ := List.append_eq_append_iff.1 h
  · -- nothing of the tail is consumed: it starts with a NUL character, or is empty
    cases more with
    | nil => exact ⟨[], by simp, rfl⟩
    | cons c more =>
      obtain ⟨hempty, -⟩ | ⟨others, hnul⟩ := htail
      · cases hempty
      · obtain ⟨rfl, -⟩ := List.cons.inj hnul
        simp at hused
  · exact ⟨left, rfl, rfl⟩

/-- A text has the same tokens wherever it is over, unless it breaks off. -/
theorem scan_eq_of_closes {ending ending' : List Token} {text tail tail' : List Char}
    (hnul : '\x00' ∉ text) (htail : Closes ending tail) (htail' : Closes ending' tail')
    {fuel fuel' : Nat} (hfuel : (text ++ tail).length ≤ fuel)
    (hfuel' : (text ++ tail').length ≤ fuel') (hbad : .bad ∉ scan ending fuel (text ++ tail)) :
    scan ending' fuel' (text ++ tail') = scan ending fuel (text ++ tail) := by
  -- the text left gets shorter with the fuel
  induction fuel generalizing text fuel' with
  | zero =>
    have hempty := List.eq_nil_of_length_eq_zero (Nat.le_zero.1 hfuel)
    obtain ⟨rfl, rfl⟩ := List.append_eq_nil_iff.1 hempty
    rw [List.nil_append, htail'.scan_eq hfuel', List.nil_append, htail.scan_eq hfuel]
  | succ fuel ih =>
    cases text with
    | nil => rw [List.nil_append, htail'.scan_eq hfuel', List.nil_append, htail.scan_eq hfuel]
    | cons c text =>
      cases fuel' with
      | zero => simp at hfuel'
      | succ fuel' =>
        simp only [List.cons_append, List.length_cons, Nat.add_le_add_iff_right] at hfuel hfuel'
        obtain ⟨hc, hnul⟩ := List.ne_and_not_mem_of_not_mem_cons hnul
        simp only [List.cons_append] at hbad ⊢
        obtain hblank | ⟨hblank, token, rest, hread⟩ := scan_cases hc.symm hbad
        · rw [scan_of_isBlank hblank] at hbad ⊢
          rw [scan_of_isBlank hblank]
          exact ih hnul hfuel hfuel' hbad
        · obtain ⟨used, htext, hused, hother⟩ := exists_of_readFrom hread
          obtain ⟨left, rfl, rfl⟩ := exists_of_append_eq_append htail hused htext
          have hnext : next (left ++ tail') = next (left ++ tail) :=
            next_append (htail'.next_eq.trans htail.next_eq.symm) left
          have hread' := hother _ hnext
          rw [← List.append_assoc] at hread'
          rw [scan_of_readFrom hc.symm hblank hread] at hbad ⊢
          rw [scan_of_readFrom hc.symm hblank hread']
          simp only [List.length_append] at hfuel hfuel'
          refine congrArg _ (ih (fun h => hnul (List.mem_append_right _ h)) ?_ ?_ ?_)
          · simp only [List.length_append]
            omega
          · simp only [List.length_append]
            omega
          · exact fun h => hbad (List.mem_cons_of_mem _ h)

/-- A text without NUL characters goes on to its ending, unless it breaks off. -/
theorem bad_notMem_ending {ending : List Token} {text : List Char} (hnul : '\x00' ∉ text)
    {fuel : Nat} (hfuel : text.length ≤ fuel) (hbad : .bad ∉ scan ending fuel text) :
    .bad ∉ ending := by
  induction fuel generalizing text with
  | zero =>
    obtain rfl := List.eq_nil_of_length_eq_zero (Nat.le_zero.1 hfuel)
    exact hbad
  | succ fuel ih =>
    cases text with
    | nil => exact hbad
    | cons c text =>
      obtain ⟨hc, hnul⟩ := List.ne_and_not_mem_of_not_mem_cons hnul
      rw [List.length_cons, Nat.add_le_add_iff_right] at hfuel
      obtain hblank | ⟨hblank, token, rest, hread⟩ := scan_cases hc.symm hbad
      · rw [scan_of_isBlank hblank] at hbad
        exact ih hnul hfuel hbad
      · obtain ⟨used, rfl, -, -⟩ := exists_of_readFrom hread
        rw [scan_of_readFrom hc.symm hblank hread] at hbad
        rw [List.length_append] at hfuel
        exact ih (fun h => hnul (List.mem_append_right _ h)) (by omega)
          fun h => hbad (List.mem_cons_of_mem _ h)

/-! ### Documents -/

/-- Whether a text is that of bytes up to the first NUL character among them, or all of it if there
is none.  What stands behind a NUL character need not be a text. -/
def HasText (content : ByteArray) (text : String) : Prop :=
  '\x00' ∉ text.toList ∧
    (content = text.toUTF8 ∨ ∃ more, content = (text ++ "\x00").toUTF8 ++ more)

theorem dropMark_append {text tail : List Char} (h : next tail = '\x00') :
    dropMark (text ++ tail) = dropMark text ++ tail := by
  have hcons : ∀ {c : Char} (hc : c ≠ '\uFEFF') (rest : List Char),
      dropMark (c :: rest) = c :: rest := by
    intro c hc rest
    unfold dropMark
    split
    · next he => exact absurd (List.cons.inj he).1 hc
    · rfl
  cases text with
  | nil =>
    cases tail with
    | nil => rfl
    | cons c tail =>
      obtain rfl : c = '\x00' := h
      rfl
  | cons c text =>
    by_cases hc : c = '\uFEFF'
    · subst hc
      rfl
    · rw [List.cons_append, hcons hc, hcons hc, List.cons_append]

theorem nul_notMem_dropMark {text : List Char} (h : '\x00' ∉ text) : '\x00' ∉ dropMark text := by
  unfold dropMark
  split
  · exact List.not_mem_of_not_mem_cons h
  · exact h

/-- The tokens of bytes, which break off where they are ill-formed. -/
def endingOf (complete : Bool) : List Token := if complete then [] else [.bad]

theorem tokensOf_of_decode {content : ByteArray} {text : List Char} {complete : Bool}
    (h : Text.decode content = (text, complete)) :
    tokensOf content = scan (endingOf complete) (dropMark text).length (dropMark text) := by
  unfold tokensOf
  rw [h]
  rfl

/-- Bytes have the tokens of the text in them, if either are those of a document. -/
theorem tokensOf_eq_tokensOf {content : ByteArray} {text : String} {tail : List Char}
    {complete : Bool} (hnul : '\x00' ∉ text.toList)
    (hdecode : Text.decode content = (text.toList ++ tail, complete))
    (htail : Closes (endingOf complete) tail)
    (hbad : .bad ∉ tokensOf content ∨ .bad ∉ tokensOf text.toUTF8) :
    tokensOf content = tokensOf text.toUTF8 := by
  have hnul := nul_notMem_dropMark hnul
  have hnil : Closes (endingOf true) [] := .inl ⟨rfl, rfl⟩
  have hown : Text.decode text.toUTF8 = (text.toList ++ [], true) := by
    rw [Text.decode_toUTF8, List.append_nil]
  rw [tokensOf_of_decode hdecode, tokensOf_of_decode hown, dropMark_append htail.next_eq,
    dropMark_append hnil.next_eq] at hbad ⊢
  obtain hbad | hbad := hbad
  · exact (scan_eq_of_closes hnul htail hnil (Nat.le_refl _) (Nat.le_refl _) hbad).symm
  · exact scan_eq_of_closes hnul hnil htail (Nat.le_refl _) (Nat.le_refl _) hbad

theorem bad_notMem_tokensOf {content : ByteArray} {v : Json} (h : read content = .ok v) :
    .bad ∉ tokensOf content :=
  bad_notMem_of_ofTokens h

theorem read_of_hasText {content : ByteArray} {text : String} {v : Json}
    (htext : HasText content text) (h : read text.toUTF8 = .ok v) : read content = .ok v := by
  obtain ⟨hnul, rfl | ⟨more, rfl⟩⟩ := htext
  · exact h
  · have hdecode := Text.decode_append (text ++ "\x00").toList more
    rw [String.utf8Encode_toList, String.toList_append, List.append_assoc] at hdecode
    have htokens := tokensOf_eq_tokensOf hnul hdecode (.inr ⟨_, rfl⟩) (.inr (bad_notMem_tokensOf h))
    exact (congrArg ofTokens htokens).trans h

theorem exists_hasText_of_read {content : ByteArray} {v : Json} (h : read content = .ok v) :
    ∃ text, HasText content text ∧ read text.toUTF8 = .ok v := by
  have hbad := bad_notMem_tokensOf h
  obtain ⟨more, hcontent, hmore⟩ := Text.exists_eq_decode content
  cases hdecode : Text.decode content with
  | mk chars complete =>
    rw [hdecode] at hcontent hmore
    have hread : ∀ (text : String) (tail : List Char), '\x00' ∉ text.toList →
        chars = text.toList ++ tail → Closes (endingOf complete) tail →
        read text.toUTF8 = .ok v := by
      intro text tail hnul hchars htail
      have htokens := tokensOf_eq_tokensOf hnul (hchars ▸ hdecode) htail (.inl hbad)
      exact (congrArg ofTokens htokens.symm).trans h
    by_cases hnul : '\x00' ∈ chars
    · obtain ⟨front, back, rfl, hfront⟩ := List.eq_append_cons_of_mem hnul
      refine ⟨String.ofList front, ⟨by simpa using hfront, .inr ⟨back.utf8Encode ++ more, ?_⟩⟩,
        hread _ ('\x00' :: back) (by simpa using hfront) (by simp) (.inr ⟨_, rfl⟩)⟩
      have hbytes : (String.ofList front ++ "\x00").toUTF8 = (front ++ ['\x00']).utf8Encode :=
        String.ofList_append ▸ String.toByteArray_ofList
      rw [hbytes, ← ByteArray.append_assoc, ← List.utf8Encode_append, List.append_assoc]
      exact hcontent
    · -- without a NUL character, the bytes are well-formed to their end
      have hending : .bad ∉ endingOf complete := by
        rw [tokensOf_of_decode hdecode] at hbad
        exact bad_notMem_ending (nul_notMem_dropMark hnul) (Nat.le_refl _) hbad
      obtain rfl : complete = true := by
        cases complete with
        | true => rfl
        | false => simp [endingOf] at hending
      obtain rfl := hmore rfl
      refine ⟨String.ofList chars, ⟨by simpa using hnul, .inl ?_⟩,
        hread _ [] (by simpa using hnul) (by simp) (.inl ⟨rfl, rfl⟩)⟩
      rw [hcontent, ByteArray.append_empty]
      exact String.toByteArray_ofList.symm

/-- **A document ends with the first NUL character** of its bytes, whatever stands behind it: it is
the document that the text up to there is. -/
theorem read_eq_ok_iff {content : ByteArray} {v : Json} :
    read content = .ok v ↔ ∃ text, HasText content text ∧ read text.toUTF8 = .ok v := by
  constructor
  · exact exists_hasText_of_read
  · rintro ⟨text, htext, h⟩
    exact read_of_hasText htext h

end PluginHost.Json
