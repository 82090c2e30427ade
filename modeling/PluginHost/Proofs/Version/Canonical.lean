import PluginHost.Proofs.Manager.Ranking
import PluginHost.Proofs.Version.Reading

/-!
# Canonical texts of versions, and their order

A version is printed as its three numbers, and read back from that (`Version.parse_print`).  So of
all the texts of a version the printed one is canonical, and versions are the same if their
canonical texts are.  All comparisons of versions are those of one linear order, in which the
numbers are compared from left to right (`Version.ComparesAs`, `Version.parse_canonical`).
-/

namespace PluginHost

namespace Version

variable {v w : Version}

/-! ### Printing -/

theorem isDigit_of_mem_toDigits {n : ℕ} {c : Char} (h : c ∈ Nat.toDigits 10 n) :
    Text.isDigit c = true := by
  have hdigit := Nat.isDigit_of_mem_toDigits (by decide) (by decide) h
  simpa [Char.isDigit, Text.isDigit, Char.le_def] using hdigit

theorem component?_toDigits (n : UInt16) : component? (Nat.toDigits 10 n.toNat) = some n := by
  refine component?_eq_some_iff.2
    ⟨Nat.toDigits_ne_nil, ?_, fun _ => isDigit_of_mem_toDigits, ?_⟩
  · rw [Nat.length_toDigits_le_iff (by decide) (by decide)]
    exact Nat.lt_trans n.toNat_lt (by decide)
  · have hvalue : Text.digitsValue = fun digits => Nat.ofDigitChars 10 digits 0 := by
      funext digits
      simp only [Text.digitsValue, Nat.ofDigitChars_eq_foldl, mul_comm]
    rw [hvalue]
    exact Nat.ofDigitChars_ten_toDigits

/-- The printed numbers of a version, from left to right. -/
def printedNumbers (v : Version) : List (List Char) :=
  [v.major, v.minor, v.patch].map fun n => Nat.toDigits 10 n.toNat

theorem toList_print (v : Version) : v.print.toList = ['.'].intercalate v.printedNumbers := by
  simp [print, printedNumbers, List.intercalate_cons_cons]

theorem isDigit_of_mem_printedNumbers {part : List Char} (hpart : part ∈ v.printedNumbers)
    {c : Char} (hc : c ∈ part) : Text.isDigit c = true := by
  obtain ⟨n, -, rfl⟩ := List.mem_map.1 hpart
  exact isDigit_of_mem_toDigits hc

theorem components_print (v : Version) : components v.print.toList = v.printedNumbers := by
  rw [components_eq_splitOn, toList_print]
  refine List.splitOn_intercalate _ (fun part hpart hpoint => ?_) (by simp [printedNumbers])
  exact absurd (isDigit_of_mem_printedNumbers hpart hpoint) (by decide)

theorem withoutQualifier_print (v : Version) :
    withoutQualifier v.print.toList = v.print.toList := by
  refine List.takeWhile_eq_self_iff.2 fun c hc => decide_eq_true ?_
  rintro rfl
  rw [toList_print] at hc
  rcases Text.mem_of_mem_intercalate hc with hpoint | ⟨part, hpart, hmem⟩
  · exact absurd hpoint (by decide)
  · exact absurd (isDigit_of_mem_printedNumbers hpart hmem) (by decide)

/-- **A version is read back from its printed form.** -/
theorem parse_print (v : Version) : parse v.print = .ok v := by
  have hnumbers : v.printedNumbers.mapM component? = some [v.major, v.minor, v.patch] := by
    simp [printedNumbers, component?_toDigits]
  rw [parse_eq_ok_iff, parse?, withoutQualifier_print, components_print, hnumbers]
  rfl

theorem print_injective : Function.Injective print := fun v w h =>
  Except.ok.inj ((parse_print v).symm.trans ((congrArg parse h).trans (parse_print w)))

/-! ### Comparisons -/

theorem numbers_injective : Function.Injective numbers := by
  rintro ⟨a, b, c⟩ ⟨a', b', c'⟩ h
  simp only [numbers, toLex_inj, Prod.mk.injEq, UInt16.toNat_inj] at h
  obtain ⟨rfl, rfl, rfl⟩ := h
  rfl

/-- Whether all comparisons of two versions are those of two places in a linear order. -/
structure ComparesAs {α : Type} [LinearOrder α] (v w : Version) (x y : α) : Prop where
  lt : v < w ↔ x < y
  gt : v > w ↔ x > y
  le : v ≤ w ↔ x ≤ y
  ge : v ≥ w ↔ x ≥ y
  eq : (v == w) = true ↔ x = y
  ne : (v != w) = true ↔ x ≠ y
  newer : v.isNewerThan w = true ↔ x > y

theorem comparesAs_numbers (v w : Version) : ComparesAs v w v.numbers w.numbers where
  lt := lt_iff_numbers_lt
  gt := lt_iff_numbers_lt
  le := (not_congr lt_iff_numbers_lt).trans not_lt
  ge := (not_congr lt_iff_numbers_lt).trans not_lt
  eq := beq_iff_eq.trans numbers_injective.eq_iff.symm
  ne := bne_iff_ne.trans (not_congr numbers_injective.eq_iff.symm)
  newer := decide_eq_true_iff.trans lt_iff_numbers_lt

theorem ComparesAs.trichotomy {α : Type} [LinearOrder α] {x y : α} (h : ComparesAs v w x y) :
    (v < w ∧ ¬ (v == w) = true ∧ ¬ v > w) ∨ (¬ v < w ∧ (v == w) = true ∧ ¬ v > w) ∨
      (¬ v < w ∧ ¬ (v == w) = true ∧ v > w) := by
  rw [h.lt, h.eq, h.gt]
  rcases lt_trichotomy x y with hlt | heq | hgt
  · exact .inl ⟨hlt, hlt.ne, hlt.not_gt⟩
  · exact .inr (.inl ⟨heq.not_lt, heq, heq.not_gt⟩)
  · exact .inr (.inr ⟨hgt.not_gt, hgt.ne', hgt⟩)

theorem lt_of_lt_of_lt {u : Version} (h : v < w) (h' : w < u) : v < u := by
  rw [lt_iff_numbers_lt] at h h' ⊢
  exact lt_trans h h'

/-! ### Canonical texts -/

/-- The place of numbers that are compared from left to right; missing ones are zero. -/
def place (numbers : List ℕ) : ℕ ×ₗ ℕ ×ₗ ℕ :=
  toLex (numbers.getD 0 0, toLex (numbers.getD 1 0, numbers.getD 2 0))

theorem exists_spells_of_isValid {bytes : List UInt8}
    (h : isValid (Text.ofBytes bytes) = true) :
    ∃ v numbers, parse (Text.ofBytes bytes) = .ok v ∧ Spells bytes numbers ∧
      v.numbers = place numbers := by
  obtain ⟨v, hv⟩ := isValid_iff.1 h
  obtain ⟨numbers, hspells, hmajor, hminor, hpatch⟩ :=
    parse?_ofBytes_eq_some_iff.1 (parse_eq_ok_iff.1 hv)
  refine ⟨v, numbers, hv, hspells, ?_⟩
  rw [Version.numbers, place, hmajor, hminor, hpatch]

/-- **Printed versions are canonical, and versions are in one order.**  Every version is read back
from its printed form.  The printed form of what a valid text stands for is valid, stands for the
same and is its own printed form, and two of them are the same exactly if the versions are.  All
comparisons of two versions are those of the numbers that their texts spell, from left to right:
one comes before the other or they are the same, never two of that, and the order is transitive. -/
theorem parse_canonical :
    (∀ u : Version, parse u.print = .ok u) ∧
    ∀ a b, isValid (Text.ofBytes a) = true → isValid (Text.ofBytes b) = true →
    ∃ v w xs ys, (parse (Text.ofBytes a) = .ok v ∧ Spells a xs) ∧
      (parse (Text.ofBytes b) = .ok w ∧ Spells b ys) ∧
      (isValid v.print = true ∧ parse v.print = .ok v ∧
        (parse v.print).map print = .ok v.print) ∧
      (v.print = w.print ↔ (v == w) = true) ∧
      ComparesAs v w (place xs) (place ys) ∧
      ((v < w ∧ ¬ (v == w) = true ∧ ¬ v > w) ∨ (¬ v < w ∧ (v == w) = true ∧ ¬ v > w) ∨
        (¬ v < w ∧ ¬ (v == w) = true ∧ v > w)) ∧
      ∀ u, v < w → w < u → v < u := by
  refine ⟨parse_print, fun a b ha hb => ?_⟩
  obtain ⟨v, xs, hv, hxs, hplace⟩ := exists_spells_of_isValid ha
  obtain ⟨w, ys, hw, hys, hplace'⟩ := exists_spells_of_isValid hb
  have hcompare := comparesAs_numbers v w
  rw [hplace, hplace'] at hcompare
  refine ⟨v, w, xs, ys, ⟨hv, hxs⟩, ⟨hw, hys⟩, ⟨?_, parse_print v, ?_⟩, ?_, hcompare,
    hcompare.trichotomy, fun _ => lt_of_lt_of_lt⟩
  · exact isValid_iff.2 ⟨v, parse_print v⟩
  · rw [parse_print]
    rfl
  · exact print_injective.eq_iff.trans beq_iff_eq.symm

/-- A text with a leading zero and a qualifier, and one that is lower as a row of characters. -/
theorem parse_canonical_of_qualified :
    isValid (Text.ofBytes (Text.bytes "01.2-beta")) = true ∧
      isValid (Text.ofBytes (Text.bytes "1.10")) = true ∧
      ∃ v w, parse (Text.ofBytes (Text.bytes "01.2-beta")) = .ok v ∧
        parse (Text.ofBytes (Text.bytes "1.10")) = .ok w ∧ v.print = "1.2.0" ∧
        w.print = "1.10.0" ∧ v.print ≠ w.print ∧ v < w := by
  have ha : isValid (Text.ofBytes (Text.bytes "01.2-beta")) = true := by decide
  have hb : isValid (Text.ofBytes (Text.bytes "1.10")) = true := by decide
  obtain ⟨v, w, xs, ys, ⟨hv, -⟩, ⟨hw, -⟩, -, hprint, -⟩ := parse_canonical.2 _ _ ha hb
  obtain rfl : v = ⟨1, 2, 0⟩ := Except.ok.inj (hv.symm.trans (by decide))
  obtain rfl : w = ⟨1, 10, 0⟩ := Except.ok.inj (hw.symm.trans (by decide))
  exact ⟨ha, hb, _, _, hv, hw, by decide, by decide, mt hprint.1 (by decide), by decide⟩

end Version

end PluginHost
