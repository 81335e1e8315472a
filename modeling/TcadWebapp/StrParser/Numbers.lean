import TcadWebapp.Misc.Decimal
import TcadWebapp.StrParser.Writer

/-!
# Reading back what was written

What is relied on of `int`, `float`, `%g` and `%e`, and numbers for which it holds: decimals
without fractions.
-/

namespace TcadWebapp.StrParser

/-- A format is a projection: what it wrote is read back as a number that is written the same. -/
structure Projects {F : Type} (float : Text → Option F) (format : F → Text) : Prop where
  word : ∀ x, (format x).IsWord
  back : ∀ x, ∃ y, float (format x) = some y ∧ format y = format x

/-- `int` reads what `str` wrote, and `float` what `%g` and `%e` wrote, but for rounding. -/
structure Laws {F : Type} (reader : Reader F) (printer : Printer F) : Prop where
  int : ∀ i, reader.int (intText i) = some i
  g : Projects reader.float printer.g
  e : Projects reader.float printer.e

theorem isSpace_of_isDigit {c : Char} (h : c.isDigit) : isSpace c = false := by
  have range : 48 ≤ c.toNat ∧ c.toNat ≤ 57 := by
    simpa [Char.isDigit, UInt32.le_iff_toNat_le] using h
  obtain ⟨low, high⟩ := range
  simp only [isSpace, List.mem_cons, List.not_mem_nil, or_false, decide_eq_false_iff_not]
  omega

theorem isWord_intText (i : Int) : (intText i).IsWord := by
  unfold intText
  rw [toList_toString_int]
  have digits : ∀ n : Nat, Text.IsWord (Nat.toDigits 10 n) := fun n =>
    ⟨Nat.toDigits_ne_nil, fun c hc => isSpace_of_isDigit (isDigit_of_mem_toDigits hc)⟩
  split
  · exact digits _
  · refine ⟨by simp, ?_⟩
    rw [List.forall_mem_cons]
    exact ⟨rfl, (digits _).2⟩

/-- `.000000e+00`. -/
def noFraction : Text := ['.', '0', '0', '0', '0', '0', '0', 'e', '+', '0', '0']

/-- Reads decimals, and floats without a fraction. -/
def plainReader : Reader Rat where
  int := ofDecimal
  float text := (ofDecimal (if noFraction <:+ text then text.take (text.length - noFraction.length)
    else text)).map (↑)
  zero := 0
  repr s := "'" ++ s ++ "'"

/-- Writes floats without their fractions. -/
def plainPrinter : Printer Rat where
  g x := intText x.num
  e x := intText x.num ++ noFraction

theorem dot_notMem_intText (i : Int) : '.' ∉ intText i := by
  unfold intText
  rw [toList_toString_int]
  have digits : ∀ n : Nat, '.' ∉ Nat.toDigits 10 n := by
    intro n h
    simpa using isDigit_of_mem_toDigits h
  split
  · exact digits _
  · simpa using digits _

theorem plain_float_g (x : Rat) : plainReader.float (plainPrinter.g x) = some (x.num : Rat) := by
  have whole : ¬ noFraction <:+ intText x.num := by
    intro h
    exact dot_notMem_intText x.num (h.subset (by simp [noFraction]))
  show (ofDecimal (if noFraction <:+ intText x.num then _ else _)).map _ = _
  rw [if_neg whole]
  exact congrArg (Option.map _) (ofDecimal_toString x.num)

theorem plain_float_e (x : Rat) : plainReader.float (plainPrinter.e x) = some (x.num : Rat) := by
  have behind : noFraction <:+ plainPrinter.e x := List.suffix_append _ _
  have cut : (plainPrinter.e x).take ((plainPrinter.e x).length - noFraction.length) =
      intText x.num := by
    simp only [plainPrinter, List.length_append, Nat.add_sub_cancel, List.take_left]
  show (ofDecimal (if noFraction <:+ plainPrinter.e x then _ else _)).map _ = _
  rw [if_pos behind, cut]
  exact congrArg (Option.map _) (ofDecimal_toString x.num)

theorem plain_laws : Laws plainReader plainPrinter where
  int := ofDecimal_toString
  g := ⟨fun x => isWord_intText x.num, fun x => ⟨_, plain_float_g x, by simp [plainPrinter]⟩⟩
  e := by
    refine ⟨fun x => ?_, fun x => ⟨_, plain_float_e x, by simp [plainPrinter]⟩⟩
    obtain ⟨ne, word⟩ := isWord_intText x.num
    refine ⟨by simp [plainPrinter, ne], ?_⟩
    intro c hc
    rcases List.mem_append.mp hc with hc | hc
    · exact word c hc
    · have words : noFraction.all (fun c => !isSpace c) = true := by decide
      simpa using List.all_eq_true.mp words c hc

end TcadWebapp.StrParser
