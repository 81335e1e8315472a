import TcadWebapp.Misc.Text

/-!
# Decoding a text file

`bytes.decode("utf-8", errors="replace")` as a machine that takes one byte at a time, and the
line ends of a file that is opened as text.
-/

namespace TcadWebapp.Utf8

/-- U+FFFD, which stands for bytes that are no character. -/
def replacement : Char := '\uFFFD'

/-- The character of a code point. -/
def charOf (n : Nat) : Char := if n.isValidChar then Char.ofNat n else replacement

/-- A character of which bytes are missing: its bits so far, the range of the next byte, and how
many bytes follow that one. -/
structure Pending where
  value : Nat
  low : Nat
  high : Nat
  more : Nat
  deriving DecidableEq, Repr

/-- A byte where a character begins. -/
def lead (b : Nat) : Text × Option Pending :=
  if b < 0x80 then ([charOf b], none)
  else if b < 0xC2 then ([replacement], none)
  else if b < 0xE0 then ([], some ⟨b - 0xC0, 0x80, 0xBF, 0⟩)
  else if b = 0xE0 then ([], some ⟨0, 0xA0, 0xBF, 1⟩)
  else if b = 0xED then ([], some ⟨0xD, 0x80, 0x9F, 1⟩)
  else if b < 0xF0 then ([], some ⟨b - 0xE0, 0x80, 0xBF, 1⟩)
  else if b = 0xF0 then ([], some ⟨0, 0x90, 0xBF, 2⟩)
  else if b < 0xF4 then ([], some ⟨b - 0xF0, 0x80, 0xBF, 2⟩)
  else if b = 0xF4 then ([], some ⟨4, 0x80, 0x8F, 2⟩)
  else ([replacement], none)

/-- The characters that a byte completes, and the one that is open after it. A byte that does not
continue the open character stands for the beginning of another one. -/
def step : Option Pending → Nat → Text × Option Pending
  | none, b => lead b
  | some open_, b =>
    if open_.low ≤ b ∧ b ≤ open_.high then
      let value := open_.value * 64 + b % 64
      match open_.more with
      | 0 => ([charOf value], none)
      | more + 1 => ([], some ⟨value, 0x80, 0xBF, more⟩)
    else (replacement :: (lead b).1, (lead b).2)

def decodeFrom : Option Pending → List UInt8 → Text
  | none, [] => []
  | some _, [] => [replacement]
  | state, b :: rest => (step state b.toNat).1 ++ decodeFrom (step state b.toNat).2 rest

/-- `decode`. -/
def decode (raw : List UInt8) : Text := decodeFrom none raw

/-- The line ends that reading makes of those of a file, `newline=None`. -/
def universalNewlines : Text → Text
  | '\r' :: '\n' :: rest => '\n' :: universalNewlines rest
  | '\r' :: rest => '\n' :: universalNewlines rest
  | c :: rest => c :: universalNewlines rest
  | [] => []

/-- `read_text(errors="replace")` of these bytes. -/
def readText (raw : List UInt8) : Text := universalNewlines (decode raw)

/-- The bytes of a text of ASCII characters. -/
def ascii (text : Text) : List UInt8 := text.map fun c => c.toNat.toUInt8

theorem decode_ascii {text : Text} (h : ∀ c ∈ text, c.toNat < 0x80) : decode (ascii text) = text := by
  unfold decode ascii
  induction text with
  | nil => rfl
  | cons c text ih =>
    obtain ⟨hc, rest⟩ := List.forall_mem_cons.mp h
    have byte : c.toNat.toUInt8.toNat = c.toNat := by
      rw [Nat.toUInt8, UInt8.toNat_ofNat']
      omega
    have same : charOf c.toNat = c := by
      rw [charOf, if_pos (Or.inl (by omega)), Char.ofNat_toNat]
    have first : step none c.toNat.toUInt8.toNat = ([c], none) := by
      rw [byte, step, lead, if_pos hc, same]
    rw [List.map_cons, decodeFrom, first, ih rest]
    rfl

theorem universalNewlines_eq {text : Text} (h : '\r' ∉ text) : universalNewlines text = text := by
  fun_induction universalNewlines text with
  | case1 => simp at h
  | case2 => simp at h
  | case3 c rest _ _ ih => rw [ih fun mem => h (List.mem_cons_of_mem _ mem)]
  | case4 => rfl

theorem cr_notMem_universalNewlines (text : Text) : '\r' ∉ universalNewlines text := by
  fun_induction universalNewlines text with
  | case1 rest ih => simp [ih]
  | case2 rest _ ih => simp [ih]
  | case3 c rest _ other ih =>
    have : c ≠ '\r' := fun same => other same
    simp [ih, this.symm]
  | case4 => simp

theorem universalNewlines_eq_iff {text : Text} : universalNewlines text = text ↔ '\r' ∉ text :=
  ⟨fun same => same ▸ cr_notMem_universalNewlines text, universalNewlines_eq⟩

/-- A text of ASCII characters without carriage returns is read as it was written. -/
theorem readText_ascii {text : Text} (h : ∀ c ∈ text, c.toNat < 0x80 ∧ c ≠ '\r') :
    readText (ascii text) = text := by
  rw [readText, decode_ascii fun c hc => (h c hc).1]
  exact universalNewlines_eq fun mem => (h _ mem).2 rfl

/-- A text that is written out is looked through. -/
theorem ascii_of_all {text : Text} (h : (text.all fun c => decide (c.toNat < 0x80 ∧ c ≠ '\r')) = true) :
    ∀ c ∈ text, c.toNat < 0x80 ∧ c ≠ '\r' :=
  fun c mem => of_decide_eq_true (List.all_eq_true.mp h c mem)

/-- What is no UTF-8 is replaced: a byte that begins nothing, one that does not continue, an end
within a character. -/
example : decode [0x41, 0xC3, 0xA9, 0xFF, 0xE2, 0x82, 0x42, 0xF0] =
    ['A', 'é', replacement, replacement, 'B', replacement] := by decide

end TcadWebapp.Utf8
