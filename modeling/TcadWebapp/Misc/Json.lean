import Mathlib.Data.List.Pairwise
import Mathlib.Data.Rat.Defs
import TcadWebapp.Misc.Text

/-!
# JSON values and a library for them

The values that Python's `json` module reads and writes, and the module itself as a
parameter: a `Library` is `Faithful` to some values if it reads back what it wrote of them
and rejects what is cut off.
-/

namespace TcadWebapp

inductive Json where
  | null
  | bool (b : Bool)
  | int (n : Int)
  | num (v : Rat)
  | str (s : String)
  | arr (items : List Json)
  | obj (entries : List (String × Json))

namespace Json

/-- The entries of a dictionary; `none` is any other value. -/
def entries? : Json → Option (List (String × Json))
  | obj entries => some entries
  | _ => none

/-- `entries.get(key)`. -/
def get? (entries : List (String × Json)) (key : String) : Option Json :=
  (entries.find? fun entry => entry.1 = key).map Prod.snd

/-- `value == text`. -/
def isText (text : String) : Json → Bool
  | str s => s = text
  | _ => false

/-- `value is False`. -/
def isFalse : Json → Bool
  | bool b => !b
  | _ => false

/-- `json.dumps` and `json.loads`; `none` is a ValueError. -/
structure Library where
  dumps : Json → Text
  loads : Text → Option Json

/-- What is relied on of `json` for some values, written as objects with the default
`ensure_ascii`. -/
structure Library.Faithful (json : Library) (values : List Json) : Prop where
  loads_dumps : ∀ value ∈ values, json.loads (json.dumps value) = some value
  torn : ∀ value ∈ values, ∀ text, text <+: json.dumps value → text ≠ json.dumps value →
    json.loads text = none
  oneLine : ∀ value ∈ values, (json.dumps value).OneLine
  trimmed : ∀ value ∈ values, (json.dumps value).Trimmed

theorem Library.Faithful.of_cons {json : Library} {value : Json} {values : List Json}
    (h : json.Faithful (value :: values)) : json.Faithful values := by
  have tail : ∀ v ∈ values, v ∈ value :: values := fun _ => List.mem_cons_of_mem _
  exact ⟨fun v hv => h.loads_dumps v (tail v hv), fun v hv => h.torn v (tail v hv),
    fun v hv => h.oneLine v (tail v hv), fun v hv => h.trimmed v (tail v hv)⟩

/-! ## Writing -/

/-- `\uXXXX`. -/
def escapeUnit (n : Nat) : Text :=
  '\\' :: 'u' :: [n / 4096, n / 256, n / 16, n].map fun d => Nat.digitChar (d % 16)

/-- A character in a string written with `ensure_ascii`. -/
def escape (c : Char) : Text :=
  if c = '"' then ['\\', '"']
  else if c = '\\' then ['\\', '\\']
  else if c = '\n' then ['\\', 'n']
  else if c = '\r' then ['\\', 'r']
  else if c = '\t' then ['\\', 't']
  else if 0x20 ≤ c.toNat ∧ c.toNat ≤ 0x7e then [c]
  else if c.toNat < 0x10000 then escapeUnit c.toNat
  else
    let rest := c.toNat - 0x10000
    escapeUnit (0xd800 + rest / 1024) ++ escapeUnit (0xdc00 + rest % 1024)

def writeString (s : String) : Text := '"' :: s.toList.flatMap escape ++ ['"']

def writeInt (n : Int) : Text := (toString n).toList

mutual

/-- What `json.dumps` writes; of the floats only those that are whole numbers below `10 ^ 16` are
written as Python writes them. -/
def write : Json → Text
  | null => "null".toList
  | bool b => (if b then "true" else "false").toList
  | int n => writeInt n
  | num v => if v.den = 1 then writeInt v.num ++ ".0".toList
      else writeInt v.num ++ '/' :: writeInt v.den
  | str s => writeString s
  | arr items => '[' :: writeItems items ++ [']']
  | obj entries => '{' :: writeEntries entries ++ ['}']

def writeItems : List Json → Text
  | [] => []
  | [item] => write item
  | item :: items => write item ++ ", ".toList ++ writeItems items

def writeEntries : List (String × Json) → Text
  | [] => []
  | [(key, value)] => writeString key ++ ": ".toList ++ write value
  | (key, value) :: entries =>
    writeString key ++ ": ".toList ++ write value ++ ", ".toList ++ writeEntries entries

end

/-- A library that reads back just the given values. -/
def tableLibrary (values : List Json) : Library where
  dumps := write
  loads text := values.find? fun value => write value = text

/-- Neither value is written as the beginning of the other. -/
def Separate (value value' : Json) : Prop := ¬ write value <+: write value' ∧ ¬ write value' <+: write value

instance : Std.Symm Separate := ⟨fun _ _ h => h.symm⟩

instance (value value' : Json) : Decidable (Separate value value') :=
  inferInstanceAs (Decidable (¬ write value <+: write value' ∧ ¬ write value' <+: write value))

theorem tableLibrary_faithful {values : List Json} (separate : values.Pairwise Separate)
    (oneLine : ∀ text ∈ values.map write, text.OneLine)
    (trimmed : ∀ text ∈ values.map write, text.Trimmed) :
    (tableLibrary values).Faithful values := by
  have alone : ∀ value ∈ values, ∀ value' ∈ values, write value' <+: write value →
      value' = value := by
    intro value hv value' hv' pre
    by_contra ne
    exact (separate.forall hv' hv ne).1 pre
  refine ⟨?_, ?_, ?_, ?_⟩
  · intro value hv
    cases hf : values.find? (fun v => write v = write value) with
    | none =>
      have := List.find?_eq_none.mp hf value hv
      simp at this
    | some found =>
      have e : write found = write value := by simpa using List.find?_some hf
      have := alone value hv found (List.mem_of_find?_eq_some hf) (e ▸ List.prefix_refl _)
      exact hf.trans (congrArg some this)
  · intro value hv text pre ne
    refine List.find?_eq_none.mpr ?_
    intro found hf e
    have e : write found = text := by simpa using e
    have := alone value hv found hf (e ▸ pre)
    exact ne (by rw [← e, this]; rfl)
  · exact fun value hv => oneLine _ (List.mem_map.mpr ⟨value, hv, rfl⟩)
  · exact fun value hv => trimmed _ (List.mem_map.mpr ⟨value, hv, rfl⟩)

end Json

end TcadWebapp
