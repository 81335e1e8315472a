import TcadWebapp.Misc.Text

/-!
# Regular expressions

Patterns of Python's `re`, matched by backtracking: `hits` lists the ends of the matches at a
place in the order in which they are tried, so that the first of them is the match. `search` and
`finditer` go through the places of a text from its start.
-/

namespace TcadWebapp

/-- A place in a text: what stands before it, nearest first, and what is left. -/
structure Cursor where
  before : Text
  rest : Text
  deriving DecidableEq, Repr

namespace Cursor

/-- The text that it is a place in. -/
def text (place : Cursor) : Text := place.before.reverse ++ place.rest

/-- Between a place and one that follows it. -/
def upTo (place stop : Cursor) : Text := place.rest.take (place.rest.length - stop.rest.length)

end Cursor

/-- A pattern, in which at most one group is asked for. -/
inductive Regex where
  | empty
  /-- One character of a class. -/
  | one (p : Char → Bool)
  /-- `p*`. -/
  | many (p : Char → Bool)
  /-- `p*?`. -/
  | few (p : Char → Bool)
  /-- `^` without `MULTILINE`. -/
  | textStart
  /-- `^` with `MULTILINE`. -/
  | lineStart
  /-- `$` with `MULTILINE`. -/
  | lineEnd
  /-- `(?:r)?`. -/
  | optional (r : Regex)
  | seq (r s : Regex)
  /-- `(r)`. -/
  | group (r : Regex)

/-- Where a match ends, and what the group holds. -/
structure Hit where
  stop : Cursor
  group : Option Text
  deriving DecidableEq, Repr

/-- A match. -/
structure Match extends Hit where
  start : Cursor
  deriving DecidableEq, Repr

/-- `match.group(1)`. -/
def Match.group1 (m : Match) : Text := m.group.getD []

namespace Regex

/-- The places to which characters of a class lead, nearest first. -/
def places (p : Char → Bool) : Text → Text → List Cursor
  | before, [] => [⟨before, []⟩]
  | before, c :: rest => ⟨before, c :: rest⟩ :: if p c then places p (c :: before) rest else []

/-- The matches from a place, in the order in which they are tried. -/
def hits : Regex → Cursor → List Hit
  | empty, place => [⟨place, none⟩]
  | one p, place =>
    match place.rest with
    | [] => []
    | c :: rest => if p c then [⟨⟨c :: place.before, rest⟩, none⟩] else []
  | many p, place => (places p place.before place.rest).reverse.map (⟨·, none⟩)
  | few p, place => (places p place.before place.rest).map (⟨·, none⟩)
  | textStart, place => if place.before = [] then [⟨place, none⟩] else []
  | lineStart, place => if place.before.head?.all (· = '\n') then [⟨place, none⟩] else []
  | lineEnd, place => if place.rest.head?.all (· = '\n') then [⟨place, none⟩] else []
  | optional r, place => r.hits place ++ [⟨place, none⟩]
  | seq r s, place => (r.hits place).flatMap fun first =>
      (s.hits first.stop).map fun second => ⟨second.stop, second.group.or first.group⟩
  | group r, place => (r.hits place).map fun hit => ⟨hit.stop, some (place.upTo hit.stop)⟩

/-- `p+`. -/
def many1 (p : Char → Bool) : Regex := seq (one p) (many p)

/-- `p+?`. -/
def few1 (p : Char → Bool) : Regex := seq (one p) (few p)

/-- Characters to be found as they stand, then a pattern. -/
def literal (same : Char → Char → Bool) (text : Text) (next : Regex) : Regex :=
  text.foldr (fun c next => seq (one (same c)) next) next

/-- `re.match` at a place. -/
def matchAt (r : Regex) (place : Cursor) : Option Match :=
  (r.hits place).head?.map fun hit => { hit with start := place }

/-- `search` from a place on. -/
def searchFrom (r : Regex) : Text → Text → Option Match
  | before, [] => r.matchAt ⟨before, []⟩
  | before, c :: rest => (r.matchAt ⟨before, c :: rest⟩).or (searchFrom r (c :: before) rest)

/-- `pattern.search(text)`. -/
def search (r : Regex) (text : Text) : Option Match := r.searchFrom [] text

/-- `finditer` from a place on, some characters of which the last match has taken. -/
def finditerFrom (r : Regex) : Nat → Text → Text → List Match
  | _, _, [] => []
  | taken + 1, before, c :: rest => finditerFrom r taken (c :: before) rest
  | 0, before, c :: rest =>
    match r.matchAt ⟨before, c :: rest⟩ with
    | none => finditerFrom r 0 (c :: before) rest
    | some m => m :: finditerFrom r (rest.length - m.stop.rest.length) (c :: before) rest

/-- `pattern.finditer(text)`, of a pattern that takes at least a character. -/
def finditer (r : Regex) (text : Text) : List Match := r.finditerFrom 0 [] text

/-- `pattern.findall(text)`, of a pattern with a group. -/
def findall (r : Regex) (text : Text) : List Text := (r.finditer text).map Match.group1

/-! ## Matches are in the text -/

theorem hits_literal_of_ne {same : Char → Char → Bool} {text : Text} {c d : Char} {next : Regex}
    (first : text.head? = some c) (h : same c d = false) (before rest : Text) :
    (literal same text next).hits ⟨before, d :: rest⟩ = [] := by
  cases text with
  | nil => cases first
  | cons c' text =>
    obtain rfl := Option.some.inj first
    simp [literal, hits, h]

/-- `^` without `MULTILINE` matches nowhere but at the start. -/
theorem search_textStart (r : Regex) (text : Text) :
    (seq textStart r).search text = (seq textStart r).matchAt ⟨[], text⟩ := by
  have later (before rest : Text) (c : Char) :
      (seq textStart r).searchFrom (c :: before) rest = none := by
    induction rest generalizing before c with
    | nil => rfl
    | cons d rest ih => exact ih (c :: before) d
  cases text with
  | nil => rfl
  | cons c text => rw [search, searchFrom, later, Option.or_none]

end Regex

end TcadWebapp
