import TcadWebapp.Catalog.Proofs.Completion
import TcadWebapp.Suprem.Names
import TcadWebapp.Suprem.Proofs.KeyFile

/-!
# The catalog and the simulator

Both read one key file. When a word stands for the same command and the same parameter in the catalog and in the
simulator (`getProc_agrees`, `nameCheck_agrees_iff`).
-/

namespace TcadWebapp.Suprem

open Catalog

/-! ## Beginnings -/

theorem commonFrom_eq (s ss : List Byte) (n : ℕ) :
    commonFrom s ss n = if ss <+: s then n + ss.length else 0 := by
  fun_induction commonFrom s ss n with
  | case1 => simp
  | case2 => simp
  | case3 s n d ss ih =>
    rw [ih]
    simp only [List.cons_prefix_cons, true_and, List.length_cons]
    split_ifs <;> omega
  | case4 n c s d ss ne => simp [List.cons_prefix_cons, Ne.symm ne]

theorem substring_eq (s ss : List Byte) : substring s ss = if ss <+: s then ss.length else 0 := by
  rw [substring, commonFrom_eq, Nat.zero_add]

theorem begins_iff {s ss : List Byte} : begins s ss = true ↔ ss ≠ [] ∧ ss <+: s := by
  rw [begins, substring_eq]
  cases ss with
  | nil => simp
  | cons d ss =>
    cases s with
    | nil => simp
    | cons c s =>
      simp only [List.cons_prefix_cons, List.head?_cons, List.length_cons]
      by_cases same : d = c <;> simp [same, eq_comm]

/-- What `name_check` says of the parameters that a word hits. -/
def verdict : List Param → ℤ × Option Param
  | [] => (-1, none)
  | [par] => (0, some par)
  | par :: _ :: _ => (-2, some par)

theorem nameCheck_eq (name : List Byte) (forest : Forest Param) (ret : Option Param) :
    nameCheck name forest ret = verdict (ret.toList ++ forest.flat.filter fun par => begins par.name name) := by
  induction forest generalizing ret with
  | nil => cases ret <;> simp [nameCheck, Forest.flat, verdict]
  | cons par below after ih_below ih_after =>
    rw [nameCheck, Forest.flat, List.filter_cons, List.filter_append]
    by_cases hit : begins par.name name = true
    · cases ret with
      | some first => simp [hit, verdict]
      | none =>
        simp only [hit, ne_eq, not_true_eq_false, and_false, if_false, if_true, ih_below, Option.toList_some,
          Option.toList_none, List.nil_append, List.singleton_append]
        cases found : below.flat.filter fun par => begins par.name name with
        | nil => simp [ih_after, verdict]
        | cons second rest => simp [verdict]
    · simp only [hit, Bool.false_eq_true, false_and, if_false, ih_below]
      cases ret with
      | some first =>
        cases found : below.flat.filter fun par => begins par.name name with
        | nil => simp [ih_after, verdict]
        | cons second rest => simp [verdict]
      | none =>
        cases found : below.flat.filter fun par => begins par.name name with
        | nil => simp [ih_after, verdict]
        | cons first rest =>
          cases rest with
          | nil => simp [ih_after, verdict]
          | cons second rest => simp [verdict]

/-! ## Texts -/

/-- The characters of a key file are bytes. -/
def bytes (text : Text) : List Byte := text.map fun c => BitVec.ofNat 8 c.toNat

def Ascii (text : Text) : Prop := ∀ c ∈ text, c.toNat < 128

theorem byte_inj {c d : Char} (c_ : c.toNat < 128) (d_ : d.toNat < 128) :
    (BitVec.ofNat 8 c.toNat : Byte) = BitVec.ofNat 8 d.toNat ↔ c = d := by
  constructor
  · intro eq
    have := congrArg BitVec.toNat eq
    rw [BitVec.toNat_ofNat, BitVec.toNat_ofNat, Nat.mod_eq_of_lt (by omega), Nat.mod_eq_of_lt (by omega)] at this
    exact Char.toNat_inj.mp this
  · rintro rfl
    rfl

theorem bytes_prefix_iff {text other : Text} (text_ : Ascii text) (other_ : Ascii other) :
    bytes text <+: bytes other ↔ text.isPrefixOf other = true := by
  rw [List.isPrefixOf_iff_prefix]
  induction text generalizing other with
  | nil => simp [bytes]
  | cons c text ih =>
    cases other with
    | nil => simp [bytes]
    | cons d other =>
      have tail := ih (fun x mem => text_ x (List.mem_cons_of_mem c mem)) fun x mem => other_ x (List.mem_cons_of_mem d mem)
      rw [bytes, bytes] at tail ⊢
      rw [List.map_cons, List.map_cons, List.cons_prefix_cons, List.cons_prefix_cons, tail,
        byte_inj (text_ c List.mem_cons_self) (other_ d List.mem_cons_self)]

theorem bytes_ne_nil {text : Text} : bytes text ≠ [] ↔ text ≠ [] := by simp [bytes]

/-! ## Commands -/

/-- What the rounds of `get_proc` have come to after these entries with the name at their beginning. -/
def Best.Tells (name : List Byte) (hits : List (List Byte × ℕ)) (s : Best) : Prop :=
  match hits with
  | [] => s.best = none ∧ s.bestMatch = 0
  | [hit] => s.best = some hit.2 ∧ s.bestMatch = name.length ∧ s.ambig = false
  | hit :: _ :: _ => s.best = some hit.2 ∧ s.bestMatch = name.length ∧ s.ambig = true

theorem Best.Tells.next {name : List Byte} {hits : List (List Byte × ℕ)} {s : Best} (some_ : name ≠ [])
    (tells : s.Tells name hits) (entry : List Byte × ℕ) :
    (s.next name entry).Tells name (hits ++ [entry].filter fun entry => name.isPrefixOf entry.1) := by
  have long : 0 < name.length := List.length_pos_of_ne_nil some_
  have match_ := substring_eq entry.1 name
  by_cases hit : name <+: entry.1
  · rw [if_pos hit] at match_
    have kept : [entry].filter (fun entry => name.isPrefixOf entry.1) = [entry] := by simp [hit]
    rw [kept]
    match hits, tells with
    | [], ⟨best, zero⟩ => simp [Best.next, Best.Tells, match_, zero, long, some_]
    | [first], ⟨best, whole, clear⟩ => simp [Best.next, Best.Tells, match_, best, whole]
    | first :: second :: rest, ⟨best, whole, ambig⟩ => simp [Best.next, Best.Tells, match_, best, whole]
  · rw [if_neg hit] at match_
    have dropped : [entry].filter (fun entry => name.isPrefixOf entry.1) = [] := by simp [hit]
    rw [dropped, List.append_nil]
    match hits, tells with
    | [], ⟨best, zero⟩ => simp [Best.next, Best.Tells, match_, zero, best]
    | [first], ⟨best, whole, clear⟩ => simp [Best.next, Best.Tells, match_, best, whole, clear, long.ne]
    | first :: second :: rest, ⟨best, whole, ambig⟩ =>
      simp [Best.next, Best.Tells, match_, best, whole, ambig, long.ne]

theorem Best.Tells.rounds {name : List Byte} (some_ : name ≠ []) (entries : List (List Byte × ℕ))
    (hits : List (List Byte × ℕ)) (s : Best) (tells : s.Tells name hits) :
    (entries.foldl (Best.next name) s).Tells name (hits ++ entries.filter fun entry => name.isPrefixOf entry.1) := by
  induction entries generalizing hits s with
  | nil => simpa using tells
  | cons entry entries ih =>
    have rest := ih _ _ (tells.next some_ entry)
    rw [List.append_assoc, ← List.filter_append] at rest
    exact rest

/-- A word that is not empty stands for the same command in the catalog and in the simulator. -/
theorem getProc_agrees {token : Text} {names : List Text} (some_ : token ≠ []) (ascii : Ascii token)
    (names_ : ∀ name ∈ names, name ≠ [] ∧ Ascii name) :
    match getProc (names.map bytes) (bytes token) with
    | .found i => ∃ name, names[i]? = some name ∧ resolve token names = { status := .resolved, name := some name }
    | .ambiguous => (resolve token names).status = .ambiguous
    | .unknown => (resolve token names).status = .unknown := by
  have whole : (names.map bytes).takeWhile (fun name => decide (name ≠ [])) = names.map bytes := by
    rw [List.takeWhile_eq_self_iff]
    intro name mem
    obtain ⟨text, there, rfl⟩ := List.mem_map.mp mem
    exact decide_eq_true (bytes_ne_nil.mpr (names_ text there).1)
  have tells := Best.Tells.rounds (bytes_ne_nil.mpr some_) (names.map bytes).zipIdx []
    ⟨none, false, 0⟩ ⟨rfl, rfl⟩
  have hits : (names.map bytes).zipIdx.filter (fun entry => (bytes token).isPrefixOf entry.1) =
      (names.zipIdx.filter fun entry => token.isPrefixOf entry.1).map fun entry => (bytes entry.1, entry.2) := by
    have index : (names.map bytes).zipIdx = names.zipIdx.map fun entry => (bytes entry.1, entry.2) := by
      rw [List.zipIdx_map]
      rfl
    rw [index, List.filter_map]
    congr 1
    apply List.filter_congr
    intro entry mem
    have there : entry.1 ∈ names := List.mem_of_getElem? (List.mem_zipIdx_iff_getElem?.mp mem)
    rw [Bool.eq_iff_iff, ← bytes_prefix_iff ascii (names_ _ there).2, Function.comp_apply, List.isPrefixOf_iff_prefix]
  have names_eq : names.filter (fun name => token.isPrefixOf name) =
      (names.zipIdx.filter fun entry => token.isPrefixOf entry.1).map Prod.fst := by
    conv_lhs => rw [← List.zipIdx_map_fst 0 names]
    rw [List.filter_map]
    rfl
  rw [getProc, whole, resolve, names_eq]
  rw [List.nil_append, hits] at tells
  have place (entry : Text × ℕ) (mem : entry ∈ names.zipIdx.filter fun entry => token.isPrefixOf entry.1) :
      names[entry.2]? = some entry.1 := List.mem_zipIdx_iff_getElem?.mp (List.mem_of_mem_filter mem)
  generalize (names.zipIdx.filter fun entry => token.isPrefixOf entry.1) = found at tells place
  match found, tells with
  | [], ⟨best, _⟩ => simp [best]
  | [entry], ⟨best, _, clear⟩ =>
    have at_ := place entry List.mem_cons_self
    simp [best, clear, at_]
  | first :: second :: rest, ⟨best, _, ambig⟩ => simp [best, ambig]

theorem getProc_agrees_el :
    match getProc (["etch".toList, "element".toList].map bytes) (bytes "e".toList) with
    | .found i => ∃ name, ["etch".toList, "element".toList][i]? = some name ∧
        resolve "e".toList ["etch".toList, "element".toList] = { status := .resolved, name := some name }
    | .ambiguous => (resolve "e".toList ["etch".toList, "element".toList]).status = .ambiguous
    | .unknown => (resolve "e".toList ["etch".toList, "element".toList]).status = .unknown :=
  have ascii : Ascii "e".toList := by simp [Ascii]
  have names : ∀ name ∈ ["etch".toList, "element".toList], name ≠ [] ∧ Ascii name := by simp [Ascii]
  getProc_agrees (by decide) ascii names

/-! ## Parameters -/

/-- A parameter of this type only sets others apart. -/
def Param.isSwitch (par : Param) : Bool := kindOf par.type = some .choice

/-- `par` has the first eleven characters of the name of the declaration, and its type tells a switch. -/
def Mirrors (par : Param) (node : Catalog.Node) : Prop :=
  par.name = bytes (runtimeName node.name) ∧ (par.isSwitch = true ↔ node.type = .switch)

/-- The parameters of the simulator are those that the key file declares. -/
inductive Declared : List Catalog.Node → Forest Param → Prop where
  | nil : Declared [] .nil
  | cons {node : Catalog.Node} {nodes : List Catalog.Node} {par : Param} {below after : Forest Param} :
    Mirrors par node → Declared node.children below → Declared nodes after → Declared (node :: nodes) (.cons par below after)

/-- The catalog has them without the switches. -/
theorem Declared.flatten {nodes : List Catalog.Node} {forest : Forest Param} (declared : Declared nodes forest)
    {group : Option Catalog.Node} {parameters : List Parameter} (flat : Catalog.flatten group nodes = .ok parameters) :
    (forest.flat.filter fun par => !par.isSwitch).map (fun par => par.name) =
      parameters.map fun parameter => bytes parameter.name := by
  induction declared generalizing group parameters with
  | nil =>
    rw [Catalog.flatten] at flat
    cases flat
    rfl
  | cons mirrors _ _ ih_below ih_after =>
    rename_i node nodes par below after _ _
    rw [Catalog.flatten] at flat
    obtain ⟨first, one, flat⟩ := bind_eq_ok.mp flat
    obtain ⟨others, rest, flat⟩ := bind_eq_ok.mp flat
    cases flat
    rw [Forest.flat, List.filter_cons, List.filter_append, List.map_append, ← ih_after rest]
    obtain ⟨type, name, line, default, units, message, error, description, children⟩ := node
    unfold flattenNode at one
    dsimp only at one
    split_ifs at one with switch
    · rw [mirrors.2.mpr switch, ← ih_below one]
      simp
    · have not : par.isSwitch = false := by
        rw [← Bool.not_eq_true]
        exact fun yes => switch (mirrors.2.mp yes)
      obtain ⟨parameter, own, one⟩ := bind_eq_ok.mp one
      obtain ⟨sub, under, one⟩ := bind_eq_ok.mp one
      cases one
      have name_ : bytes parameter.name = par.name := by
        obtain ⟨type', -, own⟩ := bind_eq_ok.mp own
        cases own
        exact mirrors.1.symm
      rw [not, List.map_cons, name_, ← ih_below under]
      simp

/-- What the catalog and the simulator say of a word is the same. -/
def Agrees (match_ : Catalog.Match) (checked : ℤ × Option Param) : Prop :=
  match match_.status with
  | .resolved => checked.1 = 0 ∧ ∃ par, checked.2 = some par ∧ match_.name.map bytes = some par.name
  | .ambiguous => checked.1 = -2
  | .unknown => checked.1 = -1

/-- A word hits the switches, too, which the catalog does not have. -/
theorem agrees_verdict_iff {token : Text} {names : List Text} {hits : List Param}
    (names_ : (hits.filter fun par => !par.isSwitch).map (fun par => par.name) =
      (names.filter fun name => token.isPrefixOf name).map bytes) :
    Agrees (resolve token names) (verdict hits) ↔
      (∀ par ∈ hits, par.isSwitch = false) ∨ 2 ≤ (names.filter fun name => token.isPrefixOf name).length := by
  have count : (hits.filter fun par => !par.isSwitch).length = (names.filter fun name => token.isPrefixOf name).length := by
    have := congrArg List.length names_
    rwa [List.length_map, List.length_map] at this
  have most : (hits.filter fun par => !par.isSwitch).length ≤ hits.length := List.length_filter_le _ _
  have all : (∀ par ∈ hits, par.isSwitch = false) ↔ (hits.filter fun par => !par.isSwitch).length = hits.length := by
    rw [List.length_filter_eq_length_iff]
    simp
  rw [all, resolve]
  generalize names.filter (fun name => token.isPrefixOf name) = named at *
  match hits, named, count, names_, most with
  | [], [], _, _, _ => simp [Agrees, verdict]
  | [par], [], count, _, _ =>
    rw [List.length_nil] at count
    simp [Agrees, verdict, count]
  | [par], [name], count, names_, _ =>
    have kept : par.isSwitch = false := by
      rw [← Bool.not_eq_true]
      intro yes
      simp [yes] at count
    have same : par.name = bytes name := by simpa [kept] using names_
    simp [Agrees, verdict, kept, same]
  | [par], _ :: _ :: _, count, _, most =>
    simp only [List.length_cons, List.length_nil] at count most
    omega
  | _ :: _ :: _, [], count, _, _ =>
    rw [List.length_nil] at count
    simp [Agrees, verdict, count]
  | _ :: _ :: _, [name], count, _, _ =>
    rw [List.length_singleton] at count
    simp [Agrees, verdict, count]
  | _ :: _ :: _, _ :: _ :: _, _, _, _ => simp [Agrees, verdict]

/-- From one key file, the simulator takes a word for the parameter that the catalog takes it for, exactly when the word
begins no switch or begins two parameters anyway. -/
theorem nameCheck_agrees_iff {forest : Forest Param} (stored : ∀ par ∈ forest.flat, par.Stored)
    (deep : forest.depth ≤ 2 ^ 31) {i : ℕ} {card : Param} {below : Forest Param}
    (at_ : forest.trees[i]? = some (card, below)) {node : Catalog.Node} {command : Command} (built : buildCommand node = .ok command)
    (declared : Declared node.children below) {token : Text} (some_ : token ≠ []) (ascii : Ascii token)
    (names : ∀ name ∈ command.parameterNames, Ascii name) :
    ∃ file cards status below', writeList 0 forest = some file ∧ readKeyFile file = some (cards, status) ∧
      cards.trees[i]? = some (card, below') ∧
      (Agrees (resolveParameter command token) (nameCheck (bytes token) below' none) ↔
        (∀ par ∈ below.flat, bytes token <+: par.name → par.isSwitch = false) ∨
          2 ≤ (command.parameterNames.filter fun name => token.isPrefixOf name).length) := by
  obtain ⟨file, written, read⟩ := readKeyFile_writeList stored deep
  obtain ⟨below', there, same⟩ := Forest.trees_behindLast (b := blank) at_
  refine ⟨file, _, _, below', written, read, there, ?_⟩
  obtain ⟨parameters, flat, eq⟩ := bind_eq_ok.mp built
  cases eq
  have some_bytes : bytes token ≠ [] := bytes_ne_nil.mpr some_
  -- a blank parameter is not hit
  have hits : below'.flat.filter (fun par => begins par.name (bytes token)) =
      below.flat.filter fun par => begins par.name (bytes token) := by
    apply same
    rw [← Bool.not_eq_true, begins_iff, blank]
    simp [some_bytes]
  have listed := declared.flatten flat
  have named : Command.parameterNames ⟨runtimeName node.name, node.name, node.description, parameters.map fun parameter =>
      withReachability parameter (parameters.map fun parameter => parameter.name)⟩ =
        parameters.map fun parameter => parameter.name := by
    simp [Command.parameterNames, Function.comp_def]
  rw [named] at names ⊢
  have both : (((below.flat.filter fun par => begins par.name (bytes token)).filter fun par => !par.isSwitch).map
      fun par => par.name) =
        ((parameters.map fun parameter => parameter.name).filter fun name => token.isPrefixOf name).map bytes := by
    have swap : (below.flat.filter fun par => begins par.name (bytes token)).filter (fun par => !par.isSwitch) =
        (below.flat.filter fun par => !par.isSwitch).filter fun par => begins par.name (bytes token) := by
      rw [List.filter_filter, List.filter_filter]
      simp only [Bool.and_comm]
    have outside (l : List Param) : (l.filter fun par => begins par.name (bytes token)).map (fun par => par.name) =
        (l.map fun par => par.name).filter fun name => begins name (bytes token) := by
      rw [List.filter_map]
      rfl
    have texts : (parameters.map fun parameter => bytes parameter.name) =
        (parameters.map fun parameter => parameter.name).map bytes := by
      rw [List.map_map]
      rfl
    rw [swap, outside, listed, texts, List.filter_map]
    congr 1
    apply List.filter_congr
    intro name mem
    rw [Bool.eq_iff_iff, Function.comp_apply, begins_iff, bytes_prefix_iff ascii (names name mem)]
    exact ⟨fun h => h.2, fun h => ⟨some_bytes, h⟩⟩
  rw [nameCheck_eq, Option.toList_none, List.nil_append, hits, resolveParameter, named, agrees_verdict_iff both]
  apply or_congr_left
  simp only [List.mem_filter, begins_iff, and_imp]
  exact ⟨fun all par mem hit => all par mem some_bytes hit, fun all par mem _ hit => all par mem hit⟩

/-- The declarations of the card. -/
def etchNode : Catalog.Node where
  type := .card
  name := "etch".toList
  line := 1
  children := [
    { type := .float, name := "thick".toList, line := 2 },
    { type := .switch, name := "side".toList, line := 3,
      children := [
        { type := .boolean, name := "left".toList, line := 4 },
        { type := .boolean, name := "right".toList, line := 5 }] }]

theorem nameCheck_agrees_iff_side : ∃ command, buildCommand etchNode = .ok command ∧
    ∀ below, etchCard.trees[0]? = some (bare [101, 116, 99, 104] 0x400, below) →
    ∃ file cards status below', writeList 0 etchCard = some file ∧ readKeyFile file = some (cards, status) ∧
      cards.trees[0]? = some (bare [101, 116, 99, 104] 0x400, below') ∧
      (Agrees (resolveParameter command "s".toList) (nameCheck (bytes "s".toList) below' none) ↔
        (∀ par ∈ below.flat, bytes "s".toList <+: par.name → par.isSwitch = false) ∨
          2 ≤ (command.parameterNames.filter fun name => "s".toList.isPrefixOf name).length) := by
  have built : ∃ command, buildCommand etchNode = .ok command := ⟨_, rfl⟩
  obtain ⟨command, built⟩ := built
  refine ⟨command, built, fun below at_ => ?_⟩
  have named : command.parameterNames = ["thick".toList, "left".toList, "right".toList] := by
    cases built
    rfl
  apply nameCheck_agrees_iff etchCard_stored (by decide) at_ built
  · cases at_
    exact .cons ⟨rfl, by decide⟩ .nil (.cons ⟨rfl, by decide⟩ (.cons ⟨rfl, by decide⟩ .nil
      (.cons ⟨rfl, by decide⟩ .nil .nil)) .nil)
  · decide
  · simp [Ascii]
  · rw [named]
    simp [Ascii]

end TcadWebapp.Suprem
