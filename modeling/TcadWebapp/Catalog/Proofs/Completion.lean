import Mathlib.Data.List.Duplicate
import TcadWebapp.Catalog.KeyParser
import TcadWebapp.Misc.Python

/-!
# Completion

Which parameters are offered, and which of them some word stands for (`completeParameters_exact_iff`).
-/

namespace TcadWebapp.Catalog

variable {token name pre : Text} {names : List Text} {command : Command} {parameter : Parameter}

/-! ## Words that stand for one name -/

theorem resolve_eq_resolved : resolve token names = { status := .resolved, name := some name } ↔
    names.filter (fun other => token.isPrefixOf other) = [name] := by
  unfold resolve
  split
  · rename_i none
    simp [none]
  · rename_i one
    simp [one]
  · rename_i several
    constructor
    · intro h
      cases h
    · intro h
      exact absurd h (several name)

/-- A word that stands for one name only can be the name itself. -/
theorem filter_self_of_filter (h : names.filter (fun other => token.isPrefixOf other) = [name]) :
    names.filter (fun other => name.isPrefixOf other) = [name] := by
  have starts : token <+: name := by
    have mem : name ∈ names.filter fun other => token.isPrefixOf other := h ▸ List.mem_singleton_self name
    exact List.isPrefixOf_iff_prefix.mp (List.mem_filter.mp mem).2
  have both : names.filter (fun other => name.isPrefixOf other) =
      (names.filter fun other => token.isPrefixOf other).filter fun other => name.isPrefixOf other := by
    rw [List.filter_filter]
    apply List.filter_congr
    intro other _
    by_cases longer : name.isPrefixOf other
    · have : token.isPrefixOf other :=
        List.isPrefixOf_iff_prefix.mpr (starts.trans (List.isPrefixOf_iff_prefix.mp longer))
      simp [longer, this]
    · simp [longer]
  rw [both, h]
  simp

theorem exists_resolve_iff : (∃ token, resolve token names = { status := .resolved, name := some name }) ↔
    names.filter (fun other => name.isPrefixOf other) = [name] := by
  constructor
  · rintro ⟨token, h⟩
    exact filter_self_of_filter (resolve_eq_resolved.mp h)
  · intro h
    exact ⟨name, resolve_eq_resolved.mpr h⟩

theorem isUnreachable_eq_false : isUnreachable name names = false ↔ ∀ other ∈ names, name <+: other → other = name := by
  simp only [isUnreachable, List.any_eq_false, Bool.and_eq_true, decide_eq_true_eq, not_and,
    List.isPrefixOf_iff_prefix]
  exact forall₂_congr fun other _ => ⟨fun h longer => by_contra fun ne => h ne longer, fun h ne longer => ne (h longer)⟩

/-- The names that begin with a reachable one are its copies. -/
theorem filter_of_reachable (h : isUnreachable name names = false) :
    names.filter (fun other => name.isPrefixOf other) = names.filter fun other => other = name := by
  apply List.filter_congr
  intro other mem
  by_cases same : other = name
  · simp [same]
  · have := fun longer => same (isUnreachable_eq_false.mp h other mem longer)
    rw [decide_eq_false same, ← Bool.not_eq_true, List.isPrefixOf_iff_prefix]
    exact this

theorem filter_eq_singleton_iff {α : Type*} [DecidableEq α] {a : α} {l : List α} (mem : a ∈ l) :
    l.filter (fun b => b = a) = [a] ↔ ¬ List.Duplicate a l := by
  have there := List.count_pos_iff.mpr mem
  rw [List.duplicate_iff_two_le_count, List.filter_eq]
  constructor
  · intro h
    have once := congrArg List.length h
    rw [List.length_replicate, List.length_singleton] at once
    omega
  · intro once
    have one : l.count a = 1 := by omega
    rw [one]
    rfl

/-- Some word stands for a name exactly when no other name extends it and no other is the same. -/
theorem exists_resolve_iff_of_mem (mem : name ∈ names) :
    (∃ token, resolve token names = { status := .resolved, name := some name }) ↔
      isUnreachable name names = false ∧ ¬ List.Duplicate name names := by
  rw [exists_resolve_iff]
  constructor
  · intro h
    have reachable : isUnreachable name names = false := by
      rw [isUnreachable_eq_false]
      intro other mem longer
      have : other ∈ names.filter fun other => name.isPrefixOf other :=
        List.mem_filter.mpr ⟨mem, List.isPrefixOf_iff_prefix.mpr longer⟩
      rw [h] at this
      exact List.mem_singleton.mp this
    refine ⟨reachable, ?_⟩
    rw [filter_of_reachable reachable] at h
    exact (filter_eq_singleton_iff mem).mp h
  · rintro ⟨reachable, once⟩
    rw [filter_of_reachable reachable]
    exact (filter_eq_singleton_iff mem).mpr once

/-! ## What the parser marks -/

/-- A parameter is marked exactly when another name extends its name. -/
def Command.Marked (command : Command) : Prop :=
  ∀ parameter ∈ command.parameters, parameter.unreachable = isUnreachable parameter.name command.parameterNames

theorem unreachable_of_parameter {group : Option Node} {node : Node} (h : node.parameter group = .ok parameter) :
    parameter.unreachable = false := by
  obtain ⟨type, -, h⟩ := bind_eq_ok.mp h
  cases h
  rfl

mutual

theorem unreachable_of_flattenNode {group : Option Node} {node : Node} {parameters : List Parameter}
    (h : flattenNode group node = .ok parameters) : ∀ p ∈ parameters, p.unreachable = false := by
  obtain ⟨type, name, line, default, units, message, error, description, children⟩ := node
  unfold flattenNode at h
  dsimp only at h
  split_ifs at h
  · exact unreachable_of_flatten h
  · obtain ⟨parameter, own, h⟩ := bind_eq_ok.mp h
    obtain ⟨below, rest, h⟩ := bind_eq_ok.mp h
    cases h
    exact List.forall_mem_cons.mpr ⟨unreachable_of_parameter own, unreachable_of_flatten rest⟩

theorem unreachable_of_flatten {group : Option Node} {nodes : List Node} {parameters : List Parameter}
    (h : flatten group nodes = .ok parameters) : ∀ p ∈ parameters, p.unreachable = false := by
  match nodes with
  | [] =>
    cases h
    exact List.forall_mem_nil _
  | node :: nodes =>
    unfold flatten at h
    obtain ⟨first, one, h⟩ := bind_eq_ok.mp h
    obtain ⟨others, rest, h⟩ := bind_eq_ok.mp h
    cases h
    exact List.forall_mem_append.mpr ⟨unreachable_of_flattenNode one, unreachable_of_flatten rest⟩

end

@[simp] theorem withReachability_name (parameter : Parameter) (names : List Text) :
    (withReachability parameter names).name = parameter.name := by
  unfold withReachability
  split_ifs <;> rfl

theorem marked_of_buildCommand {node : Node} (h : buildCommand node = .ok command) : command.Marked := by
  obtain ⟨parameters, flat, h⟩ := bind_eq_ok.mp h
  cases h
  have same : ((parameters.map fun p => withReachability p (parameters.map fun p => p.name)).map fun p => p.name) =
      parameters.map fun p => p.name := by
    simp [Function.comp_def]
  unfold Command.Marked Command.parameterNames
  dsimp only
  rw [same]
  intro parameter marked
  obtain ⟨plain, mem, rfl⟩ := List.mem_map.mp marked
  rw [withReachability_name]
  unfold withReachability
  by_cases extended : isUnreachable plain.name (parameters.map fun p => p.name)
  · simp [extended]
  · simp [extended, unreachable_of_flatten flat plain mem]

theorem marked_of_parseKey {text : Text} {commands : List Command} (h : parseKey text = .ok commands) :
    ∀ command ∈ commands, command.Marked := by
  obtain ⟨tokens, -, h⟩ := bind_eq_ok.mp h
  obtain ⟨nodes, -, h⟩ := bind_eq_ok.mp h
  intro command mem
  obtain ⟨node, -, built⟩ := exists_of_mem_mapM h mem
  exact marked_of_buildCommand built

/-! ## What is offered -/

/-- Some word stands for the parameter and for no other. -/
def Command.CanName (command : Command) (parameter : Parameter) : Prop :=
  ∃ token, resolveParameter command token = { status := .resolved, name := some parameter.name }

open Classical in
/-- Those are offered whose names begin so and that can be named. -/
def Command.CompletesExactly (command : Command) (pre : Text) : Prop :=
  completeParameters command pre =
    command.parameters.filter fun parameter => decide (pre <+: parameter.name ∧ command.CanName parameter)

theorem Command.CompletesExactly.canName (exact : command.CompletesExactly pre)
    (offered : parameter ∈ completeParameters command pre) : command.CanName parameter := by
  classical
  unfold Command.CompletesExactly at exact
  rw [exact] at offered
  exact (of_decide_eq_true (List.mem_filter.mp offered).2).2

theorem offered_iff (marked : command.Marked) (mem : parameter ∈ command.parameters) :
    (pre.isPrefixOf parameter.name && !parameter.unreachable) = true ↔
      pre <+: parameter.name ∧ isUnreachable parameter.name command.parameterNames = false := by
  rw [marked parameter mem, Bool.and_eq_true, List.isPrefixOf_iff_prefix, Bool.not_eq_true']

/-- Exactly what can be typed is offered when each name that begins so and is there twice is the beginning of
another one. -/
theorem completeParameters_exact_iff {text : Text} {commands : List Command} (parsed : parseKey text = .ok commands)
    (mem : command ∈ commands) (pre : Text) :
    command.CompletesExactly pre ↔ ∀ name, List.Duplicate name command.parameterNames → pre <+: name →
      isUnreachable name command.parameterNames = true := by
  classical
  have marked := marked_of_parseKey parsed command mem
  constructor
  · intro exact name twice starts
    by_contra reachable
    rw [Bool.not_eq_true] at reachable
    obtain ⟨parameter, mem, rfl⟩ := List.mem_map.mp twice.mem
    have offered : parameter ∈ completeParameters command pre :=
      List.mem_filter.mpr ⟨mem, (offered_iff marked mem).mpr ⟨starts, reachable⟩⟩
    exact ((exists_resolve_iff_of_mem twice.mem).mp (exact.canName offered)).2 twice
  · intro once
    apply List.filter_congr
    intro parameter mem
    have there : parameter.name ∈ command.parameterNames := List.mem_map_of_mem mem
    rw [Bool.eq_iff_iff, offered_iff marked mem, decide_eq_true_iff]
    apply and_congr_right
    intro starts
    constructor
    · intro reachable
      refine (exists_resolve_iff_of_mem there).mpr ⟨reachable, fun twice => ?_⟩
      rw [once _ twice starts] at reachable
      cases reachable
    · intro named
      exact ((exists_resolve_iff_of_mem there).mp named).1

/-! ## Two cards -/

def floatParameter (name : Text) : Parameter := { name, type := .float, sourceName := name }

def card (names : List Text) : Command :=
  { name := ['c'], sourceName := ['c'], parameters := names.map floatParameter }

/-- The same parameter twice: both are offered, and no word stands for either. -/
theorem not_completesExactly_twins : parseKey "card c; { float ab; float ab; }".toList =
      .ok [card [['a', 'b'], ['a', 'b']]] ∧ ¬ (card [['a', 'b'], ['a', 'b']]).CompletesExactly ['a'] := by
  refine ⟨by decide +kernel, fun exact => ?_⟩
  have offered : floatParameter ['a', 'b'] ∈ completeParameters (card [['a', 'b'], ['a', 'b']]) ['a'] := by decide
  have named := exact.canName offered
  have twice : List.Duplicate ['a', 'b'] (card [['a', 'b'], ['a', 'b']]).parameterNames := by decide
  exact ((exists_resolve_iff_of_mem twice.mem).mp named).2 twice

theorem completeParameters_exact_apart : (card [['a', 'b'], ['a', 'c']]).CompletesExactly ['a'] := by
  have parsed : parseKey "card c; { float ab; float ac; }".toList = .ok [card [['a', 'b'], ['a', 'c']]] := by
    decide +kernel
  apply (completeParameters_exact_iff parsed (List.mem_singleton_self _) ['a']).mpr
  intro name twice
  have none : (card [['a', 'b'], ['a', 'c']]).parameterNames.Nodup := by decide
  exact absurd twice (List.nodup_iff_forall_not_duplicate.mp none name)

end TcadWebapp.Catalog
