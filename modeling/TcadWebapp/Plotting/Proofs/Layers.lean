import Mathlib.Data.List.Chain
import TcadWebapp.Plotting.Proofs.Profile

/-!
# Layers in one piece

A line goes down through a stack of layers. Where each point of a layer really lies and where it was
computed to lie differ by less than half of what counts as one place. The points of each layer stay
together, and the layers in their order, as long as no point of a layer is computed to lie deeper than
one of a lower layer.
-/

namespace TcadWebapp.Plotting

/-- A layer with its points, each with the depth at which it really is. -/
structure Layer where
  material : String
  top : Rat
  bottom : Rat
  points : List (Rat × ProfilePoint)

/-- The points as computed. -/
def Layer.computed (layer : Layer) : List ProfilePoint := layer.points.map Prod.snd

structure Layer.Sampled (layer : Layer) : Prop where
  thick : 4 * depthEpsilon < layer.bottom - layer.top
  atTop : ∃ p ∈ layer.points, p.1 = layer.top
  atBottom : ∃ p ∈ layer.points, p.1 = layer.bottom
  within : ∀ p ∈ layer.points, layer.top ≤ p.1 ∧ p.1 ≤ layer.bottom
  near : ∀ p ∈ layer.points, |p.2.depth - p.1| < depthEpsilon / 2
  named : ∀ p ∈ layer.points, p.2.material = layer.material

/-- A stack of layers, from the top to the bottom. -/
structure Stack (layers : List Layer) : Prop where
  sampled : ∀ layer ∈ layers, layer.Sampled
  adjoin : layers.IsChain fun upper lower =>
    upper.bottom = lower.top ∧ upper.material ≠ lower.material

/-- The points of each layer come together, in the order of the stack. -/
def InOnePiece (layers : List Layer) (ordered : List ProfilePoint) : Prop :=
  ∃ parts, List.Forall₂ (fun (layer : Layer) part => part.Perm layer.computed) layers parts ∧
    ordered = parts.flatten

/-- No point of a layer is computed to lie deeper than one of a lower layer. -/
def KeepOrder (layers : List Layer) : Prop :=
  layers.Pairwise fun upper lower =>
    ∀ p ∈ upper.computed, ∀ q ∈ lower.computed, p.depth ≤ q.depth

/-! ## Points with the number of their layer -/

variable {points : List ProfilePoint}

/-- What the numbers of the layers have to do with depths and materials for the points to come out in
the order of the numbers. -/
structure Numbered (points : List ProfilePoint) (number : ProfilePoint → Nat) : Prop where
  rises : ∀ p ∈ points, ∀ q ∈ points, p.depth < q.depth → number p ≤ number q
  material : ∀ p ∈ points, ∀ q ∈ points, number p = number q → p.material = q.material
  /-- Of two layers at one depth the upper one has begun before. -/
  begun : ∀ p ∈ points, ∀ q ∈ points, p.depth = q.depth → number p < number q →
    p.material ≠ q.material ∧ ∃ t ∈ points, number t = number p ∧ t.depth < p.depth

theorem Numbered.perm {number : ProfilePoint → Nat} (numbered : Numbered points number)
    {input : List ProfilePoint} (perm : points.Perm input) : Numbered input number := by
  constructor <;> simp only [← perm.mem_iff]
  · exact numbered.rises
  · exact numbered.material
  · exact numbered.begun

/-- The last of a list that is sorted by number has the greatest number. -/
theorem le_getLast {number : ProfilePoint → Nat} {l : List ProfilePoint} {last : ProfilePoint}
    (sorted : l.Pairwise fun p q => number p ≤ number q) (h : l.getLast? = some last) :
    ∀ p ∈ l, number p ≤ number last := by
  intro p mem
  obtain ⟨before, rfl⟩ := List.getLast?_eq_some_iff.mp h
  rcases List.mem_append.mp mem with mem | mem
  · exact (List.pairwise_append.mp sorted).2.2 p mem last List.mem_cons_self
  · rw [List.mem_singleton.mp mem]

/-- A point that goes on with the last material comes before one that does not. -/
theorem not_stackKey_le {p q : ProfilePoint} (differ : p.material ≠ q.material) :
    ¬ stackKey (some q.material) p ≤ stackKey (some q.material) q := by
  unfold stackKey
  rw [Prod.Lex.toLex_le_toLex]
  simp [differ]

theorem Numbered.step {number : ProfilePoint → Nat} (numbered : Numbered points number)
    {ordered : List ProfilePoint} {depth : Rat} {depths : List Rat}
    (stacked : Stacked points ordered (depth :: depths))
    (sorted : ordered.Pairwise fun p q => number p ≤ number q) :
    (stackGroup ordered (points.filter fun p => p.depth = depth)).Pairwise
      fun p q => number p ≤ number q := by
  obtain ⟨added, e, perm, keys⟩ := stackGroup_spec ordered (points.filter fun p => p.depth = depth)
  have now : ∀ p ∈ added, p ∈ points ∧ p.depth = depth := fun p mem => by
    simpa using perm.mem_iff.mp mem
  rw [e, List.pairwise_append]
  refine ⟨sorted, ?_, ?_⟩
  · refine keys.imp_of_mem fun {p q} hp hq le => ?_
    obtain ⟨hp, depthp⟩ := now p hp
    obtain ⟨hq, depthq⟩ := now q hq
    by_contra gt
    obtain ⟨differ, t, ht, number_t, above⟩ :=
      numbered.begun q hq p hp (depthq.trans depthp.symm) (not_le.mp gt)
    have ht : t ∈ ordered := by
      refine (stacked.every t ht).resolve_right fun coming => ?_
      rcases List.mem_cons.mp coming with same | later
      · rw [same, depthq] at above
        exact lt_irrefl _ above
      · have := (List.pairwise_cons.mp stacked.rising).1 _ later
        rw [depthq] at above
        exact lt_asymm above this
    -- the point that came last is of the upper of the two layers
    cases hlast : ordered.getLast? with
    | none =>
      rw [List.getLast?_eq_none_iff.mp hlast] at ht
      cases ht
    | some last =>
      have mem := List.mem_of_getLast? hlast
      obtain ⟨given, before⟩ := stacked.above last mem
      have upper : number last = number q := by
        refine le_antisymm ?_ (number_t ▸ le_getLast sorted hlast t ht)
        exact numbered.rises last given q hq (depthq ▸ before depth List.mem_cons_self)
      have goesOn := numbered.material last given q hq upper
      rw [hlast, Option.map_some, goesOn] at le
      exact not_stackKey_le differ.symm le
  · intro p hp q hq
    obtain ⟨hp, before⟩ := stacked.above p hp
    obtain ⟨hq, depthq⟩ := now q hq
    exact numbered.rises p hp q hq (depthq ▸ before depth List.mem_cons_self)

/-- The points come out in the order of their layers. -/
theorem Numbered.pairwise {number : ProfilePoint → Nat} (numbered : Numbered points number) :
    (orderedByStack points).Pairwise fun p q => number p ≤ number q :=
  orderedByStack_induction List.Pairwise.nil fun _ _ _ stacked => numbered.step stacked

/-! ## The number of a point's layer -/

variable {layers : List Layer}

/-- The first layer that has the point. -/
def numberOf (layers : List Layer) (p : ProfilePoint) : Nat :=
  layers.findIdx fun layer => p ∈ layer.computed

/-- The computed points of a layer are not all at one depth. -/
theorem Layer.Sampled.exists_lt {layer : Layer} (h : layer.Sampled) :
    ∃ t ∈ layer.computed, ∃ b ∈ layer.computed, t.depth < b.depth := by
  obtain ⟨t, ht, atTop⟩ := h.atTop
  obtain ⟨b, hb, atBottom⟩ := h.atBottom
  refine ⟨t.2, List.mem_map_of_mem ht, b.2, List.mem_map_of_mem hb, ?_⟩
  have near := (abs_lt.mp (h.near t ht)).2
  have near' := (abs_lt.mp (h.near b hb)).1
  have thick := h.thick
  have pos : 0 < depthEpsilon := by norm_num [depthEpsilon]
  linarith

theorem Layer.Sampled.material_eq {layer : Layer} (h : layer.Sampled) {p : ProfilePoint}
    (mem : p ∈ layer.computed) : p.material = layer.material := by
  obtain ⟨point, hpoint, rfl⟩ := List.mem_map.mp mem
  exact h.named point hpoint

section Stack

variable (stack : Stack layers) (keep : KeepOrder layers) {i j : Nat} {upper lower : Layer}
  {p q : ProfilePoint}

theorem depth_le (keep : KeepOrder layers) (hi : layers[i]? = some upper) (hj : layers[j]? = some lower)
    (lt : i < j) (hp : p ∈ upper.computed) (hq : q ∈ lower.computed) : p.depth ≤ q.depth := by
  obtain ⟨bi, rfl⟩ := List.getElem?_eq_some_iff.mp hi
  obtain ⟨bj, rfl⟩ := List.getElem?_eq_some_iff.mp hj
  exact List.pairwise_iff_getElem.mp keep i j bi bj lt p hp q hq

include stack keep

/-- Only neighbours have points at one depth. -/
theorem material_ne (hi : layers[i]? = some upper) (hj : layers[j]? = some lower) (lt : i < j)
    (hp : p ∈ upper.computed) (hq : q ∈ lower.computed) (same : p.depth = q.depth) :
    p.material ≠ q.material := by
  have sampled : ∀ {k : Nat} {layer : Layer}, layers[k]? = some layer → layer.Sampled :=
    fun h => stack.sampled _ (List.mem_of_getElem? h)
  have next : j = i + 1 := by
    by_contra apart
    have bound := (List.getElem?_eq_some_iff.mp hj).1
    have between : layers[i + 1]? = some layers[i + 1] := List.getElem?_eq_getElem (by omega)
    -- the layer between would have all its points at the one depth
    obtain ⟨t, ht, b, hb, thick⟩ := (sampled between).exists_lt
    have low := depth_le keep hi between (by omega) hp ht
    have high := depth_le keep between hj (by omega) hb hq
    linarith
  subst next
  rw [(sampled hi).material_eq hp, (sampled hj).material_eq hq]
  obtain ⟨bi, rfl⟩ := List.getElem?_eq_some_iff.mp hi
  obtain ⟨bj, rfl⟩ := List.getElem?_eq_some_iff.mp hj
  exact (List.isChain_iff_getElem.mp stack.adjoin i bj).2

theorem eq_of_mem (hi : layers[i]? = some upper) (hj : layers[j]? = some lower)
    (hp : p ∈ upper.computed) (hp' : p ∈ lower.computed) : i = j := by
  rcases lt_trichotomy i j with lt | same | gt
  · exact absurd rfl (material_ne stack keep hi hj lt hp hp' rfl)
  · exact same
  · exact absurd rfl (material_ne stack keep hj hi gt hp' hp rfl)

theorem numberOf_eq (hi : layers[i]? = some upper) (hp : p ∈ upper.computed) :
    numberOf layers p = i := by
  have mem := List.mem_of_getElem? hi
  have bound : numberOf layers p < layers.length :=
    List.findIdx_lt_length.mpr ⟨upper, mem, by simpa using hp⟩
  have found : p ∈ layers[numberOf layers p].computed := of_decide_eq_true (List.findIdx_getElem (w := bound))
  exact eq_of_mem stack keep (List.getElem?_eq_getElem bound) hi found hp

theorem numbered : Numbered (layers.flatMap Layer.computed) (numberOf layers) := by
  have place : ∀ p ∈ layers.flatMap Layer.computed,
      ∃ layer, layers[numberOf layers p]? = some layer ∧ p ∈ layer.computed := by
    intro p mem
    obtain ⟨layer, hlayer, hp⟩ := List.mem_flatMap.mp mem
    obtain ⟨i, hi⟩ := List.getElem?_of_mem hlayer
    exact ⟨layer, numberOf_eq stack keep hi hp ▸ hi, hp⟩
  constructor
  · intro p hp q hq lt
    obtain ⟨upper, hupper, hp⟩ := place p hp
    obtain ⟨lower, hlower, hq⟩ := place q hq
    by_contra gt
    exact not_lt.mpr (depth_le keep hlower hupper (not_le.mp gt) hq hp) lt
  · intro p hp q hq same
    obtain ⟨upper, hupper, hp⟩ := place p hp
    obtain ⟨lower, hlower, hq⟩ := place q hq
    rw [same] at hupper
    obtain rfl := Option.some.inj (hupper.symm.trans hlower)
    have sampled := stack.sampled _ (List.mem_of_getElem? hlower)
    rw [sampled.material_eq hp, sampled.material_eq hq]
  · intro p hp q hq same lt
    obtain ⟨upper, hupper, hp⟩ := place p hp
    obtain ⟨lower, hlower, hq⟩ := place q hq
    refine ⟨material_ne stack keep hupper hlower lt hp hq same, ?_⟩
    have mem := List.mem_of_getElem? hupper
    obtain ⟨t, ht, b, hb, thick⟩ := (stack.sampled _ mem).exists_lt
    refine ⟨t, List.mem_flatMap.mpr ⟨upper, mem, ht⟩, numberOf_eq stack keep hupper ht, ?_⟩
    exact same ▸ thick.trans_le (depth_le keep hupper hlower lt hb hq)

/-- The points with the number of a layer are the points of the layer. -/
theorem filter_numberOf (hi : layers[i]? = some upper) :
    ((layers.flatMap Layer.computed).filter fun p => numberOf layers p = i) = upper.computed := by
  have others : ∀ part : List Layer, (∀ layer ∈ part, ∃ j, layers[j]? = some layer ∧ j ≠ i) →
      ((part.flatMap Layer.computed).filter fun p => numberOf layers p = i) = [] := by
    intro part apart
    rw [List.filter_eq_nil_iff]
    intro p hp
    obtain ⟨layer, hlayer, hp⟩ := List.mem_flatMap.mp hp
    obtain ⟨j, hj, ne⟩ := apart layer hlayer
    simpa [numberOf_eq stack keep hj hp] using ne
  obtain ⟨bound, rfl⟩ := List.getElem?_eq_some_iff.mp hi
  have split : layers.take i ++ layers[i] :: layers.drop (i + 1) = layers := by simp
  have all : (layers[i].computed.filter fun p => numberOf layers p = i) = layers[i].computed :=
    List.filter_eq_self.mpr fun p hp => by simpa using numberOf_eq stack keep hi hp
  calc (layers.flatMap Layer.computed).filter (fun p => numberOf layers p = i)
      = ((layers.take i ++ layers[i] :: layers.drop (i + 1)).flatMap Layer.computed).filter
          (fun p => numberOf layers p = i) := by rw [split]
    _ = [] ++ (layers[i].computed ++ []) := by
      rw [List.flatMap_append, List.flatMap_cons, List.filter_append, List.filter_append, all,
        others (layers.take i), others (layers.drop (i + 1))]
      · intro layer mem
        obtain ⟨j, hj, rfl⟩ := List.mem_drop_iff_getElem.mp mem
        exact ⟨i + 1 + j, List.getElem?_eq_getElem _, by omega⟩
      · intro layer mem
        obtain ⟨j, hj, rfl⟩ := List.mem_take_iff_getElem.mp mem
        exact ⟨j, List.getElem?_eq_getElem _, by omega⟩
    _ = layers[i].computed := by simp

theorem inOnePiece_of_keepOrder {input : List ProfilePoint}
    (given : input.Perm (layers.flatMap Layer.computed)) : InOnePiece layers (orderedByStack input) := by
  have perm := (orderedByStack_perm input).trans given
  have sorted := ((numbered stack keep).perm given.symm).pairwise
  have all : ∀ p ∈ orderedByStack input, numberOf layers p ∈ List.range layers.length := by
    intro p mem
    obtain ⟨layer, hlayer, hp⟩ := List.mem_flatMap.mp (perm.mem_iff.mp mem)
    obtain ⟨i, hi⟩ := List.getElem?_of_mem hlayer
    rw [numberOf_eq stack keep hi hp, List.mem_range]
    exact (List.getElem?_eq_some_iff.mp hi).1
  refine ⟨(List.range layers.length).map fun i =>
    (orderedByStack input).filter fun p => numberOf layers p = i, ?_, ?_⟩
  · rw [List.forall₂_iff_get]
    refine ⟨by simp, fun i bound _ => ?_⟩
    have part := (perm.filter fun p => numberOf layers p = i).trans
      (List.Perm.of_eq (filter_numberOf stack keep (List.getElem?_eq_getElem bound)))
    simpa using part
  · rw [← List.flatMap_def]
    exact (flatMap_filter_of_sorted sorted List.pairwise_lt_range all).symm

end Stack

/-- What comes in one piece and in the order of the depths has no layer deeper than a lower one. -/
theorem keepOrder_of_inOnePiece {ordered : List ProfilePoint}
    (sorted : ordered.Pairwise fun p q => p.depth ≤ q.depth) (whole : InOnePiece layers ordered) :
    KeepOrder layers := by
  obtain ⟨parts, each, rfl⟩ := whole
  have apart := (List.pairwise_flatten.mp sorted).2
  unfold KeepOrder
  induction each with
  | nil => exact List.Pairwise.nil
  | cons part _ ih =>
    rename_i layer first layers parts rest
    obtain ⟨before, apart⟩ := List.pairwise_cons.mp apart
    rw [List.flatten_cons, List.pairwise_append] at sorted
    refine List.pairwise_cons.mpr ⟨fun lower mem p hp q hq => ?_, ih sorted.2.1 apart⟩
    obtain ⟨part', hpart', same⟩ := exists_of_mem_left rest mem
    exact before part' hpart' p (part.mem_iff.mpr hp) q (same.mem_iff.mpr hq)

/-- The layers of a stack come out in one piece exactly when their order is kept by the computed
depths. -/
theorem inOnePiece_iff (layers : List Layer) (stack : Stack layers) (input : List ProfilePoint)
    (given : input.Perm (layers.flatMap Layer.computed)) :
    InOnePiece layers (orderedByStack input) ↔ KeepOrder layers :=
  ⟨keepOrder_of_inOnePiece (pairwise_orderedByStack input),
    fun keep => inOnePiece_of_keepOrder stack keep given⟩

/-- Oxide between two layers of poly; the top of the lower poly is computed to be `off` from where it is. -/
def polyOxidePoly (off : Rat) : List Layer :=
  [⟨"poly", 0, 1, [(0, ⟨0, 1, "poly"⟩), (1, ⟨1, 1, "poly"⟩)]⟩,
    ⟨"oxide", 1, 2, [(1, ⟨1, 2, "oxide"⟩), (2, ⟨2, 2, "oxide"⟩)]⟩,
    ⟨"poly", 2, 3, [(2, ⟨2 + off, 3, "poly"⟩), (3, ⟨3, 3, "poly"⟩)]⟩]

theorem stack_polyOxidePoly {off : Rat} (small : |off| < depthEpsilon / 2) : Stack (polyOxidePoly off) := by
  norm_num [depthEpsilon] at small
  constructor
  · intro layer mem
    simp only [polyOxidePoly, List.mem_cons, List.not_mem_nil, or_false] at mem
    rcases mem with rfl | rfl | rfl
    all_goals constructor
    all_goals norm_num [depthEpsilon]
    exact small
  · simp [polyOxidePoly]

theorem inOnePiece_iff_polyOxidePoly : InOnePiece (polyOxidePoly 0)
    (orderedByStack ((polyOxidePoly 0).flatMap Layer.computed).reverse) ↔ KeepOrder (polyOxidePoly 0) :=
  inOnePiece_iff _ (stack_polyOxidePoly (by norm_num [depthEpsilon])) _ (List.reverse_perm _)

/-- Two points of one interface, computed less than half an epsilon apart, change places. -/
theorem not_inOnePiece : ¬ ∀ layers, Stack layers → ∀ input : List ProfilePoint,
    input.Perm (layers.flatMap Layer.computed) → InOnePiece layers (orderedByStack input) := by
  intro all
  have stack : Stack (polyOxidePoly (-1 / 4000000000)) :=
    stack_polyOxidePoly (by norm_num [depthEpsilon, abs_lt])
  have swapped : ¬ KeepOrder (polyOxidePoly (-1 / 4000000000)) := by
    unfold KeepOrder
    decide +kernel
  exact swapped (keepOrder_of_inOnePiece (pairwise_orderedByStack _) (all _ stack _ (List.Perm.refl _)))

end TcadWebapp.Plotting
