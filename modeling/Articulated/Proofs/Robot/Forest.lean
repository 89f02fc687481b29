import Articulated.Proofs.Robot.Check
import Articulated.Robot.Model
import Mathlib.Combinatorics.SimpleGraph.Acyclic

/-!
# Robots without loops

The links and joints of a robot form a graph (`Robot.linkGraph`). A robot is a forest if this graph
has no cycle, no two joints connect the same two links, and every tree has one fixed link
(`Robot.IsForest`). Joints point towards the fixed link of their tree or away from it.

On a forest, what a joint says of its two links may be solved from either end. Values of links are
then carried along the paths from the fixed links: of two links with a joint between them, one is
the last but one on the path to the other.

* `exists_carried`: values of the vertices of a graph without cycles.
* `Robot.IsForest.exists_assignment`: values of the links that are given at the fixed links, and
  are related through every joint.
* `Robot.IsForest.induction`: what holds of the fixed links, and of both links of a joint or of
  none, holds of all links.
-/

namespace Articulated

open SimpleGraph

/-! ## 1. Values along paths -/

section Paths

variable {V X : Type} {G : SimpleGraph V}

/-- A value carried along a walk, edge by edge. -/
def carry (step : ∀ u w, G.Adj u w → X → X) : ∀ {u v : V}, G.Walk u v → X → X
  | _, _, .nil, x => x
  | _, _, .cons h p, x => carry step p (step _ _ h x)

variable {step : ∀ u w, G.Adj u w → X → X}

theorem carry_nil {u v : V} {p : G.Walk u v} (hp : p.Nil) (x : X) : carry step p x = x := by
  cases hp
  rfl

theorem carry_concat {u v w : V} (p : G.Walk u v) (h : G.Adj v w) (x : X) :
    carry step (p.concat h) x = step v w h (carry step p x) := by
  induction p generalizing x with
  | nil => rfl
  | cons h' p ih => exact ih h (step _ _ h' x)

/-- Two paths from one vertex to the ends of an edge: one of them is the other one with the edge. -/
theorem carry_adj (step : ∀ u w, G.Adj u w → X → X) (hG : G.IsAcyclic) {a u w : V}
    {p : G.Walk a u} {q : G.Walk a w} (hp : p.IsPath) (hq : q.IsPath) (h : G.Adj u w) (x : X) :
    carry step q x = step u w h (carry step p x) ∨
      carry step p x = step w u h.symm (carry step q x) := by
  by_cases hu : u ∈ q.support
  · left
    rw [hG.path_concat hp hq h hu, carry_concat]
  · right
    have hw : w ∈ p.support := hG.mem_support_of_ne_mem_support_of_adj_of_isPath hp hq h hu
    rw [hG.path_concat hq hp h.symm hw, carry_concat]

/-- **Values of the vertices of a graph without cycles.** A relation that can be solved along every
edge has values with given ones at the roots. -/
theorem exists_carried (hG : G.IsAcyclic) {R : V → V → X → X → Prop}
    (hR : ∀ u w, G.Adj u w → ∀ x, ∃ y, R u w x y) {root : V → V}
    (hroot : ∀ v, G.Reachable (root v) v) (hadj : ∀ u w, G.Adj u w → root u = root w)
    (start : V → X) :
    ∃ x : V → X, (∀ v, root v = v → x v = start v) ∧
      ∀ u w, G.Adj u w → R u w (x u) (x w) ∨ R w u (x w) (x u) := by
  choose step hstep using hR
  choose path hpath using fun v => (hroot v).exists_isPath
  refine ⟨fun v => carry step (path v) (start (root v)), fun v hv => ?_, fun u w h => ?_⟩
  · show carry step (path v) (start (root v)) = start v
    rw [carry_nil ((hpath v).nil_iff_eq.2 hv), hv]
  · have hends : ∀ {a b : V} {p : G.Walk a u} {q : G.Walk b w}, a = b → p.IsPath → q.IsPath →
        R u w (carry step p (start a)) (carry step q (start b)) ∨
          R w u (carry step q (start b)) (carry step p (start a)) := by
      rintro a _ p q rfl hp hq
      rcases carry_adj step hG hp hq h (start a) with heq | heq
      · left
        rw [heq]
        exact hstep u w h _
      · right
        rw [heq]
        exact hstep w u h.symm _
    exact hends (hadj u w h) (hpath u) (hpath w)

end Paths

namespace Robot

/-! ## 2. Forests -/

variable {α : Type}

/-- The graph of the links, by their ids: a joint connects its parent and its child. -/
def linkGraph (r : Robot α) : SimpleGraph Nat :=
  .fromRel fun i k => ∃ j ∈ r.joints, j.parent = i ∧ j.child = k

/-- The links and joints form a forest with one fixed link in each tree. -/
structure IsForest (r : Robot α) : Prop where
  acyclic : r.linkGraph.IsAcyclic
  /-- No two joints connect the same links: together they would be a loop. -/
  simple : (r.joints.map fun j => s(j.parent, j.child)).Nodup
  rooted : ∀ l ∈ r.links, ∃! f, f ∈ r.fixedLinks ∧ r.linkGraph.Reachable f.id l.id

section Forest

variable {r : Robot α} {u w : Nat}

theorem linkGraph_adj : r.linkGraph.Adj u w ↔ u ≠ w ∧
    ((∃ j ∈ r.joints, j.parent = u ∧ j.child = w) ∨
      ∃ j ∈ r.joints, j.parent = w ∧ j.child = u) := SimpleGraph.fromRel_adj _ u w

theorem Valid.adj_of_mem (hr : r.Valid) {j : Joint α} (hj : j ∈ r.joints) :
    r.linkGraph.Adj j.parent j.child :=
  linkGraph_adj.2 ⟨hr.ends_ne j hj, .inl ⟨j, hj, rfl, rfl⟩⟩

theorem Valid.mem_of_adj (hr : r.Valid) (h : r.linkGraph.Adj u w) :
    u ∈ r.links.map (·.id) ∧ w ∈ r.links.map (·.id) := by
  obtain ⟨-, ⟨j, hj, rfl, rfl⟩ | ⟨j, hj, rfl, rfl⟩⟩ := linkGraph_adj.1 h
  · exact ⟨hr.parent_mem j hj, hr.child_mem j hj⟩
  · exact ⟨hr.child_mem j hj, hr.parent_mem j hj⟩

/-- Joints that connect the same links are the same. -/
theorem IsForest.joint_unique (h : r.IsForest) {i j : Joint α} (hi : i ∈ r.joints)
    (hj : j ∈ r.joints) (hends : s(i.parent, i.child) = s(j.parent, j.child)) : i = j :=
  List.inj_on_of_nodup_map h.simple hi hj hends

/-- Every number has a root. That of a fixed link is the link itself, and the links of a joint have
the same one. -/
theorem IsForest.exists_roots (hr : r.Valid) (h : r.IsForest) :
    ∃ root : Nat → Nat, (∀ i, r.linkGraph.Reachable (root i) i) ∧
      (∀ f ∈ r.fixedLinks, root f.id = f.id) ∧
      ∀ u w, r.linkGraph.Adj u w → root u = root w := by
  have hroot : ∀ i, ∃ a, r.linkGraph.Reachable a i ∧
      ∀ l ∈ r.links, l.id = i → ∃ f ∈ r.fixedLinks, f.id = a := by
    intro i
    by_cases hi : i ∈ r.links.map (·.id)
    · obtain ⟨l, hl, rfl⟩ := List.mem_map.1 hi
      obtain ⟨f, ⟨hf, hreach⟩, -⟩ := h.rooted l hl
      exact ⟨f.id, hreach, fun _ _ _ => ⟨f, hf, rfl⟩⟩
    · exact ⟨i, .refl i, fun l hl heq => absurd (List.mem_map.2 ⟨l, hl, heq⟩) hi⟩
  choose root hreach hfixed using hroot
  have hunique : ∀ l ∈ r.links, ∀ f ∈ r.fixedLinks, r.linkGraph.Reachable f.id l.id →
      root l.id = f.id := by
    intro l hl f hf hfl
    obtain ⟨a, ha, heq⟩ := hfixed l.id l hl rfl
    have hal : r.linkGraph.Reachable a.id l.id := heq ▸ hreach l.id
    rw [← heq, (h.rooted l hl).unique ⟨ha, hal⟩ ⟨hf, hfl⟩]
  refine ⟨root, hreach, fun f hf => ?_, fun u w hadj => ?_⟩
  · exact hunique f (List.mem_filter.1 hf).1 f hf (.refl f.id)
  · obtain ⟨hu, hw⟩ := hr.mem_of_adj hadj
    obtain ⟨k, hk, rfl⟩ := List.mem_map.1 hu
    obtain ⟨l, hl, rfl⟩ := List.mem_map.1 hw
    obtain ⟨a, ha, heq⟩ := hfixed l.id l hl rfl
    have hal : r.linkGraph.Reachable a.id l.id := heq ▸ hreach l.id
    rw [← heq]
    exact hunique k hk a ha (hal.trans hadj.symm.reachable)

/-- The arm hangs on its base, which is fixed. -/
theorem twoLinkArm_isForest [Scalar α] : (twoLinkArm : Robot α).IsForest where
  acyclic := by
    have hbot : ¬ (⊥ : SimpleGraph Nat).Reachable 0 1 := by
      rw [reachable_bot]
      decide
    refine (isAcyclic_bot.sup_edge_of_not_reachable hbot).anti fun u w h => ?_
    obtain ⟨hne, ⟨j, hj, rfl, rfl⟩ | ⟨j, hj, rfl, rfl⟩⟩ := linkGraph_adj.1 h
    · obtain rfl := List.mem_singleton.1 hj
      exact .inr ((edge_adj 0 1 _ _).2 ⟨.inl ⟨rfl, rfl⟩, hne⟩)
    · obtain rfl := List.mem_singleton.1 hj
      exact .inr ((edge_adj 0 1 _ _).2 ⟨.inr ⟨rfl, rfl⟩, hne⟩)
  simple := List.nodup_singleton _
  rooted := by
    have hfixed : ∀ f, f ∈ (twoLinkArm : Robot α).fixedLinks ↔
        f = unitLink 0 "l1" (placed 0 0 1) true := fun f => List.mem_singleton
    have hjoint : (twoLinkArm : Robot α).linkGraph.Adj 0 1 :=
      linkGraph_adj.2 ⟨by decide, .inl ⟨_, List.mem_singleton_self _, rfl, rfl⟩⟩
    have hbase : ∀ i, (twoLinkArm : Robot α).linkGraph.Reachable 0 i →
        ∃! f, f ∈ (twoLinkArm : Robot α).fixedLinks ∧
          (twoLinkArm : Robot α).linkGraph.Reachable f.id i := fun i hi =>
      ⟨_, ⟨(hfixed _).2 rfl, hi⟩, fun f hf => (hfixed f).1 hf.1⟩
    exact List.forall_mem_cons.2 ⟨hbase 0 (.refl 0),
      List.forall_mem_singleton.2 (hbase 1 hjoint.reachable)⟩

/-! ## 3. Values of the links -/

/-- **A relation through joints that can be solved from either end has values of the links, with
given ones at the fixed links.** -/
theorem IsForest.exists_assignment (hr : r.Valid) (h : r.IsForest) {X : Type}
    {R : Joint α → X → X → Prop} (hchild : ∀ j ∈ r.joints, ∀ x, ∃ y, R j x y)
    (hparent : ∀ j ∈ r.joints, ∀ y, ∃ x, R j x y) (start : Nat → X) :
    ∃ x : Nat → X, (∀ l ∈ r.fixedLinks, x l.id = start l.id) ∧
      ∀ j ∈ r.joints, R j (x j.parent) (x j.child) := by
  obtain ⟨root, hroot, hfixed, hadj⟩ := h.exists_roots hr
  -- what the joints between two vertices say, seen from the first one
  let between : Nat → Nat → X → X → Prop := fun u w x y => ∀ j ∈ r.joints,
    (j.parent = u → j.child = w → R j x y) ∧ (j.parent = w → j.child = u → R j y x)
  have hsolve : ∀ u w, r.linkGraph.Adj u w → ∀ x, ∃ y, between u w x y := by
    intro u w huw x
    obtain ⟨hne, ⟨i, hi, rfl, rfl⟩ | ⟨i, hi, rfl, rfl⟩⟩ := linkGraph_adj.1 huw
    · obtain ⟨y, hy⟩ := hchild i hi x
      refine ⟨y, fun j hj => ⟨fun hp hc => ?_, fun hp hc => ?_⟩⟩
      · obtain rfl := h.joint_unique hi hj (by rw [hp, hc])
        exact hy
      · obtain rfl := h.joint_unique hi hj (by rw [hp, hc, Sym2.eq_swap])
        exact absurd hp hne
    · obtain ⟨y, hy⟩ := hparent i hi x
      refine ⟨y, fun j hj => ⟨fun hp hc => ?_, fun hp hc => ?_⟩⟩
      · obtain rfl := h.joint_unique hi hj (by rw [hp, hc, Sym2.eq_swap])
        exact absurd hc hne
      · obtain rfl := h.joint_unique hi hj (by rw [hp, hc])
        exact hy
  obtain ⟨x, hstart, hbetween⟩ := exists_carried h.acyclic hsolve hroot hadj start
  refine ⟨x, fun l hl => hstart l.id (hfixed l hl), fun j hj => ?_⟩
  rcases hbetween j.parent j.child (hr.adj_of_mem hj) with hdown | hup
  · exact (hdown j hj).1 rfl rfl
  · exact (hup j hj).2 rfl rfl

/-- **What holds of the fixed links, and of both links of a joint or of none, holds of all
links.** -/
theorem IsForest.induction (h : r.IsForest) {P : Nat → Prop} (hfixed : ∀ l ∈ r.fixedLinks, P l.id)
    (hjoint : ∀ j ∈ r.joints, (P j.parent ↔ P j.child)) : ∀ l ∈ r.links, P l.id := by
  have hadj : ∀ {u w}, r.linkGraph.Adj u w → P u → P w := by
    intro u w huw hu
    obtain ⟨-, ⟨j, hj, rfl, rfl⟩ | ⟨j, hj, rfl, rfl⟩⟩ := linkGraph_adj.1 huw
    · exact (hjoint j hj).1 hu
    · exact (hjoint j hj).2 hu
  have hwalk : ∀ {u w} (_ : r.linkGraph.Walk u w), P u → P w := by
    intro u w p
    induction p with
    | nil => exact id
    | cons huv _ ih => exact fun hu => ih (hadj huv hu)
  intro l hl
  obtain ⟨f, ⟨hf, ⟨p⟩⟩, -⟩ := h.rooted l hl
  exact hwalk p (hfixed f hf)

end Forest

end Robot

end Articulated
