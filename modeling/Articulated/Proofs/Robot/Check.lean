import Articulated.Proofs.Fault.Outcome
import Articulated.Robot.Model

/-!
# What a checked robot is

The check of a robot goes through the links and then the joints, and compares each with those
before it. What it accepts is described without an order (`Robot.Valid`): ids are unique and fit
the keys, and every joint connects two different links of the robot.

* `Robot.check_eq_ok_iff`: the check accepts exactly the valid robots.
* `Robot.Valid.link?_eq`: the links of a valid robot are found by their ids.
-/

namespace Articulated

/-- Ids are unique and fit, and joints connect two different links. -/
structure Robot.Valid {α : Type} (r : Robot α) : Prop where
  link_le : ∀ l ∈ r.links, l.id ≤ maxId
  links_nodup : (r.links.map (·.id)).Nodup
  joint_le : ∀ j ∈ r.joints, j.id ≤ maxId
  joints_nodup : (r.joints.map (·.id)).Nodup
  ends_ne : ∀ j ∈ r.joints, j.parent ≠ j.child
  parent_mem : ∀ j ∈ r.joints, j.parent ∈ r.links.map (·.id)
  child_mem : ∀ j ∈ r.joints, j.child ∈ r.links.map (·.id)

namespace Robot

variable {α : Type}

/-! ## 1. Guards -/

theorem guard_eq_ok {p : Prop} [Decidable p] {e : Fault α} {x : Except (Fault α) Unit} :
    (do if p then throw e
        x) = .ok () ↔ ¬ p ∧ x = .ok () := by
  by_cases hp : p
  · rw [if_pos hp]
    exact ⟨nofun, fun h => absurd hp h.1⟩
  · rw [if_neg hp]
    exact ⟨fun h => ⟨hp, h⟩, And.right⟩

theorem any_id_iff {β : Type} (f : β → Nat) (seen : List β) (i : Nat) :
    (seen.any fun s => f s == i) = true ↔ i ∈ seen.map f := by
  rw [List.any_eq_true, List.mem_map]
  exact exists_congr fun s => and_congr_right fun _ => beq_iff_eq

/-- A list of ids compared one by one with those before: what is asked of the rest. -/
theorem distinct_cons {β : Type} {f : β → Nat} {b : β} {rest seen : List β} :
    (f b ∉ seen.map f ∧ (rest.map f).Nodup ∧ ∀ c ∈ rest, f c ∉ (b :: seen).map f) ↔
      ((b :: rest).map f).Nodup ∧ ∀ c ∈ b :: rest, f c ∉ seen.map f := by
  simp only [List.map_cons, List.nodup_cons, List.forall_mem_cons]
  constructor
  · intro hok
    obtain ⟨hb, hnodup, hrest⟩ := hok
    refine ⟨⟨fun hmem => ?_, hnodup⟩, hb, fun c hc hmem => hrest c hc (List.mem_cons_of_mem _ hmem)⟩
    obtain ⟨c, hc, heq⟩ := List.mem_map.1 hmem
    exact hrest c hc (heq ▸ List.mem_cons_self)
  · intro hok
    obtain ⟨⟨hb, hnodup⟩, hseen, hrest⟩ := hok
    refine ⟨hseen, hnodup, fun c hc hmem => ?_⟩
    rcases List.mem_cons.1 hmem with heq | hmem
    · exact hb (List.mem_map.2 ⟨c, hc, heq⟩)
    · exact hrest c hc hmem

/-! ## 2. Links -/

theorem checkLinks_eq_ok : ∀ {rest seen : List (Link α)},
    checkLinks seen rest = .ok () ↔ (∀ l ∈ rest, l.id ≤ maxId) ∧ (rest.map (·.id)).Nodup ∧
      ∀ l ∈ rest, l.id ∉ seen.map (·.id)
  | [], _ => by simp [checkLinks, pure, Except.pure]
  | l :: rest, seen => by
    unfold checkLinks
    rw [guard_eq_ok, guard_eq_ok, checkLinks_eq_ok, any_id_iff, Nat.not_lt, ← distinct_cons,
      List.forall_mem_cons]
    tauto

theorem mem_ids_iff {r : Robot α} {i : Nat} :
    (r.link? i).isSome = true ↔ i ∈ r.links.map (·.id) := by
  unfold link?
  rw [List.find?_isSome, List.mem_map]
  exact exists_congr fun l => and_congr_right fun _ => beq_iff_eq

/-! ## 3. Joints -/

theorem checkEnd_eq_ok {r : Robot α} {j : Joint α} {i : Nat} :
    r.checkEnd j i = .ok () ↔ i ∈ r.links.map (·.id) := by
  unfold checkEnd
  rw [← mem_ids_iff]
  split
  · rename_i h
    exact iff_of_true rfl h
  · rename_i h
    exact iff_of_false (nofun) h

theorem checkJoints_eq_ok {r : Robot α} : ∀ {rest seen : List (Joint α)},
    r.checkJoints seen rest = .ok () ↔
      ((∀ j ∈ rest, j.id ≤ maxId) ∧ (rest.map (·.id)).Nodup ∧
        ∀ j ∈ rest, j.id ∉ seen.map (·.id)) ∧
      ∀ j ∈ rest, j.parent ≠ j.child ∧ j.parent ∈ r.links.map (·.id) ∧
        j.child ∈ r.links.map (·.id)
  | [], _ => by simp [checkJoints, pure, Except.pure]
  | j :: rest, seen => by
    have hends : ∀ {x : Except (Fault α) Unit}, (do
        r.checkEnd j j.parent
        r.checkEnd j j.child
        x) = .ok () ↔ j.parent ∈ r.links.map (·.id) ∧ j.child ∈ r.links.map (·.id) ∧
          x = .ok () := by
      intro x
      rw [seq_eq_ok, seq_eq_ok, checkEnd_eq_ok, checkEnd_eq_ok]
    unfold checkJoints
    rw [guard_eq_ok, guard_eq_ok, guard_eq_ok, hends, checkJoints_eq_ok, any_id_iff, Nat.not_lt,
      ← distinct_cons, List.forall_mem_cons, List.forall_mem_cons]
    tauto

/-! ## 4. Robots -/

/-- **The check accepts exactly the valid robots.** -/
theorem check_eq_ok_iff {r : Robot α} : r.check = .ok () ↔ r.Valid := by
  unfold check
  rw [seq_eq_ok, checkLinks_eq_ok, checkJoints_eq_ok]
  constructor
  · intro hok
    obtain ⟨⟨hle, hnodup, -⟩, ⟨hjle, hjnodup, -⟩, hends⟩ := hok
    exact ⟨hle, hnodup, hjle, hjnodup, fun j hj => (hends j hj).1, fun j hj => (hends j hj).2.1,
      fun j hj => (hends j hj).2.2⟩
  · intro h
    exact ⟨⟨h.link_le, h.links_nodup, fun _ _ => List.not_mem_nil⟩,
      ⟨h.joint_le, h.joints_nodup, fun _ _ => List.not_mem_nil⟩,
      fun j hj => ⟨h.ends_ne j hj, h.parent_mem j hj, h.child_mem j hj⟩⟩

/-! ## 5. Ids of a valid robot -/

section Ids

variable {r : Robot α} {j : Joint α}

theorem Valid.id_le_of_mem (hr : r.Valid) {i : Nat} (hi : i ∈ r.links.map (·.id)) : i ≤ maxId := by
  obtain ⟨l, hl, rfl⟩ := List.mem_map.1 hi
  exact hr.link_le l hl

theorem Valid.parent_le (hr : r.Valid) (hj : j ∈ r.joints) : j.parent ≤ maxId :=
  hr.id_le_of_mem (hr.parent_mem j hj)

theorem Valid.child_le (hr : r.Valid) (hj : j ∈ r.joints) : j.child ≤ maxId :=
  hr.id_le_of_mem (hr.child_mem j hj)

end Ids

/-! ## 6. Look-up -/

/-- In a list with distinct ids, an element is the first one with its id. -/
theorem find?_id {β : Type} {f : β → Nat} : ∀ {l : List β}, (l.map f).Nodup → ∀ b ∈ l,
    l.find? (f · == f b) = some b
  | c :: l, h, b, hb => by
    obtain ⟨hc, hl⟩ := List.nodup_cons.1 h
    rcases List.mem_cons.1 hb with rfl | hb
    · exact List.find?_cons_of_pos (beq_self_eq_true _)
    · have hne : f c ≠ f b := fun heq => hc (heq ▸ List.mem_map_of_mem hb)
      rw [List.find?_cons_of_neg (by simpa using hne)]
      exact find?_id hl b hb

theorem Valid.link?_eq {r : Robot α} (hr : r.Valid) {l : Link α} (hl : l ∈ r.links) :
    r.link? l.id = some l := find?_id hr.links_nodup l hl

end Robot

end Articulated
