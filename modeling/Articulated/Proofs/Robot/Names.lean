import Articulated.Proofs.Robot.History
import Articulated.Proofs.Robot.Reordering

/-!
# Calls by name and the order of the parts

Names need not be unique, and a call by name means the first part that has the name. Take two
robots with the same parts in some order, and make the same calls on both. Every call answers the
same, with the same id or the same fault: whether a call succeeds depends on the names and the ids
alone, not on which part is meant. But the parts that are changed need not be the same, unless every
call means the only part of its name.

* `Robot.trace`: the answers of a history of calls.
* `Robot.SameNames`, `Robot.trace_eq`: robots with the same names and ids answer the same.
* `Robot.Clear`, `Robot.run_reordered`: the parts stay the same if all calls are clear.
* `Robot.calls_reordered`: both, of robots that were accepted.
* `Robot.fixLink_twins`: two links of one name, of which the order says which one is fixed.
-/

namespace Articulated.Robot

/-! ## 1. The first element that passes a test -/

section Lists

variable {β γ : Type} {l l' : List β} {p : β → Bool}

/-- At most one element passes the test: reordered lists then select the same. -/
theorem filter_eq_of_perm (h : l.Perm l') (hone : l.countP p ≤ 1) : l.filter p = l'.filter p := by
  have hperm := h.filter p
  rw [List.countP_eq_length_filter] at hone
  match hl : l.filter p with
  | [] => exact (List.nil_perm.1 (hl ▸ hperm)).symm
  | [b] => exact (List.perm_singleton.1 (hl ▸ hperm).symm).symm
  | _ :: _ :: _ => simp [hl] at hone

theorem find?_eq_of_perm (h : l.Perm l') (hone : l.countP p ≤ 1) : l.find? p = l'.find? p := by
  rw [← List.head?_filter, ← List.head?_filter, filter_eq_of_perm h hone]

/-- If at most one element passes the test, then the change of the first one is the change of all
that pass. -/
theorem modifyFirst_eq_map {change : β → β} : ∀ {l : List β}, l.countP p ≤ 1 →
    modifyFirst p change l = l.map fun x => if p x then change x else x
  | [], _ => rfl
  | x :: l, hone => by
    unfold modifyFirst
    by_cases hx : p x = true
    · rw [List.countP_cons_of_pos hx] at hone
      have hrest : ∀ y ∈ l, ¬ p y = true := List.countP_eq_zero.1 (by omega)
      have hsame : l.map (fun y => if p y then change y else y) = l.map id :=
        List.map_congr_left fun y hy => if_neg (hrest y hy)
      rw [if_pos hx, List.map_cons, if_pos hx, hsame, List.map_id]
    · rw [List.countP_cons_of_neg hx] at hone
      rw [if_neg hx, List.map_cons, if_neg hx, modifyFirst_eq_map hone]

theorem modifyFirst_perm {change : β → β} (h : l.Perm l') (hone : l.countP p ≤ 1) :
    (modifyFirst p change l).Perm (modifyFirst p change l') := by
  rw [modifyFirst_eq_map hone, modifyFirst_eq_map (h.countP_eq p ▸ hone)]
  exact h.map _

theorem nextId_eq_of_perm {ids ids' : List Nat} (h : ids.Perm ids') : nextId ids = nextId ids' :=
  h.foldl_eq' (fun x _ y _ m => by omega) 0

end Lists

/-! ## 2. Robots with the same names -/

section Names

variable {α : Type} {r r' : Robot α} {name parent child : String} {l c : Link α}

/-- The robots have the same names and the same ids, in some order. Which name belongs to which id
is left open. -/
structure SameNames (r r' : Robot α) : Prop where
  link_names : (r.links.map (·.name)).Perm (r'.links.map (·.name))
  link_ids : (r.links.map (·.id)).Perm (r'.links.map (·.id))
  joint_names : (r.joints.map (·.name)).Perm (r'.joints.map (·.name))
  joint_ids : (r.joints.map (·.id)).Perm (r'.joints.map (·.id))
  links_nodup : (r.links.map (·.id)).Nodup

theorem Reordered.sameNames (h : Reordered r r') (hr : r.Connected) : SameNames r r' where
  link_names := h.links.map _
  link_ids := h.links.map _
  joint_names := h.joints.map _
  joint_ids := h.joints.map _
  links_nodup := hr.links_nodup

theorem SameNames.symm (h : SameNames r r') : SameNames r' r where
  link_names := h.link_names.symm
  link_ids := h.link_ids.symm
  joint_names := h.joint_names.symm
  joint_ids := h.joint_ids.symm
  links_nodup := h.link_ids.nodup_iff.1 h.links_nodup

/-! ## 3. Look-up by name -/

theorem linkNamed_eq_ok : r.linkNamed name = .ok l ↔ r.links.find? (·.name == name) = some l := by
  unfold linkNamed
  cases r.links.find? (·.name == name) with
  | none => exact ⟨nofun, nofun⟩
  | some l' => exact ⟨fun h => congrArg some (Except.ok.inj h),
      fun h => congrArg Except.ok (Option.some.inj h)⟩

theorem linkNamed_spec (h : r.linkNamed name = .ok l) : l ∈ r.links ∧ l.name = name := by
  have hfind := linkNamed_eq_ok.1 h
  have htest := List.find?_some hfind
  exact ⟨List.mem_of_find?_eq_some hfind, beq_iff_eq.1 htest⟩

/-- Whether a name is found depends on the names alone. -/
theorem find?_outcomes {β : Type} {l l' : List β} {f : β → String}
    (h : (l.map f).Perm (l'.map f)) (name : String) :
    (l.find? (f · == name) = none ∧ l'.find? (f · == name) = none) ∨
      ∃ b b', l.find? (f · == name) = some b ∧ l'.find? (f · == name) = some b' := by
  have hfound : ∀ l : List β, (∃ b, l.find? (f · == name) = some b) ↔ name ∈ l.map f := by
    intro l
    rw [← Option.isSome_iff_exists, List.find?_isSome, List.mem_map]
    exact exists_congr fun b => and_congr_right fun _ => beq_iff_eq
  have hiff := (hfound l).trans (h.mem_iff.trans (hfound l').symm)
  cases hl : l.find? (f · == name) with
  | none =>
    refine .inl ⟨rfl, Option.eq_none_iff_forall_ne_some.2 fun b' hb' => ?_⟩
    obtain ⟨b, hb⟩ := hiff.2 ⟨b', hb'⟩
    cases hl.symm.trans hb
  | some b =>
    obtain ⟨b', hb'⟩ := hiff.1 ⟨b, hl⟩
    exact .inr ⟨b, b', rfl, hb'⟩

theorem SameNames.linkNamed_alike (h : SameNames r r') (name : String) :
    Alike (fun l l' => r.linkNamed name = .ok l ∧ r'.linkNamed name = .ok l')
      (r.linkNamed name) (r'.linkNamed name) := by
  obtain ⟨hl, hl'⟩ | ⟨l, l', hl, hl'⟩ := find?_outcomes h.link_names name
  · unfold linkNamed
    rw [hl, hl']
    exact .error _
  · rw [linkNamed_eq_ok.2 hl, linkNamed_eq_ok.2 hl']
    exact ⟨rfl, rfl⟩

theorem SameNames.jointNamed_alike (h : SameNames r r') (name : String) :
    Alike (fun _ _ => True) (r.jointNamed name) (r'.jointNamed name) := by
  unfold jointNamed
  obtain ⟨hj, hj'⟩ | ⟨j, j', hj, hj'⟩ := find?_outcomes h.joint_names name
  · rw [hj, hj']
    exact .error _
  · rw [hj, hj']
    trivial

/-- Two names mean the same link exactly if they are the same name. -/
theorem SameNames.id_eq_iff (h : SameNames r r') (hp : r.linkNamed parent = .ok l)
    (hc : r.linkNamed child = .ok c) : l.id = c.id ↔ parent = child := by
  constructor
  · intro hid
    obtain ⟨hl, hparent⟩ := linkNamed_spec hp
    obtain ⟨hc, hchild⟩ := linkNamed_spec hc
    exact hparent.symm.trans
      ((congrArg Link.name (List.inj_on_of_nodup_map h.links_nodup hl hc hid)).trans hchild)
  · rintro rfl
    rw [answer_unique hp hc]

/-! ## 4. Steps between robots with the same names -/

/-- A change of links that keeps their names and ids. -/
theorem SameNames.modifyLinks (h : SameNames r r') {test : Link α → Bool} {change : Link α → Link α}
    (hname : ∀ l, (change l).name = l.name) (hid : ∀ l, (change l).id = l.id) :
    SameNames { r with links := modifyFirst test change r.links }
      { r' with links := modifyFirst test change r'.links } where
  link_names := by
    rw [map_modifyFirst hname, map_modifyFirst hname]
    exact h.link_names
  link_ids := by
    rw [map_modifyFirst hid, map_modifyFirst hid]
    exact h.link_ids
  joint_names := h.joint_names
  joint_ids := h.joint_ids
  links_nodup := by
    rw [map_modifyFirst hid]
    exact h.links_nodup

/-- A change of joints that keeps their names and ids. -/
theorem SameNames.modifyJoints (h : SameNames r r') {test : Joint α → Bool}
    {change : Joint α → Joint α} (hname : ∀ j, (change j).name = j.name)
    (hid : ∀ j, (change j).id = j.id) :
    SameNames { r with joints := modifyFirst test change r.joints }
      { r' with joints := modifyFirst test change r'.joints } where
  link_names := h.link_names
  link_ids := h.link_ids
  joint_names := by
    rw [map_modifyFirst hname, map_modifyFirst hname]
    exact h.joint_names
  joint_ids := by
    rw [map_modifyFirst hid, map_modifyFirst hid]
    exact h.joint_ids
  links_nodup := h.links_nodup

/-- A new link of one name and one id. -/
theorem SameNames.addLink (h : SameNames r r') {l l' : Link α} (hname : l.name = l'.name)
    (hid : l.id = l'.id) (hnew : l.id ∉ r.links.map (·.id)) :
    SameNames { r with links := r.links ++ [l] } { r' with links := r'.links ++ [l'] } where
  link_names := by
    rw [List.map_append, List.map_append, List.map_singleton, List.map_singleton, hname]
    exact h.link_names.append_right _
  link_ids := by
    rw [List.map_append, List.map_append, List.map_singleton, List.map_singleton, hid]
    exact h.link_ids.append_right _
  joint_names := h.joint_names
  joint_ids := h.joint_ids
  links_nodup := by
    rw [List.map_append, List.map_singleton, (List.perm_append_singleton _ _).nodup_iff]
    exact List.nodup_cons.2 ⟨hnew, h.links_nodup⟩

/-- A new joint of one name and one id, whatever its ends are. -/
theorem SameNames.addJoint (h : SameNames r r') {j j' : Joint α} (hname : j.name = j'.name)
    (hid : j.id = j'.id) :
    SameNames { r with joints := r.joints ++ [j] } { r' with joints := r'.joints ++ [j'] } where
  link_names := h.link_names
  link_ids := h.link_ids
  joint_names := by
    rw [List.map_append, List.map_append, List.map_singleton, List.map_singleton, hname]
    exact h.joint_names.append_right _
  joint_ids := by
    rw [List.map_append, List.map_append, List.map_singleton, List.map_singleton, hid]
    exact h.joint_ids.append_right _
  links_nodup := h.links_nodup

theorem SameNames.setFixed_alike (h : SameNames r r') (name : String) (fixed : Bool) :
    Alike SameNames (r.setFixed name fixed) (r'.setFixed name fixed) :=
  (h.linkNamed_alike name).discard.bind fun _ _ _ => h.modifyLinks (fun _ => rfl) fun _ => rfl

theorem SameNames.setLimits_alike (h : SameNames r r') (name : String) (limits : JointLimits α) :
    Alike SameNames (r.setLimits name limits) (r'.setLimits name limits) :=
  (h.jointNamed_alike name).discard.bind fun _ _ _ => h.modifyJoints (fun _ => rfl) fun _ => rfl

end Names

/-! ## 5. Every call answers the same -/

section Calls

variable {α : Type} [Scalar α] {r r' : Robot α}

/-- The answers of a history of calls, one by one. A call that fails leaves the robot as it was. -/
def trace (r : Robot α) : List (Change α) → List (Except (Fault α) (Option Nat))
  | [] => []
  | c :: cs =>
    match r.change c with
    | .ok (r', id) => .ok id :: r'.trace cs
    | .error e => .error e :: r.trace cs

/-- The answers agree, and so do the names after the call. -/
def AnswersAlike {β : Type} (p q : Robot α × β) : Prop := SameNames p.1 q.1 ∧ p.2 = q.2

theorem SameNames.addJoint_alike (h : SameNames r r') (name : String) (type : JointType)
    (parent child : String) (rest : Pose α) (axis : Vec3 α) :
    Alike AnswersAlike (r.addJoint name type parent child rest axis)
      (r'.addJoint name type parent child rest axis) := by
  refine (h.linkNamed_alike parent).bind fun l l' hl => ?_
  refine (h.linkNamed_alike child).bind fun c c' hc => ?_
  have hsame : l.id = c.id ↔ l'.id = c'.id := by
    rw [h.id_eq_iff hl.1 hc.1, h.symm.id_eq_iff hl.2 hc.2]
  by_cases hid : l.id = c.id
  · rw [if_pos hid, if_pos (hsame.1 hid)]
    exact .error _
  · rw [if_neg hid, if_neg fun hid' => hid (hsame.2 hid')]
    have hnext := nextId_eq_of_perm h.joint_ids
    exact ⟨h.addJoint rfl hnext, hnext⟩

/-- **Every call answers the same on robots with the same names and ids**, and leaves such
robots. -/
theorem SameNames.change_alike (h : SameNames r r') (c : Change α) :
    Alike AnswersAlike (r.change c) (r'.change c) := by
  cases c with
  | addLink name mass inertia rest =>
    have hnext := nextId_eq_of_perm h.link_ids
    exact ⟨h.addLink rfl hnext (nextId_notMem _), congrArg some hnext⟩
  | addJoint name type parent child rest axis =>
    exact (h.addJoint_alike name type parent child rest axis).bind fun p q hpq =>
      ⟨hpq.1, congrArg some hpq.2⟩
  | setLimits name limits =>
    exact (h.setLimits_alike name limits).bind fun s s' hs => ⟨hs, rfl⟩
  | fixLink name | freeLink name =>
    exact (h.setFixed_alike name _).bind fun s s' hs => ⟨hs, rfl⟩

/-- So does a history of calls. -/
theorem trace_eq : ∀ (history : List (Change α)) {r r' : Robot α}, SameNames r r' →
    r.trace history = r'.trace history
  | [], _, _, _ => rfl
  | c :: cs, r, r', h => by
    unfold trace
    obtain ⟨e, hc, hc'⟩ | ⟨p, p', hc, hc', hsame, hid⟩ := (h.change_alike c).outcomes
    · rw [hc, hc']
      exact congrArg (_ :: ·) (trace_eq cs h)
    · rw [hc, hc']
      show Except.ok p.2 :: p.1.trace cs = Except.ok p'.2 :: p'.1.trace cs
      rw [hid, trace_eq cs hsame]

end Calls

/-! ## 6. Clear calls -/

/-- A part that is referred to by its name is the only one of that name. -/
def Change.Clear {α : Type} (r : Robot α) : Change α → Prop
  | .addLink .. => True
  | .addJoint _ _ parent child _ _ =>
    r.links.countP (·.name == parent) ≤ 1 ∧ r.links.countP (·.name == child) ≤ 1
  | .setLimits name _ => r.joints.countP (·.name == name) ≤ 1
  | .fixLink name | .freeLink name => r.links.countP (·.name == name) ≤ 1

instance {α : Type} (r : Robot α) : (c : Change α) → Decidable (c.Clear r)
  | .addLink .. => inferInstanceAs (Decidable True)
  | .addJoint .. => inferInstanceAs (Decidable (_ ∧ _))
  | .setLimits .. => inferInstanceAs (Decidable (_ ≤ _))
  | .fixLink _ => inferInstanceAs (Decidable (_ ≤ _))
  | .freeLink _ => inferInstanceAs (Decidable (_ ≤ _))

section Clear

variable {α : Type} {r r' : Robot α}

theorem Reordered.linkNamed_eq (h : Reordered r r') {name : String}
    (hone : r.links.countP (·.name == name) ≤ 1) : r.linkNamed name = r'.linkNamed name := by
  unfold linkNamed
  rw [find?_eq_of_perm h.links hone]

theorem Reordered.jointNamed_eq (h : Reordered r r') {name : String}
    (hone : r.joints.countP (·.name == name) ≤ 1) : r.jointNamed name = r'.jointNamed name := by
  unfold jointNamed
  rw [find?_eq_of_perm h.joints hone]

theorem Reordered.setFixed_alike (h : Reordered r r') {name : String} (fixed : Bool)
    (hone : r.links.countP (·.name == name) ≤ 1) :
    Alike Reordered (r.setFixed name fixed) (r'.setFixed name fixed) := by
  unfold setFixed
  rw [h.linkNamed_eq hone]
  exact .bind_same fun _ => ⟨modifyFirst_perm h.links hone, h.joints⟩

theorem Reordered.setLimits_alike (h : Reordered r r') {name : String} (limits : JointLimits α)
    (hone : r.joints.countP (·.name == name) ≤ 1) :
    Alike Reordered (r.setLimits name limits) (r'.setLimits name limits) := by
  unfold setLimits
  rw [h.jointNamed_eq hone]
  exact .bind_same fun _ => ⟨h.links, modifyFirst_perm h.joints hone⟩

variable [Scalar α]

/-- Every call of the history is clear when it is made. -/
def ClearHistory (r : Robot α) : List (Change α) → Prop
  | [] => True
  | c :: cs => c.Clear r ∧ ClearHistory (r.run [c]).1 cs

instance decidableClearHistory : (r : Robot α) → (history : List (Change α)) →
    Decidable (r.ClearHistory history)
  | _, [] => inferInstanceAs (Decidable True)
  | r, c :: cs =>
    have := decidableClearHistory (r.run [c]).1 cs
    inferInstanceAs (Decidable (c.Clear r ∧ ClearHistory (r.run [c]).1 cs))

theorem run_cons (r : Robot α) (c : Change α) (cs : List (Change α)) :
    (r.run (c :: cs)).1 = ((r.run [c]).1.run cs).1 := by
  cases hc : r.change c with
  | error e => simp [run, hc]
  | ok p => simp [run, hc]

theorem Reordered.addJoint_alike (h : Reordered r r') (name : String) (type : JointType)
    {parent child : String} (rest : Pose α) (axis : Vec3 α)
    (hparent : r.links.countP (·.name == parent) ≤ 1)
    (hchild : r.links.countP (·.name == child) ≤ 1) :
    Alike (fun p q => Reordered p.1 q.1) (r.addJoint name type parent child rest axis)
      (r'.addJoint name type parent child rest axis) := by
  unfold addJoint
  rw [h.linkNamed_eq hparent, h.linkNamed_eq hchild, nextId_eq_of_perm (h.joints.map _)]
  refine .bind_same fun l => .bind_same fun c => ?_
  by_cases hid : l.id = c.id
  · rw [if_pos hid, if_pos hid]
    exact .error _
  · rw [if_neg hid, if_neg hid]
    exact ⟨h.links, h.joints.append_right _⟩

/-- A clear call changes the same part. -/
theorem Reordered.change_alike (h : Reordered r r') {c : Change α} (hclear : c.Clear r) :
    Alike (fun p q => Reordered p.1 q.1) (r.change c) (r'.change c) := by
  cases c with
  | addLink name mass inertia rest =>
    have hnext := nextId_eq_of_perm (h.links.map (·.id))
    refine ⟨?_, h.joints⟩
    show (r.links ++ [_]).Perm (r'.links ++ [_])
    rw [hnext]
    exact h.links.append_right _
  | addJoint name type parent child rest axis =>
    exact (h.addJoint_alike name type rest axis hclear.1 hclear.2).bind fun p q hpq => hpq
  | setLimits name limits =>
    exact (h.setLimits_alike limits hclear).bind fun s s' hs => hs
  | fixLink name | freeLink name =>
    exact (h.setFixed_alike _ hclear).bind fun s s' hs => hs

theorem Reordered.run_single (h : Reordered r r') {c : Change α} (hclear : c.Clear r) :
    Reordered (r.run [c]).1 (r'.run [c]).1 := by
  unfold run
  obtain ⟨e, hc, hc'⟩ | ⟨p, p', hc, hc', hparts⟩ := (h.change_alike hclear).outcomes
  · rw [hc, hc']
    exact h
  · rw [hc, hc']
    exact hparts

/-- **Robots with the same parts keep the same parts** along a history of clear calls. -/
theorem run_reordered : ∀ (history : List (Change α)) {r r' : Robot α}, Reordered r r' →
    r.ClearHistory history → Reordered (r.run history).1 (r'.run history).1
  | [], _, _, h, _ => h
  | c :: cs, r, r', h, hclear => by
    rw [run_cons r c cs, run_cons r' c cs]
    exact run_reordered cs (h.run_single hclear.1) hclear.2

/-- **Calls by name and the order of the parts.** Of two lists of the same parts one is accepted if
the other one is. Any calls are then answered the same on both robots, with the same ids and the
same faults. The robots still have the same parts after that if every call that refers to a part by
its name meant the only part of the name. -/
theorem calls_reordered {links links' : List (Link α)} {joints joints' : List (Joint α)}
    (hlinks : links.Perm links') (hjoints : joints.Perm joints') {r : Robot α}
    (h : ofParts links joints = .ok r) : ∃ r', ofParts links' joints' = .ok r' ∧
      ∀ history : List (Change α), r.trace history = r'.trace history ∧
        (r.ClearHistory history → Reordered (r.run history).1 (r'.run history).1) := by
  obtain ⟨hcheck, h⟩ := seq_eq_ok.1 h
  obtain rfl := pure_eq_ok.1 h
  have hr := check_eq_ok_iff.1 hcheck
  have hreordered : Reordered (⟨links, joints⟩ : Robot α) ⟨links', joints'⟩ := ⟨hlinks, hjoints⟩
  refine ⟨⟨links', joints'⟩, ?_, fun history => ⟨?_, run_reordered history hreordered⟩⟩
  · exact seq_eq_ok.2 ⟨check_eq_ok_iff.2 (hreordered.valid hr), rfl⟩
  · exact trace_eq history (hreordered.sameNames (valid_iff.1 hr).1)

end Clear

/-- The arm with its parts in the opposite order, and a third link on a slide. -/
theorem calls_reordered_twoLinkArm :
    let r : Robot Float := .twoLinkArm
    r.links.Perm r.links.reverse ∧ r.joints.Perm r.joints.reverse ∧
      ofParts r.links r.joints = .ok r ∧ r.ClearHistory extendedArm ∧
      ∃ r', ofParts r.links.reverse r.joints.reverse = .ok r' ∧
        r.trace extendedArm = r'.trace extendedArm ∧
        Reordered (r.run extendedArm).1 (r'.run extendedArm).1 := by
  intro r
  have hlinks : r.links.Perm r.links.reverse := (List.reverse_perm _).symm
  have hjoints : r.joints.Perm r.joints.reverse := (List.reverse_perm _).symm
  have h : ofParts r.links r.joints = .ok r := rfl
  have hclear : r.ClearHistory extendedArm := by decide
  obtain ⟨r', hr', hcalls⟩ := calls_reordered hlinks hjoints h
  exact ⟨hlinks, hjoints, h, hclear, r', hr', (hcalls _).1, (hcalls _).2 hclear⟩

/-- Two links of one name. -/
def twins : List (Link Float) :=
  [unitLink 0 "twin" .identity false, unitLink 1 "twin" .identity false]

/-- **Which of two links of one name is fixed depends on their order.** Both orders are accepted,
and after the same call link 0 is fixed on one robot and link 1 on the other. -/
theorem fixLink_twins : ∃ r r' : Robot Float, ofParts twins [] = .ok r ∧
    ofParts twins.reverse [] = .ok r' ∧
      ¬ Reordered (r.run [.fixLink "twin"]).1 (r'.run [.fixLink "twin"]).1 := by
  refine ⟨⟨twins, []⟩, ⟨twins.reverse, []⟩, rfl, rfl, fun h => ?_⟩
  have hfixed := h.links.map fun l => (l.id, l.fixed)
  exact absurd hfixed (by decide)

end Articulated.Robot
