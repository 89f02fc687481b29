import Articulated.Proofs.Fault.Outcome
import Mathlib.Data.List.Perm.Basic

/-!
# Reordered lists

Two lists may have related elements that do not stand in the same order. Computations over such
lists both fail or give such lists again, though they need not fail in the same way: which fault is
met first depends on the order.

* `ReorderedBy`: the elements of two lists are related one to one, in some order.
* `mergeSort_eq_of_perm`: sorting forgets the order.
* `Matching.mapM`: computations over reordered lists.
-/

namespace Articulated

/-! ## 1. Lists up to order -/

/-- The elements of the lists are related one to one, in some order. -/
def ReorderedBy {β γ : Type} (R : β → γ → Prop) (l : List β) (l' : List γ) : Prop :=
  ∃ m, List.Forall₂ R l m ∧ m.Perm l'

namespace ReorderedBy

variable {β γ δ ζ : Type} {R : β → γ → Prop} {S : δ → ζ → Prop} {l : List β} {l' : List γ}

theorem of_forall₂ (h : List.Forall₂ R l l') : ReorderedBy R l l' := ⟨l', h, .refl l'⟩

theorem of_perm {R : β → β → Prop} {l' : List β} (h : l.Perm l') (hR : ∀ b ∈ l, R b b) :
    ReorderedBy R l l' := ⟨l, List.forall₂_same.2 hR, h⟩

theorem trans_perm {m : List γ} (h : ReorderedBy R l l') (hm : l'.Perm m) : ReorderedBy R l m := by
  obtain ⟨n, hn, hperm⟩ := h
  exact ⟨n, hn, hperm.trans hm⟩

theorem of_perm_trans {k : List β} (hk : k.Perm l) (h : ReorderedBy R l l') :
    ReorderedBy R k l' := by
  obtain ⟨m, hm, hperm⟩ := h
  obtain ⟨n, hn, hperm'⟩ := List.perm_comp_forall₂ hk hm
  exact ⟨n, hn, hperm'.trans hperm⟩

/-- Every element is related to one of the other list. -/
theorem exists_related (h : ReorderedBy R l l') {b : β} (hb : b ∈ l) : ∃ c ∈ l', R b c := by
  obtain ⟨m, hm, hperm⟩ := h
  obtain ⟨c, hc, hR⟩ := exists_answer hm hb
  exact ⟨c, hperm.mem_iff.1 hc, hR⟩

theorem symm (h : ReorderedBy R l l') : ReorderedBy (fun c b => R b c) l' l := by
  obtain ⟨m, hm, hperm⟩ := h
  exact of_perm_trans hperm.symm (of_forall₂ hm.flip)

theorem append {k : List β} {k' : List γ} (h : ReorderedBy R l l') (h' : ReorderedBy R k k') :
    ReorderedBy R (l ++ k) (l' ++ k') := by
  obtain ⟨m, hm, hperm⟩ := h
  obtain ⟨n, hn, hperm'⟩ := h'
  exact ⟨m ++ n, List.rel_append hm hn, hperm.append hperm'⟩

/-- Lists that are made of reordered parts, where the parts are reordered as well. -/
theorem flatMap {f : β → List δ} {g : γ → List ζ} (h : ReorderedBy R l l')
    (hfg : ∀ b c, R b c → ReorderedBy S (f b) (g c)) :
    ReorderedBy S (l.flatMap f) (l'.flatMap g) := by
  obtain ⟨m, hm, hperm⟩ := h
  refine trans_perm ?_ (hperm.flatMap_right g)
  clear hperm
  induction hm with
  | nil => exact of_forall₂ .nil
  | cons hR _ ih =>
    rw [List.flatMap_cons, List.flatMap_cons]
    exact (hfg _ _ hR).append ih

/-- What does not tell related elements apart gives the same in some order. -/
theorem map_perm {f : β → δ} {g : γ → δ} (h : ReorderedBy R l l') (hfg : ∀ b c, R b c → f b = g c) :
    (l.map f).Perm (l'.map g) := by
  obtain ⟨m, hm, hperm⟩ := h
  have hmap : l.map f = m.map g := by
    clear hperm
    induction hm with
    | nil => rfl
    | cons hR _ ih => rw [List.map_cons, List.map_cons, hfg _ _ hR, ih]
  exact hmap ▸ hperm.map g

theorem mono {R' : β → γ → Prop} (h : ReorderedBy R l l') (hR : ∀ b c, R b c → R' b c) :
    ReorderedBy R' l l' := by
  obtain ⟨m, hm, hperm⟩ := h
  exact ⟨m, hm.imp hR, hperm⟩

theorem eq_perm {l' : List β} (h : ReorderedBy Eq l l') : l.Perm l' := by
  have hmap := h.map_perm (f := id) (g := id) fun _ _ heq => heq
  rwa [List.map_id, List.map_id] at hmap

end ReorderedBy

/-! ## 2. Sorting -/

/-- **Sorting forgets the order**, if elements that may stand in either order are equal. -/
theorem mergeSort_eq_of_perm {β : Type} {le : β → β → Bool} {l l' : List β}
    (htrans : ∀ a b c, le a b = true → le b c = true → le a c = true)
    (htotal : ∀ a b, (le a b || le b a) = true)
    (hantisymm : ∀ a b, a ∈ l → b ∈ l → le a b = true → le b a = true → a = b)
    (h : l.Perm l') : l.mergeSort le = l'.mergeSort le := by
  have hperm : (l.mergeSort le).Perm (l'.mergeSort le) :=
    (List.mergeSort_perm l le).trans (h.trans (List.mergeSort_perm l' le).symm)
  refine hperm.eq_of_pairwise (fun a b ha hb => ?_) (List.pairwise_mergeSort htrans htotal l)
    (List.pairwise_mergeSort htrans htotal l')
  exact hantisymm a b (List.mem_mergeSort.1 ha) (h.mem_iff.2 (List.mem_mergeSort.1 hb))

section Lexicographic

variable {β : Type} {lt : β → β → Prop} {a b c : β} {p q r : Prop}

theorem lex_total (htri : ∀ a b, lt a b ∨ a = b ∨ lt b a) (h : p ∨ q) :
    (lt a b ∨ a = b ∧ p) ∨ lt b a ∨ b = a ∧ q := by
  rcases htri a b with hab | rfl | hba
  · exact .inl (.inl hab)
  · exact h.imp (fun hp => .inr ⟨rfl, hp⟩) fun hq => .inr ⟨rfl, hq⟩
  · exact .inr (.inl hba)

theorem lex_trans (htrans : lt a b → lt b c → lt a c) (h : p → q → r) (hab : lt a b ∨ a = b ∧ p)
    (hbc : lt b c ∨ b = c ∧ q) : lt a c ∨ a = c ∧ r := by
  rcases hab with hab | ⟨rfl, hp⟩
  · rcases hbc with hbc | ⟨rfl, -⟩
    · exact .inl (htrans hab hbc)
    · exact .inl hab
  · exact hbc.imp id fun hq => ⟨hq.1, h hp hq.2⟩

theorem lex_antisymm (hasymm : lt a b → ¬ lt b a) (hirrefl : ∀ a, ¬ lt a a) (h : p → q → r)
    (hab : lt a b ∨ a = b ∧ p) (hba : lt b a ∨ b = a ∧ q) : a = b ∧ r := by
  rcases hab with hab | ⟨rfl, hp⟩
  · rcases hba with hba | ⟨rfl, -⟩
    · exact absurd hba (hasymm hab)
    · exact absurd hab (hirrefl _)
  · rcases hba with hba | ⟨-, hq⟩
    · exact absurd hba (hirrefl _)
    · exact ⟨rfl, h hp hq⟩

end Lexicographic

/-! ## 3. Computations -/

namespace Matching

variable {ε β γ δ ζ : Type} {R : β → γ → Prop} {S : δ → ζ → Prop}

theorem mapM_perm {f : β → Except ε δ} {l l' : List β} (h : l.Perm l') :
    Matching List.Perm (l.mapM f) (l'.mapM f) := by
  induction h with
  | nil => exact .pure (.refl [])
  | cons b _ ih =>
    rw [List.mapM_cons, List.mapM_cons]
    exact .bind_same fun d => ih.bind fun ds zs hperm => .pure (hperm.cons d)
  | swap b c l =>
    rw [List.mapM_cons, List.mapM_cons, List.mapM_cons, List.mapM_cons]
    cases f b with
    | error e => cases f c <;> trivial
    | ok d =>
      cases f c with
      | error e => trivial
      | ok z =>
        cases l.mapM f with
        | error e => trivial
        | ok ds => exact .pure (.swap d z ds)
  | trans _ _ ih ih' => exact ih.trans ih' fun _ _ _ => .trans

/-- **Computations over reordered lists.** -/
theorem mapM {f : β → Except ε δ} {g : γ → Except ε ζ} {l : List β} {l' : List γ}
    (h : ReorderedBy R l l') (hfg : ∀ b c, R b c → Matching S (f b) (g c)) :
    Matching (ReorderedBy S) (l.mapM f) (l'.mapM g) := by
  obtain ⟨m, hm, hperm⟩ := h
  exact (mapM_forall₂ hm hfg).trans (mapM_perm hperm) fun ds zs zs' hds hzs => ⟨zs, hds, hzs⟩

end Matching

end Articulated
