import Articulated.Fault
import Mathlib.Data.List.Forall2

/-!
# Computations that succeed

A computation that may fail is taken apart by what it answers: a sequence succeeds exactly if its
parts do, one after the other. A list of computations succeeds exactly if each of them does, and
its answers correspond to the list by `List.Forall₂`.

Jobs in parallel succeed exactly if they do one after the other, whatever runs them
(`inParallel_eq_ok`). The faults that may be reported are those of the jobs (`exists_reported_iff`).

* `Answers`: a computation succeeds, with an answer of some kind.
* `Faults`: a computation fails, if at all, with a fault of some kind.
* `BothAnswer`: two computations succeed, with related answers.
* `Alike`: two computations fail in the same way or give related answers.
* `Matching`: two computations both fail, each in its own way, or give related answers.
* `Determinate`: a computation has one answer, or fails, whatever runs its jobs.
* `SameRuns`: two computations are alike in every run, and may report the same faults.

`Answers`, `Faults`, `Alike`, `Matching` and `Determinate` pass from the parts of a sequence to the
whole, and from jobs to what is gathered of them.
-/

namespace Articulated

section Parts

variable {ε β γ δ : Type} {x : Except ε β} {b b' : β} {c : γ}

theorem bind_eq_ok {f : β → Except ε γ} :
    (x >>= f) = .ok c ↔ ∃ b, x = .ok b ∧ f b = .ok c := by
  cases x with
  | error e => exact ⟨nofun, fun ⟨_, h, _⟩ => nomatch h⟩
  | ok b => exact ⟨fun h => ⟨b, rfl, h⟩, fun ⟨_, h, h'⟩ => by cases h; exact h'⟩

theorem seq_eq_ok {x : Except ε Unit} {y : Except ε γ} :
    (x >>= fun _ => y) = .ok c ↔ x = .ok () ∧ y = .ok c :=
  bind_eq_ok.trans ⟨fun ⟨_, h⟩ => h, fun h => ⟨(), h⟩⟩

theorem pure_eq_ok : (pure b : Except ε β) = .ok b' ↔ b = b' :=
  ⟨fun h => Except.ok.inj h, fun h => congrArg _ h⟩

theorem map_eq_ok {f : β → γ} : (do return f (← x)) = Except.ok c ↔ ∃ b, x = .ok b ∧ f b = c := by
  rw [bind_eq_ok]
  exact exists_congr fun b => and_congr_right fun _ => pure_eq_ok

theorem toOption_eq_some_iff : x.toOption = some b ↔ x = .ok b := by
  cases x with
  | error e => exact ⟨nofun, nofun⟩
  | ok b' => exact ⟨fun h => congrArg _ (Option.some.inj h), fun h => congrArg _ (Except.ok.inj h)⟩

/-- A computation has at most one answer. -/
theorem answer_unique (h : x = .ok b) (h' : x = .ok b') : b = b' :=
  Except.ok.inj (h.symm.trans h')

/-- A list of computations succeeds exactly if each of them does. -/
theorem mapM_eq_ok {f : β → Except ε γ} : ∀ {l : List β} {out : List γ},
    l.mapM f = .ok out ↔ List.Forall₂ (fun b c => f b = .ok c) l out
  | [], out => by
    rw [List.mapM_nil, pure_eq_ok, List.forall₂_nil_left_iff]
    exact eq_comm
  | b :: l, out => by
    rw [List.mapM_cons, bind_eq_ok, List.forall₂_cons_left_iff]
    refine exists_congr fun c => ?_
    rw [bind_eq_ok]
    constructor
    · intro h
      obtain ⟨hc, cs, hcs, h⟩ := h
      exact ⟨cs, hc, mapM_eq_ok.1 hcs, (pure_eq_ok.1 h).symm⟩
    · intro h
      obtain ⟨cs, hc, hcs, rfl⟩ := h
      exact ⟨hc, cs, mapM_eq_ok.2 hcs, rfl⟩

/-- A list of computations whose answers are read in some way. -/
theorem mapM_read_eq_ok {f : β → Except ε γ} {g : γ → δ} : ∀ {l : List β} {ds : List δ},
    l.mapM (fun b => do return g (← f b)) = .ok ds ↔ ∃ cs, l.mapM f = .ok cs ∧ cs.map g = ds
  | [], ds => by
    rw [List.mapM_nil, List.mapM_nil, pure_eq_ok]
    constructor
    · exact fun h => ⟨[], rfl, h⟩
    · rintro ⟨cs, hcs, rfl⟩
      obtain rfl := pure_eq_ok.1 hcs
      rfl
  | b :: l, ds => by
    rw [mapM_eq_ok, List.forall₂_cons_left_iff]
    constructor
    · rintro ⟨d, ds, hd, hds, rfl⟩
      obtain ⟨c, hc, rfl⟩ := map_eq_ok.1 hd
      obtain ⟨cs, hcs, rfl⟩ := mapM_read_eq_ok.1 (mapM_eq_ok.2 hds)
      exact ⟨c :: cs, mapM_eq_ok.2 (.cons hc (mapM_eq_ok.1 hcs)), rfl⟩
    · rintro ⟨out, hout, rfl⟩
      obtain ⟨c, cs, hc, hcs, rfl⟩ := List.forall₂_cons_left_iff.1 (mapM_eq_ok.1 hout)
      exact ⟨g c, cs.map g, map_eq_ok.2 ⟨c, hc, rfl⟩,
        mapM_eq_ok.1 (mapM_read_eq_ok.2 ⟨cs, mapM_eq_ok.2 hcs, rfl⟩), rfl⟩

theorem mapM_congr {f g : β → Except ε γ} : ∀ {l : List β},
    (∀ b ∈ l, f b = g b) → l.mapM f = l.mapM g
  | [], _ => rfl
  | b :: l, h => by
    rw [List.mapM_cons, List.mapM_cons, h b List.mem_cons_self,
      mapM_congr fun c hc => h c (List.mem_cons_of_mem b hc)]

theorem forM_congr {f g : β → Except ε Unit} : ∀ {l : List β},
    (∀ b ∈ l, f b = g b) → l.forM f = l.forM g
  | [], _ => rfl
  | b :: l, h => by
    show (f b >>= fun _ => l.forM f) = (g b >>= fun _ => l.forM g)
    rw [h b List.mem_cons_self, forM_congr fun c hc => h c (List.mem_cons_of_mem b hc)]

/-- A fold over answers succeeds exactly if each computation does, and folds their answers. -/
theorem foldlM_answers_eq_ok {f : β → Except ε γ} {g : δ → γ → δ} :
    ∀ {l : List β} {d out : δ}, l.foldlM (fun d b => do return g d (← f b)) d = .ok out ↔
      ∃ cs, List.Forall₂ (fun b c => f b = .ok c) l cs ∧ cs.foldl g d = out
  | [], d, out => by
    rw [List.foldlM_nil, pure_eq_ok]
    constructor
    · exact fun h => ⟨[], .nil, h⟩
    · intro h
      obtain ⟨cs, hcs, h⟩ := h
      obtain rfl := List.forall₂_nil_left_iff.1 hcs
      exact h
  | b :: l, d, out => by
    rw [List.foldlM_cons, bind_eq_ok]
    constructor
    · intro h
      obtain ⟨d', hd, h⟩ := h
      obtain ⟨c, hc, rfl⟩ := map_eq_ok.1 hd
      obtain ⟨cs, hcs, h⟩ := foldlM_answers_eq_ok.1 h
      exact ⟨c :: cs, .cons hc hcs, h⟩
    · intro h
      obtain ⟨cs, hcs, h⟩ := h
      obtain ⟨c, cs', hc, hcs', rfl⟩ := List.forall₂_cons_left_iff.1 hcs
      exact ⟨g d c, map_eq_ok.2 ⟨c, hc, rfl⟩, foldlM_answers_eq_ok.2 ⟨cs', hcs', h⟩⟩

theorem exists_answer {R : β → γ → Prop} {l : List β} {cs : List γ} (h : List.Forall₂ R l cs)
    (hb : b ∈ l) : ∃ c ∈ cs, R b c := by
  induction h with
  | nil => exact absurd hb List.not_mem_nil
  | cons hR _ ih =>
    rcases List.mem_cons.1 hb with rfl | hb
    · exact ⟨_, List.mem_cons_self, hR⟩
    · obtain ⟨c, hc, hR⟩ := ih hb
      exact ⟨c, List.mem_cons_of_mem _ hc, hR⟩

/-- Answers that are chosen one by one. -/
theorem exists_forall₂ {R : β → γ → Prop} : ∀ {l : List β}, (∀ b ∈ l, ∃ c, R b c) →
    ∃ cs, List.Forall₂ R l cs
  | [], _ => ⟨[], .nil⟩
  | b :: l, h => by
    obtain ⟨⟨c, hc⟩, hl⟩ := List.forall_mem_cons.1 h
    obtain ⟨cs, hcs⟩ := exists_forall₂ hl
    exact ⟨c :: cs, .cons hc hcs⟩

/-- Every answer of a list of computations is the answer of one of them. -/
theorem exists_computation {f : β → Except ε γ} {l : List β} {cs : List γ} (h : l.mapM f = .ok cs)
    (hc : c ∈ cs) : ∃ b ∈ l, f b = .ok c :=
  exists_answer (R := fun c b => f b = .ok c) (mapM_eq_ok.1 h).flip hc

/-- Computations that succeed where others do, with related answers. -/
theorem exists_mapM_eq_ok {ζ : Type} {R : γ → δ → Prop} {f : β → Except ε γ}
    {g : β → Except ζ δ} : ∀ {l : List β} {cs : List γ}, l.mapM f = .ok cs →
      (∀ b ∈ l, ∀ c, f b = .ok c → ∃ d, g b = .ok d ∧ R c d) →
        ∃ ds, l.mapM g = .ok ds ∧ List.Forall₂ R cs ds
  | [], _, h, _ => by
    obtain rfl := List.forall₂_nil_left_iff.1 (mapM_eq_ok.1 h)
    exact ⟨[], rfl, .nil⟩
  | b :: l, _, h, hR => by
    obtain ⟨c, cs, hc, hcs, rfl⟩ := List.forall₂_cons_left_iff.1 (mapM_eq_ok.1 h)
    obtain ⟨d, hd, hcd⟩ := hR b List.mem_cons_self c hc
    obtain ⟨ds, hds, hcds⟩ := exists_mapM_eq_ok (mapM_eq_ok.2 hcs) fun b' hb' =>
      hR b' (List.mem_cons_of_mem b hb')
    exact ⟨d :: ds, mapM_eq_ok.2 (.cons hd (mapM_eq_ok.1 hds)), .cons hcd hcds⟩

/-- What holds of all answers of a list of computations, said of each of the computations. -/
theorem forall_answers_iff {f : β → Except ε γ} {l : List β} {cs : List γ} {p : γ → Prop}
    {q : β → Prop} (h : l.mapM f = .ok cs) (hpq : ∀ b ∈ l, ∀ c, f b = .ok c → (p c ↔ q b)) :
    (∀ c ∈ cs, p c) ↔ ∀ b ∈ l, q b := by
  constructor
  · intro hp b hb
    obtain ⟨c, hc, hbc⟩ := exists_answer (mapM_eq_ok.1 h) hb
    exact (hpq b hb c hbc).1 (hp c hc)
  · intro hq c hc
    obtain ⟨b, hb, hbc⟩ := exists_computation h hc
    exact (hpq b hb c hbc).2 (hq b hb)

theorem forall₂_trans {R : β → γ → Prop} {S : γ → δ → Prop} {T : β → δ → Prop}
    (hT : ∀ b c d, R b c → S c d → T b d) : ∀ {l : List β} {m : List γ} {n : List δ},
      List.Forall₂ R l m → List.Forall₂ S m n → List.Forall₂ T l n
  | _, _, _, .nil, .nil => .nil
  | _, _, _, .cons hR hl, .cons hS hm => .cons (hT _ _ _ hR hS) (forall₂_trans hT hl hm)

/-- The answer of a computation, or something else if it fails. -/
def answerOr (c : γ) : Except ε γ → γ
  | .ok c => c
  | .error _ => c

/-- Computations that all succeed are answered one by one. -/
theorem mapM_eq_map {f : β → Except ε γ} {g : β → γ} {l : List β} (h : ∀ b ∈ l, f b = .ok (g b)) :
    l.mapM f = .ok (l.map g) :=
  mapM_eq_ok.2 (List.forall₂_map_right_iff.2 (List.forall₂_same.2 h))

/-- Computations whose answers are told by what they correspond to. -/
theorem mapM_of_forall₂ {R : β → δ → Prop} {f : β → Except ε γ} {g : δ → γ} {l : List β}
    {ds : List δ} (h : List.Forall₂ R l ds) (hg : ∀ d ∈ ds, ∀ b, R b d → f b = .ok (g d)) :
    l.mapM f = .ok (ds.map g) := by
  refine mapM_eq_ok.2 (List.forall₂_map_right_iff.2 ?_)
  exact ((List.forall₂_and_left _ _).2 ⟨hg, h.flip⟩).flip.imp fun b d hd => hd.1 b hd.2

theorem mapM_answerOr {f : β → Except ε γ} (c : γ) {l : List β} (h : ∀ b ∈ l, ∃ c, f b = .ok c) :
    l.mapM f = .ok (l.map fun b => answerOr c (f b)) :=
  mapM_eq_map fun b hb => by
    obtain ⟨c', hc⟩ := h b hb
    rw [hc, answerOr]

theorem eq_map_answerOr {f : β → Except ε γ} {l : List β} {cs : List γ} (c : γ)
    (h : List.Forall₂ (fun b c => f b = .ok c) l cs) : cs = l.map fun b => answerOr c (f b) := by
  induction h with
  | nil => rfl
  | cons hb _ ih => rw [List.map_cons, ← ih, hb, answerOr]

end Parts

/-! ## Jobs in parallel -/

open Classical in
/-- What reports a fault whenever some job fails with it. -/
@[reducible]
noncomputable def Runtime.preferring {α : Type} (e : Fault α) : Runtime α where
  reported first others := if e ∈ first :: others then e else first
  reported_mem first others := by
    split
    · assumption
    · exact List.mem_cons_self

section Jobs

variable {α β γ δ : Type} {e : Fault α} {results : List (Except (Fault α) γ)} {cs : List γ}

theorem mem_faultsOf : ∀ {results : List (Except (Fault α) γ)},
    e ∈ faultsOf results ↔ .error e ∈ results
  | [] => ⟨nofun, nofun⟩
  | .ok _ :: _ => by
    rw [faultsOf, List.mem_cons, mem_faultsOf]
    exact (or_iff_right nofun).symm
  | .error _ :: _ => by
    rw [faultsOf, List.mem_cons, List.mem_cons, mem_faultsOf, Except.error.injEq]

theorem faultsOf_eq_nil_iff : ∀ {results : List (Except (Fault α) γ)},
    faultsOf results = [] ↔ results = (answersOf results).map .ok
  | [] => ⟨fun _ => rfl, fun _ => rfl⟩
  | .ok c :: _ => by
    rw [faultsOf, answersOf, List.map_cons, List.cons_inj_right]
    exact faultsOf_eq_nil_iff
  | .error _ :: results => by
    refine ⟨nofun, fun h => ?_⟩
    have hmem : .error _ ∈ (answersOf results).map (Except.ok (ε := Fault α)) :=
      h ▸ List.mem_cons_self
    obtain ⟨_, -, h⟩ := List.mem_map.1 hmem
    cases h

theorem answersOf_map_ok : ∀ cs : List γ, answersOf (cs.map (Except.ok (ε := Fault α))) = cs
  | [] => rfl
  | c :: cs => congrArg (c :: ·) (answersOf_map_ok cs)

variable {ρ : Runtime α}

/-- All jobs succeed if what is gathered is an answer. -/
theorem gather_eq_ok : gather results = .ok cs ↔ results = cs.map .ok := by
  unfold gather
  constructor
  · intro h
    split at h
    · rename_i hnone
      rw [← Except.ok.inj h]
      exact faultsOf_eq_nil_iff.1 hnone
    · cases h
  · rintro rfl
    have hnone : faultsOf (cs.map (Except.ok (ε := Fault α))) = [] :=
      faultsOf_eq_nil_iff.2 (by rw [answersOf_map_ok])
    rw [hnone, answersOf_map_ok]

/-- The fault that is gathered is that of a job. -/
theorem mem_of_gather_eq_error (h : gather results = .error e) : .error e ∈ results := by
  unfold gather at h
  split at h
  · cases h
  · rename_i first others hfaults
    have hreported := Runtime.reported_mem first others
    rw [Except.error.inj h, ← hfaults] at hreported
    exact mem_faultsOf.1 hreported

/-- What is reported depends on the faults alone. -/
theorem gather_eq_error_of {results' : List (Except (Fault α) δ)}
    (hfaults : faultsOf results = faultsOf results') (h : gather results = .error e) :
    gather results' = .error e := by
  unfold gather at h ⊢
  rw [hfaults] at h
  split at h
  · cases h
  · exact congrArg Except.error (Except.error.inj h)

variable {f g : β → Except (Fault α) γ} {l : List β}

/-- **Jobs in parallel succeed exactly if they do one after the other**, with the same answers. -/
theorem inParallel_eq_ok : inParallel l f = .ok cs ↔ l.mapM f = .ok cs := by
  rw [mapM_eq_ok, inParallel, gather_eq_ok, ← List.forall₂_eq_eq_eq, List.forall₂_map_left_iff,
    List.forall₂_map_right_iff]

/-- **A fault that is reported is that of a job.** -/
theorem exists_failed (h : inParallel l f = .error e) : ∃ b ∈ l, f b = .error e :=
  List.mem_map.1 (mem_of_gather_eq_error h)

/-- **Whatever fault of a job may be the one that is reported.** -/
theorem exists_reported_iff :
    (∃ ρ : Runtime α, @inParallel α β γ ρ l f = .error e) ↔ ∃ b ∈ l, f b = .error e := by
  constructor
  · rintro ⟨ρ, h⟩
    exact exists_failed h
  · rintro ⟨b, hb, he⟩
    refine ⟨.preferring e, ?_⟩
    have hmem : e ∈ faultsOf (l.map f) := mem_faultsOf.2 (he ▸ List.mem_map_of_mem hb)
    unfold inParallel gather
    split
    · rename_i hnone
      exact absurd (hnone ▸ hmem) List.not_mem_nil
    · rename_i first others hfaults
      exact congrArg Except.error (if_pos (hfaults ▸ hmem))

theorem inParallel_congr (h : ∀ b ∈ l, f b = g b) : inParallel l f = inParallel l g :=
  congrArg gather (List.map_congr_left h)

theorem inParallel_map (h : δ → β) (l : List δ) :
    inParallel (l.map h) f = inParallel l fun d => f (h d) :=
  congrArg gather List.map_map

end Jobs

/-! ## One computation -/

/-- The computation succeeds, and its answer has a property. -/
def Answers {ε β : Type} (P : β → Prop) (x : Except ε β) : Prop := ∃ b, x = .ok b ∧ P b

namespace Answers

variable {ε β γ : Type} {P : β → Prop} {Q : γ → Prop} {x : Except ε β}

theorem pure {b : β} (h : P b) : Answers P (Pure.pure b : Except ε β) := ⟨b, rfl, h⟩

theorem bind {f : β → Except ε γ} (hx : Answers P x) (hf : ∀ b, P b → Answers Q (f b)) :
    Answers Q (x >>= f) := by
  obtain ⟨b, rfl, hb⟩ := hx
  exact hf b hb

theorem mono {P' : β → Prop} (hx : Answers P x) (h : ∀ b, P b → P' b) : Answers P' x :=
  Exists.imp (fun b hb => ⟨hb.1, h b hb.2⟩) hx

/-- A list of computations, each answering with an answer of the same kind. -/
theorem mapM {f : β → Except ε γ} : ∀ {l : List β}, (∀ b ∈ l, Answers Q (f b)) →
    Answers (fun cs => ∀ c ∈ cs, Q c) (l.mapM f)
  | [], _ => pure nofun
  | b :: l, h => by
    rw [List.mapM_cons]
    refine (h b List.mem_cons_self).bind fun c hc => ?_
    refine (mapM fun b' hb' => h b' (List.mem_cons_of_mem b hb')).bind fun cs hcs => ?_
    exact pure (List.forall_mem_cons.2 ⟨hc, hcs⟩)

theorem inParallel {α : Type} [Runtime α] {f : β → Except (Fault α) γ} {l : List β}
    (h : ∀ b ∈ l, Answers Q (f b)) : Answers (fun cs => ∀ c ∈ cs, Q c) (inParallel l f) := by
  obtain ⟨cs, hcs, hQ⟩ := mapM h
  exact ⟨cs, inParallel_eq_ok.2 hcs, hQ⟩

end Answers

/-- If the computation fails, then with a fault of some kind. -/
def Faults {ε β : Type} (P : ε → Prop) (x : Except ε β) : Prop := ∀ e, x = .error e → P e

namespace Faults

variable {ε β γ : Type} {P : ε → Prop} {x : Except ε β}

theorem of_ok {b : β} (h : x = .ok b) : Faults P x := fun e he => by cases h ▸ he

theorem pure (b : β) : Faults P (Pure.pure b : Except ε β) := of_ok rfl

theorem error {e : ε} (h : P e) : Faults P (Except.error e : Except ε β) :=
  fun _ he => Except.error.inj he ▸ h

theorem bind {f : β → Except ε γ} (hx : Faults P x) (hf : ∀ b, x = .ok b → Faults P (f b)) :
    Faults P (x >>= f) := by
  cases x with
  | error e => exact fun e' he => hx e' (congrArg Except.error (Except.error.inj he))
  | ok b => exact hf b rfl

theorem mono {Q : ε → Prop} (hx : Faults P x) (h : ∀ e, P e → Q e) : Faults Q x :=
  fun e he => h e (hx e he)

theorem mapM {f : β → Except ε γ} : ∀ {l : List β}, (∀ b ∈ l, Faults P (f b)) →
    Faults P (l.mapM f)
  | [], _ => pure []
  | b :: l, h => by
    rw [List.mapM_cons]
    refine (h b List.mem_cons_self).bind fun c _ => ?_
    exact (mapM fun b' hb' => h b' (List.mem_cons_of_mem b hb')).bind fun cs _ => pure _

theorem inParallel {α : Type} [Runtime α] {P : Fault α → Prop} {f : β → Except (Fault α) γ}
    {l : List β} (h : ∀ b ∈ l, Faults P (f b)) : Faults P (inParallel l f) := by
  intro e he
  obtain ⟨b, hb, hfailed⟩ := exists_failed he
  exact h b hb e hfailed

theorem foldlM {f : γ → β → Except ε γ} : ∀ {l : List β}, (∀ c, ∀ b ∈ l, Faults P (f c b)) →
    ∀ c, Faults P (l.foldlM f c)
  | [], _, c => pure c
  | b :: l, h, c => by
    rw [List.foldlM_cons]
    exact (h c b List.mem_cons_self).bind fun c' _ =>
      foldlM (fun c b' hb' => h c b' (List.mem_cons_of_mem b hb')) c'

/-- A sequence fails if its rest does whenever it is come to. -/
theorem bind_fails {f : β → Except ε γ} (hx : Faults P x)
    (hf : ∀ b, x = .ok b → ∃ e, f b = .error e ∧ P e) : ∃ e, (x >>= f) = .error e ∧ P e := by
  cases x with
  | error e => exact ⟨e, rfl, hx e rfl⟩
  | ok b => exact hf b rfl

/-- A computation that does not succeed has such a fault. -/
theorem exists_fault (hx : Faults P x) (h : ∀ b, x ≠ .ok b) : ∃ e, x = .error e ∧ P e := by
  cases x with
  | error e => exact ⟨e, rfl, hx e rfl⟩
  | ok b => exact absurd rfl (h b)

end Faults

/-- Jobs that can fail with one fault only may as well be run one after the other. -/
theorem inParallel_eq_mapM {α β γ : Type} [Runtime α] {f : β → Except (Fault α) γ} {l : List β}
    {e : Fault α} (h : ∀ b ∈ l, Faults (· = e) (f b)) : inParallel l f = l.mapM f := by
  cases hout : l.mapM f with
  | ok cs => exact inParallel_eq_ok.2 hout
  | error first =>
    cases hgathered : inParallel l f with
    | ok cs =>
      rw [inParallel_eq_ok.1 hgathered] at hout
      cases hout
    | error reported =>
      obtain rfl : first = e := Faults.mapM h first hout
      exact congrArg Except.error (Faults.inParallel h reported hgathered)

/-! ## Two computations -/

/-- Both computations succeed, and their answers are related. -/
def BothAnswer {ε β γ : Type} (R : β → γ → Prop) (x : Except ε β) (y : Except ε γ) : Prop :=
  ∃ b c, x = .ok b ∧ y = .ok c ∧ R b c

theorem bothAnswer_iff {ε β γ : Type} {R : β → γ → Prop} {x : Except ε β} {y : Except ε γ} {b : β}
    {c : γ} (hx : x = .ok b) (hy : y = .ok c) : BothAnswer R x y ↔ R b c := by
  constructor
  · intro h
    obtain ⟨b', c', hx', hy', hR⟩ := h
    rwa [answer_unique hx hx', answer_unique hy hy']
  · exact fun hR => ⟨b, c, hx, hy, hR⟩

/-- Both computations fail with the same fault, or their answers are related. -/
def Alike {ε β γ : Type} (R : β → γ → Prop) : Except ε β → Except ε γ → Prop
  | .ok b, .ok c => R b c
  | .error e, .error e' => e = e'
  | _, _ => False

namespace Alike

variable {ε β γ δ ζ : Type} {R : β → γ → Prop} {S : δ → ζ → Prop} {x : Except ε β}
  {y : Except ε γ}

theorem pure {b : β} {c : γ} (h : R b c) : Alike R (Pure.pure b : Except ε β) (Pure.pure c) := h

theorem error (e : ε) : Alike R (Except.error e) (Except.error e) := rfl

theorem same {R : β → β → Prop} (hR : ∀ b, R b b) : Alike R x x := by
  cases x with
  | error e => exact error e
  | ok b => exact hR b

/-- What two such computations can come to. -/
theorem outcomes (h : Alike R x y) :
    (∃ e, x = .error e ∧ y = .error e) ∨ ∃ b c, x = .ok b ∧ y = .ok c ∧ R b c := by
  cases x with
  | error e =>
    cases y with
    | error e' => exact .inl ⟨e, rfl, congrArg Except.error h.symm⟩
    | ok c => exact h.elim
  | ok b =>
    cases y with
    | error e => exact h.elim
    | ok c => exact .inr ⟨b, c, rfl, rfl, h⟩

theorem bind {f : β → Except ε δ} {g : γ → Except ε ζ} (h : Alike R x y)
    (hfg : ∀ b c, R b c → Alike S (f b) (g c)) : Alike S (x >>= f) (y >>= g) := by
  obtain ⟨e, rfl, rfl⟩ | ⟨b, c, rfl, rfl, hR⟩ := h.outcomes
  · exact error e
  · exact hfg b c hR

/-- After a common part only the rest is compared. -/
theorem bind_same {z : Except ε β} {f : β → Except ε δ} {g : β → Except ε ζ}
    (hfg : ∀ b, Alike S (f b) (g b)) : Alike S (z >>= f) (z >>= g) := by
  cases z with
  | error e => exact error e
  | ok b => exact hfg b

theorem discard (h : Alike R x y) :
    Alike (fun _ _ => True) (Functor.discard x) (Functor.discard y) := by
  obtain ⟨e, rfl, rfl⟩ | ⟨b, c, rfl, rfl, -⟩ := h.outcomes
  · exact error e
  · trivial

theorem mono {R' : β → γ → Prop} (h : Alike R x y) (hR : ∀ b c, R b c → R' b c) : Alike R' x y := by
  obtain ⟨e, rfl, rfl⟩ | ⟨b, c, rfl, rfl, h⟩ := h.outcomes
  · exact error e
  · exact hR b c h

/-- A list of computations, compared one by one. -/
theorem mapM {f g : ζ → Except ε β} {R : β → β → Prop} : ∀ {l : List ζ},
    (∀ b ∈ l, Alike R (f b) (g b)) → Alike (List.Forall₂ R) (l.mapM f) (l.mapM g)
  | [], _ => pure .nil
  | b :: l, h => by
    rw [List.mapM_cons, List.mapM_cons]
    refine (h b List.mem_cons_self).bind fun c c' hc => ?_
    refine (mapM fun b' hb' => h b' (List.mem_cons_of_mem b hb')).bind fun cs cs' hcs => ?_
    exact pure (.cons hc hcs)

theorem answer {b : β} (h : Alike R x y) (hx : x = .ok b) : ∃ c, y = .ok c ∧ R b c := by
  subst hx
  cases y with
  | error e => exact h.elim
  | ok c => exact ⟨c, rfl, h⟩

/-- Jobs that fail alike have the same faults. -/
theorem faultsOf_eq {α : Type} {f g : ζ → Except (Fault α) β} {R : β → β → Prop} :
    ∀ {l : List ζ}, (∀ b ∈ l, Alike R (f b) (g b)) → faultsOf (l.map f) = faultsOf (l.map g)
  | [], _ => rfl
  | b :: l, h => by
    obtain ⟨hb, hl⟩ := List.forall_mem_cons.1 h
    rw [List.map_cons, List.map_cons]
    obtain ⟨e, hf, hg⟩ | ⟨c, c', hf, hg, -⟩ := hb.outcomes
    · rw [hf, hg]
      exact congrArg (e :: ·) (faultsOf_eq hl)
    · rw [hf, hg]
      exact faultsOf_eq hl

/-- Jobs in parallel, compared one by one: the same fault is reported, whichever it is. -/
theorem inParallel {α : Type} [Runtime α] {f g : ζ → Except (Fault α) β} {R : β → β → Prop}
    {l : List ζ} (h : ∀ b ∈ l, Alike R (f b) (g b)) :
    Alike (List.Forall₂ R) (inParallel l f) (inParallel l g) := by
  cases hf : Articulated.inParallel l f with
  | ok cs =>
    obtain ⟨cs', hcs', hR⟩ := (mapM h).answer (inParallel_eq_ok.1 hf)
    rw [inParallel_eq_ok.2 hcs']
    exact hR
  | error e =>
    have hg : Articulated.inParallel l g = .error e := gather_eq_error_of (faultsOf_eq h) hf
    rw [hg]
    exact error e

end Alike

/-! ## Two computations that need not fail alike -/

/-- Both computations fail, each in its own way, or their answers are related. -/
def Matching {ε β γ : Type} (R : β → γ → Prop) : Except ε β → Except ε γ → Prop
  | .ok b, .ok c => R b c
  | .error _, .error _ => True
  | _, _ => False

namespace Matching

variable {ε β γ δ ζ η : Type} {R : β → γ → Prop} {S : δ → ζ → Prop} {x : Except ε β}
  {y : Except ε γ}

/-- Two computations match if one succeeds exactly if the other does. -/
theorem of_answers (h : (∃ b, x = .ok b) ↔ ∃ c, y = .ok c)
    (hR : ∀ b c, x = .ok b → y = .ok c → R b c) : Matching R x y := by
  cases x with
  | error e =>
    cases y with
    | error e' => trivial
    | ok c =>
      obtain ⟨b, hb⟩ := h.2 ⟨c, rfl⟩
      cases hb
  | ok b =>
    cases y with
    | error e =>
      obtain ⟨c, hc⟩ := h.1 ⟨b, rfl⟩
      cases hc
    | ok c => exact hR b c rfl rfl

theorem same {R : β → β → Prop} (hR : ∀ b, R b b) : Matching R x x := by
  cases x with
  | error e => trivial
  | ok b => exact hR b

theorem pure {b : β} {c : γ} (h : R b c) : Matching R (Pure.pure b : Except ε β) (Pure.pure c) := h

theorem bind {f : β → Except ε δ} {g : γ → Except ε ζ} (h : Matching R x y)
    (hfg : ∀ b c, R b c → Matching S (f b) (g c)) : Matching S (x >>= f) (y >>= g) := by
  cases x with
  | error e =>
    cases y with
    | error e' => trivial
    | ok c => exact h.elim
  | ok b =>
    cases y with
    | error e => exact h.elim
    | ok c => exact hfg b c h

/-- After a common part only the rest is compared. -/
theorem bind_same {z : Except ε β} {f : β → Except ε δ} {g : β → Except ε ζ}
    (hfg : ∀ b, Matching S (f b) (g b)) : Matching S (z >>= f) (z >>= g) := by
  cases z with
  | error e => trivial
  | ok b => exact hfg b

theorem mono {R' : β → γ → Prop} (h : Matching R x y) (hR : ∀ b c, R b c → R' b c) :
    Matching R' x y := by
  cases x with
  | error e =>
    cases y with
    | error e' => trivial
    | ok c => exact h.elim
  | ok b =>
    cases y with
    | error e => exact h.elim
    | ok c => exact hR b c h

theorem trans {z : Except ε δ} {R' : γ → δ → Prop} {T : β → δ → Prop} (h : Matching R x y)
    (h' : Matching R' y z) (hT : ∀ b c d, R b c → R' c d → T b d) : Matching T x z := by
  cases x with
  | error e =>
    cases y with
    | error e' =>
      cases z with
      | error e'' => trivial
      | ok d => exact h'.elim
    | ok c => exact h.elim
  | ok b =>
    cases y with
    | error e => exact h.elim
    | ok c =>
      cases z with
      | error e => exact h'.elim
      | ok d => exact hT b c d h h'

theorem answer {b : β} (h : Matching R x y) (hx : x = .ok b) : ∃ c, y = .ok c ∧ R b c := by
  subst hx
  cases y with
  | error e => exact h.elim
  | ok c => exact ⟨c, rfl, h⟩

/-- Computations over related lists, one by one. -/
theorem mapM_forall₂ {f : β → Except ε δ} {g : γ → Except ε ζ} {l : List β} {l' : List γ}
    {R : β → γ → Prop} (h : List.Forall₂ R l l') (hfg : ∀ b c, R b c → Matching S (f b) (g c)) :
    Matching (List.Forall₂ S) (l.mapM f) (l'.mapM g) := by
  induction h with
  | nil => exact .pure .nil
  | cons hR _ ih =>
    rw [List.mapM_cons, List.mapM_cons]
    exact (hfg _ _ hR).bind fun d z hS => ih.bind fun ds zs hSs => .pure (.cons hS hSs)

/-- Jobs that match one after the other match in parallel, whatever runs them. -/
theorem inParallel {α : Type} {ρ ρ' : Runtime α} {f : η → Except (Fault α) β}
    {g : ζ → Except (Fault α) γ} {l : List η} {l' : List ζ} {R : List β → List γ → Prop}
    (h : Matching R (l.mapM f) (l'.mapM g)) :
    Matching R (@inParallel α η β ρ l f) (@inParallel α ζ γ ρ' l' g) := by
  refine of_answers ?_ fun cs ds hcs hds => ?_
  · constructor
    · rintro ⟨cs, hcs⟩
      obtain ⟨ds, hds, -⟩ := h.answer (inParallel_eq_ok.1 hcs)
      exact ⟨ds, inParallel_eq_ok.2 hds⟩
    · rintro ⟨ds, hds⟩
      rw [inParallel_eq_ok.1 hds] at h
      cases hcs : l.mapM f with
      | ok cs => exact ⟨cs, inParallel_eq_ok.2 hcs⟩
      | error e => exact (hcs ▸ h).elim
  · rw [inParallel_eq_ok.1 hcs, inParallel_eq_ok.1 hds] at h
    exact h

end Matching

theorem Alike.matching {ε β γ : Type} {R : β → γ → Prop} {x : Except ε β} {y : Except ε γ}
    (h : Alike R x y) : Matching R x y := by
  obtain ⟨e, rfl, rfl⟩ | ⟨b, c, rfl, rfl, hR⟩ := h.outcomes
  · trivial
  · exact hR

/-! ## Whatever runs them -/

section Runs

variable {α β γ δ ζ : Type}

/-- Whatever runs the computation, it has the same answer, or it fails. -/
def Determinate (x : Runtime α → Except (Fault α) β) : Prop := ∀ ρ ρ', Matching Eq (x ρ) (x ρ')

namespace Determinate

/-- What is not run in parallel. -/
theorem same (x : Except (Fault α) β) : Determinate fun _ => x := fun _ _ => .same fun _ => rfl

theorem bind {x : Runtime α → Except (Fault α) β} {f : Runtime α → β → Except (Fault α) γ}
    (hx : Determinate x) (hf : ∀ b, Determinate fun ρ => f ρ b) :
    Determinate fun ρ => x ρ >>= f ρ :=
  fun ρ ρ' => (hx ρ ρ').bind fun b _ hb => hb ▸ hf b ρ ρ'

theorem ite {c : Prop} [Decidable c] {x y : Runtime α → Except (Fault α) β} (hx : Determinate x)
    (hy : Determinate y) : Determinate fun ρ => if c then x ρ else y ρ := by
  by_cases hc : c
  · simpa only [if_pos hc] using hx
  · simpa only [if_neg hc] using hy

theorem mapM {l : List β} {f : Runtime α → β → Except (Fault α) γ}
    (h : ∀ b, Determinate fun ρ => f ρ b) : Determinate fun ρ => l.mapM (f ρ) := by
  intro ρ ρ'
  refine (Matching.mapM_forall₂ (R := Eq) (S := Eq) (List.forall₂_refl l) ?_).mono fun cs cs' => ?_
  · rintro b _ rfl
    exact h b ρ ρ'
  · rw [List.forall₂_eq_eq_eq]
    exact id

/-- **Jobs with such answers have such answers in parallel.** -/
theorem inParallel {l : List β} {job : Runtime α → β → Except (Fault α) γ}
    (h : ∀ b, Determinate fun ρ => job ρ b) : Determinate fun ρ => inParallel l (job ρ) :=
  fun ρ ρ' => Matching.inParallel (mapM h ρ ρ')

end Determinate

/-- Run alike, both computations fail with the same fault or give related answers. Run in different
ways, both still fail or give related answers. The faults that may be reported are the same. -/
structure SameRuns (R : β → γ → Prop) (x : Runtime α → Except (Fault α) β)
    (y : Runtime α → Except (Fault α) γ) : Prop where
  alike : ∀ ρ, Alike R (x ρ) (y ρ)
  matching : ∀ ρ ρ', Matching R (x ρ) (y ρ')
  faults_iff : ∀ e, (∃ ρ, x ρ = .error e) ↔ ∃ ρ, y ρ = .error e

/-- Computations that are alike run in the same way, if one of them is determinate. -/
theorem SameRuns.of_determinate {R : β → γ → Prop} {x : Runtime α → Except (Fault α) β}
    {y : Runtime α → Except (Fault α) γ} (h : ∀ ρ, Alike R (x ρ) (y ρ)) (hx : Determinate x) :
    SameRuns R x y where
  alike := h
  matching ρ ρ' := (hx ρ ρ').trans (h ρ').matching fun _ _ _ heq hR => heq ▸ hR
  faults_iff e := exists_congr fun ρ => by
    obtain ⟨e', hx, hy⟩ | ⟨b, c, hx, hy, -⟩ := (h ρ).outcomes
    · rw [hx, hy, Except.error.injEq, Except.error.injEq]
    · rw [hx, hy]
      exact ⟨nofun, nofun⟩

end Runs

end Articulated
