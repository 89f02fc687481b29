import Articulated.Proofs.Dense.LeastSquares
import Articulated.Proofs.Values.Offset

/-!
# The least-squares step of a system of forms

The linear model of a system of affine forms is solved once. The step along the solution leads to
where the least is left over of the rows, and the model that is made there has the same matrix and
asks for no further step. Numbers are exact here.

* `SystemAt.flat`: variables of forms have values that move by addition.
* `SystemAt.exists_leastStep`: the step that is read off a decomposition of the matrix.
* `SystemAt.least_stepped`: no other step leaves less over.
* `SystemAt.retract_again`: what is read off the same decomposition after the step moves nothing.
-/

namespace Articulated

open Scalar

/-! ## 1. Variables of forms -/

theorem TermsSum.exists_coords {n : Nat} {vs : Values ℝ} {k : Key} :
    ∀ {terms : List (Key × Block ℝ)} {zs : List ℝ}, TermsSum n vs terms zs →
      k ∈ terms.map Prod.fst → ∃ xs, vs.coords? k = some xs
  | [], _, _, hk => absurd hk List.not_mem_nil
  | (q, b) :: terms, _, ⟨xs, ys, hxs, _, hys, _⟩, hk => by
    rcases List.mem_cons.1 hk with rfl | hk
    · exact ⟨xs, hxs⟩
    · exact hys.exists_coords hk

/-- Each of the variables has a place in some form. -/
def Occur (parts : List (AffineForm × List ℝ)) (ks : List Key) : Prop :=
  ∀ k ∈ ks, ∃ p ∈ parts, k ∈ p.1.terms.map Prod.fst

/-- A step leaves the forms and so their variables as they are. -/
theorem Occur.stepped {parts : List (AffineForm × List ℝ)} {ks : List Key} (h : Occur parts ks)
    (places : List (Key × Nat)) (d : List ℝ) : Occur (stepped parts places d) ks := by
  intro k hk
  obtain ⟨p, hp, hkp⟩ := h k hk
  exact ⟨_, List.mem_map_of_mem hp, hkp⟩

theorem systemMatrix_stepped (parts : List (AffineForm × List ℝ)) (places : List (Key × Nat))
    (d : List ℝ) : systemMatrix (stepped parts places d) places = systemMatrix parts places := by
  unfold systemMatrix stepped
  rw [List.map_map]
  rfl

namespace SystemAt

variable {vs point : Values ℝ} {parts : List (AffineForm × List ℝ)} {places : List (Key × Nat)}
  {ks : List Key} {d : List ℝ}

theorem flat (h : SystemAt vs parts) (hks : Occur parts ks) : vs.Flat ks := by
  intro k hk
  obtain ⟨p, hp, hkp⟩ := hks k hk
  obtain ⟨zs, hzs, -⟩ := h.evaluates p hp
  exact hzs.exists_coords hkp

/-! ## 2. The step -/

variable {s : SingularTriples ℝ} {τ : ℝ}

/-- **The step along the solution of the linear model**: it can be made, and it is the least-squares
solution of smallest norm. -/
theorem exists_leastStep (h : SystemAt vs parts) (hnodup : (places.map Prod.fst).Nodup)
    (hplaced : vs.Placed places) (hs : s.Decomposes (systemMatrix parts places))
    (hτ : s.Separated τ) : ∃ d point,
      s.solve τ ((parts.map Prod.snd).flatten.map (- ·)) (systemMatrix parts places).cols = d ∧
      (systemMatrix parts places).IsLeastSquares (parts.map Prod.snd).flatten d ∧
      d.length = breadth places ∧ vs.retract (places.map Prod.fst) d = .ok point ∧
      SystemAt point (stepped parts places d) ∧ point.Placed places := by
  have hcols := (h.hasCols hplaced).cols_eq
  have hls := hs.isLeastSquares hτ (hcols.symm ▸ h.hasCols hplaced) h.length_rows
  have hd := hls.length_eq.trans hcols
  obtain ⟨point, hpoint, hsystem⟩ := h.exists_step hnodup hplaced hd
  exact ⟨_, point, rfl, hls, hd, hpoint, hsystem,
    hplaced.of_moved (Values.moved_of_retract hpoint)⟩

/-- **No other step leaves less over**, and of those that leave as little over the solution is the
shortest. -/
theorem least_stepped (h : SystemAt vs parts) (hplaced : vs.Placed places)
    (hls : (systemMatrix parts places).IsLeastSquares (parts.map Prod.snd).flatten d)
    {d' : List ℝ} (hd' : d'.length = breadth places) :
    normSq ((stepped parts places d).map Prod.snd).flatten ≤
        normSq ((stepped parts places d').map Prod.snd).flatten ∧
      (normSq ((stepped parts places d').map Prod.snd).flatten =
          normSq ((stepped parts places d).map Prod.snd).flatten →
        (systemMatrix parts places).apply (plus d' (d.map (- ·))) =
            List.replicate (systemMatrix parts places).rows 0 ∧
          normSq d ≤ normSq d' ∧ (normSq d' = normSq d → d' = d)) := by
  have hcols := (h.hasCols hplaced).cols_eq
  rw [h.rows_stepped hplaced, h.rows_stepped hplaced]
  exact hls.least (hcols.symm ▸ h.hasCols hplaced) h.length_rows (hd'.trans hcols.symm)

/-- **The model after the step asks for no further step.** -/
theorem retract_again (h : SystemAt vs parts) (hplaced : vs.Placed places)
    (hs : s.Decomposes (systemMatrix parts places)) (hτ : 0 ≤ τ)
    (hls : (systemMatrix parts places).IsLeastSquares (parts.map Prod.snd).flatten d)
    (hsystem : SystemAt point (stepped parts places d)) (hpoint : point.Placed places)
    (hoccur : Occur parts (places.map Prod.fst)) :
    point.retract (places.map Prod.fst)
      (s.solve τ (((stepped parts places d).map Prod.snd).flatten.map (- ·))
        (systemMatrix parts places).cols) = .ok point := by
  rw [h.rows_stepped hplaced, hs.solve_again hls hτ, (h.hasCols hplaced).cols_eq]
  exact Values.retract_zeros hpoint (hsystem.flat (hoccur.stepped places d))

end SystemAt

end Articulated
