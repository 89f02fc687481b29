import Articulated.Key.Notation
import Articulated.Proofs.Key.Codec

/-!
# Texts of keys

The text of a variable is read back by `Variable.ofText?`: its numbers are written in decimal, a
comma is no digit, so the text splits in one way alone, and the letter in front fixes how many
numbers there are. The text of a plain key is a number, and no letter of a kind is a digit. A key
is therefore known by its text as far as it is known by the variable that it stands for.

* `number?_digits`: a number is read back from its decimal digits.
* `commaParts_intercalate`: parts without commas are found again behind commas.
* `Variable.ofText?_text`: a variable is read back from its text.
* `Key.text_eq_text_iff`: which keys have the same text.
* `Key.text_unambiguous`: keys of variables and plain keys have texts of their own.
-/

namespace Articulated

/-! ## 1. Numbers -/

namespace Decimal

theorem digitValue?_of_isDigit {c : Char} (h : c.isDigit = true) :
    digitValue? 10 c = some (c.toNat - '0'.toNat) := by
  have hbounds : '0' ≤ c ∧ c ≤ '9' := by simpa [Char.isDigit, Char.le_def] using h
  have hvalue : c.toNat - '0'.toNat < 10 := by
    have hle : c.toNat ≤ '9'.toNat := hbounds.2
    have hnine : '9'.toNat = '0'.toNat + 9 := rfl
    omega
  unfold digitValue?
  simp only [if_pos hbounds, if_pos hvalue]

/-- Digits are read from the left, whatever was read before them. -/
theorem foldlM_digitValue? : ∀ {cs : List Char} (n : Nat), (∀ c ∈ cs, c.isDigit = true) →
    cs.foldlM (fun n c => (digitValue? 10 c).map (10 * n + ·)) n = some (Nat.ofDigitChars 10 cs n)
  | [], n, _ => by rw [List.foldlM_nil, Nat.ofDigitChars_nil, Option.pure_def]
  | c :: cs, n, h => by
    rw [List.foldlM_cons, digitValue?_of_isDigit (h c List.mem_cons_self), Option.map_some,
      Option.bind_eq_bind, Option.bind_some, Nat.ofDigitChars_cons]
    exact foldlM_digitValue? _ fun d hd => h d (List.mem_cons_of_mem c hd)

end Decimal

theorem isDigit_of_mem_digits {n : Nat} {c : Char} (h : c ∈ Nat.toDigits 10 n) :
    c.isDigit = true := Nat.isDigit_of_mem_toDigits (by decide) (by decide) h

/-- **A number is read back from its digits.** -/
theorem number?_digits (n : Nat) : number? (Nat.toDigits 10 n) = some n := by
  unfold number? Decimal.natOfDigits?
  rw [if_neg (by simp), Decimal.foldlM_digitValue? 0 fun _ => isDigit_of_mem_digits,
    Nat.ofDigitChars_ten_toDigits]

theorem mapM_number?_digits : ∀ ns : List Nat, (ns.map (Nat.toDigits 10)).mapM number? = some ns
  | [] => rfl
  | n :: ns => by
    rw [List.map_cons, List.mapM_cons, number?_digits, mapM_number?_digits ns]
    rfl

/-! ## 2. Parts between commas -/

theorem commaParts_eq_splitOn : ∀ cs : List Char, commaParts cs = cs.splitOn ','
  | [] => rfl
  | c :: cs => by
    have hrest := commaParts_eq_splitOn cs
    rw [List.splitOn_cons_eq_if_modifyHead, ← hrest]
    by_cases hc : c = ','
    · rw [hc]
      rfl
    · obtain ⟨part, parts, hparts⟩ := List.exists_cons_of_ne_nil (List.splitOn_ne_nil ',' cs)
      rw [if_neg (by simpa using hc), hrest, hparts]
      unfold commaParts
      split
      · contradiction
      · rename_i heq
        exact absurd (List.cons.inj heq).1 hc
      · rename_i heq
        obtain ⟨rfl, rfl⟩ := List.cons.inj heq
        rw [hrest, hparts]
        rfl

/-- Parts without commas are found again behind commas. -/
theorem commaParts_intercalate {parts : List (List Char)} (hparts : ∀ p ∈ parts, ',' ∉ p)
    (hne : parts ≠ []) : commaParts ([','].intercalate parts) = parts := by
  rw [commaParts_eq_splitOn, List.splitOn_intercalate ',' hparts hne]

/-! ## 3. Texts of variables -/

namespace Variable

theorem toList_text (v : Variable) : v.text.toList =
    v.tag :: '(' :: ([','].intercalate (v.numbers.map (Nat.toDigits 10)) ++ [')']) := by
  have hdigits : (v.numbers.map Nat.repr).map String.toList = v.numbers.map (Nat.toDigits 10) := by
    rw [List.map_map]
    exact List.map_congr_left fun n _ => Nat.toList_repr
  unfold text
  simp only [String.toList_append, String.toList_singleton, String.toList_intercalate, hdigits]
  rfl

theorem numbers_ne_nil (v : Variable) : v.numbers ≠ [] := by
  cases v <;> exact List.cons_ne_nil _ _

/-- **A variable is read back from its text.** -/
theorem ofText?_text (v : Variable) : ofText? v.text = some v := by
  have hparts : ∀ p ∈ v.numbers.map (Nat.toDigits 10), ',' ∉ p := by
    intro p hp hcomma
    obtain ⟨n, -, rfl⟩ := List.mem_map.1 hp
    exact absurd (isDigit_of_mem_digits hcomma) (by decide)
  have hne : v.numbers.map (Nat.toDigits 10) ≠ [] := fun h =>
    v.numbers_ne_nil (List.map_eq_nil_iff.1 h)
  unfold ofText?
  rw [toList_text]
  simp only [List.getLast?_append, List.getLast?_singleton, Option.some_or, if_true,
    List.dropLast_concat, commaParts_intercalate hparts hne, mapM_number?_digits,
    Option.bind_eq_bind, Option.bind_some, ofNumbers?_tag_numbers]

theorem text_injective {v w : Variable} (h : v.text = w.text) : v = w := by
  have hread := congrArg ofText? h
  rw [ofText?_text, ofText?_text] at hread
  exact Option.some.inj hread

/-- The text of a variable is not that of a number: the letter in front is no digit. -/
theorem text_ne_repr (v : Variable) (n : Nat) : v.text ≠ n.repr := by
  intro h
  have hmem : v.tag ∈ Nat.toDigits 10 n := by
    rw [← Nat.toList_repr, ← h, toList_text]
    exact List.mem_cons_self
  have hdigit := isDigit_of_mem_digits hmem
  have hletter : v.tag.isDigit = false := by cases v <;> rfl
  rw [hletter] at hdigit
  cases hdigit

end Variable

/-! ## 4. Texts of keys -/

namespace Key

/-- The key is that of a variable, or it is a plain key. -/
def IsProper (k : Key) : Prop := (∃ v : Variable, v.key? = some k) ∨ k.variable? = none

variable {k k' : Key}

theorem text_of_decode {v : Variable} (h : k.variable? = some v) : k.text = v.text := by
  unfold text
  rw [h]

theorem text_of_plain (h : k.variable? = none) : k.text = k.raw.toNat.repr := by
  unfold text
  rw [h]

/-- The number of a plain key is read back from its text. -/
theorem eq_of_plain_text (h : k.variable? = none) (h' : k'.variable? = none)
    (htext : k.text = k'.text) : k = k' := by
  rw [text_of_plain h, text_of_plain h'] at htext
  have hread := congrArg (fun s => number? s.toList) htext
  simp only [Nat.toList_repr, number?_digits] at hread
  cases k
  cases k'
  exact congrArg Key.mk (UInt64.toNat.inj (Option.some.inj hread))

/-- **Two keys have the same text exactly if they are the same key, or stand for the same
variable.** -/
theorem text_eq_text_iff : k.text = k'.text ↔
    k = k' ∨ ∃ v, k.variable? = some v ∧ k'.variable? = some v := by
  constructor
  · intro htext
    cases hv : k.variable? with
    | none =>
      cases hw : k'.variable? with
      | none => exact .inl (eq_of_plain_text hv hw htext)
      | some w =>
        rw [text_of_plain hv, text_of_decode hw] at htext
        exact absurd htext.symm (w.text_ne_repr _)
    | some v =>
      cases hw : k'.variable? with
      | none =>
        rw [text_of_decode hv, text_of_plain hw] at htext
        exact absurd htext (v.text_ne_repr _)
      | some w =>
        rw [text_of_decode hv, text_of_decode hw] at htext
        exact .inr ⟨v, rfl, congrArg some (Variable.text_injective htext).symm⟩
  · rintro (hsame | ⟨v, hv, hw⟩)
    · exact congrArg text hsame
    · rw [text_of_decode hv, text_of_decode hw]

/-- A proper key is determined by the variable that it stands for. -/
theorem IsProper.eq_of_decode (h : k.IsProper) (h' : k'.IsProper) {v : Variable}
    (hv : k.variable? = some v) (hv' : k'.variable? = some v) : k = k' := by
  have hkey : ∀ {q : Key}, q.IsProper → q.variable? = some v → v.key? = some q := by
    intro q hq hqv
    rcases hq with ⟨w, hw⟩ | hnone
    · have hdecode := decode_of_fields (Variable.key?_eq_some_iff.1 hw).2
      rwa [Option.some.inj (hqv.symm.trans hdecode)]
    · rw [hnone] at hqv
      cases hqv
  exact Option.some.inj ((hkey h hv).symm.trans (hkey h' hv'))

/-- **Texts are unambiguous.** Keys of variables and plain keys are determined by their texts, and
no plain key has the text of a variable, be it one that has a key or one that does not fit. -/
theorem text_unambiguous :
    (∀ k k' : Key, k.IsProper → k'.IsProper → (k.text = k'.text ↔ k = k')) ∧
    ∀ (k : Key) (v : Variable), k.variable? = none → k.text ≠ v.text := by
  refine ⟨fun k k' h h' => ⟨fun htext => ?_, congrArg text⟩, fun k v hplain htext => ?_⟩
  · rcases text_eq_text_iff.1 htext with hsame | ⟨v, hv, hw⟩
    · exact hsame
    · exact h.eq_of_decode h' hv hw
  · rw [text_of_plain hplain] at htext
    exact v.text_ne_repr _ htext.symm

/-- Two wrenches with the same digits in a row, and a plain key beside a variable that has no
key. -/
theorem text_unambiguous_shiftedDigits :
    IsProper ⟨0x4600010017000004⟩ ∧ IsProper ⟨0x46000c0003000004⟩ ∧
      Key.text ⟨0x4600010017000004⟩ ≠ Key.text ⟨0x46000c0003000004⟩ ∧
      Key.variable? ⟨16777216⟩ = none ∧
      Key.text ⟨16777216⟩ ≠ (Variable.phaseDuration 16777216).text := by
  have hleft : IsProper ⟨0x4600010017000004⟩ := .inl ⟨.wrench 1 23 4, by decide⟩
  have hright : IsProper ⟨0x46000c0003000004⟩ := .inl ⟨.wrench 12 3 4, by decide⟩
  have hplain : Key.variable? ⟨16777216⟩ = none := rfl
  refine ⟨hleft, hright, fun htext => ?_, hplain, text_unambiguous.2 _ _ hplain⟩
  exact absurd ((text_unambiguous.1 _ _ hleft hright).1 htext) (by decide)

/-- A torque has no link: a key with its tag and a link set has the text of another key. -/
example : Key.text ⟨0x5400010002000003⟩ = Key.text ⟨0x5400000002000003⟩ := rfl

end Key

end Articulated
