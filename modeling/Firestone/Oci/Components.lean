import Firestone.Lib.Patterns
import Firestone.Oci.References

/-!
# Repository components

`check_repository_component` is a loop with an index and a mark. What it accepts is a regular pattern: runs of lowercase
letters and digits, with a period, one or two underscores or a run of hyphens between each two.

* `componentPattern` — the pattern.
* `checkRepositoryComponent_iff` — the scanner accepts exactly its words.
-/

namespace Firestone.Oci.References

open Firestone.Lib Firestone.Lib.Patterns Computability

/-! ## The pattern -/

/-- `[a-z0-9]` -/
def componentLetter : Language Char := oneOf fun c => 'a' ≤ c ∧ c ≤ 'z' ∨ '0' ≤ c ∧ c ≤ '9'

/-- `\.|_|__|-+` -/
def componentSeparator : Language Char :=
  oneOf (· = '.') + oneOf (· = '_') + oneOf (· = '_') * oneOf (· = '_') + plus (oneOf (· = '-'))

/-- `[a-z0-9]+((\.|_|__|-+)[a-z0-9]+)*` -/
def componentPattern : Language Char := runs componentLetter componentSeparator

/-- What may stand after a letter or digit. -/
def componentRest : Language Char := continuation componentLetter componentSeparator

theorem isComponentAlphanumeric_iff {c : Char} :
    isComponentAlphanumeric c = true ↔ 'a' ≤ c ∧ c ≤ 'z' ∨ '0' ≤ c ∧ c ≤ '9' := by
  change ((c.val ≥ 'a'.val && c.val ≤ 'z'.val) || (c.val ≥ '0'.val && c.val ≤ '9'.val)) = true ↔ _
  simp only [Bool.or_eq_true, Bool.and_eq_true, decide_eq_true_eq]
  rfl

theorem mem_letter_mul {l : Language Char} {w : List Char} :
    w ∈ componentLetter * l ↔ ∃ c rest, isComponentAlphanumeric c = true ∧ rest ∈ l ∧ w = c :: rest := by
  simp only [componentLetter, mem_oneOf_mul, isComponentAlphanumeric_iff]

/-- A run of hyphens is as long as one likes. -/
theorem mem_plus_hyphen {w : List Char} : w ∈ plus (oneOf (· = '-')) ↔ ∃ n, w = List.replicate (n + 1) '-' := by
  have hrun : ∀ n, List.replicate n '-' ∈ (oneOf (· = '-'))∗ := by
    intro n
    refine Language.mem_kstar.mpr ⟨List.replicate n ['-'], by simp, fun y hy => ?_⟩
    exact ⟨'-', rfl, List.eq_of_mem_replicate hy⟩
  have hstar : ∀ w ∈ (oneOf (· = '-'))∗, ∃ n, w = List.replicate n '-' := by
    intro w hw
    obtain ⟨pieces, rfl, hall⟩ := Language.mem_kstar.mp hw
    refine ⟨pieces.length, ?_⟩
    have hpieces : pieces = List.replicate pieces.length ['-'] :=
      List.eq_replicate_of_mem fun p hp => by
        obtain ⟨_, rfl, rfl⟩ := hall p hp
        rfl
    rw [hpieces]
    simp
  rw [plus, mem_oneOf_mul]
  constructor
  · rintro ⟨_, rest, rfl, hrest, rfl⟩
    obtain ⟨n, rfl⟩ := hstar rest hrest
    exact ⟨n, rfl⟩
  · rintro ⟨n, rfl⟩
    exact ⟨'-', _, rfl, hrun n, rfl⟩

/-- A separator is a run that the scanner allows. -/
theorem mem_separator_iff {w : List Char} :
    w ∈ componentSeparator ↔ ∃ c n, separatorAllowed c (n + 1) = true ∧ w = List.replicate (n + 1) c := by
  have hsplit : w ∈ componentSeparator ↔ w = ['.'] ∨ w = ['_'] ∨ w = ['_', '_'] ∨ ∃ n, w = List.replicate (n + 1) '-' := by
    simp only [componentSeparator, Language.mem_add, mem_plus_hyphen, mem_oneOf_mul, mem_oneOf]
    simp [or_assoc]
  rw [hsplit]
  constructor
  · rintro (rfl | rfl | rfl | ⟨n, rfl⟩)
    · exact ⟨'.', 0, rfl, rfl⟩
    · exact ⟨'_', 0, rfl, rfl⟩
    · exact ⟨'_', 1, rfl, rfl⟩
    · exact ⟨'-', n, rfl, rfl⟩
  · rintro ⟨c, n, hallowed, rfl⟩
    unfold separatorAllowed at hallowed
    split at hallowed
    · rename_i hc
      obtain rfl : n = 0 := by simpa using hallowed
      exact .inl (by rw [hc]; rfl)
    split at hallowed
    · rename_i hc
      have hn : n ≤ 1 := by simpa using hallowed
      interval_cases n
      · exact .inr (.inl (by rw [hc]; rfl))
      · exact .inr (.inr (.inl (by rw [hc]; rfl)))
    · obtain rfl : c = '-' := by simpa using hallowed
      exact .inr (.inr (.inr ⟨n, rfl⟩))

/-! ## The scanner -/

theorem not_alphanumeric_of_allowed {c : Char} {n : Nat} (h : separatorAllowed c n = true) :
    isComponentAlphanumeric c = false := by
  unfold separatorAllowed at h
  split at h
  · rename_i hc
    rw [hc]
    decide
  split at h
  · rename_i hc
    rw [hc]
    decide
  · obtain rfl : c = '-' := by simpa using h
    decide

/-- The maximal run at the front of a text. -/
theorem run_of_replicate {c d : Char} (hne : d ≠ c) (n : Nat) (rest : List Char) :
    (List.replicate n c ++ d :: rest).takeWhile (· = c) = List.replicate n c ∧
      (List.replicate n c ++ d :: rest).dropWhile (· = c) = d :: rest := by
  have hrun : ∀ x ∈ List.replicate n c, decide (x = c) = true := fun x hx => by simp [List.eq_of_mem_replicate hx]
  rw [List.takeWhile_append_of_pos hrun, List.dropWhile_append_of_pos hrun]
  simp [hne]

theorem scanComponent_letter {fuel : Nat} {expect : Bool} {c : Char} {rest : List Char}
    (h : isComponentAlphanumeric c = true) :
    scanComponent (fuel + 1) expect (c :: rest) = scanComponent fuel false rest := by
  rw [scanComponent, if_pos h]

theorem scanComponent_separator {fuel n : Nat} {c d : Char} {rest : List Char} (hallowed : separatorAllowed c (n + 1) = true)
    (hd : isComponentAlphanumeric d = true) :
    scanComponent (fuel + 1) false (List.replicate (n + 1) c ++ d :: rest) = scanComponent fuel true (d :: rest) := by
  have hc := not_alphanumeric_of_allowed hallowed
  have hne : d ≠ c := by
    rintro rfl
    rw [hd] at hc
    cases hc
  obtain ⟨htake, hdrop⟩ := run_of_replicate hne (n + 1) rest
  have hcons : List.replicate (n + 1) c ++ d :: rest = c :: (List.replicate n c ++ d :: rest) := rfl
  rw [hcons] at htake hdrop ⊢
  rw [scanComponent, if_neg (by simp [hc]), if_neg (by simp)]
  simp only [htake, hdrop, List.length_replicate, hallowed]
  simp

/-- After a letter or digit the scanner accepts what may stand there; where it expects one, it wants one at the front. -/
theorem mem_of_scanComponent {fuel : Nat} {w : List Char} (hfuel : w.length < fuel) :
    (scanComponent fuel false w = .ok () → w ∈ componentRest) ∧
      (scanComponent fuel true w = .ok () → w ≠ [] → w ∈ componentLetter * componentRest) := by
  induction fuel generalizing w with
  | zero => exact absurd hfuel (Nat.not_lt_zero _)
  | succ fuel ih =>
    cases w with
    | nil => exact ⟨fun _ => mem_of_le (one_le_continuation _ _) rfl, fun _ hne => absurd rfl hne⟩
    | cons c rest =>
      have hrest : rest.length < fuel := by simpa using hfuel
      by_cases hc : isComponentAlphanumeric c = true
      · have hstart : scanComponent fuel false rest = .ok () → c :: rest ∈ componentLetter * componentRest :=
          fun h => mem_letter_mul.mpr ⟨c, rest, hc, (ih hrest).1 h, rfl⟩
        rw [scanComponent_letter hc, scanComponent_letter hc]
        exact ⟨fun h => mem_of_le (mul_continuation_le _ _) (hstart h), fun h _ => hstart h⟩
      · constructor
        · intro h
          rw [scanComponent, if_neg hc, if_neg (by simp)] at h
          simp only at h
          split_ifs at h with hallowed hafter
          have hdrop : ((c :: rest).dropWhile (· = c)).length ≤ rest.length := by
            rw [List.dropWhile_cons_of_pos (by simp)]
            exact List.length_dropWhile_le _ _
          have hnext := (ih (Nat.lt_of_le_of_lt hdrop hrest)).2 h hafter
          have hrun : (c :: rest).takeWhile (· = c) = List.replicate (((c :: rest).takeWhile (· = c)).length) c :=
            List.eq_replicate_of_mem fun x hx => by simpa using List.mem_takeWhile_imp hx
          obtain ⟨n, hn⟩ : ∃ n, ((c :: rest).takeWhile (· = c)).length = n + 1 := by
            rw [List.takeWhile_cons_of_pos (by simp)]
            exact ⟨_, rfl⟩
          rw [hn] at hrun hallowed
          have hseparator : (c :: rest).takeWhile (· = c) ∈ componentSeparator :=
            mem_separator_iff.mpr ⟨c, n, by simpa using hallowed, hrun⟩
          rw [← List.takeWhile_append_dropWhile (p := (· = c)) (l := c :: rest)]
          exact mem_of_le (separator_mul_continuation_le _ _) (Language.append_mem_mul hseparator hnext)
        · intro h
          rw [scanComponent, if_neg hc, if_pos rfl] at h
          cases h

/-- What the scanner accepts after a letter or digit, with any fuel that is enough. -/
def Accepted : Language Char := {w | ∀ fuel, w.length < fuel → scanComponent fuel false w = .ok ()}

theorem letter_mul_accepted {w : List Char} (h : w ∈ componentLetter * Accepted) {fuel : Nat} (hfuel : w.length < fuel)
    (expect : Bool) : scanComponent fuel expect w = .ok () := by
  obtain ⟨c, rest, hc, hrest, rfl⟩ := mem_letter_mul.mp h
  obtain ⟨fuel, rfl⟩ : ∃ k, fuel = k + 1 := ⟨fuel - 1, by omega⟩
  rw [scanComponent_letter hc]
  exact hrest fuel (by simpa using hfuel)

theorem componentRest_le_accepted : componentRest ≤ Accepted := by
  refine continuation_le ?_ ?_ ?_
  · rintro _ rfl fuel hfuel
    obtain ⟨fuel, rfl⟩ : ∃ k, fuel = k + 1 := ⟨fuel - 1, by simp at hfuel; omega⟩
    rfl
  · exact fun w hw fuel hfuel => letter_mul_accepted hw hfuel false
  · intro w hw fuel hfuel
    obtain ⟨separator, hseparator, next, hnext, rfl⟩ := Language.mem_mul.mp hw
    obtain ⟨c, n, hallowed, rfl⟩ := mem_separator_iff.mp hseparator
    obtain ⟨d, rest, hd, -, hcons⟩ := mem_letter_mul.mp hnext
    obtain ⟨fuel, rfl⟩ : ∃ k, fuel = k + 1 := ⟨fuel - 1, by omega⟩
    have hshorter : next.length < fuel := by
      rw [List.length_append, List.length_replicate] at hfuel
      omega
    rw [hcons, scanComponent_separator hallowed hd, ← hcons]
    exact letter_mul_accepted hnext hshorter true

/-! ## The check -/

theorem isComponentChar_of_allowed {c : Char} {n : Nat} (h : separatorAllowed c n = true) : isComponentChar c = true := by
  unfold separatorAllowed at h
  split_ifs at h with hdot hunderscore
  · simp [isComponentChar, hdot]
  · simp [isComponentChar, hunderscore]
  · obtain rfl : c = '-' := by simpa using h
    decide

/-- A word of the pattern has only characters of components. -/
theorem isComponentChar_of_mem {w : List Char} (h : w ∈ componentPattern) : ∀ c ∈ w, isComponentChar c = true := by
  have hletter : ∀ c, isComponentAlphanumeric c = true → isComponentChar c = true := fun c hc => by
    simp [isComponentChar, hc]
  have hclosed : ∀ w ∈ componentLetter * allOf (isComponentChar · = true),
      ∀ c ∈ w, isComponentChar c = true := by
    intro w hw
    obtain ⟨c, rest, hc, hrest, rfl⟩ := mem_letter_mul.mp hw
    exact List.forall_mem_cons.mpr ⟨hletter c hc, hrest⟩
  have hrest : componentRest ≤ allOf (isComponentChar · = true) := by
    refine continuation_le ?_ hclosed ?_
    · rintro _ rfl c hc
      cases hc
    · intro w hw
      obtain ⟨separator, hseparator, next, hnext, rfl⟩ := Language.mem_mul.mp hw
      obtain ⟨c, n, hallowed, rfl⟩ := mem_separator_iff.mp hseparator
      intro x hx
      rcases List.mem_append.mp hx with hx | hx
      · rw [List.eq_of_mem_replicate hx]
        exact isComponentChar_of_allowed hallowed
      · exact hclosed next hnext x hx
  rw [componentPattern, runs_eq] at h
  exact hclosed w (mem_of_le (mul_le_mul_right hrest componentLetter) h)

/-- **The scanner is the pattern**: it accepts a component exactly when the component is a word of it. -/
theorem checkRepositoryComponent_iff (component : String) :
    checkRepositoryComponent component = .ok () ↔ component.toList ∈ componentPattern := by
  have hfuel : component.toList.length < component.toList.length + 1 := Nat.lt_succ_self _
  unfold checkRepositoryComponent
  constructor
  · intro h
    split_ifs at h with hempty hchars
    have hne : component.toList ≠ [] := fun hnil => hempty (String.toList_inj.mp hnil)
    rw [componentPattern, runs_eq]
    exact (mem_of_scanComponent hfuel).2 h hne
  · intro h
    have hchars := isComponentChar_of_mem h
    rw [componentPattern, runs_eq] at h
    have hne : component ≠ "" := by
      rintro rfl
      obtain ⟨c, rest, -, -, hnil⟩ := mem_letter_mul.mp h
      cases hnil
    rw [if_neg hne, if_neg (by simpa using hchars)]
    exact letter_mul_accepted (mem_of_le (mul_le_mul_right componentRest_le_accepted componentLetter) h) hfuel true

end Firestone.Oci.References
