import Firestone.Lib.Bytes

/-!
# Reading a text in parts

A lossy reading turns every maximal part that is no character into one U+FFFD. When a text is cut in two and each part is
read alone, the readings join to the reading of the whole exactly when the cut lies between two characters.

* `ReadsTo bs rest` — the reading of `bs` comes to `rest` between two characters.
* `lossyChar_append` — the first character of a text that is cut.
* `lossyText_append` — the readings of the parts: they join, or are longer than the reading of the whole.
* `readsTo_append_iff` — they join exactly at a cut between two characters.
-/

namespace Firestone.Lib

/-- The characters of a lossy reading. -/
def lossyText (bs : Bytes) : List Char := lossyChars bs.length bs

theorem fromUtf8Lossy_eq (bs : Bytes) : fromUtf8Lossy bs = String.ofList (lossyText bs) := rfl

/-- A byte that continues a sequence. -/
def isCont (b : UInt8) : Bool := contIn 0x80 0xBF b

/-- The reading of the first text comes to the second one between two characters. -/
inductive ReadsTo : Bytes → Bytes → Prop
  | done (bs : Bytes) : ReadsTo bs bs
  | char {b : UInt8} {bs rest : Bytes} (h : ReadsTo (lossyChar b bs).2 rest) : ReadsTo (b :: bs) rest

/-! ## Continuation bytes -/

theorem isCont_of_contIn {lo hi b : UInt8} (hlo : 0x80 ≤ lo) (hhi : hi ≤ 0xBF) (h : contIn lo hi b = true) :
    isCont b = true := by
  simp only [isCont, contIn, Bool.and_eq_true, decide_eq_true_eq] at h ⊢
  exact ⟨UInt8.le_trans hlo h.1, UInt8.le_trans h.2 hhi⟩

theorem leadByte_range {b lo hi : UInt8} {n : Nat} (h : leadByte b = some (lo, hi, n)) : 0x80 ≤ lo ∧ hi ≤ 0xBF := by
  unfold leadByte at h
  repeat' split at h
  all_goals cases h
  all_goals decide

theorem not_contIn_of_lt {lo hi b : UInt8} (h : b < lo) : contIn lo hi b = false := by
  rw [contIn, decide_eq_false (UInt8.not_le.mpr h), Bool.false_and]

theorem leadByte_isCont {b : UInt8} (h : isCont b = true) : leadByte b = none := by
  simp only [isCont, contIn, Bool.and_eq_true, decide_eq_true_eq] at h
  have hlt : ∀ c : UInt8, 0xBF < c → b < c := fun c hc => UInt8.lt_of_le_of_lt h.2 hc
  have hne : ∀ c : UInt8, 0xBF < c → b ≠ c := fun c hc => UInt8.ne_of_lt (hlt c hc)
  rw [leadByte, not_contIn_of_lt (hlt 0xC2 (by decide)), if_neg Bool.false_ne_true, if_neg (hne 0xE0 (by decide)),
    if_neg (hne 0xED (by decide)), not_contIn_of_lt (hlt 0xE1 (by decide)), if_neg Bool.false_ne_true,
    if_neg (hne 0xF0 (by decide)), not_contIn_of_lt (hlt 0xF1 (by decide)), if_neg Bool.false_ne_true,
    if_neg (hne 0xF4 (by decide))]

/-- A continuation byte on its own is no character. -/
theorem lossyChar_isCont {b : UInt8} (h : isCont b = true) (bs : Bytes) : lossyChar b bs = ('\uFFFD', bs) := by
  have hge : ¬ b < 0x80 := by
    simp only [isCont, contIn, Bool.and_eq_true, decide_eq_true_eq] at h
    exact UInt8.not_lt.mpr h.1
  rw [lossyChar, if_neg hge, leadByte_isCont h]

/-- What is read of a sequence are continuation bytes. -/
theorem contBytes_split {n : Nat} {lo hi : UInt8} {acc : Nat} (hlo : 0x80 ≤ lo) (hhi : hi ≤ 0xBF) (bs : Bytes) :
    ∃ q, bs = q ++ (contBytes n lo hi acc bs).2.2 ∧ ∀ c ∈ q, isCont c = true := by
  induction n generalizing lo hi acc bs with
  | zero => exact ⟨[], rfl, by simp⟩
  | succ n ih =>
    cases bs with
    | nil => exact ⟨[], rfl, by simp⟩
    | cons b bs =>
      rw [contBytes]
      split
      · next hb =>
        obtain ⟨q, hq, hall⟩ := @ih 0x80 0xBF (acc * 64 + b.toNat % 64) (by decide) (by decide) bs
        refine ⟨b :: q, congrArg (b :: ·) hq, ?_⟩
        rintro c (_ | ⟨_, hc⟩)
        · exact isCont_of_contIn hlo hhi hb
        · exact hall c hc
      · exact ⟨[], rfl, by simp⟩

/-- A sequence that is cut: it is read as before, or it ends with the first part and takes bytes of the second one. -/
theorem contBytes_append {n : Nat} {lo hi : UInt8} {acc : Nat} (hlo : 0x80 ≤ lo) (hhi : hi ≤ 0xBF) (bs post : Bytes) :
    (∃ v missing rest, contBytes n lo hi acc bs = (v, missing, rest) ∧
      contBytes n lo hi acc (bs ++ post) = (v, missing, rest ++ post)) ∨
    (∃ v missing q rest, contBytes n lo hi acc bs = (v, missing + 1, []) ∧ q ≠ [] ∧ post = q ++ rest ∧
      (∀ c ∈ q, isCont c = true) ∧ (contBytes n lo hi acc (bs ++ post)).2.2 = rest) := by
  induction n generalizing lo hi acc bs with
  | zero => exact .inl ⟨acc, 0, bs, rfl, rfl⟩
  | succ n ih =>
    cases bs with
    | nil =>
      cases post with
      | nil => exact .inl ⟨acc, n + 1, [], rfl, rfl⟩
      | cons p post =>
        by_cases hp : contIn lo hi p = true
        · -- the sequence goes on in the second part
          obtain ⟨q, hq, hall⟩ := @contBytes_split n 0x80 0xBF (acc * 64 + p.toNat % 64) (by decide) (by decide) post
          refine .inr ⟨acc, n, p :: q, _, rfl, List.cons_ne_nil _ _, congrArg (p :: ·) hq, ?_, ?_⟩
          · rintro c (_ | ⟨_, hc⟩)
            · exact isCont_of_contIn hlo hhi hp
            · exact hall c hc
          · rw [List.nil_append, contBytes, if_pos hp]
        · refine .inl ⟨acc, n + 1, [], rfl, ?_⟩
          rw [List.nil_append, contBytes, if_neg hp]
    | cons b bs =>
      rw [List.cons_append, contBytes, contBytes]
      by_cases hb : contIn lo hi b = true
      · rw [if_pos hb, if_pos hb]
        exact ih (by decide) (by decide) bs
      · rw [if_neg hb, if_neg hb]
        exact .inl ⟨acc, n + 1, b :: bs, rfl, rfl⟩

/-! ## The first character -/

theorem lossyChar_length_le (b : UInt8) (bs : Bytes) : (lossyChar b bs).2.length ≤ bs.length := by
  rw [lossyChar]
  split
  · exact Nat.le_refl _
  · cases hlead : leadByte b with
    | none => exact Nat.le_refl _
    | some lead =>
      obtain ⟨lo, hi, n⟩ := lead
      obtain ⟨hlo, hhi⟩ := leadByte_range hlead
      obtain ⟨q, hq, -⟩ := @contBytes_split n lo hi (b.toNat % 2 ^ (6 - n)) hlo hhi bs
      have hlen := congrArg List.length hq
      rw [List.length_append] at hlen
      dsimp only
      split <;> rename_i h <;> rw [h] at hlen <;> exact Nat.le_of_add_left_le (Nat.le_of_eq hlen.symm)

/-- The first character of a text that is cut: it is the one of the first part, or the first part is an unfinished sequence
that takes bytes of the second one. -/
theorem lossyChar_append (b : UInt8) (bs post : Bytes) :
    lossyChar b (bs ++ post) = ((lossyChar b bs).1, (lossyChar b bs).2 ++ post) ∨
    (lossyChar b bs = ('\uFFFD', []) ∧ ∃ q, q ≠ [] ∧ post = q ++ (lossyChar b (bs ++ post)).2 ∧ ∀ c ∈ q, isCont c = true) := by
  rw [lossyChar, lossyChar]
  split
  · exact .inl rfl
  · cases hlead : leadByte b with
    | none => exact .inl rfl
    | some lead =>
      obtain ⟨lo, hi, n⟩ := lead
      obtain ⟨hlo, hhi⟩ := leadByte_range hlead
      dsimp only
      rcases @contBytes_append n lo hi (b.toNat % 2 ^ (6 - n)) hlo hhi bs post with
        ⟨v, missing, rest, hbs, hall⟩ | ⟨v, missing, q, rest, hbs, hq, hpost, hcont, hrest⟩
      · rw [hbs, hall]
        cases missing <;> exact .inl rfl
      · rw [hbs]
        refine .inr ⟨rfl, q, hq, Eq.trans hpost (congrArg (q ++ ·) ?_), hcont⟩
        rw [← hrest]
        split <;> rename_i h <;> rw [h]

/-! ## The whole text -/

theorem lossyChars_of_length_le {n m : Nat} {bs : Bytes} (hn : bs.length ≤ n) (hm : bs.length ≤ m) :
    lossyChars n bs = lossyChars m bs := by
  induction n generalizing m bs with
  | zero =>
    obtain rfl := List.length_eq_zero_iff.mp (Nat.le_zero.mp hn)
    cases m <;> rfl
  | succ n ih =>
    cases bs with
    | nil => cases m <;> rfl
    | cons b bs =>
      cases m with
      | zero => simp at hm
      | succ m =>
        have hle := lossyChar_length_le b bs
        rw [List.length_cons] at hn hm
        rw [lossyChars, lossyChars, ih (by omega) (by omega : (lossyChar b bs).2.length ≤ m)]

@[simp] theorem lossyText_nil : lossyText [] = [] := rfl

theorem lossyText_cons (b : UInt8) (bs : Bytes) :
    lossyText (b :: bs) = (lossyChar b bs).1 :: lossyText (lossyChar b bs).2 := by
  rw [lossyText, List.length_cons, lossyChars, lossyText, lossyChars_of_length_le (lossyChar_length_le b bs) (Nat.le_refl _)]

/-- Continuation bytes at the start of a text are one U+FFFD each. -/
theorem lossyText_cont {q : Bytes} (h : ∀ c ∈ q, isCont c = true) (rest : Bytes) :
    (lossyText (q ++ rest)).length = q.length + (lossyText rest).length := by
  induction q with
  | nil => simp
  | cons c q ih =>
    rw [List.cons_append, lossyText_cons, lossyChar_isCont (h c List.mem_cons_self), List.length_cons,
      ih fun d hd => h d (List.mem_cons_of_mem c hd), List.length_cons]
    omega

theorem ReadsTo.length_le {bs rest : Bytes} (h : ReadsTo bs rest) : rest.length ≤ bs.length := by
  induction h with
  | done => exact Nat.le_refl _
  | @char b bs rest _ ih => exact Nat.le_succ_of_le (Nat.le_trans ih (lossyChar_length_le b bs))

/-- Two parts of a text, each read alone: the readings join when the cut lies between two characters, and are longer than the
reading of the whole otherwise. -/
theorem lossyText_append (pre post : Bytes) :
    (ReadsTo (pre ++ post) post ∧ lossyText (pre ++ post) = lossyText pre ++ lossyText post) ∨
    (¬ ReadsTo (pre ++ post) post ∧ (lossyText (pre ++ post)).length < (lossyText pre).length + (lossyText post).length) := by
  induction hn : pre.length using Nat.strongRecOn generalizing pre with
  | _ n ih =>
    cases pre with
    | nil => exact .inl ⟨.done post, rfl⟩
    | cons b bs =>
      have hlt : (lossyChar b bs).2.length < n := by
        have := lossyChar_length_le b bs
        rw [← hn, List.length_cons]
        omega
      have hreads : ReadsTo (b :: (bs ++ post)) post ↔ ReadsTo (lossyChar b (bs ++ post)).2 post := by
        constructor
        · intro h
          generalize hw : b :: (bs ++ post) = whole at h
          cases h with
          | done =>
            have := congrArg List.length hw
            simp at this
            omega
          | char h => cases hw; exact h
        · exact .char
      rw [List.cons_append, hreads, lossyText_cons, lossyText_cons]
      rcases lossyChar_append b bs post with hsame | ⟨hopen, q, hq, hpost, hcont⟩
      · rw [hsame]
        rcases ih _ hlt (lossyChar b bs).2 rfl with ⟨hclean, htext⟩ | ⟨hdirty, htext⟩
        · exact .inl ⟨hclean, by rw [htext]; rfl⟩
        · exact .inr ⟨hdirty, by simp only [List.length_cons]; omega⟩
      · have hpos := List.length_pos_of_ne_nil hq
        have hlen := congrArg List.length hpost
        have htext := lossyText_cont hcont (lossyChar b (bs ++ post)).2
        rw [List.length_append] at hlen
        rw [← hpost] at htext
        refine .inr ⟨fun h => ?_, ?_⟩
        · have := h.length_le
          omega
        · rw [hopen, htext]
          simp only [List.length_cons, lossyText_nil, List.length_nil]
          omega

/-- The readings of the parts join to the reading of the whole exactly when the cut lies between two characters. -/
theorem readsTo_append_iff {pre post : Bytes} :
    ReadsTo (pre ++ post) post ↔ lossyText (pre ++ post) = lossyText pre ++ lossyText post := by
  rcases lossyText_append pre post with ⟨hclean, hjoin⟩ | ⟨hdirty, hlt⟩
  · exact iff_of_true hclean hjoin
  · refine iff_of_false hdirty fun hjoin => ?_
    rw [hjoin, List.length_append] at hlt
    exact Nat.lt_irrefl _ hlt

end Firestone.Lib
