import Mathlib.Data.List.Basic
import Mathlib.Data.List.Forall2
import Mathlib.Tactic.Common

/-!
# Byte pipes

What a relay between byte streams works on: buffers that are written out piece by piece, parts of a stream between two
positions, and streams put together from parts of others.

* `Pending` — a buffer with the offset of what is not written yet; `rest_advance`, `rest_compact`, `rest_push` say what
  the operations leave to write.
* `segment` — a part of a stream; it stays the same while the stream grows.
* `beforeFirst` — a stream up to an end mark, while it grows.
* `flatten_modify` — growing one of a list of parts grows their concatenation, if all later parts are empty.
* `exists_prefixes` — a prefix of a concatenation is a concatenation of prefixes.
-/

namespace Firestone.Lib

variable {α β : Type}

/-! ## Buffers -/

structure Pending (α : Type) where
  data : List α := []
  offset : Nat := 0
  deriving DecidableEq

namespace Pending

/-- What is not written yet. -/
def rest (p : Pending α) : List α := p.data.drop p.offset

/-- After `n` more values have been written; a buffer that is written whole is cleared. -/
def advance (p : Pending α) (n : Nat) : Pending α :=
  if p.offset + n = p.data.length then {} else { p with offset := p.offset + n }

/-- What has been written is dropped. -/
def compact (p : Pending α) : Pending α := if p.offset > 0 then { data := p.data.drop p.offset } else p

def push (p : Pending α) (l : List α) : Pending α := { p with data := p.data ++ l }

/-- The buffer is empty or something is left to write. -/
def Tidy (p : Pending α) : Prop := p = {} ∨ p.offset < p.data.length

@[simp] theorem rest_empty : (({} : Pending α)).rest = [] := rfl

theorem length_rest (p : Pending α) : p.rest.length = p.data.length - p.offset := List.length_drop

theorem rest_advance {p : Pending α} {n : Nat} : (p.advance n).rest = p.rest.drop n := by
  unfold advance
  split
  · rename_i hall
    rw [rest, rest, List.drop_drop, hall, List.drop_length]
    rfl
  · rw [rest, rest, List.drop_drop]

/-- The same without clearing. -/
theorem rest_moved (p : Pending α) (n : Nat) : ({ p with offset := p.offset + n } : Pending α).rest = p.rest.drop n := by
  rw [rest, rest, List.drop_drop]

theorem length_advance_le (p : Pending α) (n : Nat) : (p.advance n).data.length ≤ p.data.length := by
  unfold advance
  split
  · exact Nat.zero_le _
  · exact Nat.le_refl _

theorem Tidy.advance {p : Pending α} {n : Nat} (h : p.Tidy) (hn : n ≤ p.rest.length) : (p.advance n).Tidy := by
  rw [length_rest] at hn
  unfold Pending.advance
  split
  · exact .inl rfl
  · rename_i hne
    refine .inr ?_
    rcases h with rfl | h
    · simp only [List.length_nil] at hn hne
      omega
    · simp only
      omega

theorem Tidy.offset_le {p : Pending α} (h : p.Tidy) : p.offset ≤ p.data.length := by
  rcases h with rfl | h
  · exact Nat.le_refl _
  · exact Nat.le_of_lt h

theorem Tidy.eq_empty {p : Pending α} (h : p.Tidy) (hall : p.offset = p.data.length) : p = {} := by
  rcases h with h | h
  · exact h
  · omega

theorem offset_advance_le {p : Pending α} {n : Nat} (h : n ≤ p.rest.length) (hp : p.offset ≤ p.data.length) :
    (p.advance n).offset ≤ (p.advance n).data.length := by
  rw [length_rest] at h
  unfold advance
  split
  · exact Nat.le_refl _
  · simp only
    omega

@[simp] theorem offset_compact (p : Pending α) : p.compact.offset = 0 := by
  unfold compact
  split
  · rfl
  · omega

@[simp] theorem data_compact (p : Pending α) : p.compact.data = p.rest := by
  unfold compact rest
  split
  · rfl
  · have hzero : p.offset = 0 := by omega
    rw [hzero, List.drop_zero]

theorem rest_push_compact (p : Pending α) (l : List α) : (p.compact.push l).rest = p.rest ++ l := by
  rw [rest, push, offset_compact, List.drop_zero, data_compact]

end Pending

/-! ## Parts of a stream -/

/-- The values of a stream between two positions. -/
def segment (l : List α) (start stop : Nat) : List α := (l.take stop).drop start

@[simp] theorem segment_self (l : List α) (start : Nat) : segment l start start = [] :=
  List.drop_eq_nil_of_le (List.length_take_le start l)

/-- A stream grows beyond a segment. -/
theorem segment_append {l : List α} {start stop : Nat} (h : stop ≤ l.length) (more : List α) :
    segment (l ++ more) start stop = segment l start stop := by
  rw [segment, segment, List.take_append_of_le_length h]

/-- A segment is extended by what follows it. -/
theorem segment_extend {l : List α} {start stop : Nat} (n : Nat) (h : start ≤ stop) (hstop : stop ≤ l.length) :
    segment l start (stop + n) = segment l start stop ++ (l.drop stop).take n := by
  rw [segment, segment, List.take_add, List.drop_append_of_le_length]
  rw [List.length_take]
  omega

/-- A prefix of a segment is a shorter segment. -/
theorem eq_segment_of_prefix {l part : List α} {start stop : Nat} (h : part <+: segment l start stop)
    (hstart : start ≤ stop) (hstop : stop ≤ l.length) :
    part = segment l start (start + part.length) ∧ start + part.length ≤ stop := by
  have hlen : part.length ≤ stop - start := by
    have hle := h.length_le
    rw [segment, List.length_drop, List.length_take] at hle
    omega
  refine ⟨?_, by omega⟩
  have hpart := List.prefix_iff_eq_take.mp h
  rw [segment, List.take_drop, List.take_take, Nat.min_eq_left (by omega)] at hpart
  exact hpart

/-! ## Streams with an end mark -/

section Mark

variable [DecidableEq α] {x : α} {l more : List α}

/-- What stands before the first `x`. -/
def beforeFirst (x : α) (l : List α) : List α := l.takeWhile (· ≠ x)

theorem beforeFirst_cons_of_ne {a : α} (ha : a ≠ x) (l : List α) : beforeFirst x (a :: l) = a :: beforeFirst x l :=
  List.takeWhile_cons_of_pos (by simpa using ha)

theorem beforeFirst_append_of_notMem (h : x ∉ l) (more : List α) :
    beforeFirst x (l ++ more) = l ++ beforeFirst x more := by
  refine List.takeWhile_append_of_pos fun a ha => ?_
  rw [decide_eq_true_eq]
  rintro rfl
  exact h ha

theorem beforeFirst_of_notMem (h : x ∉ l) : beforeFirst x l = l := by
  have happend := beforeFirst_append_of_notMem h []
  rw [List.append_nil] at happend
  exact happend.trans (List.append_nil l)

/-- Behind the mark a stream can grow. -/
theorem beforeFirst_append_of_mem (h : x ∈ l) (more : List α) : beforeFirst x (l ++ more) = beforeFirst x l := by
  induction l with
  | nil => cases h
  | cons a l ih =>
    by_cases ha : a = x
    · subst ha
      simp [beforeFirst]
    · have hl : x ∈ l := (List.mem_cons.mp h).resolve_left (Ne.symm ha)
      rw [List.cons_append, beforeFirst_cons_of_ne ha, beforeFirst_cons_of_ne ha, ih hl]

theorem beforeFirst_mono (h : l <+: more) : beforeFirst x l <+: beforeFirst x more := by
  obtain ⟨tail, rfl⟩ := h
  by_cases hx : x ∈ l
  · exact ⟨[], by rw [List.append_nil, beforeFirst_append_of_mem hx]⟩
  · rw [beforeFirst_append_of_notMem hx, beforeFirst_of_notMem hx]
    exact List.prefix_append l _

/-- The mark is found at the end of what stands before it. -/
theorem take_idxOf? {i : Nat} (h : l.idxOf? x = some i) : l.take i = beforeFirst x l ∧ x ∈ l := by
  induction l generalizing i with
  | nil => cases h
  | cons a l ih =>
    rw [List.idxOf?_cons] at h
    by_cases ha : a = x
    · subst ha
      simp only [beq_self_eq_true, if_true, Option.some.injEq] at h
      subst h
      simp [beforeFirst]
    · rw [if_neg (by simpa using ha)] at h
      obtain ⟨j, hj, rfl⟩ := Option.map_eq_some_iff.mp h
      obtain ⟨htake, hmem⟩ := ih hj
      refine ⟨?_, List.mem_cons_of_mem a hmem⟩
      rw [List.take_succ_cons, htake, beforeFirst_cons_of_ne ha]

end Mark

/-! ## Streams of parts -/

theorem exists_of_getElem?_modify {l : List β} {f : β → β} {i j : Nat} {b : β} (h : (l.modify i f)[j]? = some b) :
    ∃ c, l[j]? = some c ∧ b = if i = j then f c else c := by
  rw [List.getElem?_modify] at h
  obtain ⟨c, hc, hb⟩ := Option.map_eq_some_iff.mp h
  exact ⟨c, hc, hb.symm⟩

/-- A change that does not change the part of a value. -/
theorem map_modify_of_eq {γ : Type} {g : β → γ} {f : β → β} {l : List β} {i : Nat}
    (h : ∀ b, l[i]? = some b → g (f b) = g b) : (l.modify i f).map g = l.map g := by
  refine List.ext_getElem? fun j => ?_
  rw [List.getElem?_map, List.getElem?_map, List.getElem?_modify]
  cases hj : l[j]? with
  | none => rfl
  | some b =>
    simp only [Option.map_eq_map, Option.map_some, Option.some.injEq]
    split
    · rename_i hij
      subst hij
      exact h b hj
    · rfl

/-- One of the parts grows, and all later parts are empty. -/
theorem flatten_modify {g : β → List α} {f : β → β} {more : List α} : ∀ {l : List β} {i : Nat} {b : β},
    l[i]? = some b → g (f b) = g b ++ more → (∀ j c, i < j → l[j]? = some c → g c = []) →
    ((l.modify i f).map g).flatten = (l.map g).flatten ++ more
  | [], i, b, h, _, _ => by simp at h
  | c :: l, 0, b, h, hg, hlater => by
    rw [List.getElem?_cons_zero, Option.some.injEq] at h
    subst h
    have hnil : (l.map g).flatten = [] := by
      rw [List.flatten_eq_nil_iff]
      intro part hpart
      obtain ⟨d, hd, rfl⟩ := List.mem_map.mp hpart
      obtain ⟨j, hj⟩ := List.mem_iff_getElem?.mp hd
      exact hlater (j + 1) d (Nat.succ_pos j) (by rw [List.getElem?_cons_succ]; exact hj)
    rw [List.modify_zero_cons, List.map_cons, List.map_cons, List.flatten_cons, List.flatten_cons, hg, hnil]
    simp
  | c :: l, i + 1, b, h, hg, hlater => by
    rw [List.getElem?_cons_succ] at h
    have hrest := flatten_modify h hg fun j d hj hd =>
      hlater (j + 1) d (by omega) (by rw [List.getElem?_cons_succ]; exact hd)
    rw [List.modify_succ_cons, List.map_cons, List.map_cons, List.flatten_cons, List.flatten_cons, hrest,
      List.append_assoc]

/-- Values with an empty part can be left out. -/
theorem flatten_filter {g : β → List α} {p : β → Bool} : ∀ {l : List β}, (∀ b ∈ l, p b = false → g b = []) →
    ((l.filter p).map g).flatten = (l.map g).flatten
  | [], _ => rfl
  | b :: l, h => by
    have hrest := flatten_filter fun c hc => h c (List.mem_cons_of_mem _ hc)
    cases hb : p b with
    | true => rw [List.filter_cons_of_pos hb, List.map_cons, List.map_cons, List.flatten_cons, List.flatten_cons, hrest]
    | false =>
      rw [List.filter_cons_of_neg (by rw [hb]; nofun), List.map_cons, List.flatten_cons, h b List.mem_cons_self hb, hrest,
        List.nil_append]

/-- A prefix of a concatenation takes a prefix of each part. -/
theorem exists_prefixes {g : β → List α} : ∀ {l : List β} {whole : List α}, whole <+: (l.map g).flatten →
    ∃ parts, List.Forall₂ (fun part b => part <+: g b) parts l ∧ whole = parts.flatten
  | [], whole, h => ⟨[], .nil, by simpa using h⟩
  | b :: l, whole, h => by
    rw [List.map_cons, List.flatten_cons] at h
    by_cases hlen : whole.length ≤ (g b).length
    · -- the prefix ends in the first part, so it takes nothing of the others
      have hfirst : whole <+: g b := List.prefix_of_prefix_length_le h (List.prefix_append _ _) hlen
      obtain ⟨parts, hparts, hnil⟩ := exists_prefixes (List.nil_prefix (l := (l.map g).flatten))
      exact ⟨whole :: parts, .cons hfirst hparts, by rw [List.flatten_cons, ← hnil, List.append_nil]⟩
    · have hfirst : g b <+: whole := List.prefix_of_prefix_length_le (List.prefix_append _ _) h (by omega)
      obtain ⟨more, rfl⟩ := hfirst
      obtain ⟨parts, hparts, rfl⟩ := exists_prefixes ((List.prefix_append_right_inj (g b)).mp h)
      exact ⟨g b :: parts, .cons (List.prefix_refl _) hparts, rfl⟩

end Firestone.Lib
