import Firestone.Lib.Multipart

/-!
# Reading into a growing buffer

The other end of a stream sends it in pieces. A read returns at most as many bytes as there is room for, and no more than
what is left of the piece that has arrived.

* `Source` — the pieces that are still to come, and what comes after them.
* `fill` — a loop that reads until it can decide about its buffer.
* `fill_reached` — where it stops; `fill_piece` — a piece on which nothing is decided is read to its end.
* `firstAt` — the place of the first occurrence of a pattern; `firstAt_iff_of_prefix` says what a beginning shows of it.
-/

namespace Firestone.Lib

/-! ## Sources -/

/-- What comes after the last piece. -/
inductive Ending (ε : Type)
  | closed | failed (error : ε)

structure Source (ε : Type) where
  pieces : List Bytes
  ending : Ending ε

namespace Source

variable {ε : Type}

/-- The bytes that are still to come. -/
def rest (source : Source ε) : Bytes := source.pieces.flatten

/-- Every piece has a byte. -/
def Wf (source : Source ε) : Prop := ∀ piece ∈ source.pieces, piece ≠ []

/-- A read with room for `n` bytes. No bytes are the end. -/
def read (source : Source ε) (n : Nat) : Except ε (Bytes × Source ε) :=
  match source.pieces with
  | [] =>
    match source.ending with
    | .closed => .ok ([], source)
    | .failed error => .error error
  | piece :: pieces => .ok (piece.take n, ⟨if piece.length ≤ n then pieces else piece.drop n :: pieces, source.ending⟩)

/-- What a read returns comes off the front. -/
theorem read_ok {source next : Source ε} {n : Nat} {chunk : Bytes} (h : source.read n = .ok (chunk, next)) :
    chunk ++ next.rest = source.rest ∧ chunk.length ≤ n ∧ next.ending = source.ending ∧ (source.Wf → next.Wf) := by
  obtain ⟨pieces, ending⟩ := source
  cases pieces with
  | nil =>
    cases ending with
    | closed =>
      cases h
      exact ⟨rfl, Nat.zero_le _, rfl, id⟩
    | failed error => cases h
  | cons piece pieces =>
    rw [read, Except.ok.injEq, Prod.mk.injEq] at h
    obtain ⟨rfl, rfl⟩ := h
    refine ⟨?_, List.length_take_le _ _, rfl, fun hwf => ?_⟩
    · simp only [rest, List.flatten_cons]
      split
      · rename_i hle
        rw [List.take_of_length_le hle]
      · rw [List.flatten_cons, ← List.append_assoc, List.take_append_drop]
    · intro p hp
      simp only at hp
      split at hp
      · exact hwf p (List.mem_cons_of_mem _ hp)
      · rename_i hlong
        rcases List.mem_cons.mp hp with rfl | hp
        · intro hnil
          rw [List.drop_eq_nil_iff] at hnil
          exact hlong hnil
        · exact hwf p (List.mem_cons_of_mem _ hp)

/-- A read with room for a byte returns none only at the end. -/
theorem read_nil {source next : Source ε} {n : Nat} (hwf : source.Wf) (hn : 0 < n) (h : source.read n = .ok ([], next)) :
    source.rest = [] ∧ source.ending = .closed := by
  obtain ⟨pieces, ending⟩ := source
  cases pieces with
  | nil =>
    cases ending with
    | closed => exact ⟨rfl, rfl⟩
    | failed error => cases h
  | cons piece pieces =>
    rw [read, Except.ok.injEq, Prod.mk.injEq, List.take_eq_nil_iff] at h
    rcases h.1 with hzero | hnil
    · omega
    · exact absurd hnil (hwf piece List.mem_cons_self)

theorem read_error {source : Source ε} {n : Nat} {error : ε} (h : source.read n = .error error) :
    source.rest = [] ∧ source.ending = .failed error := by
  obtain ⟨pieces, ending⟩ := source
  cases pieces with
  | nil =>
    cases ending with
    | closed => cases h
    | failed e =>
      cases h
      exact ⟨rfl, rfl⟩
  | cons piece pieces => cases h

end Source

/-! ## The loop -/

inductive Fill (β ε : Type)
  | filled (value : β) (buffer : Bytes) (source : Source ε)
  | closed (buffer : Bytes)
  | failed (buffer : Bytes) (error : ε)

section Fill

variable {β ε : Type} (settled : Bytes → Option β) (room : Bytes → Nat)

/-- Reads until the buffer settles the matter or the stream is at its end. -/
@[grind =] def fill (buffer : Bytes) (source : Source ε) : Fill β ε :=
  match settled buffer with
  | some value => .filled value buffer source
  | none =>
    match hread : source.read (room buffer) with
    | .error error => .failed buffer error
    | .ok (chunk, next) =>
      if hchunk : chunk = [] then .closed buffer
      else
        have : next.rest.length < source.rest.length := by
          rw [← (Source.read_ok hread).1, List.length_append]
          have hpos := List.length_pos_iff.mpr hchunk
          omega
        fill (buffer ++ chunk) next
termination_by source.rest.length

/-- Where the loop may stop. What it was settled by came with one read on top of a buffer that settled nothing. -/
inductive Reached (buffer : Bytes) (source : Source ε) : Fill β ε → Prop
  | filled {value : β} {final : Bytes} {next : Source ε} : settled final = some value →
      final ++ next.rest = buffer ++ source.rest → next.ending = source.ending → next.Wf →
      (final = buffer ∨ ∃ previous, settled previous = none ∧ buffer <+: previous ∧ previous <+: final ∧
        final.length ≤ previous.length + room previous) → Reached buffer source (.filled value final next)
  | closed {final : Bytes} : settled final = none → final = buffer ++ source.rest → source.ending = .closed →
      Reached buffer source (.closed final)
  | failed {final : Bytes} {error : ε} : settled final = none → final = buffer ++ source.rest →
      source.ending = .failed error → Reached buffer source (.failed final error)

variable {settled room}

theorem fill_settled {buffer : Bytes} {source : Source ε} {value : β} (h : settled buffer = some value) :
    fill settled room buffer source = .filled value buffer source := by
  rw [fill, h]

theorem fill_failed {buffer : Bytes} {source : Source ε} {error : ε} (hnone : settled buffer = none)
    (hread : source.read (room buffer) = .error error) : fill settled room buffer source = .failed buffer error := by
  rw [fill, hnone]
  simp only
  split
  · rename_i heq
    rw [hread] at heq
    cases heq
    rfl
  · rename_i heq
    rw [hread] at heq
    cases heq

theorem fill_closed {buffer : Bytes} {source next : Source ε} (hnone : settled buffer = none)
    (hread : source.read (room buffer) = .ok ([], next)) : fill settled room buffer source = .closed buffer := by
  rw [fill, hnone]
  simp only
  split
  · rename_i heq
    rw [hread] at heq
    cases heq
  · rename_i heq
    rw [hread] at heq
    cases heq
    rw [dif_pos rfl]

/-- One turn. -/
theorem fill_step {buffer chunk : Bytes} {source next : Source ε} (hnone : settled buffer = none)
    (hread : source.read (room buffer) = .ok (chunk, next)) (hchunk : chunk ≠ []) :
    fill settled room buffer source = fill settled room (buffer ++ chunk) next := by
  conv => lhs; rw [fill, hnone]
  simp only
  split
  · rename_i heq
    rw [hread] at heq
    cases heq
  · rename_i heq
    rw [hread] at heq
    cases heq
    rw [dif_neg hchunk]

theorem fill_reached (hroom : ∀ buffer, settled buffer = none → 0 < room buffer) (buffer : Bytes) (source : Source ε)
    (hwf : source.Wf) : Reached settled room buffer source (fill settled room buffer source) := by
  induction buffer, source using fill.induct settled room with
  | case1 buffer source value hvalue =>
    rw [fill_settled hvalue]
    exact .filled hvalue rfl rfl hwf (.inl rfl)
  | case2 buffer source hnone error hread =>
    obtain ⟨hrest, hending⟩ := Source.read_error hread
    rw [fill_failed hnone hread]
    exact .failed hnone (by rw [hrest, List.append_nil]) hending
  | case3 buffer source hnone next hread =>
    obtain ⟨hrest, hending⟩ := Source.read_nil hwf (hroom buffer hnone) hread
    rw [fill_closed hnone hread]
    exact .closed hnone (by rw [hrest, List.append_nil]) hending
  | case4 buffer source hnone chunk next hread hchunk hlt ih =>
    obtain ⟨hsplit, hlen, hending, hnext⟩ := Source.read_ok hread
    have hall : buffer ++ chunk ++ next.rest = buffer ++ source.rest := by rw [List.append_assoc, hsplit]
    have hreached := ih (hnext hwf)
    rw [fill_step hnone hread hchunk]
    generalize fill settled room (buffer ++ chunk) next = result at hreached
    cases hreached with
    | filled hvalue hfinal hend hwf' hlast =>
      refine .filled hvalue (hfinal.trans hall) (hend.trans hending) hwf' (.inr ?_)
      rcases hlast with rfl | hlast
      · refine ⟨buffer, hnone, List.prefix_rfl, List.prefix_append _ _, ?_⟩
        rw [List.length_append]
        omega
      · obtain ⟨previous, hprevious, hbuffer, hlast⟩ := hlast
        exact ⟨previous, hprevious, (List.prefix_append _ _).trans hbuffer, hlast⟩
    | closed hfinal hrest hend => exact .closed hfinal (hrest.trans hall) (hending ▸ hend)
    | failed hfinal hrest hend => exact .failed hfinal (hrest.trans hall) (hending ▸ hend)

/-- A piece on whose beginnings nothing is settled is read to its end. -/
theorem fill_piece (hroom : ∀ buffer, settled buffer = none → 0 < room buffer) {pieces : List Bytes} {ending : Ending ε} :
    ∀ (length : Nat) (buffer piece : Bytes), piece.length ≤ length → piece ≠ [] →
    (∀ k < piece.length, settled (buffer ++ piece.take k) = none) →
    fill settled room buffer ⟨piece :: pieces, ending⟩ = fill settled room (buffer ++ piece) ⟨pieces, ending⟩
  | 0, _, piece, hlength, hne, _ => absurd (List.length_eq_zero_iff.mp (Nat.le_zero.mp hlength)) hne
  | length + 1, buffer, piece, hlength, hne, hnone => by
    have hpos := List.length_pos_iff.mpr hne
    have hstart : settled buffer = none := by
      have h := hnone 0 hpos
      rwa [List.take_zero, List.append_nil] at h
    have hbytes := hroom buffer hstart
    have hchunk : piece.take (room buffer) ≠ [] := by
      rw [Ne, List.take_eq_nil_iff]
      exact fun h => h.elim (by omega) hne
    rw [fill_step hstart rfl hchunk]
    by_cases hle : piece.length ≤ room buffer
    · simp only [if_pos hle, List.take_of_length_le hle]
    · simp only [if_neg hle]
      have hrest : (piece.drop (room buffer)).length ≤ length := by
        rw [List.length_drop]
        omega
      have hdrop : piece.drop (room buffer) ≠ [] := by
        rw [Ne, List.drop_eq_nil_iff]
        exact hle
      rw [fill_piece hroom length _ _ hrest hdrop, List.append_assoc, List.take_append_drop]
      intro k hk
      rw [List.length_drop] at hk
      have h := hnone (room buffer + k) (by omega)
      rwa [List.take_add, ← List.append_assoc] at h

end Fill

/-! ## The first occurrence of a pattern -/

section FirstAt

variable {α : Type} [DecidableEq α] {d : List α}

/-- `windows(n).position(…)`. -/
def firstAt (d l : List α) : Option Nat := (breakOn d l).map fun p => p.1.length

theorem eq_of_breakOn : ∀ {l a c : List α}, breakOn d l = some (a, c) → l = a ++ d ++ c
  | [], a, c, h => by
    unfold breakOn at h
    split at h
    · rename_i hd
      cases h
      rw [hd]
      rfl
    · cases h
  | x :: l, a, c, h => by
    by_cases hd : d <+: x :: l
    · rw [breakOn, if_pos (List.isPrefixOf_iff_prefix.mpr hd)] at h
      cases h
      obtain ⟨c, hc⟩ := hd
      rw [← hc, List.drop_left]
      rfl
    · rw [breakOn_cons hd] at h
      obtain ⟨⟨a', c'⟩, hbreak, hpair⟩ := Option.map_eq_some_iff.mp h
      cases hpair
      rw [eq_of_breakOn hbreak]
      rfl

theorem firstAt_le {l : List α} {i : Nat} (h : firstAt d l = some i) : i + d.length ≤ l.length := by
  obtain ⟨⟨a, c⟩, hbreak, rfl⟩ := Option.map_eq_some_iff.mp h
  rw [eq_of_breakOn hbreak, List.length_append, List.length_append]
  exact Nat.le_add_right _ _

/-- What comes later does not change the first occurrence. -/
theorem breakOn_extend (more : List α) : ∀ {l a c : List α}, breakOn d l = some (a, c) →
    breakOn d (l ++ more) = some (a, c ++ more)
  | [], a, c, h => by
    unfold breakOn at h
    split at h
    · rename_i hd
      cases h
      cases more <;> simp [breakOn, hd]
    · cases h
  | x :: l, a, c, h => by
    by_cases hd : d <+: x :: l
    · rw [breakOn, if_pos (List.isPrefixOf_iff_prefix.mpr hd)] at h
      cases h
      rw [List.cons_append, breakOn, if_pos, ← List.cons_append, List.drop_append_of_le_length hd.length_le]
      rw [List.isPrefixOf_iff_prefix, ← List.cons_append]
      exact hd.trans (List.prefix_append _ _)
    · rw [breakOn_cons hd] at h
      obtain ⟨⟨a', c'⟩, hbreak, hpair⟩ := Option.map_eq_some_iff.mp h
      cases hpair
      have hno : ¬ d <+: x :: (l ++ more) := by
        rw [← List.cons_append]
        intro hprefix
        refine hd (List.prefix_of_prefix_length_le hprefix (List.prefix_append _ _) ?_)
        rw [eq_of_breakOn hbreak, List.length_cons, List.length_append, List.length_append]
        omega
      rw [List.cons_append, breakOn_cons hno, breakOn_extend more hbreak]
      rfl

/-- A beginning of a list shows the first occurrence when it is long enough. -/
theorem firstAt_iff_of_prefix {p l : List α} (hp : p <+: l) {i : Nat} :
    firstAt d p = some i ↔ firstAt d l = some i ∧ i + d.length ≤ p.length := by
  constructor
  · intro h
    refine ⟨?_, firstAt_le h⟩
    obtain ⟨more, rfl⟩ := hp
    obtain ⟨⟨a, c⟩, hbreak, rfl⟩ := Option.map_eq_some_iff.mp h
    rw [firstAt, breakOn_extend more hbreak]
    rfl
  · rintro ⟨h, hlen⟩
    obtain ⟨⟨a, c⟩, hbreak, rfl⟩ := Option.map_eq_some_iff.mp h
    have hstart : a ++ d <+: p := by
      refine List.prefix_of_prefix_length_le  ?_ hp (by rw [List.length_append]; exact hlen)
      rw [eq_of_breakOn hbreak]
      exact List.prefix_append _ _
    have hinfix : d <:+: p := (List.suffix_append a d).isInfix.trans hstart.isInfix
    obtain ⟨a', c', hbreak', -⟩ := breakOn_infix [] hinfix
    rw [List.append_nil] at hbreak'
    obtain ⟨more, rfl⟩ := hp
    have hsame := breakOn_extend more hbreak'
    rw [hbreak, Option.some.injEq, Prod.mk.injEq] at hsame
    rw [firstAt, hbreak', hsame.1]
    rfl

end FirstAt

end Firestone.Lib
