import Mathlib.Data.List.DropRight
import Mathlib.Tactic.Common

/-!
# The output of a process

The output of a process is read to its end. A bounded part of it is kept, the beginning or the end, and a log file may get all
of it.

* `captureStream` — the loop, with the read and the write of each turn; either may fail.
* `Kept` — what was captured after some chunks; `Kept.retain` is the step and `Kept.of_chunks` the run.
* `captureStream_log` — the log has a beginning of what was read, also when the loop fails.
* `captureStream_exact` — what is kept does not depend on the chunks, and when the mark of a loss does.
-/

namespace Firestone.Process

/-! ## The loop -/

/-- A turn of the loop: the bytes that a read gave and what came of their write to the log, of which a part may have got
there; or a read that failed. -/
inductive Delivery (ε : Type)
  | chunk (bytes : List UInt8) (logged : Except (ε × Nat) Unit)
  | failed (error : ε)

structure Captured where
  bytes : List UInt8
  truncated : Bool
  deriving DecidableEq, Repr

/-- What a turn does with the bytes that were read. -/
def Captured.retain (limit : Nat) (retainTail : Bool) (captured : Captured) (chunk : List UInt8) : Captured :=
  let read := chunk.length
  if retainTail then
    if read ≥ limit then { bytes := chunk.drop (read - limit), truncated := true }
    else
      -- the lengths of two buffers in memory, whose sum does not saturate
      let overflow := captured.bytes.length + read - limit
      if overflow > 0 then { bytes := captured.bytes.drop overflow ++ chunk, truncated := true }
      else { captured with bytes := captured.bytes ++ chunk }
  else
    let remaining := limit - captured.bytes.length
    let retained := min remaining read
    { bytes := captured.bytes ++ chunk.take retained, truncated := captured.truncated || decide (retained < read) }

variable {ε : Type}

/-- The loop from what was captured and logged so far; a read of no bytes is the end, and so is the end of the list. -/
@[grind =] def captureLoop (limit : Nat) (retainTail : Bool) :
    List (Delivery ε) → Captured → Option (List UInt8) → Except ε Captured × Option (List UInt8)
  | [], captured, log => (.ok captured, log)
  | .failed error :: _, _, log => (.error error, log)
  | .chunk bytes logged :: deliveries, captured, log =>
    if bytes = [] then (.ok captured, log)
    else match log, logged with
      | some file, .error (error, written) => (.error error, some (file ++ bytes.take written))
      | some file, .ok () =>
        captureLoop limit retainTail deliveries (captured.retain limit retainTail bytes) (some (file ++ bytes))
      | none, _ => captureLoop limit retainTail deliveries (captured.retain limit retainTail bytes) none

/-- What was captured, or the error, and the log. -/
def captureStream (deliveries : List (Delivery ε)) (limit : Nat) (log : Option (List UInt8)) (retainTail : Bool) :
    Except ε Captured × Option (List UInt8) :=
  captureLoop limit retainTail deliveries { bytes := [], truncated := false } log

/-- The chunks are read and logged without a failure. -/
def deliveriesOf (ε : Type) (chunks : List (List UInt8)) : List (Delivery ε) := chunks.map fun bytes => .chunk bytes (.ok ())

/-! ## The log -/

/-- The bytes that the reads give. -/
def Delivery.bytes : Delivery ε → List UInt8
  | .chunk bytes _ => bytes
  | .failed _ => []

theorem captureLoop_log {limit : Nat} {retainTail : Bool} : ∀ (deliveries : List (Delivery ε)) (captured : Captured)
    (log : Option (List UInt8)), ∃ written, written <+: (deliveries.map Delivery.bytes).flatten ∧
      (captureLoop limit retainTail deliveries captured log).2 = log.map (· ++ written)
  | [], _, log => ⟨[], List.nil_prefix, by cases log <;> simp [captureLoop]⟩
  | .failed _ :: _, _, log => ⟨[], List.nil_prefix, by cases log <;> simp [captureLoop]⟩
  | .chunk bytes logged :: deliveries, captured, log => by
    rw [captureLoop.eq_def, List.map_cons, List.flatten_cons]
    dsimp only [Delivery.bytes]
    split
    · exact ⟨[], List.nil_prefix, by cases log <;> simp⟩
    · split
      · rename_i file error written
        exact ⟨bytes.take written, (List.take_prefix _ _).trans (List.prefix_append _ _), rfl⟩
      · rename_i file
        obtain ⟨written, hprefix, hlog⟩ := captureLoop_log deliveries (captured.retain limit retainTail bytes)
          (some (file ++ bytes))
        refine ⟨bytes ++ written, (List.prefix_append_right_inj _).mpr hprefix, ?_⟩
        rw [hlog, Option.map_some, Option.map_some, List.append_assoc]
      · obtain ⟨_, _, hlog⟩ := captureLoop_log deliveries (captured.retain limit retainTail bytes) none
        exact ⟨[], List.nil_prefix, hlog⟩

/-- **The log has a beginning of the stream**, whatever fails. -/
theorem captureStream_log {limit : Nat} {retainTail : Bool} {deliveries : List (Delivery ε)} {log : Option (List UInt8)} :
    ∃ written, written <+: (deliveries.map Delivery.bytes).flatten ∧
      (captureStream deliveries limit log retainTail).2 = log.map (· ++ written) :=
  captureLoop_log deliveries _ log

/-! ## What is kept -/

/-- The part of a stream to keep: the last bytes of it, or the first. -/
def kept (limit : Nat) (retainTail : Bool) (stream : List UInt8) : List UInt8 :=
  if retainTail then stream.rtake limit else stream.take limit

theorem rtake_append_of_le {α : Type} {l chunk : List α} {n : Nat} (h : n ≤ chunk.length) :
    (l ++ chunk).rtake n = chunk.drop (chunk.length - n) := by
  have hlength : (l ++ chunk).length - n = l.length + (chunk.length - n) := by
    rw [List.length_append]
    omega
  rw [List.rtake, hlength, List.drop_append, List.drop_eq_nil_of_le (by omega), List.nil_append]
  congr 1
  omega

theorem rtake_append_of_lt {α : Type} {l chunk : List α} {n : Nat} (h : chunk.length < n) :
    (l ++ chunk).rtake n = (l.rtake n).drop ((l.rtake n).length + chunk.length - n) ++ chunk := by
  have hrest : l.drop (l.length + chunk.length - n) = (l.rtake n).drop ((l.rtake n).length + chunk.length - n) := by
    rw [List.rtake, List.drop_drop, List.length_drop]
    congr 1
    omega
  rw [← hrest, List.rtake, List.length_append, List.drop_append_of_le_length (by omega)]

/-- What was captured after some chunks. A single chunk that fills the limit counts as a loss in the mode that keeps the
end. -/
structure Kept (limit : Nat) (retainTail : Bool) (chunks : List (List UInt8)) (captured : Captured) : Prop where
  bytes : captured.bytes = kept limit retainTail chunks.flatten
  truncated : captured.truncated = true ↔
    limit < chunks.flatten.length ∨ retainTail = true ∧ chunks.length = 1 ∧ chunks.flatten.length = limit

section Kept

variable {limit : Nat} {retainTail : Bool} {chunks : List (List UInt8)} {captured : Captured} {chunk : List UInt8}

/-- The turn of the mode that keeps the end. -/
theorem Kept.retain_tail (h : Kept limit true chunks captured) (hchunk : chunk ≠ [])
    (hchunks : chunks.flatten = [] → chunks = []) : Kept limit true (chunks ++ [chunk]) (captured.retain limit true chunk) := by
  have hpos := List.length_pos_iff.mpr hchunk
  have hbytes : captured.bytes = chunks.flatten.rtake limit := h.bytes
  have hlength : captured.bytes.length = min chunks.flatten.length limit := by
    rw [hbytes, List.rtake, List.length_drop]
    omega
  have hflatten : (chunks ++ [chunk]).flatten = chunks.flatten ++ chunk := by simp
  have hone : (chunks ++ [chunk]).length = 1 ↔ chunks.flatten.length = 0 := by
    rw [List.length_append, List.length_singleton, List.length_eq_zero_iff]
    constructor
    · intro hlen
      rw [List.length_eq_zero_iff.mp (Nat.succ_injective hlen)]
      rfl
    · intro hempty
      rw [hchunks hempty]
      rfl
  have htruncated := h.truncated
  simp only [Captured.retain, if_true]
  split
  · rename_i hfull
    refine ⟨?_, iff_of_true rfl ?_⟩
    · rw [hflatten]
      exact (rtake_append_of_le hfull).symm
    · -- no byte is lost when the chunk comes first and just fits
      rw [hone, hflatten, List.length_append]
      simp only [true_and]
      omega
  · rename_i hfits
    have hrtake : kept limit true (chunks ++ [chunk]).flatten =
        captured.bytes.drop (captured.bytes.length + chunk.length - limit) ++ chunk := by
      rw [hflatten, hbytes]
      exact rtake_append_of_lt (by omega)
    split
    · rename_i hover
      refine ⟨hrtake.symm, iff_of_true rfl ?_⟩
      rw [hflatten, List.length_append]
      omega
    · rename_i hover
      refine ⟨?_, ?_⟩
      · rw [hrtake, show captured.bytes.length + chunk.length - limit = 0 by omega, List.drop_zero]
      · rw [htruncated, hone, hflatten, List.length_append]
        simp only [true_and]
        omega

/-- The turn of the mode that keeps the beginning. -/
theorem Kept.retain_head (h : Kept limit false chunks captured) :
    Kept limit false (chunks ++ [chunk]) (captured.retain limit false chunk) := by
  have hbytes : captured.bytes = chunks.flatten.take limit := h.bytes
  have hlength : captured.bytes.length = min limit chunks.flatten.length := by rw [hbytes, List.length_take]
  have htruncated : captured.truncated = true ↔ limit < chunks.flatten.length := by simpa using h.truncated
  have hflatten : (chunks ++ [chunk]).flatten = chunks.flatten ++ chunk := by simp
  refine ⟨?_, ?_⟩
  · have htake : chunk.take (min (limit - captured.bytes.length) chunk.length) =
        chunk.take (limit - chunks.flatten.length) := by
      rw [List.take_eq_take_iff]
      omega
    change captured.bytes ++ chunk.take _ = List.take limit _
    rw [htake, hbytes, hflatten, List.take_append]
  · simp only [Captured.retain, Bool.false_eq_true, if_false, Bool.or_eq_true, decide_eq_true_eq, false_and, or_false]
    rw [htruncated, hflatten, List.length_append]
    omega

theorem Kept.retain (h : Kept limit retainTail chunks captured) (hchunk : chunk ≠ [])
    (hchunks : ∀ c ∈ chunks, c ≠ []) :
    Kept limit retainTail (chunks ++ [chunk]) (captured.retain limit retainTail chunk) := by
  cases retainTail with
  | false => exact h.retain_head
  | true =>
    refine h.retain_tail hchunk fun hempty => ?_
    rw [List.flatten_eq_nil_iff] at hempty
    exact List.eq_nil_iff_forall_not_mem.mpr fun c hc => hchunks c hc (hempty c hc)

/-- The turns for some more chunks. -/
theorem Kept.of_chunks : ∀ {rest chunks : List (List UInt8)} {captured : Captured}, Kept limit retainTail chunks captured →
    (∀ c ∈ chunks, c ≠ []) → (∀ c ∈ rest, c ≠ []) →
    Kept limit retainTail (chunks ++ rest) (rest.foldl (Captured.retain limit retainTail) captured)
  | [], chunks, captured, h, _, _ => by rwa [List.append_nil]
  | chunk :: rest, chunks, captured, h, hchunks, hrest => by
    obtain ⟨hchunk, hrest⟩ := List.forall_mem_cons.mp hrest
    have hnext : ∀ c ∈ chunks ++ [chunk], c ≠ [] := by
      intro c hc
      rcases List.mem_append.mp hc with hc | hc
      · exact hchunks c hc
      · rw [List.mem_singleton.mp hc]
        exact hchunk
    have hfold := Kept.of_chunks (h.retain hchunk hchunks) hnext hrest
    rwa [List.append_assoc] at hfold

end Kept

theorem captureLoop_deliveriesOf (limit : Nat) (retainTail : Bool) : ∀ {chunks : List (List UInt8)} (captured : Captured)
    (log : Option (List UInt8)), (∀ c ∈ chunks, c ≠ []) →
    captureLoop limit retainTail (deliveriesOf ε chunks) captured log =
      (.ok (chunks.foldl (Captured.retain limit retainTail) captured), log.map (· ++ chunks.flatten))
  | [], _, log, _ => by cases log <;> simp [deliveriesOf, captureLoop]
  | chunk :: chunks, captured, log, h => by
    obtain ⟨hchunk, hchunks⟩ := List.forall_mem_cons.mp h
    have ih := captureLoop_deliveriesOf limit retainTail (captured.retain limit retainTail chunk) (log.map (· ++ chunk)) hchunks
    rw [deliveriesOf, List.map_cons, captureLoop.eq_def]
    dsimp only
    rw [if_neg hchunk]
    cases log with
    | none => exact ih
    | some file =>
      refine ih.trans ?_
      rw [Option.map_some, Option.map_some, Option.map_some, List.append_assoc, List.flatten_cons, List.foldl_cons]

/-! ## Every chunking -/

/-- A stream was captured as it should be: the last or the first bytes of it, the mark of a loss when it is longer, and all
of it in the log. -/
def Exact (stream : List UInt8) (limit : Nat) (log : Option (List UInt8)) (retainTail : Bool)
    (result : Except ε Captured × Option (List UInt8)) : Prop :=
  result = (.ok { bytes := kept limit retainTail stream, truncated := decide (limit < stream.length) },
    log.map (· ++ stream))

/-- **The capture does not depend on the chunks**, but for the mark when one chunk is the whole stream and fills the limit. -/
theorem captureStream_exact {chunks : List (List UInt8)} (limit : Nat) (log : Option (List UInt8)) (retainTail : Bool)
    (hchunks : ∀ c ∈ chunks, c ≠ []) :
    (∃ truncated, captureStream (deliveriesOf ε chunks) limit log retainTail =
      (.ok { bytes := kept limit retainTail chunks.flatten, truncated }, log.map (· ++ chunks.flatten))) ∧
    (Exact chunks.flatten limit log retainTail (captureStream (deliveriesOf ε chunks) limit log retainTail) ↔
      ¬ (retainTail = true ∧ chunks.length = 1 ∧ chunks.flatten.length = limit)) := by
  have hstart : Kept limit retainTail [] { bytes := [], truncated := false } :=
    ⟨by cases retainTail <;> simp [kept], by simp⟩
  have hkept := hstart.of_chunks (by simp) hchunks
  have hrun := @captureLoop_deliveriesOf ε limit retainTail chunks { bytes := [], truncated := false } log hchunks
  rw [List.nil_append] at hkept
  generalize hcaptured : chunks.foldl (Captured.retain limit retainTail) { bytes := [], truncated := false } = captured
    at hkept hrun
  obtain ⟨bytes, truncated⟩ := captured
  obtain ⟨rfl, htruncated⟩ := hkept
  refine ⟨⟨truncated, hrun⟩, ?_⟩
  rw [Exact, captureStream, hrun, Prod.mk.injEq, Except.ok.injEq, Captured.mk.injEq]
  simp only [true_and, and_true]
  rw [Bool.eq_iff_iff, htruncated, decide_eq_true_eq]
  constructor
  · rintro h ⟨htail, hone, hfull⟩
    exact absurd (h.mp (.inr ⟨htail, hone, hfull⟩)) (by omega)
  · exact fun h => or_iff_left h

/-- Two chunks, the second of which makes the stream longer than the limit. -/
theorem captureStream_exact_two : Exact [1, 2, 3] 2 (some []) true
    (captureStream (deliveriesOf Unit [[1, 2], [3]]) 2 (some []) true) :=
  (captureStream_exact 2 (some []) true (by simp)).2.mpr (by simp)

/-- One chunk of just the limit is kept whole and marked as cut. -/
theorem captureStream_full : captureStream (deliveriesOf Unit [[1, 2]]) 2 none true =
      (.ok { bytes := [1, 2], truncated := true }, none) ∧
    ¬ Exact [1, 2] 2 none true (captureStream (deliveriesOf Unit [[1, 2]]) 2 none true) := by
  have hrun : captureStream (deliveriesOf Unit [[1, 2]]) 2 none true =
      (.ok { bytes := [1, 2], truncated := true }, none) := rfl
  refine ⟨hrun, ?_⟩
  rw [hrun, Exact]
  simp

end Firestone.Process
