import Firestone.Error
import Firestone.Lib.Bytes
import Firestone.Lib.Lines

/-!
# The tail of a log

`firestone logs` shows the last lines of a log. It reads at most a window at the end of the file and looks for the line breaks
from the end.

* `scanBack` — the loop over the window, from its end.
* `tailLog` — the selected bytes, their number of lines and the offset where following starts.
* `tailLog_eq` — what it returns, by the lines of the whole file.
* `tailLog_exact` — the last lines are selected unless they fill the window to its first byte.
-/

namespace Firestone.Machine.Logs

open Firestone.Lib

def maxLogTailBytes : Nat := 8 * 1024 * 1024

def u32Max : Nat := 2 ^ 32 - 1

/-- The line feed. -/
def newline : UInt8 := 10

/-- The calls on an open log that may fail. -/
inductive LogCall
  | inspect | seek | read
  deriving DecidableEq, Repr

def LogCall.verb : LogCall → String
  | .inspect => "inspect"
  | .seek => "seek"
  | .read => "read"

/-- An open log: what it holds, and the calls on it that fail. -/
structure OpenLog where
  content : Bytes
  fails : LogCall → Bool

/-- A log whose calls succeed. -/
def OpenLog.of (content : Bytes) : OpenLog := ⟨content, fun _ => false⟩

def OpenLog.call (file : OpenLog) (label path : String) (call : LogCall) : Res Unit :=
  if file.fails call then
    .error ((FirestoneError.new .generic ("cannot " ++ call.verb ++ " " ++ label ++ " " ++ path)).withHint
      "check the machine log permissions")
  else .ok ()

@[simp] theorem OpenLog.of_call (content : Bytes) (label path : String) (call : LogCall) :
    (OpenLog.of content).call label path call = .ok () := rfl

def scanLimitError (path : String) : FirestoneError :=
  (FirestoneError.new .dependency ("requested log tail in " ++ path ++ " exceeds the " ++ toString maxLogTailBytes ++
    " byte scan limit")).withHint "request fewer lines or inspect the owned log file directly"

/-- The loop over the window: the separators seen and the start of the selection. -/
def scanBack (bytes : Bytes) (lines : Nat) : Nat → Nat → Nat × Nat
  | 0, separators => (separators, 0)
  | cursor + 1, separators =>
    if bytes[cursor]? = some newline then
      if min (separators + 1) u32Max = lines then (min (separators + 1) u32Max, cursor + 1)
      else scanBack bytes lines cursor (min (separators + 1) u32Max)
    else scanBack bytes lines cursor separators

/-- The place where the loop starts: a final newline ends a line and does not separate two. -/
def lastCursor (bytes : Bytes) : Nat :=
  if bytes.getLast? = some newline then bytes.length - 1 else bytes.length

theorem toNat_le_u32Max (lines : UInt32) : lines.toNat ≤ u32Max := by
  have := lines.toNat_lt
  rw [u32Max]
  omega

/-- The number of lines of a selection. -/
def countLines (selected : Bytes) : Res UInt32 :=
  if selected = [] then .ok 0
  else
    let lines := selected.count newline + if selected.getLast? = some newline then 0 else 1
    if lines ≤ u32Max then .ok (UInt32.ofNat lines) else .error (FirestoneError.new .generic "log line count overflowed u32")

/-- The selection from a window that starts at `windowStart`, with its number of lines. -/
def selectTail (bytes : Bytes) (windowStart : Nat) (lines : UInt32) (path : String) : Res (Bytes × UInt32) :=
  let (separators, start) := scanBack bytes lines.toNat (lastCursor bytes) 0
  if separators < lines.toNat ∧ windowStart ≠ 0 then .error (scanLimitError path)
  else do
    let selected := bytes.drop start
    let logicalLines ← countLines selected
    return (selected, logicalLines)

/-- The selected bytes, their number of lines and the length that the log had. -/
def tailLog (file : OpenLog) (lines : UInt32) (path : String) : Res (Bytes × UInt32 × Nat) := do
  file.call "machine log" path .inspect
  let endOffset := file.content.length
  if lines = 0 ∨ endOffset = 0 then return ([], 0, endOffset)
  let windowStart := endOffset - maxLogTailBytes
  let windowLen := endOffset - windowStart
  file.call "machine log" path .seek
  file.call "machine log" path .read
  let bytes := (file.content.drop windowStart).take windowLen
  let (selected, logicalLines) ← selectTail bytes windowStart lines path
  return (selected, logicalLines, endOffset)

/-! ## The loop -/

theorem take_lastCursor_ne {bytes : Bytes} (h : bytes ≠ []) :
    ((bytes.take (lastCursor bytes)).count newline) + 1 = (endedPieces newline bytes).length := by
  rw [length_endedPieces, lastCursor]
  split
  · next hlast =>
    obtain ⟨body, rfl⟩ := List.getLast?_eq_some_iff.mp hlast
    simp
  · next hlast => simp [h, hlast]

/-- The loop stops at the separator that leaves `lines` lines, or has counted them all. -/
theorem scanBack_spec {bytes : Bytes} {lines : Nat} (hl : lines ≤ u32Max) {cursor separators : Nat}
    (hc : cursor ≤ bytes.length) (hs : separators < lines) :
    (separators + (bytes.take cursor).count newline < lines →
      scanBack bytes lines cursor separators = (separators + (bytes.take cursor).count newline, 0)) ∧
    (lines ≤ separators + (bytes.take cursor).count newline →
      ∃ p q, bytes.take cursor = p ++ newline :: q ∧ separators + q.count newline + 1 = lines ∧
        scanBack bytes lines cursor separators = (lines, p.length + 1)) := by
  induction cursor generalizing separators with
  | zero => simp [scanBack]; omega
  | succ cursor ih =>
    have hget : bytes[cursor]? = some bytes[cursor] := List.getElem?_eq_getElem (by omega)
    have htake : bytes.take (cursor + 1) = bytes.take cursor ++ [bytes[cursor]] := by
      rw [List.take_add_one, hget]; rfl
    have hlen : (bytes.take cursor).length = cursor := by rw [List.length_take]; omega
    rw [scanBack, hget, htake, List.count_append]
    by_cases hb : bytes[cursor] = newline
    · rw [hb, if_pos rfl, Nat.min_eq_left (by omega), List.count_singleton_self]
      by_cases hstop : separators + 1 = lines
      · rw [if_pos hstop]
        refine ⟨fun h => by omega, fun _ => ⟨bytes.take cursor, [], rfl, by simp; omega, by rw [hlen, hstop]⟩⟩
      · rw [if_neg hstop]
        have hmore : separators + 1 < lines := by omega
        obtain ⟨hfew, hmany⟩ := ih (by omega) hmore
        constructor
        · intro h
          rw [hfew (by omega)]
          congr 1
          omega
        · intro h
          obtain ⟨p, q, hp, hq, hscan⟩ := hmany (by omega)
          refine ⟨p, q ++ [newline], by rw [hp]; simp, ?_, hscan⟩
          rw [List.count_append, List.count_singleton_self]
          omega
    · have hne : ([bytes[cursor]] : Bytes).count newline = 0 := by simp [hb]
      rw [if_neg (by simpa using hb), hne, Nat.add_zero]
      obtain ⟨hfew, hmany⟩ := ih (by omega) hs
      refine ⟨hfew, fun h => ?_⟩
      obtain ⟨p, q, hp, hq, hscan⟩ := hmany h
      refine ⟨p, q ++ [bytes[cursor]], by rw [hp]; simp, ?_, hscan⟩
      rw [List.count_append, hne]
      omega

/-! ## The selection -/

/-- The selection of a window: its last lines when it has more of them, and the whole window otherwise. -/
theorem scanBack_window {bytes : Bytes} {lines : Nat} (hn : lines ≠ 0) (hl : lines ≤ u32Max) (hb : bytes ≠ []) :
    (lines < (endedPieces newline bytes).length →
      ∃ start, scanBack bytes lines (lastCursor bytes) 0 = (lines, start) ∧
        bytes.drop start = lastPieces newline lines bytes) ∧
    ((endedPieces newline bytes).length ≤ lines →
      ∃ separators, scanBack bytes lines (lastCursor bytes) 0 = (separators, 0) ∧ separators < lines) := by
  have hcount := take_lastCursor_ne hb
  have hle : lastCursor bytes ≤ bytes.length := by rw [lastCursor]; split <;> omega
  obtain ⟨hfew, hmany⟩ := scanBack_spec hl hle (Nat.pos_of_ne_zero hn)
  constructor
  · intro h
    obtain ⟨p, q, hp, hq, hscan⟩ := hmany (by omega)
    refine ⟨p.length + 1, hscan, ?_⟩
    have hsplit : bytes = (p ++ [newline]) ++ (q ++ bytes.drop (lastCursor bytes)) := by
      conv_lhs => rw [← List.take_append_drop (lastCursor bytes) bytes, hp]
      simp
    generalize q ++ bytes.drop (lastCursor bytes) = rest at hsplit
    rw [hp] at hcount
    have hlast : (p ++ [newline]).getLast? = some newline := List.getLast?_concat
    have hpieces : (endedPieces newline rest).length = lines := by
      rw [hsplit, endedPieces_append_of_getLast hlast, List.length_append, length_endedPieces, if_pos (.inr hlast)] at hcount
      simp only [List.count_append, List.count_cons_self, List.count_nil] at hcount
      omega
    have hlen : p.length + 1 = (p ++ [newline]).length := by rw [List.length_append, List.length_singleton]
    rw [hsplit, lastPieces_of_append hlast hpieces, hlen, List.drop_left]
  · intro h
    exact ⟨_, hfew (by omega), by omega⟩

theorem countLines_eq {selected : Bytes} {lines : Nat} (h : (endedPieces newline selected).length ≤ lines)
    (hl : lines ≤ u32Max) : countLines selected = .ok (UInt32.ofNat (endedPieces newline selected).length) := by
  rw [length_endedPieces] at h ⊢
  rw [countLines]
  split
  · next hnil => simp [hnil]
  · next hcons =>
    simp only [hcons, false_or] at h ⊢
    exact if_pos (Nat.le_trans h hl)

/-- The file is longer than the window, and its last lines reach the first byte of the window. -/
def FillsWindow (content : Bytes) (lines : Nat) : Prop :=
  maxLogTailBytes < content.length ∧ maxLogTailBytes ≤ (lastPieces newline lines content).length

instance (content : Bytes) (lines : Nat) : Decidable (FillsWindow content lines) := instDecidableAnd

theorem selectTail_lines {bytes : Bytes} {windowStart : Nat} {lines : UInt32} (path : String)
    (hn : lines.toNat ≠ 0) (hb : bytes ≠ []) (h : lines.toNat < (endedPieces newline bytes).length) :
    selectTail bytes windowStart lines path =
      .ok (lastPieces newline lines.toNat bytes, UInt32.ofNat lines.toNat) := by
  obtain ⟨start, hscan, hdrop⟩ := (scanBack_window hn (toNat_le_u32Max lines) hb).1 h
  have hlen : (endedPieces newline (lastPieces newline lines.toNat bytes)).length = lines.toNat := by
    rw [length_endedPieces_lastPieces, Nat.min_eq_left (Nat.le_of_lt h)]
  rw [selectTail, hscan]
  simp only [Nat.lt_irrefl, false_and, if_false]
  rw [hdrop, countLines_eq (Nat.le_of_eq hlen) (toNat_le_u32Max lines), hlen]
  rfl

theorem selectTail_all {bytes : Bytes} {windowStart : Nat} {lines : UInt32} (path : String)
    (hn : lines.toNat ≠ 0) (hb : bytes ≠ []) (h : (endedPieces newline bytes).length ≤ lines.toNat) :
    selectTail bytes windowStart lines path =
      if windowStart ≠ 0 then .error (scanLimitError path)
      else .ok (bytes, UInt32.ofNat (endedPieces newline bytes).length) := by
  obtain ⟨separators, hscan, hlt⟩ := (scanBack_window hn (toNat_le_u32Max lines) hb).2 h
  rw [selectTail, hscan]
  simp only [hlt, true_and, List.drop_zero]
  rw [countLines_eq h (toNat_le_u32Max lines)]
  rfl

theorem tailLog_of (content : Bytes) (lines : UInt32) (path : String) :
    tailLog (.of content) lines path =
      if lines = 0 ∨ content.length = 0 then .ok ([], 0, content.length)
      else (selectTail (content.drop (content.length - maxLogTailBytes)) (content.length - maxLogTailBytes) lines path).map
        fun selected => (selected.1, selected.2, content.length) := by
  have hfile : (OpenLog.of content).content = content := rfl
  simp only [tailLog, OpenLog.of_call, hfile]
  by_cases h : lines = 0 ∨ content.length = 0
  · simp only [h, if_true]
    rfl
  · simp only [h, if_false]
    rw [List.take_of_length_le (Nat.le_of_eq List.length_drop)]
    cases selectTail (content.drop (content.length - maxLogTailBytes)) (content.length - maxLogTailBytes) lines path <;> rfl

/-- The window at the end of a longer file. -/
theorem selectTail_long {skipped bytes : Bytes} {windowStart : Nat} {lines : UInt32} (path : String)
    (hn : lines.toNat ≠ 0) (hskipped : skipped ≠ []) (hbytes : bytes ≠ []) (hstart : windowStart ≠ 0) :
    selectTail bytes windowStart lines path =
      if (lastPieces newline lines.toNat (skipped ++ bytes)).length < bytes.length then
        .ok (lastPieces newline lines.toNat (skipped ++ bytes),
          UInt32.ofNat (min lines.toNat (endedPieces newline (skipped ++ bytes)).length))
      else .error (scanLimitError path) := by
  have hmore : lines.toNat < (endedPieces newline bytes).length ↔
      (lastPieces newline lines.toNat (skipped ++ bytes)).length < bytes.length := lt_length_iff hn hskipped
  by_cases hlines : lines.toNat < (endedPieces newline bytes).length
  · have hlast : lastPieces newline lines.toNat (skipped ++ bytes) = lastPieces newline lines.toNat bytes :=
      (lastPieces_append hn hlines).1
    have hcount := length_endedPieces_lastPieces (x := newline) lines.toNat (skipped ++ bytes)
    rw [hlast, length_endedPieces_lastPieces, Nat.min_eq_left (Nat.le_of_lt hlines)] at hcount
    rw [if_pos (hmore.mp hlines), selectTail_lines path hn hbytes hlines, ← hcount, hlast]
  · rw [if_neg (mt hmore.mpr hlines), selectTail_all path hn hbytes (Nat.le_of_not_lt hlines), if_pos hstart]

/-- The tail is refused exactly when the last lines fill the window of a longer file. -/
theorem tailLog_eq (content : Bytes) (lines : UInt32) (path : String) :
    tailLog (.of content) lines path =
      if FillsWindow content lines.toNat then .error (scanLimitError path)
      else .ok (lastPieces newline lines.toNat content,
        UInt32.ofNat (min lines.toNat (endedPieces newline content).length), content.length) := by
  rw [tailLog_of]
  split
  · next h =>
    have hfits : ¬ FillsWindow content lines.toNat := by
      rcases h with rfl | h
      · simp [FillsWindow, maxLogTailBytes]
      · rw [FillsWindow, h]
        omega
    rw [if_neg hfits]
    rcases h with rfl | h
    · simp
    · rw [List.length_eq_zero_iff.mp h]
      simp [lastPieces]
  · next h =>
    rw [not_or, List.length_eq_zero_iff, ← UInt32.toNat_inj] at h
    obtain ⟨hn, hcontent⟩ := h
    rcases Nat.lt_or_ge maxLogTailBytes content.length with hlong | hshort
    · have hpos : 0 < maxLogTailBytes := by decide
      have hlen : (content.drop (content.length - maxLogTailBytes)).length = maxLogTailBytes := by
        rw [List.length_drop]
        omega
      have hskipped : content.take (content.length - maxLogTailBytes) ≠ [] :=
        List.ne_nil_of_length_pos (by rw [List.length_take]; omega)
      rw [selectTail_long path hn hskipped (List.ne_nil_of_length_pos (by omega)) (by omega), List.take_append_drop, hlen]
      by_cases hfit : (lastPieces newline lines.toNat content).length < maxLogTailBytes
      · have hfits : ¬ FillsWindow content lines.toNat := fun hfill => absurd hfill.2 (Nat.not_le_of_lt hfit)
        rw [if_pos hfit, if_neg hfits]
        rfl
      · rw [if_neg hfit, if_pos ⟨hlong, Nat.le_of_not_lt hfit⟩]
        rfl
    · have hfits : ¬ FillsWindow content lines.toNat := fun hfill => absurd hfill.1 (Nat.not_lt_of_ge hshort)
      rw [if_neg hfits, Nat.sub_eq_zero_of_le hshort, List.drop_zero]
      rcases Nat.lt_or_ge lines.toNat (endedPieces newline content).length with hmore | hall
      · rw [selectTail_lines path hn hcontent hmore, Nat.min_eq_left (Nat.le_of_lt hmore)]
        rfl
      · rw [selectTail_all path hn hcontent hall, if_neg (by simp), lastPieces_of_length_le hall, Nat.min_eq_right hall]
        rfl

/-! ## What the tail promises -/

/-- The last `k` lines of the log are the last lines of `s`, an end of the log. -/
structure HoldsLast (content : Bytes) (k : Nat) (s : Bytes) : Prop where
  suffix : s <:+ content
  lines : (endedPieces newline content).drop ((endedPieces newline content).length - k) <:+ endedPieces newline s

/-- The shortest end of the log that holds its last `n` lines, or all of its lines when it has fewer, and the number
of lines of that end. -/
structure SelectsLast (content : Bytes) (n : Nat) (selected : Bytes) (count : Nat) : Prop where
  holds : HoldsLast content (min n (endedPieces newline content).length) selected
  shortest : ∀ s, HoldsLast content (min n (endedPieces newline content).length) s → selected.length ≤ s.length
  count_eq : count = (endedPieces newline selected).length
  count_min : count = min n (endedPieces newline content).length

/-- The last lines do not fit in the window of a longer log. -/
def Overflows (content : Bytes) (lines : Nat) : Prop :=
  maxLogTailBytes < content.length ∧ maxLogTailBytes < (lastPieces newline lines content).length

/-- The tail fails with the scan limit exactly when the last lines do not fit, and selects them otherwise; following starts
where the selection ends. -/
def TailsLastLines (content : Bytes) (lines : UInt32) (path : String) : Prop :=
  (Overflows content lines.toNat ∧ tailLog (.of content) lines path = .error (scanLimitError path)) ∨
    (¬ Overflows content lines.toNat ∧ ∃ selected count,
      tailLog (.of content) lines path = .ok (selected, count, content.length) ∧
        SelectsLast content lines.toNat selected count.toNat)

theorem selectsLast_lastPieces (content : Bytes) (n : Nat) :
    SelectsLast content n (lastPieces newline n content) (min n (endedPieces newline content).length) := by
  have hk : (endedPieces newline content).length - min n (endedPieces newline content).length =
      (endedPieces newline content).length - n := by omega
  constructor
  case holds =>
    have hlines : endedPieces newline (lastPieces newline n content) = (endedPieces newline content).drop
        ((endedPieces newline content).length - min n (endedPieces newline content).length) := by
      rw [endedPieces_lastPieces, hk]
    exact ⟨lastPieces_suffix n content, hlines ▸ List.suffix_rfl⟩
  case shortest =>
    rintro s ⟨-, before, hlines⟩
    have hs := congrArg List.flatten hlines
    rw [hk, List.flatten_append, flatten_endedPieces] at hs
    rw [← hs, List.length_append]
    exact Nat.le_add_left _ _
  case count_eq => exact (length_endedPieces_lastPieces n content).symm
  case count_min => rfl

/-- The tail keeps its promise unless the last lines are as long as the window of a longer log: the loop does not see the
newline before the window. -/
theorem tailLog_exact (content : Bytes) (lines : UInt32) (path : String) :
    TailsLastLines content lines path ↔
      ¬ (maxLogTailBytes < content.length ∧ (lastPieces newline lines.toNat content).length = maxLogTailBytes) := by
  have hcount : (UInt32.ofNat (min lines.toNat (endedPieces newline content).length)).toNat =
      min lines.toNat (endedPieces newline content).length :=
    Nat.mod_eq_of_lt (Nat.lt_of_le_of_lt (Nat.min_le_left ..) lines.toNat_lt)
  have hselects := selectsLast_lastPieces content lines.toNat
  rw [TailsLastLines, tailLog_eq]
  by_cases hfill : FillsWindow content lines.toNat
  · rw [if_pos hfill]
    simp only [and_true, reduceCtorEq, false_and, exists_false, and_false, or_false]
    obtain ⟨hlong, hlast⟩ := hfill
    constructor
    · rintro ⟨-, hover⟩ ⟨-, heq⟩
      exact Nat.lt_irrefl _ (heq ▸ hover)
    · intro h
      exact ⟨hlong, Nat.lt_of_le_of_ne hlast fun heq => h ⟨hlong, heq.symm⟩⟩
  · have hfits : ¬ Overflows content lines.toNat := fun h => hfill ⟨h.1, Nat.le_of_lt h.2⟩
    rw [if_neg hfill]
    refine ⟨fun _ heq => hfill ⟨heq.1, Nat.le_of_eq heq.2.symm⟩, fun _ => .inr ⟨hfits, _, _, rfl, ?_⟩⟩
    rw [hcount]
    exact hselects

/-- A line without a newline that follows a newline is the last line. -/
theorem lastPieces_replicate {n : Nat} (hn : n ≠ 0) :
    lastPieces newline 1 (120 :: newline :: List.replicate n 121) = List.replicate n 121 := by
  have hnot : newline ∉ List.replicate n (121 : UInt8) := fun h => absurd (List.eq_of_mem_replicate h) (by decide)
  have hnil : List.replicate n (121 : UInt8) ≠ [] := mt (List.replicate_eq_nil_iff _).mp hn
  have hlast : (List.replicate n (121 : UInt8)).getLast? ≠ some newline := fun h => hnot (List.mem_of_getLast? h)
  have hcut : ([120, newline] : Bytes).getLast? = some newline := rfl
  have hone : (endedPieces newline (List.replicate n (121 : UInt8))).length = 1 := by
    rw [length_endedPieces, List.count_eq_zero.mpr hnot, if_neg (not_or.mpr ⟨hnil, hlast⟩)]
  exact lastPieces_of_append hcut hone

/-- A log of one short line and one line of the length of the window. -/
def fullWindowLog : Bytes := 120 :: newline :: List.replicate maxLogTailBytes 121

/-- The last line of that log is 8388608 bytes long and is refused, for a limit of 8388608 bytes. -/
theorem tailLog_fullWindow : ¬ TailsLastLines fullWindowLog 1 "console.log" := by
  have hlen : (lastPieces newline (1 : UInt32).toNat fullWindowLog).length = maxLogTailBytes := by
    rw [UInt32.toNat_one, fullWindowLog, lastPieces_replicate (by decide), List.length_replicate]
  have hlong : maxLogTailBytes < fullWindowLog.length := by
    rw [fullWindowLog, List.length_cons, List.length_cons, List.length_replicate]
    omega
  rw [TailsLastLines, tailLog_eq, if_pos ⟨hlong, Nat.le_of_eq hlen.symm⟩]
  rintro (⟨⟨-, hover⟩, -⟩ | ⟨-, _, _, hok, -⟩)
  · rw [hlen] at hover
    exact Nat.lt_irrefl _ hover
  · cases hok

end Firestone.Machine.Logs
