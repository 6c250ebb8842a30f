import Firestone.Lib.LossyText
import Firestone.Machine.LogTail

/-!
# Following a log

`firestone logs -f` shows the tail of a log and then, pass after pass, what was appended to it. Every pass reads at most a chunk
and turns it into text on its own.

* `startFollow`, `poll` — the tail and one pass of the loop.
* `World`, `step` — a log that is appended to while it is followed.
* `poll_reads` — what a pass reads and prints.
* `logs_until_exact` — the text is the reading of the tail and of what was appended exactly when no pass cuts a character.
-/

namespace Firestone.Machine.Logs

open Firestone.Lib

def maxLogLines : Nat := 100000

def logFollowChunkBytes : Nat := 256 * 1024

/-- A log file; its identity tells it from the file that a rotation puts in its place. -/
structure LogFile where
  identity : Nat × Nat
  log : OpenLog

/-- What the path of a log names at a pass: nothing, no answer, or a file and the answer to opening it. -/
inductive AtPath
  | missing
  | failed
  | found (file : LogFile) (opens : Res Unit)

/-- What the loop keeps: the open file, the offset up to which it was read, and the texts that were printed. The offset
never passes the length of a file, so it has 64 bits. -/
structure Follow where
  identity : Nat × Nat
  offset : Nat
  output : List String

def Follow.print (s : Follow) (data : Bytes) : Follow :=
  if data = [] then s else { s with output := s.output ++ [fromUtf8Lossy data] }

/-- The text that was printed so far. -/
def Follow.text (s : Follow) : String := String.join s.output

/-- The part of `logs_until` before its loop, for a log that exists. -/
def startFollow (file : LogFile) (lines : UInt32) (path : String) : Res Follow := do
  if lines.toNat > maxLogLines then
    throw ((FirestoneError.new .usage ("log line count exceeds the " ++ toString maxLogLines ++ " line limit")).withHint
      ("pass -n " ++ toString maxLogLines ++ " or fewer"))
  let (initial, _, offset) ← tailLog file.log lines path
  let s : Follow := { identity := file.identity, offset := offset, output := [] }
  file.log.call "open log" path .inspect
  return s.print initial

/-- The rest of a pass, on the file that is open. -/
def readChunk (log : OpenLog) (path : String) (s : Follow) : Res Follow := do
  log.call "followed log" path .inspect
  let length := log.content.length
  let offset := if length < s.offset then 0 else s.offset
  if length > offset then
    log.call "followed log" path .seek
    let count := min (length - offset) logFollowChunkBytes
    log.call "followed log" path .read
    let chunk := (log.content.drop offset).take count
    return { s with offset := offset + chunk.length }.print chunk
  else return { s with offset := offset }

/-- One pass of the loop: a missing log is waited for, and another file at the path is read from its start. -/
def poll (atPath : AtPath) (path : String) (s : Follow) : Res Follow :=
  match atPath with
  | .missing => .ok s
  | .failed => .error ((FirestoneError.new .generic ("cannot inspect followed log " ++ path)).withHint
      "check the machine log permissions")
  | .found file opens =>
    if file.identity = s.identity then readChunk file.log path s
    else do
      opens
      file.log.call "reopened log" path .inspect
      readChunk file.log path { s with identity := file.identity, offset := 0 }

/-! ## Following a log that grows -/

/-- A log and the process that follows it. -/
structure World where
  file : LogFile
  follow : Follow

inductive Act
  | append (data : Bytes)
  | poll
  deriving DecidableEq, Repr

def step (path : String) (w : World) : Act → Res World
  | .append data => .ok { w with file := { w.file with log := { w.file.log with content := w.file.log.content ++ data } } }
  | .poll => return { w with follow := ← poll (.found w.file (.ok ())) path w.follow }

/-- The tail, and then appends and passes in the given order. -/
def followRun (file : LogFile) (lines : UInt32) (path : String) (acts : List Act) : Res World := do
  let s ← startFollow file lines path
  acts.foldlM (step path) ⟨file, s⟩

def Act.data : Act → Bytes
  | .append data => data
  | .poll => []

/-- The bytes that a run appends. -/
def appended (acts : List Act) : Bytes := acts.flatMap Act.data

/-- No pass ends or starts inside a character: `read` are the bytes read so far and `pending` those still to read. -/
def CutsBetweenChars : Bytes → Bytes → List Act → Prop
  | _, _, [] => True
  | read, pending, .append data :: acts => CutsBetweenChars read (pending ++ data) acts
  | read, pending, .poll :: acts =>
    ReadsTo (read ++ pending.take logFollowChunkBytes) (pending.take logFollowChunkBytes) ∧
      CutsBetweenChars (read ++ pending.take logFollowChunkBytes) (pending.drop logFollowChunkBytes) acts

/-! ## One step -/

@[simp] theorem Follow.print_identity (s : Follow) (data : Bytes) : (s.print data).identity = s.identity := by
  rw [Follow.print]
  split <;> rfl

@[simp] theorem Follow.print_offset (s : Follow) (data : Bytes) : (s.print data).offset = s.offset := by
  rw [Follow.print]
  split <;> rfl

theorem Follow.print_text (s : Follow) (data : Bytes) :
    (s.print data).text.toList = s.text.toList ++ lossyText data := by
  rw [Follow.print]
  split
  · next h => rw [h, lossyText_nil, List.append_nil]
  · rw [Follow.text, String.join_append, String.toList_append, fromUtf8Lossy_eq]
    simp [Follow.text]

/-- A pass over a log whose calls succeed. -/
theorem readChunk_of {content : Bytes} {s : Follow} (path : String) (h : s.offset ≤ content.length) :
    readChunk (.of content) path s =
      .ok (({ s with offset := s.offset + ((content.drop s.offset).take logFollowChunkBytes).length } : Follow).print
        ((content.drop s.offset).take logFollowChunkBytes)) := by
  have hcontent : (OpenLog.of content).content = content := rfl
  have hcount : (content.drop s.offset).take (min (content.length - s.offset) logFollowChunkBytes) =
      (content.drop s.offset).take logFollowChunkBytes := by
    rw [List.take_eq_take_iff, List.length_drop]
    omega
  simp only [readChunk, OpenLog.of_call, hcontent, if_neg (Nat.not_lt.mpr h)]
  by_cases hmore : s.offset < content.length
  · rw [if_pos hmore, hcount]
    rfl
  · rw [if_neg hmore, List.drop_of_length_le (Nat.not_lt.mp hmore)]
    rfl

/-- The log is what the tail skipped, what was read and what is still to be read. -/
structure Reads (skipped read pending : Bytes) (w : World) : Prop where
  log : w.file.log = .of (skipped ++ read ++ pending)
  identity : w.file.identity = w.follow.identity
  offset : w.follow.offset = (skipped ++ read).length

variable {skipped read pending : Bytes} (path : String) {w : World}

theorem Reads.length_content (h : Reads skipped read pending w) :
    w.file.log.content.length = w.follow.offset + pending.length := by
  rw [h.log, h.offset, OpenLog.of, List.length_append]

theorem append_reads (h : Reads skipped read pending w) (data : Bytes) :
    ∃ w', step path w (.append data) = .ok w' ∧ Reads skipped read (pending ++ data) w' ∧ w'.follow = w.follow := by
  refine ⟨_, rfl, ⟨?_, h.identity, h.offset⟩, rfl⟩
  simp only [h.log, OpenLog.of, List.append_assoc]

/-- A pass reads the next chunk and prints its reading. -/
theorem poll_reads (h : Reads skipped read pending w) :
    ∃ w', step path w .poll = .ok w' ∧
      Reads skipped (read ++ pending.take logFollowChunkBytes) (pending.drop logFollowChunkBytes) w' ∧
      w'.follow.text.toList = w.follow.text.toList ++ lossyText (pending.take logFollowChunkBytes) := by
  have hdrop : (skipped ++ read ++ pending).drop w.follow.offset = pending := by rw [h.offset, List.drop_left]
  have hle : w.follow.offset ≤ (skipped ++ read ++ pending).length := by
    rw [h.offset, @List.length_append _ (skipped ++ read)]
    exact Nat.le_add_right _ _
  have hchunk := readChunk_of path hle
  rw [hdrop] at hchunk
  generalize hnext : Follow.print _ _ = next at hchunk
  have hstep : step path w .poll = .ok { w with follow := next } := by
    rw [step, poll, if_pos h.identity, h.log, hchunk]
    rfl
  refine ⟨_, hstep, ⟨?_, ?_, ?_⟩, ?_⟩
  · rw [List.append_assoc skipped, List.append_assoc read, List.take_append_drop, ← List.append_assoc]
    exact h.log
  · rw [← hnext, Follow.print_identity]
    exact h.identity
  · rw [← hnext, Follow.print_offset, h.offset, ← List.append_assoc, @List.length_append _ (skipped ++ read)]
  · rw [← hnext, Follow.print_text]
    rfl

/-! ## Runs -/

theorem appended_cons (a : Act) (acts : List Act) : appended (a :: acts) = a.data ++ appended acts := rfl

/-- The text of a run: what was read follows the bytes read before, and its reading was printed unless a pass cut a character. -/
theorem run_reads (acts : List Act) (h : Reads skipped read pending w) (hlen : (lossyText read).length ≤ w.follow.text.toList.length) :
    ∃ w' more rest, acts.foldlM (step path) w = .ok w' ∧ Reads skipped (read ++ more) rest w' ∧
      more ++ rest = pending ++ appended acts ∧
      (w'.follow.text.toList = lossyText (read ++ more) ↔
        w.follow.text.toList = lossyText read ∧ CutsBetweenChars read pending acts) := by
  induction acts generalizing read pending w with
  | nil =>
    refine ⟨w, [], pending, rfl, by rwa [List.append_nil], by simp [appended], ?_⟩
    rw [List.append_nil, CutsBetweenChars, and_true]
  | cons a acts ih =>
    cases a with
    | append data =>
      obtain ⟨w₁, hstep, hreads, hfollow⟩ := append_reads path h data
      obtain ⟨w', more, rest, hrun, hr, hbytes, htext⟩ := ih hreads (by rw [hfollow]; exact hlen)
      refine ⟨w', more, rest, ?_, hr, ?_, ?_⟩
      · rw [List.foldlM_cons, hstep]
        exact hrun
      · rw [hbytes, appended_cons, List.append_assoc]
        rfl
      · rw [htext, hfollow]
        rfl
    | poll =>
      obtain ⟨w₁, hstep, hreads, hprinted⟩ := poll_reads path h
      set chunk := pending.take logFollowChunkBytes with hchunk
      have hcut := lossyText_append read chunk
      have hlen₁ : (lossyText (read ++ chunk)).length ≤ w₁.follow.text.toList.length := by
        rw [hprinted, List.length_append]
        rcases hcut with ⟨-, hjoin⟩ | ⟨-, hlt⟩
        · rw [hjoin, List.length_append]
          omega
        · omega
      obtain ⟨w', more, rest, hrun, hr, hbytes, htext⟩ := ih hreads hlen₁
      refine ⟨w', chunk ++ more, rest, ?_, ?_, ?_, ?_⟩
      · rw [List.foldlM_cons, hstep]
        exact hrun
      · rw [← List.append_assoc]
        exact hr
      · rw [List.append_assoc, hbytes, ← List.append_assoc, hchunk, List.take_append_drop]
        rfl
      · rw [← List.append_assoc, htext, hprinted, CutsBetweenChars, ← hchunk]
        rcases hcut with ⟨hclean, hjoin⟩ | ⟨hdirty, hlt⟩
        · rw [hjoin, List.append_cancel_right_eq]
          tauto
        · constructor
          · rintro ⟨hsame, -⟩
            have := congrArg List.length hsame
            rw [List.length_append] at this
            omega
          · rintro ⟨-, hclean, -⟩
            exact absurd hclean hdirty

/-- Passes without appends read what is pending. -/
theorem polls_read (passes : Nat) (h : Reads skipped read pending w) :
    ∃ w', (List.replicate passes Act.poll).foldlM (step path) w = .ok w' ∧
      Reads skipped (read ++ pending.take (passes * logFollowChunkBytes)) (pending.drop (passes * logFollowChunkBytes)) w' := by
  induction passes generalizing read pending w with
  | zero => exact ⟨w, rfl, by simpa using h⟩
  | succ passes ih =>
    obtain ⟨w₁, hstep, hreads, -⟩ := poll_reads path h
    obtain ⟨w', hrun, hr⟩ := ih hreads
    refine ⟨w', ?_, ?_⟩
    · rw [List.replicate_succ, List.foldlM_cons, hstep]
      exact hrun
    · rw [Nat.succ_mul, Nat.add_comm, List.take_add, ← List.append_assoc, ← List.drop_drop]
      exact hr

theorem text_eq_iff (s : Follow) (data : Bytes) : s.text = fromUtf8Lossy data ↔ s.text.toList = lossyText data := by
  rw [fromUtf8Lossy_eq, ← String.toList_inj, String.toList_ofList]

section Follow

variable {path} {content selected : Bytes} {lines count : UInt32} {endOffset : Nat} (identity : Nat × Nat)

theorem startFollow_eq (hlines : lines.toNat ≤ maxLogLines)
    (htail : tailLog (.of content) lines path = .ok (selected, count, endOffset)) :
    startFollow ⟨identity, .of content⟩ lines path =
      .ok (Follow.print { identity := identity, offset := endOffset, output := [] } selected) := by
  rw [startFollow, if_neg (Nat.not_lt.mpr hlines)]
  simp only [htail, OpenLog.of_call]
  rfl

/-- The tail is the end of the log, and following starts at the end. -/
theorem tailLog_split (htail : tailLog (.of content) lines path = .ok (selected, count, endOffset)) :
    ∃ skipped, content = skipped ++ selected ∧ endOffset = content.length := by
  rw [tailLog_eq] at htail
  split at htail
  · cases htail
  · obtain ⟨rfl, -, rfl⟩ : _ ∧ _ ∧ _ := by simpa only [Except.ok.injEq, Prod.mk.injEq] using htail
    obtain ⟨skipped, hskipped⟩ := lastPieces_suffix (x := newline) lines.toNat content
    exact ⟨skipped, hskipped.symm, rfl⟩

theorem followRun_reads (hlines : lines.toNat ≤ maxLogLines)
    (htail : tailLog (.of content) lines path = .ok (selected, count, endOffset)) (acts : List Act) :
    ∃ skipped w more rest, endOffset = (skipped ++ selected).length ∧
      followRun ⟨identity, .of content⟩ lines path acts = .ok w ∧
      Reads skipped (selected ++ more) rest w ∧ more ++ rest = appended acts ∧
      (w.follow.text.toList = lossyText (selected ++ more) ↔ CutsBetweenChars selected [] acts) := by
  obtain ⟨skipped, hcontent, hend⟩ := tailLog_split htail
  have hstart : Reads skipped selected []
      ⟨⟨identity, .of content⟩, Follow.print { identity := identity, offset := endOffset, output := [] } selected⟩ :=
    ⟨by rw [hcontent, List.append_nil], by rw [Follow.print_identity], by rw [Follow.print_offset, hend, hcontent]⟩
  have htext : (Follow.print { identity := identity, offset := endOffset, output := [] } selected).text.toList =
      lossyText selected := by
    rw [Follow.print_text]
    rfl
  obtain ⟨w, more, rest, hrun, hreads, hbytes, hiff⟩ := run_reads path acts hstart (Nat.le_of_eq (by rw [htext]))
  refine ⟨skipped, w, more, rest, by rw [hend, hcontent], ?_, hreads, by rw [hbytes]; rfl, ?_⟩
  · rw [followRun, startFollow_eq identity hlines htail]
    exact hrun
  · rw [hiff, htext]
    exact and_iff_right rfl

/-- After as many passes as the appended bytes have chunks, nothing is pending. -/
theorem followRun_caughtUp (hlines : lines.toNat ≤ maxLogLines)
    (htail : tailLog (.of content) lines path = .ok (selected, count, endOffset)) (acts : List Act) {passes : Nat}
    (hpasses : (appended acts).length ≤ passes * logFollowChunkBytes) :
    ∃ w, followRun ⟨identity, .of content⟩ lines path (acts ++ List.replicate passes .poll) = .ok w ∧
      w.file.log.content.length = w.follow.offset := by
  obtain ⟨skipped, w, more, rest, -, hrun, hreads, hbytes, -⟩ := followRun_reads identity hlines htail acts
  obtain ⟨w', hpolls, hr⟩ := polls_read path passes hreads
  have hlen := congrArg List.length hbytes
  rw [List.length_append] at hlen
  refine ⟨w', ?_, ?_⟩
  · rw [followRun, startFollow_eq identity hlines htail] at hrun ⊢
    change acts.foldlM (step path) _ = _ at hrun
    change (acts ++ _).foldlM (step path) _ = _
    rw [List.foldlM_append, hrun]
    exact hpolls
  · rw [hr.length_content, List.length_drop]
    omega

end Follow

theorem appended_polls (acts : List Act) (passes : Nat) :
    appended (acts ++ List.replicate passes .poll) = appended acts := by
  rw [appended, List.flatMap_append]
  simp [appended, Act.data]

/-! ## What following promises -/

/-- The run prints the reading of the tail and of the appended bytes that were read. -/
def FollowsExactly (file : LogFile) (lines : UInt32) (path : String) (selected : Bytes) (endOffset : Nat)
    (acts : List Act) : Prop :=
  ∃ w, followRun file lines path acts = .ok w ∧
    w.follow.text = fromUtf8Lossy (selected ++ (appended acts).take (w.follow.offset - endOffset))

section Promise

variable {content selected : Bytes} {lines count : UInt32} {endOffset : Nat} {path : String} (identity : Nat × Nat)

theorem followsExactly_iff (hlines : lines.toNat ≤ maxLogLines)
    (htail : tailLog (.of content) lines path = .ok (selected, count, endOffset)) (acts : List Act) :
    FollowsExactly ⟨identity, .of content⟩ lines path selected endOffset acts ↔ CutsBetweenChars selected [] acts := by
  obtain ⟨skipped, w, more, rest, hend, hrun, hreads, hbytes, htext⟩ := followRun_reads identity hlines htail acts
  have hread : (appended acts).take (w.follow.offset - endOffset) = more := by
    rw [hreads.offset, hend, ← List.append_assoc, List.length_append, Nat.add_sub_cancel_left, ← hbytes, List.take_left]
  rw [FollowsExactly, ← htext, ← hread, ← text_eq_iff]
  constructor
  · rintro ⟨w', hrun', h⟩
    obtain rfl : w = w' := Except.ok.inj (hrun.symm.trans hrun')
    exact h
  · exact fun h => ⟨w, hrun, h⟩

/-- When nothing is pending, all the appended bytes were read. -/
theorem followRun_caughtUp_iff (hlines : lines.toNat ≤ maxLogLines)
    (htail : tailLog (.of content) lines path = .ok (selected, count, endOffset)) {acts : List Act} {w : World}
    (hrun : followRun ⟨identity, .of content⟩ lines path acts = .ok w)
    (hcaught : w.file.log.content.length = w.follow.offset) :
    w.follow.text = fromUtf8Lossy (selected ++ appended acts) ↔ CutsBetweenChars selected [] acts := by
  obtain ⟨skipped, w', more, rest, -, hrun', hreads, hbytes, htext⟩ := followRun_reads identity hlines htail acts
  obtain rfl : w = w' := Except.ok.inj (hrun.symm.trans hrun')
  have hrest : rest = [] := List.length_eq_zero_iff.mp (by have := hreads.length_content; omega)
  rw [hrest, List.append_nil] at hbytes
  rw [← htext, hbytes, ← text_eq_iff]

end Promise

/-- **Following a log** prints the reading of the tail and of the appended bytes exactly when no pass cuts a character; after
enough passes these are all the bytes that were appended. -/
theorem logs_until_exact {content selected : Bytes} {lines count : UInt32} {endOffset : Nat} {path : String}
    (identity : Nat × Nat) (hlines : lines.toNat ≤ maxLogLines)
    (htail : tailLog (.of content) lines path = .ok (selected, count, endOffset)) (acts : List Act) :
    (FollowsExactly ⟨identity, .of content⟩ lines path selected endOffset acts ↔ CutsBetweenChars selected [] acts) ∧
    ∀ passes, (appended acts).length ≤ passes * logFollowChunkBytes →
      ∃ w, followRun ⟨identity, .of content⟩ lines path (acts ++ List.replicate passes .poll) = .ok w ∧
        (w.follow.text = fromUtf8Lossy (selected ++ appended acts) ↔
          CutsBetweenChars selected [] (acts ++ List.replicate passes .poll)) := by
  refine ⟨followsExactly_iff identity hlines htail acts, fun passes hpasses => ?_⟩
  obtain ⟨w, hrun, hcaught⟩ := followRun_caughtUp identity hlines htail acts hpasses
  have htext := followRun_caughtUp_iff identity hlines htail hrun hcaught
  rw [appended_polls] at htext
  exact ⟨w, hrun, htext⟩

theorem tailLog_ascii : tailLog (.of [0x61, newline]) 1 "console.log" = .ok ([0x61, newline], 1, 2) := by
  rw [tailLog_eq]
  decide

/-- A log of characters of one byte is followed exactly. -/
theorem logs_until_ascii : FollowsExactly ⟨(1, 1), .of [0x61, newline]⟩ 1 "console.log" [0x61, newline] 2
    [.append [0x62], .poll, .append [newline], .poll] := by
  refine (logs_until_exact (1, 1) (by decide) tailLog_ascii _).1.mpr ⟨?_, ?_, trivial⟩
  · exact readsTo_append_iff.mpr (by decide)
  · exact readsTo_append_iff.mpr (by decide)

theorem tailLog_euro : tailLog (.of [0xE2]) 1 "console.log" = .ok ([0xE2], 1, 1) := by
  rw [tailLog_eq]
  decide

/-- A log that holds the first byte of a euro sign when it is opened, and the other two at the next pass. -/
theorem logs_until_euro :
    ¬ FollowsExactly ⟨(1, 1), .of [0xE2]⟩ 1 "console.log" [0xE2] 1 [.append [0x82, 0xAC], .poll] := by
  rw [followsExactly_iff (1, 1) (by decide) tailLog_euro]
  rintro ⟨hcut, -⟩
  exact absurd (readsTo_append_iff.mp hcut) (by decide)

end Firestone.Machine.Logs
