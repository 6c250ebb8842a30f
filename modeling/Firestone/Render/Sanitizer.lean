import Firestone.Lib.Services
import Firestone.Lib.Text

/-!
# The log sanitiser

What a guest prints is shown on terminals and in browsers. The sanitiser lets text, line structure and colour through and
replaces every other control character or sequence by U+FFFD.

* `TerminalSanitizer.step` — the state machine, one character at a time.
* `Safe` — text that the sanitiser leaves as it is.
* `sanitize_exact` — the output is safe and has the lines of the input, safe text stays, and it does not matter where the
  input is cut.
* `logsBody_flatten` — the body of a followed log is the sanitised text of all its events.

Texts are lists of characters.
-/

namespace Firestone.Render

open Firestone.Lib

def escape : Char := '\x1b'

def replacement : Char := '\uFFFD'

def maxCsiParameterBytes : Nat := 16

inductive SanitizerState
  | text
  | esc
  | csi
  /-- A CSI that can no longer be SGR. -/
  | csiDiscard
  | escIntermediate
  /-- An OSC, DCS, APC, PM or SOS body. -/
  | stringBody
  /-- An escape inside a string body. -/
  | stringEsc
  deriving DecidableEq, Repr

structure TerminalSanitizer where
  state : SanitizerState
  parameters : List Char
  deriving DecidableEq, Repr

namespace TerminalSanitizer

def new : TerminalSanitizer := ⟨.text, []⟩

variable (s : TerminalSanitizer) (c : Char)

/-- In plain text: line structure stays, a control character is replaced. -/
def stepText : List Char × TerminalSanitizer :=
  if c = escape then ([], { s with state := .esc })
  else if c = '\n' || c = '\r' || c = '\t' then ([c], s)
  else if isControl c then ([replacement], s)
  else ([c], s)

/-- The open sequence is given up, and the character is read as text. -/
def abort : List Char × TerminalSanitizer :=
  let (out, s) := stepText { s with state := .text } c
  (replacement :: out, s)

/-- The open sequence ends here. -/
def close : List Char × TerminalSanitizer := ([replacement], { s with state := .text })

def inRange (low high : Nat) : Bool := low ≤ c.toNat && c.toNat ≤ high

def isStringIntroducer : Bool := c = ']' || c = 'P' || c = '_' || c = '^' || c = 'X'

def stepEscape : List Char × TerminalSanitizer :=
  let s := { s with parameters := [] }
  if c = escape then ([replacement], s)
  else if c = '[' then ([], { s with state := .csi })
  else if isStringIntroducer c then ([], { s with state := .stringBody })
  else if inRange c 0x20 0x2f then ([], { s with state := .escIntermediate })
  else if isControl c then s.abort c
  else s.close

def isParameter : Bool := c.isDigit || c = ';'

def discardCsi : List Char × TerminalSanitizer := ([], ⟨.csiDiscard, []⟩)

def stepCsi : List Char × TerminalSanitizer :=
  if isParameter c && s.parameters.length < maxCsiParameterBytes then
    ([], { s with parameters := s.parameters ++ [c] })
  else if isParameter c then discardCsi
  else if c = 'm' then (escape :: '[' :: s.parameters ++ ['m'], ⟨.text, []⟩)
  else if inRange c 0x40 0x7e then close { s with parameters := [] }
  else if inRange c 0x20 0x3f then discardCsi
  else if c = escape then ([replacement], ⟨.esc, []⟩)
  else if isControl c then abort { s with parameters := [] } c
  else discardCsi

def stepCsiDiscard : List Char × TerminalSanitizer :=
  if inRange c 0x40 0x7e then s.close
  else if c = escape then ([replacement], { s with state := .esc })
  else if isControl c then s.abort c
  else ([], s)

def stepEscapeIntermediate : List Char × TerminalSanitizer :=
  if inRange c 0x20 0x2f then ([], s)
  else if c = escape then ([replacement], { s with state := .esc })
  else if isControl c then s.abort c
  else s.close

/-- An unterminated string does not swallow the lines that follow. -/
def stepStringBody : List Char × TerminalSanitizer :=
  if c = '\x07' then s.close
  else if c = escape then ([], { s with state := .stringEsc })
  else if isControl c then s.abort c
  else ([], s)

def stepStringEscape : List Char × TerminalSanitizer :=
  if c = '\\' then s.close
  else if c = escape then ([], s)
  else if isControl c then s.abort c
  else ([], { s with state := .stringBody })

def step : Service TerminalSanitizer Char (List Char) := fun s c =>
  match s.state with
  | .text => s.stepText c
  | .esc => s.stepEscape c
  | .csi => s.stepCsi c
  | .csiDiscard => s.stepCsiDiscard c
  | .escIntermediate => s.stepEscapeIntermediate c
  | .stringBody => s.stepStringBody c
  | .stringEsc => s.stepStringEscape c

/-- What a chunk gives; characters of an incomplete sequence are held back. -/
def push (chunk : List Char) : List Char × TerminalSanitizer := ((step.answers s chunk).flatten, step.after s chunk)

/-- A sequence that is still open at the end is replaced. -/
def finish : List Char := if s.state = .text then [] else [replacement]

/-- The outputs of all chunks, and of the end. -/
def pushAll : List (List Char) → TerminalSanitizer → List Char
  | [], s => s.finish
  | chunk :: chunks, s => (s.push chunk).1 ++ pushAll chunks (s.push chunk).2

end TerminalSanitizer

def sanitizeTerminalOutput (value : List Char) : List Char :=
  let (out, s) := TerminalSanitizer.new.push value
  out ++ s.finish

/-! ## Safe text -/

/-- Line structure. -/
def isLine (c : Char) : Bool := c = '\n' || c = '\r' || c = '\t'

/-- A complete colour sequence has so many digits and semicolons at most. -/
structure Parameters (p : List Char) : Prop where
  all : ∀ c ∈ p, TerminalSanitizer.isParameter c = true
  bound : p.length ≤ maxCsiParameterBytes

inductive Safe : List Char → Prop
  | nil : Safe []
  | char {c : Char} {s : List Char} (hc : isControl c = false ∨ isLine c = true) (hs : Safe s) : Safe (c :: s)
  | colour {p s : List Char} (hp : Parameters p) (hs : Safe s) : Safe (escape :: '[' :: (p ++ 'm' :: s))

theorem Safe.append {s t : List Char} (hs : Safe s) (ht : Safe t) : Safe (s ++ t) := by
  induction hs with
  | nil => exact ht
  | char hc _ ih => exact .char hc ih
  | colour hp _ ih =>
    rw [List.cons_append, List.cons_append, List.append_assoc]
    exact .colour hp ih

/-! ## One step -/

/-- What a step gives is safe, keeps the character if it is line structure, and leaves the parameters within bounds. -/
structure Good (c : Char) (r : List Char × TerminalSanitizer) : Prop where
  safe : Safe r.1
  lines : r.1.filter isLine = [c].filter isLine
  parameters : Parameters r.2.parameters

theorem isLine_of_ge {c : Char} (h : 0x20 ≤ c.toNat) : isLine c = false := by
  simp only [isLine, Bool.or_eq_false_iff, decide_eq_false_iff_not]
  refine ⟨⟨?_, ?_⟩, ?_⟩ <;> rintro rfl <;> exact absurd h (by decide)

theorem isLine_of_inRange {c : Char} {low high : Nat} (hlow : 0x20 ≤ low)
    (h : TerminalSanitizer.inRange c low high = true) : isLine c = false := by
  simp only [TerminalSanitizer.inRange, Bool.and_eq_true, decide_eq_true_eq] at h
  exact isLine_of_ge (by omega)

theorem isLine_of_not_control {c : Char} (h : isControl c = false) : isLine c = false := by
  refine isLine_of_ge ?_
  simp only [isControl, Bool.or_eq_false_iff, decide_eq_false_iff_not] at h
  omega

theorem Parameters.nil : Parameters [] := ⟨nofun, Nat.zero_le _⟩

theorem safe_replacement : Safe [replacement] := .char (.inl (by decide)) .nil

theorem Good.silent {c : Char} {s : TerminalSanitizer} (hc : isLine c = false) (hp : Parameters s.parameters) :
    Good c ([], s) := ⟨.nil, by simp [hc], hp⟩

theorem Good.replaced {c : Char} {s : TerminalSanitizer} (hc : isLine c = false) (hp : Parameters s.parameters) :
    Good c ([replacement], s) := ⟨safe_replacement, by simp [hc, show isLine replacement = false by decide], hp⟩

namespace TerminalSanitizer

variable {s : TerminalSanitizer} {c : Char}

theorem isLine_escape : isLine escape = false := by decide

theorem stepText_good (h : Parameters s.parameters) : Good c (s.stepText c) := by
  unfold stepText
  split
  · rename_i hc
    exact .silent (hc ▸ isLine_escape) h
  split
  · rename_i hc
    exact ⟨.char (.inr hc) .nil, rfl, h⟩
  rename_i hline
  have hc : isLine c = false := by simpa [isLine] using hline
  split
  · exact .replaced hc h
  · rename_i hcontrol
    exact ⟨.char (.inl (by simpa using hcontrol)) .nil, rfl, h⟩

theorem abort_good (h : Parameters s.parameters) : Good c (s.abort c) := by
  obtain ⟨hsafe, hlines, hp⟩ := stepText_good (c := c) (s := { s with state := .text }) h
  refine ⟨.char (.inl (by decide)) hsafe, ?_, hp⟩
  show (replacement :: _).filter isLine = _
  rw [List.filter_cons_of_neg (by decide)]
  exact hlines

theorem stepEscape_good : Good c (s.stepEscape c) := by
  unfold stepEscape
  simp only
  split
  · rename_i hc
    exact .replaced (hc ▸ isLine_escape) .nil
  split
  · rename_i hc
    exact .silent (hc ▸ by decide) .nil
  split
  · rename_i hc
    simp only [isStringIntroducer, Bool.or_eq_true, decide_eq_true_eq] at hc
    refine .silent ?_ .nil
    rcases hc with (((rfl | rfl) | rfl) | rfl) | rfl <;> decide
  split
  · rename_i hc
    exact .silent (isLine_of_inRange (Nat.le_refl _) hc) .nil
  split
  · exact abort_good .nil
  · rename_i hc
    exact .replaced (isLine_of_not_control (by simpa using hc)) .nil

theorem isLine_of_isParameter (h : isParameter c = true) : isLine c = false := by
  refine isLine_of_ge ?_
  simp only [isParameter, Char.isDigit, Bool.or_eq_true, Bool.and_eq_true, decide_eq_true_eq] at h
  rcases h with ⟨h, _⟩ | rfl
  · exact Nat.le_trans (by decide) h
  · decide

theorem stepCsi_good (h : Parameters s.parameters) : Good c (s.stepCsi c) := by
  unfold stepCsi
  split
  · rename_i hc
    simp only [Bool.and_eq_true, decide_eq_true_eq] at hc
    refine .silent (isLine_of_isParameter hc.1) ⟨fun x hx => ?_, ?_⟩
    · rcases List.mem_append.mp hx with hx | hx
      · exact h.all x hx
      · rw [List.mem_singleton.mp hx]
        exact hc.1
    · rw [List.length_append, List.length_singleton]
      exact hc.2
  split
  · rename_i hc
    exact .silent (isLine_of_isParameter hc) .nil
  split
  · rename_i hc
    -- the sequence is complete
    have hparameters : s.parameters.filter isLine = [] := List.filter_eq_nil_iff.mpr fun x hx => by
      rw [isLine_of_isParameter (h.all x hx)]
      exact Bool.false_ne_true
    refine ⟨?_, ?_, .nil⟩
    · exact .colour h .nil
    · rw [hc]
      show (escape :: '[' :: (s.parameters ++ ['m'])).filter isLine = _
      rw [List.filter_cons_of_neg (by decide), List.filter_cons_of_neg (by decide), List.filter_append, hparameters]
      rfl
  split
  · rename_i hc
    exact .replaced (isLine_of_inRange (by decide) hc) .nil
  split
  · rename_i hc
    exact .silent (isLine_of_inRange (Nat.le_refl _) hc) .nil
  split
  · rename_i hc
    exact .replaced (hc ▸ isLine_escape) .nil
  split
  · exact abort_good .nil
  · rename_i hc
    exact .silent (isLine_of_not_control (by simpa using hc)) .nil

theorem stepCsiDiscard_good (h : Parameters s.parameters) : Good c (s.stepCsiDiscard c) := by
  unfold stepCsiDiscard
  split
  · rename_i hc
    exact .replaced (isLine_of_inRange (by decide) hc) h
  split
  · rename_i hc
    exact .replaced (hc ▸ isLine_escape) h
  split
  · exact abort_good h
  · rename_i hc
    exact .silent (isLine_of_not_control (by simpa using hc)) h

theorem stepEscapeIntermediate_good (h : Parameters s.parameters) : Good c (s.stepEscapeIntermediate c) := by
  unfold stepEscapeIntermediate
  split
  · rename_i hc
    exact .silent (isLine_of_inRange (Nat.le_refl _) hc) h
  split
  · rename_i hc
    exact .replaced (hc ▸ isLine_escape) h
  split
  · exact abort_good h
  · rename_i hc
    exact .replaced (isLine_of_not_control (by simpa using hc)) h

theorem stepStringBody_good (h : Parameters s.parameters) : Good c (s.stepStringBody c) := by
  unfold stepStringBody
  split
  · rename_i hc
    exact .replaced (hc ▸ by decide) h
  split
  · rename_i hc
    exact .silent (hc ▸ isLine_escape) h
  split
  · exact abort_good h
  · rename_i hc
    exact .silent (isLine_of_not_control (by simpa using hc)) h

theorem stepStringEscape_good (h : Parameters s.parameters) : Good c (s.stepStringEscape c) := by
  unfold stepStringEscape
  split
  · rename_i hc
    exact .replaced (hc ▸ by decide) h
  split
  · rename_i hc
    exact .silent (hc ▸ isLine_escape) h
  split
  · exact abort_good h
  · rename_i hc
    exact .silent (isLine_of_not_control (by simpa using hc)) h

theorem step_good (h : Parameters s.parameters) : Good c (step s c) := by
  unfold step
  cases s.state with
  | text => exact stepText_good h
  | esc => exact stepEscape_good
  | csi => exact stepCsi_good h
  | csiDiscard => exact stepCsiDiscard_good h
  | escIntermediate => exact stepEscapeIntermediate_good h
  | stringBody => exact stepStringBody_good h
  | stringEsc => exact stepStringEscape_good h

/-! ## Runs -/

theorem flatten_good {chunk : List Char} {outs : List (List Char)}
    (h : List.Forall₂ (fun c out => Safe out ∧ out.filter isLine = [c].filter isLine) chunk outs) :
    Safe outs.flatten ∧ outs.flatten.filter isLine = chunk.filter isLine := by
  induction h with
  | nil => exact ⟨.nil, rfl⟩
  | @cons c out chunk outs hc _ ih =>
    rw [List.flatten_cons]
    refine ⟨hc.1.append ih.1, ?_⟩
    rw [List.filter_append, hc.2, ih.2, ← List.filter_append]
    rfl

/-- The output of a run is safe and has the lines of what was read. -/
theorem push_good {chunk : List Char} (h : Parameters s.parameters) :
    Safe (s.push chunk).1 ∧ (s.push chunk).1.filter isLine = chunk.filter isLine := by
  have hstep : ∀ s c, Parameters s.parameters →
      (Safe (step s c).1 ∧ (step s c).1.filter isLine = [c].filter isLine) ∧ Parameters (step s c).2.parameters :=
    fun s c h => ⟨⟨(step_good h).safe, (step_good h).lines⟩, (step_good h).parameters⟩
  exact flatten_good (@Service.answers_invariant _ _ _ step (fun s => Parameters s.parameters) _ hstep chunk s h).1

/-- Where a text is cut makes no difference. -/
theorem pushAll_eq : ∀ {chunks : List (List Char)} {s : TerminalSanitizer},
    pushAll chunks s = (s.push chunks.flatten).1 ++ (s.push chunks.flatten).2.finish
  | [], s => rfl
  | chunk :: chunks, s => by
    rw [pushAll, pushAll_eq]
    simp only [push, List.flatten_cons, Service.answers_append, Service.after_append, List.flatten_append,
      List.append_assoc]

theorem finish_good : Safe s.finish ∧ s.finish.filter isLine = [] := by
  unfold finish
  split
  · exact ⟨.nil, rfl⟩
  · exact ⟨safe_replacement, by decide⟩

/-- The parameters of a colour sequence are held back. -/
theorem csi_parameters : ∀ {p q rest : List Char}, Parameters (q ++ p) →
    push ⟨.csi, q⟩ (p ++ 'm' :: rest) = ((escape :: '[' :: (q ++ p ++ ['m'])) ++ (push new rest).1, (push new rest).2)
  | [], q, rest, h => by
    have hm : step ⟨.csi, q⟩ 'm' = (escape :: '[' :: q ++ ['m'], new) := by
      simp [step, stepCsi, isParameter, new, show 'm'.isDigit = false by decide]
    simp only [push, List.nil_append, List.append_nil, Service.answers, Service.after, hm, List.flatten_cons]
    rfl
  | c :: p, q, rest, h => by
    have hc : isParameter c = true := h.all c (List.mem_append_right _ List.mem_cons_self)
    have hlen : q.length < maxCsiParameterBytes := by
      have := h.bound
      rw [List.length_append, List.length_cons] at this
      omega
    have hstep : step ⟨.csi, q⟩ c = ([], ⟨.csi, q ++ [c]⟩) := by
      simp [step, stepCsi, hc, hlen]
    have hrest := @csi_parameters p (q ++ [c]) rest (by simpa using h)
    simp only [push, List.cons_append, Service.answers, Service.after, hstep, List.flatten_cons, List.nil_append] at hrest ⊢
    rw [Prod.mk.injEq] at hrest ⊢
    simpa using hrest

/-- Safe text goes through as it is. -/
theorem push_safe {t : List Char} (h : Safe t) : push new t = (t, new) := by
  induction h with
  | nil => rfl
  | @char c t hc _ ih =>
    have hstep : step new c = ([c], new) := by
      have hescape : c ≠ escape := by
        rintro rfl
        revert hc
        decide
      rcases hc with hc | hc
      · simp [step, new, stepText, hescape, hc]
      · simp [step, new, stepText, hescape, show (c = '\n' ∨ c = '\r') ∨ c = '\t' by simpa [isLine] using hc]
    simp only [push, Service.answers, Service.after, hstep, List.flatten_cons] at ih ⊢
    rw [Prod.mk.injEq] at ih ⊢
    exact ⟨by rw [ih.1]; rfl, ih.2⟩
  | @colour p t hp _ ih =>
    have hescape : step new escape = ([], ⟨.esc, []⟩) := rfl
    have hbracket : step ⟨.esc, []⟩ '[' = ([], ⟨.csi, []⟩) := rfl
    have hrest := @csi_parameters p [] t (by simpa using hp)
    rw [ih] at hrest
    simp only [push, Service.answers, Service.after, hescape, hbracket, List.flatten_cons, List.nil_append] at hrest ⊢
    rw [hrest]
    simp

end TerminalSanitizer

open TerminalSanitizer

/-- **The sanitiser**: wherever the input is cut the output is that of the whole, it is safe, it is the input when that is
safe already, so that sanitising again changes nothing, and it has the lines of the input. -/
theorem sanitize_exact (s : List Char) :
    (∀ chunks : List (List Char), chunks.flatten = s → pushAll chunks new = sanitizeTerminalOutput s) ∧
      Safe (sanitizeTerminalOutput s) ∧ (Safe s → sanitizeTerminalOutput s = s) ∧
      sanitizeTerminalOutput (sanitizeTerminalOutput s) = sanitizeTerminalOutput s ∧
      (sanitizeTerminalOutput s).filter isLine = s.filter isLine := by
  obtain ⟨hsafe, hlines⟩ := @push_good new s Parameters.nil
  obtain ⟨hfinish, hnone⟩ := finish_good (s := (new.push s).2)
  have hout : Safe (sanitizeTerminalOutput s) := hsafe.append hfinish
  have hsame : ∀ {t : List Char}, Safe t → sanitizeTerminalOutput t = t := by
    intro t ht
    show (new.push t).1 ++ (new.push t).2.finish = t
    rw [push_safe ht]
    exact List.append_nil t
  refine ⟨?_, hout, hsame, hsame hout, ?_⟩
  · rintro chunks rfl
    exact pushAll_eq
  · show ((new.push s).1 ++ (new.push s).2.finish).filter isLine = _
    rw [List.filter_append, hlines, hnone, List.append_nil]

/-! ## Followed logs -/

/-- What the stream of a log receives. -/
inductive DispatchMessage
  | output (data : List Char)
  | other

def DispatchMessage.data : DispatchMessage → Option (List Char)
  | .output data => some data
  | .other => none

/-- The rest of the body; a chunk that gives nothing is not sent. -/
def textStream : TerminalSanitizer → List DispatchMessage → List (List Char)
  | s, [] => if s.finish = [] then [] else [s.finish]
  | s, .other :: messages => textStream s messages
  | s, .output data :: messages =>
    if (s.push data).1 = [] then textStream (s.push data).2 messages
    else (s.push data).1 :: textStream (s.push data).2 messages

/-- The body of a response whose first event has this text. -/
def logsBody (first : List Char) (messages : List DispatchMessage) : List (List Char) :=
  let (first, s) := new.push first
  first :: textStream s messages

theorem textStream_flatten : ∀ {messages : List DispatchMessage} {s : TerminalSanitizer},
    (textStream s messages).flatten = pushAll (messages.filterMap DispatchMessage.data) s
  | [], s => by
    rw [textStream]
    split
    · rename_i h
      exact h.symm
    · exact List.append_nil _
  | .other :: messages, s => @textStream_flatten messages s
  | .output data :: messages, s => by
    show _ = (s.push data).1 ++ pushAll (messages.filterMap DispatchMessage.data) (s.push data).2
    rw [textStream, ← textStream_flatten]
    split
    · rename_i h
      rw [h]
      rfl
    · rfl

/-- What a client reads of a log is the sanitised log, however its events are cut. -/
theorem logsBody_flatten (first : List Char) (messages : List DispatchMessage) :
    (logsBody first messages).flatten =
      sanitizeTerminalOutput (first :: messages.filterMap DispatchMessage.data).flatten := by
  show (new.push first).1 ++ (textStream (new.push first).2 messages).flatten = _
  rw [textStream_flatten]
  exact @pushAll_eq (first :: messages.filterMap DispatchMessage.data) new

theorem sanitize_exact_colour :
    let s := "a\tb".toList ++ escape :: "[1;31mred".toList ++ [escape, ']'] ++ "0;title\nend".toList
    Safe (sanitizeTerminalOutput s) ∧
      sanitizeTerminalOutput s = "a\tb".toList ++ escape :: "[1;31mred".toList ++ replacement :: "\nend".toList ∧
      sanitizeTerminalOutput (sanitizeTerminalOutput s) = sanitizeTerminalOutput s := by
  intro s
  obtain ⟨_, hsafe, hsame, _, _⟩ := sanitize_exact s
  exact ⟨hsafe, by decide, (sanitize_exact _).2.2.1 hsafe⟩

end Firestone.Render
