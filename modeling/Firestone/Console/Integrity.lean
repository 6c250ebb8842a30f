import Firestone.Console.Broker

/-!
# Stream integrity of the console broker

* `Inv` — what holds between the streams, the buffers and their offsets; each operation keeps it, and so does `step`
  (`step_inv`). What the active client has received and what is queued for it are together all output since it was
  attached; what was written to the PTY and what is queued for it are together all that was read of the clients.
* `Logged` — the log and the output.
* `broker_streams` — what every run gives: one client at a time, each receives a contiguous part of the output from where
  it was attached, the log is the output, and the input is made of prefixes of what the clients sent.
-/

namespace Firestone.Console

open Firestone.Lib

/-! ## The invariant -/

/-- A connection at its place: what it has received is the acknowledgement and a part of the output. -/
structure ConnInv (active : Option Nat) (output : Bytes) (read : Nat) (i : Nat) (c : Conn) : Prop where
  taken_le : c.taken ≤ c.sent.length
  attached : c.status = .attached → active = some i
  refused : c.status = .refused → c.taken = 0
  received : c.status ≠ .refused → ∃ stop, c.attachedAt ≤ stop ∧ stop ≤ read ∧
    c.received = consoleOk ++ segment output c.attachedAt stop

def ConnsInv (active : Option Nat) (output : Bytes) (read : Nat) (conns : List Conn) : Prop :=
  ∀ i c, conns[i]? = some c → ConnInv active output read i c

/-- The active client is the last one that sent anything, and what it has received and what is queued for it are the whole
output since it was attached. -/
structure ActiveInv (output : Bytes) (read : Nat) (pending : Bytes) (conns : List Conn) (i : Nat) (c : Conn) : Prop where
  conn : conns[i]? = some c
  attached : c.status = .attached
  attachedAt_le : c.attachedAt ≤ read
  queued : c.received ++ pending = consoleOk ++ segment output c.attachedAt read
  last : ∀ j d, i < j → conns[j]? = some d → d.taken = 0

structure Inv (s : St) : Prop where
  ptyRead_le : s.ptyRead ≤ s.ptyOutput.length
  conns : ConnsInv s.active s.ptyOutput s.ptyRead s.conns
  active : ∀ i, s.active = some i → ∃ c, ActiveInv s.ptyOutput s.ptyRead s.clientOutput.rest s.conns i c
  fresh : s.phase = .accept → s.active = none → s.clientOutput = {}
  offset_le : s.clientOutput.offset ≤ s.clientOutput.data.length
  output_le : s.clientOutput.data.length ≤ maxPendingClientOutput
  tidy : s.guestInput.Tidy
  input_le : s.guestInput.data.length ≤ consoleBufferBytes
  input : s.ptyInput ++ s.guestInput.rest = (s.conns.map Conn.input).flatten

section conns

variable {active : Option Nat} {output : Bytes} {read : Nat} {conns : List Conn}

theorem ConnsInv.modify (h : ConnsInv active output read conns) {i : Nat} {f : Conn → Conn}
    (hf : ∀ c, conns[i]? = some c → ConnInv active output read i (f c)) :
    ConnsInv active output read (conns.modify i f) := by
  intro j c hc
  obtain ⟨d, hd, rfl⟩ := exists_of_getElem?_modify hc
  split
  · rename_i hij
    subst hij
    exact hf d hd
  · exact h j d hd

theorem ConnsInv.append (h : ConnsInv active output read conns) {c : Conn}
    (hc : ConnInv active output read conns.length c) : ConnsInv active output read (conns ++ [c]) := by
  intro j d hd
  rw [List.getElem?_append] at hd
  split at hd
  · exact h j d hd
  · rename_i hj
    obtain ⟨hlt, rfl⟩ := List.getElem?_eq_some_iff.mp hd
    have hzero : j = conns.length := by
      rw [List.length_singleton] at hlt
      omega
    subst hzero
    simpa using hc

/-- More output is written and read. -/
theorem ConnsInv.grow (h : ConnsInv active output read conns) (hread : read ≤ output.length) (more : Bytes) (n : Nat) :
    ConnsInv active (output ++ more) (read + n) conns := by
  intro i c hc
  obtain ⟨htaken, hattached, hrefused, hreceived⟩ := h i c hc
  refine ⟨htaken, hattached, hrefused, fun hstatus => ?_⟩
  obtain ⟨stop, hstart, hstop, heq⟩ := hreceived hstatus
  exact ⟨stop, hstart, by omega, by rw [heq, segment_append (by omega)]⟩

/-- A new connection after the active one has sent nothing that was read. -/
theorem ActiveInv.append {pending : Bytes} {i : Nat} {c d : Conn} (h : ActiveInv output read pending conns i c)
    (hd : d.taken = 0) : ActiveInv output read pending (conns ++ [d]) i c := by
  obtain ⟨hconn, hattached, hle, hqueued, hlast⟩ := h
  have hlt : i < conns.length := (List.getElem?_eq_some_iff.mp hconn).1
  refine ⟨by rw [List.getElem?_append_left hlt]; exact hconn, hattached, hle, hqueued, fun j e hij he => ?_⟩
  rw [List.getElem?_append] at he
  split at he
  · exact hlast j e hij he
  · obtain ⟨_, hmem⟩ := List.getElem?_eq_some_iff.mp he
    have heq : e = d := by
      have hin := List.mem_of_getElem? he
      simpa using hin
    rw [heq, hd]

/-- A change of a connection that leaves how much of it was read. -/
theorem ActiveInv.modify {pending pending' : Bytes} {i : Nat} {c : Conn} (f : Conn → Conn)
    (h : ActiveInv output read pending conns i c) (htaken : ∀ d, (f d).taken = d.taken) {k : Nat}
    (hattached : (f c).status = c.status) (hattachedAt : (f c).attachedAt = c.attachedAt)
    (hqueued : (if k = i then f c else c).received ++ pending' = c.received ++ pending) :
    ∃ d, ActiveInv output read pending' (conns.modify k f) i d := by
  refine ⟨if k = i then f c else c, ?_, ?_, ?_, ?_, ?_⟩
  · rw [List.getElem?_modify, h.conn]
    rfl
  · split
    · exact hattached.trans h.attached
    · exact h.attached
  · split
    · rw [hattachedAt]
      exact h.attachedAt_le
    · exact h.attachedAt_le
  · rw [hqueued, h.queued]
    split
    · rw [hattachedAt]
    · rfl
  · intro j d hij hd
    obtain ⟨e, he, rfl⟩ := exists_of_getElem?_modify hd
    split
    · rw [htaken]
      exact h.last j e hij he
    · exact h.last j e hij he

end conns

/-! ## What a step keeps -/

section detach

variable {s : St}

@[simp] theorem detach_ptyOutput : s.detach.ptyOutput = s.ptyOutput := by unfold St.detach; split <;> rfl
@[simp] theorem detach_ptyRead : s.detach.ptyRead = s.ptyRead := by unfold St.detach; split <;> rfl
@[simp] theorem detach_log : s.detach.log = s.log := by unfold St.detach; split <;> rfl
@[simp] theorem detach_ptyInput : s.detach.ptyInput = s.ptyInput := by unfold St.detach; split <;> rfl
@[simp] theorem detach_guestInput : s.detach.guestInput = s.guestInput := by unfold St.detach; split <;> rfl
@[simp] theorem detach_clientOutput : s.detach.clientOutput = s.clientOutput := by unfold St.detach; split <;> rfl
@[simp] theorem detach_phase : s.detach.phase = s.phase := by unfold St.detach; split <;> rfl

@[simp] theorem detach_active : s.detach.active = none := by
  unfold St.detach
  split
  · rfl
  · assumption

/-- Without a client, the output is what it was or cleared. -/
theorem Inv.of_detach (h : Inv s) {output : Pending UInt8} (houtput : output = s.clientOutput ∨ output = {})
    {phase : Phase} (hphase : phase ≠ .accept) : Inv { s.detach with clientOutput := output, phase := phase } := by
  have hconns : ConnsInv none s.ptyOutput s.ptyRead s.detach.conns ∧
      s.detach.conns.map Conn.input = s.conns.map Conn.input := by
    unfold St.detach
    split
    · rename_i i hi
      refine ⟨fun j c hc => ?_, map_modify_of_eq fun _ _ => rfl⟩
      obtain ⟨d, hd, rfl⟩ := exists_of_getElem?_modify hc
      obtain ⟨htaken, hattached, hrefused, hreceived⟩ := h.conns j d hd
      split
      · rename_i hij
        subst hij
        obtain ⟨e, he⟩ := h.active i hi
        rw [he.conn, Option.some.injEq] at hd
        subst hd
        exact ⟨htaken, nofun, nofun, fun _ => hreceived (by rw [he.attached]; nofun)⟩
      · rename_i hij
        -- another connection is not attached
        refine ⟨htaken, fun hstatus => ?_, hrefused, hreceived⟩
        rw [hattached hstatus] at hi
        exact absurd (Option.some.inj hi).symm hij
    · rename_i hnone
      have hs := h.conns
      rw [hnone] at hs
      exact ⟨hs, rfl⟩
  have hoffset : output.offset ≤ output.data.length := by
    rcases houtput with rfl | rfl
    · exact h.offset_le
    · exact Nat.le_refl _
  have hmax : output.data.length ≤ maxPendingClientOutput := by
    rcases houtput with rfl | rfl
    · exact h.output_le
    · exact Nat.zero_le _
  refine ⟨?_, ?_, ?_, fun hp => absurd hp hphase, hoffset, hmax, ?_, ?_, ?_⟩
  · simpa using h.ptyRead_le
  · simpa using hconns.1
  · simp
  · simpa using h.tidy
  · simpa using h.input_le
  · simpa [hconns.2] using h.input

theorem Inv.detach_goto (h : Inv s) {phase : Phase} (hphase : phase ≠ .accept) : Inv (s.detach.goto phase) :=
  h.of_detach (.inl detach_clientOutput) hphase

theorem Inv.return (h : Inv s) (result : Res Unit) : Inv (s.return result) := h.detach_goto nofun

theorem Inv.goto (h : Inv s) {phase : Phase} (hphase : phase ≠ .accept) : Inv (s.goto phase) :=
  ⟨h.ptyRead_le, h.conns, h.active, fun hp => absurd hp hphase, h.offset_le, h.output_le, h.tidy, h.input_le, h.input⟩

end detach

section steps

variable {name : String} {s s' : St}

/-- A connection that was not acknowledged, or that is closed at once. -/
theorem Inv.append (h : Inv s) {c : Conn} (htaken : c.taken = 0) (hstatus : c.status ≠ .attached)
    (hreceived : c.status ≠ .refused → c.received = consoleOk ∧ c.attachedAt = s.ptyRead) :
    Inv { s with conns := s.conns ++ [c] } := by
  refine ⟨h.ptyRead_le, ?_, fun i hi => ?_, h.fresh, h.offset_le, h.output_le, h.tidy, h.input_le, ?_⟩
  · refine h.conns.append ⟨by omega, fun ha => absurd ha hstatus, fun _ => htaken, fun hr => ?_⟩
    obtain ⟨hok, hat⟩ := hreceived hr
    exact ⟨s.ptyRead, Nat.le_of_eq hat, Nat.le_refl _, by rw [hok, hat, segment_self, List.append_nil]⟩
  · obtain ⟨d, hd⟩ := h.active i hi
    exact ⟨d, hd.append htaken⟩
  · simp only [List.map_append, List.map_cons, List.map_nil, List.flatten_append, List.flatten_singleton, Conn.input,
      htaken, List.take_zero, List.append_nil]
    exact h.input

/-- The first client after the last one is attached. -/
theorem Inv.attach (h : Inv s) (hphase : s.phase = .accept) (hactive : s.active = none) (early : Bytes) :
    Inv { s with
      active := some s.conns.length
      conns := s.conns ++ [{ sent := early, received := consoleOk, status := .attached, attachedAt := s.ptyRead }] } := by
  have hpending : s.clientOutput = {} := h.fresh hphase hactive
  refine ⟨h.ptyRead_le, ?_, ?_, nofun, h.offset_le, h.output_le, h.tidy, h.input_le, ?_⟩
  · have hconns : ConnsInv (some s.conns.length) s.ptyOutput s.ptyRead s.conns := by
      intro i c hc
      obtain ⟨htaken, hattached, hrefused, hreceived⟩ := h.conns i c hc
      refine ⟨htaken, fun hstatus => ?_, hrefused, hreceived⟩
      rw [hattached hstatus] at hactive
      cases hactive
    refine hconns.append ⟨Nat.zero_le _, fun _ => rfl, nofun, fun _ => ?_⟩
    exact ⟨s.ptyRead, Nat.le_refl _, Nat.le_refl _, by rw [segment_self, List.append_nil]⟩
  · rintro i ⟨⟩
    refine ⟨_, List.getElem?_concat_length, rfl, Nat.le_refl _, ?_, fun j d hj hd => ?_⟩
    · rw [hpending, Pending.rest_empty, List.append_nil, segment_self, List.append_nil]
    · have hlt := (List.getElem?_eq_some_iff.mp hd).1
      rw [List.length_append, List.length_singleton] at hlt
      omega
  · simp only [List.map_append, List.map_cons, List.map_nil, List.flatten_append, List.flatten_singleton, Conn.input,
      List.take_zero, List.append_nil]
    exact h.input

theorem acceptClient_inv (h : Inv s) (hphase : s.phase = .accept) {early : Bytes} {answer : Answer}
    (hs : acceptClient name s early answer = some s') : Inv s' := by
  have hrefuse : ∀ received, Inv { s with
      conns := s.conns ++ [{ sent := early, received, status := .refused, attachedAt := s.ptyRead }] } :=
    fun received => h.append rfl nofun fun hstatus => absurd rfl hstatus
  unfold acceptClient at hs
  split at hs
  · cases answer with
    | unbounded =>
      cases hs
      exact (hrefuse _).return _
    | written =>
      cases hs
      exact hrefuse _
    | cut n =>
      cases hs
      exact hrefuse _
    | unprepared _ => cases hs
  · rename_i hactive
    rw [Option.not_isSome_iff_eq_none] at hactive
    cases answer with
    | unbounded =>
      cases hs
      exact (hrefuse _).return _
    | written =>
      cases hs
      exact h.attach hphase hactive early
    | cut n =>
      cases hs
      exact (hrefuse _).return _
    | unprepared operation =>
      cases hs
      have hclosed : Inv { s with
          conns := s.conns ++ [{ sent := early, received := consoleOk, status := .detached, attachedAt := s.ptyRead }] } :=
        h.append rfl nofun fun _ => ⟨rfl, rfl⟩
      exact hclosed.return _

theorem pollStep_inv (h : Inv s) (listener pty client : Events) : Inv (pollStep s listener pty client) := by
  unfold pollStep
  cases hactive : s.active with
  | none =>
    have hconns := h.conns
    rw [hactive] at hconns
    exact ⟨h.ptyRead_le, hconns, nofun, fun _ _ => rfl, Nat.le_refl _, Nat.zero_le _, h.tidy, h.input_le, h.input⟩
  | some i =>
    have hconns := h.conns
    have hcurrent := h.active
    rw [hactive] at hconns hcurrent
    exact ⟨h.ptyRead_le, hconns, hcurrent, nofun, h.offset_le, h.output_le, h.tidy, h.input_le, h.input⟩

theorem ptyWriteStep_inv (h : Inv s) {result : IoResult} (hs : ptyWriteStep name s result = some s') : Inv s' := by
  cases result with
  | ok n =>
    simp only [ptyWriteStep] at hs
    split at hs
    · rename_i hn
      cases hs
      have hrest : (if n = 0 then s.guestInput else s.guestInput.advance n).rest = s.guestInput.rest.drop n := by
        split
        · rename_i hzero
          rw [hzero, List.drop_zero]
        · exact Pending.rest_advance
      refine ⟨h.ptyRead_le, h.conns, h.active, nofun, h.offset_le, h.output_le, ?_, ?_, ?_⟩
      · simp only
        split
        · exact h.tidy
        · exact h.tidy.advance hn
      · simp only
        split
        · exact h.input_le
        · exact Nat.le_trans (Pending.length_advance_le _ _) h.input_le
      · simp only [hrest, List.append_assoc, List.take_append_drop]
        exact h.input
    · cases hs
  | wouldBlock =>
    cases hs
    exact h.goto nofun
  | closed | eio | failed =>
    cases hs
    exact h.return _

theorem clientWriteStep_inv (h : Inv s) {i : Nat} (hi : s.active = some i) {result : IoResult}
    (hs : clientWriteStep name s i result = some s') : Inv s' := by
  cases result with
  | ok n =>
    simp only [clientWriteStep] at hs
    split at hs
    · cases hs
      exact h.detach_goto nofun
    split at hs
    · rename_i hn
      cases hs
      obtain ⟨c, hc⟩ := h.active i hi
      refine ⟨h.ptyRead_le, h.conns.modify fun d hd => ?_, fun j hj => ?_, nofun,
        Pending.offset_advance_le hn h.offset_le, Nat.le_trans (Pending.length_advance_le _ _) h.output_le, h.tidy,
        h.input_le, ?_⟩
      · -- what the client has received now is a longer prefix of what was queued for it
        rw [hc.conn, Option.some.injEq] at hd
        subst hd
        obtain ⟨htaken, hattached, hrefused, -⟩ := h.conns i c hc.conn
        refine ⟨htaken, hattached, hrefused, fun _ => ?_⟩
        have hprefix : c.received ++ s.clientOutput.rest.take n <+: consoleOk ++ segment s.ptyOutput c.attachedAt s.ptyRead := by
          rw [← hc.queued]
          exact List.prefix_append_right_inj _ |>.mpr (List.take_prefix _ _)
        obtain ⟨stop, hstart, hstop, hreceived⟩ := (h.conns i c hc.conn).received (by rw [hc.attached]; nofun)
        rw [hreceived, List.append_assoc] at hprefix
        obtain ⟨heq, hle⟩ := eq_segment_of_prefix ((List.prefix_append_right_inj _).mp hprefix) hc.attachedAt_le h.ptyRead_le
        refine ⟨_, Nat.le_add_right _ _, hle, ?_⟩
        rw [Conn.deliver, hreceived, List.append_assoc, ← heq]
      · simp only [hi, Option.some.injEq] at hj
        subst hj
        refine hc.modify (Conn.deliver _) (fun _ => rfl) rfl rfl ?_
        rw [if_pos rfl, Pending.rest_advance, Conn.deliver, List.append_assoc, List.take_append_drop]
      · have hinput : (s.conns.modify i (Conn.deliver (s.clientOutput.rest.take n))).map Conn.input =
            s.conns.map Conn.input := map_modify_of_eq fun _ _ => rfl
        simp only [hinput]
        exact h.input
    · cases hs
  | wouldBlock =>
    cases hs
    exact h.goto nofun
  | closed =>
    cases hs
    exact h.detach_goto nofun
  | eio | failed =>
    cases hs
    exact h.return _

/-- More output is read while no client is attached. -/
theorem Inv.read (h : Inv s) (hactive : s.active = none) {n : Nat} (hn : s.ptyRead + n ≤ s.ptyOutput.length)
    (log : Bytes) : Inv { s with ptyRead := s.ptyRead + n, log } := by
  have hgrown : ConnsInv s.active s.ptyOutput (s.ptyRead + n) s.conns := by
    simpa using h.conns.grow h.ptyRead_le [] n
  refine ⟨hn, hgrown, fun i hi => ?_, h.fresh, h.offset_le, h.output_le, h.tidy, h.input_le, h.input⟩
  rw [hactive] at hi
  cases hi

theorem detach_read (read : Nat) (log : Bytes) :
    St.detach { s with ptyRead := read, log } = { s.detach with ptyRead := read, log } := by
  rcases Option.eq_none_or_eq_some s.active with hactive | ⟨i, hactive⟩
  · simp only [St.detach, hactive]
  · simp only [St.detach, hactive]

/-- More output is read, and the client is dropped. -/
theorem Inv.read_detach (h : Inv s) {n : Nat} (hn : s.ptyRead + n ≤ s.ptyOutput.length) (log : Bytes)
    {output : Pending UInt8} (houtput : output = s.clientOutput ∨ output = {}) {phase : Phase} (hphase : phase ≠ .accept) :
    Inv { St.detach { s with ptyRead := s.ptyRead + n, log } with clientOutput := output, phase := phase } := by
  have hdetached := h.of_detach houtput hphase
  rw [detach_read]
  have hread := hdetached.read detach_active (by simpa using hn) log
  simpa using hread

theorem Inv.read_return (h : Inv s) {n : Nat} (hn : s.ptyRead + n ≤ s.ptyOutput.length) (log : Bytes)
    (result : Res Unit) : Inv (St.return { s with ptyRead := s.ptyRead + n, log } result) := by
  unfold St.return
  refine h.read_detach hn log (.inl ?_) nofun
  rw [detach_clientOutput]

/-- More output is read, and queued for the client. -/
theorem relay_inv (h : Inv s) {n : Nat} (hn : s.ptyRead + n ≤ s.ptyOutput.length) (log : Bytes) :
    Inv ((relay { s with ptyRead := s.ptyRead + n, log } ((s.ptyOutput.drop s.ptyRead).take n)).goto .clientRead) := by
  rcases Option.eq_none_or_eq_some s.active with hactive | ⟨i, hactive⟩
  · have hsame : relay { s with ptyRead := s.ptyRead + n, log } ((s.ptyOutput.drop s.ptyRead).take n) =
        { s with ptyRead := s.ptyRead + n, log } := if_neg (by simp [hactive])
    rw [hsame]
    exact (h.read hactive hn log).goto nofun
  · obtain ⟨c, hc⟩ := h.active i hactive
    unfold relay
    rw [if_pos (by simp [hactive])]
    simp only
    split
    · exact h.read_detach hn log (.inr rfl) nofun
    · rename_i hfits
      have hgrown : ConnsInv s.active s.ptyOutput (s.ptyRead + n) s.conns := by
        simpa using h.conns.grow h.ptyRead_le [] n
      refine ⟨hn, hgrown, fun j hj => ?_, nofun, ?_, ?_, h.tidy, h.input_le, h.input⟩
      · obtain ⟨c, hc⟩ := h.active j hj
        refine ⟨c, hc.conn, hc.attached, Nat.le_trans hc.attachedAt_le (Nat.le_add_right _ _), ?_, hc.last⟩
        simp only [St.goto, Pending.rest_push_compact]
        rw [← List.append_assoc, hc.queued, segment_extend n hc.attachedAt_le h.ptyRead_le, List.append_assoc]
      · simp [St.goto, Pending.push]
      · simp only [St.goto, Pending.push, List.length_append]
        omega

theorem ptyReadStep_inv (h : Inv s) {logged : Option Nat} {result : IoResult}
    (hs : ptyReadStep name s logged result = some s') : Inv s' := by
  cases result with
  | ok n =>
    simp only [ptyReadStep] at hs
    split at hs
    · cases hs
      exact h.goto nofun
    split at hs
    · rename_i hn
      cases logged with
      | none =>
        cases hs
        exact relay_inv h hn.2 _
      | some k =>
        cases hs
        exact h.read_return hn.2 _ _
    · cases hs
  | wouldBlock | eio =>
    cases hs
    exact h.goto nofun
  | closed | failed =>
    cases hs
    exact h.return _

/-- Input is read only when all that was read before has been written. -/
theorem clientReadStep_inv (h : Inv s) {i : Nat} (hi : s.active = some i) (hdrained : s.guestInput = {}) {result : IoResult}
    (hs : clientReadStep name s i result = some s') : Inv s' := by
  cases result with
  | ok n =>
    obtain ⟨c, hc⟩ := h.active i hi
    simp only [clientReadStep, hc.conn, Option.bind_eq_bind, Option.bind_some] at hs
    split at hs
    · cases hs
      exact h.detach_goto nofun
    split at hs
    · rename_i hn
      cases hs
      have hinput : (Conn.read n c).input = c.input ++ (c.sent.drop c.taken).take n := List.take_add
      have hlength : ((c.sent.drop c.taken).take n).length = n := by
        rw [List.length_take, List.length_drop]
        omega
      refine ⟨h.ptyRead_le, h.conns.modify fun d hd => ?_, fun j hj => ?_, nofun, h.offset_le, h.output_le, ?_, ?_, ?_⟩
      · rw [hc.conn, Option.some.injEq] at hd
        subst hd
        obtain ⟨_, hattached, _, hreceived⟩ := h.conns i c hc.conn
        refine ⟨hn.2, hattached, fun hrefused => ?_, hreceived⟩
        rw [Conn.read, hc.attached] at hrefused
        cases hrefused
      · simp only [hi, Option.some.injEq] at hj
        subst hj
        refine ⟨Conn.read n c, ?_, hc.attached, hc.attachedAt_le, hc.queued, fun j d hij hd => ?_⟩
        · rw [List.getElem?_modify, hc.conn]
          simp
        · obtain ⟨e, he, rfl⟩ := exists_of_getElem?_modify hd
          rw [if_neg (by omega)]
          exact hc.last j e hij he
      · rw [hdrained]
        refine .inr ?_
        simp only [Pending.push, List.nil_append, hlength]
        omega
      · rw [hdrained]
        simp only [Pending.push, List.nil_append, hlength]
        exact hn.1
      · have hparts := flatten_modify hc.conn hinput fun j d hij hd => by
          rw [Conn.input, hc.last j d hij hd, List.take_zero]
        have hold := h.input
        rw [hdrained, Pending.rest_empty, List.append_nil] at hold
        rw [hdrained, hparts, ← hold]
        rfl
    · cases hs
  | wouldBlock =>
    cases hs
    exact h.goto nofun
  | closed =>
    cases hs
    exact h.detach_goto nofun
  | eio | failed =>
    cases hs
    exact h.return _

theorem acceptStep_inv (h : Inv s) (hphase : s.phase = .accept) {result : AcceptResult}
    (hs : acceptStep name s result = some s') : Inv s' := by
  cases result with
  | connection early answer => exact acceptClient_inv h hphase hs
  | wouldBlock =>
    cases hs
    exact h.goto nofun
  | failed =>
    cases hs
    exact h.return _

theorem hangUpStep_inv (h : Inv s) : Inv (hangUpStep s) := by
  unfold hangUpStep
  split
  · exact h.of_detach (.inr rfl) nofun
  · exact h.goto nofun

theorem ioStep_inv (h : Inv s) (hdue : due s = true) {result : IoResult} {logged : Option Nat}
    (hs : ioStep name s result logged = some s') : Inv s' := by
  unfold ioStep at hs
  unfold due at hdue
  split at hs
  · exact ptyWriteStep_inv h hs
  · obtain ⟨i, hi, hs⟩ := Option.bind_eq_some_iff.mp hs
    exact clientWriteStep_inv h hi hs
  · exact ptyReadStep_inv h hs
  · rename_i hphase
    obtain ⟨i, hi, hs⟩ := Option.bind_eq_some_iff.mp hs
    rw [hphase] at hdue
    simp only [Bool.and_eq_true, beq_iff_eq] at hdue
    exact clientReadStep_inv h hi (h.tidy.eq_empty hdue.1.2) hs
  · cases hs

/-- The guest writes. -/
theorem Inv.guestWrites (h : Inv s) (output : Bytes) : Inv { s with ptyOutput := s.ptyOutput ++ output } := by
  have hle : s.ptyRead ≤ (s.ptyOutput ++ output).length := by
    rw [List.length_append]
    exact Nat.le_add_right_of_le h.ptyRead_le
  refine ⟨hle, h.conns.grow h.ptyRead_le output 0, fun i hi => ?_, h.fresh, h.offset_le, h.output_le, h.tidy, h.input_le,
    h.input⟩
  obtain ⟨c, hc⟩ := h.active i hi
  exact ⟨c, hc.conn, hc.attached, hc.attachedAt_le, by rw [hc.queued, segment_append h.ptyRead_le], hc.last⟩

/-- A client writes, attached or not. -/
theorem Inv.clientWrites (h : Inv s) (i : Nat) (input : Bytes) :
    Inv { s with conns := s.conns.modify i (Conn.send input) } := by
  refine ⟨h.ptyRead_le, h.conns.modify fun c hc => ?_, fun j hj => ?_, h.fresh, h.offset_le, h.output_le, h.tidy,
    h.input_le, ?_⟩
  · obtain ⟨htaken, hattached, hrefused, hreceived⟩ := h.conns i c hc
    refine ⟨?_, hattached, hrefused, hreceived⟩
    rw [Conn.send, List.length_append]
    exact Nat.le_add_right_of_le htaken
  · obtain ⟨c, hc⟩ := h.active j hj
    refine hc.modify (Conn.send input) (fun _ => rfl) rfl rfl ?_
    split <;> rfl
  · have hinput : (s.conns.modify i (Conn.send input)).map Conn.input = s.conns.map Conn.input :=
      map_modify_of_eq fun c hc => List.take_append_of_le_length (h.conns i c hc).taken_le
    simp only [hinput]
    exact h.input

theorem step_inv (h : Inv s) {a : Act} (hs : step name s a = some s') : Inv s' := by
  cases a with
  | guestWrites output =>
    cases hs
    exact h.guestWrites output
  | clientWrites i input =>
    cases hs
    exact h.clientWrites i input
  | cancelled | pollFails =>
    simp only [step, Option.ite_none_right_eq_some] at hs
    cases hs.2
    exact h.return _
  | poll listener pty client =>
    simp only [step, Option.ite_none_right_eq_some] at hs
    cases hs.2
    exact pollStep_inv h listener pty client
  | accept result =>
    simp only [step, Option.ite_none_right_eq_some] at hs
    exact acceptStep_inv h hs.1.1 hs.2
  | io result logged =>
    simp only [step, Option.ite_none_right_eq_some] at hs
    exact ioStep_inv h hs.1 hs.2
  | skip =>
    simp only [step, Option.ite_none_left_eq_some] at hs
    obtain ⟨phase, hphase, rfl⟩ := Option.map_eq_some_iff.mp hs.2
    refine h.goto ?_
    rintro rfl
    cases hp : s.phase <;> rw [hp] at hphase <;> cases hphase
  | checkHangUp =>
    simp only [step, Option.ite_none_right_eq_some] at hs
    cases hs.2
    exact hangUpStep_inv h

theorem initial_inv : Inv {} :=
  ⟨Nat.le_refl _, nofun, nofun, fun _ _ => rfl, Nat.le_refl _, Nat.zero_le _, .inl rfl, Nat.zero_le _, rfl⟩

end steps

/-! ## The log -/

/-- The log is what was read of the output, or writing to it failed and ended the loop. -/
def Logged (name : String) (s : St) : Prop :=
  s.log = s.ptyOutput.take s.ptyRead ∨ s.log <+: s.ptyOutput.take s.ptyRead ∧
    s.phase = .returned (.error (consoleIoError name "append PTY output to its staging log"))

/-- Output and log are as before. -/
def SameLog (s s' : St) : Prop := s'.log = s.log ∧ s'.ptyOutput = s.ptyOutput ∧ s'.ptyRead = s.ptyRead

section log

variable {name : String} {s s' : St}

theorem SameLog.logged (h : SameLog s s') (hlog : s.log = s.ptyOutput.take s.ptyRead) : Logged name s' := by
  refine .inl ?_
  rw [h.1, h.2.1, h.2.2, hlog]

theorem sameLog_return (result : Res Unit) : SameLog s (s.return result) := by simp [SameLog, St.return]

theorem sameLog_detach (phase : Phase) : SameLog s (s.detach.goto phase) := by simp [SameLog, St.goto]

theorem acceptStep_sameLog {result : AcceptResult} (hs : acceptStep name s result = some s') : SameLog s s' := by
  cases result with
  | wouldBlock =>
    cases hs
    exact ⟨rfl, rfl, rfl⟩
  | failed =>
    cases hs
    exact sameLog_return _
  | connection early answer =>
    simp only [acceptStep, acceptClient] at hs
    split at hs
    · cases answer <;> cases hs <;> simp [SameLog, St.fail, St.return]
    · cases answer <;> cases hs <;> simp [SameLog, St.fail, St.return]

theorem ptyWriteStep_sameLog {result : IoResult} (hs : ptyWriteStep name s result = some s') : SameLog s s' := by
  cases result with
  | ok n =>
    simp only [ptyWriteStep, Option.ite_none_right_eq_some] at hs
    cases hs.2
    exact ⟨rfl, rfl, rfl⟩
  | wouldBlock =>
    cases hs
    exact ⟨rfl, rfl, rfl⟩
  | closed | eio | failed =>
    cases hs
    exact sameLog_return _

theorem clientWriteStep_sameLog {i : Nat} {result : IoResult} (hs : clientWriteStep name s i result = some s') :
    SameLog s s' := by
  cases result with
  | ok n =>
    simp only [clientWriteStep] at hs
    split at hs
    · cases hs
      exact sameLog_detach _
    · rw [Option.ite_none_right_eq_some] at hs
      cases hs.2
      exact ⟨rfl, rfl, rfl⟩
  | wouldBlock =>
    cases hs
    exact ⟨rfl, rfl, rfl⟩
  | closed =>
    cases hs
    exact sameLog_detach _
  | eio | failed =>
    cases hs
    exact sameLog_return _

theorem clientReadStep_sameLog {i : Nat} {result : IoResult} (hs : clientReadStep name s i result = some s') :
    SameLog s s' := by
  cases result with
  | ok n =>
    obtain ⟨c, -, hs⟩ := Option.bind_eq_some_iff.mp hs
    split at hs
    · cases hs
      exact sameLog_detach _
    · rw [Option.ite_none_right_eq_some] at hs
      cases hs.2
      exact ⟨rfl, rfl, rfl⟩
  | wouldBlock =>
    cases hs
    exact ⟨rfl, rfl, rfl⟩
  | closed =>
    cases hs
    exact sameLog_detach _
  | eio | failed =>
    cases hs
    exact sameLog_return _

theorem relay_sameLog (read : Bytes) : SameLog s (relay s read) := by
  unfold relay
  split
  · simp only
    split
    · simp [SameLog]
    · exact ⟨rfl, rfl, rfl⟩
  · exact ⟨rfl, rfl, rfl⟩

/-- What is read is written to the log. -/
theorem ptyReadStep_logged (hlog : s.log = s.ptyOutput.take s.ptyRead) {logged : Option Nat} {result : IoResult}
    (hs : ptyReadStep name s logged result = some s') : Logged name s' := by
  cases result with
  | ok n =>
    simp only [ptyReadStep] at hs
    split at hs
    · cases hs
      exact .inl hlog
    split at hs
    · cases logged with
      | none =>
        cases hs
        obtain ⟨hrelay, houtput, hread⟩ := relay_sameLog (s := { s with
          ptyRead := s.ptyRead + n, log := s.log ++ (s.ptyOutput.drop s.ptyRead).take n })
          ((s.ptyOutput.drop s.ptyRead).take n)
        refine .inl ?_
        rw [St.goto]
        simp only [hrelay, houtput, hread]
        rw [hlog, List.take_add]
      | some k =>
        cases hs
        refine .inr ⟨?_, rfl⟩
        simp only [St.fail, St.return, detach_log, detach_ptyOutput, detach_ptyRead]
        rw [hlog, List.take_add]
        exact (List.prefix_append_right_inj _).mpr (List.take_prefix _ _)
    · cases hs
  | wouldBlock | eio =>
    cases hs
    exact .inl hlog
  | closed | failed =>
    cases hs
    exact (sameLog_return _).logged hlog

/-- The broker does nothing after it has returned. -/
theorem Logged.eq_take (h : Logged name s) (hphase : ∀ result, s.phase ≠ .returned result) :
    s.log = s.ptyOutput.take s.ptyRead := by
  rcases h with h | ⟨-, h⟩
  · exact h
  · exact absurd h (hphase _)

theorem ioStep_logged (hlog : s.log = s.ptyOutput.take s.ptyRead) {result : IoResult} {logged : Option Nat}
    (hs : ioStep name s result logged = some s') : Logged name s' := by
  unfold ioStep at hs
  split at hs
  · exact (ptyWriteStep_sameLog hs).logged hlog
  · obtain ⟨i, -, hs⟩ := Option.bind_eq_some_iff.mp hs
    exact (clientWriteStep_sameLog hs).logged hlog
  · exact ptyReadStep_logged hlog hs
  · obtain ⟨i, -, hs⟩ := Option.bind_eq_some_iff.mp hs
    exact (clientReadStep_sameLog hs).logged hlog
  · cases hs

theorem step_logged (hread : s.ptyRead ≤ s.ptyOutput.length) (h : Logged name s) {a : Act}
    (hs : step name s a = some s') : Logged name s' := by
  cases a with
  | guestWrites output =>
    cases hs
    simpa only [Logged, List.take_append_of_le_length hread] using h
  | clientWrites i input =>
    cases hs
    exact h
  | cancelled | pollFails =>
    simp only [step, Option.ite_none_right_eq_some] at hs
    cases hs.2
    exact (sameLog_return _).logged (h.eq_take (by rw [hs.1]; nofun))
  | poll listener pty client =>
    simp only [step, Option.ite_none_right_eq_some] at hs
    cases hs.2
    exact .inl (h.eq_take (by rw [hs.1]; nofun))
  | accept result =>
    simp only [step, Option.ite_none_right_eq_some] at hs
    exact (acceptStep_sameLog hs.2).logged (h.eq_take (by rw [hs.1.1]; nofun))
  | io result logged =>
    simp only [step, Option.ite_none_right_eq_some] at hs
    refine ioStep_logged (h.eq_take fun result hphase => ?_) hs.2
    have hdue := hs.1
    rw [due, hphase] at hdue
    cases hdue
  | skip =>
    simp only [step, Option.ite_none_left_eq_some] at hs
    obtain ⟨phase, hphase, rfl⟩ := Option.map_eq_some_iff.mp hs.2
    refine .inl (h.eq_take fun result hreturned => ?_)
    rw [hreturned] at hphase
    cases hphase
  | checkHangUp =>
    simp only [step, Option.ite_none_right_eq_some] at hs
    cases hs.2
    have hlog := h.eq_take (by rw [hs.1]; nofun)
    unfold hangUpStep
    split
    · exact SameLog.logged (s := s) (by simp [SameLog]) hlog
    · exact .inl hlog

end log

/-! ## Every run -/

theorem reachable_inv {name : String} {s : St} (h : Reachable (step name) anyStep Initial s) : Inv s ∧ Logged name s := by
  refine @Reachable.invariant _ _ _ _ _ (fun s => Inv s ∧ Logged name s) ?_ ?_ s h
  · rintro s rfl
    exact ⟨initial_inv, .inl rfl⟩
  · intro s a s' ⟨hinv, hlogged⟩ _ hs
    exact ⟨step_inv hinv hs, step_logged hinv.ptyRead_le hlogged hs⟩

/-- **Stream integrity of the console broker**, in every state of every run: at most one client is attached; a client that
was acknowledged has received a contiguous part of the output from where it was attached; the log is all output that was
read, unless writing to it failed; the input of the PTY is a prefix of what the first client sent, then of what the
second one sent, and so on; and the buffers keep to their bounds. -/
theorem broker_streams {name : String} {s : St} (h : Reachable (step name) anyStep Initial s) :
    (∀ (i j : Nat) (c d : Conn), s.conns[i]? = some c → s.conns[j]? = some d → c.status = .attached →
      d.status = .attached → i = j) ∧
    (∀ c ∈ s.conns, c.status ≠ .refused → ∃ stop, c.attachedAt ≤ stop ∧ stop ≤ s.ptyRead ∧
      c.received = consoleOk ++ segment s.ptyOutput c.attachedAt stop) ∧
    Logged name s ∧
    (∃ parts, List.Forall₂ (fun part c => part <+: c.sent) parts (s.conns.filter fun c => c.status ≠ .refused) ∧
      s.ptyInput = parts.flatten) ∧
    s.guestInput.data.length ≤ consoleBufferBytes ∧ s.clientOutput.data.length ≤ maxPendingClientOutput := by
  obtain ⟨hinv, hlogged⟩ := reachable_inv h
  refine ⟨fun i j c d hc hd hcs hds => ?_, fun c hc hstatus => ?_, hlogged, ?_, hinv.input_le, hinv.output_le⟩
  · have hi := (hinv.conns i c hc).attached hcs
    have hj := (hinv.conns j d hd).attached hds
    rw [hi] at hj
    exact Option.some.inj hj
  · obtain ⟨i, hi⟩ := List.mem_iff_getElem?.mp hc
    exact (hinv.conns i c hi).received hstatus
  · have hparts : s.ptyInput <+: ((s.conns.filter fun c => c.status ≠ .refused).map Conn.input).flatten := by
      rw [flatten_filter, ← hinv.input]
      · exact List.prefix_append _ _
      · intro c hc hrefused
        obtain ⟨i, hi⟩ := List.mem_iff_getElem?.mp hc
        rw [Conn.input, (hinv.conns i c hi).refused (by simpa using hrefused), List.take_zero]
    obtain ⟨parts, hforall, hwhole⟩ := exists_prefixes hparts
    exact ⟨parts, hforall.imp fun _ _ hpart => hpart.trans (List.take_prefix _ _), hwhole⟩

/-- The guest prints a prompt, a client attaches in the middle of it while a second one is turned away, receives two bytes
and has the first of its own two bytes relayed. -/
def session : List Act :=
  [.guestWrites (bytes "login: "),
    .poll {} { readable := true } {}, .skip, .skip, .skip, .io (.ok 3) none, .skip, .checkHangUp,
    .poll { readable := true } { readable := true } {}, .accept (.connection (bytes "l") .written),
    .accept (.connection [] (.cut 2)), .accept .wouldBlock, .skip, .skip, .io (.ok 4) none, .skip, .checkHangUp,
    .clientWrites 0 (bytes "s"),
    .poll {} {} { readable := true, writable := true }, .skip, .skip, .io (.ok 2) none, .skip, .io (.ok 1) none,
    .checkHangUp,
    .poll {} { writable := true } {}, .skip, .io (.ok 1) none]

theorem broker_streams_session : ∃ s, run (step "web") {} session = some s ∧ s.log = bytes "login: " ∧
    s.ptyInput = bytes "l" ∧ (∃ c, s.conns[0]? = some c ∧ c.received = consoleOk ++ segment (bytes "login: ") 3 5) ∧
    (∃ parts, List.Forall₂ (fun part c => part <+: c.sent) parts (s.conns.filter fun c => c.status ≠ .refused) ∧
      s.ptyInput = parts.flatten) ∧ s.clientOutput.data.length ≤ maxPendingClientOutput := by
  have hrun : (run (step "web") {} session).any (fun s => s.log = bytes "login: " ∧ s.ptyInput = bytes "l" ∧
      (s.conns[0]?).any fun c => c.received = consoleOk ++ segment (bytes "login: ") 3 5) = true := by decide
  obtain ⟨s, hs, hfacts⟩ := (Option.any_eq_true _ _).mp hrun
  obtain ⟨hlog, hinput, hreceived⟩ := of_decide_eq_true hfacts
  obtain ⟨c, hc, hsegment⟩ := (Option.any_eq_true _ _).mp hreceived
  obtain ⟨-, -, -, hparts, -, hbound⟩ := broker_streams (reachable_of_run rfl hs)
  exact ⟨s, hs, hlog, hinput, ⟨c, hc, of_decide_eq_true hsegment⟩, hparts, hbound⟩

end Firestone.Console
