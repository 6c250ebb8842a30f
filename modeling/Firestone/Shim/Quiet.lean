import Firestone.Shim.Invariant

/-!
# The quiet operations

Looking at processes, signalling them, reaping children that have exited, writing the state and publishing the identity are
quiet. So is every stop of sidecars: it lets go of a sidecar only once it has seen that it has exited.

* `Gone` — a process is not alive any more. It stays so.
* `observeExit_triple`, `isAlive_triple`, `recordedProcessAlive_triple` — what a look proves.
* `…_quiet` — one lemma for each operation; `…_triple` — what has exited when it succeeds.
-/

namespace Firestone.Shim

open Firestone.Lib Prog

variable {plan : LaunchPlan}

-- the instances follow the programs, and some of these are long
set_option synthInstance.maxSize 2000

/-! ## The outside -/

/-- A quiet program, from its runs that begin with the invariant. -/
theorem quiet_of_steps {α : Type} {x : ShimProg α} (h : KeepsFrom (Inv plan) (QuietStep plan) x) : Keeps (Quiet plan) x :=
  ⟨h⟩

theorem quiet_steps {α : Type} {x : ShimProg α} {P : World → Prop} (h : Keeps (Quiet plan) x) (hP : ∀ w, P w → Inv plan w) :
    KeepsFrom P (QuietStep plan) x :=
  fun w hw => h.step w (hP w hw)

theorem interact_snd (w : World) : (interact w).2 = { w with
    env := w.env.tail, alive := w.alive.filter fun p => p ∉ (w.env.headD {}).exited,
    terminating := w.terminating || (w.env.headD {}).signal } := by
  unfold interact
  dsimp only
  split <;> rfl

instance interact_quiet : Keeps (Quiet plan) interact := by
  refine ⟨fun w => ?_⟩
  rw [interact_snd]
  exact IsTrans.trans _ _ _ (Quiet.exit fun p hp => (List.mem_filter.mp hp).1) (Quiet.of_core rfl)

instance call_quiet : Keeps (Quiet plan) call := by
  have : ∀ a : Answer, Keeps (Quiet plan) (match a.error with
      | some e => fail e
      | none => pure a : ShimProg Answer) := fun a => by cases a.error <;> infer_instance
  unfold call
  infer_instance

instance emit_quiet (r : Reply) : Keeps (Quiet plan) (emit r) := ⟨fun _ => Quiet.of_core rfl⟩

theorem setState_settling {f : MachineState → MachineState} (hpids : ∀ st, PidsFrom (f st) st)
    (hshim : ∀ st, (f st).shimPid = st.shimPid ∨ (f st).shimPid = none)
    (hrunning : ∀ st, (f st).status = .running → st.status = .running) : Keeps (Settling plan) (setState f) :=
  ⟨fun w => Settling.setState (hpids w.state) (hshim w.state) (hrunning w.state)⟩

theorem setState_quiet {f : MachineState → MachineState} (hpids : ∀ st, PidsFrom (f st) st)
    (hshim : ∀ st, (f st).shimPid = st.shimPid ∨ (f st).shimPid = none)
    (hrunning : ∀ st, (f st).status = .running → st.status = .running) (hvmm : ∀ st, (f st).vmmPid = st.vmmPid) :
    Keeps (Quiet plan) (setState f) :=
  ⟨fun w => Quiet.setState (hpids w.state) (hshim w.state) (hrunning w.state) (hvmm w.state)⟩

theorem setIdentity_quiet {f : ProcessIdentity → ProcessIdentity} (h : ∀ i, (f i).vmm = i.vmm ∨ (f i).vmm = none) :
    Keeps (Quiet plan) (setIdentity f) :=
  ⟨fun w => Quiet.setIdentity (h w.identity)⟩

instance ensureLaunchBeforeDeadline_quiet (phase : String) : Keeps (Quiet plan) (ensureLaunchBeforeDeadline phase) := by
  unfold ensureLaunchBeforeDeadline
  infer_instance

instance stopPhaseTimeout_quiet : Keeps (Quiet plan) stopPhaseTimeout := by
  unfold stopPhaseTimeout
  infer_instance

instance exitError_quiet {α : Type} (context hint : String) : Keeps (Quiet plan) (exitError context hint : ShimProg α) := by
  unfold exitError
  infer_instance

instance safeVmmFailureReason_quiet (fallback : String) : Keeps (Quiet plan) (safeVmmFailureReason fallback) := by
  unfold safeVmmFailureReason
  infer_instance

instance mergeConsoleLog_quiet : Keeps (Quiet plan) mergeConsoleLog := by
  unfold mergeConsoleLog
  infer_instance

/-! ## Looking at processes -/

/-- The process has exited. -/
def Gone (p : Proc) (w : World) : Prop := p ∉ w.alive

theorem Gone.after {p : Proc} {w w' : World} (hp : Gone p w) (h : ForwardStep plan w w') : Gone p w' :=
  fun hp' => hp (h.alive p hp')

/-- Nothing of this record is alive. -/
def RecordGone (record : ProcessRecord) (w : World) : Prop := ∀ p ∈ w.alive, p.record ≠ record

theorem RecordGone.after {record : ProcessRecord} {w w' : World} (hr : RecordGone record w) (h : ForwardStep plan w w') :
    RecordGone record w' :=
  fun p hp => hr p (h.alive p hp)

instance observeExit_quiet (child : Proc) : Keeps (Quiet plan) (observeExit child) := by
  have : ∀ a : Answer, Keeps (Quiet plan) (match a.error with
      | some e => fail e
      | none => pure true : ShimProg Bool) := fun a => by cases a.error <;> infer_instance
  unfold observeExit
  infer_instance

theorem observeExit_gone {child : Proc} {w w' : World} (h : observeExit child w = (.ok true, w')) : Gone child w' := by
  obtain ⟨a, u, -, h⟩ := bind_eq_ok.mp h
  obtain ⟨v, u', hget, h⟩ := bind_eq_ok.mp h
  cases hget
  by_cases halive : child ∈ u.alive
  · rw [if_pos halive] at h
    cases h
  · rw [if_neg halive] at h
    cases he : a.error with
    | some e => simp [he] at h
    | none =>
      simp only [he] at h
      cases h
      exact halive

instance recordedProcessAlive_quiet (record : ProcessRecord) : Keeps (Quiet plan) (recordedProcessAlive record) := by
  unfold recordedProcessAlive
  infer_instance

theorem recordedProcessAlive_gone {record : ProcessRecord} {w w' : World}
    (h : recordedProcessAlive record w = (.ok false, w')) : RecordGone record w' := by
  obtain ⟨a, u, -, h⟩ := bind_eq_ok.mp h
  obtain ⟨v, u', hget, h⟩ := bind_eq_ok.mp h
  cases hget
  obtain ⟨hany, rfl⟩ : (∀ p ∈ u.alive, ¬p.record = record) ∧ u = w' := by
    simpa using h
  exact hany

instance verifyProcess_quiet (record : ProcessRecord) : Keeps (Quiet plan) (verifyProcess record) := by
  unfold verifyProcess
  infer_instance

instance isAlive_quiet (process : Proc) : Keeps (Quiet plan) (isAlive process) := by
  unfold isAlive
  infer_instance

theorem isAlive_gone {process : Proc} {w w' : World} (h : isAlive process w = (.ok false, w')) : Gone process w' := by
  obtain ⟨a, u, -, h⟩ := bind_eq_ok.mp h
  obtain ⟨v, u', hget, h⟩ := bind_eq_ok.mp h
  cases hget
  obtain ⟨hmem, rfl⟩ : process ∉ u.alive ∧ u = w' := by
    simpa using h
  exact hmem

instance waitForRecordExit_quiet (record : ProcessRecord) : Keeps (Quiet plan) (waitForRecordExit record) := by
  unfold waitForRecordExit
  infer_instance

theorem waitForRecordExit_gone {record : ProcessRecord} {w w' : World}
    (h : waitForRecordExit record w = (.ok (), w')) : RecordGone record w' := by
  obtain ⟨a, u, -, h⟩ := bind_eq_ok.mp h
  obtain ⟨_, u', -, h⟩ := bind_eq_ok.mp h
  obtain ⟨alive, v, halive, h⟩ := bind_eq_ok.mp h
  cases alive with
  | true => cases h
  | false =>
    cases h
    exact recordedProcessAlive_gone halive

instance signalVerifiedTree_quiet (record : ProcessRecord) : Keeps (Quiet plan) (signalVerifiedTree record) := by
  unfold signalVerifiedTree
  infer_instance

instance terminateRecoveredProcess_quiet (record : ProcessRecord) :
    Keeps (Quiet plan) (terminateRecoveredProcess record) := by
  unfold terminateRecoveredProcess
  infer_instance

theorem terminateRecoveredProcess_gone {record : ProcessRecord} {w w' : World}
    (h : terminateRecoveredProcess record w = (.ok (), w')) : RecordGone record w' := by
  obtain ⟨alive, u, halive, h⟩ := bind_eq_ok.mp h
  cases alive with
  | false =>
    cases h
    exact recordedProcessAlive_gone halive
  | true =>
    obtain ⟨_, u₁, -, h⟩ := bind_eq_ok.mp h
    obtain ⟨_, u₂, -, h⟩ := bind_eq_ok.mp h
    obtain ⟨_, u₃, -, h⟩ := bind_eq_ok.mp h
    obtain ⟨_, u₄, -, h⟩ := bind_eq_ok.mp h
    obtain ⟨_, u₅, -, h⟩ := bind_eq_ok.mp h
    exact waitForRecordExit_gone h

/-! ## The evidence -/

instance publishProcessIdentity_quiet : Keeps (Quiet plan) publishProcessIdentity := by
  unfold publishProcessIdentity
  refine Keeps.bind call_quiet fun _ => (KeepsFrom.get fun w _ => ?_).keeps
  refine KeepsFrom.ite (fun h => KeepsFrom.modify_bind ?_ inferInstance) fun _ => Keeps.from inferInstance
  rintro _ rfl
  exact Quiet.publish h

instance writeState_quiet : Keeps (Quiet plan) writeState := by
  have : Keeps (Quiet plan) (modify fun w => { w with stateFile := w.state } : ShimProg Unit) :=
    ⟨fun _ => Quiet.writeState⟩
  unfold writeState
  infer_instance

/-! ## The VMM -/

instance OwnedVmm.observeExit_quiet (v : OwnedVmm) : Keeps (Quiet plan) v.observeExit := by
  unfold OwnedVmm.observeExit
  infer_instance

/-- What goes on after a look that has seen an exit may rely on it. -/
theorem observeExit_bind_quiet {α : Type} {child : Proc} {f : Bool → ShimProg α}
    (htrue : KeepsFrom (fun w => Inv plan w ∧ Gone child w) (QuietStep plan) (f true)) (hfalse : Keeps (Quiet plan) (f false)) :
    Keeps (Quiet plan) (observeExit child >>= f) := by
  refine quiet_of_steps (KeepsFrom.bind (fun seen w => Inv plan w ∧ (seen = true → Gone child w))
    (quiet_steps (observeExit_quiet child) fun _ h => h) ?_ ?_)
  · intro w seen w' hi h
    refine ⟨((observeExit_quiet child).run h hi).inv, ?_⟩
    rintro rfl
    exact observeExit_gone h
  · rintro (_ | _)
    · exact quiet_steps hfalse fun _ h => h.1
    · exact htrue.pre fun _ h => ⟨h.1, h.2 rfl⟩

/-- An exit that has been seen is not undone by what is quiet. -/
theorem Gone.steps {α β : Type} {child : Proc} {x : ShimProg α} {f : α → ShimProg β} (hx : Keeps (Quiet plan) x)
    (hf : ∀ a, KeepsFrom (fun w => Inv plan w ∧ Gone child w) (QuietStep plan) (f a)) :
    KeepsFrom (fun w => Inv plan w ∧ Gone child w) (QuietStep plan) (x >>= f) := by
  refine KeepsFrom.bind (fun _ w => Inv plan w ∧ Gone child w) (quiet_steps hx fun _ h => h.1) ?_ hf
  intro w a w' hw h
  have hstep := hx.run h hw.1
  exact ⟨hstep.inv, hw.2.after hstep.forward⟩

theorem markVmmReaped_steps (child : Proc) (status : ExitStatus) :
    KeepsFrom (fun w => Inv plan w ∧ Gone child w) (QuietStep plan)
      (modify (World.markVmmReaped child status) : ShimProg Unit) := by
  rintro w ⟨hi, hgone⟩
  refine Quiet.setVmm (fun v => ?_) (fun v => ?_) (fun v _ hv => ?_) hi
  · split <;> rfl
  · split <;> rfl
  · rw [if_neg]
    rintro rfl
    exact hgone hv

instance OwnedVmm.sendTerm_quiet (v : OwnedVmm) : Keeps (Quiet plan) v.sendTerm := by
  unfold OwnedVmm.sendTerm
  infer_instance

instance OwnedVmm.wait_quiet (v : OwnedVmm) : Keeps (Quiet plan) v.wait := by
  refine observeExit_bind_quiet ?_ (keeps_fail _)
  exact Gone.steps call_quiet fun a => markVmmReaped_steps v.child a.status

instance OwnedVmm.killAndReap_quiet (v : OwnedVmm) (sendTerm : Bool) : Keeps (Quiet plan) (v.killAndReap sendTerm) := by
  unfold OwnedVmm.killAndReap
  infer_instance

/-- An owner that has the status of its child proves that no VMM is alive. -/
theorem Inv.noVmmAlive {w : World} (hi : Inv plan w) {v : OwnedVmm} (hv : w.vmm = some v)
    (hreaped : v.reapedStatus.isSome = true) : ∀ p ∈ w.alive, p.role ≠ .vmm := by
  intro p hp hrole
  cases hi.vmmOnly v hv p hp hrole
  rw [((hi.vmm v hv).2 hp).2] at hreaped
  cases hreaped

theorem releaseVmm_step {w : World} (hi : Inv plan w) {v : OwnedVmm} (hv : w.vmm = some v)
    (hreaped : v.reapedStatus.isSome = true) (pid : Nat) : QuietStep plan w (w.releaseVmm pid) := by
  have hset : QuietStep plan w (w.setVmm fun v => { v with process := false }) := by
    refine Quiet.setVmm (fun v => rfl) (fun v => rfl) (fun u hu halive => ?_) hi
    rw [hv] at hu
    cases hu
    rw [((hi.vmm v hv).2 halive).2] at hreaped
    cases hreaped
  refine hset.trans (Quiet.setOwnerReaped (fun _ => ?_) hset.inv)
  exact hi.noVmmAlive hv hreaped

instance OwnedVmm.release_quiet (v : OwnedVmm) : Keeps (Quiet plan) v.release := by
  refine quiet_of_steps (KeepsFrom.get fun w hi => ?_)
  cases hreaped : w.vmm.bind OwnedVmm.reapedStatus with
  | none => exact fun u hu => .refl (hu ▸ hi)
  | some status =>
    obtain ⟨v, hv, hstatus⟩ := Option.bind_eq_some_iff.mp hreaped
    rintro _ rfl
    exact releaseVmm_step hi hv (by rw [hstatus]; rfl) _

instance OwnedVmm.terminateAndReap_quiet (v : OwnedVmm) (sendTerm : Bool) :
    Keeps (Quiet plan) (v.terminateAndReap sendTerm) := by
  have : Keeps (Quiet plan) (match v.reapedStatus with
      | some status => pure status
      | none => fail (.new .notRunning "VMM child was already released") : ShimProg ExitStatus) := by
    cases v.reapedStatus <;> infer_instance
  unfold OwnedVmm.terminateAndReap
  infer_instance

instance OwnedVmm.reapExitedGroup_quiet (v : OwnedVmm) : Keeps (Quiet plan) v.reapExitedGroup :=
  v.terminateAndReap_quiet false

/-- The child of the VMM has exited. -/
def VmmGone (w : World) : Prop := ∀ v, w.vmm = some v → Gone v.child w

theorem VmmGone.after {w w' : World} (h : VmmGone w) (hstep : SettlingStep plan w w') : VmmGone w' := by
  intro v hv
  have hchild := hstep.vmm
  rw [hv] at hchild
  obtain ⟨u, hu, hchild⟩ := Option.map_eq_some_iff.mp hchild.symm
  exact hchild ▸ (h u hu).after hstep.toForwardStep

theorem Inv.vmmGone {w : World} (hi : Inv plan w) {v : OwnedVmm} (hv : w.vmm = some v)
    (hreaped : v.reapedStatus.isSome = true) : VmmGone w := by
  intro u hu halive
  rw [hv] at hu
  cases hu
  rw [((hi.vmm v hv).2 halive).2] at hreaped
  cases hreaped

/-- An owner that has let go of its child has seen it exit. -/
theorem OwnedVmm.terminateAndReap_gone {v : OwnedVmm} {sendTerm : Bool} {status : ExitStatus} {w w' : World}
    (hi : Inv plan w)
    (hv : v.reapedStatus.isSome = true → VmmGone w) (h : v.terminateAndReap sendTerm w = (.ok status, w')) : VmmGone w' := by
  unfold OwnedVmm.terminateAndReap at h
  cases hprocess : v.process with
  | false =>
    rw [if_neg (by simp [hprocess])] at h
    cases hreaped : v.reapedStatus with
    | none =>
      rw [hreaped] at h
      cases h
    | some status =>
      rw [hreaped] at h
      cases h
      exact hv (by rw [hreaped]; rfl)
  | true =>
    rw [if_pos hprocess] at h
    obtain ⟨_, u₁, h₁, h⟩ := bind_eq_ok.mp h
    obtain ⟨_, u₂, h₂, h⟩ := bind_eq_ok.mp h
    obtain ⟨_, u₃, h₃, h⟩ := bind_eq_ok.mp h
    have hi₁ := ((inferInstance : Keeps (Quiet plan) (when v.reapedStatus.isNone (v.killAndReap sendTerm))).run h₁ hi).inv
    have hi₃ := (call_quiet.run h₃ (interact_quiet.run h₂ hi₁).inv).inv
    have hend : QuietStep plan u₃ w' := v.release_quiet.run h hi₃
    obtain ⟨w₃, u₄, hget, h⟩ := bind_eq_ok.mp h
    cases hget
    cases hreaped : u₃.vmm.bind OwnedVmm.reapedStatus with
    | none =>
      rw [hreaped] at h
      cases h
    | some status =>
      obtain ⟨x, hx, hstatus⟩ := Option.bind_eq_some_iff.mp hreaped
      exact (hi₃.vmmGone hx (by rw [hstatus]; rfl)).after hend.toSettlingStep

/-! ## One sidecar -/

instance OwnedSidecar.observeExit_quiet (s : OwnedSidecar) : Keeps (Quiet plan) s.observeExit := by
  unfold OwnedSidecar.observeExit
  infer_instance

theorem markReaped_steps (child : Proc) (status : ExitStatus) :
    KeepsFrom (fun w => Inv plan w ∧ Gone child w) (QuietStep plan)
      (modify (World.markReaped child status) : ShimProg Unit) := by
  rintro w ⟨hi, hgone⟩
  refine Quiet.mapSidecars (fun s => ?_) (fun s => ?_) (fun s hs => ?_) hi
  · split <;> rfl
  · split <;> rfl
  · rw [if_neg]
    · exact ⟨rfl, rfl⟩
    · rintro rfl
      exact hgone hs

theorem OwnedSidecar.reap_steps (s : OwnedSidecar) :
    KeepsFrom (fun w => Inv plan w ∧ Gone s.child w) (QuietStep plan) s.reap := by
  unfold OwnedSidecar.reap
  cases s.reapedStatus with
  | some status => exact fun w hw => .refl hw.1
  | none =>
    refine KeepsFrom.ite (fun _ => ?_) fun _ w hw => .refl hw.1
    refine Gone.steps call_quiet fun a => ?_
    refine KeepsFrom.bind (fun _ => Inv plan) (markReaped_steps s.child a.status) ?_ fun _ w hi => .refl hi
    exact fun w _ w' hw h => ((markReaped_steps s.child a.status).run hw h).inv

theorem OwnedSidecar.reapOr_of_reaped {s : OwnedSidecar} {status : ExitStatus} (h : s.reapedStatus = some status)
    (e : FirestoneError) : s.reapOr e = pure status := by
  unfold OwnedSidecar.reapOr OwnedSidecar.observeExit OwnedSidecar.reap
  rw [h]
  rfl

theorem OwnedSidecar.reapOr_of_process {s : OwnedSidecar} (h : s.reapedStatus = none) (hprocess : s.process = true)
    (e : FirestoneError) : s.reapOr e = Shim.observeExit s.child >>= fun seen => if seen then s.reap else fail e := by
  unfold OwnedSidecar.reapOr OwnedSidecar.observeExit
  rw [h, hprocess]
  rfl

theorem OwnedSidecar.reapOr_of_released {s : OwnedSidecar} (h : s.reapedStatus = none) (hprocess : s.process = false)
    (e : FirestoneError) : s.reapOr e = fail (.new .notRunning ("sidecar " ++ s.name ++ " child was reaped")) := by
  unfold OwnedSidecar.reapOr OwnedSidecar.observeExit
  rw [h, hprocess]
  rfl

instance OwnedSidecar.reapOr_quiet (s : OwnedSidecar) (e : FirestoneError) : Keeps (Quiet plan) (s.reapOr e) := by
  cases hreaped : s.reapedStatus with
  | some status =>
    rw [OwnedSidecar.reapOr_of_reaped hreaped]
    exact keeps_pure _
  | none =>
    cases hprocess : s.process with
    | false =>
      rw [OwnedSidecar.reapOr_of_released hreaped hprocess]
      exact keeps_fail _
    | true =>
      rw [OwnedSidecar.reapOr_of_process hreaped hprocess]
      exact observeExit_bind_quiet s.reap_steps (keeps_fail _)

instance OwnedSidecar.reapExited_quiet (s : OwnedSidecar) : Keeps (Quiet plan) s.reapExited := s.reapOr_quiet _

instance OwnedSidecar.signal_quiet (s : OwnedSidecar) : Keeps (Quiet plan) s.signal := by
  unfold OwnedSidecar.signal
  infer_instance

instance OwnedSidecar.terminate_quiet (s : OwnedSidecar) : Keeps (Quiet plan) s.terminate := by
  unfold OwnedSidecar.terminate
  infer_instance

instance OwnedSidecar.terminateAndReap_quiet (s : OwnedSidecar) : Keeps (Quiet plan) s.terminateAndReap := by
  have : Keeps (Quiet plan) (match s.reapedStatus with
      | some status => pure status
      | none => fail (.new .notRunning ("sidecar " ++ s.name ++ " child was already released")) : ShimProg ExitStatus) := by
    cases s.reapedStatus <;> infer_instance
  unfold OwnedSidecar.terminateAndReap
  infer_instance

instance OwnedSidecar.drop_quiet (s : OwnedSidecar) : Keeps (Quiet plan) s.drop := by
  unfold OwnedSidecar.drop
  infer_instance

theorem withoutKey_subset {α : Type} {name : String} {l : List (String × α)} {x : String × α}
    (h : x ∈ withoutKey name l) : x ∈ l :=
  (List.mem_filter.mp h).1

instance forgetSidecar_quiet (name : String) : Keeps (Quiet plan) (forgetSidecar name) :=
  Keeps.bind (setIdentity_quiet fun _ => .inl rfl) fun _ =>
    setState_quiet (fun _ => ⟨fun _ h => h, fun _ h => withoutKey_subset h⟩) (fun _ => .inl rfl) (fun _ => id) fun _ => rfl

instance ensureSidecarAlive_quiet (s : OwnedSidecar) : Keeps (Quiet plan) (ensureSidecarAlive s) := by
  unfold ensureSidecarAlive OwnedSidecar.exitError
  infer_instance

instance ensureOwnedSidecarsAlive_quiet : Keeps (Quiet plan) ensureOwnedSidecarsAlive := by
  unfold ensureOwnedSidecarsAlive
  infer_instance

/-! ## All sidecars -/

instance noneRuns_quiet (l : List OwnedSidecar) : Keeps (Quiet plan) (noneRuns l) := by
  unfold noneRuns
  infer_instance

instance signalRunning_quiet (l : List OwnedSidecar) : Keeps (Quiet plan) (signalRunning l) := by
  unfold signalRunning
  infer_instance

instance signalAndWait_quiet (l : List OwnedSidecar) : Keeps (Quiet plan) (signalAndWait l) := by
  unfold signalAndWait
  infer_instance

instance firstRunning_quiet (l : List OwnedSidecar) : Keeps (Quiet plan) (firstRunning l) := by
  induction l with
  | nil => exact keeps_pure _
  | cons s l ih =>
    refine Keeps.bind inferInstance ?_
    rintro (e | _ | _)
    · exact ih
    · exact keeps_pure _
    · exact ih

/-- What the owners in a list say about a child that is alive. -/
def Running (l : List OwnedSidecar) (w : World) : Prop :=
  ∀ s ∈ l, s.child ∈ w.alive → s.process = true ∧ s.reapedStatus = none

theorem Running.after {l : List OwnedSidecar} {w w' : World} (h : Running l w) (hstep : ForwardStep plan w w') :
    Running l w' :=
  fun s hs hc => h s hs (hstep.alive _ hc)

/-- A child that is alive is seen to be. -/
theorem OwnedSidecar.observeExit_of_alive {s : OwnedSidecar} {w w' : World} {o : Outcome FirestoneError Bool}
    (hrun : s.child ∈ w.alive → s.process = true ∧ s.reapedStatus = none) (h : s.observeExit w = (o, w')) (ho : o ≠ .killed)
    (halive : s.child ∈ w'.alive) (hmono : ∀ p ∈ w'.alive, p ∈ w.alive) : o = .ok false := by
  obtain ⟨hprocess, hreaped⟩ := hrun (hmono _ halive)
  unfold OwnedSidecar.observeExit at h
  rw [if_neg (by simp [hreaped]), if_pos hprocess] at h
  unfold Shim.observeExit at h
  rcases hinteract : interact w with ⟨a | e | _, u⟩
  · rw [bind_run_ok hinteract, bind_run_ok get_run] at h
    by_cases hmem : s.child ∈ u.alive
    · rw [if_pos hmem] at h
      cases h
      rfl
    · rw [if_neg hmem] at h
      have : w' = u := by
        cases he : a.error <;> rw [he] at h <;> cases h <;> rfl
      exact absurd (this ▸ halive) hmem
  · unfold interact at hinteract
    dsimp only at hinteract
    split at hinteract <;> cases hinteract
  · rw [bind_run_killed hinteract] at h
    cases h
    exact absurd rfl ho

/-- No sidecar is seen running only when all have exited. -/
theorem firstRunning_gone {l : List OwnedSidecar} {w w' : World} (hi : Inv plan w) (hrun : Running l w)
    (h : firstRunning l w = (.ok none, w')) : ∀ s ∈ l, Gone s.child w' := by
  induction l generalizing w with
  | nil => nofun
  | cons s l ih =>
    obtain ⟨r, u, hr, h⟩ := bind_eq_ok.mp h
    have hstep : QuietStep plan w u := (inferInstance : Keeps (Quiet plan) (attempt s.observeExit)).run hr hi
    have hrest : firstRunning l u = (.ok none, w') := by
      rcases r with e | _ | _
      · exact h
      · cases h
      · exact h
    have hstep' : QuietStep plan u w' := (firstRunning_quiet l).run hrest hstep.inv
    intro t ht
    rcases List.mem_cons.mp ht with rfl | ht
    · refine Gone.after (fun halive => ?_) hstep'.forward
      rcases attempt_eq_ok.mp hr with ⟨b, rfl, hobserve⟩ | ⟨e, rfl, hobserve⟩
      · have := OwnedSidecar.observeExit_of_alive (hrun t ht) hobserve nofun halive hstep.alive
        cases this
        cases h
      · have := OwnedSidecar.observeExit_of_alive (hrun t ht) hobserve nofun halive hstep.alive
        cases this
    · refine ih hstep.inv (fun s hs => ?_) hrest t ht
      exact (Running.after (fun s hs => hrun s hs) hstep.forward) s (List.mem_cons_of_mem _ hs)

/-- Every owned sidecar has exited. -/
def AllGone (w : World) : Prop := ∀ s ∈ w.sidecars, Gone s.child w

theorem AllGone.after {w w' : World} (h : AllGone w) (hstep : ForwardStep plan w w') : AllGone w' := by
  intro s hs
  obtain ⟨t, ht, hchild, -⟩ := hstep.sidecars s hs
  exact hchild ▸ (h t ht).after hstep

theorem AllGone.quietStep {w w' : World} (hstep : QuietStep plan w w') (h : Inv plan w ∧ AllGone w) :
    Inv plan w' ∧ AllGone w' :=
  ⟨hstep.inv, h.2.after hstep.forward⟩

theorem AllGone.steps {α β : Type} {x : ShimProg α} {f : α → ShimProg β} (hx : Keeps (Quiet plan) x)
    (hf : ∀ a, KeepsFrom (fun w => Inv plan w ∧ AllGone w) (QuietStep plan) (f a)) :
    KeepsFrom (fun w => Inv plan w ∧ AllGone w) (QuietStep plan) (x >>= f) :=
  KeepsFrom.bind (fun _ w => Inv plan w ∧ AllGone w) (quiet_steps hx fun _ h => h.1)
    (fun _ _ _ hw h => AllGone.quietStep (hx.run h hw.1) hw) hf

theorem popSidecars_steps (l : List OwnedSidecar) (e : Option FirestoneError) :
    KeepsFrom (fun w => Inv plan w ∧ AllGone w) (QuietStep plan) (popSidecars l e) := by
  induction l generalizing e with
  | nil => exact fun w hw => .refl hw.1
  | cons s l ih =>
    have hpop : KeepsFrom (fun w => Inv plan w ∧ AllGone w) (QuietStep plan)
        (modify fun w => { w with sidecars := w.sidecars.dropLast } : ShimProg Unit) := fun w hw =>
      Quiet.dropSidecars (fun s hs => List.dropLast_subset _ hs) (fun s hs _ => hw.2 s hs) hw.1
    refine KeepsFrom.bind (fun _ w => Inv plan w ∧ AllGone w) hpop
      (fun w _ w' hw h => AllGone.quietStep (hpop.run hw h) hw) fun _ => ?_
    exact AllGone.steps inferInstance fun _ => AllGone.steps inferInstance fun a => AllGone.steps inferInstance fun _ => ih _

/-- Looking and signalling from the start of a stop on, up to the sight of no sidecar running. -/
theorem settled_gone {l : List OwnedSidecar} {w u w' : World} (hi : Inv plan w) (hl : w.sidecars = l)
    (hstep : QuietStep plan w u) (h : firstRunning l u = (.ok none, w')) : AllGone w' := by
  have hrun : Running l u := (Running.after (fun s hs => hi.sidecars s (hl ▸ hs)) hstep.forward)
  have hgone := firstRunning_gone hstep.inv hrun h
  have hall : QuietStep plan w w' := hstep.trans ((firstRunning_quiet l).run h hstep.inv)
  intro s hs
  obtain ⟨t, ht, hchild, -⟩ := hall.sidecars s hs
  exact hchild ▸ hgone t (hl ▸ ht)

instance publishStopped_quiet (e : Option FirestoneError) : Keeps (Quiet plan) (publishStopped e) := by
  have : Keeps (Quiet plan) (match e with
      | some e => fail e
      | none => pure () : ShimProg Unit) := by cases e <;> infer_instance
  unfold publishStopped
  infer_instance

theorem popAndPublish_steps (l : List OwnedSidecar) :
    KeepsFrom (fun w => Inv plan w ∧ AllGone w) (QuietStep plan) (popSidecars l none >>= publishStopped) := by
  have hpop : KeepsFrom (fun w => Inv plan w ∧ AllGone w) (QuietStep plan) (popSidecars l none) := popSidecars_steps l none
  exact KeepsFrom.bind (fun _ => Inv plan) hpop (fun w _ w' hw h => (hpop.run hw h).inv) fun e =>
    quiet_steps (publishStopped_quiet e) fun _ h => h

/-- A program after a look at the state, from its runs. -/
theorem get_bind_quiet {α : Type} {f : World → ShimProg α} (h : ∀ w, Inv plan w → QuietStep plan w (f w w).2) :
    Keeps (Quiet plan) (get >>= f) :=
  ⟨fun w hi => h w hi⟩

/-- A quiet part at the beginning. -/
theorem QuietStep.andThen {α β : Type} {w : World} {x : ShimProg α} {f : α → ShimProg β} (hx : Keeps (Quiet plan) x)
    (hf : ∀ a, KeepsFrom (QuietStep plan w) (QuietStep plan) (f a)) :
    KeepsFrom (QuietStep plan w) (QuietStep plan) (x >>= f) :=
  KeepsFrom.bind (fun _ => QuietStep plan w) (quiet_steps hx fun _ h => h.inv)
    (fun _ _ _ hu h => hu.trans (hx.run h hu.inv)) hf

/-- What goes on after both signals of a stop. -/
theorem lookForRunning_steps (w : World) (hi : Inv plan w) : KeepsFrom (QuietStep plan w) (QuietStep plan)
    (do
      match ← firstRunning w.sidecars with
      | some s =>
        fail (.new .timeout ("sidecar " ++ s.name ++ " pid " ++ toString s.child.pid ++ " did not exit after SIGKILL"))
      | none =>
        let artifactError ← popSidecars w.sidecars.reverse none
        publishStopped artifactError : ShimProg Unit) := by
  refine KeepsFrom.bind (fun r u => Inv plan u ∧ (r = none → AllGone u))
    (quiet_steps (firstRunning_quiet w.sidecars) fun _ h => h.inv) (fun u r u' hu h => ?_) fun r => ?_
  · refine ⟨((firstRunning_quiet w.sidecars).run h hu.inv).inv, ?_⟩
    rintro rfl
    exact settled_gone hi rfl hu h
  · cases r with
    | some s => exact fun u hu => .refl hu.1
    | none => exact (popAndPublish_steps w.sidecars.reverse).pre fun u hu => ⟨hu.1, hu.2 rfl⟩

instance stopOwnedSidecars_quiet : Keeps (Quiet plan) stopOwnedSidecars := by
  refine get_bind_quiet fun w hi => ?_
  have hsteps := QuietStep.andThen (signalAndWait_quiet w.sidecars) fun _ =>
    QuietStep.andThen (signalAndWait_quiet w.sidecars) fun _ => lookForRunning_steps w hi
  exact hsteps w (.refl hi)

/-- A stop that succeeds leaves no owned sidecar alive. -/
theorem stopOwnedSidecars_gone {w w' : World} (hi : Inv plan w) (h : stopOwnedSidecars w = (.ok (), w')) :
    ∀ s ∈ w.sidecars, Gone s.child w' := by
  obtain ⟨v, u, hget, h⟩ := bind_eq_ok.mp h
  cases hget
  obtain ⟨_, u₁, h₁, h⟩ := bind_eq_ok.mp h
  obtain ⟨_, u₂, h₂, h⟩ := bind_eq_ok.mp h
  obtain ⟨r, u₃, h₃, h⟩ := bind_eq_ok.mp h
  have hs₁ : QuietStep plan w u₁ := (signalAndWait_quiet w.sidecars).run h₁ hi
  have hs₂ := hs₁.trans ((signalAndWait_quiet w.sidecars).run h₂ hs₁.inv)
  cases r with
  | some s => cases h
  | none =>
    have hrun : Running w.sidecars u₂ := Running.after hi.sidecars hs₂.forward
    have hgone := firstRunning_gone hs₂.inv hrun h₃
    have hs₃ := hs₂.trans ((firstRunning_quiet w.sidecars).run h₃ hs₂.inv)
    have hend : QuietStep plan u₃ w' :=
      (popAndPublish_steps w.sidecars.reverse).run ⟨hs₃.inv, settled_gone hi rfl hs₂ h₃⟩ h
    exact fun s hs => (hgone s hs).after hend.forward

theorem addDegraded_eq (marker : String) (st : MachineState) :
    addDegraded marker st = { st with degraded := (addDegraded marker st).degraded } := by
  unfold addDegraded
  split <;> rfl

instance addDegraded_quiet (marker : String) : Keeps (Quiet plan) (setState (addDegraded marker)) := by
  refine setState_quiet (fun st => ?_) (fun st => .inl ?_) (fun st => ?_) (fun st => ?_)
  all_goals rw [addDegraded_eq]
  · exact ⟨fun _ h => h, fun _ h => h⟩
  · exact id

/-- A sidecar that has exited is let go of. -/
theorem reconcileExited_steps (s : OwnedSidecar) :
    KeepsFrom (fun w => Inv plan w ∧ Gone s.child w) (QuietStep plan) (reconcileExited s) := by
  have herase : KeepsFrom (fun w => Inv plan w ∧ Gone s.child w) (QuietStep plan)
      (modify fun w => { w with sidecars := w.sidecars.erase s } : ShimProg Unit) := by
    intro w hw
    refine Quiet.dropSidecars (fun t ht => List.mem_of_mem_erase ht) (fun t ht hnot => ?_) hw.1
    by_cases hts : t = s
    · exact hts ▸ hw.2
    · exact absurd ((List.mem_erase_of_ne hts).mpr ht) hnot
  exact KeepsFrom.bind (fun _ => Inv plan) herase (fun w _ w' hw h => (herase.run hw h).inv) fun _ =>
    quiet_steps inferInstance fun _ h => h

theorem reconcileOwnedSidecarExits_steps (l : List OwnedSidecar) :
    KeepsFrom (fun w => Inv plan w ∧ Running l w) (QuietStep plan) (reconcileOwnedSidecarExits l) := by
  refine KeepsFrom.forM (fun w hw => .refl hw.1) (fun w w' h hw => ⟨h.inv, hw.2.after h.forward⟩) fun s hs => ?_
  refine KeepsFrom.bind (fun seen w => Inv plan w ∧ (seen = true → Gone s.child w))
    (quiet_steps s.observeExit_quiet fun _ h => h.1) (fun w seen w' hw h => ?_) fun seen => ?_
  · have hstep := s.observeExit_quiet.run h hw.1
    refine ⟨hstep.inv, ?_⟩
    rintro rfl halive
    cases OwnedSidecar.observeExit_of_alive (hw.2 s hs) h nofun halive hstep.alive
  · cases seen with
    | false => exact fun w hw => .refl hw.1
    | true => exact (reconcileExited_steps s).pre fun w hw => ⟨hw.1, hw.2 rfl⟩

/-! ## Recovered sidecars -/

instance noneAlive_quiet (l : List RecoveredProcess) : Keeps (Quiet plan) (noneAlive l) := by
  unfold noneAlive
  infer_instance

instance signalAlive_quiet (l : List RecoveredProcess) : Keeps (Quiet plan) (signalAlive l) := by
  unfold signalAlive
  infer_instance

instance ensureExited_quiet (l : List RecoveredProcess) : Keeps (Quiet plan) (ensureExited l) := by
  unfold ensureExited
  infer_instance

theorem ensureExited_gone {l : List RecoveredProcess} {w w' : World} (hi : Inv plan w)
    (h : ensureExited l w = (.ok (), w')) : ∀ s ∈ l, Gone s.process w' := by
  induction l generalizing w with
  | nil => nofun
  | cons s l ih =>
    obtain ⟨_, u, hs, hrest⟩ := bind_eq_ok.mp h
    obtain ⟨alive, u', halive, hs⟩ := bind_eq_ok.mp hs
    have hi' := ((isAlive_quiet s.process).run halive hi).inv
    cases alive with
    | true => cases hs
    | false =>
      cases hs
      have hstep : QuietStep plan u w' := (ensureExited_quiet l).run hrest hi'
      intro t ht
      rcases List.mem_cons.mp ht with rfl | ht
      · exact (isAlive_gone halive).after hstep.forward
      · exact ih hi' hrest t ht

/-- Every recovered sidecar has exited. -/
def RecoveredGone (w : World) : Prop := ∀ s ∈ w.recoveredSidecars, Gone s.process w

theorem RecoveredGone.after {w w' : World} (h : RecoveredGone w) (hstep : ForwardStep plan w w') : RecoveredGone w' :=
  fun s hs => (h s (hstep.recoveredSidecars s hs)).after hstep

theorem popRecovered_steps (l : List RecoveredProcess) (e : Option FirestoneError) :
    KeepsFrom (fun w => Inv plan w ∧ RecoveredGone w) (QuietStep plan) (popRecovered l e) := by
  induction l generalizing e with
  | nil => exact fun w hw => .refl hw.1
  | cons s l ih =>
    have hpop : KeepsFrom (fun w => Inv plan w ∧ RecoveredGone w) (QuietStep plan)
        (modify fun w => { w with recoveredSidecars := w.recoveredSidecars.dropLast } : ShimProg Unit) := fun w hw =>
      Quiet.dropRecovered (fun s hs => List.dropLast_subset _ hs) (fun s hs _ => hw.2 s hs) hw.1
    have hkeep : ∀ {w w' : World}, QuietStep plan w w' → Inv plan w ∧ RecoveredGone w → Inv plan w' ∧ RecoveredGone w' :=
      fun hstep hw => ⟨hstep.inv, hw.2.after hstep.forward⟩
    refine KeepsFrom.bind (fun _ w => Inv plan w ∧ RecoveredGone w) hpop
      (fun w _ w' hw h => hkeep (hpop.run hw h) hw) fun _ => ?_
    refine KeepsFrom.bind (fun _ w => Inv plan w ∧ RecoveredGone w) (quiet_steps interact_quiet fun _ h => h.1)
      (fun w _ w' hw h => hkeep (interact_quiet.run h hw.1) hw) fun a => ?_
    exact KeepsFrom.bind (fun _ w => Inv plan w ∧ RecoveredGone w) (quiet_steps (forgetSidecar_quiet s.label) fun _ h => h.1)
      (fun w _ w' hw h => hkeep ((forgetSidecar_quiet s.label).run h hw.1) hw) fun _ => ih _

/-- What goes on after both signals of a stop. -/
theorem ensureAndPop_steps (w : World) : KeepsFrom (QuietStep plan w) (QuietStep plan)
    (do
      ensureExited w.recoveredSidecars
      let artifactError ← popRecovered w.recoveredSidecars.reverse none
      publishStopped artifactError : ShimProg Unit) := by
  have hpop : KeepsFrom (fun w => Inv plan w ∧ RecoveredGone w) (QuietStep plan)
      (popRecovered w.recoveredSidecars.reverse none) := popRecovered_steps _ _
  refine KeepsFrom.bind (fun _ u => Inv plan u ∧ RecoveredGone u)
    (quiet_steps (ensureExited_quiet w.recoveredSidecars) fun _ h => h.inv) (fun u _ u' hu h => ?_) fun _ => ?_
  · have hstep := (ensureExited_quiet w.recoveredSidecars).run h hu.inv
    refine ⟨hstep.inv, fun s hs => ensureExited_gone hu.inv h s ?_⟩
    exact hu.recoveredSidecars s (hstep.recoveredSidecars s hs)
  · exact KeepsFrom.bind (fun _ => Inv plan) hpop (fun u _ u' hu h => (hpop.run hu h).inv) fun e =>
      quiet_steps (publishStopped_quiet e) fun _ h => h

instance stopRecoveredSidecars_quiet : Keeps (Quiet plan) stopRecoveredSidecars := by
  refine get_bind_quiet fun w hi => ?_
  have hend : KeepsFrom (QuietStep plan w) (QuietStep plan) _ := ensureAndPop_steps w
  have hsteps := QuietStep.andThen (signalAlive_quiet w.recoveredSidecars) fun _ =>
    QuietStep.andThen (signalAlive_quiet w.recoveredSidecars) fun _ => hend
  exact hsteps w (.refl hi)

/-- A stop that succeeds leaves no recovered sidecar alive. -/
theorem stopRecoveredSidecars_gone {w w' : World} (hi : Inv plan w) (h : stopRecoveredSidecars w = (.ok (), w')) :
    ∀ s ∈ w.recoveredSidecars, Gone s.process w' := by
  obtain ⟨v, u, hget, h⟩ := bind_eq_ok.mp h
  cases hget
  obtain ⟨_, u₁, h₁, h⟩ := bind_eq_ok.mp h
  obtain ⟨_, u₂, h₂, h⟩ := bind_eq_ok.mp h
  obtain ⟨_, u₃, h₃, h⟩ := bind_eq_ok.mp h
  obtain ⟨e, u₄, h₄, h⟩ := bind_eq_ok.mp h
  have hs₁ : QuietStep plan w u₁ := (signalAlive_quiet w.recoveredSidecars).run h₁ hi
  have hs₂ := hs₁.trans ((signalAlive_quiet w.recoveredSidecars).run h₂ hs₁.inv)
  have hgone := ensureExited_gone hs₂.inv h₃
  have hs₃ := hs₂.trans ((ensureExited_quiet w.recoveredSidecars).run h₃ hs₂.inv)
  have hs₄ : QuietStep plan u₃ u₄ := (popRecovered_steps w.recoveredSidecars.reverse none).run
    ⟨hs₃.inv, fun s hs => hgone s (hs₃.recoveredSidecars s hs)⟩ h₄
  have hend := hs₄.trans ((publishStopped_quiet e).run h hs₄.inv)
  exact fun s hs => (hgone s hs).after hend.forward

theorem reconcileRecoveredExited_steps (s : RecoveredProcess) :
    KeepsFrom (fun w => Inv plan w ∧ Gone s.process w) (QuietStep plan) (reconcileRecoveredExited s) := by
  have herase : KeepsFrom (fun w => Inv plan w ∧ Gone s.process w) (QuietStep plan)
      (modify fun w => { w with recoveredSidecars := w.recoveredSidecars.erase s } : ShimProg Unit) := by
    intro w hw
    refine Quiet.dropRecovered (fun t ht => List.mem_of_mem_erase ht) (fun t ht hnot => ?_) hw.1
    by_cases hts : t = s
    · exact hts ▸ hw.2
    · exact absurd ((List.mem_erase_of_ne hts).mpr ht) hnot
  exact KeepsFrom.bind (fun _ => Inv plan) herase (fun w _ w' hw h => (herase.run hw h).inv) fun _ =>
    quiet_steps inferInstance fun _ h => h

instance reconcileRecoveredSidecarExits_quiet (l : List RecoveredProcess) :
    Keeps (Quiet plan) (reconcileRecoveredSidecarExits l) := by
  have : ∀ s, Keeps (Quiet plan) (do
      if ← isAlive s.process then pure () else reconcileRecoveredExited s : ShimProg Unit) := by
    refine fun s => quiet_of_steps (KeepsFrom.bind (fun alive w => Inv plan w ∧ (alive = false → Gone s.process w))
      (quiet_steps (isAlive_quiet s.process) fun _ h => h) (fun w alive w' hi h => ?_) fun alive => ?_)
    · refine ⟨((isAlive_quiet s.process).run h hi).inv, ?_⟩
      rintro rfl
      exact isAlive_gone h
    · cases alive with
      | true => exact fun w hw => .refl hw.1
      | false => exact (reconcileRecoveredExited_steps s).pre fun w hw => ⟨hw.1, hw.2 rfl⟩
  unfold reconcileRecoveredSidecarExits
  infer_instance

end Firestone.Shim
