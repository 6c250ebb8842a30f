import Firestone.Shim.Quiet

/-!
# The stops

A stop lets go of nothing alive, but it forgets the pid of a VMM that it has seen exit: it is settling.

* `stopOwnedVmm_settling`, `stopRecoveredVmm_settling` — both stops of a machine.
* `Retired` — the state of a machine that has ended, in memory and on disk. `writeFinalState_retired` puts it there, and what
  comes after it leaves it (`SameState`).
* `stopOwnedVmm_gone`, `stopRecoveredVmm_gone` — what has exited when a stop succeeds.
-/

namespace Firestone.Shim

open Firestone.Lib Prog

variable {plan : LaunchPlan}

set_option synthInstance.maxSize 2000

instance forgetVmm_settling : Keeps (Settling plan) forgetVmm := by
  have : Keeps (Quiet plan) (setIdentity fun i => { i with vmm := none }) := setIdentity_quiet fun _ => .inr rfl
  refine Keeps.bind inferInstance fun _ => ?_
  exact setState_settling (fun _ => ⟨nofun, fun _ h => h⟩) (fun _ => .inl rfl) fun _ => id

/-- An end state. -/
def Ended (status : MachineStatus) : Prop := status = .stopped ∨ status = .failed

theorem Ended.ne_running {status : MachineStatus} (h : Ended status) : status ≠ .running := by
  rcases h with rfl | rfl <;> nofun

theorem writeFinalState_settling {status : MachineStatus} (h : Ended status) (processStatus : Option ExitStatus)
    (reason : ExitReason) : Keeps (Settling plan) (writeFinalState status processStatus reason) := by
  have : ∀ exit, Keeps (Settling plan) (setState fun st => finalState st status exit) := fun exit =>
    setState_settling (fun st => ⟨nofun, nofun⟩) (fun st => .inr rfl) fun st hrunning => absurd hrunning h.ne_running
  unfold writeFinalState
  infer_instance

/-! ## The VMM is ended -/

instance shutDownVmm_quiet : Keeps (Quiet plan) shutDownVmm := by
  refine Keeps.bind inferInstance ?_
  rintro (e | _) <;> infer_instance

instance awaitGuestShutdown_quiet (v : OwnedVmm) (n : Nat) (seen : Bool) :
    Keeps (Quiet plan) (awaitGuestShutdown v n seen) := by
  induction n generalizing seen with
  | zero => exact keeps_pure _
  | succ n ih =>
    have : ∀ r : Except FirestoneError Unit, Keeps (Quiet plan) (match r with
        | .error _ => pure seen
        | .ok _ => do
          let info ← interact
          if info.error.isNone ∧ info.yes then
            shutDownVmm
            awaitGuestShutdown v n true
          else awaitGuestShutdown v n seen) := by
      rintro (e | _) <;> infer_instance
    unfold awaitGuestShutdown
    infer_instance

instance awaitPowered_quiet (v : OwnedVmm) (power : Answer) : Keeps (Quiet plan) (awaitPowered v power) := by
  unfold awaitPowered
  infer_instance

section events

variable {events : EventSink} [∀ r, Keeps (Quiet plan) (events r)]

instance silent_quiet (r : Reply) : Keeps (Quiet plan) (silent r) := keeps_pure _

instance endOwnedVmm_quiet (force : Bool) (v : OwnedVmm) : Keeps (Quiet plan) (endOwnedVmm events force v) := by
  unfold endOwnedVmm
  infer_instance

/-- The VMM has exited once it is ended. -/
theorem endOwnedVmm_gone {force : Bool} {v : OwnedVmm} {r : ExitStatus × ExitReason} {w w' : World} (hi : Inv plan w)
    (hv : v.reapedStatus.isSome = true → VmmGone w) (h : endOwnedVmm events force v w = (.ok r, w')) : VmmGone w' := by
  unfold endOwnedVmm at h
  cases force with
  | true =>
    obtain ⟨status, u, hreap, h⟩ := bind_eq_ok.mp h
    cases h
    exact OwnedVmm.terminateAndReap_gone hi hv hreap
  | false =>
    obtain ⟨_, u₁, h₁, h⟩ := bind_eq_ok.mp h
    obtain ⟨power, u₂, h₂, h⟩ := bind_eq_ok.mp h
    obtain ⟨seen, u₃, h₃, h⟩ := bind_eq_ok.mp h
    obtain ⟨exited, u₄, h₄, h⟩ := bind_eq_ok.mp h
    have hs₁ : QuietStep plan w u₁ := stopPhaseTimeout_quiet.run h₁ hi
    have hs₂ := hs₁.trans (interact_quiet.run h₂ hs₁.inv)
    have hs₃ := hs₂.trans ((awaitPowered_quiet v power).run h₃ hs₂.inv)
    have hs₄ := hs₃.trans (v.observeExit_quiet.run h₄ hs₃.inv)
    have hv₄ : v.reapedStatus.isSome = true → VmmGone u₄ := fun hr => (hv hr).after hs₄.toSettlingStep
    cases exited with
    | true =>
      obtain ⟨status, u, hreap, h⟩ := bind_eq_ok.mp h
      cases h
      exact OwnedVmm.terminateAndReap_gone hs₄.inv hv₄ hreap
    | false =>
      obtain ⟨_, u₅, h₅, h⟩ := bind_eq_ok.mp h
      obtain ⟨status, u, hreap, h⟩ := bind_eq_ok.mp h
      cases h
      have hs₅ : QuietStep plan u₄ u₅ := (inferInstance : Keeps (Quiet plan) (events _)).run h₅ hs₄.inv
      exact OwnedVmm.terminateAndReap_gone hs₅.inv (fun hr => (hv₄ hr).after hs₅.toSettlingStep) hreap

end events

/-! ## What leaves the state alone -/

/-- The state stays, in memory and on disk. -/
def SameState (w w' : World) : Prop := w'.state = w.state ∧ w'.stateFile = w.stateFile

instance : Std.Refl SameState := ⟨fun _ => ⟨rfl, rfl⟩⟩

instance : IsTrans World SameState := ⟨fun _ _ _ h h' => ⟨h'.1.trans h.1, h'.2.trans h.2⟩⟩

theorem modify_same {f : World → World} (hstate : ∀ w, (f w).state = w.state) (hfile : ∀ w, (f w).stateFile = w.stateFile) :
    Keeps SameState (modify f : ShimProg Unit) :=
  ⟨fun w => ⟨hstate w, hfile w⟩⟩

instance interact_same : Keeps SameState interact := by
  refine ⟨fun w => ?_⟩
  rw [interact_snd]
  exact ⟨rfl, rfl⟩

instance call_same : Keeps SameState call := by
  have : ∀ a : Answer, Keeps SameState (match a.error with
      | some e => fail e
      | none => pure a : ShimProg Answer) := fun a => by cases a.error <;> infer_instance
  unfold call
  infer_instance

instance emit_same (r : Reply) : Keeps SameState (emit r) := modify_same (fun _ => rfl) fun _ => rfl

instance silent_same (r : Reply) : Keeps SameState (silent r) := keeps_pure _

instance mergeConsoleLog_same : Keeps SameState mergeConsoleLog := by
  unfold mergeConsoleLog
  infer_instance

instance observeExit_same (child : Proc) : Keeps SameState (observeExit child) := by
  have : ∀ a : Answer, Keeps SameState (match a.error with
      | some e => fail e
      | none => pure true : ShimProg Bool) := fun a => by cases a.error <;> infer_instance
  unfold observeExit
  infer_instance

instance sendTerm_same (v : OwnedVmm) : Keeps SameState v.sendTerm := by
  unfold OwnedVmm.sendTerm
  infer_instance

instance killAndReap_same (v : OwnedVmm) (sendTerm : Bool) : Keeps SameState (v.killAndReap sendTerm) := by
  have : ∀ status, Keeps SameState (modify (World.markVmmReaped v.child status) : ShimProg Unit) := fun _ =>
    modify_same (fun _ => rfl) fun _ => rfl
  unfold OwnedVmm.killAndReap OwnedVmm.wait
  infer_instance

instance release_same (v : OwnedVmm) : Keeps SameState v.release := by
  have : ∀ pid, Keeps SameState (modify (World.releaseVmm pid) : ShimProg Unit) := fun _ =>
    modify_same (fun _ => rfl) fun _ => rfl
  refine Keeps.bind inferInstance fun w => ?_
  cases w.vmm.bind OwnedVmm.reapedStatus <;> infer_instance

instance terminateAndReap_same (v : OwnedVmm) (sendTerm : Bool) : Keeps SameState (v.terminateAndReap sendTerm) := by
  have : Keeps SameState (match v.reapedStatus with
      | some status => pure status
      | none => fail (.new .notRunning "VMM child was already released") : ShimProg ExitStatus) := by
    cases v.reapedStatus <;> infer_instance
  unfold OwnedVmm.terminateAndReap
  infer_instance

instance dropVmm_same : Keeps SameState dropVmm := by
  have : Keeps SameState (modify fun w => { w with vmm := none } : ShimProg Unit) :=
    modify_same (fun _ => rfl) fun _ => rfl
  refine Keeps.bind inferInstance fun w => ?_
  cases w.vmm <;> infer_instance

instance sidecarObserveExit_same (s : OwnedSidecar) : Keeps SameState s.observeExit := by
  unfold OwnedSidecar.observeExit
  infer_instance

instance reapOr_same (s : OwnedSidecar) (e : FirestoneError) : Keeps SameState (s.reapOr e) := by
  have : ∀ status, Keeps SameState (modify (World.markReaped s.child status) : ShimProg Unit) := fun _ =>
    modify_same (fun _ => rfl) fun _ => rfl
  have : Keeps SameState s.reap := by
    unfold OwnedSidecar.reap
    cases s.reapedStatus <;> infer_instance
  unfold OwnedSidecar.reapOr
  infer_instance

instance sidecarTerminate_same (s : OwnedSidecar) : Keeps SameState s.terminate := by
  unfold OwnedSidecar.terminate OwnedSidecar.signal
  infer_instance

instance sidecarTerminateAndReap_same (s : OwnedSidecar) : Keeps SameState s.terminateAndReap := by
  have : Keeps SameState (match s.reapedStatus with
      | some status => pure status
      | none => fail (.new .notRunning ("sidecar " ++ s.name ++ " child was already released")) : ShimProg ExitStatus) := by
    cases s.reapedStatus <;> infer_instance
  unfold OwnedSidecar.terminateAndReap
  infer_instance

instance sidecarDrop_same (s : OwnedSidecar) : Keeps SameState s.drop := by
  unfold OwnedSidecar.drop
  infer_instance

instance dropSidecars_same : Keeps SameState dropSidecars := by
  have : Keeps SameState (modify fun w => { w with sidecars := [] } : ShimProg Unit) :=
    modify_same (fun _ => rfl) fun _ => rfl
  unfold dropSidecars
  infer_instance

/-! ## The end state -/

/-- The state of a machine that has ended, in memory and on disk. -/
structure Retired (w : World) : Prop where
  status : Ended w.state.status
  shimPid : w.state.shimPid = none
  vmmPid : w.state.vmmPid = none
  sidecarPids : w.state.sidecarPids = []
  file : w.stateFile = w.state

theorem Retired.after {w w' : World} (h : Retired w) (hsame : SameState w w') : Retired w' where
  status := hsame.1 ▸ h.status
  shimPid := hsame.1 ▸ h.shimPid
  vmmPid := hsame.1 ▸ h.vmmPid
  sidecarPids := hsame.1 ▸ h.sidecarPids
  file := by rw [hsame.1, hsame.2, h.file]

theorem writeFinalState_retired {status : MachineStatus} {processStatus : Option ExitStatus} {reason : ExitReason}
    {w w' : World}
    (hended : Ended status) (h : writeFinalState status processStatus reason w = (.ok (), w')) : Retired w' := by
  obtain ⟨a, u₁, -, h⟩ := bind_eq_ok.mp h
  obtain ⟨_, u₂, hset, h⟩ := bind_eq_ok.mp h
  cases hset
  obtain ⟨v, u₃, hget, h⟩ := bind_eq_ok.mp h
  cases hget
  obtain ⟨_, u₄, hvalid, h⟩ := bind_eq_ok.mp h
  obtain ⟨_, u₅, hcall, h⟩ := bind_eq_ok.mp h
  obtain ⟨_, u₆, hwrite, h⟩ := bind_eq_ok.mp h
  obtain ⟨_, u₇, hcall', h⟩ := bind_eq_ok.mp h
  cases h
  cases hwrite
  have hsame : SameState _ u₅ := IsTrans.trans _ _ _ ((keeps_ofExcept _).run hvalid) (call_same.run hcall)
  have hstate := hsame.1
  refine Retired.after ⟨?_, ?_, ?_, ?_, rfl⟩ (call_same.run hcall')
  all_goals
    dsimp only
    rw [hstate]
  · exact hended
  all_goals rfl

/-! ## The stops -/

/-- A state on its way to a stop. -/
instance stopping_quiet : Keeps (Quiet plan) (setState fun st => { st with status := .stopping }) :=
  setState_quiet (fun _ => ⟨fun _ h => h, fun _ h => h⟩) (fun _ => .inl rfl) (fun _ => nofun) fun _ => rfl

instance finalStopped_settling (processStatus : Option ExitStatus) (reason : ExitReason) :
    Keeps (Settling plan) (writeFinalState .stopped processStatus reason) :=
  writeFinalState_settling (.inl rfl) processStatus reason

instance finalFailed_settling (processStatus : Option ExitStatus) (reason : ExitReason) :
    Keeps (Settling plan) (writeFinalState .failed processStatus reason) :=
  writeFinalState_settling (.inr rfl) processStatus reason

instance noVmmIdentity_quiet : Keeps (Quiet plan) (setIdentity fun i => { i with vmm := none }) :=
  setIdentity_quiet fun _ => .inr rfl

/-- Where no owned sidecar is alive, none comes to be. -/
theorem stopOwnedSidecars_allGone {w w' : World} (hi : Inv plan w) (h : stopOwnedSidecars w = (.ok (), w')) :
    AllGone w' := by
  intro s hs
  obtain ⟨t, ht, hchild, -⟩ := (stopOwnedSidecars_quiet.run h hi).sidecars s hs
  exact hchild ▸ stopOwnedSidecars_gone hi h t ht

theorem stopRecoveredSidecars_allGone {w w' : World} (hi : Inv plan w) (h : stopRecoveredSidecars w = (.ok (), w')) :
    RecoveredGone w' := fun s hs =>
  stopRecoveredSidecars_gone hi h s ((stopRecoveredSidecars_quiet.run h hi).recoveredSidecars s hs)

instance awaitRecoveredShutdown_quiet (record : ProcessRecord) (n : Nat) :
    Keeps (Quiet plan) (awaitRecoveredShutdown record n) := by
  induction n with
  | zero => exact keeps_pure _
  | succ n ih =>
    unfold awaitRecoveredShutdown shutDownRecovered
    infer_instance

instance endRecoveredVmm_quiet (force : Bool) (record : ProcessRecord) :
    Keeps (Quiet plan) (endRecoveredVmm force record) := by
  unfold endRecoveredVmm terminateGracefully
  infer_instance

section events

variable {events : EventSink} [∀ r, Keeps (Quiet plan) (events r)]

instance stopRecoveredVmm_settling (force : Bool) (record : ProcessRecord) :
    Keeps (Settling plan) (stopRecoveredVmm events force record) := by
  unfold stopRecoveredVmm
  infer_instance

/-- A stop that succeeds has seen the recovered VMM and sidecars exit. -/
theorem stopRecoveredVmm_gone [∀ r, Keeps SameState (events r)] {force : Bool} {record : ProcessRecord} {w w' : World}
    (hi : Inv plan w) (h : stopRecoveredVmm events force record w = (.ok (), w')) :
    RecordGone record w' ∧ RecoveredGone w' ∧ Retired w' := by
  obtain ⟨_, u₁, h₁, h⟩ := bind_eq_ok.mp h
  obtain ⟨_, u₂, h₂, h⟩ := bind_eq_ok.mp h
  obtain ⟨_, u₃, h₃, h⟩ := bind_eq_ok.mp h
  obtain ⟨_, u₄, h₄, h⟩ := bind_eq_ok.mp h
  obtain ⟨reason, u₅, h₅, h⟩ := bind_eq_ok.mp h
  obtain ⟨_, u₆, hwait, h⟩ := bind_eq_ok.mp h
  have hs₁ : QuietStep plan w u₁ := (verifyProcess_quiet record).run h₁ hi
  have hs₂ : QuietStep plan u₁ u₂ := stopping_quiet.run h₂ hs₁.inv
  have hs₃ : QuietStep plan u₂ u₃ := writeState_quiet.run h₃ hs₂.inv
  have hs₄ : QuietStep plan u₃ u₄ := (inferInstance : Keeps (Quiet plan) (events _)).run h₄ hs₃.inv
  have hs₅ : QuietStep plan u₄ u₅ := (endRecoveredVmm_quiet force record).run h₅ hs₄.inv
  have hs₆ : QuietStep plan u₅ u₆ := (waitForRecordExit_quiet record).run hwait hs₅.inv
  have hgone : RecordGone record u₆ := waitForRecordExit_gone hwait
  obtain ⟨_, u₇, hforget, h⟩ := bind_eq_ok.mp h
  have hs₇ : SettlingStep plan u₆ u₇ := forgetVmm_settling.run hforget hs₆.inv
  obtain ⟨_, u₈, hstop, h⟩ := bind_eq_ok.mp h
  have hs₈ : QuietStep plan u₇ u₈ := stopRecoveredSidecars_quiet.run hstop hs₇.inv
  have hall : RecoveredGone u₈ := stopRecoveredSidecars_allGone hs₇.inv hstop
  obtain ⟨_, u₉, hfinal, hdone⟩ := bind_eq_ok.mp h
  have hs₉ : SettlingStep plan u₈ u₉ := (finalStopped_settling _ _).run hfinal hs₈.inv
  have hretired := writeFinalState_retired (.inl rfl) hfinal
  have hs : QuietStep plan u₉ w' := (inferInstance : Keeps (Quiet plan) (events _)).run hdone hs₉.inv
  have hrest : ForwardStep plan u₈ w' := hs₉.toForwardStep.trans hs.forward
  exact ⟨hgone.after ((hs₇.toForwardStep.trans hs₈.forward).trans hrest), hall.after hrest,
    hretired.after ((inferInstance : Keeps SameState (events _)).run hdone)⟩

instance stopOwnedVmm_settling (force : Bool) (v : OwnedVmm) : Keeps (Settling plan) (stopOwnedVmm events force v) := by
  unfold stopOwnedVmm
  refine Keeps.bind inferInstance fun _ => Keeps.bind inferInstance fun _ => Keeps.bind inferInstance fun w => ?_
  cases w.identity.vmm with
  | none => infer_instance
  | some recorded =>
    dsimp only
    split
    · refine Keeps.bind inferInstance ?_
      rintro ⟨status, reason⟩
      infer_instance
    · infer_instance

/-- A stop that succeeds has seen the VMM and the sidecars exit. -/
theorem stopOwnedVmm_gone [∀ r, Keeps SameState (events r)] {force : Bool} {v : OwnedVmm} {w w' : World} (hi : Inv plan w)
    (hv : v.reapedStatus.isSome = true → VmmGone w) (h : stopOwnedVmm events force v w = (.ok (), w')) :
    VmmGone w' ∧ AllGone w' ∧ Retired w' := by
  obtain ⟨_, u₁, h₁, h⟩ := bind_eq_ok.mp h
  obtain ⟨_, u₂, h₂, h⟩ := bind_eq_ok.mp h
  obtain ⟨x, u₃, hget, h⟩ := bind_eq_ok.mp h
  cases hget
  have hs₁ : QuietStep plan w u₁ := stopping_quiet.run h₁ hi
  have hs₂ := hs₁.trans ((inferInstance : Keeps (Quiet plan) (events _)).run h₂ hs₁.inv)
  cases hrecorded : u₂.identity.vmm with
  | none =>
    rw [hrecorded] at h
    cases h
  | some recorded =>
    rw [hrecorded] at h
    dsimp only at h
    split at h
    case isFalse => cases h
    obtain ⟨⟨status, reason⟩, u₃, hend, h⟩ := bind_eq_ok.mp h
    have hgone := endOwnedVmm_gone hs₂.inv (fun hr => (hv hr).after hs₂.toSettlingStep) hend
    have hs₃ : QuietStep plan u₂ u₃ := (endOwnedVmm_quiet force v).run hend hs₂.inv
    obtain ⟨_, u₄, hset, h⟩ := bind_eq_ok.mp h
    have hs₄ : QuietStep plan u₃ u₄ := noVmmIdentity_quiet.run hset hs₃.inv
    obtain ⟨_, u₅, hstop, h⟩ := bind_eq_ok.mp h
    have hs₅ : QuietStep plan u₄ u₅ := stopOwnedSidecars_quiet.run hstop hs₄.inv
    have hall : AllGone u₅ := stopOwnedSidecars_allGone hs₄.inv hstop
    obtain ⟨_, u₆, hfinal, h⟩ := bind_eq_ok.mp h
    have hs₆ : SettlingStep plan u₅ u₆ := (finalStopped_settling _ _).run hfinal hs₅.inv
    have hretired := writeFinalState_retired (.inl rfl) hfinal
    obtain ⟨x, u₇, hget, hdone⟩ := bind_eq_ok.mp h
    cases hget
    have hs₇ : QuietStep plan u₆ w' := (inferInstance : Keeps (Quiet plan) (events _)).run hdone hs₆.inv
    have hrest : SettlingStep plan u₃ w' :=
      (hs₄.trans hs₅).toSettlingStep.trans (hs₆.trans hs₇.toSettlingStep)
    exact ⟨hgone.after hrest, hall.after (hs₆.toForwardStep.trans hs₇.forward),
      hretired.after ((inferInstance : Keeps SameState (events _)).run hdone)⟩

end events

end Firestone.Shim
