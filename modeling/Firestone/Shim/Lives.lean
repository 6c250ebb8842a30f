import Firestone.Shim.Start
import Firestone.Lib.Runs

/-!
# The lives of a machine's shims

* `turn_ends`, `supervise_ends` — the loop.
* `finalizeSupervisorResult_ends` — the last cleanup removes the evidence only once nothing is left alive.
* `runShim_files`, `runShim_ok` — a whole run, however it ends, and one that succeeds.
* `Life`, `lives_safe` — any number of starts, replacement shims and reconciliations, each of which may be killed anywhere.
-/

namespace Firestone.Shim

open Firestone.Lib Prog

variable {plan : LaunchPlan} {pid : Nat}

set_option synthInstance.maxSize 2000

/-! ## The loop -/

theorem acceptTurn_ends {w : World} (hw : Loop plan w) :
    Ends plan (Failed plan pid) (TurnEnds plan) (acceptTurn plan pid w) := by
  refine hw.bind fun a u _ _ hw' => ?_
  cases a.accepted with
  | wouldBlock => exact hw'
  | unprepared => exact hw'
  | failed e => exact hw'.failed
  | refused e => exact hw'.bind fun _ v _ _ hv => hv
  | request r =>
    cases r with
    | launch => exact Ends.bind (handleLaunch_ends hw') fun _ v hv => hv
    | status => exact hw'.look fun hw' => hw'.bind fun _ v _ _ hv => hv
    | stop timeoutS force => exact handleStop_ends hw'
    | ping => exact hw'.bind fun _ v _ _ hv => hv

theorem turn_ends {w : World} {r : Recovery} (hw : Loop plan w) :
    Ends plan (Failed plan pid) (TurnEnds plan) (turn plan pid r w) := by
  refine hw.bind fun _ u _ _ hw => hw.look fun hw => ?_
  split
  · exact Ends.bind (terminate_ends hw) fun _ _ h => h
  · refine Ends.bind (recoveryTurn_ends hw) fun _ v hw => ?_
    refine Ends.bind (launchDeadlineTurn_ends hw) fun _ t hw => ?_
    refine Ends.bind (ownedExitTurn_ends hw) ?_
    rintro (_ | _) s hs
    · refine Ends.bind (recoveredExitTurn_ends hs) ?_
      rintro (_ | _) y hy
      · refine Loop.bind (x := sidecarTurn) hy fun _ z _ _ hz => acceptTurn_ends hz
      · exact hy
    · exact hs

theorem supervise_ends {w : World} {r : Recovery} (hw : Loop plan w) (n : Nat) :
    Ends plan (Failed plan pid) (fun _ => Done plan) (supervise plan pid r n w) := by
  induction n generalizing w with
  | zero => exact hw.inv
  | succ n ih =>
    refine Ends.bind (turn_ends hw) ?_
    rintro (_ | _) u hu
    · exact ih hu
    · exact hu

theorem supervisor_ends {w : World} {r : Recovery} (hw : Loop plan w) (n : Nat) :
    Ends plan (Failed plan pid) (fun _ => Done plan) (supervisor plan pid r n w) := by
  unfold supervisor
  split
  · exact hw.failed
  · exact supervise_ends hw n

/-! ## The last cleanup -/

section finalize

variable {α β : Type} {x : ShimProg α} {f : α → ShimProg β} {Q : α → World → Prop} {S : β → World → Prop} {w : World}

theorem Ends.imp {E E' : World → Prop} {r : Outcome FirestoneError α × World} (h : Ends plan E Q r) (hE : ∀ w, E w → E' w) :
    Ends plan E' Q r := by
  rcases r with ⟨a | e | _, w⟩
  · exact h
  · exact hE w h
  · exact h

theorem Inv.bind (hi : Inv plan w) [Keeps (Settling plan) x]
    (hf : ∀ a u, x w = (.ok a, u) → SettlingStep plan w u → Ends plan (Inv plan) S (f a u)) :
    Ends plan (Inv plan) S ((x >>= f) w) :=
  Ends.keeps_bind (R := Settling plan) (I := Inv plan) (fun _ hu => (hu hi).inv) (fun _ h => h) (fun _ h => h)
    fun a u h hu _ => hf a u h (hu hi)

instance endRecorded_quiet (record : ProcessRecord) : Keeps (Quiet plan) (endRecorded record) := by
  unfold endRecorded
  infer_instance

theorem endRecorded_gone {record : ProcessRecord} {w w' : World} (h : endRecorded record w = (.ok (), w')) :
    RecordGone record w' := by
  obtain ⟨alive, u, halive, h⟩ := bind_eq_ok.mp h
  cases alive with
  | false =>
    cases h
    exact recordedProcessAlive_gone halive
  | true =>
    obtain ⟨_, v, -, h⟩ := bind_eq_ok.mp h
    exact waitForRecordExit_gone h

instance finalVmmCleanup_quiet : Keeps (Quiet plan) finalVmmCleanup := by
  refine Keeps.bind inferInstance fun w => Keeps.bind inferInstance fun w' => ?_
  cases w.vmm with
  | some v => infer_instance
  | none => cases w'.retainedRecord <;> infer_instance

/-- The VMM has exited once the cleanup has succeeded. -/
theorem finalVmmCleanup_gone {status : Option ExitStatus} {w w' : World} (hi : Inv plan w)
    (h : finalVmmCleanup w = (.ok status, w')) :
    VmmGone w' ∧ (w.vmm = none → ∀ record, w.retainedRecord = some record → RecordGone record w') := by
  have hstep : QuietStep plan w w' := finalVmmCleanup_quiet.run h hi
  obtain ⟨x, u, hget, h⟩ := bind_eq_ok.mp h
  cases hget
  obtain ⟨x, u, hget, h⟩ := bind_eq_ok.mp h
  cases hget
  cases hv : w.vmm with
  | some v =>
    rw [hv] at h
    obtain ⟨status, u, hreap, h⟩ := bind_eq_ok.mp h
    cases h
    exact ⟨OwnedVmm.terminateAndReap_gone hi (hi.vmmGone hv) hreap, nofun⟩
  | none =>
    have hnone : VmmGone w' := fun v hv' => nomatch (hstep.noVmm hv).symm.trans hv'
    refine ⟨hnone, fun _ record hrecord => ?_⟩
    rw [hv, hrecord] at h
    obtain ⟨_, u, hend, h⟩ := bind_eq_ok.mp h
    cases h
    exact endRecorded_gone hend

/-- The record that is kept is one of the VMM. -/
theorem Inv.retainedRecord {record : ProcessRecord} (hi : Inv plan w) (h : w.retainedRecord = some record) :
    RecordsVmm record w.alive := by
  unfold World.retainedRecord at h
  cases hv : w.vmm with
  | some v =>
    rw [hv] at h
    cases h
    exact (hi.vmm v hv).1
  | none =>
    cases hq : w.recoveredVmm with
    | some q =>
      rw [hv, hq] at h
      cases h
      exact hi.recovered q hq
    | none =>
      rw [hv, hq] at h
      exact hi.identity record h

/-- All three parts of the cleanup have succeeded. -/
theorem Covered.empty {w u : World} (h : Covered w) (hstep : QuietStep plan w u) (hvmm : VmmGone u) (hsidecars : AllGone u)
    (hrecovered : RecoveredGone u)
    (hrecord : w.vmm = none → ∀ record, w.retainedRecord = some record → RecordGone record u) :
    Empty u := by
  have hall := hstep.heldOr (fun p => w.vmm = none ∧ w.retainedRecord = some p.record)
    (h.imp id fun hall p hp => (hall p hp).2)
  rcases h with hlost | hcovers
  · exact .inr (hstep.lost hlost)
  refine hall.symm.imp (fun hall => List.eq_nil_iff_forall_not_mem.mpr fun p hp => ?_) id
  rcases hall p hp with (⟨v, hv, rfl⟩ | ⟨s, hs, rfl⟩ | hq | ⟨s, hs, rfl⟩) | ⟨hnone, hretained⟩
  · exact hvmm v hv hp
  · exact hsidecars s hs hp
  · -- an adopted VMM is what the cleanup is about only if none is owned
    have hq' : w.recoveredVmm = some p := hstep.recoveredVmm ▸ hq
    have hnone : w.vmm = none := (hcovers p (hstep.alive p hp)).1.elim id fun h => nomatch h.symm.trans hq'
    refine (hrecord hnone p.record ?_).gone hp
    rw [World.retainedRecord, hnone, hq']
    rfl
  · exact hrecovered s hs hp
  · exact (hrecord hnone p.record hretained).gone hp

theorem retainVmm_ends {retained : Option ProcessRecord} {primary : FirestoneError} (hi : Inv plan w)
    (hr : ∀ record, retained = some record → RecordsVmm record w.alive) :
    Ends plan (Inv plan) (fun _ => Inv plan) (retainVmm retained primary w) := by
  cases retained with
  | none => exact ((@writeAmbiguousFailedState_ends plan 0 w hi primary).imp fun _ h => h.inv).mono fun _ _ h => h.1
  | some record =>
    have hrecord := hr record rfl
    have hset : Inv plan { w with identity := { w.identity with vmm := some record } } := by
      refine { hi with identity := fun r h => ?_ }
      cases h
      exact hrecord
    refine hset.bind fun _ u _ hu => ?_
    exact ((@writeRecoverableFailedState_ends plan 0 u record hu.inv (hrecord.mono hu.alive) primary).imp
      fun _ h => h.inv).mono
      fun _ _ h => h.1

theorem retainSidecars_ends {primary : FirestoneError} (hi : Inv plan w) :
    Ends plan (Inv plan) (fun _ => Inv plan) (retainSidecars primary w) := by
  refine hi.bind fun _ u _ hu => hu.inv.bind fun _ v _ hv => ?_
  exact ((@writeAmbiguousFailedState_ends plan 0 v hv.inv primary).imp fun _ h => h.inv).mono fun _ _ h => h.1

theorem retireMachine_ends {status : Option ExitStatus} {primary : FirestoneError} (hi : Inv plan w) (he : Empty w) :
    Ends plan (Inv plan) (fun _ => Inv plan) (retireMachine status primary w) := by
  refine hi.bind fun _ u _ hu => hu.inv.bind fun _ v hfinal hv => hv.inv.bind fun merged t hmerge ht => ?_
  have he := ((he.after hu.toForwardStep).after hv.toForwardStep).after ht.toForwardStep
  have hr := (writeFinalState_retired (.inr rfl) hfinal).after
    ((inferInstance : Keeps SameState (attempt mergeConsoleLog)).run hmerge)
  refine Ends.bind ((@cleanupAfterShim_ends plan 0 t ht.inv he hr).imp fun _ h => h.inv) fun _ s hs => ?_
  cases merged with
  | error e => exact hs.inv
  | ok _ => exact hs.inv

theorem finalCleanup_ends {primary : FirestoneError} (hi : Inv plan w) (hc : Covered w) :
    Ends plan (Inv plan) Q (finalCleanup primary w) := by
  show Ends plan _ _ ((attempt finalVmmCleanup >>= _) w)
  refine Ends.attempt_bind (R := Quiet plan) (fun u hu => (hu hi).inv) fun r₁ w₁ h₁ hs₁ => ?_
  have hs₁ := hs₁ hi
  refine Ends.attempt_bind (R := Quiet plan) (fun u hu => (hu hs₁.inv).inv) fun r₂ w₂ h₂ hs₂ => ?_
  have hs₂ := hs₂ hs₁.inv
  refine Ends.attempt_bind (R := Quiet plan) (fun u hu => (hu hs₂.inv).inv) fun r₃ w₃ h₃ hs₃ => ?_
  have hs₃ := hs₃ hs₂.inv
  have hs := hs₁.trans (hs₂.trans hs₃)
  rcases attempt_eq_ok.mp h₁ with ⟨status, rfl, hvmm⟩ | ⟨e, rfl, -⟩
  · rcases attempt_eq_ok.mp h₂ with ⟨_, rfl, hsidecars⟩ | ⟨e, rfl, -⟩
    · rcases attempt_eq_ok.mp h₃ with ⟨_, rfl, hrecovered⟩ | ⟨e, rfl, -⟩
      · obtain ⟨hgone, hrecord⟩ := finalVmmCleanup_gone hi hvmm
        have he : Empty w₃ := by
          refine hc.empty hs (hgone.after (hs₂.trans hs₃).toSettlingStep) ?_ ?_ fun hnone record h => ?_
          · exact (stopOwnedSidecars_allGone hs₁.inv hsidecars).after hs₃.forward
          · exact stopRecoveredSidecars_allGone hs₂.inv hrecovered
          · exact (hrecord hnone record h).after (hs₂.trans hs₃).forward
        exact Ends.bind (retireMachine_ends hs.inv he) fun _ _ h => h
      · exact Ends.bind (retainSidecars_ends hs.inv) fun _ _ h => h
    · exact Ends.bind (retainSidecars_ends hs.inv) fun _ _ h => h
  · refine Ends.bind (retainVmm_ends hs.inv fun record hrecord => ?_) fun _ _ h => h
    exact (hi.retainedRecord hrecord).mono hs.alive

theorem finalizeSupervisorResult_ends {primary : FirestoneError} (h : Failed plan pid w) :
    Ends plan (Inv plan) Q (finalizeSupervisorResult pid primary w) := by
  show Ends plan _ _ ((if w.state.shimPid = some pid then _ else _ : ShimProg α) w)
  split
  · rename_i hpid
    have hc : Covered w := h.covered.elim id fun hne => absurd hpid hne
    have hkeeps : Keeps (fun w w' => Quiet plan w w' ∧ SameHolders w w') call := call_quiet.and call_sameHolders
    refine Ends.keeps_bind (x := call) (R := fun w w' => Quiet plan w w' ∧ SameHolders w w') (I := fun u => Inv plan u ∧ Covered u)
      (fun u hu => ⟨(hu.1 h.inv).inv, hc.after hu.2⟩) (fun _ hu => hu.1) (fun _ hu => hu.1) fun _ u _ _ hu => ?_
    show Ends plan _ _ ((if u.runtime.isSome then _ else _ : ShimProg α) u)
    split
    · exact finalCleanup_ends hu.1 hu.2
    · exact hu.1
  · exact h.inv

end finalize

/-! ## One run -/

/-- However a run ends, the invariant holds at its end, and a run that succeeds is done. -/
theorem runShim_ends {w : World} (h : FilesInv plan w) (hprepared : Prepared pid w.stateFile w.alive) (n : Nat) :
    Ends plan (Inv plan) (fun _ => Done plan) (runShim plan pid n w) := by
  refine Ends.bind (enterShim_ends h hprepared) fun r u hu => ?_
  have hbody : Ends plan (Inv plan) (fun _ => Done plan)
      (onError (supervisor plan pid r n) (finalizeSupervisorResult pid) u) :=
    Ends.onError (supervisor_ends hu n) fun e v hv => finalizeSupervisorResult_ends hv
  refine Ends.bind (Ends.attempt hbody) fun result v hv => ?_
  have hsidecars : Keeps (fun w w' => Steady plan w w' ∧ SameState w w') dropSidecars :=
    dropSidecars_steady.and dropSidecars_same
  have hvmm : Keeps (fun w w' => Steady plan w w' ∧ SameState w w') dropVmm := dropVmm_steady.and dropVmm_same
  cases result with
  | ok _ =>
    refine Ends.keeps_bind (x := dropSidecars) (R := fun w w' => Steady plan w w' ∧ SameState w w') (I := Done plan)
      (fun _ hu => Done.after hv (hu.1 hv.inv).toForwardStep hu.2) (fun _ h => h.inv) (fun _ h => h.inv) fun _ t _ _ ht => ?_
    refine Ends.keeps_bind (x := dropVmm) (R := fun w w' => Steady plan w w' ∧ SameState w w') (I := Done plan)
      (fun _ hu => ht.after (hu.1 ht.inv).toForwardStep hu.2) (fun _ h => h.inv) (fun _ h => h.inv) fun _ s _ _ hs => hs
  | error e =>
    refine Ends.keeps_bind (x := dropSidecars) (R := Steady plan) (I := Inv plan)
      (fun _ hu => (hu hv).inv) (fun _ h => h) (fun _ h => h) fun _ t _ _ ht => ?_
    exact Ends.keeps_bind (x := dropVmm) (R := Steady plan) (I := Inv plan)
      (fun _ hu => (hu ht).inv) (fun _ h => h) (fun _ h => h) fun _ s _ _ hs => hs

theorem Ends.inv {α : Type} {Q : α → World → Prop} {r : Outcome FirestoneError α × World} (h : Ends plan (Inv plan) Q r)
    (hQ : ∀ a w, Q a w → Inv plan w) : Inv plan r.2 := by
  rcases r with ⟨a | e | _, w⟩
  · exact hQ a w h
  · exact h
  · exact h

theorem runShim_inv {w : World} (h : FilesInv plan w) (hprepared : Prepared pid w.stateFile w.alive) (n : Nat) :
    Inv plan (runShim plan pid n w).2 :=
  (runShim_ends h hprepared n).inv fun _ _ h => h.inv

/-- The state is on its way to say that the machine runs only after every step of its launch, or after an adoption. -/
theorem runShim_order {w : World} (h : FilesInv plan w) (hprepared : Prepared pid w.stateFile w.alive) (n : Nat) :
    (runShim plan pid n w).2.steps <+: plan.launchOrder ∧
      ((runShim plan pid n w).2.stateFile.status = .running → (runShim plan pid n w).2.launched = true →
        (runShim plan pid n w).2.recoveredVmm.isSome = true ∨ (runShim plan pid n w).2.steps = plan.launchOrder) :=
  ⟨(runShim_inv h hprepared n).ordered, fun hrunning => (runShim_inv h hprepared n).running (.inr hrunning)⟩

/-! ## All lives -/

/-- What is done with a machine: a start and the shim that it spawns, a replacement shim, a reconciliation. With what the
outside will answer, and how many turns of its loop a shim is followed for. -/
inductive Life where
  | start (pid : Nat) (startedAt : String) (env : List Answer) (turns : Nat)
  | recover (pid : Nat) (env : List Answer) (turns : Nat)
  | reconcile (o : LivenessObservation) (reconciledAt : String)

/-- The shim runs where the start has succeeded. -/
def startAndRun (plan : LaunchPlan) (pid : Nat) (startedAt : String) (turns : Nat) (w : World) : World :=
  match start plan.name pid startedAt w with
  | (.ok _, u) => (runShim plan pid turns u).2
  | (_, u) => u

/-- One life. A replacement shim has a pid of its own. -/
def live (plan : LaunchPlan) (w : World) : Life → Option World
  | .start pid startedAt env turns => some (startAndRun plan pid startedAt turns { w with env := env })
  | .recover pid env turns =>
    if w.stateFile.shimPid = some pid then none else some (runShim plan pid turns { w with env := env }).2
  | .reconcile o reconciledAt =>
    (reconciledState w.stateFile (reconcile w.stateFile.status o) reconciledAt).map fun st => { w with stateFile := st }

/-- When a machine is started again, nothing has been lost and every live process is recorded. -/
def Seen (w : World) : Life → Prop
  | .start _ _ _ _ => ¬w.lost ∧ Recorded w
  | .recover _ _ _ => True
  | .reconcile _ _ => True

/-- Before the first start there is nothing. -/
def Vacant (w : World) : Prop := w.alive = [] ∧ w.runtime = none

theorem Vacant.files {w : World} (h : Vacant w) : FilesInv plan w := by
  refine .of_empty h.1 fun i hi => ?_
  rw [World.identityFile, h.2] at hi
  cases hi

theorem startAndRun_files {w : World} {startedAt : String} {turns : Nat} (h : FilesInv plan w) (hlost : ¬w.lost)
    (hrecorded : Recorded w) : FilesInv plan (startAndRun plan pid startedAt turns w) := by
  have hfiles : FilesInv plan (start plan.name pid startedAt w).2 := start_files h hlost hrecorded
  unfold startAndRun
  split
  · rename_i u hstart
    rw [hstart] at hfiles
    exact (runShim_inv hfiles (start_prepared h hlost hrecorded hstart) turns).toFilesInv
  · rename_i u _ hstart
    rwa [hstart] at hfiles

/-- A reconciliation forgets the pids of the state, and leaves `identity.json`. -/
theorem reconciled_files {w : World} {st : MachineState} {o : LivenessObservation} {reconciledAt : String}
    (h : FilesInv plan w) (hst : reconciledState w.stateFile (reconcile w.stateFile.status o) reconciledAt = some st) :
    FilesInv plan { w with stateFile := st } := by
  obtain ⟨reason, -, rfl⟩ := Option.map_eq_some_iff.mp hst
  exact { h with file := ⟨fun _ _ _ _ => nofun, fun _ _ _ _ _ => nofun⟩ }

theorem live_files {w w' : World} {a : Life} (h : FilesInv plan w) (hseen : Seen w a) (hlive : live plan w a = some w') :
    FilesInv plan w' := by
  cases a with
  | start pid startedAt env turns =>
    cases hlive
    exact startAndRun_files (w := { w with env := env }) { h with } hseen.1 hseen.2
  | recover pid env turns =>
    rw [live] at hlive
    split at hlive
    · cases hlive
    · rename_i hother
      cases hlive
      exact (runShim_inv (w := { w with env := env }) { h with } (fun _ hpid => absurd hpid hother) turns).toFilesInv
  | reconcile o reconciledAt =>
    obtain ⟨st, hst, rfl⟩ := Option.map_eq_some_iff.mp hlive
    exact reconciled_files h hst

theorem reachable_start {w : World} {turns : Nat} {startedAt : String} {env : List Answer}
    (h : Reachable (live plan) Seen Vacant w) (hlost : ¬w.lost) (hrecorded : Recorded w) :
    Reachable (live plan) Seen Vacant (startAndRun plan pid startedAt turns { w with env := env }) :=
  .next (.start pid startedAt env turns) h ⟨hlost, hrecorded⟩ rfl

theorem reachable_recover {w : World} {turns : Nat} {env : List Answer} (h : Reachable (live plan) Seen Vacant w)
    (hpid : w.stateFile.shimPid ≠ some pid) :
    Reachable (live plan) Seen Vacant (runShim plan pid turns { w with env := env }).2 :=
  .next (.recover pid env turns) h trivial (if_neg hpid)

def webPlan : LaunchPlan := ⟨"web", .none, [], none, "vmm.log", by decide⟩

def webState : MachineState :=
  ⟨.created, ⟨"noble", none, none⟩, none, 3, none, none, none, [], "/run/web", none, [], [], none⟩

/-- The machine before its first start. -/
def webVacant (env : List Answer) : World :=
  ⟨env, [], webState, none, webState, ⟨0, none, []⟩, false, false, none, [], none, [], false, none, [], [], false, false⟩

theorem webVacant_vacant (env : List Answer) : Vacant (webVacant env) := ⟨rfl, rfl⟩

theorem webVacant_not_lost (env : List Answer) : ¬(webVacant env).lost := by
  rintro (h | h) <;> cases h

/-- Everything goes well. -/
def wellAnswer : Answer := { child := (7, 1), pid := 7, polls := 1, accepted := .request .launch }

/-- The shim is launched and then killed while the VMM goes on. -/
def webRunning : World := startAndRun webPlan 5 "now" 1 { webVacant [] with env := List.replicate 80 wellAnswer }

/-- A replacement shim has taken over. -/
def webAdopted : World :=
  (runShim webPlan 6 1 { webRunning with env := List.replicate 80 { wellAnswer with accepted := .wouldBlock } }).2

/-- What the start leaves for the shim. -/
def webStarted : World := (start "web" 5 "now" (webVacant (List.replicate 10 wellAnswer))).2

/-- The shim runs on after the start, with other answers. -/
def webLaunched (env : List Answer) : World := { webStarted with env := env }

/-- The launch is followed by a stop. -/
def webStop : List Answer :=
  List.replicate 42 wellAnswer ++ List.replicate 3 { accepted := .request (.stop 1 true) } ++
    List.replicate 20 { accepted := .request (.stop 1 true), exited := [⟨.vmm, 7, 1⟩] }

/-- How these runs end: the replacement, the start, the launch and the stop. -/
theorem web_runs :
    (webRunning.stateFile.shimPid ≠ some 6 ∧ webAdopted.alive = [⟨.vmm, 7, 1⟩] ∧
      webAdopted.stateFile.vmmPid.isSome = true) ∧
    (start "web" 5 "now" (webVacant (List.replicate 10 wellAnswer))).1 = .ok () ∧
    ((runShim webPlan 5 1 (webLaunched (List.replicate 60 wellAnswer))).2.stateFile.status = .running ∧
      (runShim webPlan 5 1 (webLaunched (List.replicate 60 wellAnswer))).2.launched = true ∧
      (runShim webPlan 5 1 (webLaunched (List.replicate 60 wellAnswer))).2.recoveredVmm.isSome = false) ∧
    (runShim webPlan 5 2 (webLaunched webStop)).1 = .ok () := by
  decide +kernel

theorem webAdopted_reachable : Reachable (live webPlan) Seen Vacant webAdopted := by
  unfold webAdopted
  refine reachable_recover ?_ web_runs.1.1
  unfold webRunning
  exact reachable_start (.start (webVacant_vacant [])) (webVacant_not_lost []) nofun

theorem webStarted_start :
    start "web" 5 "now" (webVacant (List.replicate 10 wellAnswer)) = (.ok (), webStarted) :=
  eq_of_fst web_runs.2.1

theorem webStarted_files : FilesInv webPlan webStarted :=
  start_files (webVacant_vacant _).files (webVacant_not_lost _) nofun

theorem webStarted_prepared : Prepared 5 webStarted.stateFile webStarted.alive := by
  have hfiles : FilesInv webPlan (webVacant (List.replicate 10 wellAnswer)) := (webVacant_vacant _).files
  exact start_prepared hfiles (webVacant_not_lost _) nofun webStarted_start

theorem webLaunched_files (env : List Answer) : FilesInv webPlan (webLaunched env) := { webStarted_files with }

theorem webLaunched_prepared (env : List Answer) : Prepared 5 (webLaunched env).stateFile (webLaunched env).alive := by
  dsimp only [webLaunched]
  exact webStarted_prepared

/-- A launch that reaches its end has taken every step. -/
theorem runShim_order_web : (runShim webPlan 5 1 (webLaunched (List.replicate 60 wellAnswer))).2.steps =
    [.spawned .vmm, .answered, .vmCreate, .vmBoot] := by
  obtain ⟨hrunning, hlaunched, hfresh⟩ := web_runs.2.2.1
  rcases (runShim_order (webLaunched_files _) (webLaunched_prepared _) 1).2 hrunning hlaunched with h | h
  · rw [hfresh] at h
    cases h
  · exact h.trans (by decide)

/-- A shim that ends well leaves a machine that has ended, on disk as in fact. -/
theorem runShim_ok {w w' : World} {n : Nat} (h : FilesInv plan w) (hprepared : Prepared pid w.stateFile w.alive)
    (hok : runShim plan pid n w = (.ok (), w')) :
    (w'.alive = [] ∨ w'.missed = true ∨ w'.unpublished = true) ∧ w'.runtime = none ∧
      (w'.stateFile.status = .stopped ∨ w'.stateFile.status = .failed) ∧ w'.stateFile.shimPid = none ∧
      w'.stateFile.vmmPid = none ∧ w'.stateFile.sidecarPids = [] := by
  have hdone : Done plan w' := by
    have := runShim_ends h hprepared n
    rwa [hok] at this
  have hfile := hdone.retired.file
  exact ⟨hdone.empty, hdone.runtime, hfile ▸ hdone.retired.status, hfile ▸ hdone.retired.shimPid,
    hfile ▸ hdone.retired.vmmPid, hfile ▸ hdone.retired.sidecarPids⟩

theorem runShim_ok_webStop : (runShim webPlan 5 2 (webLaunched webStop)).2.runtime = none :=
  (runShim_ok (webLaunched_files webStop) (webLaunched_prepared webStop) (eq_of_fst web_runs.2.2.2)).2.1

end Firestone.Shim
