import Firestone.Shim.Stops

/-!
# The loop of a shim

* `Loop` — the loop invariant: every live process is held, and the shim is idle, owns its VMM or has adopted one.
* `Failed` — what an error leaves: either the last cleanup still covers every live process, or the shim has given up its
  state and there is no last cleanup.
* `Done` — what the end of a run leaves: nothing is alive, and the state and the runtime directory say so.
* `Ends Q` — a result satisfies `Q`, an error leaves `Failed`, and wherever the shim is killed the invariant holds.

The turns of the loop end so, with `Loop` or with `Done`. The launch request has a module of its own.
-/

namespace Firestone.Shim

open Firestone.Lib Prog

variable {plan : LaunchPlan} {pid : Nat}

set_option synthInstance.maxSize 2000

/-! ## What the loop has at hand -/

/-- The shim has launched and adopted nothing. -/
structure Blank (w : World) : Prop where
  launched : w.launched = false
  vmm : w.vmm = none
  sidecars : w.sidecars = []
  recoveredVmm : w.recoveredVmm = none
  recoveredSidecars : w.recoveredSidecars = []
  identity : w.identity.vmm = none
  steps : w.steps = []

/-- And there is nothing to adopt. -/
structure Unstarted (w : World) : Prop extends Blank w where
  alive : w.alive = []
  vmmPid : w.state.vmmPid = none
  sidecarPids : w.state.sidecarPids = []
  fileVmmPid : w.stateFile.vmmPid = none
  fileSidecarPids : w.stateFile.sidecarPids = []
  running : ¬w.saysRunning

/-- The shim waits for a launch request, with its identity published. -/
structure Idle (w : World) : Prop extends Unstarted w where
  identityFile : w.identityFile ≠ none

/-- The shim owns what it has launched. -/
structure Owning (w : World) : Prop where
  launched : w.launched = true
  vmm : w.vmm.isSome = true
  recoveredVmm : w.recoveredVmm = none
  recoveredSidecars : w.recoveredSidecars = []

/-- The shim has adopted what another one has launched. -/
structure Adopting (w : World) : Prop where
  launched : w.launched = true
  vmm : w.vmm = none
  sidecars : w.sidecars = []
  recoveredVmm : w.recoveredVmm.isSome = true

theorem nil_of_sub {α : Type} {l l' : List α} (h : ∀ x ∈ l', x ∈ l) (hl : l = []) : l' = [] :=
  List.eq_nil_of_subset_nil fun x hx => hl ▸ h x hx

theorem none_of_sub {α : Type} {o o' : Option α} (h : ∀ x, o' = some x → o = some x) (ho : o = none) : o' = none :=
  Option.eq_none_iff_forall_ne_some.mpr fun x hx => nomatch ho.symm.trans (h x hx)

theorem ForwardStep.noSidecars {w w' : World} (hstep : ForwardStep plan w w') (h : w.sidecars = []) : w'.sidecars = [] :=
  List.eq_nil_iff_forall_not_mem.mpr fun s hs => by
    obtain ⟨t, ht, -⟩ := hstep.sidecars s hs
    rw [h] at ht
    cases ht

theorem Blank.after {w w' : World} (h : Blank w) (hstep : ForwardStep plan w w') : Blank w' where
  launched := hstep.launched.trans h.launched
  vmm := hstep.noVmm h.vmm
  sidecars := hstep.noSidecars h.sidecars
  recoveredVmm := hstep.recoveredVmm.trans h.recoveredVmm
  recoveredSidecars := nil_of_sub hstep.recoveredSidecars h.recoveredSidecars
  identity := hstep.noIdentity h.identity
  steps := hstep.steps.trans h.steps

theorem Unstarted.after {w w' : World} (h : Unstarted w) (hstep : ForwardStep plan w w') : Unstarted w' where
  toBlank := h.toBlank.after hstep
  alive := nil_of_sub hstep.alive h.alive
  vmmPid := none_of_sub hstep.pids.vmm h.vmmPid
  sidecarPids := nil_of_sub hstep.pids.sidecars h.sidecarPids
  fileVmmPid := hstep.filePids.elim (fun hpids => none_of_sub hpids.vmm h.fileVmmPid) fun hpids =>
    none_of_sub hpids.vmm h.vmmPid
  fileSidecarPids := hstep.filePids.elim (fun hpids => nil_of_sub hpids.sidecars h.fileSidecarPids) fun hpids =>
    nil_of_sub hpids.sidecars h.sidecarPids
  running hr := h.running (hstep.running hr)

theorem Idle.after {w w' : World} (h : Idle w) (hstep : ForwardStep plan w w') : Idle w' :=
  ⟨h.toUnstarted.after hstep, fun hgone => h.identityFile (hstep.identityFile hgone)⟩

theorem Owning.after {w w' : World} (h : Owning w) (hstep : SettlingStep plan w w') : Owning w' where
  launched := hstep.launched.trans h.launched
  vmm := by rw [← Option.isSome_map (f := OwnedVmm.child), hstep.vmm, Option.isSome_map, h.vmm]
  recoveredVmm := hstep.recoveredVmm.trans h.recoveredVmm
  recoveredSidecars := nil_of_sub hstep.recoveredSidecars h.recoveredSidecars

theorem Adopting.after {w w' : World} (h : Adopting w) (hstep : SettlingStep plan w w') : Adopting w' where
  launched := hstep.launched.trans h.launched
  vmm := hstep.noVmm h.vmm
  sidecars := hstep.noSidecars h.sidecars
  recoveredVmm := by rw [hstep.recoveredVmm, h.recoveredVmm]

/-- The loop invariant. -/
structure Loop (plan : LaunchPlan) (w : World) : Prop where
  inv : Inv plan w
  held : Held w
  mode : Idle w ∨ Owning w ∨ Adopting w

theorem Loop.after {w w' : World} (h : Loop plan w) (hstep : SettlingStep plan w w') : Loop plan w' where
  inv := hstep.inv
  held := hstep.held h.held
  mode := h.mode.imp (fun h => h.after hstep.toForwardStep) fun h => h.imp (fun h => h.after hstep) fun h => h.after hstep

theorem Loop.owning {w : World} (h : Loop plan w) {v : OwnedVmm} (hv : w.vmm = some v) : Owning w := by
  rcases h.mode with h | h | h
  · rw [h.vmm] at hv
    cases hv
  · exact h
  · rw [h.vmm] at hv
    cases hv

theorem Loop.adopting {w : World} (h : Loop plan w) {q : Proc} (hq : w.recoveredVmm = some q) : Adopting w := by
  rcases h.mode with h | h | h
  · rw [h.recoveredVmm] at hq
    cases hq
  · rw [h.recoveredVmm] at hq
    cases hq
  · exact h

theorem Loop.idle {w : World} (h : Loop plan w) (hv : w.vmm = none) (hq : w.recoveredVmm = none) : Idle w := by
  rcases h.mode with h | h | h
  · exact h
  · have := h.vmm
    rw [hv] at this
    cases this
  · have := h.recoveredVmm
    rw [hq] at this
    cases this

theorem Loop.idle_of_launched {w : World} (h : Loop plan w) (hlaunched : w.launched = false) : Idle w := by
  rcases h.mode with h | h | h
  · exact h
  · cases hlaunched.symm.trans h.launched
  · cases hlaunched.symm.trans h.launched

/-! ## What an end leaves -/

/-- Nothing is left alive. -/
def Empty (w : World) : Prop := w.alive = [] ∨ w.lost

theorem Empty.after {w w' : World} (h : Empty w) (hstep : ForwardStep plan w w') : Empty w' :=
  h.imp (nil_of_sub hstep.alive) hstep.lost

theorem Loop.empty_of_gone {w : World} (h : Loop plan w) (hvmm : VmmGone w) (hsidecars : AllGone w)
    (hrecovered : ∀ q, w.recoveredVmm = some q → Gone q w) (hrest : RecoveredGone w) : Empty w := by
  rcases h.held with hlost | hheld
  · exact .inr hlost
  · refine .inl (List.eq_nil_iff_forall_not_mem.mpr fun p hp => ?_)
    rcases hheld p hp with ⟨v, hv, rfl⟩ | ⟨s, hs, rfl⟩ | hq | ⟨s, hs, rfl⟩
    · exact hvmm v hv hp
    · exact hsidecars s hs hp
    · exact hrecovered p hq hp
    · exact hrest s hs hp

theorem Loop.empty_of_owning {w : World} (h : Loop plan w) (ho : Owning w) (hvmm : VmmGone w) (hsidecars : AllGone w) :
    Empty w := by
  refine h.empty_of_gone hvmm hsidecars (fun q hq => ?_) fun s hs => ?_
  · rw [ho.recoveredVmm] at hq
    cases hq
  · rw [ho.recoveredSidecars] at hs
    cases hs

theorem Loop.empty_of_adopting {w : World} (h : Loop plan w) (ha : Adopting w)
    (hrecovered : ∀ q, w.recoveredVmm = some q → Gone q w) (hrest : RecoveredGone w) : Empty w := by
  refine h.empty_of_gone (fun v hv => ?_) (fun s hs => ?_) hrecovered hrest
  · rw [ha.vmm] at hv
    cases hv
  · rw [ha.sidecars] at hs
    cases hs

/-- The last cleanup is about the process. -/
def World.covers (w : World) (p : Proc) : Prop :=
  (w.vmm = none ∨ w.recoveredVmm = none) ∧ (w.holds p ∨ w.vmm = none ∧ w.retainedRecord = some p.record)

/-- The last cleanup is about every live process. -/
def Covered (w : World) : Prop := w.lost ∨ ∀ p ∈ w.alive, w.covers p

theorem Empty.covered {w : World} (h : Empty w) : Covered w := by
  rcases h with h | h
  · refine .inr fun p hp => ?_
    rw [h] at hp
    cases hp
  · exact .inl h

theorem Loop.covered {w : World} (h : Loop plan w) : Covered w := by
  refine h.held.imp id fun hheld p hp => ⟨?_, .inl (hheld p hp)⟩
  rcases h.mode with hm | hm | hm
  · exact .inl hm.vmm
  · exact .inr hm.recoveredVmm
  · exact .inl hm.vmm

/-- What an error leaves. -/
structure Failed (plan : LaunchPlan) (pid : Nat) (w : World) : Prop where
  inv : Inv plan w
  covered : Covered w ∨ w.state.shimPid ≠ some pid

theorem Loop.failed {w : World} (h : Loop plan w) : Failed plan pid w := ⟨h.inv, .inl h.covered⟩

theorem Inv.failed_of_empty {w : World} (hi : Inv plan w) (h : Empty w) : Failed plan pid w := ⟨hi, .inl h.covered⟩

/-- What the end of a run leaves. -/
structure Done (plan : LaunchPlan) (w : World) : Prop where
  inv : Inv plan w
  empty : Empty w
  retired : Retired w
  runtime : w.runtime = none

theorem Done.after {w w' : World} (h : Done plan w) (hstep : ForwardStep plan w w') (hsame : SameState w w') :
    Done plan w' where
  inv := hstep.inv
  empty := h.empty.after hstep
  retired := h.retired.after hsame
  runtime := by
    have := hstep.runtime
    rw [h.runtime] at this
    simpa using this

/-- How a part of a run ends: with `Q` if it succeeds, with `E` if it fails, and with the invariant if it is killed. -/
def Ends (plan : LaunchPlan) (E : World → Prop) {α : Type} (Q : α → World → Prop) : Outcome FirestoneError α × World → Prop
  | (.ok a, w) => Q a w
  | (.error _, w) => E w
  | (.killed, w) => Inv plan w

section ends

variable {α β : Type} {x : ShimProg α} {f : α → ShimProg β} {E M : World → Prop} {Q Q' : α → World → Prop}
  {S : β → World → Prop} {w : World}

theorem Ends.mono {r : Outcome FirestoneError α × World} (h : Ends plan E Q r) (hQ : ∀ a w, Q a w → Q' a w) :
    Ends plan E Q' r := by
  rcases r with ⟨a | e | _, w⟩
  · exact hQ a w h
  · exact h
  · exact h

theorem Ends.bind (hx : Ends plan E Q (x w)) (hf : ∀ a u, Q a u → Ends plan E S (f a u)) : Ends plan E S ((x >>= f) w) := by
  refine bind_cases (P := Ends plan E S) (fun a u h => ?_) (fun _ u h => ?_) fun u h => ?_
  all_goals rw [h] at hx
  · exact hf a u hx
  · exact hx
  · exact hx

/-- The handler takes what a failure leaves to what the whole leaves. -/
theorem Ends.onError {handler : FirestoneError → ShimProg Unit} (hx : Ends plan M Q (x w))
    (hh : ∀ e u, M u → Ends plan E (fun _ => E) (handler e u)) : Ends plan E Q (onError x handler w) := by
  rcases h : x w with ⟨a | e | _, u⟩
  · rw [h] at hx
    rw [onError_eq_ok.mpr h]
    exact hx
  · rw [h] at hx
    rw [show Prog.onError x handler w = (handler e >>= fun _ => Prog.fail e) u from
      bind_run_ok (attempt_eq_ok.mpr (.inr ⟨e, rfl, h⟩))]
    exact Ends.bind (hh e u hx) fun _ _ h => h
  · rw [h] at hx
    have hattempt : attempt x w = (.killed, u) := by rw [attempt, h]
    rw [show Prog.onError x handler w = (.killed, u) from bind_run_killed hattempt]
    exact hx

/-- A program that keeps `R` ends where `R` leads. -/
theorem Ends.keeps {I : World → Prop} {R : World → World → Prop} [hx : Keeps R x] (hI : ∀ u, R w u → I u)
    (hE : ∀ u, I u → E u) (hK : ∀ u, I u → Inv plan u) : Ends plan E (fun _ => I) (x w) := by
  have hstep := hx.step w
  rcases h : x w with ⟨a | e | _, u⟩
  all_goals rw [h] at hstep
  · exact hI u hstep
  · exact hE u (hI u hstep)
  · exact hK u (hI u hstep)

theorem Ends.keeps_bind {I : World → Prop} {R : World → World → Prop} [hx : Keeps R x] (hI : ∀ u, R w u → I u)
    (hE : ∀ u, I u → E u) (hK : ∀ u, I u → Inv plan u)
    (hf : ∀ a u, x w = (.ok a, u) → R w u → I u → Ends plan E S (f a u)) : Ends plan E S ((x >>= f) w) := by
  refine bind_cases (P := Ends plan E S) (fun a u h => ?_) (fun _ u h => ?_) fun u h => ?_
  · exact hf a u h (hx.run h) (hI u (hx.run h))
  · exact hE u (hI u (hx.run h))
  · exact hK u (hI u (hx.run h))

/-- An attempt does not fail. -/
theorem Ends.attempt_bind {k : Except FirestoneError α → ShimProg β} {R : World → World → Prop} [hx : Keeps R x]
    (hK : ∀ u, R w u → Inv plan u)
    (hk : ∀ r u, attempt x w = (.ok r, u) → R w u → Ends plan E S (k r u)) : Ends plan E S ((attempt x >>= k) w) := by
  refine bind_cases (P := Ends plan E S) (fun r u h => ?_) (fun _ u h => ?_) fun u h => ?_
  · exact hk r u h (keeps_attempt.run h)
  · exact absurd h attempt_ne_error
  · exact hK u (keeps_attempt.run h)

/-- An attempt turns a failure into a result. -/
theorem Ends.attempt (hx : Ends plan M Q (x w)) :
    Ends plan E (fun r u => match r with | .ok a => Q a u | .error _ => M u) (Prog.attempt x w) := by
  rw [Prog.attempt]
  rcases h : x w with ⟨a | e | _, u⟩
  all_goals
    rw [h] at hx
    exact hx

/-- In the loop, a settling part. -/
theorem Loop.bind (hw : Loop plan w) [Keeps (Settling plan) x]
    (hf : ∀ a u, x w = (.ok a, u) → SettlingStep plan w u → Loop plan u → Ends plan (Failed plan pid) S (f a u)) :
    Ends plan (Failed plan pid) S ((x >>= f) w) :=
  Ends.keeps_bind (R := Settling plan) (fun _ hu => hw.after (hu hw.inv)) (fun _ => Loop.failed) (fun _ => Loop.inv)
    fun a u h hu => hf a u h (hu hw.inv)

/-- In the loop, a look at the state. -/
theorem Loop.look {k : World → ShimProg β} (hw : Loop plan w) (h : Loop plan w → Ends plan (Failed plan pid) S (k w w)) :
    Ends plan (Failed plan pid) S ((get >>= k) w) :=
  h hw

/-- In the loop, a settling part at the end. -/
theorem Loop.ends (hw : Loop plan w) [Keeps (Settling plan) x] : Ends plan (Failed plan pid) (fun _ => Loop plan) (x w) :=
  Ends.keeps (R := Settling plan) (fun _ hu => hw.after (hu hw.inv)) (fun _ => Loop.failed) fun _ => Loop.inv

/-- Once nothing is alive, a settling part. -/
theorem Empty.bind (hi : Inv plan w) (hw : Empty w) [Keeps (Settling plan) x]
    (hf : ∀ a u, x w = (.ok a, u) → Inv plan u → Empty u → Ends plan (Failed plan pid) S (f a u)) :
    Ends plan (Failed plan pid) S ((x >>= f) w) :=
  Ends.keeps_bind (R := Settling plan) (I := fun u => Inv plan u ∧ Empty u)
    (fun _ hu => ⟨(hu hi).inv, hw.after (hu hi).toForwardStep⟩) (fun _ h => h.1.failed_of_empty h.2) (fun _ h => h.1)
    fun a u h _ hu => hf a u h hu.1 hu.2

end ends

/-! ## The end of a run -/

/-- The evidence may go once nothing is alive. -/
theorem Inv.clear {w : World} {runtime : Option RuntimeDir} (hi : Inv plan w) (he : Empty w)
    (hnone : runtime.bind RuntimeDir.identity = none) : Inv plan { w with runtime := runtime } :=
  { hi with
    identityFile := fun _ hfile => nomatch hnone.symm.trans hfile
    kept := fun _ => he }

theorem Retired.setRuntime {w : World} {runtime : Option RuntimeDir} (h : Retired w) :
    Retired { w with runtime := runtime } :=
  { h with }

theorem cleanupAfterShim_ends {w : World} (hi : Inv plan w) (he : Empty w) (hr : Retired w) :
    Ends plan (Failed plan pid) (fun _ => Done plan) (cleanupAfterShim w) := by
  refine Empty.bind hi he fun a u hcall hi he => ?_
  have hr := hr.after (call_same.run hcall)
  show Ends plan (Failed plan pid) _ ((if u.runtime.isSome then _ else _ : ShimProg Unit) u)
  split
  · refine Empty.bind (w := { u with runtime := some ⟨none⟩ }) (hi.clear he rfl) he fun b v hcall hi he => ?_
    have hr := hr.setRuntime.after (call_same.run hcall)
    refine Empty.bind (w := { v with runtime := none }) (hi.clear he rfl) he fun c t hcall hi' he' => ?_
    have hstep := call_quiet.run hcall (hi.clear he rfl)
    refine ⟨hi', he', hr.setRuntime.after (call_same.run hcall), ?_⟩
    simpa using hstep.runtime
  · rename_i hnone
    exact ⟨hi, he, hr, by simpa using hnone⟩

/-- The files of a run whose machine has ended. -/
theorem mergeAndClean_ends {w : World} (hi : Inv plan w) (he : Empty w) (hr : Retired w) :
    Ends plan (Failed plan pid) (fun _ => Done plan) ((do mergeConsoleLog; cleanupAfterShim) w) :=
  Empty.bind hi he fun _ _ hmerge hi he => cleanupAfterShim_ends hi he (hr.after (mergeConsoleLog_same.run hmerge))

theorem finish_ends {w : World} {status : MachineStatus} (hended : Ended status) (processStatus : Option ExitStatus)
    (reason : ExitReason)
    (hi : Inv plan w) (he : Empty w) : Ends plan (Failed plan pid) (fun _ => Done plan) (finish status processStatus reason w) := by
  have : Keeps (Settling plan) (writeFinalState status processStatus reason) := writeFinalState_settling hended _ _
  refine Empty.bind hi he fun _ u hfinal hi he => ?_
  exact mergeAndClean_ends hi he (writeFinalState_retired hended hfinal)

theorem Done.failed {w : World} (h : Done plan w) : Failed plan pid w := h.inv.failed_of_empty h.empty

theorem Done.emit_ends {w : World} (h : Done plan w) (r : Reply) :
    Ends plan (Failed plan pid) (fun _ => Done plan) (emit r w) :=
  h.after ((emit_quiet r).step w h.inv).forward ((emit_same r).step w)

/-- The recovered VMM has exited. -/
def RecoveredVmmGone (w : World) : Prop := ∀ q, w.recoveredVmm = some q → Gone q w

theorem RecoveredVmmGone.after {w w' : World} (h : RecoveredVmmGone w) (hstep : ForwardStep plan w w') :
    RecoveredVmmGone w' :=
  fun q hq => (h q (hstep.recoveredVmm ▸ hq)).after hstep

section retire

variable {α : Type} {Q : α → World → Prop} {w : World} {f : ShimProg α}

/-- Once the owned VMM has exited, the sidecars follow. -/
theorem Loop.retireOwned (hw : Loop plan w) (ho : Owning w) (hvmm : VmmGone w)
    (hf : ∀ u, Inv plan u → Empty u → Ends plan (Failed plan pid) Q (f u)) :
    Ends plan (Failed plan pid) Q ((do forgetVmm; stopOwnedSidecars; f) w) := by
  refine hw.bind fun _ u _ hu hw => ?_
  refine hw.bind fun _ v hstop hv hw' => ?_
  have hall := stopOwnedSidecars_allGone hw.inv hstop
  exact hf v hw'.inv (hw'.empty_of_owning ((ho.after hu).after hv) ((hvmm.after hu).after hv) hall)

/-- Once the adopted VMM has exited, the recovered sidecars follow. -/
theorem Loop.retireAdopted (hw : Loop plan w) (ha : Adopting w) (hvmm : RecoveredVmmGone w)
    (hf : ∀ u, Inv plan u → Empty u → Ends plan (Failed plan pid) Q (f u)) :
    Ends plan (Failed plan pid) Q ((do forgetVmm; stopRecoveredSidecars; f) w) := by
  refine hw.bind fun _ u _ hu hw => ?_
  refine hw.bind fun _ v hstop hv hw' => ?_
  have hall := stopRecoveredSidecars_allGone hw.inv hstop
  exact hf v hw'.inv
    (hw'.empty_of_adopting ((ha.after hu).after hv) ((hvmm.after hu.toForwardStep).after hv.toForwardStep) hall)

/-- Once either VMM has exited, all sidecars follow. -/
theorem Loop.retireBoth (hw : Loop plan w) (hvmm : VmmGone w) (hrecovered : RecoveredVmmGone w)
    (hf : ∀ u, Inv plan u → Empty u → Ends plan (Failed plan pid) Q (f u)) :
    Ends plan (Failed plan pid) Q ((do forgetVmm; stopOwnedSidecars; stopRecoveredSidecars; f) w) := by
  refine hw.bind fun _ u _ hu hw => ?_
  refine hw.bind fun _ v hstop hv hw' => ?_
  refine hw'.bind fun _ t hstop' ht hw'' => ?_
  have hs := hu.trans (hv.trans ht)
  exact hf t hw''.inv (hw''.empty_of_gone (hvmm.after hs) ((stopOwnedSidecars_allGone hw.inv hstop).after ht.toForwardStep)
    (hrecovered.after hs.toForwardStep) (stopRecoveredSidecars_allGone hw'.inv hstop'))

end retire

/-! ## A failed state -/

/-- The shim has given up its state. -/
def GivenUp (plan : LaunchPlan) (w : World) : Prop := Inv plan w ∧ w.state.shimPid = none

theorem GivenUp.failed {w : World} (h : GivenUp plan w) : Failed plan pid w := ⟨h.1, .inr (by rw [h.2]; nofun)⟩

theorem GivenUp.after {w w' : World} (h : GivenUp plan w) (hstep : ForwardStep plan w w') : GivenUp plan w' :=
  ⟨hstep.inv, hstep.shimPid.elim (fun hs => hs.trans h.2) id⟩

theorem GivenUp.ends {α : Type} {x : ShimProg α} {w : World} (h : GivenUp plan w) [Keeps (Quiet plan) x] :
    Ends plan (Failed plan pid) (fun _ => GivenUp plan) (x w) :=
  Ends.keeps (R := Quiet plan) (fun _ hu => h.after (hu h.1).forward) (fun _ => GivenUp.failed) fun _ h => h.1

/-- An operation on the outside does not fail. -/
theorem Ends.interact {α : Type} {E : World → Prop} {S : α → World → Prop} {f : Answer → ShimProg α} {w : World}
    (hi : Inv plan w) (hf : ∀ a u, QuietStep plan w u → Ends plan E S (f a u)) : Ends plan E S ((interact >>= f) w) := by
  refine bind_cases (P := Ends plan E S) (fun a u h => ?_) (fun _ u h => ?_) fun u h => ?_
  · exact hf a u (interact_quiet.run h hi)
  · unfold Shim.interact at h
    dsimp only at h
    split at h <;> cases h
  · exact (interact_quiet.run h hi).inv

/-- The state says what the invariant allows. -/
theorem Inv.setState {w : World} {st : MachineState} (hi : Inv plan w) (hst : Agrees st w.alive)
    (hrunning : st.status ≠ .running) : Inv plan { w with state := st } :=
  { hi with
    state := hst
    running := fun hr hlaunched => hr.elim (fun h => absurd h hrunning) fun h => hi.running (.inr h) hlaunched }

theorem writeRecoverableFailedState_ends {w : World} {record : ProcessRecord} (hi : Inv plan w)
    (hr : RecordsVmm record w.alive)
    (e : FirestoneError) : Ends plan (Failed plan pid) (fun _ => GivenUp plan) (writeRecoverableFailedState record e w) := by
  refine Ends.interact hi fun a u hu => ?_
  have hst : Agrees { u.state with vmmPid := some record.pid } u.alive := by
    refine ⟨fun p hp hrole n hn => ?_, hu.inv.state.sidecars⟩
    cases hn
    exact (hr.2 p (hu.alive p hp) hrole).symm
  exact GivenUp.ends (x := writeState) ⟨hu.inv.setState ⟨hst.vmm, hst.sidecars⟩ nofun, rfl⟩

theorem writeAmbiguousFailedState_ends {w : World} (hi : Inv plan w) (e : FirestoneError) :
    Ends plan (Failed plan pid) (fun _ => GivenUp plan) (writeAmbiguousFailedState e w) := by
  refine Ends.interact hi fun a u hu => ?_
  exact GivenUp.ends (x := writeState) ⟨hu.inv.setState ⟨hu.inv.state.vmm, hu.inv.state.sidecars⟩ nofun, rfl⟩

/-! ## A termination signal -/

theorem terminateOwned_ends {w : World} {v : OwnedVmm} (hw : Loop plan w) (hv : w.vmm = some v) :
    Ends plan (Failed plan pid) (fun _ => Done plan) (terminateOwned v w) := by
  refine hw.bind fun _ w₁ _ h₁ hw₁ => ?_
  refine hw₁.bind fun r w₂ hstop h₂ hw₂ => ?_
  have ho := ((hw.owning hv).after h₁).after h₂
  rcases attempt_eq_ok.mp hstop with ⟨_, rfl, hrun⟩ | ⟨e, rfl, -⟩
  · obtain ⟨hvmm, hall, hr⟩ := stopOwnedVmm_gone hw₁.inv (fun hr => (hw.inv.vmmGone hv hr).after h₁) hrun
    exact mergeAndClean_ends hw₂.inv (hw₂.empty_of_owning ho hvmm hall) hr
  · refine hw₂.look fun hw₂ => ?_
    cases hv₂ : w₂.vmm with
    | none => exact hw₂.failed
    | some v₂ =>
      refine hw₂.bind fun r w₃ hreap h₃ hw₃ => ?_
      rcases attempt_eq_ok.mp hreap with ⟨status, rfl, hrun⟩ | ⟨e', rfl, -⟩
      · have hvmm := OwnedVmm.terminateAndReap_gone hw₂.inv (hw₂.inv.vmmGone hv₂) hrun
        exact hw₃.retireOwned (ho.after h₃) hvmm fun u hi he => finish_ends (.inr rfl) _ _ hi he
      · have hrecord := (hw₂.inv.vmm v₂ hv₂).1.mono h₃.alive
        exact Ends.bind (writeRecoverableFailedState_ends hw₃.inv hrecord e) fun _ u h => h.failed

theorem RecordGone.gone {p : Proc} {w : World} (h : RecordGone p.record w) : Gone p w := fun hp => h p hp rfl

/-- The adopted VMM is the one whose record is gone. -/
theorem RecordGone.recoveredVmmGone {p : Proc} {w : World} (h : RecordGone p.record w) (hp : w.recoveredVmm = some p) :
    RecoveredVmmGone w := by
  intro q hq
  rw [hp] at hq
  cases hq
  exact h.gone

theorem terminateRecovered_ends {w : World} {p : Proc} (hw : Loop plan w) (hp : w.recoveredVmm = some p) :
    Ends plan (Failed plan pid) (fun _ => Done plan) (terminateRecovered p w) := by
  refine hw.bind fun _ w₁ _ h₁ hw₁ => ?_
  refine hw₁.bind fun r w₂ hstop h₂ hw₂ => ?_
  have h₁₂ := h₁.trans h₂
  have ha := (hw.adopting hp).after h₁₂
  have hp₂ : w₂.recoveredVmm = some p := h₁₂.recoveredVmm.trans hp
  rcases attempt_eq_ok.mp hstop with ⟨_, rfl, hrun⟩ | ⟨e, rfl, -⟩
  · obtain ⟨hrecord, hall, hr⟩ := stopRecoveredVmm_gone hw₁.inv hrun
    exact mergeAndClean_ends hw₂.inv (hw₂.empty_of_adopting ha (hrecord.recoveredVmmGone hp₂) hall) hr
  · refine hw₂.bind fun r w₃ hkill h₃ hw₃ => ?_
    rcases attempt_eq_ok.mp hkill with ⟨_, rfl, hrun⟩ | ⟨e', rfl, -⟩
    · obtain ⟨_, u, -, hwait⟩ := bind_eq_ok.mp hrun
      have hgone := (waitForRecordExit_gone hwait).recoveredVmmGone (h₃.recoveredVmm.trans hp₂)
      exact hw₃.retireAdopted (ha.after h₃) hgone fun u hi he => finish_ends (.inr rfl) _ _ hi he
    · have hrecord := (hw₂.inv.recovered p hp₂).mono h₃.alive
      exact Ends.bind (writeRecoverableFailedState_ends hw₃.inv hrecord e) fun _ u h => h.failed

theorem Idle.empty {w : World} (h : Idle w) : Empty w := .inl h.alive

theorem terminate_ends {w : World} (hw : Loop plan w) : Ends plan (Failed plan pid) (fun _ => Done plan) (terminate w) := by
  refine hw.look fun hw => ?_
  cases hv : w.vmm with
  | some v => exact terminateOwned_ends hw hv
  | none =>
    refine hw.look fun hw => ?_
    cases hp : w.recoveredVmm with
    | some p => exact terminateRecovered_ends hw hp
    | none =>
      refine hw.look fun hw => ?_
      refine Empty.bind (w := w) hw.inv (hw.idle hv hp).empty fun _ u hfinal hi he => ?_
      exact cleanupAfterShim_ends hi he (writeFinalState_retired (.inr rfl) hfinal)

/-! ## The turns -/

theorem Loop.setIdentity {w : World} {i : ProcessIdentity} (hw : Loop plan w) (ha : Adopting w)
    (hr : ∀ r, i.vmm = some r → RecordsVmm r w.alive) : Loop plan { w with identity := i } where
  inv := { hw.inv with identity := hr }
  held := hw.held
  mode := .inr (.inr { ha with })

theorem recoveryTimedOut_ends {w : World} {p : Proc} (hw : Loop plan w) (hp : w.recoveredVmm = some p) :
    Ends plan (Failed plan pid) (fun _ => Loop plan) (recoveryTimedOut plan p w) := by
  have ha := hw.adopting hp
  refine hw.bind fun r u hkill hu hw' => ?_
  rcases attempt_eq_ok.mp hkill with ⟨_, rfl, hrun⟩ | ⟨e, rfl, -⟩
  · have hgone := (terminateRecoveredProcess_gone hrun).recoveredVmmGone (hu.recoveredVmm.trans hp)
    refine hw'.retireAdopted (ha.after hu) hgone fun v hi he => ?_
    exact Ends.bind (finish_ends (.inr rfl) _ _ hi he) fun _ t h => h.failed
  · have hrecord : RecordsVmm p.record u.alive := (hw.inv.recovered p hp).mono hu.alive
    have hset : Loop plan { u with identity := { u.identity with vmm := some p.record } } := by
      refine hw'.setIdentity (ha.after hu) fun r hr => ?_
      cases hr
      exact hrecord
    refine hset.bind fun _ v _ hv hw'' => ?_
    exact Ends.bind (writeRecoverableFailedState_ends hw''.inv (hrecord.mono hv.alive) _) fun _ t h => h.failed

/-- A shim that has adopted a VMM may say that it is running. -/
theorem Loop.setState {w : World} {st : MachineState} (hw : Loop plan w) (ha : Adopting w) (hst : PidsFrom st w.state) :
    Loop plan { w with state := st } where
  inv := { hw.inv with
    state := hw.inv.state.mono hst fun _ hp => hp
    running := fun _ _ => .inl ha.recoveredVmm }
  held := hw.held
  mode := .inr (.inr { ha with })

theorem pingRecovered_ends {w : World} {p : Proc} (hw : Loop plan w) (hp : w.recoveredVmm = some p) :
    Ends plan (Failed plan pid) (fun _ => Loop plan) (pingRecovered p w) := by
  refine hw.bind fun ping u _ hu hw' => ?_
  show Ends plan (Failed plan pid) _ ((if _ then _ else _ : ShimProg Unit) u)
  split
  · have hquiet : Quiet plan u { u with recoveryApiPending := false } := Quiet.of_core rfl
    have hapi := hw'.after (hquiet hw'.inv).toSettlingStep
    have ha : Adopting { u with recoveryApiPending := false } := { (hw.adopting hp).after hu with }
    exact Loop.ends (x := writeState) (hapi.setState ha ⟨fun _ h => h, fun _ h => h⟩)
  · exact hw'

theorem recoveryTurn_ends {w : World} {r : Recovery} (hw : Loop plan w) :
    Ends plan (Failed plan pid) (fun _ => Loop plan) (recoveryTurn plan r w) := by
  refine hw.look fun hw => ?_
  split
  · refine hw.look fun hw => ?_
    cases hp : w.recoveredVmm with
    | none => exact hw.failed
    | some p =>
      refine hw.bind fun a u _ hu hw' => ?_
      have hp : u.recoveredVmm = some p := hu.recoveredVmm.trans hp
      split
      · exact recoveryTimedOut_ends hw' hp
      · exact pingRecovered_ends hw' hp
  · exact hw

theorem launchDeadlineTurn_ends {w : World} (hw : Loop plan w) :
    Ends plan (Failed plan pid) (fun _ => Loop plan) (launchDeadlineTurn plan w) := by
  refine hw.look fun hw => ?_
  split
  · exact hw
  · rename_i hlaunched
    refine hw.bind fun a u _ hu hw' => ?_
    show Ends plan (Failed plan pid) _ ((if a.expired then _ else _ : ShimProg Unit) u)
    split
    · have hidle := (hw.idle_of_launched (by simpa using hlaunched)).after hu.toForwardStep
      refine Empty.bind (w := u) hw'.inv hidle.empty fun _ v hfinal hi he => ?_
      exact Ends.bind (cleanupAfterShim_ends hi he (writeFinalState_retired (.inr rfl) hfinal)) fun _ t h => h.failed
    · exact hw'

/-- After a turn the run is done or goes on. -/
def TurnEnds (plan : LaunchPlan) (done : Bool) (w : World) : Prop := if done then Done plan w else Loop plan w

theorem ownedExitTurn_ends {w : World} (hw : Loop plan w) :
    Ends plan (Failed plan pid) (TurnEnds plan) (ownedExitTurn w) := by
  refine hw.look fun hw => ?_
  cases hv : w.vmm with
  | none => exact hw
  | some v =>
    refine hw.bind fun exited u _ hu hw' => ?_
    split
    · refine hw'.bind fun status t hreap ht hw'' => ?_
      have hvmm := OwnedVmm.terminateAndReap_gone hw'.inv (fun hr => (hw.inv.vmmGone hv hr).after hu) hreap
      refine hw''.bind fun reason s _ hs hw₃ => ?_
      refine hw₃.retireOwned ((((hw.owning hv).after hu).after ht).after hs) (hvmm.after hs) fun y hi he => ?_
      exact Ends.bind (finish_ends (.inr rfl) _ _ hi he) fun _ _ h => h
    · exact hw'

theorem recoveredExitTurn_ends {w : World} (hw : Loop plan w) :
    Ends plan (Failed plan pid) (TurnEnds plan) (recoveredExitTurn w) := by
  refine hw.look fun hw => ?_
  cases hp : w.recoveredVmm with
  | none => exact hw
  | some p =>
    refine hw.bind fun alive u halive hu hw' => ?_
    split
    · exact hw'
    · rename_i hdead
      rw [Bool.not_eq_true] at hdead
      subst hdead
      have hgone : RecoveredVmmGone u := by
        intro q hq
        rw [hu.recoveredVmm, hp] at hq
        cases hq
        exact isAlive_gone halive
      refine hw'.bind fun reason s _ hs hw'' => ?_
      have hvmm : VmmGone s := by
        intro v hv
        rw [(((hw.adopting hp).after hu).after hs).vmm] at hv
        cases hv
      refine hw''.retireBoth hvmm (hgone.after hs.toForwardStep) fun y hi he => ?_
      exact Ends.bind (finish_ends (.inr rfl) _ _ hi he) fun _ _ h => h

/-- The owned sidecars are those of the state in which the turn looks at them. -/
theorem reconcileOwned_bind_quiet {f : ShimProg Unit} (hf : Keeps (Quiet plan) f) :
    Keeps (Quiet plan) (do reconcileOwnedSidecarExits (← get).sidecars; f) := by
  refine get_bind_quiet fun w hi => ?_
  have hsteps : KeepsFrom (fun u => Inv plan u ∧ Running w.sidecars u) (QuietStep plan) _ :=
    reconcileOwnedSidecarExits_steps w.sidecars
  exact KeepsFrom.bind (fun _ => Inv plan) hsteps (fun u _ v hu h => (hsteps.run hu h).inv)
    (fun _ => quiet_steps hf fun _ h => h) w ⟨hi, hi.sidecars⟩

instance sidecarTurn_quiet : Keeps (Quiet plan) sidecarTurn := by
  have hrecovered : Keeps (Quiet plan) (do reconcileRecoveredSidecarExits (← get).recoveredSidecars) := inferInstance
  have := reconcileOwned_bind_quiet hrecovered
  unfold sidecarTurn
  infer_instance

/-! ## A stop request -/

instance stopMachine_settling (force : Bool) : Keeps (Settling plan) (stopMachine force) := by
  refine Keeps.bind inferInstance fun w => ?_
  cases w.vmm with
  | some v => exact stopOwnedVmm_settling force v
  | none =>
    refine Keeps.bind inferInstance fun w => ?_
    cases w.recoveredVmm <;> infer_instance

/-- A stop that succeeds leaves nothing alive. -/
theorem stopMachine_empty {force : Bool} {w w' : World} (hw : Loop plan w) (h : stopMachine force w = (.ok (), w')) :
    Empty w' ∧ Retired w' := by
  have hstep : SettlingStep plan w w' := (stopMachine_settling force).run h hw.inv
  have hw' := hw.after hstep
  obtain ⟨x, u, hget, h⟩ := bind_eq_ok.mp h
  cases hget
  cases hv : w.vmm with
  | some v =>
    rw [hv] at h
    obtain ⟨hvmm, hall, hr⟩ := stopOwnedVmm_gone hw.inv (hw.inv.vmmGone hv) h
    exact ⟨hw'.empty_of_owning ((hw.owning hv).after hstep) hvmm hall, hr⟩
  | none =>
    rw [hv] at h
    obtain ⟨x, u, hget, h⟩ := bind_eq_ok.mp h
    cases hget
    cases hp : w.recoveredVmm with
    | some p =>
      rw [hp] at h
      obtain ⟨hrecord, hall, hr⟩ := stopRecoveredVmm_gone hw.inv h
      have hgone := hrecord.recoveredVmmGone (hstep.recoveredVmm.trans hp)
      exact ⟨hw'.empty_of_adopting ((hw.adopting hp).after hstep) hgone hall, hr⟩
    | none =>
      rw [hp] at h
      exact ⟨(hw.idle hv hp).empty.after hstep.toForwardStep, writeFinalState_retired (.inl rfl) h⟩

/-- What is known after a stop that failed. -/
def AfterStop.Holds (w : World) : AfterStop → Prop
  | .alive => w.vmm.isSome = true ∨ w.recoveredVmm.isSome = true
  | .completed _ => VmmGone w ∧ RecoveredVmmGone w
  | .nothing => True

theorem Owning.recoveredVmmGone {w : World} (h : Owning w) : RecoveredVmmGone w := fun q hq => by
  rw [h.recoveredVmm] at hq
  cases hq

theorem Adopting.vmmGone {w : World} (h : Adopting w) : VmmGone w := fun v hv => by
  rw [h.vmm] at hv
  cases hv

theorem afterFailedStop_ends {w : World} (hw : Loop plan w) :
    Ends plan (Failed plan pid) (fun r u => SettlingStep plan w u ∧ r.Holds u) (afterFailedStop w) := by
  have hrefl : SettlingStep plan w w := (QuietStep.refl hw.inv).toSettlingStep
  refine hw.look fun hw => ?_
  cases hv : w.vmm with
  | some v =>
    have ho := hw.owning hv
    dsimp only
    split
    · rename_i hreaped
      simp only [OwnedVmm.isFullyReaped, Bool.and_eq_true] at hreaped
      exact ⟨hrefl, hw.inv.vmmGone hv hreaped.2, ho.recoveredVmmGone⟩
    · refine hw.bind fun exited u _ hu hw' => ?_
      split
      · refine hw'.bind fun status t hreap ht hw'' => ?_
        have hvmm := OwnedVmm.terminateAndReap_gone hw'.inv (fun hr => (hw.inv.vmmGone hv hr).after hu) hreap
        exact ⟨hu.trans ht, hvmm, ((ho.after hu).after ht).recoveredVmmGone⟩
      · exact ⟨hu, .inl (ho.after hu).vmm⟩
  | none =>
    refine hw.look fun hw => ?_
    cases hp : w.recoveredVmm with
    | none => exact ⟨hrefl, trivial⟩
    | some p =>
      refine hw.bind fun alive u halive hu hw' => ?_
      have ha := (hw.adopting hp).after hu
      cases alive with
      | true => exact ⟨hu, .inr ha.recoveredVmm⟩
      | false =>
        refine ⟨hu, ha.vmmGone, fun q hq => ?_⟩
        rw [hu.recoveredVmm, hp] at hq
        cases hq
        exact isAlive_gone halive

/-- The machine may say again that it is running, if it could before. -/
theorem Loop.setStatus {w : World} {status : MachineStatus} (hw : Loop plan w)
    (hnot : w.vmm.isSome = true ∨ w.recoveredVmm.isSome = true)
    (hstatus : status = .running → w.launched = true → w.recoveredVmm.isSome = true ∨ w.steps = plan.launchOrder) :
    Loop plan { w with state := { w.state with status := status } } where
  inv := { hw.inv with
    state := ⟨hw.inv.state.vmm, hw.inv.state.sidecars⟩
    running := fun hr hlaunched => hr.elim (fun h => hstatus h hlaunched) fun h => hw.inv.running (.inr h) hlaunched }
  held := hw.held
  mode := by
    rcases hw.mode with h | h | h
    · rw [h.vmm, h.recoveredVmm] at hnot
      rcases hnot with hnot | hnot <;> cases hnot
    · exact .inr (.inl { h with })
    · exact .inr (.inr { h with })

theorem settleStop_ends {w : World} {status : MachineStatus} {e : FirestoneError} {r : AfterStop} (hw : Loop plan w)
    (hr : r.Holds w)
    (hstatus : status = .running → w.launched = true → w.recoveredVmm.isSome = true ∨ w.steps = plan.launchOrder) :
    Ends plan (Failed plan pid) (TurnEnds plan) (settleStop status e r w) := by
  cases r with
  | alive =>
    refine (hw.setStatus hr hstatus).bind fun _ u _ _ hw' => ?_
    exact hw'.bind fun _ v _ _ hw'' => hw''
  | completed processStatus =>
    refine hw.retireBoth hr.1 hr.2 fun u hi he => ?_
    refine Ends.bind (finish_ends (.inl rfl) _ _ hi he) fun _ v h => ?_
    exact Ends.bind (h.emit_ends .ok) fun _ t h => h
  | nothing => exact hw.bind fun _ u _ _ hw' => hw'

theorem handleStop_ends {w : World} {timeoutS : Nat} {force : Bool} (hw : Loop plan w) :
    Ends plan (Failed plan pid) (TurnEnds plan) (handleStop timeoutS force w) := by
  unfold handleStop
  split
  · exact hw.bind fun _ u _ _ hw' => hw'
  · refine hw.bind fun _ u _ _ hw' => ?_
    refine hw'.look fun hw' => ?_
    refine hw'.bind fun r v hstop hv hw'' => ?_
    rcases attempt_eq_ok.mp hstop with ⟨_, rfl, hrun⟩ | ⟨e, rfl, -⟩
    · obtain ⟨he, hr⟩ := stopMachine_empty hw' hrun
      refine Empty.bind hw''.inv he fun _ t hmerge hi he => ?_
      refine Ends.bind (cleanupAfterShim_ends hi he (hr.after (mergeConsoleLog_same.run hmerge))) fun _ s h => ?_
      exact Ends.bind (h.emit_ends .ok) fun _ t h => h
    · refine Ends.bind (afterFailedStop_ends hw'') fun r t ht => ?_
      have hs := hv.trans ht.1
      refine settleStop_ends (hw'.after hs) ht.2 fun hrunning hlaunched => ?_
      rw [hs.recoveredVmm, hs.steps]
      exact hw'.inv.running (.inl hrunning) (hs.launched ▸ hlaunched)

end Firestone.Shim
