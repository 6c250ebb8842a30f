import Firestone.Shim.Supervisor

/-!
# What the steps of a shim keep

* `Inv` — what holds whenever a shim runs: every role has at most one live process, every pid that is written down is the
  pid of the live process of its role, and `identity.json` is gone only when nothing is left alive.
* `Held` — every live process is in the hands of an owner, or is recovered.
* `ForwardStep` — a step in which no process is spawned, no evidence is removed and the invariant stays.
* `Steady`, `Settling`, `Quiet` — from a state with the invariant, a forward step that besides keeps the VMM pid of the
  state, or lets go of nothing that may be alive, or both.

Two gaps are named in the state: `missed`, when a look for sidecars misses a live one, and `unpublished`, when the live
sidecars of a failed launch cannot be written down. `lost` is either.
-/

namespace Firestone.Shim

open Firestone.Lib Prog

/-! ## The invariant -/

/-- Pids that are written down are those of the live processes. -/
structure Agrees (st : MachineState) (alive : List Proc) : Prop where
  vmm : ∀ p ∈ alive, p.role = .vmm → ∀ pid, st.vmmPid = some pid → pid = p.pid
  sidecars : ∀ p ∈ alive, ∀ name, p.role = .sidecar name → ∀ pid, (name, pid) ∈ st.sidecarPids → pid = p.pid

/-- A record of the VMM, if a VMM is alive. -/
def RecordsVmm (r : ProcessRecord) (alive : List Proc) : Prop :=
  r.role = .vmm ∧ ∀ p ∈ alive, p.role = .vmm → p.pid = r.pid

def World.lost (w : World) : Prop := w.missed = true ∨ w.unpublished = true

/-- What holds of the processes and the files, whether a shim runs or not. -/
structure FilesInv (plan : LaunchPlan) (w : World) : Prop where
  unique : ∀ p ∈ w.alive, ∀ q ∈ w.alive, p.role = q.role → p = q
  planned : ∀ p ∈ w.alive, p.role = .vmm ∨ ∃ name ∈ plan.sidecars, p.role = .sidecar name
  file : Agrees w.stateFile w.alive
  identityFile : ∀ i, w.identityFile = some i → ∀ r, i.vmm = some r → r.role = .vmm
  kept : w.identityFile = none → w.alive = [] ∨ w.lost

/-- The order of a launch. -/
def LaunchPlan.launchOrder (plan : LaunchPlan) : List LaunchStep :=
  plan.sidecars.flatMap (fun name => [.spawned (.sidecar name), .ready name]) ++ [.spawned .vmm, .answered] ++
    if plan.restoreSnapshot.isSome then [.vmRestore, .vmResume] else [.vmCreate, .vmBoot]

def World.saysRunning (w : World) : Prop := w.state.status = .running ∨ w.stateFile.status = .running

/-- What holds of the variables of a shim besides. -/
structure Inv (plan : LaunchPlan) (w : World) : Prop extends FilesInv plan w where
  state : Agrees w.state w.alive
  identity : ∀ r, w.identity.vmm = some r → RecordsVmm r w.alive
  vmm : ∀ v, w.vmm = some v → RecordsVmm v.record w.alive ∧ (v.child ∈ w.alive → v.process = true ∧ v.reapedStatus = none)
  vmmOnly : ∀ v, w.vmm = some v → ∀ p ∈ w.alive, p.role = .vmm → p = v.child
  sidecars : ∀ s ∈ w.sidecars, s.child ∈ w.alive → s.process = true ∧ s.reapedStatus = none
  recovered : ∀ q, w.recoveredVmm = some q → RecordsVmm q.record w.alive
  owner : w.ownerReaped.isSome = true → ∀ p ∈ w.alive, p.role ≠ .vmm
  ordered : w.steps <+: plan.launchOrder
  running : w.saysRunning → w.launched = true → w.recoveredVmm.isSome = true ∨ w.steps = plan.launchOrder

/-- The process is in the hands of an owner, or is recovered. -/
def World.holds (w : World) (p : Proc) : Prop :=
  (∃ v, w.vmm = some v ∧ v.child = p) ∨ (∃ s ∈ w.sidecars, s.child = p) ∨ w.recoveredVmm = some p ∨
    ∃ s ∈ w.recoveredSidecars, s.process = p

/-- Every live process is held. -/
def Held (w : World) : Prop := w.lost ∨ ∀ p ∈ w.alive, w.holds p

/-- Every live process is held or known otherwise. -/
def HeldOr (known : Proc → Prop) (w : World) : Prop := w.lost ∨ ∀ p ∈ w.alive, w.holds p ∨ known p

/-! ## Steps -/

/-- No pid is added. -/
structure PidsFrom (st' st : MachineState) : Prop where
  vmm : ∀ pid, st'.vmmPid = some pid → st.vmmPid = some pid
  sidecars : ∀ x ∈ st'.sidecarPids, x ∈ st.sidecarPids

theorem PidsFrom.refl (st : MachineState) : PidsFrom st st := ⟨fun _ h => h, fun _ h => h⟩

theorem PidsFrom.trans {a b c : MachineState} (h : PidsFrom a b) (h' : PidsFrom b c) : PidsFrom a c :=
  ⟨fun pid hpid => h'.vmm pid (h.vmm pid hpid), fun x hx => h'.sidecars x (h.sidecars x hx)⟩

theorem Agrees.mono {st st' : MachineState} {alive alive' : List Proc} (h : Agrees st alive) (hst : PidsFrom st' st)
    (halive : ∀ p ∈ alive', p ∈ alive) : Agrees st' alive' :=
  ⟨fun p hp hrole pid hpid => h.vmm p (halive p hp) hrole pid (hst.vmm pid hpid),
    fun p hp name hrole pid hpid => h.sidecars p (halive p hp) name hrole pid (hst.sidecars _ hpid)⟩

theorem RecordsVmm.mono {r : ProcessRecord} {alive alive' : List Proc} (h : RecordsVmm r alive)
    (halive : ∀ p ∈ alive', p ∈ alive) : RecordsVmm r alive' :=
  ⟨h.1, fun p hp => h.2 p (halive p hp)⟩

/-- No process is spawned, no evidence is removed and no pid is added. -/
structure ForwardStep (plan : LaunchPlan) (w w' : World) : Prop where
  inv : Inv plan w'
  alive : ∀ p ∈ w'.alive, p ∈ w.alive
  pids : PidsFrom w'.state w.state
  filePids : PidsFrom w'.stateFile w.stateFile ∨ PidsFrom w'.stateFile w.state
  shimPid : w'.state.shimPid = w.state.shimPid ∨ w'.state.shimPid = none
  running : w'.saysRunning → w.saysRunning
  lost : w.lost → w'.lost
  identityFile : w'.identityFile = none → w.identityFile = none
  runtime : w'.runtime.isSome = w.runtime.isSome
  launched : w'.launched = w.launched
  steps : w'.steps = w.steps
  recoveredVmm : w'.recoveredVmm = w.recoveredVmm
  recoveredSidecars : ∀ s ∈ w'.recoveredSidecars, s ∈ w.recoveredSidecars
  noVmm : w.vmm = none → w'.vmm = none
  noIdentity : w.identity.vmm = none → w'.identity.vmm = none
  sidecars : ∀ s ∈ w'.sidecars, ∃ t ∈ w.sidecars, t.child = s.child ∧ t.name = s.name

/-- A forward step that keeps the VMM pid of the state. -/
structure SteadyStep (plan : LaunchPlan) (w w' : World) : Prop extends ForwardStep plan w w' where
  vmmPid : w'.state.vmmPid = w.state.vmmPid

/-- A forward step in which nothing alive is let go of. -/
structure SettlingStep (plan : LaunchPlan) (w w' : World) : Prop extends ForwardStep plan w w' where
  vmm : w'.vmm.map OwnedVmm.child = w.vmm.map OwnedVmm.child
  heldOr : ∀ known, HeldOr known w → HeldOr known w'

/-- Both. -/
structure QuietStep (plan : LaunchPlan) (w w' : World) : Prop extends SettlingStep plan w w' where
  vmmPid : w'.state.vmmPid = w.state.vmmPid

def Steady (plan : LaunchPlan) (w w' : World) : Prop := Inv plan w → SteadyStep plan w w'

def Settling (plan : LaunchPlan) (w w' : World) : Prop := Inv plan w → SettlingStep plan w w'

def Quiet (plan : LaunchPlan) (w w' : World) : Prop := Inv plan w → QuietStep plan w w'

variable {plan : LaunchPlan}

theorem SettlingStep.held {w w' : World} (h : SettlingStep plan w w') (hheld : Held w) : Held w' :=
  (h.heldOr (fun _ => False) (hheld.imp id fun hall p hp => .inl (hall p hp))).imp id fun hall p hp =>
    (hall p hp).elim id False.elim

theorem QuietStep.forward {w w' : World} (h : QuietStep plan w w') : ForwardStep plan w w' := h.toSettlingStep.toForwardStep

theorem QuietStep.steady {w w' : World} (h : QuietStep plan w w') : SteadyStep plan w w' := ⟨h.forward, h.vmmPid⟩

theorem QuietStep.refl {w : World} (hi : Inv plan w) : QuietStep plan w w where
  inv := hi
  alive _ hp := hp
  pids := .refl _
  filePids := .inl (.refl _)
  shimPid := .inl rfl
  running := id
  lost := id
  identityFile := id
  runtime := rfl
  launched := rfl
  steps := rfl
  recoveredVmm := rfl
  recoveredSidecars _ hs := hs
  noVmm := id
  noIdentity := id
  sidecars s hs := ⟨s, hs, rfl, rfl⟩
  vmm := rfl
  heldOr _ h := h
  vmmPid := rfl

theorem ForwardStep.trans {a b c : World} (h : ForwardStep plan a b) (h' : ForwardStep plan b c) : ForwardStep plan a c where
  inv := h'.inv
  alive p hp := h.alive p (h'.alive p hp)
  pids := h'.pids.trans h.pids
  filePids := by
    rcases h'.filePids with h' | h'
    · exact h.filePids.imp h'.trans h'.trans
    · exact .inr (h'.trans h.pids)
  shimPid := by
    rcases h'.shimPid with h' | h'
    · rw [h']
      exact h.shimPid
    · exact .inr h'
  running hr := h.running (h'.running hr)
  lost hl := h'.lost (h.lost hl)
  identityFile hi := h.identityFile (h'.identityFile hi)
  runtime := h'.runtime.trans h.runtime
  launched := h'.launched.trans h.launched
  steps := h'.steps.trans h.steps
  recoveredVmm := h'.recoveredVmm.trans h.recoveredVmm
  recoveredSidecars s hs := h.recoveredSidecars s (h'.recoveredSidecars s hs)
  noVmm hv := h'.noVmm (h.noVmm hv)
  noIdentity hv := h'.noIdentity (h.noIdentity hv)
  sidecars s hs := by
    obtain ⟨t, ht, hchild, hname⟩ := h'.sidecars s hs
    obtain ⟨u, hu, hchild', hname'⟩ := h.sidecars t ht
    exact ⟨u, hu, hchild'.trans hchild, hname'.trans hname⟩

theorem SteadyStep.trans {a b c : World} (h : SteadyStep plan a b) (h' : SteadyStep plan b c) : SteadyStep plan a c :=
  ⟨h.toForwardStep.trans h'.toForwardStep, h'.vmmPid.trans h.vmmPid⟩

theorem SettlingStep.trans {a b c : World} (h : SettlingStep plan a b) (h' : SettlingStep plan b c) :
    SettlingStep plan a c :=
  ⟨h.toForwardStep.trans h'.toForwardStep, h'.vmm.trans h.vmm, fun known hh => h'.heldOr known (h.heldOr known hh)⟩

theorem QuietStep.trans {a b c : World} (h : QuietStep plan a b) (h' : QuietStep plan b c) : QuietStep plan a c :=
  ⟨h.toSettlingStep.trans h'.toSettlingStep, h'.vmmPid.trans h.vmmPid⟩

instance : IsTrans World (QuietStep plan) := ⟨fun _ _ _ h h' => h.trans h'⟩

instance : Std.Refl (Steady plan) := ⟨fun _ hi => (QuietStep.refl hi).steady⟩

instance : Std.Refl (Settling plan) := ⟨fun _ hi => (QuietStep.refl hi).toSettlingStep⟩

instance : Std.Refl (Quiet plan) := ⟨fun _ hi => .refl hi⟩

instance : IsTrans World (Steady plan) := ⟨fun _ _ _ h h' hi => (h hi).trans (h' (h hi).inv)⟩

instance : IsTrans World (Settling plan) := ⟨fun _ _ _ h h' hi => (h hi).trans (h' (h hi).inv)⟩

instance : IsTrans World (Quiet plan) := ⟨fun _ _ _ h h' hi => (h hi).trans (h' (h hi).inv)⟩

/-- What is quiet is steady. -/
instance (priority := low) steady_of_quiet {α : Type} {x : ShimProg α} [h : Keeps (Quiet plan) x] : Keeps (Steady plan) x :=
  h.mono fun _ _ h hi => (h hi).steady

/-- What is quiet is settling. -/
instance (priority := low) settling_of_quiet {α : Type} {x : ShimProg α} [h : Keeps (Quiet plan) x] :
    Keeps (Settling plan) x :=
  h.mono fun _ _ h hi => (h hi).toSettlingStep

/-- What the invariant is about. -/
def World.core (w : World) : World :=
  { w with env := [], terminating := false, recoveryApiPending := false, sent := [] }

theorem Inv.core_iff {w : World} : Inv plan w.core ↔ Inv plan w :=
  ⟨fun h => { h with }, fun h => { h with }⟩

/-- A step outside the core is quiet. -/
theorem Quiet.of_core {w w' : World} (h : w'.core = w.core) : Quiet plan w w' := by
  intro hi
  have hto : QuietStep plan w w.core := { QuietStep.refl hi with inv := Inv.core_iff.mpr hi, heldOr := fun _ h => h }
  have hi' : Inv plan w' := Inv.core_iff.mp (h ▸ hto.inv)
  have hfrom : QuietStep plan w'.core w' := { QuietStep.refl hi' with heldOr := fun _ h => h }
  rw [h] at hfrom
  exact hto.trans hfrom

/-! ## Primitive steps -/

section primitives

variable {w : World}

/-- Processes exit. -/
theorem Inv.exit {alive : List Proc} (hi : Inv plan w) (h : ∀ p ∈ alive, p ∈ w.alive) :
    Inv plan { w with alive := alive } where
  unique p hp q hq := hi.unique p (h p hp) q (h q hq)
  planned p hp := hi.planned p (h p hp)
  file := hi.file.mono (.refl _) h
  identityFile := hi.identityFile
  kept hgone := (hi.kept hgone).imp (fun hnil => List.eq_nil_iff_forall_not_mem.mpr fun p hp => by
    have := h p hp
    rw [hnil] at this
    cases this) id
  state := hi.state.mono (.refl _) h
  identity r hr := (hi.identity r hr).mono h
  vmm v hv := ⟨(hi.vmm v hv).1.mono h, fun hc => (hi.vmm v hv).2 (h _ hc)⟩
  vmmOnly v hv p hp := hi.vmmOnly v hv p (h p hp)
  sidecars s hs hc := hi.sidecars s hs (h _ hc)
  recovered q hq := (hi.recovered q hq).mono h
  owner ho p hp := hi.owner ho p (h p hp)
  ordered := hi.ordered
  running := hi.running

theorem Quiet.exit {alive : List Proc} (h : ∀ p ∈ alive, p ∈ w.alive) : Quiet plan w { w with alive := alive } := fun hi =>
  { QuietStep.refl hi with
    alive := h
    inv := hi.exit h
    heldOr := fun _ hheld => hheld.imp id fun hall p hp => hall p (h p hp) }

/-- The state changes, gains no pid and does not come to say that the machine is running. -/
theorem Settling.setState {st : MachineState} (hpids : PidsFrom st w.state)
    (hshim : st.shimPid = w.state.shimPid ∨ st.shimPid = none) (hrunning : st.status = .running → w.state.status = .running) :
    Settling plan w { w with state := st } := fun hi =>
  { QuietStep.refl hi with
    pids := hpids
    shimPid := hshim
    running := fun hr => hr.imp hrunning id
    inv := { hi with
      state := hi.state.mono hpids fun _ hp => hp
      running := fun hr => hi.running (hr.imp hrunning id) }
    heldOr := fun _ h => h }

/-- The VMM pid of the state besides is as it was. -/
theorem Quiet.setState {st : MachineState} (hpids : PidsFrom st w.state)
    (hshim : st.shimPid = w.state.shimPid ∨ st.shimPid = none) (hrunning : st.status = .running → w.state.status = .running)
    (hvmm : st.vmmPid = w.state.vmmPid) : Quiet plan w { w with state := st } := fun hi =>
  ⟨Settling.setState hpids hshim hrunning hi, hvmm⟩

/-- The state is written. -/
theorem Quiet.writeState : Quiet plan w { w with stateFile := w.state } := fun hi =>
  { QuietStep.refl hi with
    filePids := .inr (.refl _)
    running := fun hr => .inl (hr.elim id id)
    inv := { hi with
      file := hi.state
      running := fun hr => hi.running (.inl (hr.elim id id)) }
    heldOr := fun _ h => h }

/-- The identity changes, and its VMM is as before or gone. -/
theorem Quiet.setIdentity {i : ProcessIdentity} (h : i.vmm = w.identity.vmm ∨ i.vmm = none) :
    Quiet plan w { w with identity := i } := fun hi =>
  { QuietStep.refl hi with
    noIdentity := fun hn => h.elim (fun h => h.trans hn) id
    inv := { hi with
      identity := fun r hr => hi.identity r (h.elim (fun h => h ▸ hr) fun h => by rw [h] at hr; cases hr) }
    heldOr := fun _ h => h }

/-- The identity is published. -/
theorem Quiet.publish (h : w.runtime.isSome = true) : Quiet plan w { w with runtime := some ⟨some w.identity⟩ } := fun hi =>
  { QuietStep.refl hi with
    identityFile := fun hgone => nomatch hgone
    runtime := h.symm
    inv := { hi with
      identityFile := fun i hfile r hr => by
        cases hfile
        exact (hi.identity r hr).1
      kept := fun hgone => nomatch hgone }
    heldOr := fun _ h => h }

/-- The owner of the VMM changes, but not its child and record, and not at all while its child is alive. -/
theorem Quiet.setVmm {f : OwnedVmm → OwnedVmm} (hchild : ∀ v, (f v).child = v.child) (hrecord : ∀ v, (f v).record = v.record)
    (halive : ∀ v, w.vmm = some v → v.child ∈ w.alive → f v = v) : Quiet plan w (w.setVmm f) := fun hi =>
  { QuietStep.refl hi with
    noVmm := fun hv => by simp [World.setVmm, hv]
    inv := { hi with
      vmm := by
        intro u hu
        obtain ⟨v, hv, rfl⟩ := Option.map_eq_some_iff.mp hu
        refine ⟨(hrecord v).symm ▸ (hi.vmm v hv).1, fun hc => ?_⟩
        have hc : v.child ∈ w.alive := hchild v ▸ hc
        rw [halive v hv hc]
        exact (hi.vmm v hv).2 hc
      vmmOnly := by
        intro u hu p hp hrole
        obtain ⟨v, hv, rfl⟩ := Option.map_eq_some_iff.mp hu
        rw [hchild]
        exact hi.vmmOnly v hv p hp hrole }
    vmm := by
      show (w.vmm.map f).map OwnedVmm.child = _
      rw [Option.map_map]
      congr 1
      funext v
      exact hchild v
    heldOr := fun _ hheld => by
      refine hheld.imp id fun hall p hp => ?_
      refine (hall p hp).imp ?_ id
      rintro (⟨v, hv, rfl⟩ | h)
      · exact .inl ⟨f v, by rw [World.setVmm, hv]; rfl, hchild v⟩
      · exact .inr h }

/-- The proof that the VMM has been reaped, once none is alive. -/
theorem Quiet.setOwnerReaped {pid : Option Nat} (h : pid.isSome = true → ∀ p ∈ w.alive, p.role ≠ .vmm) :
    Quiet plan w { w with ownerReaped := pid } := fun hi =>
  { QuietStep.refl hi with
    inv := { hi with owner := h }
    heldOr := fun _ h => h }

/-- The owners of the sidecars change, but not their children, and what they say about a live child stays. -/
theorem Quiet.mapSidecars {f : OwnedSidecar → OwnedSidecar} (hchild : ∀ s, (f s).child = s.child)
    (hname : ∀ s, (f s).name = s.name)
    (halive : ∀ s, s.child ∈ w.alive → (f s).process = s.process ∧ (f s).reapedStatus = s.reapedStatus) :
    Quiet plan w { w with sidecars := w.sidecars.map f } := fun hi =>
  { QuietStep.refl hi with
    sidecars := by
      intro s hs
      obtain ⟨t, ht, rfl⟩ := List.mem_map.mp hs
      exact ⟨t, ht, (hchild t).symm, (hname t).symm⟩
    inv := { hi with
      sidecars := by
        intro s hs hc
        obtain ⟨t, ht, rfl⟩ := List.mem_map.mp hs
        have hc : t.child ∈ w.alive := hchild t ▸ hc
        obtain ⟨hprocess, hreaped⟩ := halive t hc
        rw [hprocess, hreaped]
        exact hi.sidecars t ht hc }
    heldOr := fun _ hheld => by
      refine hheld.imp id fun hall p hp => ?_
      refine (hall p hp).imp ?_ id
      rintro (h | ⟨s, hs, rfl⟩ | h)
      · exact .inl h
      · exact .inr (.inl ⟨f s, List.mem_map_of_mem hs, hchild s⟩)
      · exact .inr (.inr h) }

/-- Sidecars that are dead are let go of. -/
theorem Quiet.dropSidecars {l : List OwnedSidecar} (hsub : ∀ s ∈ l, s ∈ w.sidecars)
    (hdead : ∀ s ∈ w.sidecars, s ∉ l → s.child ∉ w.alive) : Quiet plan w { w with sidecars := l } := fun hi =>
  { QuietStep.refl hi with
    sidecars := fun s hs => ⟨s, hsub s hs, rfl, rfl⟩
    inv := { hi with sidecars := fun s hs => hi.sidecars s (hsub s hs) }
    heldOr := fun _ hheld => by
      refine hheld.imp id fun hall p hp => ?_
      refine (hall p hp).imp ?_ id
      rintro (h | ⟨s, hs, rfl⟩ | h)
      · exact .inl h
      · by_cases hl : s ∈ l
        · exact .inr (.inl ⟨s, hl, rfl⟩)
        · exact absurd hp (hdead s hs hl)
      · exact .inr (.inr h) }

/-- Recovered sidecars that are dead are let go of. -/
theorem Quiet.dropRecovered {l : List RecoveredProcess} (hsub : ∀ s ∈ l, s ∈ w.recoveredSidecars)
    (hdead : ∀ s ∈ w.recoveredSidecars, s ∉ l → s.process ∉ w.alive) :
    Quiet plan w { w with recoveredSidecars := l } := fun hi =>
  { QuietStep.refl hi with
    recoveredSidecars := hsub
    inv := { hi with }
    heldOr := fun _ hheld => by
      refine hheld.imp id fun hall p hp => ?_
      refine (hall p hp).imp ?_ id
      rintro (h | h | h | ⟨s, hs, rfl⟩)
      · exact .inl h
      · exact .inr (.inl h)
      · exact .inr (.inr (.inl h))
      · by_cases hl : s ∈ l
        · exact .inr (.inr (.inr ⟨s, hl, rfl⟩))
        · exact absurd hp (hdead s hs hl) }

end primitives

end Firestone.Shim
