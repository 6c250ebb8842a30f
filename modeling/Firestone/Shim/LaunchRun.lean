import Firestone.Shim.Loop

/-!
# The run of a launch

* `Launching names` — the sidecars of these names have been spawned so far, and nothing else.
* `Booting child` — the VMM has been spawned after all sidecars.
* `launchVmm_ends` — a launch that succeeds leaves the loop with an owned VMM and has taken every step in its order; one that
  fails leaves nothing owned, and a VMM alive only if the state has its pid.

The order is kept by the invariant, so it holds of a launch that is killed as well.
-/

namespace Firestone.Shim

open Firestone.Lib Prog

variable {plan : LaunchPlan} {pid : Nat}

set_option synthInstance.maxSize 2000

/-! ## The names of the sidecars -/

theorem sidecar_injective {a b : VirtiofsPlan} (h : a.sidecar = b.sidecar) : a.index = b.index := by
  have hdigits : Nat.toDigits 10 a.index = Nat.toDigits 10 b.index := by
    have := congrArg String.toList h
    simpa [VirtiofsPlan.sidecar] using this
  rw [← Nat.ofDigitChars_toDigits (b := 10) (n := a.index) (by decide) (by decide), hdigits,
    Nat.ofDigitChars_toDigits (by decide) (by decide)]

/-- No two sidecars have the same name. -/
theorem LaunchPlan.sidecars_nodup (plan : LaunchPlan) : plan.sidecars.Nodup := by
  have hfs : (plan.filesystems.map VirtiofsPlan.sidecar).Nodup := by
    have := plan.indices_nodup
    rw [List.Nodup, List.pairwise_map] at this ⊢
    exact this.imp fun hne h => hne (sidecar_injective h)
  rw [LaunchPlan.sidecars]
  refine List.nodup_append.mpr ⟨?_, hfs, ?_⟩
  · cases plan.network <;> simp [NetworkPlan.sidecars]
  · intro a ha b hb hab
    obtain ⟨fs, -, rfl⟩ := List.mem_map.mp hb
    have : a = "passt" := by
      revert ha
      cases plan.network <;> simp [NetworkPlan.sidecars]
    subst this
    have := congrArg String.toList hab
    simp [VirtiofsPlan.sidecar] at this

/-- The steps of these sidecars. -/
def sidecarSteps (names : List String) : List LaunchStep :=
  names.flatMap fun name => [.spawned (.sidecar name), .ready name]

theorem sidecarSteps_concat (names : List String) (name : String) :
    sidecarSteps (names ++ [name]) = sidecarSteps names ++ [.spawned (.sidecar name), .ready name] := by
  simp [sidecarSteps]

theorem sidecarSteps_prefix {names : List String} (h : names <+: plan.sidecars) :
    sidecarSteps names <+: plan.launchOrder := by
  obtain ⟨rest, h⟩ := h
  rw [LaunchPlan.launchOrder, ← h, List.flatMap_append, List.append_assoc, List.append_assoc]
  exact List.prefix_append _ _

/-! ## The launch of the sidecars -/

/-- What a failure of the launch leaves. -/
structure Faltering (plan : LaunchPlan) (w : World) : Prop where
  inv : Inv plan w
  launched : w.launched = true
  recoveredVmm : w.recoveredVmm = none
  recoveredSidecars : w.recoveredSidecars = []
  vmmPid : w.state.vmmPid = none → ∀ p ∈ w.alive, p.role ≠ .vmm

/-- And the VMM is not owned any more. -/
def Dropped (plan : LaunchPlan) (w : World) : Prop := Faltering plan w ∧ w.vmm = none

theorem Faltering.after {w w' : World} (h : Faltering plan w) (hstep : SteadyStep plan w w') : Faltering plan w' where
  inv := hstep.inv
  launched := hstep.launched.trans h.launched
  recoveredVmm := hstep.recoveredVmm.trans h.recoveredVmm
  recoveredSidecars := nil_of_sub hstep.recoveredSidecars h.recoveredSidecars
  vmmPid hpid p hp := h.vmmPid (hstep.vmmPid ▸ hpid) p (hstep.alive p hp)

theorem Dropped.after {w w' : World} (h : Dropped plan w) (hstep : SteadyStep plan w w') : Dropped plan w' :=
  ⟨h.1.after hstep, hstep.noVmm h.2⟩

/-- The sidecars of these names have been spawned. -/
structure Launching (plan : LaunchPlan) (names : List String) (w : World) : Prop where
  inv : Inv plan w
  held : Held w
  launched : w.launched = true
  vmm : w.vmm = none
  recoveredVmm : w.recoveredVmm = none
  recoveredSidecars : w.recoveredSidecars = []
  noVmm : ∀ p ∈ w.alive, p.role ≠ .vmm
  identity : w.identity.vmm = none
  vmmPid : w.state.vmmPid = none
  fileVmmPid : w.stateFile.vmmPid = none
  pids : ∀ x ∈ w.state.sidecarPids, x.1 ∈ names
  filePids : ∀ x ∈ w.stateFile.sidecarPids, x.1 ∈ names
  spawned : ∀ p ∈ w.alive, ∀ name, p.role = .sidecar name → name ∈ names
  owned : ∀ s ∈ w.sidecars, ∃ name ∈ names, s.child.role = .sidecar name
  identityFile : w.identityFile ≠ none
  running : ¬w.saysRunning

theorem Launching.after {names : List String} {w w' : World} (h : Launching plan names w) (hstep : QuietStep plan w w') :
    Launching plan names w' where
  inv := hstep.inv
  held := hstep.held h.held
  launched := hstep.launched.trans h.launched
  vmm := hstep.noVmm h.vmm
  recoveredVmm := hstep.recoveredVmm.trans h.recoveredVmm
  recoveredSidecars := nil_of_sub hstep.recoveredSidecars h.recoveredSidecars
  noVmm p hp := h.noVmm p (hstep.alive p hp)
  identity := hstep.noIdentity h.identity
  vmmPid := hstep.vmmPid.trans h.vmmPid
  fileVmmPid := hstep.filePids.elim (fun hpids => none_of_sub hpids.vmm h.fileVmmPid) fun hpids =>
    none_of_sub hpids.vmm h.vmmPid
  pids x hx := h.pids x (hstep.pids.sidecars x hx)
  filePids x hx := hstep.filePids.elim (fun hpids => h.filePids x (hpids.sidecars x hx)) fun hpids =>
    h.pids x (hpids.sidecars x hx)
  spawned p hp := h.spawned p (hstep.alive p hp)
  owned s hs := by
    obtain ⟨t, ht, hchild, -⟩ := hstep.sidecars s hs
    exact hchild ▸ h.owned t ht
  identityFile hgone := h.identityFile (hstep.identityFile hgone)
  running hr := h.running (hstep.running hr)

/-- A new process has a role that none has had. -/
theorem unique_cons {child : Proc} {l : List Proc} (hnew : ∀ p ∈ l, p.role ≠ child.role)
    (h : ∀ p ∈ l, ∀ q ∈ l, p.role = q.role → p = q) :
    ∀ p ∈ child :: l, ∀ q ∈ child :: l, p.role = q.role → p = q := by
  intro p hp q hq hpq
  rcases List.mem_cons.mp hp with hp | hp' <;> rcases List.mem_cons.mp hq with hq | hq'
  · exact hp.trans hq.symm
  · exact absurd (hpq.symm.trans (hp ▸ rfl)) (hnew q hq')
  · exact absurd (hpq.trans (hq ▸ rfl)) (hnew p hp')
  · exact h p hp' q hq' hpq

/-- The pids that are written down for the role of a new process are its own. -/
theorem Agrees.cons {st : MachineState} {child : Proc} {l : List Proc} (h : Agrees st l)
    (hvmm : child.role = .vmm → ∀ n, st.vmmPid = some n → n = child.pid)
    (hsidecar : ∀ name, child.role = .sidecar name → ∀ n, (name, n) ∈ st.sidecarPids → n = child.pid) :
    Agrees st (child :: l) := by
  refine ⟨fun p hp => ?_, fun p hp name => ?_⟩
  · rcases List.mem_cons.mp hp with rfl | hp
    · exact hvmm
    · exact h.vmm p hp
  · rcases List.mem_cons.mp hp with rfl | hp
    · exact hsidecar name
    · exact h.sidecars p hp name

theorem Launching.dropped {names : List String} {w : World} (h : Launching plan names w) : Dropped plan w :=
  ⟨⟨h.inv, h.launched, h.recoveredVmm, h.recoveredSidecars, fun _ => h.noVmm⟩, h.vmm⟩

section launching

variable {α β : Type} {x : ShimProg α} {f : α → ShimProg β} {S : β → World → Prop} {names : List String} {w : World}

theorem Launching.bind (hw : Launching plan names w) [Keeps (Quiet plan) x]
    (hf : ∀ a u, x w = (.ok a, u) → QuietStep plan w u → Launching plan names u → Ends plan (Dropped plan) S (f a u)) :
    Ends plan (Dropped plan) S ((x >>= f) w) :=
  Ends.keeps_bind (R := Quiet plan) (fun _ hu => hw.after (hu hw.inv)) (fun _ h => h.dropped) (fun _ h => h.inv)
    fun a u h hu => hf a u h (hu hw.inv)

/-- The same where the VMM may be owned at the end. -/
theorem Launching.bindVmm (hw : Launching plan names w) [Keeps (Quiet plan) x]
    (hf : ∀ a u, x w = (.ok a, u) → QuietStep plan w u → Launching plan names u → Ends plan (Faltering plan) S (f a u)) :
    Ends plan (Faltering plan) S ((x >>= f) w) :=
  Ends.keeps_bind (R := Quiet plan) (fun _ hu => hw.after (hu hw.inv)) (fun _ h => h.dropped.1) (fun _ h => h.inv)
    fun a u h hu => hf a u h (hu hw.inv)

theorem Launching.ends {steps : List LaunchStep} (hw : Launching plan names w) (hsteps : w.steps = steps)
    [Keeps (Quiet plan) x] : Ends plan (Dropped plan) (fun _ u => Launching plan names u ∧ u.steps = steps) (x w) :=
  Ends.keeps (R := Quiet plan) (fun _ hu => ⟨hw.after (hu hw.inv), (hu hw.inv).steps.trans hsteps⟩)
    (fun _ h => h.1.dropped) fun _ h => h.1.inv

/-- A step of the launch is noted. -/
theorem Launching.note (hw : Launching plan names w) (step : LaunchStep) (hsteps : w.steps ++ [step] <+: plan.launchOrder) :
    Launching plan names { w with steps := w.steps ++ [step] } :=
  { hw with
    inv := { hw.inv with
      ordered := hsteps
      running := fun hr => absurd hr hw.running }
    held := hw.held }

/-- One more sidecar is spawned. -/
theorem Launching.spawn {s : OwnedSidecar} (hw : Launching plan names w) (hrole : s.child.role = .sidecar s.name)
    (hprocess : s.process = true) (hreaped : s.reapedStatus = none) (hplan : s.name ∈ plan.sidecars) (hname : s.name ∉ names)
    (hsteps : w.steps ++ [.spawned (.sidecar s.name)] <+: plan.launchOrder) :
    Launching plan (names ++ [s.name]) (w.spawnSidecar s) := by
  have hnew : ∀ p ∈ w.alive, p.role ≠ s.child.role := fun p hp hp' => hname (hw.spawned p hp s.name (hp'.trans hrole))
  have hagrees : ∀ st : MachineState, Agrees st w.alive → (∀ x ∈ st.sidecarPids, x.1 ∈ names) →
      Agrees st (s.child :: w.alive) := by
    refine fun st hst hpids => hst.cons (fun hvmm => ?_) fun name hname' n hn => ?_
    · cases hrole.symm.trans hvmm
    · cases hrole.symm.trans hname'
      exact absurd (hpids _ hn) hname
  have hnoVmm : ∀ p ∈ s.child :: w.alive, p.role ≠ .vmm := by
    refine List.forall_mem_cons.mpr ⟨?_, hw.noVmm⟩
    rw [hrole]
    nofun
  refine { hw with inv := ?_, held := ?_, noVmm := hnoVmm, pids := ?_, filePids := ?_, spawned := ?_, owned := ?_ }
  · refine { hw.inv with
      unique := unique_cons hnew hw.inv.unique, planned := ?_, file := hagrees _ hw.inv.file hw.filePids, kept := ?_,
      state := hagrees _ hw.inv.state hw.pids, identity := ?_, vmm := ?_, vmmOnly := ?_, sidecars := ?_,
      recovered := ?_, owner := ?_, ordered := hsteps, running := ?_ }
    · exact List.forall_mem_cons.mpr ⟨.inr ⟨s.name, hplan, hrole⟩, hw.inv.planned⟩
    · exact fun hgone => absurd hgone hw.identityFile
    · exact fun r hr => nomatch hw.identity.symm.trans hr
    · exact fun v hv => nomatch hw.vmm.symm.trans hv
    · exact fun v hv => nomatch hw.vmm.symm.trans hv
    · intro t ht hchild
      rcases List.mem_append.mp ht with ht | ht
      · rcases List.mem_cons.mp hchild with heq | hchild
        · obtain ⟨name, hmem, hname'⟩ := hw.owned t ht
          rw [heq, hrole] at hname'
          cases hname'
          exact absurd hmem hname
        · exact hw.inv.sidecars t ht hchild
      · cases List.mem_singleton.mp ht
        exact ⟨hprocess, hreaped⟩
    · exact fun q hq => nomatch hw.recoveredVmm.symm.trans hq
    · exact fun _ => hnoVmm
    · exact fun hr => absurd hr hw.running
  · refine hw.held.imp id fun hall => List.forall_mem_cons.mpr ⟨?_, fun p hp => ?_⟩
    · exact .inr (.inl ⟨s, List.mem_append_right _ List.mem_cons_self, rfl⟩)
    · rcases hall p hp with h | ⟨t, ht, hchild⟩ | h
      · exact .inl h
      · exact .inr (.inl ⟨t, List.mem_append_left _ ht, hchild⟩)
      · exact .inr (.inr h)
  · exact fun x hx => List.mem_append_left _ (hw.pids x hx)
  · exact fun x hx => List.mem_append_left _ (hw.filePids x hx)
  · intro p hp name hp'
    rcases List.mem_cons.mp hp with rfl | hp
    · cases hrole.symm.trans hp'
      exact List.mem_append_right _ List.mem_cons_self
    · exact List.mem_append_left _ (hw.spawned p hp name hp')
  · intro t ht
    rcases List.mem_append.mp ht with ht | ht
    · obtain ⟨name, hmem, hname'⟩ := hw.owned t ht
      exact ⟨name, List.mem_append_left _ hmem, hname'⟩
    · cases List.mem_singleton.mp ht
      exact ⟨s.name, List.mem_append_right _ List.mem_cons_self, hrole⟩

/-- The pid of a sidecar that has just been spawned is written down. -/
theorem Launching.setPid {name : String} {child : Proc} (hw : Launching plan names w) (hname : name ∈ names)
    (hchild : ∀ p ∈ w.alive, p.role = .sidecar name → p = child) :
    Launching plan names
      { w with state := { w.state with sidecarPids := withKey name child.pid w.state.sidecarPids } } := by
  have hmem : ∀ x ∈ withKey name child.pid w.state.sidecarPids,
      x = (name, child.pid) ∨ x.1 ≠ name ∧ x ∈ w.state.sidecarPids := by
    intro x hx
    rcases List.mem_cons.mp hx with hx | hx
    · exact .inl hx
    · obtain ⟨hx, hne⟩ := List.mem_filter.mp hx
      exact .inr ⟨by simpa using hne, hx⟩
  refine { hw with
    inv := { hw.inv with state := ⟨hw.inv.state.vmm, ?_⟩, running := ?_ }, held := hw.held, pids := ?_, running := ?_ }
  · intro p hp name' hrole n hn
    rcases hmem _ hn with heq | ⟨-, hn⟩
    · cases heq
      rw [hchild p hp hrole]
    · exact hw.inv.state.sidecars p hp name' hrole n hn
  · exact hw.inv.running
  · intro x hx
    rcases hmem x hx with rfl | ⟨-, hx⟩
    · exact hname
    · exact hw.pids x hx
  · exact hw.running

end launching

/-! ### What a failed launch drops -/

/-- Sidecars are let go of, alive or not. -/
theorem Steady.dropSidecars {w : World} {l : List OwnedSidecar} (hsub : ∀ s ∈ l, s ∈ w.sidecars) :
    Steady plan w { w with sidecars := l } := fun hi =>
  { (QuietStep.refl hi).steady with
    sidecars := fun s hs => ⟨s, hsub s hs, rfl, rfl⟩
    inv := { hi with sidecars := fun s hs => hi.sidecars s (hsub s hs) } }

instance dropSidecars_steady : Keeps (Steady plan) dropSidecars := by
  have : Keeps (Steady plan) (modify fun w => { w with sidecars := [] } : ShimProg Unit) :=
    ⟨fun _ => Steady.dropSidecars nofun⟩
  unfold dropSidecars
  infer_instance

/-- The VMM is let go of, alive or not. -/
theorem Steady.dropVmm {w : World} : Steady plan w { w with vmm := none } := fun hi =>
  { (QuietStep.refl hi).steady with
    noVmm := fun _ => rfl
    inv := { hi with vmm := nofun, vmmOnly := nofun } }

instance dropVmm_steady : Keeps (Steady plan) dropVmm := by
  have : Keeps (Steady plan) (modify fun w => { w with vmm := none } : ShimProg Unit) := ⟨fun _ => Steady.dropVmm⟩
  refine Keeps.bind inferInstance fun w => ?_
  cases w.vmm <;> infer_instance

instance dropSpawned_steady (name : String) : Keeps (Steady plan) (dropSpawned name) := by
  have : Keeps (Steady plan)
      (modify fun w => { w with sidecars := w.sidecars.filter fun s => s.name ≠ name } : ShimProg Unit) :=
    ⟨fun _ => Steady.dropSidecars fun s hs => (List.mem_filter.mp hs).1⟩
  refine Keeps.bind inferInstance fun w => ?_
  cases w.sidecars.find? fun s => s.name = name <;> infer_instance

/-! ### One sidecar -/

instance processRecord_quiet (child : Proc) : Keeps (Quiet plan) (processRecord child) := by
  unfold processRecord
  infer_instance

theorem processRecord_eq {child : Proc} {record : ProcessRecord} {w w' : World}
    (h : processRecord child w = (.ok record, w')) : record = child.record := by
  obtain ⟨a, u, -, h⟩ := bind_eq_ok.mp h
  obtain ⟨v, u', hget, h⟩ := bind_eq_ok.mp h
  cases hget
  split at h <;> cases h
  rfl

instance launchBoundSidecarRecord_quiet (child : Proc) : Keeps (Quiet plan) (launchBoundSidecarRecord child) := by
  unfold launchBoundSidecarRecord
  infer_instance

instance sidecarRecordTurn_quiet (s : OwnedSidecar) {again : FirestoneError → ShimProg ProcessRecord}
    [∀ e, Keeps (Quiet plan) (again e)] : Keeps (Quiet plan) (sidecarRecordTurn s again) := by
  refine Keeps.bind inferInstance ?_
  rintro (e | record)
  · dsimp only
    unfold OwnedSidecar.exitError
    infer_instance
  · infer_instance

instance captureSidecarProcessRecord_quiet (s : OwnedSidecar) (n : Nat) :
    Keeps (Quiet plan) (captureSidecarProcessRecord s n) := by
  induction n with
  | zero => exact sidecarRecordTurn_quiet s
  | succ n ih => exact sidecarRecordTurn_quiet s

instance bindSidecar_quiet (name : String) (record : ProcessRecord) :
    Keeps (Quiet plan) (modify (World.bindSidecar name record) : ShimProg Unit) := by
  refine ⟨fun w => Quiet.mapSidecars (fun s => ?_) (fun s => ?_) fun s _ => ?_⟩
  all_goals split <;> trivial

instance sidecarRecords_quiet (name : String) (record : ProcessRecord) :
    Keeps (Quiet plan) (setIdentity fun i => { i with sidecars := withKey name record i.sidecars }) :=
  setIdentity_quiet fun _ => .inl rfl

instance waitPasstReady_quiet (socket : String) (s : OwnedSidecar) (n : Nat) :
    Keeps (Quiet plan) (waitPasstReady socket s n) := by
  have : Keeps (Quiet plan) (waitPasstReady.waitTurn socket s) := by
    unfold waitPasstReady.waitTurn
    infer_instance
  induction n with
  | zero =>
    unfold waitPasstReady
    infer_instance
  | succ n ih =>
    unfold waitPasstReady
    infer_instance

instance waitVirtiofsReady_quiet (fs : VirtiofsPlan) (s : OwnedSidecar) (n : Nat) :
    Keeps (Quiet plan) (waitVirtiofsReady fs s n) := by
  have : Keeps (Quiet plan) (waitVirtiofsReady.waitTurn fs s) := by
    unfold waitVirtiofsReady.waitTurn
    infer_instance
  induction n with
  | zero =>
    unfold waitVirtiofsReady
    infer_instance
  | succ n ih =>
    unfold waitVirtiofsReady
    infer_instance

section launching

variable {names : List String} {w : World}

/-- After the spawn the pid and the record are written down. -/
theorem recordSidecar_ends {s : OwnedSidecar} (hw : Launching plan names w) (hname : s.name ∈ names)
    (hchild : ∀ p ∈ w.alive, p.role = .sidecar s.name → p = s.child) :
    Ends plan (Dropped plan) (fun _ u => Launching plan names u ∧ u.steps = w.steps) (recordSidecar s w) := by
  have hset := hw.setPid hname hchild
  refine hset.bind fun _ u₁ _ h₁ hw₁ => hw₁.bind fun a u₂ _ h₂ hw₂ => hw₂.bind fun record u₃ _ h₃ hw₃ => ?_
  refine hw₃.bind fun _ u₄ _ h₄ hw₄ => hw₄.bind fun _ u₅ _ h₅ hw₅ => ?_
  exact hw₅.ends (((h₁.trans h₂).trans h₃).trans (h₄.trans h₅)).steps

theorem spawnSidecar_ends {name : String} (hw : Launching plan names w) (hplan : name ∈ plan.sidecars) (hname : name ∉ names)
    (hsteps : w.steps ++ [.spawned (.sidecar name)] <+: plan.launchOrder) :
    Ends plan (Dropped plan)
      (fun s u => s.name = name ∧ Launching plan (names ++ [name]) u ∧ u.steps = w.steps ++ [.spawned (.sidecar name)])
      (spawnSidecar name w) := by
  refine hw.bind fun _ u₁ _ h₁ hw₁ => hw₁.bind fun _ u₂ _ h₂ hw₂ => hw₂.bind fun _ u₃ _ h₃ hw₃ => ?_
  refine hw₃.bind fun _ u₄ _ h₄ hw₄ => hw₄.bind fun _ u₅ _ h₅ hw₅ => hw₅.bind fun a u₆ _ h₆ hw₆ => ?_
  have hsame : u₆.steps = w.steps := ((h₁.trans (h₂.trans h₃)).trans (h₄.trans (h₅.trans h₆))).steps
  let child : Proc := ⟨.sidecar name, a.child.1, a.child.2⟩
  let s : OwnedSidecar := ⟨name, child, true, child.unbound, none⟩
  have hspawn : Launching plan (names ++ [name]) (u₆.spawnSidecar s) := by
    refine Launching.spawn (s := s) hw₆ rfl rfl rfl hplan hname ?_
    rw [hsame]
    exact hsteps
  have hchild : ∀ p ∈ (u₆.spawnSidecar s).alive, p.role = .sidecar name → p = child := by
    intro p hp hrole
    rcases List.mem_cons.mp hp with rfl | hp
    · rfl
    · exact absurd (hw₆.spawned p hp name hrole) hname
  show Ends plan _ _ ((onError (recordSidecar s) (fun _ => dropSpawned name) >>= fun _ => pure s) (u₆.spawnSidecar s))
  refine Ends.bind (Ends.onError (recordSidecar_ends (s := s) hspawn (List.mem_append_right _ List.mem_cons_self) hchild)
    fun e u hu => ?_) fun _ u hu => ⟨rfl, hu.1, ?_⟩
  · exact Ends.keeps (R := Steady plan) (fun v hv => hu.after (hv hu.1.inv)) (fun v hv => hv) fun v hv => hv.1.inv
  · rw [hu.2, World.spawnSidecar, hsame]

/-- A sidecar is spawned, and its launch goes on when it is ready. -/
theorem spawnAndWait_ends {name : String} (wait : OwnedSidecar → Answer → ShimProg Unit)
    [∀ s a, Keeps (Quiet plan) (wait s a)]
    (reply : Reply) (hw : Launching plan names w) (hsteps : w.steps = sidecarSteps names)
    (hstart : names ++ [name] <+: plan.sidecars) :
    Ends plan (Dropped plan) (fun _ u => Launching plan (names ++ [name]) u ∧ u.steps = sidecarSteps (names ++ [name]))
      ((do
        let s ← spawnSidecar name
        let a ← interact
        wait s a
        note (.ready s.name)
        emit reply) w) := by
  have hnodup : (names ++ [name]).Nodup := plan.sidecars_nodup.sublist hstart.sublist
  have hname : name ∉ names := fun h => (List.nodup_append.mp hnodup).2.2 name h name List.mem_cons_self rfl
  have hplan : name ∈ plan.sidecars := hstart.subset (List.mem_append_right _ List.mem_cons_self)
  have hready := sidecarSteps_prefix hstart
  rw [sidecarSteps_concat] at hready
  have hspawned : w.steps ++ [.spawned (.sidecar name)] <+: plan.launchOrder := by
    rw [hsteps]
    refine List.IsPrefix.trans ⟨[.ready name], ?_⟩ hready
    simp
  refine Ends.bind (spawnSidecar_ends hw hplan hname hspawned) ?_
  rintro s u ⟨rfl, hu, hsame⟩
  refine hu.bind fun a u₁ _ h₁ hw₁ => hw₁.bind fun _ u₂ _ h₂ hw₂ => ?_
  have hsteps₂ : u₂.steps ++ [.ready s.name] = sidecarSteps (names ++ [s.name]) := by
    rw [(h₁.trans h₂).steps, hsame, hsteps, sidecarSteps_concat]
    simp
  have hnote := hw₂.note (.ready s.name) (by
    rw [hsteps₂, sidecarSteps_concat]
    exact hready)
  exact Launching.ends (x := emit reply) hnote hsteps₂

/-! ### All sidecars -/

theorem launchNetwork_ends (hw : Launching plan [] w) (hsteps : w.steps = []) :
    Ends plan (Dropped plan)
      (fun _ u => Launching plan plan.network.sidecars u ∧ u.steps = sidecarSteps plan.network.sidecars)
      (launchNetwork plan.network w) := by
  have hstart : plan.network.sidecars <+: plan.sidecars := List.prefix_append _ _
  cases hnetwork : plan.network with
  | none => exact Launching.ends (x := emit _) hw hsteps
  | tap name => exact Launching.ends (x := emit _) hw hsteps
  | passt socket forwards =>
    rw [hnetwork] at hstart
    refine hw.bind fun _ u _ hu hw' => ?_
    exact spawnAndWait_ends (fun s a => waitPasstReady socket s a.polls) _ hw' (hu.steps.trans hsteps) hstart

theorem launchFilesystem_ends {fs : VirtiofsPlan} (hw : Launching plan names w) (hsteps : w.steps = sidecarSteps names)
    (hstart : names ++ [fs.sidecar] <+: plan.sidecars) :
    Ends plan (Dropped plan)
      (fun _ u => Launching plan (names ++ [fs.sidecar]) u ∧ u.steps = sidecarSteps (names ++ [fs.sidecar]))
      (launchFilesystem fs w) := by
  refine hw.bind fun _ u _ hu hw' => ?_
  exact spawnAndWait_ends (fun s a => waitVirtiofsReady fs s a.polls) _ hw' (hu.steps.trans hsteps) hstart

theorem launchFilesystems_ends {l : List VirtiofsPlan} (hw : Launching plan names w) (hsteps : w.steps = sidecarSteps names)
    (hl : names ++ l.map VirtiofsPlan.sidecar = plan.sidecars) :
    Ends plan (Dropped plan) (fun _ u => Launching plan plan.sidecars u ∧ u.steps = sidecarSteps plan.sidecars)
      (l.forM launchFilesystem w) := by
  induction l generalizing names w with
  | nil =>
    rw [List.map_nil, List.append_nil] at hl
    subst hl
    exact ⟨hw, hsteps⟩
  | cons fs l ih =>
    have hl' : names ++ [fs.sidecar] ++ l.map VirtiofsPlan.sidecar = plan.sidecars := by
      rw [← hl]
      simp
    exact Ends.bind (launchFilesystem_ends hw hsteps ⟨_, hl'⟩) fun _ u hu => ih hu.1 hu.2 hl'

theorem launchSidecars_ends (hw : Launching plan [] w) (hsteps : w.steps = []) :
    Ends plan (Dropped plan) (fun _ u => Launching plan plan.sidecars u ∧ u.steps = sidecarSteps plan.sidecars)
      (launchSidecars plan w) := by
  refine Ends.onError (M := Dropped plan) ?_ fun e u hu => ?_
  · refine Ends.bind (launchNetwork_ends hw hsteps) fun _ u hu => ?_
    have hl : plan.network.sidecars ++ plan.filesystems.map VirtiofsPlan.sidecar = plan.sidecars := rfl
    split
    · rename_i hnil
      rw [hnil, List.map_nil, List.append_nil] at hl
      rw [← hl]
      exact hu.1.ends hu.2
    · exact launchFilesystems_ends hu.1 hu.2 hl
  · exact Ends.keeps (R := Steady plan) (fun v hv => hu.after (hv hu.1.inv)) (fun v hv => hv) fun v hv => hv.1.inv

end launching

/-! ## The launch of the VMM -/

/-- The VMM has been spawned. -/
structure Booting (plan : LaunchPlan) (child : Proc) (w : World) : Prop where
  inv : Inv plan w
  held : Held w
  launched : w.launched = true
  recoveredVmm : w.recoveredVmm = none
  recoveredSidecars : w.recoveredSidecars = []
  role : child.role = .vmm
  vmm : w.vmm.map OwnedVmm.child = some child
  vmmPid : w.state.vmmPid = some child.pid
  running : ¬w.saysRunning

theorem Booting.after {child : Proc} {w w' : World} (h : Booting plan child w) (hstep : QuietStep plan w w') :
    Booting plan child w' where
  inv := hstep.inv
  held := hstep.held h.held
  launched := hstep.launched.trans h.launched
  recoveredVmm := hstep.recoveredVmm.trans h.recoveredVmm
  recoveredSidecars := nil_of_sub hstep.recoveredSidecars h.recoveredSidecars
  role := h.role
  vmm := hstep.vmm.trans h.vmm
  vmmPid := hstep.vmmPid.trans h.vmmPid
  running hr := h.running (hstep.running hr)

theorem Booting.faltering {child : Proc} {w : World} (h : Booting plan child w) : Faltering plan w :=
  ⟨h.inv, h.launched, h.recoveredVmm, h.recoveredSidecars, fun hnone => nomatch h.vmmPid.symm.trans hnone⟩

theorem Booting.owning {child : Proc} {w : World} (h : Booting plan child w) : Owning w :=
  ⟨h.launched, by rw [← Option.isSome_map (f := OwnedVmm.child), h.vmm]; rfl, h.recoveredVmm, h.recoveredSidecars⟩

/-- Its record is that of the VMM. -/
theorem Booting.records {child : Proc} {w : World} (h : Booting plan child w) : RecordsVmm child.record w.alive := by
  obtain ⟨v, hv, hchild⟩ := Option.map_eq_some_iff.mp h.vmm
  refine ⟨h.role, fun p hp hrole => ?_⟩
  rw [h.inv.vmmOnly v hv p hp hrole, hchild]
  rfl

section booting

variable {α β : Type} {x : ShimProg α} {f : α → ShimProg β} {S : β → World → Prop} {child : Proc} {w : World}

theorem Booting.bind (hw : Booting plan child w) [Keeps (Quiet plan) x]
    (hf : ∀ a u, x w = (.ok a, u) → QuietStep plan w u → Booting plan child u → Ends plan (Faltering plan) S (f a u)) :
    Ends plan (Faltering plan) S ((x >>= f) w) :=
  Ends.keeps_bind (R := Quiet plan) (fun _ hu => hw.after (hu hw.inv)) (fun _ h => h.faltering) (fun _ h => h.inv)
    fun a u h hu => hf a u h (hu hw.inv)

theorem Booting.ends {steps : List LaunchStep} (hw : Booting plan child w) (hsteps : w.steps = steps)
    [Keeps (Quiet plan) x] : Ends plan (Faltering plan) (fun _ u => Booting plan child u ∧ u.steps = steps) (x w) :=
  Ends.keeps (R := Quiet plan) (fun _ hu => ⟨hw.after (hu hw.inv), (hu hw.inv).steps.trans hsteps⟩)
    (fun _ h => h.1.faltering) fun _ h => h.1.inv

theorem Booting.note (hw : Booting plan child w) (step : LaunchStep) (hsteps : w.steps ++ [step] <+: plan.launchOrder) :
    Booting plan child { w with steps := w.steps ++ [step] } :=
  { hw with
    inv := { hw.inv with
      ordered := hsteps
      running := fun hr => absurd hr hw.running }
    held := hw.held }

/-- The VMM is spawned, and its pid is in the state. -/
theorem Launching.spawnVmm {names : List String} (hw : Launching plan names w) (hrole : child.role = .vmm)
    (hsteps : w.steps ++ [.spawned .vmm] <+: plan.launchOrder) :
    Booting plan child { w.spawnVmm child with state := { w.state with vmmPid := some child.pid } } := by
  have hagrees : ∀ st : MachineState, Agrees st w.alive → (∀ n, st.vmmPid = some n → n = child.pid) →
      Agrees st (child :: w.alive) := fun st hst hpid =>
    hst.cons (fun _ => hpid) fun name hname => by cases hrole.symm.trans hname
  have hnew : ∀ p ∈ w.alive, p.role ≠ child.role := fun p hp => hrole ▸ hw.noVmm p hp
  have hrecords : RecordsVmm child.unbound (child :: w.alive) := by
    refine ⟨hrole, fun p hp hvmm => ?_⟩
    rcases List.mem_cons.mp hp with rfl | hp
    · rfl
    · exact absurd hvmm (hw.noVmm p hp)
  have hstate : Agrees { w.state with vmmPid := some child.pid } (child :: w.alive) :=
    hagrees _ ⟨fun p hp hvmm => absurd hvmm (hw.noVmm p hp), hw.inv.state.sidecars⟩ fun n hn => (Option.some.inj hn).symm
  have hfile : Agrees w.stateFile (child :: w.alive) :=
    hagrees _ hw.inv.file fun n hn => nomatch hw.fileVmmPid.symm.trans hn
  refine ⟨?_, ?_, hw.launched, hw.recoveredVmm, hw.recoveredSidecars, hrole, rfl, rfl, hw.running⟩
  · refine { hw.inv with
      unique := unique_cons hnew hw.inv.unique, planned := ?_, file := hfile, kept := ?_,
      state := ⟨hstate.vmm, hstate.sidecars⟩, identity := ?_, vmm := ?_, vmmOnly := ?_, sidecars := ?_,
      recovered := ?_, owner := nofun, ordered := hsteps, running := ?_ }
    · exact List.forall_mem_cons.mpr ⟨.inl hrole, hw.inv.planned⟩
    · exact fun hgone => absurd hgone hw.identityFile
    · exact fun r hr => nomatch hw.identity.symm.trans hr
    · intro v hv
      cases hv
      exact ⟨hrecords, fun _ => ⟨rfl, rfl⟩⟩
    · intro v hv p hp hvmm
      cases hv
      rcases List.mem_cons.mp hp with rfl | hp
      · rfl
      · exact absurd hvmm (hw.noVmm p hp)
    · intro t ht hchild
      rcases List.mem_cons.mp hchild with heq | hchild
      · obtain ⟨name, -, hname⟩ := hw.owned t ht
        rw [heq, hrole] at hname
        cases hname
      · exact hw.inv.sidecars t ht hchild
    · exact fun q hq => nomatch hw.recoveredVmm.symm.trans hq
    · exact fun hr => absurd hr hw.running
  · refine hw.held.imp id fun hall => List.forall_mem_cons.mpr ⟨.inl ⟨_, rfl, rfl⟩, fun p hp => ?_⟩
    rcases hall p hp with ⟨v, hv, -⟩ | h
    · exact nomatch hw.vmm.symm.trans hv
    · exact .inr h

/-- The record of the VMM is bound. -/
theorem Booting.bindRecord (hw : Booting plan child w) :
    Booting plan child { w.setVmm (fun v => { v with record := child.record }) with
      identity := { w.identity with vmm := some child.record } } := by
  refine { hw with
    inv := { hw.inv with identity := ?_, vmm := ?_, vmmOnly := ?_ }, held := hw.held.imp id fun hall p hp => ?_, vmm := ?_ }
  · intro r hr
    cases hr
    exact hw.records
  · intro v hv
    obtain ⟨u, hu, rfl⟩ := Option.map_eq_some_iff.mp hv
    exact ⟨hw.records, (hw.inv.vmm u hu).2⟩
  · intro v hv
    obtain ⟨u, hu, rfl⟩ := Option.map_eq_some_iff.mp hv
    exact hw.inv.vmmOnly u hu
  · rcases hall p hp with ⟨v, hv, hchild⟩ | h
    · exact .inl ⟨{ v with record := child.record }, by show w.vmm.map _ = _; rw [hv]; rfl, hchild⟩
    · exact .inr h
  · show (w.vmm.map _).map OwnedVmm.child = _
    rw [Option.map_map]
    exact hw.vmm

theorem bindVmmRecord_ends (hw : Booting plan child w) {steps : List LaunchStep} (hsteps : w.steps = steps) :
    Ends plan (Faltering plan) (fun _ u => Booting plan child u ∧ u.steps = steps) (bindVmmRecord child.record w) :=
  Booting.ends (x := publishProcessIdentity) hw.bindRecord hsteps

end booting

/-! ### Its parts -/

instance vmmRecordTurn_quiet (v : OwnedVmm) {again : FirestoneError → ShimProg ProcessRecord}
    [∀ e, Keeps (Quiet plan) (again e)] : Keeps (Quiet plan) (vmmRecordTurn plan v again) := by
  refine Keeps.bind inferInstance ?_
  rintro (e | record)
  · dsimp only
    unfold vmmExitError
    infer_instance
  · infer_instance

instance captureLaunchProcessRecord_quiet (v : OwnedVmm) (n : Nat) :
    Keeps (Quiet plan) (captureLaunchProcessRecord plan v n) := by
  induction n with
  | zero => exact vmmRecordTurn_quiet v
  | succ n ih => exact vmmRecordTurn_quiet v

theorem vmmRecordTurn_eq {v : OwnedVmm} {again : FirestoneError → ShimProg ProcessRecord} {record : ProcessRecord}
    {w w' : World} (hagain : ∀ e u, again e u = (.ok record, w') → record = v.child.record)
    (h : vmmRecordTurn plan v again w = (.ok record, w')) : record = v.child.record := by
  obtain ⟨r, u, hr, h⟩ := bind_eq_ok.mp h
  rcases attempt_eq_ok.mp hr with ⟨a, rfl, hrecord⟩ | ⟨e, rfl, -⟩
  · cases h
    exact processRecord_eq hrecord
  · obtain ⟨exited, u', -, h⟩ := bind_eq_ok.mp h
    cases exited with
    | false => exact hagain e u' h
    | true =>
      obtain ⟨_, u₁, -, h⟩ := bind_eq_ok.mp h
      obtain ⟨_, u₂, -, h⟩ := bind_eq_ok.mp h
      cases h

/-- The record that is captured is that of the child. -/
theorem captureLaunchProcessRecord_eq {v : OwnedVmm} {n : Nat} {record : ProcessRecord} {w w' : World}
    (h : captureLaunchProcessRecord plan v n w = (.ok record, w')) : record = v.child.record := by
  induction n generalizing w with
  | zero =>
    have h : vmmRecordTurn plan v fail w = _ := h
    exact vmmRecordTurn_eq (fun e u h => by cases h) h
  | succ n ih => exact vmmRecordTurn_eq (fun e u h => ih h) h

instance terminateLaunchVmm_quiet : Keeps (Quiet plan) terminateLaunchVmm := by
  refine Keeps.bind inferInstance fun w => ?_
  cases w.vmm <;> infer_instance

instance sidecarsAliveOrTerminate_quiet : Keeps (Quiet plan) sidecarsAliveOrTerminate := by
  unfold sidecarsAliveOrTerminate
  infer_instance

instance launchPhaseTimeout_quiet (phase : String) : Keeps (Quiet plan) (launchPhaseTimeout phase) :=
  ensureLaunchBeforeDeadline_quiet phase

instance pingTurn_quiet {α : Type} {next : ShimProg α} [Keeps (Quiet plan) next] :
    Keeps (Quiet plan) (pingTurn plan next) := by
  unfold pingTurn
  refine Keeps.bind inferInstance fun _ => Keeps.bind inferInstance fun w => ?_
  refine @keeps_ite _ _ _ _ _ _ _ _ inferInstance (Keeps.bind inferInstance fun w => ?_)
  cases w.vmm with
  | none => infer_instance
  | some v =>
    dsimp only
    unfold vmmExitError
    infer_instance

instance awaitPing_quiet (n : Nat) : Keeps (Quiet plan) (awaitPing plan n) := by
  induction n with
  | zero => exact pingTurn_quiet
  | succ n ih =>
    have : Keeps (Quiet plan) (do
        match ← attempt call with
        | .ok a => pure a
        | .error e =>
          if e.kind = .notRunning ∨ e.kind = .timeout then awaitPing plan n
          else
            terminateLaunchVmm
            fail e : ShimProg Answer) := by
      refine Keeps.bind inferInstance ?_
      rintro (e | a) <;> infer_instance
    exact pingTurn_quiet

instance askToEnd_quiet (phase : String) : Keeps (Quiet plan) (askToEnd phase) := by
  refine Keeps.bind inferInstance ?_
  rintro (e | _) <;> infer_instance

instance startConsole_quiet : Keeps (Quiet plan) startConsole := by
  unfold startConsole
  infer_instance

section booting

variable {child : Proc} {w : World} {steps : List LaunchStep}

/-- The steps of the VMM. -/
def vmmSteps (plan : LaunchPlan) : List LaunchStep :=
  if plan.restoreSnapshot.isSome then [.vmRestore, .vmResume] else [.vmCreate, .vmBoot]

theorem launchOrder_eq : plan.launchOrder = sidecarSteps plan.sidecars ++ [.spawned .vmm] ++ [.answered] ++ vmmSteps plan := by
  simp [LaunchPlan.launchOrder, sidecarSteps, vmmSteps]

theorem spawned_prefix : sidecarSteps plan.sidecars ++ [.spawned .vmm] <+: plan.launchOrder :=
  ⟨[.answered] ++ vmmSteps plan, by rw [launchOrder_eq]; simp⟩

theorem answered_prefix : sidecarSteps plan.sidecars ++ [.spawned .vmm] ++ [.answered] <+: plan.launchOrder :=
  ⟨vmmSteps plan, launchOrder_eq.symm⟩

theorem spawnVmm_ends (hw : Launching plan plan.sidecars w) (hsteps : w.steps = sidecarSteps plan.sidecars) :
    Ends plan (Faltering plan)
      (fun child u => Booting plan child u ∧ u.steps = sidecarSteps plan.sidecars ++ [.spawned .vmm]) (spawnVmm plan w) := by
  refine hw.bindVmm fun _ u₁ _ h₁ hw₁ => hw₁.bindVmm fun _ u₂ _ h₂ hw₂ => hw₂.bindVmm fun _ u₃ _ h₃ hw₃ => ?_
  refine hw₃.bindVmm fun _ u₄ _ h₄ hw₄ => hw₄.bindVmm fun _ u₅ _ h₅ hw₅ => hw₅.bindVmm fun _ u₆ _ h₆ hw₆ => ?_
  refine hw₆.bindVmm fun _ u₇ _ h₇ hw₇ => hw₇.bindVmm fun _ u₈ _ h₈ hw₈ => hw₈.bindVmm fun a u₉ _ h₉ hw₉ => ?_
  have hsame : u₉.steps = sidecarSteps plan.sidecars := by
    rw [((h₁.trans (h₂.trans h₃)).trans ((h₄.trans (h₅.trans h₆)).trans (h₇.trans (h₈.trans h₉)))).steps, hsteps]
  let child : Proc := ⟨.vmm, a.child.1, a.child.2⟩
  have hspawn := hw₉.spawnVmm (rfl : child.role = .vmm) (by rw [hsame]; exact spawned_prefix)
  refine hspawn.bind fun _ v₁ _ g₁ hv₁ => hv₁.bind fun b v₂ _ g₂ hv₂ => hv₂.bind fun record v₃ hrecord g₃ hv₃ => ?_
  obtain rfl := captureLaunchProcessRecord_eq hrecord
  have hsteps₃ : v₃.steps = sidecarSteps plan.sidecars ++ [.spawned .vmm] := by
    rw [(g₁.trans (g₂.trans g₃)).steps, ← hsame]
    rfl
  exact Ends.bind (bindVmmRecord_ends hv₃ hsteps₃) fun _ u hu => hu

theorem confirmVmm_ends {ping : Answer} (hw : Booting plan child w)
    (hsteps : w.steps = sidecarSteps plan.sidecars ++ [.spawned .vmm]) :
    Ends plan (Faltering plan)
      (fun _ u => Booting plan child u ∧ u.steps = sidecarSteps plan.sidecars ++ [.spawned .vmm] ++ [.answered])
      (confirmVmm child ping w) := by
  unfold confirmVmm
  split
  · have hnote := hw.note .answered (by rw [hsteps]; exact answered_prefix)
    refine hnote.bind fun record u hrecord hu hw' => ?_
    obtain rfl := processRecord_eq hrecord
    exact bindVmmRecord_ends hw' (by rw [hu.steps, hsteps])
  · exact hw.bind fun _ u _ _ hw' => hw'.faltering

theorem makeVm_ends {phase : String} {step : LaunchStep} (hw : Booting plan child w) (hsteps : w.steps = steps)
    (hstart : steps ++ [step] <+: plan.launchOrder) :
    Ends plan (Faltering plan) (fun _ u => Booting plan child u ∧ u.steps = steps ++ [step]) (makeVm phase step w) := by
  refine hw.bind fun _ u _ hu hw' => ?_
  have hnote := hw'.note step (by rw [hu.steps, hsteps]; exact hstart)
  refine hnote.bind fun _ v₁ _ h₁ hv₁ => hv₁.bind fun _ v₂ _ h₂ hv₂ => ?_
  exact Booting.ends (x := sidecarsAliveOrTerminate) hv₂ (by rw [(h₁.trans h₂).steps, hu.steps, hsteps])

theorem startGuest_ends {phase : String} {step : LaunchStep} (hw : Booting plan child w) (hsteps : w.steps = steps)
    (hstart : steps ++ [step] <+: plan.launchOrder) :
    Ends plan (Faltering plan) (fun _ u => Booting plan child u ∧ u.steps = steps ++ [step]) (startGuest phase step w) := by
  refine hw.bind fun _ u _ hu hw' => ?_
  have hnote := hw'.note step (by rw [hu.steps, hsteps]; exact hstart)
  exact Booting.ends (x := onError (do let _ ← call) fun _ => do askToEnd phase; terminateLaunchVmm) hnote
    (congrArg (· ++ [step]) (hu.steps.trans hsteps))

theorem bootVm_ends (hw : Booting plan child w)
    (hsteps : w.steps = sidecarSteps plan.sidecars ++ [.spawned .vmm] ++ [.answered]) :
    Ends plan (Faltering plan) (fun _ u => Booting plan child u ∧ u.steps = plan.launchOrder) (bootVm plan w) := by
  have horder := @launchOrder_eq plan
  unfold bootVm
  split
  · rename_i hrestore
    rw [vmmSteps, if_pos hrestore] at horder
    refine Ends.bind (makeVm_ends hw hsteps ⟨[.vmResume], by rw [horder]; simp⟩) fun _ u hu => ?_
    refine Ends.bind (startGuest_ends hu.1 hu.2 ⟨[], by rw [horder]; simp⟩) fun _ v hv => ?_
    exact hv.1.bind fun _ t _ ht hw' => ⟨hw', by rw [ht.steps, hv.2, horder]; simp⟩
  · rename_i hcreate
    rw [vmmSteps, if_neg hcreate] at horder
    refine Ends.bind (makeVm_ends hw hsteps ⟨[.vmBoot], by rw [horder]; simp⟩) fun _ u hu => ?_
    refine Ends.mono (startGuest_ends hu.1 hu.2 ⟨[], by rw [horder]; simp⟩) fun _ v hv => ?_
    exact ⟨hv.1, by rw [hv.2, horder]; simp⟩

/-- The machine may say that it is running once every step of the launch has been taken. -/
theorem Booting.setRunning (hw : Booting plan child w) (hsteps : w.steps = plan.launchOrder) :
    Loop plan { w with state := { w.state with status := .running } } where
  inv := { hw.inv with
    state := ⟨hw.inv.state.vmm, hw.inv.state.sidecars⟩
    running := fun _ _ => .inr hsteps }
  held := hw.held
  mode := .inr (.inl { hw.owning with })

end booting

/-- The machine runs. -/
structure Booted (plan : LaunchPlan) (w : World) : Prop extends Loop plan w where
  owning : Owning w
  vmmPid : w.state.vmmPid ≠ none

theorem Booted.after {w w' : World} (h : Booted plan w) (hstep : QuietStep plan w w') : Booted plan w' :=
  ⟨h.toLoop.after hstep.toSettlingStep, h.owning.after hstep.toSettlingStep, hstep.vmmPid ▸ h.vmmPid⟩

theorem Booted.faltering {w : World} (h : Booted plan w) : Faltering plan w :=
  ⟨h.inv, h.owning.launched, h.owning.recoveredVmm, h.owning.recoveredSidecars, fun hnone => absurd hnone h.vmmPid⟩

section booted

variable {w : World}

theorem Booted.bind {α β : Type} {x : ShimProg α} {f : α → ShimProg β} {S : β → World → Prop} (hw : Booted plan w)
    [Keeps (Quiet plan) x]
    (hf : ∀ a u, Booted plan u → Ends plan (Faltering plan) S (f a u)) : Ends plan (Faltering plan) S ((x >>= f) w) :=
  Ends.keeps_bind (R := Quiet plan) (fun _ hu => hw.after (hu hw.inv)) (fun _ h => h.faltering) (fun _ h => h.inv)
    fun a u _ _ => hf a u

theorem publishRunning_ends {child : Proc} {version : String} (hw : Booting plan child w)
    (hsteps : w.steps = plan.launchOrder) :
    Ends plan (Faltering plan) (fun _ => Loop plan) (publishRunning version w) := by
  refine hw.bind fun _ u _ hu hw' => ?_
  have hbooted : Booted plan { u with state := { u.state with status := .running } } :=
    ⟨hw'.setRunning (hu.steps.trans hsteps), { hw'.owning with }, by rw [hw'.vmmPid]; nofun⟩
  refine hbooted.bind fun _ v₁ hv₁ => hv₁.bind fun _ v₂ hv₂ => hv₂.bind fun _ v₃ hv₃ => ?_
  have howner : Quiet plan v₃ { v₃ with ownerReaped := none } := Quiet.setOwnerReaped nofun
  exact hv₃.toLoop.after (howner hv₃.inv).toSettlingStep

theorem launchWithSidecars_ends (hw : Launching plan plan.sidecars w) (hsteps : w.steps = sidecarSteps plan.sidecars) :
    Ends plan (Faltering plan) (fun _ => Loop plan) (launchWithSidecars plan w) := by
  refine hw.bindVmm fun _ u _ hu hw' => ?_
  refine Ends.bind (spawnVmm_ends hw' (hu.steps.trans hsteps)) fun child v hv => ?_
  refine hv.1.bind fun a v₁ _ h₁ hv₁ => hv₁.bind fun ping v₂ _ h₂ hv₂ => ?_
  have hsteps₂ := (h₁.trans h₂).steps.trans hv.2
  refine Ends.bind (confirmVmm_ends hv₂ hsteps₂) fun _ v₃ hv₃ => ?_
  refine hv₃.1.bind fun _ v₄ _ h₄ hv₄ => ?_
  refine Ends.bind (bootVm_ends hv₄ (h₄.steps.trans hv₃.2)) fun _ v₅ hv₅ => ?_
  exact hv₅.1.bind fun _ v₆ _ h₆ hv₆ => publishRunning_ends hv₆ (h₆.steps.trans hv₅.2)

/-- A drop ignores the error of what it attempts. -/
theorem attemptWhen_ends {α : Type} {x : ShimProg α} {c : Bool} {E I : World → Prop} {R : World → World → Prop}
    [Std.Refl R] [Keeps R x] (hI : ∀ u, R w u → I u) (hK : ∀ u, I u → Inv plan u) :
    Ends plan E (fun _ => I) ((when c do let _ ← attempt x) w) := by
  cases c with
  | false => exact hI w (Std.Refl.refl w)
  | true => exact Ends.attempt_bind (R := R) (fun u hu => hK u (hI u hu)) fun _ u _ hu => hI u hu

theorem dropVmm_ends (hw : Faltering plan w) : Ends plan (Dropped plan) (fun _ => Dropped plan) (dropVmm w) := by
  refine Ends.bind (x := get) (Q := fun a u => a = w ∧ u = w) ⟨rfl, rfl⟩ ?_
  rintro _ _ ⟨rfl, rfl⟩
  rename_i w
  cases hv : w.vmm with
  | none => exact ⟨hw, hv⟩
  | some v =>
    refine Ends.bind (attemptWhen_ends (R := Steady plan) (I := Faltering plan) (x := v.terminateAndReap false)
      (fun u hu => hw.after (hu hw.inv)) fun _ h => h.inv) fun _ u hu =>
      ⟨hu.after (Steady.dropVmm hu.inv), rfl⟩

theorem launchVmm_ends (hw : Launching plan [] w) (hsteps : w.steps = []) :
    Ends plan (Dropped plan) (fun _ => Loop plan) (launchVmm plan w) := by
  refine Ends.bind (launchSidecars_ends hw hsteps) fun _ u hu => ?_
  refine Ends.onError (launchWithSidecars_ends hu.1 hu.2) fun e v hv => ?_
  refine Ends.bind (dropVmm_ends hv) fun _ t ht => ?_
  exact Ends.keeps (R := Steady plan) (fun v hv => ht.after (hv ht.1.inv)) (fun v hv => hv) fun v hv => hv.1.inv

end booted

end Firestone.Shim
