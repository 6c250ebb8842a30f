import Firestone.Shim.Survivors

/-!
# What a replacement shim adopts

* `recoverVmmRecord_recordOf`, `recoverSidecarProcesses_ends` — the VMM and the sidecars that it finds are the live ones.
* `adopt_ends` — after an adoption every live process is held; one that fails changes nothing that the next one needs.
* `enterShim_launch`, `enterShim_recover` — the loop invariant at the start of both kinds of run.
-/

namespace Firestone.Shim

open Firestone.Lib Prog

variable {plan : LaunchPlan} {pid : Nat}

set_option synthInstance.maxSize 2000

/-! ## The VMM -/

instance ensureOldShimGone_quiet : Keeps (Quiet plan) (ensureOldShimGone plan pid) := by
  refine Keeps.bind inferInstance fun w => ?_
  cases w.state.shimPid.filter fun old => old ≠ pid <;> infer_instance

instance recordedVmm_quiet : Keeps (Quiet plan) recordedVmm := by
  refine Keeps.bind inferInstance fun w => ?_
  cases w.identityFile.bind ProcessIdentity.vmm <;> infer_instance

theorem recordedVmm_recordOf {l : List ProcessRecord} {w w' : World} (hi : Inv plan w) (h : recordedVmm w = (.ok l, w')) :
    ∀ r ∈ l, RecordOf .vmm r w' := by
  obtain ⟨x, u, hget, h⟩ := bind_eq_ok.mp h
  cases hget
  cases hrecord : w.identityFile.bind ProcessIdentity.vmm with
  | none =>
    rw [hrecord] at h
    cases h
    nofun
  | some record =>
    rw [hrecord] at h
    obtain ⟨alive, u, halive, h⟩ := bind_eq_ok.mp h
    cases alive with
    | false =>
      cases h
      nofun
    | true =>
      have hi' := ((recordedProcessAlive_quiet record).run halive hi).inv
      obtain ⟨_, v, hverify, h⟩ := bind_eq_ok.mp h
      cases h
      have hstep : QuietStep plan u w' := (verifyProcess_quiet record).run hverify hi'
      obtain ⟨i, hfile, hvmm⟩ := Option.bind_eq_some_iff.mp hrecord
      intro r hr
      cases List.mem_singleton.mp hr
      have hrecordOf := (recordedProcessAlive_recordOf hi halive).after hstep.forward
      rwa [hi.identityFile i hfile _ hvmm] at hrecordOf

theorem retainPid_sub {recorded : Option Nat} {l : List ProcessRecord} {r : ProcessRecord}
    (h : r ∈ retainPid recorded l) : r ∈ l := by
  cases recorded with
  | none => exact h
  | some n => exact (List.mem_filter.mp h).1

instance recoverVmmRecord_quiet : Keeps (Quiet plan) (recoverVmmRecord plan pid) := by
  unfold recoverVmmRecord
  refine Keeps.bind inferInstance fun _ => Keeps.bind inferInstance fun known => Keeps.bind inferInstance fun scanned => ?_
  refine Keeps.bind inferInstance fun w => ?_
  split
  · refine Keeps.bind inferInstance fun _ => Keeps.bind inferInstance ?_
    rintro (e | ping) <;> infer_instance
  · infer_instance

/-- The VMM that is recovered is the live one. -/
theorem recoverVmmRecord_recordOf {r : ProcessRecord × Bool} {w w' : World} (hi : Inv plan w)
    (h : recoverVmmRecord plan pid w = (.ok r, w')) : RecordOf .vmm r.1 w' := by
  obtain ⟨_, u₁, h₁, h⟩ := bind_eq_ok.mp h
  have hs₁ : QuietStep plan w u₁ := ensureOldShimGone_quiet.run h₁ hi
  obtain ⟨known, u₂, h₂, h⟩ := bind_eq_ok.mp h
  have hs₂ : QuietStep plan u₁ u₂ := recordedVmm_quiet.run h₂ hs₁.inv
  obtain ⟨scanned, u₃, h₃, h⟩ := bind_eq_ok.mp h
  have hs₃ : QuietStep plan u₂ u₃ := (scanProcesses_quiet .vmm).run h₃ hs₂.inv
  obtain ⟨x, u, hget, h⟩ := bind_eq_ok.mp h
  cases hget
  have hrecords : ∀ r ∈ retainPid u₃.state.vmmPid (known ++ scanned.filter fun r => known.all fun c => c.pid ≠ r.pid),
      RecordOf .vmm r u₃ := by
    intro r hr
    rcases List.mem_append.mp (retainPid_sub hr) with hr | hr
    · exact (recordedVmm_recordOf hs₁.inv h₂ r hr).after hs₃.forward
    · exact scanProcesses_recordOf hs₂.inv h₃ r (List.mem_filter.mp hr).1
  generalize retainPid u₃.state.vmmPid (known ++ scanned.filter fun r => known.all fun c => c.pid ≠ r.pid) = l at hrecords h
  rcases l with _ | ⟨record, _ | ⟨record', l⟩⟩
  · cases h
  · obtain ⟨_, u₄, h₄, h⟩ := bind_eq_ok.mp h
    have hs₄ : QuietStep plan u₃ u₄ := (verifyProcess_quiet record).run h₄ hs₃.inv
    obtain ⟨ping, u₅, h₅, h⟩ := bind_eq_ok.mp h
    have hs₅ : QuietStep plan u₄ u₅ := (inferInstance : Keeps (Quiet plan) (attempt call)).run h₅ hs₄.inv
    have hrecordOf := (hrecords record List.mem_cons_self).after (hs₄.trans hs₅).forward
    rcases ping with e | ping
    · cases h
      exact hrecordOf
    · dsimp only at h
      split at h <;> cases h
      exact hrecordOf
  · cases h

/-! ## Processes -/

instance recoverProcess_quiet (label : String) (record : ProcessRecord) :
    Keeps (Quiet plan) (recoverProcess label record) := by
  refine Keeps.bind inferInstance fun _ => Keeps.bind inferInstance fun _ => Keeps.bind inferInstance fun _ => ?_
  refine Keeps.bind inferInstance fun w => ?_
  cases w.alive.find? fun p => p.record = record <;> infer_instance

theorem recoverProcess_record {label : String} {record : ProcessRecord} {s : RecoveredProcess} {w w' : World}
    (h : recoverProcess label record w = (.ok s, w')) : s.process.record = record := by
  obtain ⟨_, u₁, -, h⟩ := bind_eq_ok.mp h
  obtain ⟨_, u₂, -, h⟩ := bind_eq_ok.mp h
  obtain ⟨_, u₃, -, h⟩ := bind_eq_ok.mp h
  obtain ⟨x, u, hget, h⟩ := bind_eq_ok.mp h
  cases hget
  cases hfind : u₃.alive.find? fun p => p.record = record with
  | none =>
    rw [hfind] at h
    cases h
  | some p =>
    rw [hfind] at h
    cases h
    simpa using List.find?_some hfind

/-- A live process of the role is the one that has been recovered. -/
theorem RecordOf.eq_process {role : Role} {r : ProcessRecord} {p : Proc} {s : RecoveredProcess} {w : World}
    (h : RecordOf role r w) (hs : s.process.record = r) (hp : p ∈ w.alive) (hrole : p.role = role) : s.process = p :=
  Proc.record_injective (hs.trans (h.2 p hp hrole).symm)

/-! ## The sidecars -/

/-- What has been recovered of the sidecars of these names, once the VMM has. -/
structure Recovering (plan : LaunchPlan) (record : ProcessRecord) (previous : List (String × Nat)) (names : List String)
    (set : RecoveredSidecarSet) (w : World) : Prop where
  inv : Inv plan w
  launched : w.launched = false
  noVmm : w.vmm = none
  sidecars : w.sidecars = []
  vmm : RecordOf .vmm record w
  previous : ∀ p ∈ w.alive, ∀ name, p.role = .sidecar name → ∀ n, (name, n) ∈ previous → n = p.pid
  found : w.lost ∨ ∀ p ∈ w.alive, ∀ name ∈ names, p.role = .sidecar name → ∃ s ∈ set.processes, s.process = p

variable {vmm : ProcessRecord} {previous : List (String × Nat)} {names : List String} {set : RecoveredSidecarSet}

theorem Recovering.after {w w' : World} (h : Recovering plan vmm previous names set w) (hstep : ForwardStep plan w w') :
    Recovering plan vmm previous names set w' where
  inv := hstep.inv
  launched := hstep.launched.trans h.launched
  noVmm := hstep.noVmm h.noVmm
  sidecars := hstep.noSidecars h.sidecars
  vmm := h.vmm.after hstep
  previous p hp := h.previous p (hstep.alive p hp)
  found := h.found.imp hstep.lost fun hall p hp => hall p (hstep.alive p hp)

theorem mem_of_lookup {α : Type} {name : String} {a : α} {l : List (String × α)} (h : l.lookup name = some a) :
    (name, a) ∈ l := by
  induction l with
  | nil => cases h
  | cons x l ih =>
    obtain ⟨n, b⟩ := x
    rw [List.lookup_cons] at h
    split at h
    · rename_i heq
      cases h
      rw [eq_of_beq heq]
      exact List.mem_cons_self
    · exact List.mem_cons_of_mem _ (ih h)

/-- A live sidecar is not dropped for its pid. -/
theorem Recovering.retained {w : World} {name : String} {p : Proc} {l : List ProcessRecord}
    (h : Recovering plan vmm previous names set w)
    (hp : p ∈ w.alive) (hrole : p.role = .sidecar name) (hmem : p.record ∈ l) :
    p.record ∈ retainPid (previous.lookup name) l := by
  cases hlookup : previous.lookup name with
  | none => exact hmem
  | some n =>
    refine List.mem_filter.mpr ⟨hmem, ?_⟩
    rw [h.previous p hp name hrole n (mem_of_lookup hlookup)]
    exact decide_eq_true rfl

/-- The state changes. -/
theorem Recovering.setState {w : World} (h : Recovering plan vmm previous names set w) (st : MachineState)
    (hst : Agrees st w.alive) : Recovering plan vmm previous names set { w with state := st } where
  inv := { h.inv with
    state := hst
    running := fun _ hlaunched => nomatch h.launched.symm.trans hlaunched }
  launched := h.launched
  noVmm := h.noVmm
  sidecars := h.sidecars
  vmm := h.vmm
  previous := h.previous
  found := h.found

theorem Recovering.bind {α β : Type} {x : ShimProg α} {f : α → ShimProg β} {S : β → World → Prop} {w : World}
    (hw : Recovering plan vmm previous names set w) [Keeps (Quiet plan) x]
    (hf : ∀ a u, x w = (.ok a, u) → QuietStep plan w u → Recovering plan vmm previous names set u →
      Ends plan (Inv plan) S (f a u)) :
    Ends plan (Inv plan) S ((x >>= f) w) :=
  Ends.keeps_bind (R := Quiet plan) (fun _ hu => hw.after (hu hw.inv).forward) (fun _ h => h.inv) (fun _ h => h.inv)
    fun a u h hu => hf a u h (hu hw.inv)

theorem recoverSidecar_ends {w : World} {name : String} (hw : Recovering plan vmm previous names set w) :
    Ends plan (Inv plan) (fun set' => Recovering plan vmm previous (names ++ [name]) set')
      (recoverSidecar previous set name w) := by
  refine hw.bind (x := get) fun x u hget _ hw => ?_
  cases hget
  refine hw.bind fun candidates u hcandidates hu hw' => ?_
  have hfound := sidecarCandidates_found hw.inv hcandidates
  have hretained : ∀ p ∈ u.alive, p.role = .sidecar name → p.record ∈ candidates →
      p.record ∈ retainPid (previous.lookup name) candidates := fun _ hp hrole hmem => hw'.retained hp hrole hmem
  have hrecords : ∀ r ∈ retainPid (previous.lookup name) candidates, RecordOf (.sidecar name) r u := fun r hr =>
    hfound.records r (retainPid_sub hr)
  generalize retainPid (previous.lookup name) candidates = l at hretained hrecords
  rcases l with _ | ⟨record, _ | ⟨record', l⟩⟩
  · have hset := hw'.setState { u.state with sidecarPids := withoutKey name u.state.sidecarPids }
      ⟨hw'.inv.state.vmm, fun p hp name' hrole n hn => hw'.inv.state.sidecars p hp name' hrole n (withoutKey_subset hn)⟩
    have hend : ∀ set' : RecoveredSidecarSet, set'.processes = set.processes →
        Recovering plan vmm previous (names ++ [name]) set'
        { u with state := { u.state with sidecarPids := withoutKey name u.state.sidecarPids } } := by
      intro set' hset'
      refine { hset with found := ?_ }
      rcases hfound.seen with hlost | hseen
      · exact .inl hlost
      · refine hset.found.imp id fun hall p hp name' hname' hrole => ?_
        rw [hset']
        rcases List.mem_append.mp hname' with hname' | hname'
        · exact hall p hp name' hname' hrole
        · cases List.mem_singleton.mp hname'
          exact nomatch hretained p hp hrole (hseen p hp hrole)
    show Ends plan _ _ ((if _ then _ else _ : ShimProg RecoveredSidecarSet) _)
    split
    · exact hend _ rfl
    · exact hend _ rfl
  · refine hw'.bind fun _ v _ hv hw'' => ?_
    have hrecord := (hrecords record List.mem_cons_self).after hv.forward
    have hset := hw''.setState { v.state with sidecarPids := withKey name record.pid v.state.sidecarPids } (by
      refine ⟨hw''.inv.state.vmm, fun p hp name' hrole n hn => ?_⟩
      rcases List.mem_cons.mp hn with heq | hn
      · cases heq
        rw [← hrecord.2 p hp hrole]
        rfl
      · exact hw''.inv.state.sidecars p hp name' hrole n (List.mem_filter.mp hn).1)
    refine hset.bind fun s t hs ht hw₃ => ?_
    have hrecord' : RecordOf (.sidecar name) record t := ⟨hrecord.1, fun p hp => hrecord.2 p (ht.alive p hp)⟩
    refine { hw₃ with found := hw₃.found.imp id fun hall p hp name' hname' hrole => ?_ }
    rcases List.mem_append.mp hname' with hname' | hname'
    · obtain ⟨s', hs', hp'⟩ := hall p hp name' hname' hrole
      exact ⟨s', List.mem_append_left _ hs', hp'⟩
    · cases List.mem_singleton.mp hname'
      exact ⟨s, List.mem_append_right _ List.mem_cons_self, hrecord'.eq_process (recoverProcess_record hs) hp hrole⟩
  · exact hw'.inv

theorem recoverSidecars_ends {w : World} {rest : List String} (hw : Recovering plan vmm previous names set w) :
    Ends plan (Inv plan) (fun set' => Recovering plan vmm previous (names ++ rest) set')
      (rest.foldlM (recoverSidecar previous) set w) := by
  induction rest generalizing names set w with
  | nil =>
    rw [List.append_nil]
    exact hw
  | cons name rest ih =>
    rw [List.foldlM_cons]
    refine Ends.bind (recoverSidecar_ends hw) fun set' u hu => ?_
    have := ih hu
    rwa [List.append_assoc] at this

/-- What has been recovered of the sidecars. -/
theorem recoverSidecarProcesses_ends {w : World} (hi : Inv plan w) (hb : Blank w) (hr : RecordOf .vmm vmm w) :
    Ends plan (Inv plan) (fun set => Recovering plan vmm w.state.sidecarPids plan.sidecars set)
      (recoverSidecarProcesses plan w) := by
  have hw : Recovering plan vmm w.state.sidecarPids [] {} w :=
    ⟨hi, hb.launched, hb.vmm, hb.sidecars, hr, hi.state.sidecars, .inr nofun⟩
  refine Ends.bind (x := get) (Q := fun a u => a = w ∧ u = w) ⟨rfl, rfl⟩ ?_
  rintro _ _ ⟨rfl, rfl⟩
  rename_i w
  cases w.state.sidecarPids.find? fun x => x.1 ∉ plan.sidecars with
  | some x => exact hi
  | none =>
    dsimp only
    cases ((w.identityFile.map ProcessIdentity.sidecars).getD []).find? fun x => x.1 ∉ plan.sidecars with
    | some x => exact hi
    | none => exact recoverSidecars_ends hw

/-! ## The adoption -/

/-- Everything that is alive has been adopted. -/
structure Adopted (plan : LaunchPlan) (w : World) : Prop where
  inv : Inv plan w
  held : Held w
  launched : w.launched = false
  vmm : w.vmm = none
  sidecars : w.sidecars = []
  recoveredVmm : w.recoveredVmm.isSome = true

theorem adoptedState_pids (pid vmmPid : Nat) (apiReady : Bool) (now : String) (st : MachineState) :
    (adoptedState pid vmmPid apiReady now st).sidecarPids = st.sidecarPids ∧
      (adoptedState pid vmmPid apiReady now st).vmmPid = some vmmPid := by
  unfold adoptedState
  dsimp only
  split
  · exact ⟨rfl, rfl⟩
  · split <;> exact ⟨rfl, rfl⟩

/-- Markers change no pid. -/
theorem addMissing_pids (missing : List String) (st : MachineState) :
    let st' := missing.foldl (fun st name => addDegraded (name ++ " exited (status unavailable)") st) st
    st'.vmmPid = st.vmmPid ∧ st'.sidecarPids = st.sidecarPids := by
  induction missing generalizing st with
  | nil => exact ⟨rfl, rfl⟩
  | cons name missing ih =>
    obtain ⟨hvmm, hsidecars⟩ := ih (addDegraded (name ++ " exited (status unavailable)") st)
    rw [addDegraded_eq] at hvmm hsidecars
    exact ⟨by rw [List.foldl_cons, addDegraded_eq, hvmm], by rw [List.foldl_cons, addDegraded_eq, hsidecars]⟩

/-- The processes that have been found are taken over. -/
theorem Recovering.adopt {w : World} {s : RecoveredProcess} {pending : Bool}
    (h : Recovering plan vmm previous plan.sidecars set w) (hs : s.process.record = vmm) :
    Adopted plan { w with
      recoveredVmm := some s.process, recoveredSidecars := set.processes, recoveryApiPending := pending } where
  inv := { h.inv with
    recovered := fun q hq => by
      cases hq
      rw [hs]
      exact h.vmm.recordsVmm
    running := fun _ hlaunched => nomatch h.launched.symm.trans hlaunched }
  held := h.found.imp id fun hall p hp => by
    rcases h.inv.planned p hp with hrole | ⟨name, hname, hrole⟩
    · exact .inr (.inr (.inl (congrArg some (h.vmm.eq_process hs hp hrole))))
    · exact .inr (.inr (.inr (hall p hp name hname hrole)))
  launched := h.launched
  vmm := h.noVmm
  sidecars := h.sidecars
  recoveredVmm := rfl

theorem Recovering.adoptedState_agrees {w : World} (h : Recovering plan vmm previous names set w) (pid : Nat)
    (apiReady : Bool) (now : String) : Agrees (adoptedState pid vmm.pid apiReady now w.state) w.alive := by
  obtain ⟨hsidecars, hvmm⟩ := adoptedState_pids pid vmm.pid apiReady now w.state
  refine ⟨fun p hp hrole n hn => ?_, fun p hp name hrole n hn => ?_⟩
  · rw [hvmm] at hn
    cases hn
    rw [← h.vmm.2 p hp hrole]
    rfl
  · rw [hsidecars] at hn
    exact h.inv.state.sidecars p hp name hrole n hn

/-- The end of an adoption. -/
theorem takeOver_ends {w : World} {apiReady running : Bool} {r : Recovery}
    (hw : Recovering plan vmm previous plan.sidecars set w) :
    Ends plan (Inv plan) (fun _ => Adopted plan)
      ((do
        when running (setState fun st =>
          set.missing.foldl (fun st name => addDegraded (name ++ " exited (status unavailable)") st) st)
        setIdentity fun _ => ⟨pid, some vmm, set.records⟩
        let s ← recoverProcess "VMM" vmm
        modify fun w => { w with
          recoveredVmm := some s.process, recoveredSidecars := set.processes, recoveryApiPending := !apiReady }
        return r) w) := by
  -- the markers come first, if the machine was running
  have hmarked : ∃ st, Agrees st w.alive ∧ (when running (setState fun st =>
      set.missing.foldl (fun st name => addDegraded (name ++ " exited (status unavailable)") st) st) : ShimProg Unit) w =
        (.ok (), { w with state := st }) := by
    cases running with
    | false => exact ⟨w.state, hw.inv.state, rfl⟩
    | true =>
      obtain ⟨hvmm, hsidecars⟩ := addMissing_pids set.missing w.state
      refine ⟨_, ⟨fun p hp hrole n hn => ?_, fun p hp name hrole n hn => ?_⟩, rfl⟩
      · exact hw.inv.state.vmm p hp hrole n (hvmm ▸ hn)
      · exact hw.inv.state.sidecars p hp name hrole n (hsidecars ▸ hn)
  obtain ⟨st, hst, hrun⟩ := hmarked
  rw [bind_run_ok hrun]
  have hset := hw.setState _ hst
  have hnamed : Recovering plan vmm previous plan.sidecars set
      { w with state := st, identity := ⟨pid, some vmm, set.records⟩ } := by
    refine { hset with inv := { hset.inv with identity := fun r hr => ?_ } }
    cases hr
    exact hw.vmm.recordsVmm
  exact hnamed.bind fun s u hs _ hu => hu.adopt (recoverProcess_record hs)

theorem adopt_ends {w : World} (hi : Inv plan w) (hb : Blank w) :
    Ends plan (Inv plan) (fun _ => Adopted plan) (adopt plan pid w) := by
  show Ends plan _ _ ((if _ then _ else _ : ShimProg Recovery) w)
  split
  · refine Ends.keeps_bind (R := Quiet plan) (I := fun u => Inv plan u ∧ Blank u)
      (fun u hu => ⟨(hu hi).inv, hb.after (hu hi).forward⟩) (fun _ h => h.1) (fun _ h => h.1) ?_
    rintro ⟨record, apiReady⟩ u hrecord - hu
    have hr : RecordOf .vmm record u := recoverVmmRecord_recordOf hi hrecord
    refine Ends.bind (recoverSidecarProcesses_ends hu.1 hu.2 hr) fun set v hv => ?_
    refine hv.bind fun a t _ ht hw => ?_
    exact takeOver_ends (hw.setState _ (hw.adoptedState_agrees pid apiReady a.text))
  · exact hi

/-! ## The start of a run -/

/-- The files are as a launch has prepared them for this shim, if they name it. -/
def Prepared (pid : Nat) (st : MachineState) (alive : List Proc) : Prop :=
  st.status = .starting → st.shimPid = some pid → alive = [] ∧ st.vmmPid = none ∧ st.sidecarPids = []

/-- The variables are fresh and the state is the one on disk. -/
structure Entering (plan : LaunchPlan) (pid : Nat) (w : World) : Prop where
  inv : Inv plan w
  blank : Blank w
  file : w.state = w.stateFile
  prepared : Prepared pid w.stateFile w.alive

theorem Entering.after {w w' : World} (h : Entering plan pid w) (hstep : QuietStep plan w w') (hsame : SameState w w') :
    Entering plan pid w' where
  inv := hstep.inv
  blank := h.blank.after hstep.forward
  file := by rw [hsame.1, hsame.2, h.file]
  prepared hstatus hpid := by
    rw [hsame.2] at hstatus hpid ⊢
    obtain ⟨halive, hpids⟩ := h.prepared hstatus hpid
    exact ⟨nil_of_sub hstep.alive halive, hpids⟩

theorem Entering.call {α : Type} {f : Answer → ShimProg α} {S : α → World → Prop} {w : World} (h : Entering plan pid w)
    (hf : ∀ a u, Entering plan pid u → Ends plan (Inv plan) S (f a u)) : Ends plan (Inv plan) S ((call >>= f) w) := by
  have hkeeps : Keeps (fun w w' => Quiet plan w w' ∧ SameState w w') Shim.call := call_quiet.and call_same
  exact Ends.keeps_bind (x := Shim.call) (R := fun w w' => Quiet plan w w' ∧ SameState w w')
    (fun u hu => h.after (hu.1 h.inv) hu.2) (fun _ hu => hu.inv) (fun _ hu => hu.inv) fun a u _ _ hu => hf a u hu

theorem FilesInv.enter {w : World} (h : FilesInv plan w) (pid : Nat) : Inv plan (w.enter pid) :=
  { h with
    state := h.file
    identity := nofun
    vmm := nofun
    vmmOnly := nofun
    sidecars := nofun
    recovered := nofun
    owner := nofun
    ordered := List.nil_prefix
    running := fun _ hlaunched => nomatch hlaunched }

/-- What is there before the loop. -/
def Entered (plan : LaunchPlan) (w : World) : Prop := (Inv plan w ∧ Unstarted w) ∨ Adopted plan w

theorem Entered.inv {w : World} (h : Entered plan w) : Inv plan w := h.elim And.left Adopted.inv

theorem Adopted.after {w w' : World} (h : Adopted plan w) (hstep : QuietStep plan w w') : Adopted plan w' where
  inv := hstep.inv
  held := hstep.held h.held
  launched := hstep.launched.trans h.launched
  vmm := hstep.noVmm h.vmm
  sidecars := hstep.forward.noSidecars h.sidecars
  recoveredVmm := by rw [hstep.recoveredVmm, h.recoveredVmm]

theorem Entered.after {w w' : World} (h : Entered plan w) (hstep : QuietStep plan w w') : Entered plan w' :=
  h.imp (fun h => ⟨hstep.inv, h.2.after hstep.forward⟩) fun h => h.after hstep

theorem Entered.bind {α β : Type} {x : ShimProg α} {f : α → ShimProg β} {S : β → World → Prop} {w : World}
    (h : Entered plan w) [Keeps (Quiet plan) x]
    (hf : ∀ a u, x w = (.ok a, u) → QuietStep plan w u → Entered plan u → Ends plan (Inv plan) S (f a u)) :
    Ends plan (Inv plan) S ((x >>= f) w) :=
  Ends.keeps_bind (R := Quiet plan) (fun _ hu => h.after (hu h.inv)) (fun _ hu => hu.inv) (fun _ hu => hu.inv)
    fun a u hx hu => hf a u hx (hu h.inv)

theorem prepareOrAdopt_ends {w : World} (h : Entering plan pid w) :
    Ends plan (Inv plan) (fun _ => Entered plan) (prepareOrAdopt plan pid w) := by
  show Ends plan _ _ ((if _ then _ else _ : ShimProg Recovery) w)
  split
  · rename_i hstart
    rw [h.file] at hstart
    obtain ⟨halive, hvmm, hsidecars⟩ := h.prepared hstart.1 hstart.2
    refine .inl ⟨h.inv, h.blank, halive, by rw [h.file, hvmm], by rw [h.file, hsidecars], hvmm, hsidecars, ?_⟩
    rintro (hrunning | hrunning)
    · rw [h.file, hstart.1] at hrunning
      cases hrunning
    · rw [hstart.1] at hrunning
      cases hrunning
  · exact Ends.mono (adopt_ends h.inv h.blank) fun _ _ => .inr

theorem publishProcessIdentity_file {w w' : World} (hi : Inv plan w) (h : publishProcessIdentity w = (.ok (), w')) :
    w'.identityFile ≠ none := by
  obtain ⟨_, u, hcall, h⟩ := bind_eq_ok.mp h
  have hi' := (call_quiet.run hcall hi).inv
  obtain ⟨x, v, hget, h⟩ := bind_eq_ok.mp h
  cases hget
  split at h
  · rename_i hruntime
    obtain ⟨_, t, hset, h⟩ := bind_eq_ok.mp h
    cases hset
    obtain ⟨_, s, hcall', h⟩ := bind_eq_ok.mp h
    cases h
    have hstep : QuietStep plan _ w' := call_quiet.run hcall' (Quiet.publish hruntime hi').inv
    exact fun hgone => nomatch hstep.identityFile hgone
  · cases h

/-- The loop begins. -/
theorem Entered.loop {w : World} (h : Entered plan w) (hfile : w.identityFile ≠ none) :
    Loop plan { w with launched := w.recoveredVmm.isSome } := by
  rcases h with ⟨hi, hu⟩ | ha
  · have hsame : w.recoveredVmm.isSome = w.launched := by
      rw [hu.recoveredVmm, hu.launched]
      rfl
    rw [hsame]
    exact ⟨hi, .inr fun p hp => (by rw [hu.alive] at hp; cases hp), .inl ⟨hu, hfile⟩⟩
  · exact ⟨{ ha.inv with running := fun _ _ => .inl ha.recoveredVmm }, ha.held,
      .inr (.inr ⟨ha.recoveredVmm, ha.vmm, ha.sidecars, ha.recoveredVmm⟩)⟩

theorem enterShim_ends {w : World} (h : FilesInv plan w) (hprepared : Prepared pid w.stateFile w.alive) :
    Ends plan (Inv plan) (fun _ => Loop plan) (enterShim plan pid w) := by
  have henter : Entering plan pid (w.enter pid) := ⟨h.enter pid, ⟨rfl, rfl, rfl, rfl, rfl, rfl, rfl⟩, rfl, hprepared⟩
  refine henter.call fun _ u₁ h₁ => ?_
  have hruntime : Entering plan pid { u₁ with runtime := u₁.runtime <|> some ⟨none⟩ } := by
    have hfile : World.identityFile { u₁ with runtime := u₁.runtime <|> some ⟨none⟩ } = u₁.identityFile := by
      unfold World.identityFile
      cases u₁.runtime <;> rfl
    refine ⟨{ h₁.inv with identityFile := ?_, kept := ?_ }, { h₁.blank with }, h₁.file, h₁.prepared⟩
    · rw [hfile]
      exact h₁.inv.identityFile
    · rw [hfile]
      exact h₁.inv.kept
  refine hruntime.call fun _ u₂ h₂ => ?_
  have hread : Entering plan pid { u₂ with state := u₂.stateFile } :=
    ⟨{ h₂.inv with state := h₂.inv.file, running := fun hr => h₂.inv.running (.inr (hr.elim id id)) }, { h₂.blank with }, rfl,
      h₂.prepared⟩
  refine hread.call fun _ u₃ h₃ => ?_
  refine Ends.bind (prepareOrAdopt_ends h₃) fun r u₄ h₄ => ?_
  refine h₄.bind fun _ u₅ _ _ h₅ => h₅.bind fun _ u₆ hpublish _ h₆ => ?_
  have hfile := publishProcessIdentity_file h₅.inv hpublish
  refine h₆.bind (x := get) fun x u₆ hget hs₆ h₆ => ?_
  refine h₆.bind fun _ u₇ _ hs₇ h₇ => h₇.bind fun _ u₈ _ hs₈ h₈ => ?_
  exact h₈.loop fun hgone => hfile ((hs₆.trans (hs₇.trans hs₈)).identityFile hgone)

end Firestone.Shim
