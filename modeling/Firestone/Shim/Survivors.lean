import Firestone.Shim.LaunchRun

/-!
# What a failed launch leaves behind

* `Found` — the candidates for a sidecar: each is the record of the live process, and a live one that is not among them has
  been missed.
* `findLaunchSidecarSurvivors_found`, `findLaunchSurvivor_none`, `findLaunchSurvivor_some` — what the searches prove.
* `failedLaunch_ends`, `handleLaunch_ends` — a launch request keeps the loop invariant, or ends with an error that leaves
  evidence of whatever may be alive.
-/

namespace Firestone.Shim

open Firestone.Lib Prog

variable {plan : LaunchPlan} {pid : Nat}

set_option synthInstance.maxSize 2000

/-! ## Candidates -/

instance scanProcesses_quiet (role : Role) : Keeps (Quiet plan) (scanProcesses role) := by
  unfold scanProcesses
  infer_instance

instance noteMissed_quiet (name : String) (candidates : List ProcessRecord) :
    Keeps (Quiet plan) (noteMissed name candidates) := by
  refine ⟨fun w hi => ?_⟩
  have hlost : w.lost → World.lost { w with
      missed := w.missed || w.alive.any fun p => p.role = .sidecar name && p.record ∉ candidates } := fun h =>
    h.imp (fun hm => by rw [hm, Bool.true_or]) id
  exact { QuietStep.refl hi with
    lost := hlost
    inv := { hi with kept := fun hgone => (hi.kept hgone).imp id hlost }
    heldOr := fun _ hheld => hheld.imp hlost id }

instance knownSidecar_quiet (name : String) (recorded : Option ProcessRecord) (mismatch : String) :
    Keeps (Quiet plan) (knownSidecar name recorded mismatch) := by
  unfold knownSidecar
  cases recorded <;> infer_instance

instance sidecarCandidates_quiet (name : String) (recorded : Option ProcessRecord) (mismatch : String) :
    Keeps (Quiet plan) (sidecarCandidates name recorded mismatch) := by
  unfold sidecarCandidates
  infer_instance

/-- A record of the live process of this role, if there is one. -/
def RecordOf (role : Role) (r : ProcessRecord) (w : World) : Prop :=
  r.role = role ∧ ∀ p ∈ w.alive, p.role = role → p.record = r

theorem RecordOf.after {role : Role} {r : ProcessRecord} {w w' : World} (h : RecordOf role r w)
    (hstep : ForwardStep plan w w') : RecordOf role r w' :=
  ⟨h.1, fun p hp => h.2 p (hstep.alive p hp)⟩

/-- The record of a process that is alive. -/
theorem Inv.recordOf {w : World} {p : Proc} (hi : Inv plan w) (hp : p ∈ w.alive) : RecordOf p.role p.record w :=
  ⟨rfl, fun q hq hrole => by rw [hi.unique q hq p hp hrole]⟩

theorem RecordOf.recordsVmm {r : ProcessRecord} {w : World} (h : RecordOf .vmm r w) : RecordsVmm r w.alive :=
  ⟨h.1, fun p hp hrole => by rw [← h.2 p hp hrole]; rfl⟩

/-- A record that is seen alive. -/
theorem recordedProcessAlive_recordOf {record : ProcessRecord} {w w' : World} (hi : Inv plan w)
    (h : recordedProcessAlive record w = (.ok true, w')) : RecordOf record.role record w' := by
  have hi' := ((recordedProcessAlive_quiet record).run h hi).inv
  obtain ⟨a, u, -, h⟩ := bind_eq_ok.mp h
  obtain ⟨v, u', hget, h⟩ := bind_eq_ok.mp h
  cases hget
  obtain ⟨⟨p, hp, rfl⟩, rfl⟩ : (∃ p ∈ u.alive, p.record = record) ∧ u = w' := by simpa using h
  exact hi'.recordOf hp

theorem scanProcesses_recordOf {role : Role} {l : List ProcessRecord} {w w' : World} (hi : Inv plan w)
    (h : scanProcesses role w = (.ok l, w')) : ∀ r ∈ l, RecordOf role r w' := by
  have hi' := ((scanProcesses_quiet role).run h hi).inv
  obtain ⟨a, u, -, h⟩ := bind_eq_ok.mp h
  obtain ⟨v, u', hget, h⟩ := bind_eq_ok.mp h
  cases hget
  cases h
  intro r hr
  obtain ⟨p, hp, rfl⟩ := List.mem_map.mp hr
  obtain ⟨hp, hrole, -⟩ : p ∈ w'.alive ∧ p.role = role ∧ p ∉ a.hidden := by simpa using hp
  exact hrole ▸ hi'.recordOf hp

/-- The candidates for a sidecar. -/
structure Found (name : String) (l : List ProcessRecord) (w : World) : Prop where
  records : ∀ r ∈ l, RecordOf (.sidecar name) r w
  seen : w.lost ∨ ∀ p ∈ w.alive, p.role = .sidecar name → p.record ∈ l

theorem Found.after {name : String} {l : List ProcessRecord} {w w' : World} (h : Found name l w)
    (hstep : ForwardStep plan w w') : Found name l w' :=
  ⟨fun r hr => (h.records r hr).after hstep, h.seen.imp hstep.lost fun hall p hp => hall p (hstep.alive p hp)⟩

theorem knownSidecar_recordOf {name : String} {recorded : Option ProcessRecord} {mismatch : String} {l : List ProcessRecord}
    {w w' : World} (hi : Inv plan w) (h : knownSidecar name recorded mismatch w = (.ok l, w')) :
    ∀ r ∈ l, RecordOf (.sidecar name) r w' := by
  cases recorded with
  | none =>
    cases h
    nofun
  | some record =>
    obtain ⟨alive, u, halive, h⟩ := bind_eq_ok.mp h
    cases alive with
    | false =>
      cases h
      nofun
    | true =>
      have hi' := ((recordedProcessAlive_quiet record).run halive hi).inv
      have hrecord := recordedProcessAlive_recordOf hi halive
      by_cases hrole : record.role = .sidecar name
      · rw [if_pos rfl, if_pos hrole] at h
        obtain ⟨_, v, hverify, h⟩ := bind_eq_ok.mp h
        cases h
        intro r hr
        cases List.mem_singleton.mp hr
        have hstep : QuietStep plan u w' := (verifyProcess_quiet record).run hverify hi'
        exact hrole ▸ hrecord.after hstep.forward
      · rw [if_pos rfl, if_neg hrole] at h
        cases h

theorem sidecarCandidates_found {name : String} {recorded : Option ProcessRecord} {mismatch : String}
    {l : List ProcessRecord}
    {w w' : World} (hi : Inv plan w) (h : sidecarCandidates name recorded mismatch w = (.ok l, w')) : Found name l w' := by
  obtain ⟨known, u, hknown, h⟩ := bind_eq_ok.mp h
  obtain ⟨scanned, v, hscan, h⟩ := bind_eq_ok.mp h
  obtain ⟨_, t, hnote, h⟩ := bind_eq_ok.mp h
  cases h
  have hi' := ((knownSidecar_quiet name recorded mismatch).run hknown hi).inv
  have hstep : QuietStep plan u v := (scanProcesses_quiet _).run hscan hi'
  have hstep' : QuietStep plan v w' := (noteMissed_quiet name _).run hnote hstep.inv
  refine ⟨fun r hr => ?_, ?_⟩
  · rcases List.mem_append.mp hr with hr | hr
    · exact (knownSidecar_recordOf hi hknown r hr).after (hstep.trans hstep').forward
    · exact (scanProcesses_recordOf hi' hscan r (List.mem_filter.mp hr).1).after hstep'.forward
  · cases hnote
    by_cases hany : v.alive.any fun p => p.role = .sidecar name && p.record ∉
        known ++ scanned.filter fun r => known.all fun c => c.pid ≠ r.pid
    · exact .inl (.inl (by show (v.missed || _) = true; rw [hany, Bool.or_true]))
    · refine .inr fun p hp hrole => ?_
      by_contra hnot
      refine hany (List.any_eq_true.mpr ⟨p, hp, ?_⟩)
      simp only [hrole, Bool.and_eq_true, decide_eq_true_eq]
      exact ⟨trivial, hnot⟩

/-! ## The searches -/

instance findLaunchSidecarSurvivors_quiet (names : List String) : Keeps (Quiet plan) (findLaunchSidecarSurvivors names) := by
  induction names with
  | nil => exact keeps_pure _
  | cons name names ih =>
    refine Keeps.bind inferInstance fun w => Keeps.bind inferInstance fun l => ?_
    rcases l with _ | ⟨record, _ | ⟨record', l⟩⟩
    · exact ih
    · infer_instance
    · infer_instance

/-- What is said about the sidecars of these names. -/
structure Survivors (names : List String) (l : List (String × ProcessRecord)) (w : World) : Prop where
  records : ∀ x ∈ l, RecordOf (.sidecar x.1) x.2 w
  none : l = [] → w.lost ∨ ∀ p ∈ w.alive, ∀ name ∈ names, p.role ≠ .sidecar name

theorem findLaunchSidecarSurvivors_found {names : List String} {l : List (String × ProcessRecord)} {w w' : World}
    (hi : Inv plan w) (h : findLaunchSidecarSurvivors names w = (.ok l, w')) : Survivors names l w' := by
  induction names generalizing l w with
  | nil =>
    cases h
    exact ⟨nofun, fun _ => .inr nofun⟩
  | cons name names ih =>
    obtain ⟨x, u, hget, h⟩ := bind_eq_ok.mp h
    cases hget
    obtain ⟨candidates, u, hcandidates, h⟩ := bind_eq_ok.mp h
    have hfound := sidecarCandidates_found hi hcandidates
    have hi' := ((sidecarCandidates_quiet name _ _).run hcandidates hi).inv
    rcases candidates with _ | ⟨record, _ | ⟨record', rest⟩⟩
    · have hrest := ih hi' h
      have hstep : QuietStep plan u w' := (findLaunchSidecarSurvivors_quiet names).run h hi'
      refine ⟨hrest.records, fun hl => ?_⟩
      rcases hrest.none hl with hlost | hall
      · exact .inl hlost
      · refine (hfound.after hstep.forward).seen.imp id fun hseen p hp name' hname' hrole => ?_
        rcases List.mem_cons.mp hname' with rfl | hname'
        · exact nomatch hseen p hp hrole
        · exact hall p hp name' hname' hrole
    · obtain ⟨rest, v, hrun, h⟩ := bind_eq_ok.mp h
      cases h
      have hrest := ih hi' hrun
      have hstep : QuietStep plan u w' := (findLaunchSidecarSurvivors_quiet names).run hrun hi'
      refine ⟨fun x hx => ?_, nofun⟩
      rcases List.mem_cons.mp hx with rfl | hx
      · exact (hfound.records record List.mem_cons_self).after hstep.forward
      · exact hrest.records x hx
    · cases h

instance takeOwnerReapProof_quiet (pid : Nat) : Keeps (Quiet plan) (takeOwnerReapProof pid) := by
  have : Keeps (Quiet plan) (modify fun w => { w with ownerReaped := none } : ShimProg Unit) :=
    ⟨fun _ => Quiet.setOwnerReaped nofun⟩
  unfold takeOwnerReapProof
  infer_instance

instance ownerReapProved_quiet : Keeps (Quiet plan) ownerReapProved := by
  refine Keeps.bind inferInstance fun w => ?_
  cases w.state.vmmPid <;> infer_instance

/-- The proof of an owner is good. -/
theorem ownerReapProved_noVmm {w w' : World} (hi : Inv plan w) (h : ownerReapProved w = (.ok true, w')) :
    ∀ p ∈ w'.alive, p.role ≠ .vmm := by
  obtain ⟨x, u, hget, h⟩ := bind_eq_ok.mp h
  cases hget
  cases hpid : w.state.vmmPid with
  | none =>
    rw [hpid] at h
    cases h
  | some n =>
    rw [hpid] at h
    obtain ⟨x, u, hget, h⟩ := bind_eq_ok.mp h
    cases hget
    split at h
    · rename_i howner
      cases h
      exact hi.owner (by rw [howner]; rfl)
    · cases h

instance recordedSurvivor_quiet : Keeps (Quiet plan) recordedSurvivor := by
  refine Keeps.bind inferInstance fun w => ?_
  cases w.identity.vmm <;> infer_instance

theorem recordedSurvivor_recordOf {r : ProcessRecord} {w w' : World} (hi : Inv plan w)
    (h : recordedSurvivor w = (.ok (some r), w')) : RecordOf .vmm r w' := by
  obtain ⟨x, u, hget, h⟩ := bind_eq_ok.mp h
  cases hget
  cases hrecord : w.identity.vmm with
  | none =>
    rw [hrecord] at h
    cases h
  | some record =>
    rw [hrecord] at h
    obtain ⟨alive, u, halive, h⟩ := bind_eq_ok.mp h
    cases alive with
    | false => cases h
    | true =>
      have hi' := ((recordedProcessAlive_quiet record).run halive hi).inv
      obtain ⟨_, v, hverify, h⟩ := bind_eq_ok.mp h
      cases h
      have hstep : QuietStep plan u w' := (verifyProcess_quiet r).run hverify hi'
      have hrecordOf := (recordedProcessAlive_recordOf hi halive).after hstep.forward
      rwa [(hi.identity r hrecord).1] at hrecordOf

instance scannedSurvivor_quiet : Keeps (Quiet plan) scannedSurvivor := by
  refine Keeps.bind inferInstance fun l => Keeps.bind inferInstance fun w => ?_
  rcases l with _ | ⟨record, _ | ⟨record', l⟩⟩
  · cases w.state.vmmPid <;> infer_instance
  · infer_instance
  · infer_instance

instance findLaunchSurvivor_quiet : Keeps (Quiet plan) findLaunchSurvivor := by
  unfold findLaunchSurvivor
  refine Keeps.bind inferInstance fun proved => ?_
  refine @keeps_ite _ _ _ _ _ _ _ _ inferInstance (Keeps.bind inferInstance fun survivor => ?_)
  cases survivor <;> infer_instance

/-- What the search for a VMM says. -/
def VmmSurvivor (w : World) : Option ProcessRecord → Prop
  | none => ∀ p ∈ w.alive, p.role ≠ .vmm
  | some record => RecordOf .vmm record w

theorem scannedSurvivor_found {r : Option ProcessRecord} {w w' : World} (hi : Inv plan w)
    (hpid : w.state.vmmPid = none → ∀ p ∈ w.alive, p.role ≠ .vmm) (h : scannedSurvivor w = (.ok r, w')) :
    VmmSurvivor w' r := by
  obtain ⟨l, u, hscan, h⟩ := bind_eq_ok.mp h
  have hrecords := scanProcesses_recordOf hi hscan
  have hstep : QuietStep plan w u := (scanProcesses_quiet .vmm).run hscan hi
  obtain ⟨x, u', hget, h⟩ := bind_eq_ok.mp h
  cases hget
  rcases l with _ | ⟨record, _ | ⟨record', l⟩⟩
  · cases hnone : u.state.vmmPid with
    | none =>
      rw [hnone] at h
      cases h
      exact fun p hp => hpid (hstep.vmmPid ▸ hnone) p (hstep.alive p hp)
    | some n =>
      rw [hnone] at h
      cases h
  · cases h
    exact hrecords record List.mem_cons_self
  · cases h

theorem findLaunchSurvivor_found {r : Option ProcessRecord} {w w' : World} (hi : Inv plan w)
    (hpid : w.state.vmmPid = none → ∀ p ∈ w.alive, p.role ≠ .vmm) (h : findLaunchSurvivor w = (.ok r, w')) :
    VmmSurvivor w' r := by
  obtain ⟨proved, u, hproved, h⟩ := bind_eq_ok.mp h
  have hstep : QuietStep plan w u := ownerReapProved_quiet.run hproved hi
  cases proved with
  | true =>
    cases h
    exact ownerReapProved_noVmm hi hproved
  | false =>
    obtain ⟨recorded, v, hrecorded, h⟩ := bind_eq_ok.mp h
    have hstep' : QuietStep plan u v := recordedSurvivor_quiet.run hrecorded hstep.inv
    cases recorded with
    | some record =>
      cases h
      exact recordedSurvivor_recordOf hstep.inv hrecorded
    | none =>
      have hs := hstep.trans hstep'
      exact scannedSurvivor_found hs.inv (fun hnone p hp => hpid (hs.vmmPid ▸ hnone) p (hs.alive p hp)) h

/-! ## A failed launch -/

theorem Failed.emit {w : World} (h : Failed plan pid w) (r : Reply) : Failed plan pid { w with sent := w.sent ++ [r] } :=
  ⟨{ h.inv with }, h.covered⟩

theorem keepSidecarSurvivors_ends {w : World} {survivors : List (String × ProcessRecord)} (hi : Inv plan w)
    (hs : ∀ x ∈ survivors, RecordOf (.sidecar x.1) x.2 w) (e : FirestoneError) :
    Ends plan (Failed plan pid) (fun _ => GivenUp plan) (keepSidecarSurvivors survivors e w) := by
  have hst : Inv plan { w with
      identity := { w.identity with sidecars := survivors },
      state := { w.state with sidecarPids := survivors.map fun x => (x.1, x.2.pid) } } := by
    refine { hi with state := ⟨hi.state.vmm, fun p hp name hrole n hn => ?_⟩, identity := hi.identity, running := hi.running }
    obtain ⟨x, hx, heq⟩ := List.mem_map.mp hn
    cases heq
    rw [← (hs x hx).2 p hp hrole]
    rfl
  show Ends plan _ _ ((onError publishProcessIdentity _ >>= fun _ => writeAmbiguousFailedState e) _)
  refine Ends.bind (Q := fun _ => Inv plan) ?_ fun _ u hu => writeAmbiguousFailedState_ends hu e
  refine Ends.onError (M := Inv plan) ?_ fun e u hu => ?_
  · exact Ends.keeps (R := Quiet plan) (fun u hu => (hu hst).inv) (fun _ h => h) fun _ h => h
  · -- nothing says any more that the survivors are alive
    have hlost : World.lost { u with unpublished := true } := .inr rfl
    exact ⟨{ hu with kept := fun _ => .inr hlost }, .inl (.inl hlost)⟩

/-- What the last cleanup is about stays. -/
structure SameHolders (w w' : World) : Prop where
  alive : ∀ p ∈ w'.alive, p ∈ w.alive
  lost : w.lost → w'.lost
  vmm : w'.vmm = w.vmm
  sidecars : w'.sidecars = w.sidecars
  recoveredVmm : w'.recoveredVmm = w.recoveredVmm
  recoveredSidecars : w'.recoveredSidecars = w.recoveredSidecars
  identity : w'.identity = w.identity

theorem SameHolders.refl (w : World) : SameHolders w w := ⟨fun _ h => h, id, rfl, rfl, rfl, rfl, rfl⟩

theorem SameHolders.trans {a b c : World} (h : SameHolders a b) (h' : SameHolders b c) : SameHolders a c :=
  ⟨fun p hp => h.alive p (h'.alive p hp), fun hl => h'.lost (h.lost hl), h'.vmm.trans h.vmm, h'.sidecars.trans h.sidecars,
    h'.recoveredVmm.trans h.recoveredVmm, h'.recoveredSidecars.trans h.recoveredSidecars, h'.identity.trans h.identity⟩

instance : Std.Refl SameHolders := ⟨SameHolders.refl⟩

instance : IsTrans World SameHolders := ⟨fun _ _ _ => SameHolders.trans⟩

theorem Covered.after {w w' : World} (h : Covered w) (hsame : SameHolders w w') : Covered w' := by
  refine h.imp hsame.lost fun hall p hp => ?_
  unfold World.covers World.holds World.retainedRecord
  rw [hsame.vmm, hsame.sidecars, hsame.recoveredSidecars, hsame.recoveredVmm, hsame.identity]
  exact hall p (hsame.alive p hp)

instance interact_sameHolders : Keeps SameHolders interact := by
  refine ⟨fun w => ?_⟩
  rw [interact_snd]
  exact { SameHolders.refl w with alive := fun p hp => (List.mem_filter.mp hp).1 }

instance call_sameHolders : Keeps SameHolders call := by
  have : ∀ a : Answer, Keeps SameHolders (match a.error with
      | some e => fail e
      | none => pure a : ShimProg Answer) := fun a => by cases a.error <;> infer_instance
  unfold call
  infer_instance

instance publishProcessIdentity_sameHolders : Keeps SameHolders publishProcessIdentity := by
  have : Keeps SameHolders (modify fun w => { w with runtime := some ⟨some w.identity⟩ } : ShimProg Unit) :=
    ⟨fun w => { SameHolders.refl w with }⟩
  unfold publishProcessIdentity
  infer_instance

theorem keepVmmSurvivor_ends {w : World} {record : ProcessRecord} (hd : Dropped plan w) (hr : RecordOf .vmm record w)
    (hsidecars : w.lost ∨ ∀ p ∈ w.alive, p.role = .vmm) (e : FirestoneError) :
    Ends plan (Failed plan pid) (fun _ => GivenUp plan) (keepVmmSurvivor record e w) := by
  have hi : Inv plan { w with identity := { w.identity with vmm := some record } } := by
    refine { hd.1.inv with identity := fun r hr' => ?_ }
    cases hr'
    exact hr.recordsVmm
  have hcovered : Covered { w with identity := { w.identity with vmm := some record } } := by
    refine hsidecars.imp id fun hall p hp => ⟨.inl hd.2, .inr ⟨hd.2, ?_⟩⟩
    rw [World.retainedRecord, hd.2, hd.1.recoveredVmm]
    exact congrArg some (hr.2 p hp (hall p hp)).symm
  have hpublish : Keeps (fun w w' => Quiet plan w w' ∧ SameHolders w w') publishProcessIdentity :=
    ⟨fun w => ⟨publishProcessIdentity_quiet.step w, publishProcessIdentity_sameHolders.step w⟩⟩
  refine Ends.keeps_bind (x := publishProcessIdentity) (R := fun w w' => Quiet plan w w' ∧ SameHolders w w')
    (I := fun u => Inv plan u ∧ Covered u) (fun u hu => ⟨(hu.1 hi).inv, hcovered.after hu.2⟩) (fun u hu => ⟨hu.1, .inl hu.2⟩)
    (fun _ hu => hu.1) fun _ u _ hstep hu => ?_
  exact writeRecoverableFailedState_ends hu.1 (hr.recordsVmm.mono hstep.2.alive) e

theorem settleVmm_ends {w : World} (hd : Dropped plan w) (hsidecars : w.lost ∨ ∀ p ∈ w.alive, p.role = .vmm)
    (e : FirestoneError) : Ends plan (Failed plan pid) (fun _ => Failed plan pid) (settleVmm e w) := by
  refine Ends.attempt_bind (R := Quiet plan) (fun u hu => (hu hd.1.inv).inv) fun r u hrun hu => ?_
  have hstep := hu hd.1.inv
  have hsidecars' : u.lost ∨ ∀ p ∈ u.alive, p.role = .vmm :=
    hsidecars.imp hstep.lost fun hall p hp => hall p (hstep.alive p hp)
  rcases attempt_eq_ok.mp hrun with ⟨survivor, rfl, hsurvivor⟩ | ⟨e', rfl, -⟩
  · have hfound := findLaunchSurvivor_found hd.1.inv hd.1.vmmPid hsurvivor
    cases survivor with
    | some record =>
      exact Ends.mono (keepVmmSurvivor_ends (hd.after hstep.steady) hfound hsidecars' e) fun _ _ h => h.failed
    | none =>
      have hempty : Empty u := hsidecars'.symm.imp (fun hall => List.eq_nil_iff_forall_not_mem.mpr fun p hp =>
        hfound p hp (hall p hp)) id
      refine Empty.bind hstep.inv hempty fun reason v _ hi he => ?_
      exact Ends.mono (finish_ends (.inr rfl) _ _ hi he) fun _ _ h => h.failed
  · exact Ends.mono (writeAmbiguousFailedState_ends hstep.inv e) fun _ _ h => h.failed

theorem settleLaunch_ends {w : World} (hd : Dropped plan w) (e : FirestoneError) :
    Ends plan (Failed plan pid) (fun _ => Failed plan pid) (settleLaunch plan e w) := by
  refine Ends.attempt_bind (R := Quiet plan) (fun u hu => (hu hd.1.inv).inv) fun r u hrun hu => ?_
  have hstep := hu hd.1.inv
  rcases attempt_eq_ok.mp hrun with ⟨survivors, rfl, hsurvivors⟩ | ⟨e', rfl, -⟩
  · have hfound := findLaunchSidecarSurvivors_found hd.1.inv hsurvivors
    cases survivors with
    | cons first rest =>
      exact Ends.mono (keepSidecarSurvivors_ends hstep.inv hfound.records e) fun _ _ h => h.failed
    | nil =>
      refine settleVmm_ends (hd.after hstep.steady) ((hfound.none rfl).imp id fun hall p hp => ?_) e
      rcases hstep.inv.planned p hp with hrole | ⟨name, hname, hrole⟩
      · exact hrole
      · exact absurd hrole (hall p hp name hname)
  · exact Ends.mono (writeAmbiguousFailedState_ends hstep.inv e) fun _ _ h => h.failed

theorem failedLaunch_ends {α : Type} {Q : α → World → Prop} {w : World} (hd : Dropped plan w) (e : FirestoneError) :
    Ends plan (Failed plan pid) Q (failedLaunch plan e w) :=
  Ends.bind (settleLaunch_ends hd e) fun _ _ hu => hu.emit (.error e)

/-! ## A launch request -/

theorem Idle.launching {w : World} (h : Idle w) (hi : Inv plan w) : Launching plan [] { w with launched := true } where
  inv := { hi with running := fun hr => absurd hr h.running }
  held := .inr fun p hp => by
    rw [show p ∈ _ ↔ p ∈ w.alive from Iff.rfl, h.alive] at hp
    cases hp
  launched := rfl
  vmm := h.vmm
  recoveredVmm := h.recoveredVmm
  recoveredSidecars := h.recoveredSidecars
  noVmm p hp := by
    rw [show p ∈ _ ↔ p ∈ w.alive from Iff.rfl, h.alive] at hp
    cases hp
  identity := h.identity
  vmmPid := h.vmmPid
  fileVmmPid := h.fileVmmPid
  pids := by
    rw [show World.state _ = w.state from rfl, h.sidecarPids]
    exact fun _ hx => absurd hx List.not_mem_nil
  filePids := by
    rw [show World.stateFile _ = w.stateFile from rfl, h.fileSidecarPids]
    exact fun _ hx => absurd hx List.not_mem_nil
  spawned p hp := by
    rw [show p ∈ _ ↔ p ∈ w.alive from Iff.rfl, h.alive] at hp
    cases hp
  owned := by
    rw [show World.sidecars _ = w.sidecars from rfl, h.sidecars]
    exact fun _ hs => absurd hs List.not_mem_nil
  identityFile := h.identityFile
  running := h.running

theorem handleLaunch_ends {w : World} (hw : Loop plan w) :
    Ends plan (Failed plan pid) (fun _ => Loop plan) (handleLaunch plan w) := by
  refine hw.look fun hw => ?_
  split
  · exact Loop.ends (x := emit _) hw
  · rename_i hlaunched
    have hidle := hw.idle_of_launched (by simpa using hlaunched)
    have hl := hidle.launching hw.inv
    have hempty : Empty { w with launched := true } := .inl hidle.alive
    show Ends plan _ _ ((call >>= fun _ => _) { w with launched := true })
    refine Ends.keeps_bind (R := Quiet plan) (I := fun u => Launching plan [] u ∧ u.steps = [] ∧ Empty u)
      (fun u hu => ⟨hl.after (hu hl.inv), (hu hl.inv).steps.trans hidle.steps, hempty.after (hu hl.inv).forward⟩)
      (fun u hu => hu.1.inv.failed_of_empty hu.2.2) (fun u hu => hu.1.inv) fun _ u _ _ hu => ?_
    refine Ends.bind (Ends.attempt (launchVmm_ends hu.1 hu.2.1)) ?_
    rintro (e | _) v hv
    · exact failedLaunch_ends hv e
    · exact Loop.ends (x := emit .ok) hv

end Firestone.Shim
