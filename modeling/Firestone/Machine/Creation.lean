import Firestone.Error
import Firestone.Lib.Bytes
import Firestone.Lib.Runs

/-!
# Creation of a machine directory

`create_internal` and `clone_machine` fill a machine directory under a `.creating` marker, which goes last. An attempt
that finds the marker of an earlier one clears the directory, unless spec and state are there: then it takes the machine
for complete and only removes the marker.

* `Attempt.writes` — what an attempt does between the marker's appearance and its removal.
* `step` — attempts on one name, one after the other under the machine lock, each of which may stop anywhere.
* `Uninterrupted` — nobody stops between its first `state.json` and the last of its writes.
* `reachable_published` — then a published machine is the work of one attempt that has made all of its writes.
-/

namespace Firestone.Machine.Creation

open Firestone.Lib

/-! ## The directory -/

/-- The entries of a machine directory that is being created, beside the lock. -/
inductive Entry
  | creating | spec | specTemp | state | stateTemp | candidate | candidateTemp | disk | diskPartial
  deriving DecidableEq, Repr

def Entry.all : List Entry :=
  [.creating, .spec, .specTemp, .state, .stateTemp, .candidate, .candidateTemp, .disk, .diskPartial]

theorem Entry.mem_all (e : Entry) : e ∈ Entry.all := by
  cases e <;> decide

/-- An overlay: an empty one of the image, or what `qemu-img convert` makes of another. -/
inductive Disk
  | fresh (image : String) (size : Nat)
  | copyOf (source : Bytes) (image : String)
  deriving DecidableEq, Repr

inductive Content
  | marker
  | text (bytes : Bytes)
  | disk (disk : Disk)
  deriving DecidableEq, Repr

abbrev Dir := Entry → Option Content

inductive Write
  | put (entry : Entry) (content : Content)
  | unlink (entry : Entry)
  | rename (source dest : Entry)
  /-- `sync_directory`, after which an error no longer undoes the overlay. -/
  | sync
  deriving DecidableEq, Repr

def Dir.apply (dir : Dir) : Write → Dir
  | .put entry content => Function.update dir entry (some content)
  | .unlink entry => Function.update dir entry none
  | .rename source dest => Function.update (Function.update dir dest (dir source)) source none
  | .sync => dir

def Dir.empty : Dir := fun _ => none

/-- Nothing but the marker. -/
def Dir.marked : Dir := Function.update Dir.empty .creating (some .marker)

/-- `machine_publication_complete`; a spec or state that does not load is an error of the attempt. -/
def Dir.complete (dir : Dir) : Bool := (dir .spec).isSome && (dir .state).isSome

/-! ## Attempts -/

/-- What the editor and the second half of `create_with_edit` leave. -/
structure Edit where
  edited : Bytes
  state : Bytes
  deriving DecidableEq, Repr

/-- What a clone finds at its source. -/
structure CloneSource where
  name : String
  disk : Option Bytes
  /-- The pinned image, when id and digest are both there. -/
  image : Option String
  /-- The disk size of the spec. -/
  size : Nat
  deriving DecidableEq, Repr

inductive Attempt
  | create (spec state : Bytes) (edit : Option Edit)
  | clone (spec state : Bytes) (source : CloneSource) (freshDisk : Bool)
  deriving DecidableEq, Repr

/-- `atomic::write`. -/
def writeFile (entry temp : Entry) (content : Bytes) : List Write :=
  [.unlink temp, .put temp (.text content), .rename temp entry]

/-- `clone_disk`: which overlay the destination gets. -/
def cloneDisk (source : CloneSource) (freshDisk : Bool) : Res (Option Disk) :=
  match source.image with
  | none =>
    if source.disk.isSome then
      .error ((FirestoneError.new .conflict
        ("machine `" ++ source.name ++ "` has a disk but no pinned image identity")).withHint
        "repair state.json so image id and sha256 are both present")
    else .ok none
  | some image =>
    match source.disk, freshDisk with
    | some disk, false => .ok (some (.copyOf disk image))
    | _, _ => .ok (some (.fresh image source.size))

namespace Attempt

def spec : Attempt → Bytes
  | .create spec _ _ | .clone spec _ _ _ => spec

def state : Attempt → Bytes
  | .create _ state _ | .clone _ state _ _ => state

/-- Both operations write the spec and then the state. -/
def initial (a : Attempt) : List Write :=
  writeFile .spec .specTemp a.spec ++ writeFile .state .stateTemp a.state

/-- What follows, and how it ends. -/
def rest : Attempt → List Write × Res Unit
  | .create _ _ none => ([], .ok ())
  | .create spec _ (some edit) =>
    (writeFile .candidate .candidateTemp spec ++ .put .candidate (.text edit.edited) ::
      writeFile .spec .specTemp edit.edited ++ .unlink .candidate :: writeFile .state .stateTemp edit.state, .ok ())
  | .clone _ _ source freshDisk =>
    match cloneDisk source freshDisk with
    | .error e => ([], .error e)
    | .ok none => ([], .ok ())
    | .ok (some disk) =>
      ([.unlink .diskPartial, .put .diskPartial (.disk disk), .rename .diskPartial .disk, .sync], .ok ())

def writes (a : Attempt) : List Write := a.initial ++ a.rest.1

def result (a : Attempt) : Res Unit := a.rest.2

/-- The directory once all writes are made and the marker is gone. -/
def published (a : Attempt) : Dir := (a.writes.foldl Dir.apply .marked).apply (.unlink .creating)

end Attempt

/-! ## Steps -/

inductive Phase
  /-- `clear_incomplete_machine`, with the entries still to remove. -/
  | clearing (rest : List Entry)
  | marking
  | building (todo : List Write)
  | publishing
  /-- The marker of an earlier attempt is removed. -/
  | finalizing
  deriving DecidableEq, Repr

/-- The directory, the last attempt that has begun to fill it with the writes it has made, and the attempt that holds the
lock. -/
structure Sys where
  dir : Dir
  builder : Option (Attempt × List Write)
  active : Option (Attempt × Phase)

inductive Event
  /-- An attempt takes the lock; `order` is the order in which it reads the directory. -/
  | begin (attempt : Attempt) (order : List Entry)
  | advance
  | crash
  | error
  deriving DecidableEq, Repr

/-- What an error removes on its way out: temporary files, the candidate and an overlay not yet synced. -/
def cleanup : Phase → List Entry
  | .building [] => []
  | .building todo =>
    [.specTemp, .stateTemp, .candidateTemp, .candidate] ++ if .sync ∈ todo then [.diskPartial, .disk] else []
  | _ => []

/-- `prepare_machine_creation`. -/
def prepare (s : Sys) (attempt : Attempt) (order : List Entry) : Option Sys :=
  if s.dir.complete then
    if (s.dir .creating).isSome then some { s with active := some (attempt, .finalizing) } else some s
  else if (s.dir .creating).isSome then
    if .creating ∉ order ∧ ∀ e ∈ Entry.all, e = .creating ∨ e ∈ order then
      some { s with active := some (attempt, .clearing order) }
    else none
  else if Entry.all.any fun e => (s.dir e).isSome then some s
  else some { s with active := some (attempt, .marking) }

def step (s : Sys) : Event → Option Sys
  | .begin attempt order =>
    match s.active with
    | some _ => none
    | none => prepare s attempt order
  | .advance =>
    match s.active with
    | none => none
    | some (a, .clearing (e :: rest)) => some { s with dir := s.dir.apply (.unlink e), active := some (a, .clearing rest) }
    | some (a, .clearing []) => some { s with builder := some (a, []), active := some (a, .building a.writes) }
    | some (a, .marking) =>
      some ⟨s.dir.apply (.put .creating .marker), some (a, []), some (a, .building a.writes)⟩
    | some (a, .building (w :: todo)) =>
      some ⟨s.dir.apply w, s.builder.map fun b => (b.1, b.2 ++ [w]), some (a, .building todo)⟩
    | some (a, .building []) =>
      match a.result with
      | .ok _ => some { s with active := some (a, .publishing) }
      | .error _ => none
    | some (_, .publishing) | some (_, .finalizing) =>
      some { s with dir := s.dir.apply (.unlink .creating), active := none }
  | .crash => some { s with active := none }
  | .error =>
    match s.active with
    | none => none
    | some (_, phase) =>
      some { s with dir := (cleanup phase).foldl (fun dir e => dir.apply (.unlink e)) s.dir, active := none }

def Initial (s : Sys) : Prop := s = ⟨.empty, none, none⟩

/-- No attempt stops after its first `state.json` and before the last of its writes. -/
def Uninterrupted (s : Sys) (event : Event) : Prop :=
  event = .crash ∨ event = .error → ∀ a todo, s.active = some (a, .building todo) →
    s.dir .state = none ∨ todo = [] ∧ a.result = .ok ()

/-- A machine without marker is the work of one attempt that has made all of its writes; a clone of a disk has its own
copy of that disk. -/
def Published (s : Sys) : Prop :=
  s.dir .creating = none → (s.dir .spec).isSome = true → (s.dir .state).isSome = true →
    ∃ a, s.builder = some (a, a.writes) ∧ a.result = .ok () ∧ s.dir = a.published ∧
      ∀ spec state source disk, a = .clone spec state source false → source.disk = some disk →
        ∃ image, s.dir .disk = some (.disk (.copyOf disk image))

/-! ## What the writes do -/

/-- The write leaves the entry alone. -/
def Write.avoids (e : Entry) : Write → Bool
  | .put entry _ | .unlink entry => entry != e
  | .rename source dest => source != e && dest != e
  | .sync => true

theorem Dir.apply_of_avoids {dir : Dir} {w : Write} {e : Entry} (h : w.avoids e = true) : dir.apply w e = dir e := by
  cases w with
  | put entry content | unlink entry =>
    have hne : e ≠ entry := by
      rintro rfl
      simp [Write.avoids] at h
    exact Function.update_of_ne hne _ _
  | rename source dest =>
    simp only [Write.avoids, Bool.and_eq_true, bne_iff_ne] at h
    exact (Function.update_of_ne (Ne.symm h.1) _ _).trans (Function.update_of_ne (Ne.symm h.2) _ _)
  | sync => rfl

theorem Dir.foldl_of_avoids {ws : List Write} {dir : Dir} {e : Entry} (h : ∀ w ∈ ws, w.avoids e = true) :
    ws.foldl Dir.apply dir e = dir e := by
  induction ws generalizing dir with
  | nil => rfl
  | cons w ws ih =>
    rw [List.foldl_cons, ih fun w' hw' => h w' (by simp [hw'])]
    exact Dir.apply_of_avoids (h w (by simp))

/-- Attempts do not touch the marker while they build. -/
theorem Attempt.writes_avoid_creating (a : Attempt) : ∀ w ∈ a.writes, w.avoids .creating = true := by
  have hinitial : ∀ w ∈ a.initial, w.avoids .creating = true := by
    simp [Attempt.initial, writeFile, Write.avoids]
  have hrest : ∀ w ∈ a.rest.1, w.avoids .creating = true := by
    cases a with
    | create spec state edit =>
      cases edit with
      | none => simp [Attempt.rest]
      | some edit => simp [Attempt.rest, writeFile, Write.avoids]
    | clone spec state source freshDisk =>
      cases hdisk : cloneDisk source freshDisk with
      | error e => simp [Attempt.rest, hdisk]
      | ok disk =>
        cases disk with
        | none => simp [Attempt.rest, hdisk]
        | some disk => simp [Attempt.rest, hdisk, Write.avoids]
  intro w hw
  rcases List.mem_append.mp hw with hw | hw
  · exact hinitial w hw
  · exact hrest w hw

/-- The marker is there while an attempt builds. -/
theorem creating_building {a : Attempt} {done todo : List Write} (h : done ++ todo = a.writes) :
    done.foldl Dir.apply .marked .creating = some .marker := by
  rw [Dir.foldl_of_avoids fun w hw => a.writes_avoid_creating w (by simp [← h, hw])]
  rfl

/-- A clone of a disk that succeeds has its own copy. -/
theorem published_clone {a : Attempt} (hok : a.result = .ok ()) {spec state : Bytes} {source : CloneSource} {disk : Bytes}
    (ha : a = .clone spec state source false) (hdisk : source.disk = some disk) :
    ∃ image, a.published .disk = some (.disk (.copyOf disk image)) := by
  subst ha
  cases himage : source.image with
  | none =>
    have hconflict : (cloneDisk source false).isOk = false := by simp [cloneDisk, himage, hdisk, Except.isOk, Except.toBool]
    rw [Attempt.result, Attempt.rest] at hok
    cases hclone : cloneDisk source false with
    | error e =>
      rw [hclone] at hok
      cases hok
    | ok d =>
      rw [hclone] at hconflict
      cases hconflict
  | some image =>
    have hclone : cloneDisk source false = .ok (some (.copyOf disk image)) := by simp [cloneDisk, himage, hdisk]
    refine ⟨image, ?_⟩
    simp [Attempt.published, Attempt.writes, Attempt.initial, Attempt.rest, hclone, writeFile, Dir.apply]

/-! ## What holds in every run -/

/-- All writes of `a` are made, and the marker is still there. -/
structure Built (s : Sys) (a : Attempt) : Prop where
  builder : s.builder = some (a, a.writes)
  result : a.result = .ok ()
  dir : s.dir = a.writes.foldl Dir.apply .marked

structure Finished (s : Sys) (a : Attempt) : Prop where
  builder : s.builder = some (a, a.writes)
  result : a.result = .ok ()
  dir : s.dir = a.published

/-- The directory while nobody works on it. -/
def Idle (s : Sys) : Prop :=
  s.dir = .empty ∨ (∃ a, Finished s a) ∨ (∃ a, Built s a) ∨ s.dir .creating = some .marker ∧ s.dir.complete = false

/-- The directory in each phase of an attempt. -/
def Working (s : Sys) (a : Attempt) : Phase → Prop
  | .clearing rest => s.dir .creating = some .marker ∧ s.dir.complete = false ∧ .creating ∉ rest ∧
      ∀ e, e ≠ .creating → e ∉ rest → s.dir e = none
  | .marking => s.dir = .empty
  | .building todo => ∃ done, done ++ todo = a.writes ∧ s.builder = some (a, done) ∧ s.dir = done.foldl Dir.apply .marked
  | .publishing => Built s a
  | .finalizing => ∃ b, Built s b

def Inv (s : Sys) : Prop :=
  match s.active with
  | none => Idle s
  | some (a, phase) => Working s a phase

theorem Built.creating {s : Sys} {a : Attempt} (h : Built s a) : s.dir .creating = some .marker := by
  rw [h.dir]
  exact creating_building (List.append_nil _)

theorem Built.finish {s : Sys} {a : Attempt} (h : Built s a) :
    Finished { s with dir := s.dir.apply (.unlink .creating), active := none } a :=
  ⟨h.builder, h.result, by rw [h.dir]; rfl⟩

/-- An unlink makes no directory complete. -/
theorem complete_unlink {dir : Dir} (h : dir.complete = false) (e : Entry) : (dir.apply (.unlink e)).complete = false := by
  simp only [Dir.complete, Dir.apply, Function.update_apply] at h ⊢
  split <;> split <;> simp_all

theorem inv_prepare {s s' : Sys} {a : Attempt} {order : List Entry} (hactive : s.active = none) (h : Idle s)
    (hs : prepare s a order = some s') : Inv s' := by
  have hsame : Inv s := by rwa [Inv, hactive]
  unfold prepare at hs
  split at hs
  · rename_i hcomplete
    split at hs
    · rename_i hmarker
      cases hs
      rcases h with hempty | ⟨b, hb⟩ | ⟨b, hb⟩ | ⟨-, hnot⟩
      · rw [hempty] at hmarker
        cases hmarker
      · rw [hb.dir, Attempt.published] at hmarker
        simp [Dir.apply] at hmarker
      · exact ⟨b, hb.builder, hb.result, hb.dir⟩
      · rw [hcomplete] at hnot
        cases hnot
    · cases hs
      exact hsame
  · rename_i hcomplete
    have hnot : s.dir.complete = false := by simpa using hcomplete
    split at hs
    · rename_i hmarker
      split at hs
      · rename_i horder
        cases hs
        have hcreating : s.dir .creating = some .marker := by
          rcases h with hempty | ⟨b, hb⟩ | ⟨b, hb⟩ | ⟨hcreating, -⟩
          · rw [hempty] at hmarker
            cases hmarker
          · rw [hb.dir, Attempt.published] at hmarker
            simp [Dir.apply] at hmarker
          · exact hb.creating
          · exact hcreating
        refine ⟨hcreating, hnot, horder.1, fun e he hmem => ?_⟩
        exact absurd ((horder.2 e (Entry.mem_all e)).resolve_left he) hmem
      · cases hs
    · split at hs
      · cases hs
        exact hsame
      · rename_i hany
        cases hs
        funext e
        have hnone := fun hsome => hany (List.any_eq_true.mpr ⟨e, Entry.mem_all e, hsome⟩)
        simpa [Dir.empty] using hnone

theorem inv_advance {s s' : Sys} (h : Inv s) (hs : step s .advance = some s') : Inv s' := by
  cases hactive : s.active with
  | none => simp [step, hactive] at hs
  | some x =>
    obtain ⟨a, phase⟩ := x
    rw [Inv, hactive] at h
    cases phase with
    | clearing rest =>
      obtain ⟨hcreating, hnot, hmem, hgone⟩ := h
      cases rest with
      | cons e rest =>
        simp only [step, hactive] at hs
        cases hs
        have hne : Entry.creating ≠ e := fun heq => hmem (by simp [heq])
        refine ⟨?_, complete_unlink hnot e, fun hrest => hmem (by simp [hrest]), fun e' he' hrest => ?_⟩
        · exact (Function.update_of_ne hne _ _).trans hcreating
        · by_cases heq : e' = e
          · subst heq
            exact Function.update_self ..
          · exact (Function.update_of_ne heq _ _).trans (hgone e' he' (by simp [heq, hrest]))
      | nil =>
        simp only [step, hactive] at hs
        cases hs
        refine ⟨[], rfl, rfl, ?_⟩
        funext e
        by_cases he : e = .creating
        · subst he
          exact hcreating
        · rw [hgone e he (by simp)]
          simp [Dir.marked, Dir.empty, he]
    | marking =>
      simp only [step, hactive] at hs
      cases hs
      refine ⟨[], rfl, rfl, ?_⟩
      have hdir : s.dir = .empty := h
      simp [hdir, Dir.apply, Dir.marked]
    | building todo =>
      obtain ⟨done, hdone, hbuilder, hdir⟩ := h
      cases todo with
      | cons w todo =>
        simp only [step, hactive] at hs
        cases hs
        refine ⟨done ++ [w], by simp [← hdone], by simp [hbuilder], ?_⟩
        simp [hdir]
      | nil =>
        rw [List.append_nil] at hdone
        simp only [step, hactive] at hs
        split at hs
        · rename_i u hresult
          cases hs
          exact ⟨by rw [hbuilder, hdone], hresult, by rw [hdir, hdone]⟩
        · cases hs
    | publishing =>
      simp only [step, hactive] at hs
      cases hs
      exact .inr (.inl ⟨a, Built.finish h⟩)
    | finalizing =>
      obtain ⟨b, hb⟩ := h
      simp only [step, hactive] at hs
      cases hs
      exact .inr (.inl ⟨b, hb.finish⟩)

/-- A directory without a state is not complete. -/
theorem complete_of_state_none {dir : Dir} (h : dir .state = none) : dir.complete = false := by
  simp [Dir.complete, h]

theorem cleanup_creating (phase : Phase) : .creating ∉ cleanup phase := by
  unfold cleanup
  split
  · simp
  · split <;> simp
  · simp

/-- Cleaning up removes no marker and makes no state. -/
theorem foldl_unlink {es : List Entry} {dir : Dir} {e : Entry} (h : e ∉ es ∨ dir e = none) :
    es.foldl (fun dir e => dir.apply (.unlink e)) dir e = dir e := by
  induction es generalizing dir with
  | nil => rfl
  | cons e' es ih =>
    rw [List.foldl_cons]
    have happly : dir.apply (.unlink e') e = dir e := by
      by_cases heq : e = e'
      · subst heq
        rw [h.resolve_left (by simp)]
        exact Function.update_self ..
      · exact Function.update_of_ne heq _ _
    rw [ih (h.imp (fun hmem hes => hmem (by simp [hes])) happly.trans), happly]

/-- An attempt that stops, with what it removes on its way out, leaves a directory that the next one can take up. -/
theorem idle_stop {s : Sys} {a : Attempt} {phase : Phase} (es : List Entry) (h : Working s a phase)
    (hok : ∀ todo, phase = .building todo → s.dir .state = none ∨ todo = [] ∧ a.result = .ok ())
    (hes : es = [] ∨ es = cleanup phase) :
    Idle { s with dir := es.foldl (fun dir e => dir.apply (.unlink e)) s.dir, active := none } := by
  -- Outside the building nothing is removed.
  have hnone : (∀ todo, phase ≠ .building todo) → es = [] := by
    intro hphase
    rcases hes with rfl | rfl
    · rfl
    · cases phase with
      | building todo => exact absurd rfl (hphase todo)
      | _ => rfl
  cases phase with
  | clearing rest =>
    obtain ⟨hcreating, hnot, -, -⟩ := h
    rw [hnone (by simp)]
    exact .inr (.inr (.inr ⟨hcreating, hnot⟩))
  | marking =>
    rw [hnone (by simp)]
    exact .inl h
  | building todo =>
    obtain ⟨done, hdone, hbuilder, hdir⟩ := h
    have hcreating : s.dir .creating = some .marker := by rw [hdir, creating_building hdone]
    rcases hok todo rfl with hstate | ⟨rfl, hresult⟩
    · refine .inr (.inr (.inr ⟨?_, complete_of_state_none ?_⟩))
      · refine (foldl_unlink (.inl ?_)).trans hcreating
        rcases hes with rfl | rfl
        · simp
        · exact cleanup_creating _
      · exact (foldl_unlink (.inr hstate)).trans hstate
    · rw [List.append_nil] at hdone
      have hempty : es = [] := hes.elim id id
      refine .inr (.inr (.inl ⟨a, ?_, hresult, ?_⟩))
      · rw [← hdone]
        exact hbuilder
      · rw [← hdone, hempty]
        exact hdir
  | publishing =>
    obtain ⟨hbuilder, hresult, hdir⟩ : Built s a := h
    rw [hnone (by simp)]
    exact .inr (.inr (.inl ⟨a, hbuilder, hresult, hdir⟩))
  | finalizing =>
    obtain ⟨b, hb⟩ := h
    rw [hnone (by simp)]
    exact .inr (.inr (.inl ⟨b, hb.builder, hb.result, hb.dir⟩))

theorem Inv.step {s s' : Sys} {event : Event} (h : Inv s) (hok : Uninterrupted s event)
    (hs : step s event = some s') : Inv s' := by
  cases event with
  | «begin» a order =>
    cases hactive : s.active with
    | some x => simp [Creation.step, hactive] at hs
    | none =>
      rw [Inv, hactive] at h
      rw [Creation.step, hactive] at hs
      exact inv_prepare hactive h hs
  | advance => exact inv_advance h hs
  | crash =>
    cases hs
    cases hactive : s.active with
    | none =>
      have hsame : { s with active := none } = s := by rw [← hactive]
      rwa [hsame]
    | some x =>
      obtain ⟨a, phase⟩ := x
      rw [Inv, hactive] at h
      exact idle_stop [] h (fun todo hphase => hok (.inl rfl) a todo (by rw [hactive, hphase])) (.inl rfl)
  | error =>
    cases hactive : s.active with
    | none => simp [Creation.step, hactive] at hs
    | some x =>
      obtain ⟨a, phase⟩ := x
      rw [Inv, hactive] at h
      rw [Creation.step, hactive] at hs
      cases hs
      exact idle_stop _ h (fun todo hphase => hok (.inr rfl) a todo (by rw [hactive, hphase])) (.inr rfl)

theorem Inv.published {s : Sys} (h : Inv s) : Published s := by
  intro hcreating hspec _
  have hnot : s.dir .creating ≠ some .marker := by simp [hcreating]
  have hne : s.dir ≠ .empty := by
    intro hempty
    rw [hempty] at hspec
    cases hspec
  have hfinished : ∃ a, Finished s a := by
    cases hactive : s.active with
    | none =>
      rw [Inv, hactive] at h
      rcases h with hempty | hfinished | ⟨b, hb⟩ | ⟨hmarker, -⟩
      · exact absurd hempty hne
      · exact hfinished
      · exact absurd hb.creating hnot
      · exact absurd hmarker hnot
    | some x =>
      obtain ⟨a, phase⟩ := x
      rw [Inv, hactive] at h
      cases phase with
      | clearing rest => exact absurd h.1 hnot
      | marking => exact absurd h hne
      | building todo =>
        obtain ⟨done, hdone, -, hdir⟩ := h
        exact absurd (by rw [hdir, creating_building hdone]) hnot
      | publishing => exact absurd (Built.creating h) hnot
      | finalizing =>
        obtain ⟨b, hb⟩ := h
        exact absurd hb.creating hnot
  obtain ⟨a, ha⟩ := hfinished
  refine ⟨a, ha.builder, ha.result, ha.dir, fun spec state source disk hclone hdisk => ?_⟩
  rw [ha.dir]
  exact published_clone ha.result hclone hdisk

/-- **A machine is published only when it is complete**, in every run in which no attempt stops between its state and the
last of its writes. -/
theorem reachable_published {s : Sys} (h : Reachable step Uninterrupted Initial s) : Published s := by
  have hinv : Inv s := h.invariant (fun _ hinit => by rw [hinit]; exact .inl rfl) fun _ _ _ hi hok hs => hi.step hok hs
  exact hinv.published

/-! ## A clone that is interrupted -/

def sampleSource : CloneSource := ⟨"web", some (bytes "overlay"), some "ubuntu-24.04-abc", 20⟩

def sampleClone : Attempt := .clone (bytes "cpus = 2\n") (bytes "\x7b\"status\": \"created\"\x7d") sampleSource false

def sampleCreate : Attempt := .create (bytes "cpus = 4\n") (bytes "\x7b\"status\": \"created\"\x7d") none

def sampleStart : Sys := ⟨.empty, none, none⟩

theorem sampleStart_initial : Initial sampleStart := rfl

/-- The entries in the order of `Entry.all`, without the marker. -/
def sampleOrder : List Entry := Entry.all.tail

def uninterruptedCheck (s : Sys) (event : Event) : Bool :=
  match s.active with
  | some (a, .building todo) =>
    !(event == .crash || event == .error) || (s.dir .state).isNone || (todo == [] && a.result.isOk)
  | _ => true

theorem uninterrupted_of_check (s : Sys) (event : Event) (h : uninterruptedCheck s event = true) :
    Uninterrupted s event := by
  intro hstop a todo hactive
  have hevent : (event == .crash || event == .error) = true := by rcases hstop with rfl | rfl <;> rfl
  simp only [uninterruptedCheck, hactive, hevent, Bool.not_true, Bool.false_or, Bool.or_eq_true, Bool.and_eq_true,
    beq_iff_eq, Option.isNone_iff_eq_none] at h
  exact h.imp_right fun ⟨htodo, hresult⟩ => ⟨htodo, (Res.exists_ok hresult).elim fun u hu => hu⟩

/-- The clone crashes before it has written the state, and is made again. -/
def retriedRun : List Event :=
  .begin sampleClone [] :: List.replicate 5 .advance ++ .crash :: .begin sampleClone sampleOrder ::
    List.replicate 21 .advance

theorem reachable_published_retried : ∃ s, Reachable step Uninterrupted Initial s ∧ s.dir .creating = none ∧
    (s.dir .state).isSome = true ∧ Published s := by
  have hrun : (run step sampleStart retriedRun).any
      (fun s => (s.dir .creating).isNone && (s.dir .state).isSome) = true := by
    decide
  obtain ⟨s, hs, hcheck⟩ := (Option.any_eq_true _ _).mp hrun
  have hmeet : StepsMeet step Uninterrupted sampleStart retriedRun := .of_checks uninterrupted_of_check (by decide)
  have hr := (Reachable.start sampleStart_initial).run hmeet hs
  simp only [Bool.and_eq_true, Option.isNone_iff_eq_none] at hcheck
  exact ⟨s, hr, hcheck.1, hcheck.2, reachable_published hr⟩

/-- The clone crashes before its overlay, and the next attempt finds spec and state and removes the marker. -/
def interruptedRun : List Event :=
  .begin sampleClone [] :: List.replicate 7 .advance ++ [.crash, .begin sampleCreate [], .advance]

theorem clone_without_disk : ¬ ∀ s, Reachable step anyStep Initial s → Published s := by
  intro h
  have hrun : (run step sampleStart interruptedRun).any (fun s => (s.dir .creating).isNone && (s.dir .spec).isSome &&
      (s.dir .state).isSome && (s.dir .disk).isNone && s.builder == some (sampleClone, sampleClone.initial)) = true := by
    decide
  obtain ⟨s, hs, hcheck⟩ := (Option.any_eq_true _ _).mp hrun
  simp only [Bool.and_eq_true, Option.isNone_iff_eq_none, beq_iff_eq] at hcheck
  obtain ⟨⟨⟨⟨hcreating, hspec⟩, hstate⟩, -⟩, hbuilder⟩ := hcheck
  obtain ⟨a, ha, -⟩ := h s (reachable_of_run sampleStart_initial hs) hcreating hspec hstate
  rw [hbuilder] at ha
  obtain ⟨rfl, hwrites⟩ := Prod.mk.inj (Option.some.inj ha)
  revert hwrites
  decide

end Firestone.Machine.Creation
