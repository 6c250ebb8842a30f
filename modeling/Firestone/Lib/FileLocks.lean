import Mathlib.Logic.Function.Basic
import Mathlib.Tactic.Common

/-!
# Advisory locks on files

Parties open the file that a lock path names and then lock the open file, as `flock` does. A lock is on the file that
was opened, not on the path.

* `FileLocks` — the files the paths name, what each party has open, and who holds which file.
* `Sound` — every open file is the one its path still names. Then a lock excludes (`Sound.exclusive`). Each operation
  keeps it; a path is forgotten only while nobody has its file open (`Sound.forget`).
* `Follows` — a program keeps a discipline: each instruction finds its precondition in the frame that the ones before it
  leave, and the last one leaves the idle frame.
-/

namespace Firestone.Lib

universe u v

/-! ## Locks -/

/-- The lock files of parties `P` under paths `L`. -/
structure FileLocks (P : Type u) (L : Type v) where
  /-- The file a path names. -/
  path : L → Option Nat
  opened : P → L → Option Nat
  locked : P → L → Bool
  holder : Nat → Option P
  /-- The next free file. -/
  next : Nat

namespace FileLocks

variable {P : Type u} {L : Type v}

/-- Nobody holds the lock. -/
def Free (k : FileLocks P L) (l : L) : Prop := ∀ p, k.locked p l = false

/-- Nobody has the lock file open. -/
def Closed (k : FileLocks P L) (l : L) : Prop := ∀ p, k.opened p l = none

/-- Every open lock file is the one its path names, and a party that has a lock is its holder. -/
structure Sound (k : FileLocks P L) : Prop where
  current : ∀ p l i, k.opened p l = some i → k.path l = some i
  held : ∀ p l, k.locked p l = true → ∃ i, k.opened p l = some i ∧ k.holder i = some p
  apart : ∀ l l' i, k.path l = some i → k.path l' = some i → l = l'
  fresh : ∀ l i, k.path l = some i → i < k.next

/-- **A lock excludes.** -/
theorem Sound.exclusive {k : FileLocks P L} {p q : P} {l : L} (h : k.Sound) (hp : k.locked p l = true)
    (hq : k.locked q l = true) : p = q := by
  obtain ⟨i, hpo, hph⟩ := h.held p l hp
  obtain ⟨j, hqo, hqh⟩ := h.held q l hq
  have hi := h.current p l i hpo
  have hj := h.current q l j hqo
  rw [hi] at hj
  cases hj
  rw [hph] at hqh
  exact Option.some.inj hqh

section parties

variable [DecidableEq P]

/-- A party ends: all its files are closed. -/
def closeAll (k : FileLocks P L) (p : P) : FileLocks P L :=
  { k with
    opened := Function.update k.opened p fun _ => none
    locked := Function.update k.locked p fun _ => false
    holder := fun i => if k.holder i = some p then none else k.holder i }

theorem Sound.closeAll {k : FileLocks P L} (h : k.Sound) (p : P) : (k.closeAll p).Sound := by
  refine ⟨fun q m i hi => ?_, fun q m hm => ?_, h.apart, h.fresh⟩
  · by_cases hq : q = p
    · subst hq
      simp [FileLocks.closeAll] at hi
    · exact h.current q m i (by simpa [FileLocks.closeAll, hq] using hi)
  · by_cases hq : q = p
    · subst hq
      simp [FileLocks.closeAll] at hm
    · obtain ⟨i, hi, hh⟩ := h.held q m (by simpa [FileLocks.closeAll, hq] using hm)
      refine ⟨i, by simpa [FileLocks.closeAll, hq] using hi, ?_⟩
      simp [FileLocks.closeAll, hh, hq]

end parties

section paths

variable [DecidableEq L] {k : FileLocks P L} {l : L}

/-- The path names a new file, if it names none. -/
def create (k : FileLocks P L) (l : L) : FileLocks P L :=
  match k.path l with
  | some _ => k
  | none => { k with path := Function.update k.path l (some k.next), next := k.next + 1 }

/-- The file is unlinked. -/
def forget (k : FileLocks P L) (l : L) : FileLocks P L := { k with path := Function.update k.path l none }

theorem create_of_path {i : Nat} (h : k.path l = some i) : k.create l = k := by
  unfold create
  rw [h]

theorem Sound.create (h : k.Sound) (l : L) : (k.create l).Sound := by
  cases hl : k.path l with
  | some i =>
    rw [create_of_path hl]
    exact h
  | none =>
    have heq : k.create l = { k with path := Function.update k.path l (some k.next), next := k.next + 1 } := by
      simp only [FileLocks.create, hl]
    rw [heq]
    refine ⟨fun p m i hi => ?_, h.held, fun m m' i hm hm' => ?_, fun m i hm => ?_⟩
    · -- Nobody has the new file open, since its path named none.
      have hpath := h.current p m i hi
      have hne : m ≠ l := by
        rintro rfl
        rw [hl] at hpath
        cases hpath
      simpa [Function.update_of_ne hne] using hpath
    · simp only [Function.update_apply] at hm hm'
      split at hm <;> split at hm'
      · simp_all
      · cases hm
        exact absurd (h.fresh m' _ hm') (Nat.lt_irrefl _)
      · cases hm'
        exact absurd (h.fresh m _ hm) (Nat.lt_irrefl _)
      · exact h.apart m m' i hm hm'
    · simp only [Function.update_apply] at hm
      split at hm
      · cases hm
        exact Nat.lt_succ_self _
      · exact Nat.lt_succ_of_lt (h.fresh m i hm)

/-- A lock file may go while nobody has it open. -/
theorem Sound.forget (h : k.Sound) (hl : k.Closed l) : (k.forget l).Sound := by
  have hne : ∀ m i, (k.forget l).path m = some i → k.path m = some i := by
    intro m i hi
    by_cases hml : m = l
    · subst hml
      simp [FileLocks.forget] at hi
    · simpa [FileLocks.forget, hml] using hi
  refine ⟨fun q m i hi => ?_, h.held, fun m m' i hm hm' => h.apart m m' i (hne m i hm) (hne m' i hm'),
    fun m i hm => h.fresh m i (hne m i hm)⟩
  have hml : m ≠ l := by
    rintro rfl
    exact absurd hi (by rw [show (k.forget m).opened q m = none from hl q]; simp)
  have hpath := h.current q m i hi
  simpa [FileLocks.forget, Function.update_of_ne hml] using hpath

end paths

section files

variable [DecidableEq P] [DecidableEq L]

/-- `OpenOptions::create(true).open(path)`. -/
def openFile (k : FileLocks P L) (p : P) (l : L) : FileLocks P L :=
  let k := k.create l
  { k with opened := Function.update k.opened p (Function.update (k.opened p) l (k.path l)) }

/-- One non-blocking `flock` of the open file. -/
def tryLock (k : FileLocks P L) (p : P) (l : L) : Option (FileLocks P L) :=
  match k.opened p l with
  | none => none
  | some i =>
    if k.holder i = none then
      some { k with
        locked := Function.update k.locked p (Function.update (k.locked p) l true)
        holder := Function.update k.holder i (some p) }
    else none

/-- Closing the file drops the lock on it. -/
def close (k : FileLocks P L) (p : P) (l : L) : FileLocks P L :=
  { k with
    opened := Function.update k.opened p (Function.update (k.opened p) l none)
    locked := Function.update k.locked p (Function.update (k.locked p) l false)
    holder := fun i => if k.locked p l = true ∧ k.opened p l = some i then none else k.holder i }

variable {k k' : FileLocks P L} {p : P} {l : L}

theorem openFile_locked (k : FileLocks P L) (p : P) (l : L) : (k.openFile p l).locked = k.locked := by
  unfold openFile create
  split <;> rfl

theorem Sound.openFile (h : k.Sound) (hl : k.locked p l = false) : (k.openFile p l).Sound := by
  have hc := h.create l
  have hlocked : (k.create l).locked p l = false := by
    unfold FileLocks.create
    split <;> exact hl
  refine ⟨fun q m i hi => ?_, fun q m hm => ?_, hc.apart, hc.fresh⟩
  · by_cases hq : q = p
    · subst hq
      by_cases hml : m = l
      · subst hml
        simpa [FileLocks.openFile] using hi
      · exact hc.current q m i (by simpa [FileLocks.openFile, hml] using hi)
    · exact hc.current q m i (by simpa [FileLocks.openFile, hq] using hi)
  · obtain ⟨i, hi, hh⟩ := hc.held q m hm
    refine ⟨i, ?_, hh⟩
    by_cases hq : q = p
    · subst hq
      have hml : m ≠ l := by
        rintro rfl
        rw [show (k.create m).locked q m = true from hm] at hlocked
        cases hlocked
      simpa [FileLocks.openFile, hml] using hi
    · simpa [FileLocks.openFile, hq] using hi

/-- A lock is taken on an open file that nobody holds. -/
theorem tryLock_cases (h : k.tryLock p l = some k') : ∃ i, k.opened p l = some i ∧ k.holder i = none ∧
    k' = { k with
      locked := Function.update k.locked p (Function.update (k.locked p) l true)
      holder := Function.update k.holder i (some p) } := by
  unfold tryLock at h
  split at h
  · cases h
  · rename_i i hi
    split at h
    · rename_i hfree
      cases h
      exact ⟨i, hi, hfree, rfl⟩
    · cases h

theorem Sound.tryLock (h : k.Sound) (hk : k.tryLock p l = some k') : k'.Sound := by
  obtain ⟨i, hi, hfree, rfl⟩ := tryLock_cases hk
  refine ⟨h.current, fun q m hm => ?_, h.apart, h.fresh⟩
  by_cases hpm : q = p ∧ m = l
  · obtain ⟨rfl, rfl⟩ := hpm
    exact ⟨i, hi, Function.update_self ..⟩
  · have hm' : k.locked q m = true := by
      by_cases hq : q = p
      · subst hq
        have hml : m ≠ l := fun hml => hpm ⟨rfl, hml⟩
        simpa [hml] using hm
      · simpa [hq] using hm
    obtain ⟨j, hj, hjh⟩ := h.held q m hm'
    have hji : j ≠ i := by
      rintro rfl
      rw [hfree] at hjh
      cases hjh
    exact ⟨j, hj, by simpa [Function.update_of_ne hji] using hjh⟩

theorem Sound.close (h : k.Sound) (p : P) (l : L) : (k.close p l).Sound := by
  have hsub : ∀ q m i, (k.close p l).opened q m = some i → k.opened q m = some i := by
    intro q m i hi
    by_cases hq : q = p
    · subst hq
      by_cases hml : m = l
      · subst hml
        simp [FileLocks.close] at hi
      · simpa [FileLocks.close, hml] using hi
    · simpa [FileLocks.close, hq] using hi
  refine ⟨fun q m i hi => h.current q m i (hsub q m i hi), fun q m hm => ?_, h.apart, h.fresh⟩
  by_cases hq : q = p
  · subst hq
    have hml : m ≠ l := by
      rintro rfl
      simp [FileLocks.close] at hm
    obtain ⟨i, hi, hh⟩ := h.held q m (by simpa [FileLocks.close, hml] using hm)
    refine ⟨i, by simpa [FileLocks.close, hml] using hi, ?_⟩
    have hne : ¬ (k.locked q l = true ∧ k.opened q l = some i) := fun hc =>
      hml (h.apart m l i (h.current q m i hi) (h.current q l i hc.2))
    simpa [FileLocks.close, hne] using hh
  · obtain ⟨i, hi, hh⟩ := h.held q m (by simpa [FileLocks.close, hq] using hm)
    refine ⟨i, by simpa [FileLocks.close, hq] using hi, ?_⟩
    have hne : ¬ (k.locked p l = true ∧ k.opened p l = some i) := by
      rintro ⟨hpl, hpo⟩
      obtain ⟨j, hj, hjh⟩ := h.held p l hpl
      rw [hpo] at hj
      cases hj
      rw [hh] at hjh
      exact hq (Option.some.inj hjh)
    simpa [FileLocks.close, hne] using hh

end files

end FileLocks

/-! ## Programs that keep a discipline -/

section discipline

variable {F : Type u} {I : Type v}

/-- Each instruction, with what follows it, meets its precondition in the frame it is reached with, and the program ends
in `idle`. -/
@[grind =] def Follows (pre : I → List I → F → Prop) (post : I → F → F) (idle : F) : F → List I → Prop
  | f, [] => f = idle
  | f, i :: is => pre i is f ∧ Follows pre post idle (post i f) is

end discipline

end Firestone.Lib
