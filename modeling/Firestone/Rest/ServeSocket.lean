import Firestone.Lib.FileLocks
import Firestone.Lib.Runs

/-!
# The socket of `serve`

Any number of `serve` processes publish a Unix socket in the runtime directory, under names of their own or under one name.
A process takes the serve lock, removes a socket that nobody listens on, binds its own, and removes it at its end.
Other programs make and remove directories there.

* `Pc`, `move` — `BoundSocket::bind` and `cleanup`, one system call at a time. Each may fail.
* `step` — all processes, any of which may be killed anywhere.
* `serving_published` — a process that serves is the only one, and its socket is the one its path names.
* `step_removes_stale` — a socket is removed only while nobody listens on it.
* `reachable_takeover` — after any crashes a process that runs alone gets to serve.
* `reachable_orderly` — without crashes and failures no socket is left behind.
-/

namespace Firestone.Rest.ServeSocket

open Firestone.Lib

/-! ## The runtime directory -/

/-- An entry of the runtime directory, as `fstatat` shows it. -/
structure Node where
  inode : Nat
  socket : Bool
  uid : Nat
  mode : Nat
  deriving DecidableEq, Repr

/-- What `bind` makes under the umask 0177. -/
def ownNode (uid inode : Nat) : Node := ⟨inode, true, uid, 0o600⟩

/-- `validate_existing_socket`. -/
def Node.safe (uid : Nat) (node : Node) : Bool := node.socket && node.uid == uid && node.mode == 0o600

/-- What a process does next. -/
inductive Pc where
  | idle
  /-- The lock file is open. -/
  | locking
  /-- The lock is held. -/
  | looking
  /-- There is a socket with this inode. -/
  | probing (inode : Nat)
  /-- Nobody has answered on it. -/
  | confirming (inode : Nat)
  | removing (inode : Nat)
  | syncing
  | binding
  /-- The listener is there. -/
  | bound
  /-- `BoundSocket` is there. -/
  | checking (inode : Nat)
  | serving (inode : Nat)
  /-- `cleanup` has dropped the listener. -/
  | closing (inode : Nat)
  | unlinking (inode : Nat)
  deriving DecidableEq, Repr

/-- The process has the serve lock. -/
def Pc.holds : Pc → Bool
  | .idle | .locking => false
  | _ => true

/-- The process has a listener. -/
def Pc.listens : Pc → Bool
  | .bound | .checking _ | .serving _ => true
  | _ => false

/-- The socket that the process has bound is still there. -/
def Pc.owns : Pc → Bool
  | .bound | .checking _ | .serving _ | .closing _ | .unlinking _ => true
  | _ => false

/-- How a system call goes. A `bind` gets the inode of its socket. -/
inductive Reply where
  | ok
  | inode (inode : Nat)
  | fails
  deriving DecidableEq, Repr

structure Sys (P : Type) where
  lock : FileLocks P Unit
  node : String → Option Node
  /-- The process that listens on the socket with this inode. -/
  listening : Nat → Option P
  pc : P → Pc

variable {P : Type}

section processes

variable [DecidableEq P]

namespace Sys

def go (s : Sys P) (p : P) (c : Pc) : Sys P := { s with pc := Function.update s.pc p c }

/-- The listener of the process is closed. -/
def dropListener (s : Sys P) (p : P) : Sys P :=
  { s with listening := fun i => if s.listening i = some p then none else s.listening i }

def mkdir (s : Sys P) (name : String) (node : Node) : Sys P :=
  { s with node := Function.update s.node name (some node) }

/-- The process lets go of everything, or is killed. -/
def quit (s : Sys P) (p : P) : Sys P := { s.dropListener p with lock := s.lock.closeAll p }.go p .idle

def relock (s : Sys P) (k : FileLocks P Unit) : Sys P := { s with lock := k }

/-- `unlinkat`, which does not remove directories. -/
def unlink (s : Sys P) (name : String) : Sys P := { s with node := Function.update s.node name none }

def bind (s : Sys P) (p : P) (name : String) (uid inode : Nat) : Sys P :=
  { s with
    node := Function.update s.node name (some (ownNode uid inode))
    listening := Function.update s.listening inode (some p) }

end Sys

/-! ## The processes -/

variable (name : P → String) (uid : Nat)

/-- The next system call of a process and what it does with the result. -/
def move (s : Sys P) (p : P) : Pc → Reply → Option (Sys P)
  | .idle, .ok => some ((s.relock (s.lock.openFile p ())).go p .locking)
  | .idle, .fails => some s
  | .locking, .ok =>
    match s.lock.tryLock p () with
    | some k => some ((s.relock k).go p .looking)
    | none => some (s.quit p)
  | .looking, .ok =>
    match s.node (name p) with
    | none => some (s.go p .binding)
    | some node => if node.safe uid then some (s.go p (.probing node.inode)) else some (s.quit p)
  | .probing inode, .ok =>
    -- `connect` follows the path: a refusal and a missing socket both pass for a stale one
    match s.node (name p) with
    | none => some (s.go p (.confirming inode))
    | some node => if (s.listening node.inode).isSome then some (s.quit p) else some (s.go p (.confirming inode))
  | .confirming inode, .ok =>
    match s.node (name p) with
    | none => some (s.quit p)
    | some node => if node.inode = inode then some (s.go p (.removing inode)) else some (s.quit p)
  | .removing _, .ok => some ((s.unlink (name p)).go p .syncing)
  | .syncing, .ok => some (s.go p .binding)
  | .binding, .inode inode =>
    -- the inode of a socket that is open is not used again
    if s.listening inode = none then
      if s.node (name p) = none then some ((s.bind p (name p) uid inode).go p .bound) else some (s.quit p)
    else none
  | .bound, .ok =>
    match s.node (name p) with
    | none => some (s.quit p)
    | some node => some (s.go p (.checking node.inode))
  | .checking inode, .ok => some (s.go p (.serving inode))
  | .checking inode, .fails => some ((s.dropListener p).go p (.closing inode))
  | .serving inode, .ok => some ((s.dropListener p).go p (.closing inode))
  | .closing inode, .ok =>
    match s.node (name p) with
    | none => some (s.quit p)
    | some node =>
      if node.inode = inode ∧ node.uid = uid ∧ node.socket = true then some (s.go p (.unlinking inode)) else some (s.quit p)
  | .unlinking _, .ok => some ((s.unlink (name p)).quit p)
  | _, .fails => some (s.quit p)
  | _, _ => none

inductive Act (P : Type) where
  | move (p : P) (r : Reply)
  | kill (p : P)
  /-- Another program makes a directory or removes one. -/
  | mkdir (n : String) (inode uid mode : Nat)
  | rmdir (n : String)

def step (s : Sys P) : Act P → Option (Sys P)
  | .move p r => move name uid s p (s.pc p) r
  | .kill p => some (s.quit p)
  | .mkdir n inode nodeUid mode =>
    match s.node n with
    | some _ => none
    | none => some (s.mkdir n ⟨inode, false, nodeUid, mode⟩)
  | .rmdir n =>
    match s.node n with
    | some node => if node.socket then none else some (s.unlink n)
    | none => none

end processes

/-- No process runs yet, and there is no socket. -/
structure Init (s : Sys P) : Prop where
  idle : ∀ p, s.pc p = .idle
  sound : s.lock.Sound
  unlocked : ∀ p, s.lock.locked p () = false
  free : ∀ i, s.lock.holder i = none
  silent : ∀ i, s.listening i = none
  noSocket : ∀ n node, s.node n = some node → node.socket = false

/-! ## The invariant -/

section invariant

variable {name : P → String} {uid : Nat} {s s' : Sys P} {p q : P}

/-- What a process may rely on. Nobody else changes it, since it has the lock. -/
def At (name : P → String) (uid : Nat) (s : Sys P) (p : P) : Pc → Prop
  | .idle | .locking | .looking | .syncing | .binding => True
  | .probing i => ∃ node, s.node (name p) = some node ∧ node.inode = i ∧ node.socket = true
  | .confirming i | .removing i =>
    s.listening i = none ∧ ∃ node, s.node (name p) = some node ∧ node.inode = i ∧ node.socket = true
  | .bound => ∃ i, s.listening i = some p
  | .checking i | .serving i => s.listening i = some p
  | .closing i | .unlinking i => s.listening i = none ∧ s.node (name p) = some (ownNode uid i)

structure Inv (name : P → String) (uid : Nat) (s : Sys P) : Prop where
  sound : s.lock.Sound
  holder : ∀ i p, s.lock.holder i = some p → s.lock.locked p () = true
  locked : ∀ p, s.lock.locked p () = (s.pc p).holds
  listens : ∀ i p, s.listening i = some p → (s.pc p).listens = true ∧ s.node (name p) = some (ownNode uid i)
  relies : ∀ p, At name uid s p (s.pc p)
  valid : ∀ n node, s.node n = some node → node.socket = true → node.safe uid = true

theorem Pc.holds_of_listens {c : Pc} (h : c.listens = true) : c.holds = true := by cases c <;> first | rfl | cases h

/-- A process that does not have the lock relies on nothing. -/
theorem at_of_not_holds {c : Pc} (h : c.holds = false) : At name uid s p c := by cases c <;> trivial

theorem Inv.exclusive (h : Inv name uid s) (hp : (s.pc p).holds = true) (hq : (s.pc q).holds = true) : p = q :=
  h.sound.exclusive ((h.locked p).trans hp) ((h.locked q).trans hq)

/-- Only the process that has the lock can listen. -/
theorem Inv.listener (h : Inv name uid s) {i : Nat} (hp : (s.pc p).holds = true) (hq : s.listening i = some q) : q = p :=
  h.exclusive (Pc.holds_of_listens (h.listens i q hq).1) hp

@[simp] theorem mkdir_node (n : String) (node : Node) : (s.mkdir n node).node = Function.update s.node n (some node) := rfl

@[simp] theorem unlink_node (n : String) : (s.unlink n).node = Function.update s.node n none := rfl

@[simp] theorem bind_node (n : String) (i : Nat) :
    (s.bind p n uid i).node = Function.update s.node n (some (ownNode uid i)) := rfl

@[simp] theorem bind_listening (n : String) (i : Nat) :
    (s.bind p n uid i).listening = Function.update s.listening i (some p) := rfl

theorem Inv.valid_unlink (h : Inv name uid s) {n m : String} {node : Node} (hm : (s.unlink n).node m = some node)
    (hsocket : node.socket = true) : node.safe uid = true := by
  by_cases hmn : m = n
  · subst hmn
    simp at hm
  · exact h.valid m node (by simpa [hmn] using hm) hsocket

variable [DecidableEq P]

@[simp] theorem go_node (c : Pc) : (s.go p c).node = s.node := rfl

@[simp] theorem go_listening (c : Pc) : (s.go p c).listening = s.listening := rfl

@[simp] theorem go_pc (c : Pc) : (s.go p c).pc p = c := Function.update_self ..

theorem go_pc_of_ne (c : Pc) (h : q ≠ p) : (s.go p c).pc q = s.pc q := Function.update_of_ne h ..

/-- A process that ends forgets where it was. -/
theorem go_quit (p : P) (c : Pc) : (s.go p c).quit p = s.quit p := by
  unfold Sys.quit Sys.go Sys.dropListener
  rw [Function.update_idem]

/-- The process that has the lock keeps it and changes the directory. -/
theorem Inv.turn {t : Sys P} (h : Inv name uid s) (hp : (s.pc p).holds = true) {c : Pc} (hc : c.holds = true)
    (hlock : t.lock = s.lock) (hpc : t.pc = s.pc)
    (hlistens : ∀ i q, t.listening i = some q → q = p ∧ c.listens = true ∧ t.node (name p) = some (ownNode uid i))
    (hat : At name uid t p c) (hvalid : ∀ n node, t.node n = some node → node.socket = true → node.safe uid = true) :
    Inv name uid (t.go p c) where
  sound := hlock ▸ h.sound
  holder i q hq := by
    have hq : s.lock.holder i = some q := hlock ▸ hq
    exact hlock ▸ h.holder i q hq
  locked q := by
    have hlocked : (t.go p c).lock.locked q () = s.lock.locked q () := by rw [← hlock]; rfl
    rw [hlocked]
    by_cases hq : q = p
    · subst hq
      rw [go_pc, hc, h.locked, hp]
    · rw [go_pc_of_ne c hq, hpc, h.locked]
  listens i q hq := by
    obtain ⟨rfl, hcl, hnode⟩ := hlistens i q hq
    exact ⟨by rwa [go_pc], hnode⟩
  relies q := by
    by_cases hq : q = p
    · subst hq
      rw [go_pc]
      exact hat
    · rw [go_pc_of_ne c hq, hpc]
      have hnot : (s.pc q).holds = false := by
        by_contra hholds
        exact hq (h.exclusive (by simpa using hholds) hp)
      exact at_of_not_holds hnot
  valid := hvalid

/-- A turn that leaves the directory and the listeners alone. -/
theorem Inv.goOn (h : Inv name uid s) (hp : (s.pc p).holds = true) {c : Pc} (hc : c.holds = true)
    (hlistens : (s.pc p).listens = true → c.listens = true) (hat : At name uid s p c) : Inv name uid (s.go p c) := by
  refine h.turn hp hc rfl rfl (fun i q hq => ?_) hat h.valid
  obtain rfl := h.listener hp hq
  exact ⟨rfl, hlistens (h.listens i q hq).1, (h.listens i q hq).2⟩

theorem dropListener_listening {i : Nat} (hq : (s.dropListener p).listening i = some q) :
    s.listening i = some q ∧ q ≠ p := by
  simp only [Sys.dropListener] at hq
  split at hq
  · cases hq
  · rename_i hne
    exact ⟨hq, fun h => hne (h ▸ hq)⟩

/-- A process that ends leaves the others what they rely on. -/
theorem At.quit {c : Pc} (hq : q ≠ p) (h : At name uid s q c) : At name uid (s.quit p) q c := by
  have hnone : ∀ i, s.listening i = none → (s.quit p).listening i = none := fun i hi => by
    simp [Sys.quit, Sys.dropListener, Sys.go, hi]
  have hsome : ∀ i, s.listening i = some q → (s.quit p).listening i = some q := fun i hi => by
    simp [Sys.quit, Sys.dropListener, Sys.go, hi, hq]
  cases c with
  | idle | locking | looking | syncing | binding => trivial
  | probing i => exact h
  | confirming i | removing i => exact ⟨hnone i h.1, h.2⟩
  | bound => exact h.imp hsome
  | checking i | serving i => exact hsome i h
  | closing i | unlinking i => exact ⟨hnone i h.1, h.2⟩

theorem Inv.quit (h : Inv name uid s) (p : P) : Inv name uid (s.quit p) where
  sound := h.sound.closeAll p
  holder i q hq := by
    have hne : q ≠ p := by
      rintro rfl
      simp [Sys.quit, Sys.go, FileLocks.closeAll] at hq
    have hq : s.lock.holder i = some q := by
      by_contra hnot
      simp only [Sys.quit, Sys.go, FileLocks.closeAll] at hq
      split at hq
      · cases hq
      · exact hnot hq
    simpa [Sys.quit, Sys.go, FileLocks.closeAll, hne] using h.holder i q hq
  locked q := by
    by_cases hq : q = p
    · subst hq
      simp [Sys.quit, FileLocks.closeAll, Pc.holds, Sys.go]
    · simpa [Sys.quit, Sys.go, Sys.dropListener, FileLocks.closeAll, hq] using h.locked q
  listens i q hq := by
    obtain ⟨hq, hne⟩ := dropListener_listening hq
    refine ⟨?_, (h.listens i q hq).2⟩
    rw [Sys.quit, go_pc_of_ne _ hne]
    exact (h.listens i q hq).1
  relies q := by
    by_cases hq : q = p
    · subst hq
      rw [Sys.quit, go_pc]
      trivial
    · have := (h.relies q).quit (p := p) hq
      rwa [Sys.quit, go_pc_of_ne _ hq]
  valid := h.valid

/-- The listener of the process that has the lock is closed, and nobody listens any more. -/
theorem Inv.silent (h : Inv name uid s) (hp : (s.pc p).holds = true) (i : Nat) : (s.dropListener p).listening i = none := by
  simp only [Sys.dropListener]
  split
  · rfl
  · rename_i hne
    cases hi : s.listening i with
    | none => rfl
    | some q => exact absurd (h.listener hp hi ▸ hi) hne

/-- The cleanup begins: the socket is still there. -/
theorem Inv.drop (h : Inv name uid s) {i : Nat} (hp : (s.pc p).holds = true) (hi : s.listening i = some p) :
    Inv name uid ((s.dropListener p).go p (.closing i)) :=
  h.turn hp rfl rfl rfl (fun j q hq => by rw [h.silent hp j] at hq; cases hq) ⟨h.silent hp i, (h.listens i p hi).2⟩ h.valid

/-- A stale socket is removed. -/
theorem Inv.remove (h : Inv name uid s) (hp : (s.pc p).holds = true) (hnot : (s.pc p).listens = false) :
    Inv name uid ((s.unlink (name p)).go p .syncing) := by
  refine h.turn hp rfl rfl rfl (fun i q hq => ?_) trivial fun _ _ => h.valid_unlink
  obtain rfl := h.listener hp hq
  exact absurd (h.listens i q hq).1 (by simp [hnot])

theorem Inv.bind (h : Inv name uid s) {i : Nat} (hp : (s.pc p).holds = true) (hnot : (s.pc p).listens = false) :
    Inv name uid ((s.bind p (name p) uid i).go p .bound) := by
  refine h.turn hp rfl rfl rfl (fun j q hq => ?_) ⟨i, Function.update_self ..⟩ fun n node hn hsocket => ?_
  · by_cases hj : j = i
    · subst hj
      rw [bind_listening, Function.update_self] at hq
      cases hq
      exact ⟨rfl, rfl, Function.update_self ..⟩
    · rw [bind_listening, Function.update_of_ne hj] at hq
      obtain rfl := h.listener hp hq
      exact absurd (h.listens j q hq).1 (by simp [hnot])
  · by_cases hname : n = name p
    · subst hname
      rw [bind_node, Function.update_self] at hn
      cases hn
      simp [Node.safe, ownNode]
    · exact h.valid n node (by simpa [hname] using hn) hsocket

/-- A process that does not have the lock changes what it holds of it. -/
theorem Inv.relock (h : Inv name uid s) (hp : (s.pc p).holds = false) {k : FileLocks P Unit} {c : Pc} (hsound : k.Sound)
    (hholder : ∀ i q, k.holder i = some q → k.locked q () = true)
    (hlocked : ∀ q, k.locked q () = if q = p then c.holds else s.lock.locked q ())
    (hat : At name uid (s.relock k) p c) : Inv name uid ((s.relock k).go p c) := by
  refine ⟨hsound, hholder, fun q => ?_, fun i q hq => ?_, fun q => ?_, h.valid⟩
  · rw [show ((s.relock k).go p c).lock = k from rfl, hlocked]
    by_cases hq : q = p
    · subst hq
      rw [if_pos rfl, go_pc]
    · rw [if_neg hq, go_pc_of_ne _ hq]
      exact h.locked q
  · have hlistens := h.listens i q hq
    have hne : q ≠ p := by
      rintro rfl
      rw [Pc.holds_of_listens hlistens.1] at hp
      cases hp
    exact ⟨by rw [go_pc_of_ne _ hne]; exact hlistens.1, hlistens.2⟩
  · by_cases hq : q = p
    · subst hq
      rw [go_pc]
      exact hat
    · rw [go_pc_of_ne _ hq]
      have := h.relies q
      show At name uid _ q (s.pc q)
      cases hc : s.pc q <;> rw [hc] at this <;> exact this

theorem Inv.openLock (h : Inv name uid s) (hp : s.pc p = .idle) :
    Inv name uid ((s.relock (s.lock.openFile p ())).go p .locking) := by
  have hunlocked : s.lock.locked p () = false := by rw [h.locked, hp]; rfl
  have hholder : (s.lock.openFile p ()).holder = s.lock.holder := by
    unfold FileLocks.openFile FileLocks.create
    split <;> rfl
  refine h.relock (by rw [hp]; rfl) (h.sound.openFile hunlocked) (fun i q hq => ?_) (fun q => ?_) trivial
  · rw [FileLocks.openFile_locked]
    exact h.holder i q (hholder ▸ hq)
  · rw [FileLocks.openFile_locked]
    split
    · rename_i hq
      rw [hq, hunlocked]
      rfl
    · rfl

theorem Inv.takeLock (h : Inv name uid s) (hp : s.pc p = .locking) {k : FileLocks P Unit}
    (hk : s.lock.tryLock p () = some k) : Inv name uid ((s.relock k).go p .looking) := by
  obtain ⟨i, hopen, hfree, hkeq⟩ := FileLocks.tryLock_cases hk
  have hlocked : ∀ q, k.locked q () = if q = p then true else s.lock.locked q () := fun q => by
    rw [hkeq]
    by_cases hq : q = p
    · subst hq
      simp
    · simp [hq]
  refine h.relock (by rw [hp]; rfl) (h.sound.tryLock hk) (fun j q hq => ?_) hlocked trivial
  rw [hlocked]
  split
  · rfl
  · rename_i hne
    rw [hkeq] at hq
    by_cases hj : j = i
    · subst hj
      simp only [Function.update_self, Option.some.injEq] at hq
      exact absurd hq.symm hne
    · exact h.holder j q (by simpa [hj] using hq)

/-! ## Steps -/

/-- What a move does. -/
inductive Moved (name : P → String) (uid : Nat) (s : Sys P) (p : P) (r : Reply) : Sys P → Prop where
  | stays : Moved name uid s p r s
  | opens (hc : s.pc p = .idle) : Moved name uid s p r ((s.relock (s.lock.openFile p ())).go p .locking)
  | locks {k : FileLocks P Unit} (hc : s.pc p = .locking) (hk : s.lock.tryLock p () = some k) :
    Moved name uid s p r ((s.relock k).go p .looking)
  | quits (howns : r = .fails ∨ (s.pc p).owns = false) : Moved name uid s p r (s.quit p)
  | goesOn {c : Pc} (hp : (s.pc p).holds = true) (hc : c.holds = true)
    (hlistens : (s.pc p).listens = true → c.listens = true) (howns : (s.pc p).owns = true → c.owns = true)
    (hat : At name uid s p c) : Moved name uid s p r (s.go p c)
  | removes {i : Nat} (hc : s.pc p = .removing i) : Moved name uid s p r ((s.unlink (name p)).go p .syncing)
  | binds {i : Nat} (hc : s.pc p = .binding) (hfree : s.node (name p) = none) :
    Moved name uid s p r ((s.bind p (name p) uid i).go p .bound)
  | drops {i : Nat} (hp : (s.pc p).holds = true) (hi : s.listening i = some p) :
    Moved name uid s p r ((s.dropListener p).go p (.closing i))
  | finishes {i : Nat} (hc : s.pc p = .unlinking i) : Moved name uid s p r ((s.unlink (name p)).quit p)

/-- Each place in the code, with what the process relies on there. -/
theorem Inv.moved {r : Reply} (h : Inv name uid s) (hmove : move name uid s p (s.pc p) r = some s') :
    Moved name uid s p r s' := by
  have hat := h.relies p
  cases hc : s.pc p with
  | idle =>
    rw [hc] at hmove
    cases r <;> simp only [move, Option.some.injEq, reduceCtorEq] at hmove <;> subst hmove
    · exact .opens hc
    · exact .stays
  | locking =>
    rw [hc] at hmove
    cases r <;> simp only [move, Option.some.injEq, reduceCtorEq] at hmove
    · split at hmove <;> cases hmove
      · exact .locks hc ‹_›
      · exact .quits (.inr (by rw [hc]; rfl))
    · subst hmove
      exact .quits (.inl rfl)
  | looking =>
    rw [hc] at hmove
    have hholds : (s.pc p).holds = true := by rw [hc]; rfl
    have howns : (s.pc p).owns = false := by rw [hc]; rfl
    cases r <;> simp only [move, Option.some.injEq, reduceCtorEq] at hmove
    · split at hmove
      · cases hmove
        exact .goesOn hholds rfl (by rw [hc]; nofun) (by rw [hc]; nofun) trivial
      · rename_i node hnode
        split at hmove <;> cases hmove
        · rename_i hsafe
          have hsocket : node.socket = true := by
            simp only [Node.safe, Bool.and_eq_true] at hsafe
            exact hsafe.1.1
          exact .goesOn hholds rfl (by rw [hc]; nofun) (by rw [hc]; nofun) ⟨node, hnode, rfl, hsocket⟩
        · exact .quits (.inr howns)
    · subst hmove
      exact .quits (.inl rfl)
  | probing i =>
    rw [hc] at hmove hat
    have hholds : (s.pc p).holds = true := by rw [hc]; rfl
    obtain ⟨node, hnode, rfl, hsocket⟩ := hat
    cases r <;> simp only [move, hnode, Option.some.injEq, reduceCtorEq] at hmove
    · split at hmove <;> cases hmove
      · exact .quits (.inr (by rw [hc]; rfl))
      · rename_i hsilent
        exact .goesOn hholds rfl (by rw [hc]; nofun) (by rw [hc]; nofun)
          ⟨by simpa using hsilent, node, hnode, rfl, hsocket⟩
    · subst hmove
      exact .quits (.inl rfl)
  | confirming i =>
    rw [hc] at hmove hat
    have howns : (s.pc p).owns = false := by rw [hc]; rfl
    cases r <;> simp only [move, Option.some.injEq, reduceCtorEq] at hmove
    · split at hmove
      · cases hmove
        exact .quits (.inr howns)
      · split at hmove <;> cases hmove
        · exact .goesOn (by rw [hc]; rfl) rfl (by rw [hc]; nofun) (by rw [hc]; nofun) hat
        · exact .quits (.inr howns)
    · subst hmove
      exact .quits (.inl rfl)
  | removing i =>
    rw [hc] at hmove
    cases r <;> simp only [move, Option.some.injEq, reduceCtorEq] at hmove <;> subst hmove
    · exact .removes hc
    · exact .quits (.inl rfl)
  | syncing =>
    rw [hc] at hmove
    cases r <;> simp only [move, Option.some.injEq, reduceCtorEq] at hmove <;> subst hmove
    · exact .goesOn (by rw [hc]; rfl) rfl (by rw [hc]; nofun) (by rw [hc]; nofun) trivial
    · exact .quits (.inl rfl)
  | binding =>
    rw [hc] at hmove
    cases r <;> simp only [move, Option.some.injEq, reduceCtorEq] at hmove
    · split at hmove
      · split at hmove <;> cases hmove
        · exact .binds hc ‹_›
        · exact .quits (.inr (by rw [hc]; rfl))
      · cases hmove
    · subst hmove
      exact .quits (.inl rfl)
  | bound =>
    -- the socket that was bound is still at its path
    rw [hc] at hmove hat
    obtain ⟨i, hi⟩ := hat
    have hnode := (h.listens i p hi).2
    cases r <;> simp only [move, hnode, Option.some.injEq, reduceCtorEq] at hmove <;> subst hmove
    · exact .goesOn (by rw [hc]; rfl) rfl (fun _ => rfl) (fun _ => rfl) hi
    · exact .quits (.inl rfl)
  | checking i =>
    rw [hc] at hmove hat
    cases r <;> simp only [move, Option.some.injEq, reduceCtorEq] at hmove <;> subst hmove
    · exact .goesOn (by rw [hc]; rfl) rfl (fun _ => rfl) (fun _ => rfl) hat
    · exact .drops (by rw [hc]; rfl) hat
  | serving i =>
    rw [hc] at hmove hat
    cases r <;> simp only [move, Option.some.injEq, reduceCtorEq] at hmove <;> subst hmove
    · exact .drops (by rw [hc]; rfl) hat
    · exact .quits (.inl rfl)
  | closing i =>
    rw [hc] at hmove hat
    cases r <;> simp only [move, hat.2, ownNode, and_self, if_true, Option.some.injEq, reduceCtorEq] at hmove <;>
      subst hmove
    · exact .goesOn (by rw [hc]; rfl) rfl (by rw [hc]; nofun) (fun _ => rfl) hat
    · exact .quits (.inl rfl)
  | unlinking i =>
    rw [hc] at hmove
    cases r <;> simp only [move, Option.some.injEq, reduceCtorEq] at hmove <;> subst hmove
    · exact .finishes hc
    · exact .quits (.inl rfl)

theorem move_inv {r : Reply} (h : Inv name uid s) (hmoved : Moved name uid s p r s') : Inv name uid s' := by
  cases hmoved with
  | stays => exact h
  | opens hc => exact h.openLock hc
  | locks hc hk => exact h.takeLock hc hk
  | quits => exact h.quit p
  | goesOn hp hc hlistens _ hat => exact h.goOn hp hc hlistens hat
  | removes hc => exact h.remove (by rw [hc]; rfl) (by rw [hc]; rfl)
  | binds hc => exact h.bind (by rw [hc]; rfl) (by rw [hc]; rfl)
  | drops hp hi => exact h.drop hp hi
  | finishes hc =>
    rw [← go_quit p .syncing]
    exact (h.remove (by rw [hc]; rfl) (by rw [hc]; rfl)).quit p

omit [DecidableEq P] in
/-- What other programs do to the directory leaves every socket where it is. -/
theorem Inv.withNode {f : String → Option Node} (h : Inv name uid s)
    (hkept : ∀ m x, s.node m = some x → x.socket = true → f m = some x)
    (hvalid : ∀ m x, f m = some x → x.socket = true → x.safe uid = true) : Inv name uid { s with node := f } := by
  refine ⟨h.sound, h.holder, h.locked, fun i q hq => ⟨(h.listens i q hq).1, hkept _ _ (h.listens i q hq).2 rfl⟩,
    fun q => ?_, hvalid⟩
  have := h.relies q
  show At name uid _ q (s.pc q)
  cases hc : s.pc q <;> rw [hc] at this
  case probing i =>
    obtain ⟨x, hx, hrest⟩ := this
    exact ⟨x, hkept _ _ hx hrest.2, hrest⟩
  case confirming i | removing i =>
    obtain ⟨hsilent, x, hx, hrest⟩ := this
    exact ⟨hsilent, x, hkept _ _ hx hrest.2, hrest⟩
  case closing i | unlinking i => exact ⟨this.1, hkept _ _ this.2 rfl⟩
  all_goals exact this

omit [DecidableEq P] in
theorem mkdir_inv {n : String} {node : Node} (h : Inv name uid s) (hfree : s.node n = none) (hdir : node.socket = false) :
    Inv name uid (s.mkdir n node) := by
  refine h.withNode (fun m x hx _ => ?_) fun m x hm hsocket => ?_
  · rw [Function.update_of_ne, hx]
    rintro rfl
    rw [hfree] at hx
    cases hx
  · by_cases hmn : m = n
    · subst hmn
      rw [Function.update_self] at hm
      cases hm
      rw [hdir] at hsocket
      cases hsocket
    · rw [Function.update_of_ne hmn] at hm
      exact h.valid m x hm hsocket

omit [DecidableEq P] in
theorem rmdir_inv {n : String} {node : Node} (h : Inv name uid s) (hn : s.node n = some node) (hdir : node.socket = false) :
    Inv name uid (s.unlink n) := by
  refine h.withNode (fun m x hx hsocket => ?_) fun _ _ => h.valid_unlink
  rw [Function.update_of_ne, hx]
  rintro rfl
  rw [hn] at hx
  cases hx
  rw [hdir] at hsocket
  cases hsocket

theorem step_inv {a : Act P} (h : Inv name uid s) (hstep : step name uid s a = some s') : Inv name uid s' := by
  cases a with
  | move p r => exact move_inv h (h.moved hstep)
  | kill p =>
    cases hstep
    exact h.quit p
  | mkdir n inode nodeUid mode =>
    simp only [step] at hstep
    split at hstep <;> cases hstep
    rename_i hfree
    exact mkdir_inv h hfree rfl
  | rmdir n =>
    simp only [step] at hstep
    split at hstep
    · rename_i node hn
      split at hstep <;> cases hstep
      rename_i hdir
      exact rmdir_inv h hn (by simpa using hdir)
    · cases hstep

omit [DecidableEq P] in
theorem Init.inv (h : Init s) : Inv name uid s where
  sound := h.sound
  holder i p hp := by rw [h.free] at hp; cases hp
  locked p := by rw [h.unlocked, h.idle]; rfl
  listens i p hp := by rw [h.silent] at hp; cases hp
  relies p := by rw [h.idle]; trivial
  valid n node hn hsocket := by rw [h.noSocket n node hn] at hsocket; cases hsocket

theorem reachable_inv (h : Reachable (step name uid) anyStep Init s) : Inv name uid s :=
  h.invariant (fun _ h => h.inv) fun _ _ _ h _ hstep => step_inv h hstep

/-- Whoever serves is the only process between taking and releasing the lock, listens on its socket, and its path names that
socket. So every client that connects to the path reaches it, and nobody takes its place. -/
theorem serving_published {i : Nat} (h : Reachable (step name uid) anyStep Init s) (hp : s.pc p = .serving i) :
    s.node (name p) = some (ownNode uid i) ∧ s.listening i = some p ∧ ∀ q, (s.pc q).holds = true → q = p := by
  have hinv := reachable_inv h
  have hi : s.listening i = some p := by
    have := hinv.relies p
    rwa [hp] at this
  exact ⟨(hinv.listens i p hi).2, hi, fun q hq => hinv.exclusive hq (by rw [hp]; rfl)⟩

/-! ## What happens to the sockets -/

/-- What a step can do to the directory. -/
theorem step_node {a : Act P} (h : Inv name uid s) (hstep : step name uid s a = some s') :
    s'.node = s.node ∨ (∃ n node, s.node n = none ∧ s'.node = Function.update s.node n (some node)) ∨
      (∃ p i, (s.pc p = .removing i ∨ s.pc p = .unlinking i) ∧ s'.node = Function.update s.node (name p) none) ∨
      ∃ n node, s.node n = some node ∧ node.socket = false ∧ s'.node = Function.update s.node n none := by
  cases a with
  | kill p =>
    cases hstep
    exact .inl rfl
  | mkdir n inode nodeUid mode =>
    simp only [step] at hstep
    split at hstep <;> cases hstep
    exact .inr (.inl ⟨n, _, ‹_›, rfl⟩)
  | rmdir n =>
    simp only [step] at hstep
    split at hstep
    · rename_i node hn
      split at hstep <;> cases hstep
      rename_i hdir
      exact .inr (.inr (.inr ⟨n, node, hn, by simpa using hdir, rfl⟩))
    · cases hstep
  | move p r =>
    cases h.moved hstep with
    | stays | opens | locks | quits | goesOn | drops => exact .inl rfl
    | removes hc => exact .inr (.inr (.inl ⟨p, _, .inl hc, rfl⟩))
    | binds _ hfree => exact .inr (.inl ⟨name p, _, hfree, rfl⟩)
    | finishes hc => exact .inr (.inr (.inl ⟨p, _, .inr hc, rfl⟩))

/-- A socket that is removed was stale: nobody listened on it. -/
theorem step_removes_stale {a : Act P} {n : String} {node : Node} (h : Reachable (step name uid) anyStep Init s)
    (hstep : step name uid s a = some s') (hn : s.node n = some node) (hsocket : node.socket = true)
    (hgone : s'.node n ≠ some node) : s.listening node.inode = none := by
  have hinv := reachable_inv h
  rcases step_node hinv hstep with hnode | ⟨m, x, hfree, hnode⟩ | ⟨p, i, hc, hnode⟩ | ⟨m, x, hm, hdir, hnode⟩
  · exact absurd (hnode ▸ hn) hgone
  · have hne : n ≠ m := by
      rintro rfl
      rw [hfree] at hn
      cases hn
    exact absurd (by rw [hnode, Function.update_of_ne hne, hn]) hgone
  · have hname : n = name p := by
      by_contra hne
      exact hgone (by rw [hnode, Function.update_of_ne hne, hn])
    subst hname
    have hat := hinv.relies p
    rcases hc with hc | hc
    · rw [hc] at hat
      obtain ⟨hsilent, x, hx, rfl, -⟩ := hat
      rw [hn] at hx
      cases hx
      exact hsilent
    · rw [hc] at hat
      obtain ⟨hsilent, hx⟩ := hat
      rw [hn] at hx
      cases hx
      exact hsilent
  · have hne : n ≠ m := by
      rintro rfl
      rw [hm] at hn
      cases hn
      rw [hdir] at hsocket
      cases hsocket
    exact absurd (by rw [hnode, Function.update_of_ne hne, hn]) hgone

/-! ## Orderly runs -/

/-- No process is killed and no system call fails. -/
def Orderly (_ : Sys P) : Act P → Prop
  | .kill _ => False
  | .move _ .fails => False
  | _ => True

/-- Every socket is that of a process which is still going to remove it. -/
def Owned (name : P → String) (s : Sys P) : Prop :=
  ∀ n node, s.node n = some node → node.socket = true → ∃ p, name p = n ∧ (s.pc p).owns = true

theorem Owned.turn {t : Sys P} {c : Pc} (h : Owned name s) (hnode : t.node = s.node) (hpc : t.pc = Function.update s.pc p c)
    (howns : (s.pc p).owns = true → c.owns = true) : Owned name t := by
  intro n node hn hsocket
  obtain ⟨q, hq, hqowns⟩ := h n node (hnode ▸ hn) hsocket
  refine ⟨q, hq, ?_⟩
  by_cases hqp : q = p
  · subst hqp
    rw [hpc, Function.update_self]
    exact howns hqowns
  · rw [hpc, Function.update_of_ne hqp]
    exact hqowns

/-- A process that owns nothing ends. -/
theorem Owned.quit (h : Owned name s) (howns : (s.pc p).owns = false) : Owned name (s.quit p) :=
  h.turn rfl rfl fun hp => by rw [howns] at hp; cases hp

/-- A process that goes on with what it owns. -/
theorem Owned.goOn {c : Pc} (h : Owned name s) (howns : (s.pc p).owns = true → c.owns = true) : Owned name (s.go p c) :=
  h.turn rfl rfl howns

/-- The socket of the process is removed, and the process is no longer on its way to remove it. -/
theorem Owned.unlink {t : Sys P} {c : Pc} (h : Owned name s) (hnode : t.node = Function.update s.node (name p) none)
    (hpc : t.pc = Function.update s.pc p c) : Owned name t := by
  intro n node hn hsocket
  have hne : n ≠ name p := by
    rintro rfl
    rw [hnode, Function.update_self] at hn
    cases hn
  rw [hnode, Function.update_of_ne hne] at hn
  obtain ⟨q, hq, hqowns⟩ := h n node hn hsocket
  have hqp : q ≠ p := by
    rintro rfl
    exact hne hq.symm
  exact ⟨q, hq, by rw [hpc, Function.update_of_ne hqp]; exact hqowns⟩

theorem Owned.bind {i : Nat} (h : Owned name s) : Owned name ((s.bind p (name p) uid i).go p .bound) := by
  intro n node hn hsocket
  by_cases hname : n = name p
  · exact ⟨p, hname.symm, by rw [go_pc]; rfl⟩
  · have hn : (s.bind p (name p) uid i).node n = some node := hn
    rw [bind_node, Function.update_of_ne hname] at hn
    obtain ⟨q, hq, hqowns⟩ := h n node hn hsocket
    have hqp : q ≠ p := by
      rintro rfl
      exact hname hq.symm
    exact ⟨q, hq, by rw [go_pc_of_ne _ hqp]; exact hqowns⟩

theorem move_owned {r : Reply} (h : Owned name s) (hr : r ≠ .fails) (hmoved : Moved name uid s p r s') :
    Owned name s' := by
  cases hmoved with
  | stays => exact h
  | opens hc | locks hc => exact h.turn rfl rfl (by rw [hc]; nofun)
  | quits howns => exact h.quit (howns.resolve_left hr)
  | goesOn _ _ _ howns => exact h.goOn howns
  | removes | finishes => exact h.unlink rfl rfl
  | binds => exact h.bind
  | drops => exact h.turn rfl rfl fun _ => rfl

theorem step_owned {a : Act P} (hinv : Inv name uid s) (h : Owned name s) (ha : Orderly s a)
    (hstep : step name uid s a = some s') : Owned name s' := by
  cases a with
  | kill p => cases ha
  | move p r => exact move_owned h (by rintro rfl; cases ha) (hinv.moved hstep)
  | mkdir n inode nodeUid mode =>
    simp only [step] at hstep
    split at hstep <;> cases hstep
    intro m x hm hsocket
    by_cases hmn : m = n
    · subst hmn
      rw [mkdir_node, Function.update_self] at hm
      cases hm
      cases hsocket
    · rw [mkdir_node, Function.update_of_ne hmn] at hm
      exact h m x hm hsocket
  | rmdir n =>
    simp only [step] at hstep
    split at hstep
    · split at hstep <;> cases hstep
      intro m x hm hsocket
      by_cases hmn : m = n
      · subst hmn
        simp at hm
      · rw [unlink_node, Function.update_of_ne hmn] at hm
        exact h m x hm hsocket
    · cases hstep

/-- Where no process is killed and nothing fails, every socket in the directory is one that a live process still removes. Once
no process has the lock, none is left. -/
theorem reachable_orderly (h : Reachable (step name uid) Orderly Init s) (hidle : ∀ p, (s.pc p).holds = false) {n : String}
    {node : Node} (hn : s.node n = some node) : node.socket = false := by
  have hboth : Inv name uid s ∧ Owned name s := by
    refine @Reachable.invariant (Sys P) (Act P) (step name uid) Orderly Init (fun s => Inv name uid s ∧ Owned name s)
      (fun s h => ⟨h.inv, fun n node hn hsocket => ?_⟩) (fun s a s' h ha hstep =>
        ⟨step_inv h.1 hstep, step_owned h.1 h.2 ha hstep⟩) s h
    rw [h.noSocket n node hn] at hsocket
    cases hsocket
  by_contra hsocket
  obtain ⟨p, -, howns⟩ := hboth.2 n node hn (by simpa using hsocket)
  have := hidle p
  cases hc : s.pc p <;> rw [hc] at this howns <;> cases howns <;> cases this

/-! ## Taking over -/

/-- The process goes on alone. -/
def Goes (name : P → String) (uid : Nat) (p : P) (s t : Sys P) : Prop :=
  ∃ replies : List Reply, run (step name uid) s (replies.map (Act.move p)) = some t

theorem Goes.refl (s : Sys P) : Goes name uid p s s := ⟨[], rfl⟩

theorem Goes.head {t u : Sys P} {r : Reply} (hmove : move name uid s p (s.pc p) r = some u) (h : Goes name uid p u t) :
    Goes name uid p s t := by
  obtain ⟨replies, hrun⟩ := h
  refine ⟨r :: replies, ?_⟩
  rw [List.map_cons, run, show step name uid s (.move p r) = some u from hmove]
  exact hrun

omit [DecidableEq P] in
theorem Inv.silent_of_idle (h : Inv name uid s) (hidle : ∀ q, s.pc q = .idle) (i : Nat) : s.listening i = none := by
  cases hi : s.listening i with
  | none => rfl
  | some q =>
    have := (h.listens i q hi).1
    rw [hidle q] at this
    cases this

/-- A lock that nobody has is taken. -/
theorem Inv.lockFree (h : Inv name uid s) (hidle : ∀ q, s.pc q = .idle) :
    ∃ k, (s.lock.openFile p ()).tryLock p () = some k := by
  have hholder : ∀ j, (s.lock.openFile p ()).holder j = none := fun j => by
    have hsame : (s.lock.openFile p ()).holder = s.lock.holder := by
      unfold FileLocks.openFile FileLocks.create
      split <;> rfl
    rw [hsame]
    cases hj : s.lock.holder j with
    | none => rfl
    | some q =>
      have := h.holder j q hj
      rw [h.locked, hidle q] at this
      cases this
  obtain ⟨j, hj⟩ : ∃ j, (s.lock.openFile p ()).opened p () = some j := by
    cases hpath : s.lock.path () with
    | some j => exact ⟨j, by simp [FileLocks.openFile, FileLocks.create, hpath]⟩
    | none => exact ⟨s.lock.next, by simp [FileLocks.openFile, FileLocks.create, hpath]⟩
  unfold FileLocks.tryLock
  rw [hj]
  dsimp only
  rw [if_pos (hholder j)]
  exact ⟨_, rfl⟩

/-- From a free name a process binds its socket and serves. -/
theorem goes_of_binding {i : Nat} (hc : s.pc p = .binding) (hfree : s.node (name p) = none)
    (hsilent : s.listening i = none) : ∃ t, Goes name uid p s t ∧ t.pc p = .serving i := by
  have hbound : move name uid s p (s.pc p) (.inode i) = some ((s.bind p (name p) uid i).go p .bound) := by
    rw [hc, move, if_pos hsilent, if_pos hfree]
  have hnode : ((s.bind p (name p) uid i).go p .bound).node (name p) = some (ownNode uid i) := Function.update_self ..
  have hchecking : move name uid ((s.bind p (name p) uid i).go p .bound) p (((s.bind p (name p) uid i).go p .bound).pc p) .ok =
      some (((s.bind p (name p) uid i).go p .bound).go p (.checking i)) := by
    rw [go_pc, move, hnode]
    rfl
  refine ⟨_, Goes.head hbound (Goes.head hchecking (Goes.head (r := .ok) (by rw [go_pc, move]) (Goes.refl _))), ?_⟩
  rw [go_pc]

/-- The process that has the lock removes a stale socket, and serves. -/
theorem goes_of_looking {i : Nat} (hc : s.pc p = .looking) (hsilent : ∀ i, s.listening i = none)
    (hsafe : ∀ node, s.node (name p) = some node → node.safe uid = true) :
    ∃ t, Goes name uid p s t ∧ t.pc p = .serving i := by
  cases hn : s.node (name p) with
  | none =>
    have hlook : move name uid s p (s.pc p) .ok = some (s.go p .binding) := by simp [hc, move, hn]
    obtain ⟨t, ht, hserving⟩ : ∃ t, Goes name uid p (s.go p .binding) t ∧ t.pc p = .serving i :=
      goes_of_binding (go_pc _) hn (hsilent i)
    exact ⟨t, Goes.head hlook ht, hserving⟩
  | some node =>
    have hlook : move name uid s p (s.pc p) .ok = some (s.go p (.probing node.inode)) := by
      simp [hc, move, hn, hsafe node hn]
    have hprobe : ∀ u : Sys P, u.node = s.node → u.listening = s.listening → u.pc p = .probing node.inode →
        move name uid u p (u.pc p) .ok = some (u.go p (.confirming node.inode)) := fun u hu hl hpc => by
      simp [hpc, move, hu, hl, hn, hsilent]
    have hconfirm : ∀ u : Sys P, u.node = s.node → u.pc p = .confirming node.inode →
        move name uid u p (u.pc p) .ok = some (u.go p (.removing node.inode)) := fun u hu hpc => by
      simp [hpc, move, hu, hn]
    have hremove : ∀ u : Sys P, u.pc p = .removing node.inode →
        move name uid u p (u.pc p) .ok = some ((u.unlink (name p)).go p .syncing) := fun u hpc => by rw [hpc, move]
    have hsync : ∀ u : Sys P, u.pc p = .syncing → move name uid u p (u.pc p) .ok = some (u.go p .binding) := fun u hpc => by
      rw [hpc, move]
    have hbind : ∀ u : Sys P, u.pc p = .binding → u.node (name p) = none → u.listening i = none →
        ∃ t, Goes name uid p u t ∧ t.pc p = .serving i := fun u => goes_of_binding
    obtain ⟨t, ht, hserving⟩ := hbind (((((((s.go p (.probing node.inode)).go p (.confirming node.inode)).go p
      (.removing node.inode)).unlink (name p)).go p .syncing).go p .binding)) (go_pc _) (by simp) (hsilent i)
    refine ⟨t, Goes.head hlook (Goes.head (hprobe _ rfl rfl (go_pc _)) (Goes.head (hconfirm _ rfl (go_pc _))
      (Goes.head (hremove _ (go_pc _)) (Goes.head (hsync _ (go_pc _)) ht)))), hserving⟩

end invariant

/-! ## Two servers -/

def noServers : Sys Bool :=
  ⟨⟨fun _ => none, fun _ _ => none, fun _ _ => false, fun _ => none, 0⟩, fun _ => none, fun _ => none, fun _ => .idle⟩

theorem noServers_init : Init noServers where
  idle _ := rfl
  sound := ⟨nofun, nofun, nofun, nofun⟩
  unlocked _ := rfl
  free _ := rfl
  silent _ := rfl
  noSocket := nofun

/-- A step of two servers that share a path. -/
def step₂ : Sys Bool → Act Bool → Option (Sys Bool) := step (fun _ => "serve.sock") 1000

def after (acts : List (Act Bool)) : Sys Bool := (run step₂ noServers acts).getD noServers

theorem run_after {acts : List (Act Bool)} (h : (run step₂ noServers acts).isSome = true) :
    run step₂ noServers acts = some (after acts) := by
  obtain ⟨s, hs⟩ := Option.isSome_iff_exists.mp h
  rw [after, hs]
  rfl

/-- The first server starts and serves. -/
def started : List (Act Bool) :=
  [.move false .ok, .move false .ok, .move false .ok, .move false (.inode 7), .move false .ok, .move false .ok]

theorem started_reachable : Reachable step₂ anyStep Init (after started) :=
  reachable_of_run noServers_init (run_after (by decide))

theorem serving_published_started : (after started).node "serve.sock" = some (ownNode 1000 7) :=
  (serving_published started_reachable (p := false) (i := 7) (by decide)).1

/-- It is killed, and the second one is about to remove its socket. -/
def takingOver : List (Act Bool) :=
  started ++ [.kill false, .move true .ok, .move true .ok, .move true .ok, .move true .ok, .move true .ok]

theorem step_removes_stale_takingOver : (after takingOver).listening 7 = none := by
  have hpc : (after takingOver).pc true = .removing 7 := by decide
  have hstep : step₂ (after takingOver) (.move true .ok) =
      some (((after takingOver).unlink "serve.sock").go true .syncing) := by
    rw [step₂, step, hpc]
    rfl
  have hnode : (after takingOver).node "serve.sock" = some (ownNode 1000 7) := by decide
  exact step_removes_stale (reachable_of_run noServers_init (run_after (by decide))) hstep hnode rfl (by simp)

/-- The first server stops in order, beside the directory of a machine. -/
def stopped : List (Act Bool) :=
  .mkdir "web" 3 1000 0o700 :: started ++ [.move false .ok, .move false .ok, .move false .ok]

theorem reachable_orderly_stopped : (⟨3, false, 1000, 0o700⟩ : Node).socket = false := by
  have horderly : StepsMeet step₂ Orderly noServers stopped := by
    simp [stopped, started, StepsMeet, Orderly]
  have hidle : ∀ p, ((after stopped).pc p).holds = false := by decide
  exact reachable_orderly (n := "web") ((Reachable.start noServers_init).run horderly (run_after (by decide))) hidle
    (by decide)

end Firestone.Rest.ServeSocket
