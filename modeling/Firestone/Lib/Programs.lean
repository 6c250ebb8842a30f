import Mathlib.Order.Defs.Unbundled
import Mathlib.Tactic.Common

/-!
# Programs over a state

A program changes a state, whether it succeeds or fails, and can be killed. A handler sees a failure, nothing runs after
a kill.

* `Prog`, `fail`, `kill`, `attempt`, `when`, `onError`, `repeatUntil` — programs.
* `bind_cases` — the rule for a sequence; `bind_eq_ok` and its kind take a successful run apart.
* `Keeps R x` — `x` changes the state only along `R`, however it ends. `KeepsFrom P R x` — from the states with `P`.
-/

namespace Firestone.Lib

/-- How a program ends. -/
inductive Outcome (ε α : Type) where
  | ok (value : α)
  | error (error : ε)
  | killed
  deriving DecidableEq, Repr

/-- A program over the state `σ` with errors `ε`. -/
def Prog (σ ε α : Type) : Type := σ → Outcome ε α × σ

namespace Prog

variable {σ ε α β : Type}

instance : Monad (Prog σ ε) where
  pure a s := (.ok a, s)
  bind x f s :=
    match x s with
    | (.ok a, t) => f a t
    | (.error e, t) => (.error e, t)
    | (.killed, t) => (.killed, t)

def fail (e : ε) : Prog σ ε α := fun s => (.error e, s)

def kill : Prog σ ε α := fun s => (.killed, s)

def get : Prog σ ε σ := fun s => (.ok s, s)

def modify (f : σ → σ) : Prog σ ε Unit := fun s => (.ok (), f s)

/-- The result of a program as a value. -/
def attempt (x : Prog σ ε α) : Prog σ ε (Except ε α) := fun s =>
  match x s with
  | (.ok a, t) => (.ok (.ok a), t)
  | (.error e, t) => (.ok (.error e), t)
  | (.killed, t) => (.killed, t)

/-- What a result stands for. -/
def ofExcept : Except ε α → Prog σ ε α
  | .ok a => pure a
  | .error e => fail e

/-- The program runs if the condition holds. -/
def when (c : Bool) (x : Prog σ ε Unit) : Prog σ ε Unit := if c then x else pure ()

/-- The handler runs after a failure, which then goes on. -/
def onError (x : Prog σ ε α) (handler : ε → Prog σ ε Unit) : Prog σ ε α := do
  match ← attempt x with
  | .ok a => pure a
  | .error e => do handler e; fail e

/-- At most `n` turns, until one says that it is done. -/
def repeatUntil (turn : Prog σ ε Bool) : Nat → Prog σ ε Unit
  | 0 => pure ()
  | n + 1 => do if ← turn then pure () else repeatUntil turn n

/-! ## Runs taken apart -/

section runs

variable {x : Prog σ ε α} {f : α → Prog σ ε β} {s t : σ}

@[simp] theorem pure_run (a : α) : (pure a : Prog σ ε α) s = (.ok a, s) := rfl

@[simp] theorem fail_run (e : ε) : (fail e : Prog σ ε α) s = (.error e, s) := rfl

@[simp] theorem get_run : (get : Prog σ ε σ) s = (.ok s, s) := rfl

@[simp] theorem modify_run (g : σ → σ) : (modify g : Prog σ ε Unit) s = (.ok (), g s) := rfl

theorem eq_of_fst {o : Outcome ε α} (h : (x s).1 = o) : x s = (o, (x s).2) := Prod.ext h rfl

theorem bind_run_ok {a : α} (h : x s = (.ok a, t)) : (x >>= f) s = f a t := by
  show (match x s with | (.ok a, t) => f a t | (.error e, t) => (.error e, t) | (.killed, t) => (.killed, t)) = f a t
  rw [h]

theorem bind_run_error {e : ε} (h : x s = (.error e, t)) : (x >>= f) s = (.error e, t) := by
  show (match x s with | (.ok a, t) => f a t | (.error e, t) => (.error e, t) | (.killed, t) => (.killed, t)) = _
  rw [h]

theorem bind_run_killed (h : x s = (.killed, t)) : (x >>= f) s = (.killed, t) := by
  show (match x s with | (.ok a, t) => f a t | (.error e, t) => (.error e, t) | (.killed, t) => (.killed, t)) = _
  rw [h]

/-- The rule for a sequence: its result is that of the second part, or the first part has ended it. -/
theorem bind_cases {P : Outcome ε β × σ → Prop} (hok : ∀ a t, x s = (.ok a, t) → P (f a t))
    (herror : ∀ e t, x s = (.error e, t) → P (.error e, t)) (hkilled : ∀ t, x s = (.killed, t) → P (.killed, t)) :
    P ((x >>= f) s) := by
  rcases hx : x s with ⟨a | e | _, u⟩
  · rw [bind_run_ok hx]
    exact hok a u hx
  · rw [bind_run_error hx]
    exact herror e u hx
  · rw [bind_run_killed hx]
    exact hkilled u hx

/-- A sequence succeeds when both parts do. -/
theorem bind_eq_ok {b : β} : (x >>= f) s = (.ok b, t) ↔ ∃ a u, x s = (.ok a, u) ∧ f a u = (.ok b, t) := by
  rcases hx : x s with ⟨a | e | _, u⟩
  · rw [bind_run_ok hx]
    exact ⟨fun h => ⟨a, u, rfl, h⟩, by rintro ⟨_, _, h, hf⟩; cases h; exact hf⟩
  · rw [bind_run_error hx]
    exact ⟨fun h => (by cases h), by rintro ⟨_, _, h, _⟩; cases h⟩
  · rw [bind_run_killed hx]
    exact ⟨fun h => (by cases h), by rintro ⟨_, _, h, _⟩; cases h⟩

theorem attempt_eq_ok {r : Except ε α} : attempt x s = (.ok r, t) ↔
    (∃ a, r = .ok a ∧ x s = (.ok a, t)) ∨ ∃ e, r = .error e ∧ x s = (.error e, t) := by
  rcases hx : x s with ⟨a | e | _, u⟩
  · have : attempt x s = (.ok (.ok a), u) := by rw [attempt, hx]
    rw [this]
    constructor
    · intro h
      cases h
      exact .inl ⟨a, rfl, rfl⟩
    · rintro (⟨_, rfl, h⟩ | ⟨_, _, h⟩) <;> cases h
      rfl
  · have : attempt x s = (.ok (.error e), u) := by rw [attempt, hx]
    rw [this]
    constructor
    · intro h
      cases h
      exact .inr ⟨e, rfl, rfl⟩
    · rintro (⟨_, _, h⟩ | ⟨_, rfl, h⟩) <;> cases h
      rfl
  · have : attempt x s = (.killed, u) := by rw [attempt, hx]
    rw [this]
    exact ⟨fun h => (by cases h), by rintro (⟨_, _, h⟩ | ⟨_, _, h⟩) <;> cases h⟩

theorem attempt_ne_error {e : ε} : attempt x s ≠ (.error e, t) := by
  rw [attempt]
  split <;> nofun

/-- A handled program succeeds only if the program itself does. -/
theorem onError_eq_ok {handler : ε → Prog σ ε Unit} {a : α} : onError x handler s = (.ok a, t) ↔ x s = (.ok a, t) := by
  rw [onError, bind_eq_ok]
  constructor
  · rintro ⟨r, u, hr, h⟩
    rcases attempt_eq_ok.mp hr with ⟨b, rfl, hx⟩ | ⟨e, rfl, hx⟩
    · cases h
      exact hx
    · obtain ⟨_, _, _, h⟩ := bind_eq_ok.mp h
      cases h
  · intro hx
    exact ⟨.ok a, t, attempt_eq_ok.mpr (.inl ⟨a, rfl, hx⟩), rfl⟩

end runs

/-! ## What a program keeps -/

/-- However it ends, the program changes the state along `R`. What is put together from programs that keep `R` keeps it. -/
class Keeps (R : σ → σ → Prop) (x : Prog σ ε α) : Prop where
  step : ∀ s, R s (x s).2

section keeps

variable {R : σ → σ → Prop} {x y : Prog σ ε α} {f : α → Prog σ ε β}

theorem Keeps.run (h : Keeps R x) {s t : σ} {o : Outcome ε α} (hx : x s = (o, t)) : R s t := by
  have := h.step s
  rwa [hx] at this

theorem Keeps.mono {R' : σ → σ → Prop} (h : Keeps R x) (hR : ∀ s t, R s t → R' s t) : Keeps R' x :=
  ⟨fun s => hR _ _ (h.step s)⟩

theorem Keeps.and {R' : σ → σ → Prop} (h : Keeps R x) (h' : Keeps R' x) : Keeps (fun s t => R s t ∧ R' s t) x :=
  ⟨fun s => ⟨h.step s, h'.step s⟩⟩

section refl

variable [Std.Refl R]

instance keeps_pure (a : α) : Keeps R (pure a : Prog σ ε α) := ⟨fun s => Std.Refl.refl s⟩

instance keeps_fail (e : ε) : Keeps R (fail e : Prog σ ε α) := ⟨fun s => Std.Refl.refl s⟩

instance keeps_get : Keeps R (get : Prog σ ε σ) := ⟨fun s => Std.Refl.refl s⟩

instance keeps_ofExcept (r : Except ε α) : Keeps R (ofExcept r : Prog σ ε α) := by
  cases r
  · exact keeps_fail _
  · exact keeps_pure _

end refl

instance keeps_attempt [h : Keeps R x] : Keeps R (attempt x) := by
  refine ⟨fun s => ?_⟩
  have := h.step s
  rw [attempt]
  split
  all_goals rename_i hrun; rw [hrun] at this; exact this

instance keeps_ite {c : Prop} [Decidable c] [Keeps R x] [Keeps R y] : Keeps R (if c then x else y) := by
  split <;> infer_instance

instance keeps_when {x : Prog σ ε Unit} {c : Bool} [Std.Refl R] [Keeps R x] : Keeps R (when c x) := by
  unfold when
  infer_instance

section trans

variable [IsTrans σ R]

instance keeps_bind [hx : Keeps R x] [hf : ∀ a, Keeps R (f a)] : Keeps R (x >>= f) := by
  refine ⟨fun s => bind_cases (P := fun r => R s r.2) (fun a t h => ?_) (fun _ _ => hx.run) fun _ => hx.run⟩
  exact IsTrans.trans _ _ _ (hx.run h) ((hf a).step t)

theorem Keeps.bind (_ : Keeps R x) (_ : ∀ a, Keeps R (f a)) : Keeps R (x >>= f) := keeps_bind

variable [Std.Refl R]

instance keeps_onError {handler : ε → Prog σ ε Unit} [Keeps R x] [∀ e, Keeps R (handler e)] :
    Keeps R (onError x handler) := by
  have : ∀ r : Except ε α, Keeps R (match r with
      | .ok a => pure a
      | .error e => do handler e; fail e : Prog σ ε α) := by
    rintro (e | a) <;> infer_instance
  unfold onError
  infer_instance

instance keeps_repeatUntil {turn : Prog σ ε Bool} [Keeps R turn] (n : Nat) : Keeps R (repeatUntil turn n) := by
  induction n with
  | zero => exact keeps_pure _
  | succ n ih =>
    unfold repeatUntil
    infer_instance

instance keeps_forM {g : α → Prog σ ε Unit} [∀ a, Keeps R (g a)] (l : List α) : Keeps R (l.forM g) := by
  induction l with
  | nil => exact keeps_pure _
  | cons a l ih =>
    show Keeps R (g a >>= fun _ => l.forM g)
    infer_instance

instance keeps_foldlM {g : β → α → Prog σ ε β} [∀ b a, Keeps R (g b a)] (l : List α) (b : β) : Keeps R (l.foldlM g b) := by
  induction l generalizing b with
  | nil => exact keeps_pure b
  | cons a l ih =>
    rw [List.foldlM_cons]
    infer_instance

/-- A loop ensures of every element what a turn ensures of its own, where that lasts. -/
theorem forM_eq_ok_all {g : α → Prog σ ε Unit} [hg : ∀ a, Keeps R (g a)] {P : α → σ → Prop}
    (hturn : ∀ a s t, g a s = (.ok (), t) → P a t) (hlasts : ∀ a s t, R s t → P a s → P a t) :
    ∀ {l : List α} {s t : σ}, l.forM g s = (.ok (), t) → ∀ a ∈ l, P a t
  | [], _, _, _ => nofun
  | b :: l, s, t, h => by
    obtain ⟨_, u, hb, hl⟩ := bind_eq_ok.mp h
    intro a ha
    rcases List.mem_cons.mp ha with rfl | ha
    · exact hlasts a u t ((inferInstance : Keeps R (l.forM g)).run hl) (hturn a s u hb)
    · exact forM_eq_ok_all hturn hlasts hl a ha

end trans

end keeps

/-! ## What a program keeps from some states -/

/-- From a state with `P`, the program changes the state along `R`, however it ends. -/
def KeepsFrom (P : σ → Prop) (R : σ → σ → Prop) (x : Prog σ ε α) : Prop := ∀ s, P s → R s (x s).2

section keepsFrom

variable {P : σ → Prop} {R : σ → σ → Prop} {x y : Prog σ ε α} {f : α → Prog σ ε β}

theorem Keeps.from (h : Keeps R x) : KeepsFrom P R x := fun s _ => h.step s

theorem KeepsFrom.keeps (h : KeepsFrom (fun _ => True) R x) : Keeps R x := ⟨fun s => h s trivial⟩

theorem KeepsFrom.run (h : KeepsFrom P R x) {s t : σ} {o : Outcome ε α} (hs : P s) (hx : x s = (o, t)) : R s t := by
  have := h s hs
  rwa [hx] at this

theorem KeepsFrom.pre {P' : σ → Prop} (h : KeepsFrom P' R x) (hpre : ∀ s, P s → P' s) : KeepsFrom P R x :=
  fun s hs => h s (hpre s hs)

theorem KeepsFrom.ite {c : Prop} [Decidable c] (hx : c → KeepsFrom P R x) (hy : ¬c → KeepsFrom P R y) :
    KeepsFrom P R (if c then x else y) := by
  split
  · exact hx ‹_›
  · exact hy ‹_›

/-- A look at the state. -/
theorem KeepsFrom.get {k : σ → Prog σ ε β} (h : ∀ s, P s → KeepsFrom (fun t => t = s) R (k s)) :
    KeepsFrom P R (get >>= k) :=
  fun s hs => h s hs s rfl

/-- What a first part ensures when it succeeds is there for the second. -/
theorem KeepsFrom.bind [IsTrans σ R] (Q : α → σ → Prop) (hx : KeepsFrom P R x)
    (hok : ∀ s a t, P s → x s = (.ok a, t) → Q a t) (hf : ∀ a, KeepsFrom (Q a) R (f a)) : KeepsFrom P R (x >>= f) := by
  intro s hs
  refine bind_cases (P := fun r => R s r.2) (fun a t h => ?_) (fun _ _ => hx.run hs) fun _ => hx.run hs
  exact IsTrans.trans _ _ _ (hx.run hs h) (hf a t (hok s a t hs h))

/-- A loop whose condition outlasts every turn. -/
theorem KeepsFrom.forM [IsTrans σ R] {g : α → Prog σ ε Unit} (hrefl : ∀ s, P s → R s s) (hP : ∀ s t, R s t → P s → P t)
    {l : List α} (h : ∀ a ∈ l, KeepsFrom P R (g a)) : KeepsFrom P R (l.forM g) := by
  induction l with
  | nil => exact hrefl
  | cons a l ih =>
    have ha := h a List.mem_cons_self
    exact KeepsFrom.bind (fun _ => P) ha (fun s _ t hs hrun => hP s t (ha.run hs hrun) hs) fun _ =>
      ih fun b hb => h b (List.mem_cons_of_mem a hb)

/-- A change of the state along `R`, and then what keeps it. -/
theorem KeepsFrom.modify_bind [IsTrans σ R] {g : σ → σ} {k : Unit → Prog σ ε β} (hg : ∀ s, P s → R s (g s))
    (hk : Keeps R (k ())) : KeepsFrom P R (modify g >>= k) :=
  fun s hs => IsTrans.trans _ _ _ (hg s hs) (hk.step (g s))

end keepsFrom

end Prog

end Firestone.Lib
