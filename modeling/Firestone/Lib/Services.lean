import Mathlib.Data.List.Forall2
import Mathlib.Logic.Function.Basic
import Mathlib.Tactic.Common

/-!
# Services

A service answers every call and goes on from the state it is then in.

* `Service.answers`, `Service.after` — the answers to a list of calls, and the state after them.
* `Service.answers_invariant` — what every answer has to do with its call, given an invariant.
* `Simulates` — one service answers as another does, as long as the calls are allowed.
* `Service.family` — services side by side, each call to one of them.
-/

namespace Firestone.Lib

/-- The answer to a call and the state after it. -/
def Service (σ κ α : Type) := σ → κ → α × σ

variable {σ τ κ α : Type}

namespace Service

@[grind =] def answers (service : Service σ κ α) : σ → List κ → List α
  | _, [] => []
  | s, k :: ks => (service s k).1 :: answers service (service s k).2 ks

@[grind =] def after (service : Service σ κ α) : σ → List κ → σ
  | s, [] => s
  | s, k :: ks => after service (service s k).2 ks

theorem answers_append {service : Service σ κ α} {ks' : List κ} : ∀ {ks : List κ} {s : σ},
    service.answers s (ks ++ ks') = service.answers s ks ++ service.answers (service.after s ks) ks'
  | [], _ => rfl
  | k :: ks, s => by
    rw [List.cons_append, answers, answers, answers_append]
    rfl

theorem after_append {service : Service σ κ α} {ks' : List κ} : ∀ {ks : List κ} {s : σ},
    service.after s (ks ++ ks') = service.after (service.after s ks) ks'
  | [], _ => rfl
  | k :: ks, s => by
    rw [List.cons_append, after, after_append]
    rfl

/-- The invariant rule, with a relation between each call and its answer. -/
theorem answers_invariant {service : Service σ κ α} {Inv : σ → Prop} {P : κ → α → Prop}
    (hstep : ∀ s k, Inv s → P k (service s k).1 ∧ Inv (service s k).2) : ∀ {ks : List κ} {s : σ}, Inv s →
    List.Forall₂ P ks (service.answers s ks) ∧ Inv (service.after s ks)
  | [], _, h => ⟨.nil, h⟩
  | k :: ks, s, h => by
    obtain ⟨hP, hnext⟩ := hstep s k h
    have hks : List.Forall₂ P ks (service.answers (service s k).2 ks) ∧ Inv (service.after (service s k).2 ks) :=
      answers_invariant hstep hnext
    exact ⟨.cons hP hks.1, hks.2⟩

/-- Every call of the list is allowed in the state it meets. -/
def Allows (service : Service σ κ α) (ok : σ → κ → Prop) : σ → List κ → Prop
  | _, [] => True
  | s, k :: ks => ok s k ∧ Allows service ok (service s k).2 ks

theorem allows_of_forall {service : Service σ κ α} {ok : σ → κ → Prop} {Inv : σ → Prop} {ks : List κ}
    (hstep : ∀ s k, k ∈ ks → Inv s → ok s k ∧ Inv (service s k).2) : ∀ {s : σ}, Inv s → service.Allows ok s ks := by
  induction ks with
  | nil => exact fun {_} _ => trivial
  | cons k ks ih =>
    intro s hs
    obtain ⟨hok, hnext⟩ := hstep s k List.mem_cons_self hs
    exact ⟨hok, ih (fun s' k' hk => hstep s' k' (List.mem_cons_of_mem _ hk)) hnext⟩

/-- What every answer meets. -/
theorem forall_answers {service : Service σ κ α} {P : α → Prop} (h : ∀ s k, P (service s k).1) :
    ∀ {s : σ} {ks : List κ}, ∀ a ∈ service.answers s ks, P a
  | _, [], _, ha => by cases ha
  | s, k :: ks, a, ha => by
    rcases List.mem_cons.mp ha with rfl | ha
    · exact h s k
    · exact forall_answers h a ha

end Service

/-- A call that is allowed is answered alike and leaves related states. -/
def Simulates (R : σ → τ → Prop) (ok : τ → κ → Prop) (impl : Service σ κ α) (spec : Service τ κ α) : Prop :=
  ∀ s t k, R s t → ok t k → (impl s k).1 = (spec t k).1 ∧ R (impl s k).2 (spec t k).2

theorem Simulates.answers_eq {R : σ → τ → Prop} {ok : τ → κ → Prop} {impl : Service σ κ α} {spec : Service τ κ α}
    (h : Simulates R ok impl spec) : ∀ {ks : List κ} {s : σ} {t : τ}, R s t → spec.Allows ok t ks →
    impl.answers s ks = spec.answers t ks := by
  intro ks
  induction ks with
  | nil => exact fun {_ _} _ _ => rfl
  | cons k ks ih =>
    intro s t hR hallows
    obtain ⟨hanswer, hnext⟩ := h s t k hR hallows.1
    rw [Service.answers, Service.answers, hanswer, ih hnext hallows.2]

section family

variable {ι : Type} [DecidableEq ι]

/-- Services side by side: a call names the one it is for. -/
def Service.family (services : ι → Service σ κ α) : Service (ι → σ) (ι × κ) α := fun s c =>
  ((services c.1 (s c.1) c.2).1, Function.update s c.1 (services c.1 (s c.1) c.2).2)

theorem Simulates.family {R : ι → σ → τ → Prop} {ok : τ → κ → Prop} {impl : ι → Service σ κ α}
    {spec : ι → Service τ κ α} (h : ∀ i, Simulates (R i) ok (impl i) (spec i)) :
    Simulates (fun s t => ∀ i, R i (s i) (t i)) (fun t c => ok (t c.1) c.2) (.family impl) (.family spec) := by
  rintro s t ⟨i, k⟩ hR hok
  obtain ⟨hanswer, hnext⟩ := h i (s i) (t i) k (hR i) hok
  refine ⟨hanswer, fun j => ?_⟩
  by_cases hj : j = i
  · subst hj
    simpa [Service.family] using hnext
  · simpa [Service.family, hj] using hR j

end family

end Firestone.Lib
