import Mathlib.Data.List.Basic
import Mathlib.Tactic.Common

/-!
# Programs that talk to an arbitrary server

A server answers every request, and its answer may depend on all requests before. A program sends requests one after
the other and may fail at any point; the requests it has sent are kept in either case.

* `Talk` — the programs, a monad.
* `Talk.bind_ok`, `Talk.lift_ok`, `Talk.send_ok` — what the parts of a program that succeeded did.
* `Talk.bind_run`, `Talk.send_run` — how a program runs against a given server.
* `Talk.Sends` — what is true of every request of a program, whatever the server answers.
-/

namespace Firestone.Lib

/-- The answer to the last request, given all of them. -/
abbrev Server (ρ α ε : Type) := List ρ → Except ε α

/-- A program: its result, and the requests sent by then. -/
def Talk (ρ α ε β : Type) := Server ρ α ε → List ρ → Except ε β × List ρ

namespace Talk

variable {ρ α ε β γ : Type}

def pure (b : β) : Talk ρ α ε β := fun _ sent => (.ok b, sent)

def bind (p : Talk ρ α ε β) (f : β → Talk ρ α ε γ) : Talk ρ α ε γ := fun server sent =>
  match p server sent with
  | (.error e, sent') => (.error e, sent')
  | (.ok b, sent') => f b server sent'

instance : Monad (Talk ρ α ε) where
  pure := Talk.pure
  bind := Talk.bind

/-- A step without a request. -/
def lift (r : Except ε β) : Talk ρ α ε β := fun _ sent => (r, sent)

def send (request : ρ) : Talk ρ α ε α := fun server sent => (server (sent ++ [request]), sent ++ [request])

section rules

variable {server : Server ρ α ε} {sent sent' : List ρ} {p : Talk ρ α ε β} {f : β → Talk ρ α ε γ} {b : β} {c : γ}

theorem bind_ok (h : (p >>= f) server sent = (.ok c, sent')) :
    ∃ b mid, p server sent = (.ok b, mid) ∧ f b server mid = (.ok c, sent') := by
  change Talk.bind p f server sent = _ at h
  unfold Talk.bind at h
  split at h
  · cases h
  · rename_i b mid hp
    exact ⟨b, mid, hp, h⟩

theorem bind_run {mid : List ρ} (h : p server sent = (.ok b, mid)) : (p >>= f) server sent = f b server mid := by
  change Talk.bind p f server sent = _
  rw [Talk.bind, h]

theorem pure_ok {b' : β} (h : (Pure.pure b : Talk ρ α ε β) server sent = (.ok b', sent')) : b' = b := by
  cases h
  rfl

theorem lift_ok {r : Except ε β} (h : lift r server sent = (.ok b, sent')) : r = .ok b ∧ sent' = sent := by
  cases h
  exact ⟨rfl, rfl⟩

theorem lift_run {r : Except ε β} (h : r = .ok b) : (lift r : Talk ρ α ε β) server sent = (.ok b, sent) := by
  rw [lift, h]

theorem send_ok {request : ρ} {a : α} (h : send request server sent = (.ok a, sent')) :
    server (sent ++ [request]) = .ok a ∧ sent' = sent ++ [request] := by
  obtain ⟨ha, hs⟩ := Prod.mk.inj h
  exact ⟨ha, hs.symm⟩

end rules

/-! ## What is sent -/

/-- Every request that the program sends meets `P`, against any server and after any requests. -/
def Sends (P : ρ → Prop) (p : Talk ρ α ε β) : Prop :=
  ∀ server sent, ∃ more, (p server sent).2 = sent ++ more ∧ ∀ request ∈ more, P request

section sends

variable {P : ρ → Prop} {p : Talk ρ α ε β} {f : β → Talk ρ α ε γ}

theorem Sends.pure (b : β) : Sends P (Pure.pure b : Talk ρ α ε β) := fun _ sent => ⟨[], by simp [Pure.pure, Talk.pure], by simp⟩

theorem Sends.lift (r : Except ε β) : Sends P (lift r : Talk ρ α ε β) := fun _ sent => ⟨[], by simp [Talk.lift], by simp⟩

theorem Sends.send {request : ρ} (h : P request) : Sends P (send request : Talk ρ α ε α) := fun _ sent =>
  ⟨[request], rfl, fun r hr => by rwa [List.mem_singleton.mp hr]⟩

theorem Sends.bind (hp : Sends P p) (hf : ∀ b, Sends P (f b)) : Sends P (p >>= f) := by
  intro server sent
  obtain ⟨more, hmore, hP⟩ := hp server sent
  cases hrun : p server sent with
  | mk r mid =>
    rw [hrun] at hmore
    simp only at hmore
    subst hmore
    cases r with
    | error e => exact ⟨more, congrArg Prod.snd (show (p >>= f) server sent = (.error e, sent ++ more) by
        change Talk.bind p f server sent = _
        rw [Talk.bind, hrun]), hP⟩
    | ok b =>
      obtain ⟨more', hmore', hP'⟩ := hf b server (sent ++ more)
      refine ⟨more ++ more', ?_, fun r hr => ?_⟩
      · rw [bind_run hrun, hmore', List.append_assoc]
      · rcases List.mem_append.mp hr with hr | hr
        · exact hP r hr
        · exact hP' r hr

/-- A step without a request may promise what the next one needs. -/
theorem Sends.lift_bind {r : Except ε β} (hf : ∀ b, r = .ok b → Sends P (f b)) : Sends P (Talk.lift r >>= f) := by
  cases r with
  | error e => exact fun _ sent => ⟨[], by simp [Bind.bind, Talk.bind, Talk.lift], by simp⟩
  | ok b => exact fun server sent => hf b rfl server sent

/-- Programs that go on alike after a step without a request are the same. -/
theorem lift_bind_congr {r : Except ε β} {g : β → Talk ρ α ε γ} (h : ∀ b, r = .ok b → f b = g b) :
    (Talk.lift r >>= f) = (Talk.lift r >>= g) := by
  cases r with
  | error e => rfl
  | ok b =>
    funext server sent
    exact congrFun (congrFun (h b rfl) server) sent

end sends

end Talk

end Firestone.Lib
