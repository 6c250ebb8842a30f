import Mathlib.Data.List.Basic
import Mathlib.Order.Lattice
import Mathlib.Tactic.Common

/-!
# Members in key order

A finite map as the list of its members in strictly increasing key order, as an ordered tree map enumerates it. The
values may be an inductive type that nests the list.

* `insertMember`, `eraseMember` — one pass each; `lookup` of the result needs no order.
* `MembersSorted` — the order, kept by both.
* `MembersSorted.ext` — two ordered lists with the same lookups are equal.
-/

namespace Firestone.Lib

variable {κ β : Type*} [LinearOrder κ]

/-- The members with the value of `k` set, at its place in the order. -/
@[grind =] def insertMember (k : κ) (v : β) : List (κ × β) → List (κ × β)
  | [] => [(k, v)]
  | (k', v') :: rest =>
    if k < k' then (k, v) :: (k', v') :: rest
    else if k = k' then (k, v) :: rest
    else (k', v') :: insertMember k v rest

def eraseMember (k : κ) (l : List (κ × β)) : List (κ × β) := l.filter fun x => x.1 ≠ k

def MembersSorted (l : List (κ × β)) : Prop := l.Pairwise fun x y => x.1 < y.1

section lookup

variable [BEq κ] [LawfulBEq κ] {k k' : κ} {v : β} {l : List (κ × β)}

theorem lookup_insertMember_self : ∀ {l : List (κ × β)}, (insertMember k v l).lookup k = some v
  | [] => by simp [insertMember]
  | (k', v') :: rest => by
    unfold insertMember
    split
    · simp
    · split
      · simp
      · rename_i hne
        rw [List.lookup_cons, beq_eq_false_iff_ne.mpr hne]
        exact lookup_insertMember_self

theorem lookup_insertMember_ne (h : k' ≠ k) : ∀ {l : List (κ × β)}, (insertMember k v l).lookup k' = l.lookup k'
  | [] => by simp [insertMember, List.lookup_cons, beq_eq_false_iff_ne.mpr h]
  | (k'', v'') :: rest => by
    unfold insertMember
    split
    · rw [List.lookup_cons, beq_eq_false_iff_ne.mpr h]
    · split
      · rename_i heq
        rw [← heq, List.lookup_cons, List.lookup_cons, beq_eq_false_iff_ne.mpr h]
      · rw [List.lookup_cons, List.lookup_cons, lookup_insertMember_ne h]

omit [LinearOrder κ] in
/-- Keeping the members with some of the keys keeps their values. -/
theorem lookup_filter_key (p : κ → Bool) :
    ∀ l : List (κ × β), (l.filter fun x => p x.1).lookup k = if p k then l.lookup k else none
  | [] => by simp
  | (k', v') :: rest => by
    have ih := lookup_filter_key p rest
    by_cases hk : k = k'
    · subst hk
      by_cases hp : p k
      · rw [List.filter_cons_of_pos (by simpa using hp), List.lookup_cons_self, if_pos hp, List.lookup_cons_self]
      · rw [List.filter_cons_of_neg (by simpa using hp), ih, if_neg hp, if_neg hp]
    · rw [List.lookup_cons, beq_eq_false_iff_ne.mpr hk]
      by_cases hp : p k'
      · rw [List.filter_cons_of_pos (by simpa using hp), List.lookup_cons, beq_eq_false_iff_ne.mpr hk]
        exact ih
      · rw [List.filter_cons_of_neg (by simpa using hp)]
        exact ih

theorem lookup_eraseMember_self : (eraseMember k l).lookup k = none := by
  rw [eraseMember, lookup_filter_key fun x => x ≠ k]
  simp

theorem lookup_eraseMember_ne (h : k' ≠ k) : (eraseMember k l).lookup k' = l.lookup k' := by
  rw [eraseMember, lookup_filter_key fun x => x ≠ k]
  simp [h]

omit [LinearOrder κ] in
theorem mem_of_lookup (h : l.lookup k = some v) : (k, v) ∈ l := by
  obtain ⟨l₁, l₂, rfl, -⟩ := List.lookup_eq_some_iff.mp h
  exact List.mem_append_right _ List.mem_cons_self

end lookup

/-- A list of one value only, without duplicates. -/
theorem eq_singleton_of_mem {α : Type*} {l : List α} {a : α} (hl : l.Nodup) (ha : a ∈ l) (h : ∀ b ∈ l, b = a) :
    l = [a] := by
  rw [List.eq_replicate_of_mem h] at hl ha ⊢
  have hlen : l.length = 1 := by
    have h1 := List.nodup_replicate.mp hl
    have h0 := List.length_pos_of_mem ha
    rw [List.length_replicate] at h0
    omega
  rw [hlen]
  rfl

section sorted

variable {k : κ} {v : β} {l : List (κ × β)}

theorem mem_insertMember {x : κ × β} : ∀ {l : List (κ × β)}, x ∈ insertMember k v l → x = (k, v) ∨ x ∈ l
  | [], h => by simpa [insertMember] using h
  | (k', v') :: rest, h => by
    unfold insertMember at h
    split at h
    · exact List.mem_cons.mp h
    · split at h
      · rcases List.mem_cons.mp h with h | h
        · exact .inl h
        · exact .inr (List.mem_cons_of_mem _ h)
      · rcases List.mem_cons.mp h with h | h
        · exact .inr (by rw [h]; exact List.mem_cons_self)
        · exact (mem_insertMember h).imp_right (List.mem_cons_of_mem _)

theorem mem_keys_insertMember {x : κ} : ∀ {l : List (κ × β)},
    x ∈ (insertMember k v l).map Prod.fst ↔ x = k ∨ x ∈ l.map Prod.fst
  | [] => by simp [insertMember]
  | (k', v') :: rest => by
    unfold insertMember
    split
    · rw [List.map_cons, List.mem_cons]
    · split
      · rename_i heq
        simp [heq]
      · rw [List.map_cons, List.mem_cons, mem_keys_insertMember, List.map_cons, List.mem_cons]
        exact or_left_comm

theorem MembersSorted.insertMember : ∀ {l : List (κ × β)}, MembersSorted l → MembersSorted (insertMember k v l)
  | [], _ => List.pairwise_singleton ..
  | (k', v') :: rest, h => by
    obtain ⟨hhead, htail⟩ := List.pairwise_cons.mp h
    unfold Lib.insertMember
    split
    · rename_i hlt
      refine List.pairwise_cons.mpr ⟨fun x hx => ?_, h⟩
      rcases List.mem_cons.mp hx with rfl | hx
      · exact hlt
      · exact lt_trans hlt (hhead x hx)
    · rename_i hge
      split
      · rename_i heq
        exact List.pairwise_cons.mpr ⟨fun x hx => heq ▸ hhead x hx, htail⟩
      · rename_i hne
        refine List.pairwise_cons.mpr ⟨fun x hx => ?_, MembersSorted.insertMember htail⟩
        rcases mem_insertMember hx with rfl | hx
        · exact lt_of_le_of_ne (not_lt.mp hge) fun h => hne h.symm
        · exact hhead x hx

theorem MembersSorted.nodup (h : MembersSorted l) : l.Nodup :=
  h.imp fun hlt he => (he ▸ hlt).false

theorem MembersSorted.eraseMember (h : MembersSorted l) : MembersSorted (eraseMember k l) := h.filter _

end sorted

section lookup

variable [BEq κ] [LawfulBEq κ] {k : κ} {v : β} {l : List (κ × β)}

/-- The key of a later member is not found in front. -/
theorem lookup_eq_none_of_lt (h : ∀ x ∈ l, k < x.1) : l.lookup k = none := by
  rw [List.lookup_eq_none_iff]
  exact fun x hx => bne_iff_ne.mpr (h x hx).ne

theorem lookup_of_mem : ∀ {l : List (κ × β)}, MembersSorted l → (k, v) ∈ l → l.lookup k = some v
  | (k', v') :: rest, h, hm => by
    obtain ⟨hhead, htail⟩ := List.pairwise_cons.mp h
    rcases List.mem_cons.mp hm with heq | hm
    · cases heq
      exact List.lookup_cons_self
    · rw [List.lookup_cons, beq_eq_false_iff_ne.mpr (hhead (k, v) hm).ne']
      exact lookup_of_mem htail hm

/-- **Extensionality**: members in key order are determined by their lookups. -/
theorem MembersSorted.ext : ∀ {l₁ l₂ : List (κ × β)}, MembersSorted l₁ → MembersSorted l₂ →
    (∀ k, l₁.lookup k = l₂.lookup k) → l₁ = l₂
  | [], [], _, _, _ => rfl
  | [], (k, v) :: _, _, _, h => by simpa using h k
  | (k, v) :: _, [], _, _, h => by simpa using h k
  | (k₁, v₁) :: r₁, (k₂, v₂) :: r₂, h₁, h₂, h => by
    obtain ⟨hlt₁, hs₁⟩ := List.pairwise_cons.mp h₁
    obtain ⟨hlt₂, hs₂⟩ := List.pairwise_cons.mp h₂
    -- The least keys agree: a smaller one would be missing on the other side.
    have hk : k₁ = k₂ := by
      rcases lt_trichotomy k₁ k₂ with hlt | heq | hlt
      · have hn : ((k₂, v₂) :: r₂).lookup k₁ = none := lookup_eq_none_of_lt fun x hx => by
          rcases List.mem_cons.mp hx with rfl | hx
          · exact hlt
          · exact lt_trans hlt (hlt₂ x hx)
        rw [← h k₁] at hn
        simp at hn
      · exact heq
      · have hn : ((k₁, v₁) :: r₁).lookup k₂ = none := lookup_eq_none_of_lt fun x hx => by
          rcases List.mem_cons.mp hx with rfl | hx
          · exact hlt
          · exact lt_trans hlt (hlt₁ x hx)
        rw [h k₂] at hn
        simp at hn
    subst hk
    have hv : v₁ = v₂ := by simpa using h k₁
    have hr : r₁ = r₂ := by
      refine MembersSorted.ext hs₁ hs₂ fun k => ?_
      have hkk := h k
      rw [List.lookup_cons, List.lookup_cons] at hkk
      by_cases hke : k = k₁
      · subst hke
        rw [lookup_eq_none_of_lt hlt₁, lookup_eq_none_of_lt hlt₂]
      · simpa [beq_eq_false_iff_ne.mpr hke] using hkk
    rw [hv, hr]

end lookup

end Firestone.Lib
