import Firestone.Spec.Values
import Mathlib.Data.List.Pairwise
import Mathlib.Data.List.Sort
import Mathlib.Data.Multiset.Basic
import Mathlib.Order.CompletePartialOrder

/-!
# Sets of port forwards

The forwards of a machine are given to passt when it is started. They must not conflict: passt has one mapping for each
protocol and host port, whatever address it is bound to. What a running machine applied is kept as texts, and compared with
what is configured.

* `validateForwardSet` — the check of a list of forwards.
* `forwardsDiffer` — whether a restart would change the forwards.
* `validateForwardSet_exact` — a list is accepted when its ranges are disjoint, and its ports then have one translation each.
* `forwardsDiffer_exact` — the comparison is one of multisets.
-/

namespace Firestone

open Firestone.Lib

/-! ## Conflicts -/

def invalidNetwork (key message hint : String) : FirestoneError :=
  (FirestoneError.new .invalidSpec ("invalid '" ++ key ++ "': " ++ message)).withHint hint

def Protocol.asStr : Protocol → String
  | .tcp => "tcp"
  | .udp => "udp"

def u16Max : Nat := 2 ^ 16 - 1

def checkedAddU32 (a b : Nat) : Option Nat := if a + b < 2 ^ 32 then some (a + b) else none

def validateTranslationBounds (forward : PortForward) : Res Unit :=
  let span := forward.host.stop.toNat - forward.host.start.toNat
  let mappedEnd := (checkedAddU32 forward.guest.start.toNat span).filter fun stop => stop ≤ u16Max
  if mappedEnd ≠ some forward.guest.stop.toNat then
    .error <| invalidNetwork "network.forward" ("port translation '" ++ forward.display ++ "' overflows the valid port range")
      "use equal-length host and guest ranges within ports 1 through 65535"
  else .ok ()

/-- The text that passt takes for a forward. -/
def passtForwardArgument (forward : PortForward) : Res String := do
  validateTranslationBounds forward
  let mapping := forward.host.display ++ ":" ++ forward.guest.display
  return match forward.bind with
    | none => mapping
    | some (.v4 address) => (IpAddr.v4 address).display ++ "/" ++ mapping
    | some (.v6 address) => "[" ++ (IpAddr.v6 address).display ++ "]/" ++ mapping

/-- The inner loop: a forward against those before it, which are numbered from `earlierIndex` on. -/
def checkEarlier (laterIndex : Nat) (later : PortForward) : Nat → List PortForward → Res Unit
  | _, [] => .ok ()
  | earlierIndex, earlier :: rest =>
    if earlier.protocol ≠ later.protocol ∨ earlier.host.stop < later.host.start ∨ later.host.stop < earlier.host.start then
      checkEarlier laterIndex later (earlierIndex + 1) rest
    else if earlier = later then
      .error <| invalidNetwork ("network.forward[" ++ toString laterIndex ++ "]")
        ("duplicate " ++ later.protocol.asStr ++ " host-port mapping '" ++ later.host.display ++
          "' also appears at network.forward[" ++ toString earlierIndex ++ "]")
        "remove the duplicate network.forward entry"
    else
      .error <| invalidNetwork ("network.forward[" ++ toString laterIndex ++ "]")
        (later.protocol.asStr ++ " host ports '" ++ later.host.display ++ "' conflict with network.forward[" ++
          toString earlierIndex ++ "] host ports '" ++ earlier.host.display ++ "'")
        "use non-overlapping host ports for each protocol; bind addresses do not create separate passt mappings"

/-- The outer loop, with the forwards that were passed. -/
def validateForwardsFrom (earlier : List PortForward) : List PortForward → Res Unit
  | [] => .ok ()
  | later :: rest => do
    validateTranslationBounds later
    checkEarlier earlier.length later 0 earlier
    validateForwardsFrom (earlier ++ [later]) rest

def validateForwardSet (forwards : List PortForward) : Res Unit := validateForwardsFrom [] forwards

/-! ## What is accepted -/

namespace PortRange

variable {range other : PortRange}

/-- The ports of a range. -/
def ports (range : PortRange) : Set Nat := Set.Icc range.start.toNat range.stop.toNat

theorem start_toNat_le (range : PortRange) : range.start.toNat ≤ range.stop.toNat :=
  UInt16.le_iff_toNat_le.mp range.start_le_stop

/-- Ranges without a common port lie one after the other. -/
theorem disjoint_ports_iff :
    Disjoint range.ports other.ports ↔ range.stop < other.start ∨ other.stop < range.start := by
  rw [Set.disjoint_left, UInt16.lt_iff_toNat_lt, UInt16.lt_iff_toNat_lt]
  have hle := range.start_toNat_le
  have hle' := other.start_toNat_le
  constructor
  · intro h
    by_contra hnot
    -- the greater of the two starts is in both ranges
    have hmem : max range.start.toNat other.start.toNat ∈ range.ports := ⟨by omega, by omega⟩
    have hmem' : max range.start.toNat other.start.toNat ∈ other.ports := ⟨by omega, by omega⟩
    exact h hmem hmem'
  · rintro h port ⟨hstart, hstop⟩ ⟨hstart', hstop'⟩
    omega

end PortRange

namespace PortForward

variable {forward later : PortForward} {forwards : List PortForward}

/-- Two forwards of one protocol have no host port in common. -/
def Apart (a b : PortForward) : Prop := a.protocol = b.protocol → Disjoint a.host.ports b.host.ports

theorem Apart.symm {a b : PortForward} (h : a.Apart b) : b.Apart a := fun hp => (h hp.symm).symm

instance : Std.Symm Apart := ⟨fun _ _ => Apart.symm⟩

theorem apart_iff {a b : PortForward} :
    a.Apart b ↔ a.protocol ≠ b.protocol ∨ a.host.stop < b.host.start ∨ b.host.stop < a.host.start := by
  rw [Apart, PortRange.disjoint_ports_iff, imp_iff_not_or]

/-- The ranges of a forward are of one length, so the last host port is translated to the last guest port. -/
theorem guest_stop (forward : PortForward) :
    forward.guest.start.toNat + (forward.host.stop.toNat - forward.host.start.toNat) = forward.guest.stop.toNat := by
  have hlen := forward.len_eq
  have hguest := forward.guest.start_toNat_le
  unfold PortRange.len at hlen
  omega

theorem validateTranslationBounds_ok (forward : PortForward) : validateTranslationBounds forward = .ok () := by
  have hlt : forward.guest.stop.toNat < 2 ^ 16 := forward.guest.stop.toNat_lt
  have hbound : forward.guest.stop.toNat < 2 ^ 32 := Nat.lt_trans hlt (by decide)
  have hmax : forward.guest.stop.toNat ≤ u16Max := Nat.le_pred_of_lt hlt
  rw [validateTranslationBounds, checkedAddU32, guest_stop, if_pos hbound, Option.filter_some, if_pos (decide_eq_true hmax)]
  exact if_neg (not_not.mpr rfl)

theorem checkEarlier_iff (laterIndex : Nat) {earlierIndex : Nat} :
    checkEarlier laterIndex later earlierIndex forwards = .ok () ↔ ∀ earlier ∈ forwards, earlier.Apart later := by
  induction forwards generalizing earlierIndex with
  | nil => simp [checkEarlier]
  | cons earlier rest ih =>
    rw [checkEarlier, List.forall_mem_cons, apart_iff]
    split
    · rename_i hapart
      rw [ih]
      exact ⟨fun h => ⟨hapart, h⟩, And.right⟩
    · rename_i hapart
      constructor
      · intro h
        split at h <;> cases h
      · exact fun h => absurd h.1 hapart

theorem validateForwardsFrom_iff {earlier : List PortForward} :
    validateForwardsFrom earlier forwards = .ok () ↔
      (∀ a ∈ earlier, ∀ b ∈ forwards, a.Apart b) ∧ forwards.Pairwise Apart := by
  induction forwards generalizing earlier with
  | nil => simp [validateForwardsFrom]
  | cons later rest ih =>
    have hsplit : validateForwardsFrom earlier (later :: rest) = .ok () ↔
        checkEarlier earlier.length later 0 earlier = .ok () ∧ validateForwardsFrom (earlier ++ [later]) rest = .ok () := by
      rw [validateForwardsFrom, validateTranslationBounds_ok]
      change (checkEarlier earlier.length later 0 earlier >>= fun _ => validateForwardsFrom (earlier ++ [later]) rest) = _ ↔ _
      constructor
      · intro h
        obtain ⟨_, hcheck, hrest⟩ := Res.bind_ok h
        exact ⟨hcheck, hrest⟩
      · rintro ⟨hcheck, hrest⟩
        rw [hcheck]
        exact hrest
    rw [hsplit, checkEarlier_iff, ih, List.pairwise_cons]
    constructor
    · rintro ⟨hlater, hall, hrest⟩
      refine ⟨fun a ha b hb => ?_, fun b hb => hall later (by simp) b hb, hrest⟩
      rcases List.mem_cons.mp hb with rfl | hb
      · exact hlater a ha
      · exact hall a (List.mem_append_left _ ha) b hb
    · rintro ⟨hall, hlater, hrest⟩
      refine ⟨fun a ha => hall a ha later List.mem_cons_self, fun a ha b hb => ?_, hrest⟩
      rcases List.mem_append.mp ha with ha | ha
      · exact hall a ha b (List.mem_cons_of_mem _ hb)
      · rw [List.mem_singleton.mp ha]
        exact hlater b hb

theorem validateForwardSet_iff : validateForwardSet forwards = .ok () ↔ forwards.Pairwise Apart := by
  rw [validateForwardSet, validateForwardsFrom_iff]
  simp

/-- The forwards of each protocol, taken by themselves. -/
theorem pairwise_apart_iff : forwards.Pairwise Apart ↔ ∀ protocol : Protocol,
    (forwards.filter fun forward => forward.protocol = protocol).Pairwise fun a b => Disjoint a.host.ports b.host.ports := by
  constructor
  · intro h protocol
    refine (h.filter _).imp_of_mem fun {a b} ha hb hapart => hapart ?_
    have hpa : a.protocol = protocol := of_decide_eq_true (List.mem_filter.mp ha).2
    have hpb : b.protocol = protocol := of_decide_eq_true (List.mem_filter.mp hb).2
    rw [hpa, hpb]
  · intro h
    induction forwards with
    | nil => exact .nil
    | cons forward rest ih =>
      refine List.pairwise_cons.mpr ⟨fun b hb hp => ?_, ih fun protocol => ?_⟩
      · have hfirst := h forward.protocol
        rw [List.filter_cons_of_pos (by simp), List.pairwise_cons] at hfirst
        exact hfirst.1 b (List.mem_filter.mpr ⟨hb, by simp [hp]⟩)
      · exact (h protocol).sublist ((List.sublist_cons_self forward rest).filter _)

/-- A host port of the forward goes to the guest port at the same place of the guest range. -/
def Translates (forward : PortForward) (port guest : Nat) : Prop :=
  port ∈ forward.host.ports ∧ guest = forward.guest.start.toNat + (port - forward.host.start.toNat)

theorem Translates.mem_ports {port guest : Nat} (h : forward.Translates port guest) : guest ∈ forward.guest.ports := by
  obtain ⟨⟨hstart, hstop⟩, rfl⟩ := h
  have hend := forward.guest_stop
  exact ⟨by omega, by omega⟩

end PortForward

open PortForward

/-- **Accepted forwards never conflict**, whatever their order, and then every host port that is forwarded has one guest
port, which is in range. -/
theorem validateForwardSet_exact (forwards : List PortForward) :
    (validateForwardSet forwards = .ok () ↔ ∀ protocol : Protocol,
      (forwards.filter fun forward => forward.protocol = protocol).Pairwise
        fun a b => Disjoint a.host.ports b.host.ports) ∧
    (∀ others, forwards.Perm others → (validateForwardSet forwards = .ok () ↔ validateForwardSet others = .ok ())) ∧
    (validateForwardSet forwards = .ok () → ∀ protocol port,
      (∃ forward ∈ forwards, forward.protocol = protocol ∧ port ∈ forward.host.ports) →
      ∃! guest, (∃ forward ∈ forwards, forward.protocol = protocol ∧ forward.Translates port guest ∧
        guest ∈ forward.guest.ports) ∧ 1 ≤ guest ∧ guest ≤ u16Max) ∧
    ∀ forward ∈ forwards, ∃ argument, passtForwardArgument forward = .ok argument := by
  refine ⟨validateForwardSet_iff.trans pairwise_apart_iff, fun others hperm => ?_, fun h protocol port => ?_,
    fun forward _ => ?_⟩
  · rw [validateForwardSet_iff, validateForwardSet_iff]
    exact hperm.pairwise_iff Apart.symm
  · rintro ⟨forward, hmem, rfl, hport⟩
    have htranslates : forward.Translates port (forward.guest.start.toNat + (port - forward.host.start.toNat)) := ⟨hport, rfl⟩
    have hguest := htranslates.mem_ports
    have hzero : forward.guest.start.toNat ≠ 0 := fun h => forward.guest.start_ne_zero (UInt16.toNat_inj.mp h)
    have hlt : forward.guest.stop.toNat < 2 ^ 16 := forward.guest.stop.toNat_lt
    refine ⟨_, ⟨⟨forward, hmem, rfl, htranslates, hguest⟩, ?_, ?_⟩, ?_⟩
    · exact Nat.le_trans (Nat.one_le_iff_ne_zero.mpr hzero) hguest.1
    · exact Nat.le_trans hguest.2 (Nat.le_pred_of_lt hlt)
    · rintro guest ⟨⟨other, hother, hprotocol, ⟨hport', rfl⟩, -⟩, -⟩
      -- two forwards of the port are the same one
      have hsame : other = forward := by
        by_contra hne
        have hapart : other.Apart forward := (validateForwardSet_iff.mp h).forall hother hmem hne
        exact Set.disjoint_left.mp (hapart hprotocol) hport' hport
      rw [hsame]
  · rw [passtForwardArgument, validateTranslationBounds_ok]
    exact ⟨_, rfl⟩

/-! ## Pending forwards -/

/-- A text that was applied, as it would be printed. What is no forward stays as it is. -/
def canonicalForward (applied : String) : String :=
  match PortForward.fromStr applied with
  | .ok forward => forward.display
  | .error _ => applied

/-- `forwards_differ`: both sides are printed and sorted. -/
def forwardsDiffer (configured : List PortForward) (applied : List String) : Bool :=
  let configured := (configured.map PortForward.display).mergeSort
  let applied := (applied.map canonicalForward).mergeSort
  configured ≠ applied

namespace PortForward

variable {configured : List PortForward} {applied : List String}

theorem display_injective : Function.Injective PortForward.display := by
  intro a b h
  have ha := fromStr_display a
  rw [h, fromStr_display] at ha
  exact (Except.ok.inj ha).symm

theorem canonicalForward_of_ok {text : String} {forward : PortForward} (h : fromStr text = .ok forward) :
    canonicalForward text = forward.display := by
  rw [canonicalForward, h]

/-- A text whose canonical form is that of a forward is read as the forward. -/
theorem fromStr_of_canonicalForward {text : String} {forward : PortForward} (h : canonicalForward text = forward.display) :
    fromStr text = .ok forward := by
  unfold canonicalForward at h
  split at h
  · rename_i other hother
    rw [hother, display_injective h]
  · rename_i e herror
    rw [h, fromStr_display] at herror
    cases herror

theorem map_canonicalForward {parsed : List PortForward} (h : applied.map fromStr = parsed.map .ok) :
    applied.map canonicalForward = parsed.map display := by
  induction applied generalizing parsed with
  | nil =>
    cases parsed with
    | nil => rfl
    | cons _ _ => cases h
  | cons text applied ih =>
    cases parsed with
    | nil => cases h
    | cons forward parsed =>
      rw [List.map_cons, List.map_cons, List.cons.injEq] at h
      rw [List.map_cons, List.map_cons, canonicalForward_of_ok h.1, ih h.2]

/-- When every canonical form is that of a forward, every text is read as a forward. -/
theorem exists_parsed (h : ∀ text ∈ applied, ∃ forward : PortForward, canonicalForward text = forward.display) :
    ∃ parsed : List PortForward, applied.map fromStr = parsed.map .ok := by
  induction applied with
  | nil => exact ⟨[], rfl⟩
  | cons text applied ih =>
    obtain ⟨forward, hforward⟩ := h text List.mem_cons_self
    obtain ⟨parsed, hparsed⟩ := ih fun text ht => h text (List.mem_cons_of_mem _ ht)
    exact ⟨forward :: parsed, by rw [List.map_cons, List.map_cons, fromStr_of_canonicalForward hforward, hparsed]⟩

theorem mergeSort_eq_iff {l l' : List String} : l.mergeSort = l'.mergeSort ↔ l.Perm l' := by
  constructor
  · intro h
    have hperm := List.mergeSort_perm l (· ≤ ·)
    rw [h] at hperm
    exact hperm.symm.trans (List.mergeSort_perm l' (· ≤ ·))
  · intro h
    have hperm : l.mergeSort.Perm l'.mergeSort :=
      ((List.mergeSort_perm l _).trans h).trans (List.mergeSort_perm l' _).symm
    exact hperm.eq_of_sortedLE List.sortedLE_mergeSort List.sortedLE_mergeSort

theorem forwardsDiffer_perm :
    forwardsDiffer configured applied = false ↔ (configured.map display).Perm (applied.map canonicalForward) := by
  rw [forwardsDiffer, decide_eq_false_iff_not, not_not, mergeSort_eq_iff]

theorem forwardsDiffer_iff : forwardsDiffer configured applied = false ↔
    ∃ parsed : List PortForward, applied.map fromStr = parsed.map .ok ∧ parsed.Perm configured := by
  rw [forwardsDiffer_perm]
  constructor
  · intro h
    have hforward : ∀ text ∈ applied, ∃ forward : PortForward, canonicalForward text = forward.display := by
      intro text htext
      obtain ⟨forward, _, hforward⟩ := List.mem_map.mp (h.mem_iff.mpr (List.mem_map_of_mem htext))
      exact ⟨forward, hforward.symm⟩
    obtain ⟨parsed, hparsed⟩ := exists_parsed hforward
    rw [map_canonicalForward hparsed, List.map_perm_map_iff display_injective] at h
    exact ⟨parsed, hparsed, h.symm⟩
  · rintro ⟨parsed, hparsed, hperm⟩
    rw [map_canonicalForward hparsed]
    exact (hperm.map display).symm

end PortForward

/-- **The comparison of configured and applied forwards** is one of multisets, whose order does not matter on either side;
what was configured is found again in its own texts. -/
theorem forwardsDiffer_exact :
    (∀ (configured : List PortForward) (applied : List String), forwardsDiffer configured applied = false ↔
      ∃ parsed : List PortForward, applied.map PortForward.fromStr = parsed.map .ok ∧
        (parsed : Multiset PortForward) = configured) ∧
    (∀ (configured configured' : List PortForward) (applied applied' : List String), configured.Perm configured' →
      applied.Perm applied' → forwardsDiffer configured applied = forwardsDiffer configured' applied') ∧
    ∀ configured : List PortForward, forwardsDiffer configured (configured.map PortForward.display) = false := by
  refine ⟨fun configured applied => ?_, fun configured configured' applied applied' hperm hperm' => ?_, fun configured => ?_⟩
  · simp only [forwardsDiffer_iff, Multiset.coe_eq_coe]
  · rw [Bool.eq_iff_iff, ← not_iff_not, Bool.not_eq_true, Bool.not_eq_true, forwardsDiffer_perm, forwardsDiffer_perm]
    exact ((hperm.map _).congr_left _).trans ((hperm'.map _).congr_right _)
  · rw [forwardsDiffer_iff]
    refine ⟨configured, ?_, .refl _⟩
    rw [List.map_map]
    exact List.map_congr_left fun forward _ => PortForward.fromStr_display forward

end Firestone
